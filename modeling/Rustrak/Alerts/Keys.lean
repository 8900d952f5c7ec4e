import Rustrak.Alerts.Rules

/-!
# What `LIKE` finds

Whether a rule has recorded an event is told by a `LIKE` on the key of its rows: by the
event's alert id and anything behind it, or by what the id was before it carried the project.
The alert type has an underscore in it, which matches any character, and nothing but the
hyphens keeps one part of a key from the next.  `recorded_iff` says that the rows of the event
are found and no others: of a number its digits end at the hyphen, a UUID has its length, and
no type is matched by another.
-/

namespace Rustrak.Alerts

open Rustrak.Core Rustrak.Digest Rustrak.Relational

/-- The digits, the small letters, the hyphen and the underscore. -/
def Plain (c : Char) : Prop := c.isDigit ∨ c.isLower ∨ c = '-' ∨ c = '_'

instance (c : Char) : Decidable (Plain c) := inferInstanceAs (Decidable (_ ∨ _))

/-- Decided for the characters of a text, one after another. -/
theorem forall_mem_text {p : Char → Prop} [DecidablePred p] {text : List Char}
    (h : (text.all fun c => decide (p c)) = true) : ∀ c ∈ text, p c :=
  fun c hc => of_decide_eq_true (List.all_eq_true.mp h c hc)

theorem toLower_of_plain {c : Char} (h : Plain c) : c.toLower = c := by
  have hupper : ¬(c.val ≥ 'A'.val ∧ c.val ≤ 'Z'.val) := by
    rintro ⟨hge, hle⟩
    rw [ge_iff_le, UInt32.le_iff_toNat_le] at hge
    rw [UInt32.le_iff_toNat_le] at hle
    rcases h with hdigit | hlower | rfl | rfl
    · have hnine : c.val ≤ '9'.val := of_decide_eq_true (Bool.and_eq_true_iff.mp hdigit).2
      rw [UInt32.le_iff_toNat_le] at hnine
      have hdigits : '9'.val.toNat < 'A'.val.toNat := by decide
      omega
    · have hsmall : 'a'.val ≤ c.val := of_decide_eq_true (Bool.and_eq_true_iff.mp hlower).1
      rw [UInt32.le_iff_toNat_le] at hsmall
      have hcases : 'Z'.val.toNat < 'a'.val.toNat := by decide
      omega
    · exact absurd hge (by decide)
    · exact absurd hle (by decide)
  exact dif_neg hupper

theorem same_plain (b : Backend) (c d : Char) (hc : Plain c) (hd : Plain d) :
    b.same c d = true ↔ c = d := by
  cases b with
  | postgres => exact beq_iff_eq
  | sqlite =>
      show (c.toLower == d.toLower) = true ↔ c = d
      rw [toLower_of_plain hc, toLower_of_plain hd, beq_iff_eq]

theorem plain_of_isHex {c : Char} (h : isHex c = true) :
    Plain c ∧ c ≠ '_' ∧ c ≠ '-' ∧ c ≠ '%' := by
  have hall : ∀ c ∈ "0123456789abcdef".toList, Plain c ∧ c ≠ '_' ∧ c ≠ '-' ∧ c ≠ '%' :=
    forall_mem_text (by decide)
  exact hall c (List.contains_iff_mem.mp h)

/-- The first group and what is behind its hyphen. -/
theorem isGroups_cons {n m : Nat} {ns : List Nat} {cs : List Char}
    (h : isGroups (n :: m :: ns) cs = true) : ∃ group rest, cs = group ++ '-' :: rest ∧
      group.length = n ∧ (∀ c ∈ group, isHex c = true) ∧ isGroups (m :: ns) rest = true := by
  simp only [isGroups, Bool.and_eq_true, beq_iff_eq, List.all_eq_true] at h
  obtain ⟨⟨⟨hlength, hhex⟩, hhead⟩, hrest⟩ := h
  obtain ⟨rest, hdrop⟩ := List.head?_eq_some_iff.mp hhead
  refine ⟨cs.take n, cs.drop (n + 1), ?_, hlength, hhex, hrest⟩
  have htail : cs.drop (n + 1) = rest := by
    rw [← List.drop_drop, hdrop]
    rfl
  rw [htail, ← hdrop, List.take_append_drop]

theorem isGroups_last {n : Nat} {cs : List Char} (h : isGroups [n] cs = true) :
    cs.length = n ∧ ∀ c ∈ cs, isHex c = true := by
  simpa [isGroups] using h

theorem length_of_isGroups {ns : List Nat} {cs : List Char} (h : isGroups ns cs = true) :
    cs.length + 1 = ns.sum + ns.length := by
  induction ns generalizing cs with
  | nil => cases h
  | cons n ns ih =>
      cases ns with
      | nil => simp [(isGroups_last h).1]
      | cons m ns =>
          obtain ⟨group, rest, rfl, hlength, _, hrest⟩ := isGroups_cons h
          have hsum := ih hrest
          simp only [List.sum_cons, List.length_cons, List.length_append] at hsum ⊢
          omega

theorem isHex_of_isGroups {ns : List Nat} {cs : List Char} (h : isGroups ns cs = true) :
    ∀ c ∈ cs, isHex c = true ∨ c = '-' := by
  induction ns generalizing cs with
  | nil => cases h
  | cons n ns ih =>
      intro c hc
      cases ns with
      | nil => exact .inl ((isGroups_last h).2 c hc)
      | cons m ns =>
          obtain ⟨group, rest, rfl, _, hgroup, hrest⟩ := isGroups_cons h
          rcases List.mem_append.mp hc with hc | hc
          · exact .inl (hgroup c hc)
          · rcases List.mem_cons.mp hc with rfl | hc
            · exact .inr rfl
            · exact ih hrest c hc

theorem plain_uuid {id : Uuid} (h : IsUuid id) :
    ∀ c ∈ id.toList, Plain c ∧ c ≠ '_' ∧ c ≠ '%' := by
  intro c hc
  rcases isHex_of_isGroups h c hc with hhex | rfl
  · obtain ⟨hplain, hwild, _, hpercent⟩ := plain_of_isHex hhex
    exact ⟨hplain, hwild, hpercent⟩
  · decide

/-- The decimal of an id of a table, which is drawn from a sequence that begins with one. -/
theorem plain_serial {n : Int} (h : 0 < n) :
    ∀ c ∈ (toString n).toList, Plain c ∧ c ≠ '_' ∧ c ≠ '-' ∧ c ≠ '%' := by
  intro c hc
  obtain ⟨m, rfl⟩ := Int.eq_ofNat_of_zero_le h.le
  have hrepr : (toString (m : Int)).toList = Nat.toDigits 10 m := Nat.toList_repr
  rw [hrepr] at hc
  have hdigit := Nat.isDigit_of_mem_toDigits (by decide) (by decide) hc
  refine ⟨.inl hdigit, ?_, ?_, ?_⟩ <;> rintro rfl <;> exact absurd hdigit (by decide)

/-! ## Alert ids -/

variable {b : Backend} {p p' : Int} {u u' : Uuid} {t t' : AlertType} {rest : List Char}

/-- No type is matched by another, whatever its underscore stands for. -/
theorem fits_name : fits b.same (t.name ++ "-").toList (t'.name.toList ++ '-' :: rest) = true ↔
    t = t' := by
  constructor
  · intro h
    cases b <;> cases t <;> cases t' <;> first | rfl | simp [fits, AlertType.name, Backend.same] at h
  · rintro rfl
    have hplain : ∀ c ∈ (t.name ++ "-").toList, Plain c := by
      cases t <;> exact forall_mem_text (by decide)
    have htext : t.name.toList ++ '-' :: rest = (t.name ++ "-").toList ++ rest := by simp
    rw [htext]
    exact fits_append (same_plain b) hplain

theorem toString_inj (hp : 0 < p) (hp' : 0 < p') (h : (toString p).toList = (toString p').toList) :
    p = p' := by
  obtain ⟨n, rfl⟩ := Int.eq_ofNat_of_zero_le hp.le
  obtain ⟨n', rfl⟩ := Int.eq_ofNat_of_zero_le hp'.le
  have hdigits : Nat.toDigits 10 n = Nat.toDigits 10 n' := by
    rw [← Nat.toList_repr, ← Nat.toList_repr]
    exact h
  rw [← Nat.ofDigitChars_ten_toDigits (n := n), hdigits, Nat.ofDigitChars_ten_toDigits]

/-- The alert id of an event, and a hyphen, matches the keys of that alert. -/
theorem like_alertId (hp : 0 < p) (hp' : 0 < p') (hu : IsUuid u) (hu' : IsUuid u') (text : String) :
    b.like (eventAlertId p u t ++ "-%") (eventAlertId p' u' t' ++ "-" ++ text) = true ↔
      p = p' ∧ u = u' ∧ t = t' := by
  have hpattern : (eventAlertId p u t ++ "-%").toList =
      ("event".toList ++ '-' :: ((toString p).toList ++ '-' :: (u.toList ++ '-' ::
        (t.name ++ "-").toList))) ++ ['%'] := by
    simp [eventAlertId]
  have htext : (eventAlertId p' u' t' ++ "-" ++ text).toList =
      "event".toList ++ '-' :: ((toString p').toList ++ '-' :: (u'.toList ++ '-' ::
        (t'.name.toList ++ '-' :: text.toList))) := by
    simp [eventAlertId]
  have hpercent : '%' ∉ "event".toList ++ '-' :: ((toString p).toList ++ '-' :: (u.toList ++ '-' ::
      (t.name ++ "-").toList)) := by
    have hname : '%' ∉ (t.name ++ "-").toList := by cases t <;> decide
    simp only [List.mem_append, List.mem_cons, not_or]
    exact ⟨by decide, by decide, fun h => (plain_serial hp _ h).2.2.2 rfl, by decide,
      fun h => (plain_uuid hu _ h).2.2 rfl, by decide, hname⟩
  have hlength : (u.toList ++ ['-']).length = (u'.toList ++ ['-']).length := by
    have h := length_of_isGroups hu
    have h' := length_of_isGroups hu'
    simp only [List.length_append, List.length_singleton]
    omega
  have hchunk : ∀ {u : Uuid}, IsUuid u → ∀ c ∈ u.toList ++ ['-'], Plain c ∧ c ≠ '_' := by
    intro u hu c hc
    rcases List.mem_append.mp hc with hc | hc
    · exact ⟨(plain_uuid hu c hc).1, (plain_uuid hu c hc).2.1⟩
    · rw [List.mem_singleton.mp hc]
      decide
  unfold Backend.like
  rw [hpattern, htext, like_stem hpercent,
    fits_cut (same_plain b) (by decide) (by decide) (forall_mem_text (by decide))
      (forall_mem_text (by decide)),
    fits_cut (same_plain b) (by decide) (by decide)
      (fun c hc => ⟨(plain_serial hp c hc).1, (plain_serial hp c hc).2.1, (plain_serial hp c hc).2.2.1⟩)
      (fun c hc => ⟨(plain_serial hp' c hc).1, (plain_serial hp' c hc).2.2.1⟩),
    List.append_cons u.toList, List.append_cons u'.toList,
    fits_chunk (same_plain b) hlength (hchunk hu) fun c hc => (hchunk hu' c hc).1,
    fits_name]
  constructor
  · rintro ⟨_, hnumber, hid, htype⟩
    exact ⟨toString_inj hp hp' hnumber, String.toList_inj.mp (List.append_cancel_right hid), htype⟩
  · rintro ⟨rfl, rfl, rfl⟩
    exact ⟨rfl, rfl, rfl, rfl⟩

/-- A key that carries the project is none of those that did not: the digits of the project
would be the first group of the UUID, and the first group of the other the second. -/
theorem not_like_legacy (hp' : 0 < p') (hu : IsUuid u) (hu' : IsUuid u')
    (text : String) {pattern : String} (hpattern : legacyPattern p (eventAlertId p u t) = some pattern) :
    b.like pattern (eventAlertId p' u' t' ++ "-" ++ text) = false := by
  have hrest : pattern = "event-" ++ (u ++ "-" ++ t.name) ++ "-%" := by
    have hid : eventAlertId p u t =
        "event-" ++ toString p ++ "-" ++ (u ++ "-" ++ t.name) := by
      simp [eventAlertId, String.append_assoc]
    unfold legacyPattern at hpattern
    rw [hid, stripPrefix_append] at hpattern
    exact (Option.some.inj hpattern).symm
  obtain ⟨first, behind, hfirst, hlength, hhex, hbehind⟩ := isGroups_cons hu
  obtain ⟨second, behind₂, hsecond, hlength₂, hhex₂, _⟩ := isGroups_cons hbehind
  obtain ⟨first', behind', hfirst', hlength', hhex', _⟩ := isGroups_cons hu'
  have hstem : pattern.toList = ("event".toList ++ '-' :: (first ++ '-' :: (second ++ '-' ::
      (behind₂ ++ '-' :: (t.name ++ "-").toList)))) ++ ['%'] := by
    simp [hrest, hfirst, hsecond]
  have htext : (eventAlertId p' u' t' ++ "-" ++ text).toList = "event".toList ++ '-' ::
      ((toString p').toList ++ '-' :: (first' ++ '-' :: (behind' ++ '-' ::
        (t'.name.toList ++ '-' :: text.toList)))) := by
    simp [eventAlertId, hfirst']
  have hpercent : '%' ∉ "event".toList ++ '-' :: (first ++ '-' :: (second ++ '-' ::
      (behind₂ ++ '-' :: (t.name ++ "-").toList))) := by
    have hname : '%' ∉ (t.name ++ "-").toList := by cases t <;> decide
    have hid : '%' ∉ first ++ '-' :: (second ++ '-' :: behind₂) := by
      rw [← hsecond, ← hfirst]
      exact fun h => (plain_uuid hu _ h).2.2 rfl
    simp only [List.mem_append, List.mem_cons, not_or] at hid ⊢
    exact ⟨by decide, by decide, hid.1, by decide, hid.2.2.1, by decide, hid.2.2.2.2, by decide,
      hname⟩
  have hgroup : ∀ {group : List Char}, (∀ c ∈ group, isHex c = true) →
      ∀ c ∈ group, Plain c ∧ c ≠ '_' ∧ c ≠ '-' := by
    intro group hhex c hc
    obtain ⟨hplain, hwild, hsep, _⟩ := plain_of_isHex (hhex c hc)
    exact ⟨hplain, hwild, hsep⟩
  rw [Backend.like, hstem, htext, like_stem hpercent, Bool.eq_false_iff, ne_eq,
    fits_cut (same_plain b) (by decide) (by decide) (forall_mem_text (by decide))
      (forall_mem_text (by decide)),
    fits_cut (same_plain b) (by decide) (by decide) (hgroup hhex)
      (fun c hc => ⟨(plain_serial hp' c hc).1, (plain_serial hp' c hc).2.2.1⟩),
    fits_cut (same_plain b) (by decide) (by decide) (hgroup hhex₂)
      (fun c hc => ⟨(hgroup hhex' c hc).1, (hgroup hhex' c hc).2.2⟩)]
  rintro ⟨_, _, hsame, _⟩
  rw [hsame, hlength'] at hlength₂
  exact absurd hlength₂ (by decide)

/-! ## What the rules have recorded -/

/-- A row as a firing writes it, whose rule may be gone since. -/
structure ProperRow (row : AlertRow) : Prop where
  alertId : ∃ p u, 0 < p ∧ IsUuid u ∧ row.alertId = eventAlertId p u row.alertType
  key : ∃ ruleId, 0 < ruleId ∧
    row.idempotencyKey = idempotencyKey row.alertId ruleId row.integrationId ∧
    ∀ id, row.ruleId = some id → id = ruleId
  channel : 0 < row.integrationId

theorem eventAlertId_inj (hp : 0 < p) (hp' : 0 < p') (hu : IsUuid u) (hu' : IsUuid u') :
    eventAlertId p u t = eventAlertId p' u' t' ↔ p = p' ∧ u = u' ∧ t = t' := by
  constructor
  · intro h
    have hself : Backend.postgres.like (eventAlertId p' u' t' ++ "-%")
        (eventAlertId p' u' t' ++ "-" ++ "") = true :=
      (like_alertId hp' hp' hu' hu' "").mpr ⟨rfl, rfl, rfl⟩
    nth_rewrite 2 [← h] at hself
    obtain ⟨hproject, hid, htype⟩ := (like_alertId hp' hp hu' hu "").mp hself
    exact ⟨hproject.symm, hid.symm, htype.symm⟩
  · rintro ⟨rfl, rfl, rfl⟩
    rfl

/-- The alert, the rule and the channel of a key. -/
theorem idempotencyKey_inj {ruleId ruleId' channel channel' : Int} (hp : 0 < p) (hp' : 0 < p')
    (hu : IsUuid u) (hu' : IsUuid u') (hrule : 0 < ruleId) (hrule' : 0 < ruleId')
    (hchannel : 0 < channel) (hchannel' : 0 < channel')
    (h : idempotencyKey (eventAlertId p u t) ruleId channel =
      idempotencyKey (eventAlertId p' u' t') ruleId' channel') :
    eventAlertId p u t = eventAlertId p' u' t' ∧ ruleId = ruleId' ∧ channel = channel' := by
  have hself : Backend.postgres.like (eventAlertId p u t ++ "-%")
      (eventAlertId p u t ++ "-" ++ (toString ruleId ++ "-" ++ toString channel)) = true :=
    (like_alertId hp hp hu hu _).mpr ⟨rfl, rfl, rfl⟩
  have hother : eventAlertId p u t ++ "-" ++ (toString ruleId ++ "-" ++ toString channel) =
      eventAlertId p' u' t' ++ "-" ++ (toString ruleId' ++ "-" ++ toString channel') := by
    simpa [idempotencyKey, String.append_assoc] using h
  rw [hother, like_alertId hp hp' hu hu'] at hself
  obtain ⟨rfl, rfl, rfl⟩ := hself
  have hrest : (toString ruleId).toList ++ '-' :: (toString channel).toList =
      (toString ruleId').toList ++ '-' :: (toString channel').toList := by
    have hlists := congrArg String.toList hother
    simpa [eventAlertId] using hlists
  have hplain : ∀ {n : Int}, 0 < n → ∀ c ∈ (toString n).toList, Plain c ∧ c ≠ '_' ∧ c ≠ '-' := by
    intro n hn c hc
    obtain ⟨hc, hwild, hsep, _⟩ := plain_serial hn c hc
    exact ⟨hc, hwild, hsep⟩
  have hall : ∀ c ∈ (toString ruleId).toList ++ '-' :: (toString channel).toList, Plain c := by
    intro c hc
    rcases List.mem_append.mp hc with hc | hc
    · exact (hplain hrule c hc).1
    · rcases List.mem_cons.mp hc with rfl | hc
      · decide
      · exact (hplain hchannel c hc).1
  have hfits : fits Backend.postgres.same
      ((toString ruleId).toList ++ '-' :: (toString channel).toList)
      ((toString ruleId).toList ++ '-' :: (toString channel).toList ++ []) = true :=
    fits_append (same_plain .postgres) hall
  rw [List.append_nil] at hfits
  nth_rewrite 2 [hrest] at hfits
  have hcut := (fits_cut (same_plain .postgres) (by decide) (by decide) (hplain hrule)
    fun c hc => ⟨(hplain hrule' c hc).1, (hplain hrule' c hc).2.2⟩).mp hfits
  obtain rfl := toString_inj hrule hrule' hcut.1
  obtain rfl := toString_inj hchannel hchannel'
    (List.cons.inj (List.append_cancel_left hrest)).2
  exact ⟨rfl, rfl, rfl⟩

/-- What the rule has recorded of an event are the rows of its alert. -/
theorem recorded_iff {history : List AlertRow} {rule : AlertRule}
    (hhistory : ∀ row ∈ history, ProperRow row) (hp : 0 < p) (hu : IsUuid u) :
    recorded b history rule p (eventAlertId p u t) = true ↔
      ∃ row ∈ history, row.ruleId = some rule.id ∧ row.alertId = eventAlertId p u t := by
  unfold recorded
  rw [List.any_eq_true]
  refine exists_congr fun row => and_congr_right fun hrow => ?_
  obtain ⟨⟨p', u', hp', hu', hid⟩, ⟨ruleId, _, hkey, _⟩, _⟩ := hhistory row hrow
  have htext : row.idempotencyKey = eventAlertId p' u' row.alertType ++ "-" ++
      (toString ruleId ++ "-" ++ toString row.integrationId) := by
    rw [hkey, hid]
    simp [idempotencyKey, String.append_assoc]
  have hlegacy : (legacyPattern p (eventAlertId p u t)).any
      (fun pattern => b.like pattern row.idempotencyKey) = false := by
    rw [Option.any_eq_false]
    intro pattern hpattern
    rw [htext, not_like_legacy hp' hu hu' _ hpattern]
  rw [hlegacy, Bool.and_false, Bool.or_false, Bool.and_eq_true, beq_iff_eq, htext,
    like_alertId hp hp' hu hu', hid, eventAlertId_inj hp' hp hu' hu]
  exact and_congr_right fun _ => ⟨fun ⟨h₁, h₂, h₃⟩ => ⟨h₁.symm, h₂.symm, h₃.symm⟩,
    fun ⟨h₁, h₂, h₃⟩ => ⟨h₁.symm, h₂.symm, h₃.symm⟩⟩

end Rustrak.Alerts
