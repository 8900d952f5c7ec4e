import Rustrak.Alerts.Delivery

/-!
# Batches that fit their lease

Three sends of thirty seconds end before the lease of two minutes does, whatever comes
between them; the fourth may end with it.  The invariant is `DispatchTask.Fits`: there is time
left for the rows a task still has, and for one more.
-/

namespace Rustrak.Alerts

open Rustrak.Claiming Rustrak.Transition

variable {b : Backend} {s s' : DeliveryState} {id i : Nat} {t t' : DispatchTask}

/-- Batches of at most three rows. -/
def DeliveryLabel.Short : DeliveryLabel → Prop
  | .fire _ channels _ => channels ≤ 3
  | .claim _ batch => batch.length ≤ 3
  | _ => True

/-- Since when the next of its rows has been the task's business. -/
def DispatchTask.turnedAt (t : DispatchTask) (now : Nat) : Nat := (t.sending.map Prod.snd).getD now

/-- There is time for all the rows that are left, and for one more. -/
def DispatchTask.Fits (t : DispatchTask) (now : Nat) : Prop :=
  t.rows ≠ [] → now ≤ t.turnedAt now + sendTimeout ∧
    t.turnedAt now + sendTimeout * (t.rows.length + 1) ≤ t.lease

def DeliveryState.Fits (s : DeliveryState) : Prop := ∀ t ∈ s.tasks, t.Fits s.now

theorem alive_of_fits {now : Nat} (h : t.Fits now) (hrows : t.rows ≠ []) : Alive b now t.lease := by
  obtain ⟨hnow, hroom⟩ := h hrows
  have hone := List.length_pos_of_ne_nil hrows
  have hspare : now + b.resolution ≤ t.lease := by
    have htimeout : sendTimeout * 2 ≤ sendTimeout * (t.rows.length + 1) :=
      Nat.mul_le_mul_left _ (by omega)
    have hresolution : b.resolution ≤ sendTimeout := by cases b <;> decide
    omega
  have hpos : 0 < b.resolution := by cases b <;> decide
  unfold Alive Backend.due
  simp only [Option.all_some, decide_eq_false_iff_not]
  have hdiv := Nat.div_le_div_right (c := b.resolution) hspare
  rw [Nat.add_div_right _ hpos] at hdiv
  omega

/-- A task with nothing in flight and fewer rows than before. -/
theorem DispatchTask.Fits.fewer {now : Nat} (h : t.Fits now) (hsending : t'.sending = none)
    (hlease : t'.lease = t.lease) (hrows : t'.rows.length < t.rows.length) : t'.Fits now := by
  intro _
  have hne : t.rows ≠ [] := List.ne_nil_of_length_pos (Nat.zero_lt_of_lt hrows)
  obtain ⟨hnow, hroom⟩ := h hne
  have hturned : t'.turnedAt now = now := by simp [DispatchTask.turnedAt, hsending]
  have htimeout : sendTimeout * (t'.rows.length + 1) + sendTimeout ≤
      sendTimeout * (t.rows.length + 1) := by
    rw [← Nat.mul_succ]
    exact Nat.mul_le_mul_left _ (by omega)
  rw [hturned, hlease]
  omega

theorem DispatchTask.Fits.wait {now micros : Nat} (h : t.Fits now) (hlets : t.lets (now + micros)) :
    t.Fits (now + micros) := by
  intro hrows
  obtain ⟨_, hroom⟩ := h hrows
  unfold DispatchTask.lets at hlets
  cases hsending : t.sending with
  | none =>
      simp only [hsending, List.isEmpty_iff] at hlets
      simp [DispatchTask.rows, hsending, hlets] at hrows
  | some sent =>
      simp only [hsending, decide_eq_true_eq] at hlets
      simp only [DispatchTask.turnedAt, hsending, Option.map_some, Option.getD_some] at hroom ⊢
      exact ⟨hlets, hroom⟩

theorem DeliveryState.Fits.put (h : s.Fits) (ht : t.Fits s.now) : (s.put i t).Fits := by
  intro u hu
  rcases mem_put hu with hu | rfl
  · exact h u hu
  · exact ht

theorem DeliveryState.Fits.record {f : HistoryRow → HistoryRow} (h : s.Fits) :
    (s.record id f).Fits := h

/-- A short batch fits when it is taken. -/
theorem fits_of_short {queue : List Queued} {process : Nat} {worker : Bool}
    (hshort : queue.length ≤ 3) (now : Nat) :
    DispatchTask.Fits ⟨process, worker, now + retryClaimLease, queue, none⟩ now := by
  intro _
  simp only [DispatchTask.turnedAt, DispatchTask.rows, Option.map_none, Option.getD_none,
    Option.toList_none, List.nil_append, List.length_map]
  have htimeout : sendTimeout * (queue.length + 1) ≤ sendTimeout * 4 :=
    Nat.mul_le_mul_left _ (by omega)
  have hlease : sendTimeout * 4 = retryClaimLease := by decide
  omega

theorem DeliveryState.Fits.append {rows : List HistoryRow} (h : s.Fits) (ht : t.Fits s.now) :
    DeliveryState.Fits { s with rows := rows, tasks := s.tasks ++ [t] } := by
  intro u hu
  rcases List.mem_append.mp hu with hu | hu
  · exact h u hu
  · obtain rfl := List.mem_singleton.mp hu
    exact ht

theorem fits_done {now : Nat} (h : t.Fits now) (hsends : t.sending.isSome) :
    DispatchTask.Fits { t with sending := none } now := by
  obtain ⟨sent, hsends⟩ := Option.isSome_iff_exists.mp hsends
  refine h.fewer rfl rfl ?_
  simp [DispatchTask.rows, hsends]

theorem DeliveryState.Fits.step {label : DeliveryLabel} (h : s.Fits) (hstep : Steps b s label s')
    (hshort : label.Short) : s'.Fits ∧ Prompt b s label := by
  cases label with
  | wait micros =>
      obtain ⟨hlets, hstep⟩ := Option.ite_none_right_eq_some.mp hstep
      obtain rfl := Option.some.inj hstep
      have hfits : ∀ t ∈ s.tasks, t.Fits (s.now + micros) := fun t ht =>
        (h t ht).wait (List.all_eq_true.mp hlets t ht)
      refine ⟨hfits, fun t ht hsome => alive_of_fits (hfits t ht) ?_⟩
      obtain ⟨sent, hsends⟩ := Option.isSome_iff_exists.mp hsome
      simp [DispatchTask.rows, hsends]
  | fire process channels suppressed =>
      refine ⟨?_, trivial⟩
      cases suppressed with
      | true =>
          obtain rfl := Option.some.inj hstep
          exact h
      | false =>
          obtain rfl := Option.some.inj hstep
          have hlength : channels ≤ 3 := hshort
          exact h.append (fits_of_short (by simpa using hlength) s.now)
  | claim process batch =>
      obtain ⟨_, hstep⟩ := Option.ite_none_right_eq_some.mp hstep
      obtain rfl := Option.some.inj hstep
      have hlength : batch.length ≤ 3 := hshort
      exact ⟨h.append (fits_of_short (by simpa using hlength) s.now), trivial⟩
  | send i =>
      obtain ⟨⟨t, q⟩, hnext, rfl⟩ := Option.map_eq_some_iff.mp hstep
      obtain ⟨hnone, ht⟩ := next_eq_some hnext
      have hfits := h _ (List.mem_of_getElem? ht)
      refine ⟨h.put fun _ => ?_, fun u hu => ?_⟩
      · obtain ⟨_, hroom⟩ := hfits (by simp [DispatchTask.rows])
        simp only [DispatchTask.turnedAt, DispatchTask.rows, hnone, Option.map_none,
          Option.getD_none, Option.toList_none, List.nil_append, List.length_map,
          List.length_cons] at hroom
        simp only [DispatchTask.turnedAt, DispatchTask.rows, Option.map_some, Option.getD_some,
          Option.toList_some, List.length_append, List.length_map, List.length_singleton]
        rw [Nat.add_comm 1]
        exact ⟨Nat.le_add_right _ _, hroom⟩
      · obtain rfl := Option.some.inj (ht.symm.trans hu)
        exact alive_of_fits hfits (by simp [DispatchTask.rows])
  | giveUp i clears =>
      obtain ⟨⟨t, q⟩, hnext, hstep⟩ := Option.bind_eq_some_iff.mp hstep
      obtain ⟨hnone, ht⟩ := next_eq_some hnext
      obtain ⟨_, hstep⟩ := Option.ite_none_right_eq_some.mp hstep
      obtain rfl := Option.some.inj hstep
      have hfits := h _ (List.mem_of_getElem? ht)
      refine ⟨DeliveryState.Fits.record (h.put (hfits.fewer hnone rfl ?_)), fun u hu => ?_⟩
      · simp [DispatchTask.rows]
      · obtain rfl := Option.some.inj (ht.symm.trans hu)
        exact alive_of_fits hfits (by simp [DispatchTask.rows])
  | skip i =>
      obtain ⟨⟨t, q⟩, hnext, rfl⟩ := Option.map_eq_some_iff.mp hstep
      obtain ⟨hnone, ht⟩ := next_eq_some hnext
      refine ⟨h.put ((h _ (List.mem_of_getElem? ht)).fewer hnone rfl ?_), trivial⟩
      simp [DispatchTask.rows]
  | finish i result =>
      obtain ⟨t, ht, hstep⟩ := Option.bind_eq_some_iff.mp hstep
      obtain ⟨⟨q, since⟩, hsends, rfl⟩ := Option.map_eq_some_iff.mp hstep
      have hfits := fits_done (h _ (List.mem_of_getElem? ht)) (by simp [hsends])
      exact ⟨DeliveryState.Fits.record (h.put hfits), trivial⟩
  | abort i =>
      obtain ⟨t, ht, hstep⟩ := Option.bind_eq_some_iff.mp hstep
      obtain ⟨hidle, hstep⟩ := Option.ite_none_right_eq_some.mp hstep
      obtain rfl := Option.some.inj hstep
      refine ⟨h.put fun hrows => absurd ?_ hrows, trivial⟩
      have hnone : t.sending = none := by simp_all
      simp [DispatchTask.rows, hnone]
  | crash process =>
      obtain rfl := Option.some.inj hstep
      refine ⟨fun u hu => ?_, trivial⟩
      obtain ⟨t, ht, rfl⟩ := List.mem_map.mp hu
      split_ifs
      · exact fun hrows => absurd rfl hrows
      · exact h t ht

theorem DeliveryState.Fits.nil (h : s.tasks = []) : s.Fits := by
  simp [DeliveryState.Fits, h]

theorem DeliveryState.Fits.run {labels : List DeliveryLabel} (h : s.Fits)
    (hrun : Run (Steps b) s labels s') (hshort : ∀ label ∈ labels, label.Short) :
    s'.Fits ∧ Run (PromptSteps b) s labels s' := by
  induction hrun with
  | nil s => exact ⟨h, .nil s⟩
  | cons hstep _ ih =>
      obtain ⟨hmid, hprompt⟩ := h.step hstep (hshort _ (List.mem_cons_self ..))
      obtain ⟨hfits, hrest⟩ := ih hmid fun _ hlabel => hshort _ (List.mem_cons_of_mem _ hlabel)
      exact ⟨hfits, .cons ⟨hstep, hprompt⟩ hrest⟩

/-- Where no batch has more than three rows the lease outlasts the work. -/
theorem short_batches_are_prompt {start final : DeliveryState} {labels : List DeliveryLabel}
    (hstart : start.tasks = []) (hrun : Run (Steps b) start labels final)
    (hshort : ∀ label ∈ labels, label.Short) : Run (PromptSteps b) start labels final :=
  ((DeliveryState.Fits.nil hstart).run hrun hshort).2

end Rustrak.Alerts
