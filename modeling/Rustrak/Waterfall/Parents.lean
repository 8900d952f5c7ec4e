import Rustrak.Forest.Trees
import Rustrak.Waterfall.Payload

/-!
# Whether a transaction's rows are a tree

A span's parent is looked for among all the spans, but only those with both timestamps are rows;
and spans can be each other's parents.  The rows are a tree just if neither happens.
-/

namespace Rustrak.Waterfall

open Relation Rustrak.Forest

/-! ## Trees -/

/-- Following parents leads to a row without one. -/
inductive ReachesRoot (rows : List WaterfallRow) : WaterfallRow → Prop
  | root {row : WaterfallRow} (h : row.parentId = none) : ReachesRoot rows row
  | up {row parent : WaterfallRow} (hparent : parent ∈ rows) (h : row.parentId = some parent.id)
      (hup : ReachesRoot rows parent) : ReachesRoot rows row

def hasClock (span : Span) : Bool := span.startTimestamp.isSome && span.timestamp.isSome

namespace TransactionPayload

variable (payload : TransactionPayload)

/-- The spans that are rows, with their positions. -/
def timed : List (Span × ℕ) := payload.spans.zipIdx.filter fun span => hasClock span.1

/-- The ids of the spans, that of a row without one included, and of the root. -/
def allIds : List String :=
  payload.rootId :: payload.spans.zipIdx.filterMap fun span =>
    if hasClock span.1 then some (idOf span) else span.1.spanId

/-- A span names another as its parent. -/
def Names (a b : Span × ℕ) : Prop :=
  b ∈ payload.timed ∧ ∃ parent, parent ≠ "" ∧ a.1.parentSpanId = some parent ∧
    b.1.spanId = some parent

/-- The parents that spans with both timestamps name have both, and do not lead around. -/
structure WellLinked : Prop where
  clocked : ∀ a ∈ payload.timed, ∀ other ∈ payload.spans, hasClock other = false →
    ∀ parent, parent ≠ "" → a.1.parentSpanId = some parent → other.spanId ≠ some parent
  acyclic : ∀ a ∈ payload.timed, ¬TransGen payload.Names a a

end TransactionPayload

/-- The rows of a transaction are a tree with its root. -/
structure IsTree (payload : TransactionPayload) (rows : List WaterfallRow) : Prop where
  root_alone : ∃ root rest, rows = root :: rest ∧ root.id = payload.rootId ∧
    root.parentId = none ∧ ∀ row ∈ rest, row.parentId ≠ none
  parent_known : ∀ row ∈ rows, ∀ parent, row.parentId = some parent → parent ∈ rows.map (·.id)
  reaches : ∀ row ∈ rows, ReachesRoot rows row
  hangs : ∀ a ∈ payload.timed,
    (∀ parent, a.1.parentSpanId = some parent → parent ∉ rows.map (·.id)) →
      ∀ row ∈ rows, row.id = TransactionPayload.idOf a → row.parentId = some payload.rootId

/-! ## The rows of the spans -/

open TransactionPayload

variable {payload : TransactionPayload} {name : String} {a b c : Span × ℕ} {row : WaterfallRow}

theorem mem_timed : a ∈ payload.timed ↔ a ∈ payload.spans.zipIdx ∧ hasClock a.1 = true :=
  List.mem_filter

theorem exists_spanRow (h : hasClock a.1 = true) : ∃ plain, payload.spanRow a = some plain ∧
    plain.id = idOf a ∧ plain.parentId = some (payload.parentIdOf a.1) := by
  obtain ⟨hstart, hfinish⟩ := Bool.and_eq_true_iff.mp h
  obtain ⟨start, hstart⟩ := Option.isSome_iff_exists.mp hstart
  obtain ⟨finish, hfinish⟩ := Option.isSome_iff_exists.mp hfinish
  rw [spanRow, hstart, hfinish]
  exact ⟨_, rfl, rfl, rfl⟩

theorem hasClock_of_spanRow {plain : PlainRow} (h : payload.spanRow a = some plain) :
    hasClock a.1 = true := by
  rw [spanRow] at h
  rw [hasClock]
  cases hstart : a.1.startTimestamp with
  | none =>
      rw [hstart] at h
      cases h
  | some start =>
      cases hfinish : a.1.timestamp with
      | none =>
          rw [hstart, hfinish] at h
          cases h
      | some finish => rfl

/-- A row is the root's, or that of a span with both timestamps. -/
theorem mem_waterfallSpans (h : row ∈ waterfallSpans payload name) :
    (row.id = payload.rootId ∧ row.parentId = none) ∨
      ∃ a ∈ payload.timed, row.id = idOf a ∧ row.parentId = some (payload.parentIdOf a.1) := by
  obtain ⟨plain, hplain, rfl⟩ := List.mem_map.mp h
  rcases List.mem_cons.mp hplain with rfl | hplain
  · exact .inl ⟨rfl, rfl⟩
  · obtain ⟨a, ha, hrow⟩ := List.mem_filterMap.mp hplain
    have hclock := hasClock_of_spanRow hrow
    obtain ⟨other, hother, hid, hparent⟩ := @exists_spanRow payload a hclock
    obtain rfl : other = plain := Option.some.inj (hother.symm.trans hrow)
    exact .inr ⟨a, mem_timed.mpr ⟨ha, hclock⟩, hid, hparent⟩

theorem exists_rootRow : ∃ row ∈ waterfallSpans payload name,
    row.id = payload.rootId ∧ row.parentId = none :=
  ⟨_, List.mem_cons_self, rfl, rfl⟩

theorem exists_row (h : a ∈ payload.timed) : ∃ row ∈ waterfallSpans payload name,
    row.id = idOf a ∧ row.parentId = some (payload.parentIdOf a.1) := by
  obtain ⟨hmem, hclock⟩ := mem_timed.mp h
  obtain ⟨plain, hplain, hid, hparent⟩ := @exists_spanRow payload a hclock
  refine ⟨withSelfMs (payload.plainRows name) plain, List.mem_map_of_mem ?_, hid, hparent⟩
  exact List.mem_cons_of_mem _ (List.mem_filterMap.mpr ⟨a, hmem, hplain⟩)

theorem mem_ids_waterfallSpans {id : String} : id ∈ (waterfallSpans payload name).map (·.id) ↔
    id = payload.rootId ∨ ∃ a ∈ payload.timed, id = idOf a := by
  constructor
  · intro h
    obtain ⟨row, hrow, rfl⟩ := List.mem_map.mp h
    rcases mem_waterfallSpans hrow with ⟨hid, -⟩ | ⟨a, ha, hid, -⟩
    · exact .inl hid
    · exact .inr ⟨a, ha, hid⟩
  · rintro (rfl | ⟨a, ha, rfl⟩)
    · obtain ⟨row, hrow, hid, -⟩ := @exists_rootRow payload name
      exact hid ▸ List.mem_map_of_mem hrow
    · obtain ⟨row, hrow, hid, -⟩ := @exists_row payload name a ha
      exact hid ▸ List.mem_map_of_mem hrow

theorem parentIdOf_cases (span : Span) : payload.parentIdOf span = payload.rootId ∨
    span.parentSpanId = some (payload.parentIdOf span) := by
  rw [parentIdOf]
  cases hparent : span.parentSpanId with
  | none => exact .inl rfl
  | some parent =>
      dsimp only
      split_ifs
      · exact .inr rfl
      · exact .inl rfl

/-! ## Where parents lead -/

theorem eq_of_nodup_filterMap {A B : Type*} {f : A → Option B} {l : List A} {a b : A} {x : B}
    (h : (l.filterMap f).Nodup) (ha : a ∈ l) (hb : b ∈ l) (hfa : f a = some x)
    (hfb : f b = some x) : a = b := by
  by_contra hne
  let Apart (a b : A) : Prop := ∀ x ∈ f a, ∀ y ∈ f b, x ≠ y
  have hsymm : Std.Symm Apart := ⟨fun _ _ h x hx y hy => (h y hy x hx).symm⟩
  have hapart : l.Pairwise Apart := List.pairwise_filterMap.mp h
  exact hapart.forall ha hb hne x hfa x hfb rfl

/-- Spans with an id have it from their payload. -/
theorem mem_ids {id : String} : id ∈ payload.ids ↔ id = payload.rootId ∨
    id ≠ "" ∧ ∃ span, span ∈ payload.spans.zipIdx ∧ span.1.spanId = some id := by
  rw [ids, List.mem_cons, List.mem_filterMap]
  refine or_congr_right ⟨?_, ?_⟩
  · rintro ⟨span, hspan, hid⟩
    obtain ⟨hid, hne⟩ := Option.filter_eq_some_iff.mp hid
    obtain ⟨i, hi⟩ := List.getElem?_of_mem hspan
    exact ⟨of_decide_eq_true hne, (span, i), List.mem_zipIdx_iff_getElem?.mpr hi, hid⟩
  · rintro ⟨hne, span, hspan, hid⟩
    refine ⟨span.1, List.mem_of_getElem? (List.mem_zipIdx_iff_getElem?.mp hspan), ?_⟩
    rw [hid]
    exact Option.filter_eq_some_iff.mpr ⟨rfl, decide_eq_true hne⟩

section Distinct

variable (hids : payload.allIds.Nodup)

include hids

theorem idOf_ne_rootId (h : a ∈ payload.timed) : idOf a ≠ payload.rootId := by
  obtain ⟨hmem, hclock⟩ := mem_timed.mp h
  have hroot := (List.nodup_cons.mp hids).1
  exact fun heq => hroot (List.mem_filterMap.mpr ⟨a, hmem, by rw [if_pos hclock, heq]⟩)

/-- A span is known by its id. -/
theorem eq_of_id (ha : a ∈ payload.spans.zipIdx) (hb : b ∈ payload.spans.zipIdx) {id : String}
    (hida : (if hasClock a.1 then some (idOf a) else a.1.spanId) = some id)
    (hidb : (if hasClock b.1 then some (idOf b) else b.1.spanId) = some id) : a = b := by
  exact eq_of_nodup_filterMap (List.nodup_cons.mp hids).2 ha hb hida hidb

theorem eq_of_idOf (ha : a ∈ payload.timed) (hb : b ∈ payload.timed) (h : idOf a = idOf b) :
    a = b := by
  obtain ⟨hmema, hclocka⟩ := mem_timed.mp ha
  obtain ⟨hmemb, hclockb⟩ := mem_timed.mp hb
  exact eq_of_id hids hmema hmemb (by rw [if_pos hclocka]) (by rw [if_pos hclockb, h])

/-- A span hangs below another just if it names it. -/
theorem parentIdOf_eq_iff (hb : b ∈ payload.timed) :
    payload.parentIdOf a.1 = idOf b ↔ payload.Names a b := by
  obtain ⟨hmemb, hclockb⟩ := mem_timed.mp hb
  have hroot := idOf_ne_rootId hids hb
  rw [parentIdOf]
  constructor
  · intro h
    cases hparent : a.1.parentSpanId with
    | none =>
        rw [hparent] at h
        exact absurd h.symm hroot
    | some parent =>
        rw [hparent] at h
        dsimp only at h
        split_ifs at h with hknown
        · obtain ⟨hne, hknown⟩ := hknown
          subst h
          rcases mem_ids.mp hknown with heq | ⟨-, span, hspan, hid⟩
          · exact absurd heq hroot
          -- The span with this id is the one that the row is of.
          have hsame : span = b := by
            apply @eq_of_id payload _ _ hids hspan hmemb (idOf b)
            · split_ifs
              · rw [idOf, hid, Option.getD_some]
              · exact hid
            · rw [if_pos hclockb]
          subst hsame
          exact ⟨hb, _, hne, hparent, hid⟩
        · exact absurd h.symm hroot
  · rintro ⟨-, parent, hne, hparent, hid⟩
    have hidOf : idOf b = parent := by rw [idOf, hid, Option.getD_some]
    have hknown : parent ∈ payload.ids := mem_ids.mpr (.inr ⟨hne, b, hmemb, hid⟩)
    rw [hparent, hidOf]
    dsimp only
    rw [if_pos ⟨hne, hknown⟩]

/-- Where a parent's row can be. -/
theorem parent_cases (h : payload.parentIdOf a.1 ∈ (waterfallSpans payload name).map (·.id)) :
    payload.parentIdOf a.1 = payload.rootId ∨ ∃ b ∈ payload.timed, payload.Names a b := by
  rcases mem_ids_waterfallSpans.mp h with hroot | ⟨b, hb, hid⟩
  · exact .inl hroot
  · exact .inr ⟨b, hb, (parentIdOf_eq_iff hids hb).mp hid⟩

theorem parentId_of_id (ha : a ∈ payload.timed) (hrow : row ∈ waterfallSpans payload name)
    (hid : row.id = idOf a) : row.parentId = some (payload.parentIdOf a.1) := by
  rcases mem_waterfallSpans hrow with ⟨hroot, -⟩ | ⟨b, hb, hidb, hparent⟩
  · exact absurd (hid.symm.trans hroot) (idOf_ne_rootId hids ha)
  · rwa [eq_of_idOf hids ha hb (hid.symm.trans hidb)]

/-- From a span's row the root is reached if the span's chain of parents ends. -/
theorem reachesRoot_iff (ha : a ∈ payload.timed) (hrow : row ∈ waterfallSpans payload name)
    (hid : row.id = idOf a) : ReachesRoot (waterfallSpans payload name) row ↔
      Ends (fun a => payload.parentIdOf a.1 = payload.rootId) payload.Names a := by
  constructor
  · intro h
    induction h generalizing a with
    | root h =>
        rw [parentId_of_id hids ha hrow hid] at h
        cases h
    | @up row parent hparent h _ ih =>
        rw [parentId_of_id hids ha hrow hid, Option.some.injEq] at h
        rcases mem_waterfallSpans hparent with ⟨hroot, -⟩ | ⟨b, hb, hidb, -⟩
        · exact .stop (h.trans hroot)
        · exact .step ((parentIdOf_eq_iff hids hb).mp (h.trans hidb)) (ih hb hparent hidb)
  · intro h
    induction h generalizing row with
    | stop h =>
        obtain ⟨root, hroot, hidroot, hnone⟩ := @exists_rootRow payload name
        refine .up hroot ?_ (.root hnone)
        rw [parentId_of_id hids ha hrow hid, h, hidroot]
    | @step a b h _ ih =>
        obtain ⟨parent, hparent, hidb, -⟩ := @exists_row payload name b h.1
        refine .up hparent ?_ (ih h.1 hparent hidb)
        rw [parentId_of_id hids ha hrow hid, (parentIdOf_eq_iff hids h.1).mpr h, hidb]

theorem names_unique (hb : payload.Names a b) (hc : payload.Names a c) : b = c := by
  have hidb := (parentIdOf_eq_iff hids hb.1).mpr hb
  have hidc := (parentIdOf_eq_iff hids hc.1).mpr hc
  exact eq_of_idOf hids hb.1 hc.1 (hidb.symm.trans hidc)

theorem not_names_of_root (h : payload.parentIdOf a.1 = payload.rootId) : ¬payload.Names a b :=
  fun hb => idOf_ne_rootId hids hb.1 (((parentIdOf_eq_iff hids hb.1).mpr hb).symm.trans h)

/-- The parents that are named have rows. -/
theorem parents_known_iff : (∀ a ∈ payload.timed,
      payload.parentIdOf a.1 ∈ (waterfallSpans payload name).map (·.id)) ↔
    ∀ a ∈ payload.timed, ∀ other ∈ payload.spans, hasClock other = false →
      ∀ parent, parent ≠ "" → a.1.parentSpanId = some parent → other.spanId ≠ some parent := by
  constructor
  · intro h a ha other hother hclock parent hne hparent hid
    obtain ⟨i, hi⟩ := List.getElem?_of_mem hother
    have hmem : (other, i) ∈ payload.spans.zipIdx := List.mem_zipIdx_iff_getElem?.mpr hi
    have hshown : (if hasClock other then some (idOf (other, i)) else other.spanId) =
        some parent := by rw [if_neg (by rw [hclock]; decide), hid]
    have hparentId : payload.parentIdOf a.1 = parent := by
      rw [parentIdOf, hparent]
      exact if_pos ⟨hne, mem_ids.mpr (.inr ⟨hne, _, hmem, hid⟩)⟩
    rcases mem_ids_waterfallSpans.mp (h a ha) with hroot | ⟨b, hb, hidb⟩
    · refine (List.nodup_cons.mp hids).1 (List.mem_filterMap.mpr ⟨_, hmem, ?_⟩)
      rw [← hroot, hparentId]
      exact hshown
    · obtain ⟨hmemb, hclockb⟩ := mem_timed.mp hb
      have hsame := eq_of_id hids hmem hmemb hshown
        (by rw [if_pos hclockb, ← hidb, hparentId])
      rw [← hsame, hclock] at hclockb
      cases hclockb
  · intro h a ha
    rw [mem_ids_waterfallSpans, parentIdOf]
    cases hparent : a.1.parentSpanId with
    | none => exact .inl rfl
    | some parent =>
        dsimp only
        split_ifs with hknown
        · rcases mem_ids.mp hknown.2 with hroot | ⟨hne, span, hspan, hid⟩
          · exact .inl hroot
          · have hclock : hasClock span.1 = true := by
              by_contra hclock
              exact h a ha span.1 (List.mem_of_getElem? (List.mem_zipIdx_iff_getElem?.mp hspan))
                (Bool.not_eq_true _ ▸ hclock) parent hne hparent hid
            refine .inr ⟨span, mem_timed.mpr ⟨hspan, hclock⟩, ?_⟩
            rw [idOf, hid, Option.getD_some]
        · exact .inl rfl

theorem ends_iff (h : ∀ a ∈ payload.timed,
      payload.parentIdOf a.1 ∈ (waterfallSpans payload name).map (·.id)) :
    (∀ a ∈ payload.timed,
      Ends (fun a => payload.parentIdOf a.1 = payload.rootId) payload.Names a) ↔
    ∀ a ∈ payload.timed, ¬TransGen payload.Names a a :=
  forall_ends_iff (fun _ _ _ => names_unique hids) (fun _ _ => not_names_of_root hids)
    fun a ha => parent_cases hids (h a ha)

theorem wellLinked_of_isTree (h : IsTree payload (waterfallSpans payload name)) :
    payload.WellLinked := by
  have hknown : ∀ a ∈ payload.timed,
      payload.parentIdOf a.1 ∈ (waterfallSpans payload name).map (·.id) := by
    intro a ha
    obtain ⟨row, hrow, -, hparent⟩ := @exists_row payload name a ha
    exact h.parent_known row hrow _ hparent
  refine ⟨(parents_known_iff hids).mp hknown, (ends_iff hids hknown).mp fun a ha => ?_⟩
  obtain ⟨row, hrow, hid, -⟩ := @exists_row payload name a ha
  exact (reachesRoot_iff hids ha hrow hid).mp (h.reaches row hrow)

theorem isTree_of_wellLinked (h : payload.WellLinked) :
    IsTree payload (waterfallSpans payload name) := by
  have hknown := (@parents_known_iff payload name hids).mpr h.clocked
  have hends := (ends_iff hids hknown).mpr h.acyclic
  refine ⟨⟨_, _, rfl, rfl, rfl, fun row hrow => ?_⟩, fun row hrow parent hparent => ?_,
    fun row hrow => ?_, fun a ha hmissing row hrow hid => ?_⟩
  · obtain ⟨plain, hplain, rfl⟩ := List.mem_map.mp hrow
    obtain ⟨a, -, hown⟩ := List.mem_filterMap.mp hplain
    obtain ⟨other, hother, -, hparent⟩ := @exists_spanRow payload a (hasClock_of_spanRow hown)
    obtain rfl : other = plain := Option.some.inj (hother.symm.trans hown)
    exact fun hnone => nomatch hparent.symm.trans hnone
  · rcases mem_waterfallSpans hrow with ⟨-, hnone⟩ | ⟨a, ha, -, hown⟩
    · rw [hnone] at hparent
      cases hparent
    · rw [hown, Option.some.injEq] at hparent
      exact hparent ▸ hknown a ha
  · rcases mem_waterfallSpans hrow with ⟨-, hnone⟩ | ⟨a, ha, hid, -⟩
    · exact .root hnone
    · exact (reachesRoot_iff hids ha hrow hid).mpr (hends a ha)
  · rw [parentId_of_id hids ha hrow hid, Option.some.injEq]
    rcases @parentIdOf_cases payload a.1 with hroot | hparent
    · exact hroot
    · exact absurd (hknown a ha) (hmissing _ hparent)

end Distinct

/-- The rows of a transaction are a tree just if the parents that are named have timestamps and do
not lead around. -/
theorem rows_tree_iff (payload : TransactionPayload) (name : String)
    (hids : payload.allIds.Nodup) :
    IsTree payload (waterfallSpans payload name) ↔ payload.WellLinked :=
  ⟨wellLinked_of_isTree hids, isTree_of_wellLinked hids⟩

def spanBelow (spanId parentSpanId : String) (timestamp : Option ℚ) : Span where
  spanId := some spanId
  parentSpanId := some parentSpanId
  op := none
  description := none
  status := none
  startTimestamp := some 1
  timestamp := timestamp
  exclusiveTime := none

def requestOf (spans : List Span) : TransactionPayload where
  traceSpanId := some "r"
  spans := spans
  transactionStart := 0
  transactionEnd := 4
  op := none
  status := none

theorem rows_tree_iff_chain :
    IsTree (requestOf [spanBelow "a" "r" (some 3), spanBelow "b" "a" (some 2)])
      (waterfallSpans (requestOf [spanBelow "a" "r" (some 3), spanBelow "b" "a" (some 2)]) "GET /") ↔
    (requestOf [spanBelow "a" "r" (some 3), spanBelow "b" "a" (some 2)]).WellLinked :=
  rows_tree_iff _ _ (by decide)

/-- A parent without an end has no row, and what is below it hangs off nothing. -/
theorem rows_no_tree : ¬∀ payload name, payload.allIds.Nodup →
    IsTree payload (waterfallSpans payload name) := by
  intro h
  have htree := h (requestOf [spanBelow "a" "r" none, spanBelow "b" "a" (some 2)]) "GET /" (by decide)
  -- the parent `a` is named and has no end
  exact (wellLinked_of_isTree (by decide) htree).clocked (spanBelow "b" "a" (some 2), 1) (by decide)
    (spanBelow "a" "r" none) (by decide) rfl "a" (by decide) rfl rfl

end Rustrak.Waterfall
