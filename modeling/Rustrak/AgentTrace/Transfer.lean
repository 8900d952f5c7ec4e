import Mathlib.Data.List.Find
import Rustrak.AgentTrace.Graph

/-!
# The same graph however a start is kept

The walk to the agent a span belongs to ends (`agentsOf_isSome`), and of the starts the graph only
knows how they compare (`graphOf_mapStart`).
-/

namespace Rustrak.AgentTrace

open Rustrak.Spans

variable {Start Start' : Type} {inOrder : List (SpanResponse Start)} {span : SpanResponse Start}
  {fallback : Option String} {i j : ℕ}

/-! ## The walk ends -/

theorem bySpanId_lt {id : String} (h : bySpanId inOrder id = some i) : i < inOrder.length :=
  List.mem_range.mp (List.mem_reverse.mp (List.mem_of_find?_eq_some h))

theorem parent_lt (h : parent inOrder span = some i) : i < inOrder.length := by
  obtain ⟨id, _, hid⟩ := Option.bind_eq_some_iff.mp h
  exact bySpanId_lt hid

/-- Distinct places are no more than there are spans. -/
theorem ownerFrom_isSome {fuel : ℕ} {at? : Option ℕ} {seen : List ℕ} (hnodup : seen.Nodup)
    (hseen : ∀ k ∈ seen, k < inOrder.length) (hfuel : inOrder.length ≤ fuel + seen.length)
    (hat : ∀ k, at? = some k → k < inOrder.length) :
    (ownerFrom inOrder fallback fuel at? seen).isSome := by
  induction fuel generalizing at? seen with
  | zero =>
      cases at? with
      | none => rfl
      | some k =>
          have hmem : k ∈ seen := by
            by_contra hnot
            have hsub : k :: seen ⊆ List.range inOrder.length := by
              intro j hj
              rcases List.mem_cons.mp hj with rfl | hj
              · exact List.mem_range.mpr (hat j rfl)
              · exact List.mem_range.mpr (hseen j hj)
            have hlength := (List.nodup_cons.mpr ⟨hnot, hnodup⟩).length_le_of_subset hsub
            rw [List.length_cons, List.length_range] at hlength
            omega
          rw [ownerFrom, if_pos hmem]
          rfl
  | succ fuel ih =>
      cases at? with
      | none => rfl
      | some k =>
          have hlt := hat k rfl
          rw [ownerFrom]
          split_ifs with hmem
          · rfl
          · rw [List.getElem?_eq_getElem hlt]
            cases hagent : inOrder[k].agent with
            | some name => simp only [hagent, Option.isSome_some]
            | none =>
                simp only [hagent]
                apply ih (List.nodup_cons.mpr ⟨hmem, hnodup⟩)
                · intro j hj
                  rcases List.mem_cons.mp hj with rfl | hj
                  · exact hlt
                  · exact hseen j hj
                · rw [List.length_cons]
                  omega
                · exact fun j hj => parent_lt hj

theorem owner_isSome (h : i < inOrder.length) : (owner inOrder span i).isSome := by
  apply ownerFrom_isSome List.nodup_nil
  · exact fun k hk => absurd hk List.not_mem_nil
  · exact Nat.le_refl _
  · intro k hk
    exact Option.some.inj hk ▸ h

theorem agentsOf_isSome (inOrder : List (SpanResponse Start)) : (agentsOf inOrder).isSome := by
  have hall : ∀ (spans : List (SpanResponse Start × ℕ)) (agents : List GraphAgent),
      (∀ entry ∈ spans, entry.2 < inOrder.length) →
      (spans.foldlM (fun agents (span, i) =>
        (owner inOrder span i).map fun name => attributeSpan span name agents) agents).isSome := by
    intro spans
    induction spans with
    | nil => exact fun _ _ => rfl
    | cons entry spans ih =>
        intro agents hlt
        obtain ⟨span, i⟩ := entry
        have hi : i < inOrder.length := hlt _ (List.mem_cons_self ..)
        obtain ⟨name, hname⟩ := Option.isSome_iff_exists.mp (@owner_isSome _ _ span _ hi)
        rw [List.foldlM_cons]
        show (Option.bind ((owner inOrder span i).map _) _).isSome
        rw [hname]
        exact ih _ fun other hother => hlt other (List.mem_cons_of_mem _ hother)
  apply hall
  rintro ⟨span, i⟩ hentry
  exact (List.getElem?_eq_some_iff.mp (List.mem_zipIdx_iff_getElem?.mp hentry)).1

/-! ## Other starts -/

variable {f : Start → Start'}

theorem bySpanId_mapStart (id : String) :
    bySpanId (inOrder.map (SpanResponse.mapStart f)) id = bySpanId inOrder id := by
  unfold bySpanId
  rw [List.length_map]
  congr 1
  funext i
  rw [List.getElem?_map]
  cases inOrder[i]? with
  | none => rfl
  | some span => rfl

theorem ownerFrom_mapStart (fuel : ℕ) (at? : Option ℕ) (seen : List ℕ) :
    ownerFrom (inOrder.map (SpanResponse.mapStart f)) fallback fuel at? seen =
      ownerFrom inOrder fallback fuel at? seen := by
  induction fuel generalizing at? seen with
  | zero =>
      cases at? with
      | none => rfl
      | some k => rfl
  | succ fuel ih =>
      cases at? with
      | none => rfl
      | some k =>
          rw [ownerFrom, ownerFrom, List.getElem?_map]
          cases inOrder[k]? with
          | none => rfl
          | some span =>
              have hparent : parent (inOrder.map (SpanResponse.mapStart f)) (span.mapStart f) =
                  parent inOrder span := by
                unfold parent
                congr 1
                funext id
                exact bySpanId_mapStart id
              have hagent : (span.mapStart f).agent = span.agent := rfl
              simp only [Option.map_some, hagent, hparent, ih]

theorem agentsOf_mapStart : agentsOf (inOrder.map (SpanResponse.mapStart f)) = agentsOf inOrder := by
  unfold agentsOf
  rw [List.zipIdx_map, List.foldlM_map]
  congr 1
  funext agents entry
  obtain ⟨span, i⟩ := entry
  have howner : owner (inOrder.map (SpanResponse.mapStart f)) (span.mapStart f) i =
      owner inOrder span i := by
    unfold owner
    rw [List.length_map]
    exact ownerFrom_mapStart _ _ _
  show (owner _ (span.mapStart f) i).map _ = _
  rw [howner]
  rfl

variable {noEarlier : Start → Start → Bool} {noEarlier' : Start' → Start' → Bool}

theorem nextAgent_mapStart {source : String} {start : Start}
    (h : ∀ span ∈ inOrder, noEarlier span.start start = noEarlier' (f span.start) (f start)) :
    nextAgent noEarlier' (inOrder.map (SpanResponse.mapStart f)) source (f start) =
      nextAgent noEarlier inOrder source start := by
  unfold nextAgent
  rw [List.find?_map]
  have hfind : inOrder.find? ((fun span => span.agent.any (· ≠ source) &&
      noEarlier' span.start (f start)) ∘ SpanResponse.mapStart f) =
      inOrder.find? fun span => span.agent.any (· ≠ source) && noEarlier span.start start := by
    apply List.find?_congr
    intro span hspan
    rw [h span hspan]
    rfl
  rw [hfind]
  cases inOrder.find? _ with
  | none => rfl
  | some span => rfl

/-- The edges of the handoffs, one after another. -/
def edges (noEarlier : Start → Start → Bool) (inOrder : List (SpanResponse Start)) :
    List (String × String) :=
  inOrder.filterMap fun span => span.handsOff.bind fun source =>
    (nextAgent noEarlier inOrder source span.start).map fun target => (source, target)

def countEdge (handoffs : List Handoff) (edge : String × String) : List Handoff :=
  upsert (fun handoff => handoff.source = edge.1 ∧ handoff.target = edge.2) ⟨edge.1, edge.2, 1⟩
    (fun handoff => { handoff with count := handoff.count + 1 }) handoffs

theorem handoffsOf_eq : handoffsOf noEarlier inOrder = (edges noEarlier inOrder).foldl countEdge [] := by
  unfold handoffsOf edges
  rw [List.foldl_filterMap]
  congr 1
  funext handoffs span
  split
  · next hnone => rw [hnone]
  · next source target hsome => rw [hsome]; rfl

theorem edges_mapStart (h : ∀ a ∈ inOrder, ∀ b ∈ inOrder,
      noEarlier a.start b.start = noEarlier' (f a.start) (f b.start)) :
    edges noEarlier' (inOrder.map (SpanResponse.mapStart f)) = edges noEarlier inOrder := by
  unfold edges
  rw [List.filterMap_map]
  apply List.filterMap_congr
  intro span hspan
  have hnext := fun source => @nextAgent_mapStart _ _ _ _ _ _ source _ fun a ha => h a ha span hspan
  show (span.handsOff.bind fun source => (nextAgent noEarlier' _ source (f span.start)).map _) = _
  simp only [hnext]

/-- The graph knows of the starts only how they compare. -/
theorem graphOf_mapStart {before : Start → Start → Bool} {before' : Start' → Start' → Bool}
    {spans : List (SpanResponse Start)}
    (hbefore : ∀ a ∈ spans, ∀ b ∈ spans, before a.start b.start = before' (f a.start) (f b.start))
    (hlate : ∀ a ∈ spans, ∀ b ∈ spans,
      noEarlier a.start b.start = noEarlier' (f a.start) (f b.start)) :
    graphOf before' noEarlier' (spans.map (SpanResponse.mapStart f)) =
      graphOf before noEarlier spans := by
  have hsort : (spans.map (SpanResponse.mapStart f)).mergeSort
      (fun a b => before' a.start b.start) =
      (spans.mergeSort fun a b => before a.start b.start).map (SpanResponse.mapStart f) := by
    refine (List.map_mergeSort ?_).symm
    exact hbefore
  have hmem := fun span => (List.mergeSort_perm spans fun a b => before a.start b.start).mem_iff
    (a := span)
  unfold graphOf
  simp only [hsort, agentsOf_mapStart, handoffsOf_eq]
  rw [edges_mapStart fun a ha b hb => hlate a ((hmem a).mp ha) b ((hmem b).mp hb)]

end Rustrak.AgentTrace
