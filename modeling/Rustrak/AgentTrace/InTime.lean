import Mathlib.Data.List.MinMax
import Mathlib.Data.List.Nodup
import Rustrak.AgentTrace.Transfer

/-!
# The graph follows time

Where the texts of the starts are in order of time, the code's graph is the one in time.  Of that the
agents are listed as something is first counted for them, so that they are in the order in which
they first ran just if no call comes too early (`LedByRuns`).
-/

namespace Rustrak.AgentTrace

open Rustrak.Calendar Rustrak.Spans

variable {localeCompare : List Char → List Char → Ordering} {spans : List (SpanResponse StartTime)}
  {span : SpanResponse StartTime} {name other : String}

/-! ## What is first -/

section First

variable {P Q : SpanResponse StartTime → Prop} {p q : SpanResponse StartTime}

theorem IsFirst.nanos_eq (hp : IsFirst spans P p) (hq : IsFirst spans P q) :
    p.start.nanos = q.start.nanos :=
  le_antisymm (hp.first q hq.mem hq.holds) (hq.first p hp.mem hp.holds)

theorem exists_isFirst (hmem : p ∈ spans) (hp : P p) : ∃ first, IsFirst spans P first := by
  classical
  have hp' : p ∈ spans.filter (P ·) := List.mem_filter.mpr ⟨hmem, decide_eq_true hp⟩
  cases hleast : (spans.filter (P ·)).argmin fun span => span.start.nanos with
  | none =>
      rw [List.argmin_eq_none.mp hleast] at hp'
      exact absurd hp' List.not_mem_nil
  | some first =>
      obtain ⟨hfirst, hholds⟩ := List.mem_filter.mp (List.argmin_mem hleast)
      refine ⟨first, hfirst, of_decide_eq_true hholds, fun q hq hqholds => ?_⟩
      have hq' : q ∈ spans.filter (P ·) := List.mem_filter.mpr ⟨hq, decide_eq_true hqholds⟩
      exact @List.le_of_mem_argmin _ _ _ (fun span => span.start.nanos) _ _ _ hq' hleast

theorem StartsBefore.asymm (h : StartsBefore spans P Q) : ¬StartsBefore spans Q P := by
  rintro ⟨q', p', hq', hp', hlt'⟩
  obtain ⟨p, q, hp, hq, hlt⟩ := h
  rw [hp.nanos_eq hp', hq.nanos_eq hq'] at hlt
  exact lt_asymm hlt hlt'

end First

/-- Of two agents that ran one ran first. -/
theorem ranBefore_or (hstarts : (spans.map fun span => span.start.nanos).Nodup)
    (hne : name ≠ other) (hname : Ran spans name) (hother : Ran spans other) :
    RanBefore spans name other ∨ RanBefore spans other name := by
  obtain ⟨p, hp, hruns⟩ := hname
  obtain ⟨q, hq, hruns'⟩ := hother
  obtain ⟨first, hfirst⟩ := exists_isFirst hp hruns
  obtain ⟨first', hfirst'⟩ := exists_isFirst hq hruns'
  rcases lt_trichotomy first.start.nanos first'.start.nanos with hlt | heq | hgt
  · exact .inl ⟨first, first', hfirst, hfirst', hlt⟩
  · obtain rfl := List.inj_on_of_nodup_map hstarts hfirst.mem hfirst'.mem heq
    exact absurd (Option.some.inj (hfirst.holds.symm.trans hfirst'.holds)) hne
  · exact .inr ⟨first', first, hfirst', hfirst, hgt⟩

/-! ## In order of time -/

theorem inTime_perm (spans : List (SpanResponse StartTime)) : (inTime spans).Perm spans :=
  List.mergeSort_perm _ _

theorem inTime_sorted (spans : List (SpanResponse StartTime)) :
    (inTime spans).Pairwise fun a b => a.start.nanos ≤ b.start.nanos := by
  refine (List.pairwise_mergeSort (fun a b c hab hbc => ?_) (fun a b => ?_) spans).imp
    of_decide_eq_true
  · exact decide_eq_true ((of_decide_eq_true hab).trans (of_decide_eq_true hbc))
  · rcases le_total a.start.nanos b.start.nanos with hle | hle
    · rw [decide_eq_true hle, Bool.true_or]
    · rw [decide_eq_true hle, Bool.or_true]

theorem inTime_strict (hstarts : (spans.map fun span => span.start.nanos).Nodup) :
    (inTime spans).Pairwise fun a b => a.start.nanos < b.start.nanos := by
  have hnodup : ((inTime spans).map fun span => span.start.nanos).Nodup :=
    ((inTime_perm spans).map _).nodup_iff.mpr hstarts
  exact (inTime_sorted spans).imp₂ (fun _ _ hle hne => lt_of_le_of_ne hle hne)
    (List.pairwise_map.mp hnodup)

theorem startTime_eq {a b : StartTime} (h : a.nanos = b.nanos) : a = b := by
  cases a
  cases b
  cases h
  rfl

/-- Texts that are written in order of time are ranked in that order. -/
theorem WrittenInOrder.lt_iff {starts : List StartTime} {rank : Char → ℕ} {a b : StartTime}
    (h : WrittenInOrder starts) (hranks : Ranks rank) (ha : a ∈ starts) (hb : b ∈ starts) :
    (startText a).map rank < (startText b).map rank ↔ a.nanos < b.nanos := by
  rcases lt_trichotomy a.nanos b.nanos with hlt | heq | hgt
  · exact iff_of_true ((hranks.startText_lt_iff hlt).mpr (h a ha b hb hlt)) hlt
  · rw [startTime_eq heq]
    exact iff_of_false (List.lt_irrefl _) (lt_irrefl _)
  · refine iff_of_false (List.lt_asymm ?_) hgt.not_gt
    exact (hranks.startText_lt_iff hgt).mpr (h b hb a ha hgt)

/-- Where they are, the code's graph is the one in time. -/
theorem agentGraph_eq (hcollates : Collates localeCompare)
    (hwritten : WrittenInOrder (spans.map fun span => span.start)) :
    agentGraph localeCompare (spans.map serialized) = graphInTime spans := by
  obtain ⟨weight, hranks, hcompare⟩ := hcollates
  have hlt : ∀ rank, Ranks rank → ∀ a ∈ spans, ∀ b ∈ spans,
      ((startText a.start).map rank < (startText b.start).map rank ↔
        a.start.nanos < b.start.nanos) := fun rank hrank a ha b hb =>
    hwritten.lt_iff hrank (List.mem_map_of_mem ha) (List.mem_map_of_mem hb)
  apply @graphOf_mapStart _ _ fun start => some (startText start)
  · intro a ha b hb
    obtain ⟨hless, hmore⟩ := hcompare a.start b.start
    rw [hlt weight hranks a ha b hb] at hless
    rw [hlt weight hranks b hb a ha] at hmore
    show decide _ = (localeCompare (startText a.start) (startText b.start)).isLE
    cases horder : localeCompare (startText a.start) (startText b.start) with
    | lt => exact decide_eq_true (hless.mp horder).le
    | eq =>
        rw [horder] at hmore
        exact decide_eq_true (not_lt.mp fun hgt => by simpa using hmore.mpr hgt)
    | gt => exact decide_eq_false (hmore.mp horder).not_ge
  · intro a ha b hb
    have hunits := hlt Char.toNat ranks_toNat a ha b hb
    show decide _ = decide ¬((startText a.start).map Char.toNat < (startText b.start).map Char.toNat)
    rw [decide_eq_decide, hunits, not_lt]

/-! ## What is counted -/

/-- The agent that the span at a place is counted for. -/
def countedAt {Start : Type} (inOrder : List (SpanResponse Start))
    (entry : SpanResponse Start × ℕ) : Option String :=
  match entry.1.agent with
  | some name => some name
  | none =>
      if entry.1.called.isSome then (owner inOrder entry.1 entry.2).bind truthy else none

/-- The agents as something is counted for them, each as often as it is. -/
def countedNames {Start : Type} (inOrder : List (SpanResponse Start)) : List String :=
  inOrder.zipIdx.filterMap (countedAt inOrder)

section Counting

variable {Start : Type} {inOrder : List (SpanResponse Start)} {agents : List GraphAgent}

theorem upsert_map {Entry Key : Type} [DecidableEq Key] {found : Entry → Bool} {new : Entry}
    {update : Entry → Entry} {entries : List Entry} {key : Entry → Key} {k : Key}
    (hfound : ∀ entry, found entry = true ↔ key entry = k) (hnew : key new = k)
    (hupdate : ∀ entry, key (update entry) = key entry) :
    (upsert found new update entries).map key =
      if k ∈ entries.map key then entries.map key else entries.map key ++ [k] := by
  induction entries with
  | nil => simp [upsert, hnew]
  | cons entry entries ih =>
      by_cases hentry : key entry = k
      · rw [upsert, if_pos ((hfound entry).mpr hentry)]
        simp [hupdate, hentry]
      · rw [upsert, if_neg (mt (hfound entry).mp hentry), List.map_cons, ih, List.map_cons]
        have hiff : k ∈ key entry :: entries.map key ↔ k ∈ entries.map key :=
          List.mem_cons.trans (or_iff_right (Ne.symm hentry))
        by_cases hmem : k ∈ entries.map key
        · rw [if_pos hmem, if_pos (hiff.mpr hmem)]
        · rw [if_neg hmem, if_neg (mt hiff.mp hmem), List.cons_append]

theorem eraseDups_concat (names : List String) (name : String) : (names ++ [name]).eraseDups =
    if name ∈ names.eraseDups then names.eraseDups else names.eraseDups ++ [name] := by
  rw [List.eraseDups_append, List.cons_removeAll, List.removeAll]
  by_cases hmem : name ∈ names
  · rw [if_pos (List.mem_eraseDups.mpr hmem)]
    simp [hmem]
  · rw [if_neg (mt List.mem_eraseDups.mp hmem)]
    simp [hmem, List.eraseDups_cons]

theorem agentOf_names {names : List String} {change : GraphAgent → GraphAgent}
    (hchange : ∀ agent, (change agent).name = agent.name)
    (h : agents.map GraphAgent.name = names.eraseDups) :
    (agentOf agents name change).map GraphAgent.name = (names ++ [name]).eraseDups := by
  rw [eraseDups_concat, ← h]
  apply upsert_map
  · exact fun agent => decide_eq_true_iff
  · exact hchange _
  · exact hchange

/-- A span adds the agent it is counted for, if that is new. -/
theorem attributeSpan_names {span : SpanResponse Start} {i : ℕ} {found : Option String}
    {names : List String} (howner : owner inOrder span i = some found)
    (h : agents.map GraphAgent.name = names.eraseDups) :
    (attributeSpan span found agents).map GraphAgent.name =
      (names ++ (countedAt inOrder (span, i)).toList).eraseDups := by
  unfold attributeSpan countedAt
  cases hagent : span.agent with
  | some name =>
      simp only [Option.toList_some]
      exact agentOf_names (fun _ => rfl) h
  | none =>
      simp only [howner, Option.bind_some]
      cases htruthy : truthy found with
      | none => simpa [htruthy] using h
      | some name =>
          cases hcalled : span.called with
          | none => simpa [htruthy, hcalled] using h
          | some use =>
              simp only [Option.isSome_some, if_true, Option.toList_some]
              refine agentOf_names (fun agent => ?_) h
              split
              · rfl
              · rfl

/-- The agents are listed as something is first counted for them. -/
theorem agentsOf_names (h : agentsOf inOrder = some agents) :
    agents.map GraphAgent.name = (countedNames inOrder).eraseDups := by
  have hall : ∀ (entries : List (SpanResponse Start × ℕ)) (start : List GraphAgent)
      (names : List String), start.map GraphAgent.name = names.eraseDups →
      entries.foldlM (fun agents entry =>
        (owner inOrder entry.1 entry.2).map fun name => attributeSpan entry.1 name agents) start =
          some agents →
      agents.map GraphAgent.name = (names ++ entries.filterMap (countedAt inOrder)).eraseDups := by
    intro entries
    induction entries with
    | nil =>
        intro start names hstart hfold
        obtain rfl := Option.some.inj hfold
        rwa [List.filterMap_nil, List.append_nil]
    | cons entry entries ih =>
        intro start names hstart hfold
        obtain ⟨span, i⟩ := entry
        obtain ⟨next, hnext, hrest⟩ := Option.bind_eq_some_iff.mp hfold
        obtain ⟨found, howner, rfl⟩ := Option.map_eq_some_iff.mp hnext
        have hnames := ih _ _ (attributeSpan_names howner hstart) hrest
        have hcons : (countedAt inOrder (span, i)).toList ++ entries.filterMap (countedAt inOrder) =
            ((span, i) :: entries).filterMap (countedAt inOrder) := by
          rw [List.filterMap_cons]
          cases countedAt inOrder (span, i) with
          | none => rfl
          | some name => rfl
        rw [hnames, List.append_assoc, hcons]
  exact hall _ [] [] rfl h

end Counting

/-! ## The order of the agents -/

/-- Of a list without repetitions, where a relation leads to each first occurrence. -/
theorem eraseDups_pairwise {R : String → String → Prop} {names : List String}
    (h : ∀ before name after, names = before ++ name :: after → name ∉ before →
      ∀ earlier ∈ before, R earlier name) : names.eraseDups.Pairwise R := by
  induction names using List.reverseRecOn with
  | nil => exact List.Pairwise.nil
  | append_singleton names last ih =>
      have hnames : names.eraseDups.Pairwise R := by
        apply ih
        intro before name after hsplit
        refine h before name (after ++ [last]) ?_
        rw [hsplit, List.append_assoc, List.cons_append]
      rw [eraseDups_concat]
      split_ifs with hmem
      · exact hnames
      · refine List.pairwise_append.mpr ⟨hnames, List.pairwise_singleton .., ?_⟩
        intro earlier hearlier name hname
        obtain rfl := List.mem_singleton.mp hname
        exact h names name [] rfl (mt List.mem_eraseDups.mpr hmem) earlier
          (List.mem_eraseDups.mp hearlier)

theorem countsFor_iff (hmem : span ∈ spans) : CountsFor spans name span ↔
    ∃ i, (inTime spans)[i]? = some span ∧ countedAt (inTime spans) (span, i) = some name := by
  have hmem' := (inTime_perm spans).mem_iff.mpr hmem
  obtain ⟨k, hk⟩ := List.mem_iff_getElem?.mp hmem'
  unfold CountsFor RunsAgent
  cases hagent : span.agent with
  | some agent =>
      simp only [countedAt, hagent, reduceCtorEq, false_and, or_false]
      exact ⟨fun h => ⟨k, hk, h⟩, fun ⟨_, _, h⟩ => h⟩
  | none =>
      simp only [countedAt, hagent, reduceCtorEq, false_or, true_and]
      constructor
      · rintro ⟨hcalled, i, hi, howner⟩
        exact ⟨i, hi, by rwa [if_pos hcalled]⟩
      · rintro ⟨i, hi, hcounted⟩
        by_cases hcalled : span.called.isSome = true
        · rw [if_pos hcalled] at hcounted
          exact ⟨hcalled, i, hi, hcounted⟩
        · rw [if_neg hcalled] at hcounted
          contradiction

/-- What is counted first is listed first. -/
theorem countedNames_pairwise (hstarts : (spans.map fun span => span.start.nanos).Nodup) :
    (countedNames (inTime spans)).eraseDups.Pairwise fun name other =>
      StartsBefore spans (CountsFor spans name) (CountsFor spans other) := by
  apply eraseDups_pairwise
  intro before name after hsplit hnew earlier hearlier
  obtain ⟨first, rest, hentries, hfirst, hrest⟩ := List.filterMap_eq_append_iff.mp hsplit
  obtain ⟨skipped, ⟨span, i⟩, later, hrest', hskipped, hcounted, _⟩ :=
    List.filterMap_eq_cons_iff.mp hrest
  rw [← hfirst] at hnew hearlier
  obtain ⟨⟨p, j⟩, hp, hpcounted⟩ := List.mem_filterMap.mp hearlier
  rw [hrest'] at hentries
  have hsorted : (inTime spans).zipIdx.Pairwise fun a b =>
      a.1.start.nanos < b.1.start.nanos := by
    have hmap : ((inTime spans).zipIdx.map Prod.fst).Pairwise fun a b =>
        a.start.nanos < b.start.nanos := by
      rw [List.zipIdx_map_fst]
      exact inTime_strict hstarts
    exact List.Pairwise.of_map Prod.fst (fun _ _ hlt => hlt) hmap
  rw [hentries] at hsorted
  obtain ⟨_, htail, hcross⟩ := List.pairwise_append.mp hsorted
  obtain ⟨_, hlater, hcross'⟩ := List.pairwise_append.mp htail
  have hat : ∀ entry, entry ∈ first ++ (skipped ++ (span, i) :: later) →
      (inTime spans)[entry.2]? = some entry.1 := fun entry hentry =>
    List.mem_zipIdx_iff_getElem?.mp (hentries ▸ hentry)
  have hspan := hat (span, i) (List.mem_append_right _ (List.mem_append_right _ (List.mem_cons_self ..)))
  have hin : ∀ {a : SpanResponse StartTime} {k : ℕ}, (inTime spans)[k]? = some a → a ∈ spans :=
    fun h => (inTime_perm spans).mem_iff.mp (List.mem_of_getElem? h)
  have hp' := hat (p, j) (List.mem_append_left _ hp)
  obtain ⟨least, hleast⟩ := exists_isFirst (hin hp')
    ((countsFor_iff (hin hp')).mpr ⟨j, hp', hpcounted⟩)
  refine ⟨least, span, hleast, ⟨hin hspan, ?_, ?_⟩, ?_⟩
  · exact (countsFor_iff (hin hspan)).mpr ⟨i, hspan, hcounted⟩
  · -- whatever is counted for it stands here or later
    intro q hq hqcounts
    obtain ⟨k, hk, hqcounted⟩ := (countsFor_iff hq).mp hqcounts
    have hentry : (q, k) ∈ first ++ (skipped ++ (span, i) :: later) :=
      hentries ▸ List.mem_zipIdx_iff_getElem?.mpr hk
    rcases List.mem_append.mp hentry with hbefore | hentry
    · exact absurd (List.mem_filterMap.mpr ⟨_, hbefore, hqcounted⟩) hnew
    · rcases List.mem_append.mp hentry with hskip | hentry
      · rw [hskipped _ hskip] at hqcounted
        contradiction
      · rcases List.mem_cons.mp hentry with hself | hafter
        · obtain ⟨rfl, _⟩ := Prod.mk.inj hself
          exact le_refl _
        · exact (List.rel_of_pairwise_cons hlater hafter).le
  · have hle := hleast.first p (hin hp') ((countsFor_iff (hin hp')).mpr ⟨j, hp', hpcounted⟩)
    refine hle.trans_lt (hcross _ hp (span, i) ?_)
    exact List.mem_append_right _ (List.mem_cons_self ..)

/-- An agent that ran is counted. -/
theorem mem_countedNames (h : Ran spans name) : name ∈ (countedNames (inTime spans)).eraseDups := by
  obtain ⟨span, hspan, hruns⟩ := h
  obtain ⟨i, hi, hcounted⟩ := (countsFor_iff hspan).mp (.inl hruns)
  refine List.mem_eraseDups.mpr (List.mem_filterMap.mpr ⟨(span, i), ?_, hcounted⟩)
  exact List.mem_zipIdx_iff_getElem?.mpr hi

theorem RanBefore.ran (h : RanBefore spans name other) : Ran spans name ∧ Ran spans other := by
  obtain ⟨p, q, hp, hq, _⟩ := h
  exact ⟨⟨p, hp.mem, hp.holds⟩, ⟨q, hq.mem, hq.holds⟩⟩

/-- Of two that are listed one is listed first. -/
theorem rel_or_of_pairwise {R : String → String → Prop} {names : List String}
    (h : names.Pairwise R) (hname : name ∈ names) (hother : other ∈ names) (hne : name ≠ other) :
    R name other ∨ R other name := by
  induction h with
  | nil => exact absurd hname List.not_mem_nil
  | @cons first rest hfirst _ ih =>
      rcases List.mem_cons.mp hname with hhead | htail
      · rcases List.mem_cons.mp hother with hhead' | htail'
        · exact absurd (hhead.trans hhead'.symm) hne
        · exact .inl (hhead ▸ hfirst other htail')
      · rcases List.mem_cons.mp hother with hhead' | htail'
        · exact .inr (hhead' ▸ hfirst name htail)
        · exact ih htail htail'

/-- The agents are in the order they first ran just if no call comes too early. -/
theorem ranOrder_iff (hstarts : (spans.map fun span => span.start.nanos).Nodup) :
    ((countedNames (inTime spans)).eraseDups.Pairwise fun name other =>
      Ran spans name → Ran spans other → RanBefore spans name other) ↔ LedByRuns spans := by
  have hcounted := countedNames_pairwise hstarts
  constructor
  · intro hran name other hbefore
    obtain ⟨hname, hother⟩ := hbefore.ran
    have hne : name ≠ other := by
      rintro rfl
      exact hbefore.asymm hbefore
    have hboth := List.Pairwise.and hran hcounted
    rcases rel_or_of_pairwise hboth (mem_countedNames hname) (mem_countedNames hother) hne with
      ⟨_, hstarts⟩ | ⟨hran, _⟩
    · exact hstarts
    · exact absurd (hran hother hname) hbefore.asymm
  · intro hled
    refine hcounted.imp fun {name other} hstarts' hname hother => ?_
    have hne : name ≠ other := by
      rintro rfl
      exact hstarts'.asymm hstarts'
    rcases ranBefore_or hstarts hne hname hother with hbefore | hafter
    · exact hbefore
    · exact absurd (hled other name hafter) hstarts'.asymm

/-! ## Where the handoffs lead -/

/-- How often an edge is counted. -/
def edgeCount (handoffs : List Handoff) (source target : String) : ℕ :=
  (handoffs.find? fun edge => edge.source = source ∧ edge.target = target).elim 0 Handoff.count

theorem edgeCount_countEdge (handoffs : List Handoff) (edge : String × String)
    (source target : String) : edgeCount (countEdge handoffs edge) source target =
      edgeCount handoffs source target + if edge = (source, target) then 1 else 0 := by
  obtain ⟨origin, goal⟩ := edge
  unfold countEdge edgeCount
  induction handoffs with
  | nil =>
      by_cases hedge : (origin, goal) = (source, target)
      · obtain ⟨rfl, rfl⟩ := Prod.mk.inj hedge
        simp [upsert]
      · have hnot : ¬(origin = source ∧ goal = target) := fun h => hedge (Prod.ext h.1 h.2)
        simp [upsert, hnot]
  | cons handoff handoffs ih =>
      by_cases hfound : handoff.source = origin ∧ handoff.target = goal
      · rw [upsert, if_pos (decide_eq_true hfound)]
        obtain ⟨rfl, rfl⟩ := hfound
        by_cases hedge : (handoff.source, handoff.target) = (source, target)
        · obtain ⟨rfl, rfl⟩ := Prod.mk.inj hedge
          simp
        · have hnot : ¬(handoff.source = source ∧ handoff.target = target) :=
            fun h => hedge (Prod.ext h.1 h.2)
          simp [hnot]
      · rw [upsert, if_neg (by simpa using hfound)]
        by_cases hedge : handoff.source = source ∧ handoff.target = target
        · have hne : (origin, goal) ≠ (source, target) := by
            rintro heq
            obtain ⟨rfl, rfl⟩ := Prod.mk.inj heq
            exact hfound hedge
          rw [if_neg hne]
          simp [hedge]
        · rw [List.find?_cons_of_neg (by simpa using hedge),
            List.find?_cons_of_neg (by simpa using hedge)]
          exact ih

/-- The handoffs are counted by their edges. -/
theorem edgeCount_handoffsOf {Start : Type} {noEarlier : Start → Start → Bool}
    {inOrder : List (SpanResponse Start)} (source target : String) :
    edgeCount (handoffsOf noEarlier inOrder) source target =
      (edges noEarlier inOrder).count (source, target) := by
  rw [handoffsOf_eq]
  have hall : ∀ (counted : List (String × String)) (handoffs : List Handoff),
      edgeCount (counted.foldl countEdge handoffs) source target =
        edgeCount handoffs source target + counted.count (source, target) := by
    intro counted
    induction counted with
    | nil => exact fun _ => rfl
    | cons edge counted ih =>
        intro handoffs
        rw [List.foldl_cons, ih, edgeCount_countEdge, List.count_cons, Nat.add_assoc, Nat.add_comm _ (List.count _ _)]
        congr 2
        simp
  rw [hall]
  exact Nat.zero_add _

/-- The first span of a list in order of time that something holds of is the earliest. -/
theorem find?_inTime (hstarts : (spans.map fun span => span.start.nanos).Nodup)
    {P : SpanResponse StartTime → Bool} :
    (inTime spans).find? P = some span ↔ IsFirst spans (P · = true) span := by
  have hmem : ∀ {a}, a ∈ inTime spans ↔ a ∈ spans := (inTime_perm spans).mem_iff
  have hfound : ∀ {found}, (inTime spans).find? P = some found → IsFirst spans (P · = true) found := by
    intro found hfind
    obtain ⟨hholds, before, after, hsplit, hbefore⟩ := List.find?_eq_some_iff_append.mp hfind
    refine ⟨hmem.mp (List.mem_of_find?_eq_some hfind), hholds, fun other hother hholds' => ?_⟩
    have hsorted := inTime_sorted spans
    have hother' := hmem.mpr hother
    rw [hsplit] at hsorted hother'
    rcases List.mem_append.mp hother' with hearly | hlate
    · have hnot := hbefore other hearly
      rw [hholds'] at hnot
      contradiction
    · rcases List.mem_cons.mp hlate with rfl | hlate
      · exact le_refl _
      · exact List.rel_of_pairwise_cons (List.pairwise_append.mp hsorted).2.1 hlate
  refine ⟨hfound, fun hfirst => ?_⟩
  cases hfind : (inTime spans).find? P with
  | none =>
      have hnone := List.find?_eq_none.mp hfind span (hmem.mpr hfirst.mem)
      exact absurd hfirst.holds hnone
  | some found =>
      have hfirst' := hfound hfind
      obtain rfl := List.inj_on_of_nodup_map hstarts hfirst'.mem hfirst.mem (hfirst'.nanos_eq hfirst)
      rfl

theorem nextAgent_eq_some_iff (hstarts : (spans.map fun span => span.start.nanos).Nodup)
    {source target : String} {start : StartTime} :
    nextAgent (fun a b => b.nanos ≤ a.nanos) (inTime spans) source start = some target ↔
      ∃ run, IsFirst spans (fun span => (∃ name ≠ source, RunsAgent name span) ∧
        start.nanos ≤ span.start.nanos) run ∧ run.agent = some target := by
  have hholds : ∀ span : SpanResponse StartTime, (span.agent.any (· ≠ source) &&
      decide (start.nanos ≤ span.start.nanos)) = true ↔
      (∃ name ≠ source, RunsAgent name span) ∧ start.nanos ≤ span.start.nanos := by
    intro span
    unfold RunsAgent
    rw [Bool.and_eq_true, decide_eq_true_iff, Option.any_eq_true]
    apply and_congr_left'
    constructor
    · rintro ⟨name, hname, hne⟩
      exact ⟨name, of_decide_eq_true hne, hname⟩
    · rintro ⟨name, hne, hname⟩
      exact ⟨name, hname, decide_eq_true hne⟩
  unfold nextAgent
  rw [Option.bind_eq_some_iff]
  simp only [find?_inTime hstarts, hholds]

open Classical in
theorem handoffs_lead (hstarts : (spans.map fun span => span.start.nanos).Nodup)
    (source target : String) :
    edgeCount (handoffsOf (fun a b => b.nanos ≤ a.nanos) (inTime spans)) source target =
      spans.countP fun span => LeadsTo spans source target span := by
  rw [edgeCount_handoffsOf, ← (inTime_perm spans).countP_eq]
  unfold edges
  rw [List.count, List.countP_filterMap]
  apply List.countP_congr
  intro span _
  have hedge : ∀ edge : Option (String × String),
      (edge.map (· == (source, target))).getD false = true ↔ edge = some (source, target) := by
    intro edge
    cases edge with
    | none => simp
    | some edge => simp
  rw [hedge, decide_eq_true_iff]
  constructor
  · intro hbind
    obtain ⟨origin, hfrom, hnext⟩ := Option.bind_eq_some_iff.mp hbind
    obtain ⟨goal, hgoal, heq⟩ := Option.map_eq_some_iff.mp hnext
    obtain ⟨rfl, rfl⟩ := Prod.mk.inj heq
    exact ⟨hfrom, (nextAgent_eq_some_iff hstarts).mp hgoal⟩
  · rintro ⟨hfrom, hrun⟩
    rw [hfrom, Option.bind_some, (nextAgent_eq_some_iff hstarts).mpr hrun]
    rfl

/-! ## The condition is enough -/

theorem exists_graphInTime (spans : List (SpanResponse StartTime)) : ∃ agents,
    agentsOf (inTime spans) = some agents ∧ graphInTime spans =
      some ⟨agents, handoffsOf (fun a b => b.nanos ≤ a.nanos) (inTime spans)⟩ := by
  obtain ⟨agents, hagents⟩ := Option.isSome_iff_exists.mp (agentsOf_isSome (inTime spans))
  refine ⟨agents, hagents, ?_⟩
  show (agentsOf (inTime spans)).map _ = _
  rw [hagents]
  rfl

theorem ranOrder_of_agents {agents : List GraphAgent} (hagents : agentsOf (inTime spans) = some agents) :
    (agents.Pairwise fun agent later =>
      Ran spans agent.name → Ran spans later.name → RanBefore spans agent.name later.name) ↔
    (countedNames (inTime spans)).eraseDups.Pairwise fun name other =>
      Ran spans name → Ran spans other → RanBefore spans name other := by
  rw [← agentsOf_names hagents, List.pairwise_map]

theorem followsTime_iff_of_written (hcollates : Collates localeCompare)
    (hstarts : (spans.map fun span => span.start.nanos).Nodup)
    (hwritten : WrittenInOrder (spans.map fun span => span.start)) :
    (∃ graph, FollowsTime localeCompare spans graph) ↔ LedByRuns spans := by
  obtain ⟨agents, hagents, hgraph⟩ := exists_graphInTime spans
  rw [← ranOrder_iff hstarts, ← ranOrder_of_agents hagents]
  constructor
  · rintro ⟨graph, hfollows⟩
    obtain rfl := Option.some.inj (hgraph.symm.trans hfollows.inTime)
    exact hfollows.agents
  · intro horder
    refine ⟨_, ?_, hgraph, horder, ?_⟩
    · rw [agentGraph_eq hcollates hwritten]
      exact hgraph
    · exact handoffs_lead hstarts

/-! ## Two starts out of order -/

/-- A span that says nothing, or a run of an agent. -/
def bareSpan (start : StartTime) (agent : Option String) : SpanResponse StartTime :=
  { spanId := none
    parentSpanId := none
    operationType := agent.map fun _ => "agent"
    agentName := agent
    toolName := none
    requestModel := none
    responseModel := none
    status := none
    start := start }

/-- Two agents run, one at each of two starts. -/
def twoRuns (a b start : StartTime) : SpanResponse StartTime :=
  bareSpan start (if start = a then some "planner" else if start = b then some "worker" else none)

variable {starts : List StartTime} {a b start : StartTime}

theorem called_bareSpan (agent : Option String) : (bareSpan start agent).called = none := by
  cases agent with
  | none => rfl
  | some name => rfl

theorem agent_twoRuns (a b start : StartTime) : (twoRuns a b start).agent =
    if start = a then some "planner" else if start = b then some "worker" else none := by
  unfold twoRuns
  split_ifs
  · rfl
  · rfl
  · rfl

theorem countedNames_of_called {inOrder : List (SpanResponse StartTime)}
    (h : ∀ span ∈ inOrder, span.called = none) :
    countedNames inOrder = inOrder.filterMap SpanResponse.agent := by
  have hentry : ∀ entry ∈ inOrder.zipIdx, countedAt inOrder entry = entry.1.agent := by
    rintro ⟨span, i⟩ hmem
    have hspan : span ∈ inOrder := List.mem_of_getElem? (List.mem_zipIdx_iff_getElem?.mp hmem)
    unfold countedAt
    cases hagent : span.agent with
    | some name => rfl
    | none => simp [h span hspan]
  unfold countedNames
  rw [List.filterMap_congr hentry]
  nth_rewrite 2 [← List.zipIdx_map_fst 0 inOrder]
  rw [List.filterMap_map]
  rfl

theorem eraseDups_sublist (names : List String) : names.eraseDups.Sublist names := by
  induction names using List.reverseRecOn with
  | nil => exact List.Sublist.refl _
  | append_singleton names last ih =>
      rw [eraseDups_concat]
      split_ifs
      · exact ih.trans (List.sublist_append_left _ _)
      · exact ih.append (List.Sublist.refl _)

theorem ledByRuns_of_called (h : ∀ span ∈ spans, span.called = none) : LedByRuns spans := by
  have hcounts : ∀ name, ∀ span ∈ spans, CountsFor spans name span ↔ RunsAgent name span := by
    intro name span hspan
    refine ⟨?_, .inl⟩
    rintro (hruns | ⟨_, hcalled, _⟩)
    · exact hruns
    · rw [h span hspan] at hcalled
      contradiction
  have hfirst : ∀ name span, IsFirst spans (RunsAgent name) span →
      IsFirst spans (CountsFor spans name) span := by
    intro name span hspan
    refine ⟨hspan.mem, .inl hspan.holds, fun other hother hcounted => ?_⟩
    exact hspan.first other hother ((hcounts name other hother).mp hcounted)
  rintro name other ⟨p, q, hp, hq, hlt⟩
  exact ⟨p, q, hfirst name p hp, hfirst other q hq, hlt⟩

/-- The code's graph in terms of starts. -/
theorem agentGraph_serialized (spans : List (SpanResponse StartTime)) :
    agentGraph localeCompare (spans.map serialized) = graphOf
      (fun a b => (localeCompare (startText a) (startText b)).isLE)
      (fun a b => ¬codeUnits (startText a) < codeUnits (startText b)) spans :=
  @graphOf_mapStart _ _ (fun start => some (startText start)) _ _ _ _ _
    (fun _ _ _ _ => rfl) fun _ _ _ _ => rfl

/-- The order of the texts is an order. -/
theorem sorted_of_collates (hcollates : Collates localeCompare)
    (spans : List (SpanResponse StartTime)) :
    (spans.mergeSort fun p q => (localeCompare (startText p.start) (startText q.start)).isLE).Pairwise
      fun p q => localeCompare (startText p.start) (startText q.start) ≠ .gt := by
  obtain ⟨weight, _, hcompare⟩ := hcollates
  have hle : ∀ a b : StartTime, (localeCompare (startText a) (startText b)).isLE = true ↔
      (startText a).map weight ≤ (startText b).map weight := by
    intro a b
    refine Iff.trans ?_ not_lt
    rw [← (hcompare a b).2]
    cases localeCompare (startText a) (startText b) with
    | lt => simp
    | eq => simp
    | gt => simp
  refine (List.pairwise_mergeSort (fun p q r hpq hqr => ?_) (fun p q => ?_) spans).imp ?_
  · exact (hle _ _).mpr (((hle _ _).mp hpq).trans ((hle _ _).mp hqr))
  · rw [Bool.or_eq_true, hle, hle]
    exact le_total _ _
  · intro p q hisLE hgt
    rw [hgt] at hisLE
    contradiction

/-- A start that begins a later one puts the agents that run there in the wrong order. -/
theorem not_followsTime (hcollates : Collates localeCompare) (ha : a ∈ starts) (hb : b ∈ starts)
    (hlt : a.nanos < b.nanos) (hbegins : startBody a <+: startBody b) :
    ¬∃ graph, FollowsTime localeCompare (starts.map (twoRuns a b)) graph := by
  rintro ⟨graph, hfollows⟩
  have hne : b ≠ a := by
    rintro rfl
    exact lt_irrefl _ hlt
  have hruns : ∀ span ∈ starts.map (twoRuns a b), (span.agent = some "planner" → span.start = a) ∧
      (span.agent = some "worker" → span.start = b) := by
    intro span hspan
    obtain ⟨start, _, rfl⟩ := List.mem_map.mp hspan
    rw [agent_twoRuns]
    show (_ → start = a) ∧ (_ → start = b)
    split_ifs with hfirst hsecond
    · exact ⟨fun _ => hfirst, fun h => absurd h (by decide)⟩
    · exact ⟨fun h => absurd h (by decide), fun _ => hsecond⟩
    · exact ⟨fun h => absurd h (by decide), fun h => absurd h (by decide)⟩
  -- in time the planner ran first
  have hplanner : Ran (starts.map (twoRuns a b)) "planner" :=
    ⟨twoRuns a b a, List.mem_map_of_mem ha, by rw [RunsAgent, agent_twoRuns, if_pos rfl]⟩
  have hworker : Ran (starts.map (twoRuns a b)) "worker" :=
    ⟨twoRuns a b b, List.mem_map_of_mem hb,
      by rw [RunsAgent, agent_twoRuns, if_neg hne, if_pos rfl]⟩
  have hnot : ¬RanBefore (starts.map (twoRuns a b)) "worker" "planner" := by
    rintro ⟨p, q, hp, hq, hless⟩
    rw [(hruns p hp.mem).2 hp.holds, (hruns q hq.mem).1 hq.holds] at hless
    exact lt_asymm hlt hless
  -- in the texts the worker did
  have hcode := hfollows.code
  rw [agentGraph_serialized] at hcode
  obtain ⟨agents, hagents, rfl⟩ := Option.map_eq_some_iff.mp hcode
  have hnames := agentsOf_names hagents
  have hmem : ∀ {span}, span ∈ ((starts.map (twoRuns a b)).mergeSort fun p q =>
      (localeCompare (startText p.start) (startText q.start)).isLE) ↔
      span ∈ starts.map (twoRuns a b) := (List.mergeSort_perm _ _).mem_iff
  rw [countedNames_of_called fun span hspan => by
    obtain ⟨start, _, rfl⟩ := List.mem_map.mp (hmem.mp hspan)
    exact called_bareSpan _] at hnames
  have hsorted : ((starts.map (twoRuns a b)).mergeSort fun p q =>
      (localeCompare (startText p.start) (startText q.start)).isLE).Pairwise fun p q =>
      ∀ x, p.agent = some x → ∀ y, q.agent = some y → ¬(x = "planner" ∧ y = "worker") := by
    refine (sorted_of_collates hcollates _).imp_of_mem fun {p q} hp hq horder x hx y hy => ?_
    rintro ⟨rfl, rfl⟩
    rw [(hruns p (hmem.mp hp)).1 hx, (hruns q (hmem.mp hq)).2 hy] at horder
    obtain ⟨weight, hranks, hcompare⟩ := hcollates
    exact horder ((hcompare a b).2.mpr (hranks.startText_gt hlt hbegins))
  have htexts : (agents.map GraphAgent.name).Pairwise fun x y => ¬(x = "planner" ∧ y = "worker") := by
    rw [hnames]
    exact (List.pairwise_filterMap.mpr hsorted).sublist (eraseDups_sublist _)
  have hlisted : ∀ name, Ran (starts.map (twoRuns a b)) name →
      name ∈ agents.map GraphAgent.name := by
    rintro name ⟨span, hspan, hrun⟩
    rw [hnames, List.mem_eraseDups, List.mem_filterMap]
    exact ⟨span, hmem.mpr hspan, hrun⟩
  have horder : (agents.map GraphAgent.name).Pairwise fun x y =>
      Ran (starts.map (twoRuns a b)) x → Ran (starts.map (twoRuns a b)) y →
        RanBefore (starts.map (twoRuns a b)) x y := by
    rw [List.pairwise_map]
    exact hfollows.agents
  have hboth := List.Pairwise.and htexts horder
  rcases rel_or_of_pairwise hboth (hlisted _ hplanner) (hlisted _ hworker) (by decide) with
    ⟨hwrong, _⟩ | ⟨_, hbefore⟩
  · exact hwrong ⟨rfl, rfl⟩
  · exact hnot (hbefore hworker hplanner)

/-- The graph of spans that start at given instants follows time, with the agents in the order
they first ran just if no call comes too early, exactly where the texts of these instants are in
order of time. -/
theorem followsTime_iff (hcollates : Collates localeCompare) (hstarts : starts.Nodup) :
    (∀ spans : List (SpanResponse StartTime), (spans.map fun span => span.start) = starts →
      ((∃ graph, FollowsTime localeCompare spans graph) ↔ LedByRuns spans)) ↔
    WrittenInOrder starts := by
  constructor
  · intro hall a ha b hb hlt hbegins
    have hmap : ((starts.map (twoRuns a b)).map fun span => span.start) = starts := by
      rw [List.map_map]
      exact List.map_id starts
    refine not_followsTime hcollates ha hb hlt hbegins ((hall _ hmap).mpr ?_)
    apply ledByRuns_of_called
    intro span hspan
    obtain ⟨start, _, rfl⟩ := List.mem_map.mp hspan
    exact called_bareSpan _
  · rintro hwritten spans rfl
    apply followsTime_iff_of_written hcollates _ hwritten
    have hnanos := hstarts.map fun _ _ => startTime_eq
    rwa [List.map_map] at hnanos

/-- A collation by code units, which has the full stop before the digits, and these before the
letters. -/
def codeUnitOrder (s t : List Char) : Ordering := compareOfLessAndEq (codeUnits s) (codeUnits t)

theorem collates_codeUnitOrder : Collates codeUnitOrder := by
  refine ⟨Char.toNat, ranks_toNat, fun a b => ⟨?_, ?_⟩⟩
  · exact compareOfLessAndEq_eq_lt
  · unfold codeUnitOrder compareOfLessAndEq codeUnits
    split_ifs with hlt heq
    · exact iff_of_false (by decide) (List.lt_asymm hlt)
    · rw [heq]
      exact iff_of_false (by decide) (List.lt_irrefl _)
    · refine iff_of_true rfl ?_
      rcases lt_trichotomy ((startText a).map Char.toNat) ((startText b).map Char.toNat) with
        hlt' | heq' | hgt
      · exact absurd hlt' hlt
      · exact absurd heq' heq
      · exact hgt

theorem year_firstDay (millis : ℕ) : 1 ≤ yearOfDay (dayOf ((millis % 86400000 : ℕ) * 10 ^ 6)) ∧
    yearOfDay (dayOf ((millis % 86400000 : ℕ) * 10 ^ 6)) ≤ 9999 := by
  have hday : dayOf ((millis % 86400000 : ℕ) * 10 ^ 6) = 0 := by
    unfold dayOf second
    omega
  rw [hday]
  decide

/-- So many milliseconds into the first day of 1970. -/
def firstDayAt (millis : ℕ) : StartTime := ⟨(millis % 86400000 : ℕ) * 10 ^ 6, year_firstDay millis⟩

theorem followsTime_iff_wholeSeconds : ∃ graph, FollowsTime codeUnitOrder
    ([firstDayAt 6000, firstDayAt 5000].map (twoRuns (firstDayAt 5000) (firstDayAt 6000)))
    graph := by
  have hwritten : WrittenInOrder [firstDayAt 6000, firstDayAt 5000] := by decide +kernel
  have hstarts : [firstDayAt 6000, firstDayAt 5000].Nodup := by decide
  apply ((followsTime_iff collates_codeUnitOrder hstarts).mpr hwritten _ rfl).mpr
  exact ledByRuns_of_called (by decide)

theorem graphOf_pair {Start : Type} {before noEarlier : Start → Start → Bool}
    {p q : SpanResponse Start} {inOrder : List (SpanResponse Start)}
    (horder : (if before p.start q.start then [p, q] else [q, p]) = inOrder) :
    graphOf before noEarlier [p, q] =
      (agentsOf inOrder).map fun agents => ⟨agents, handoffsOf noEarlier inOrder⟩ := by
  have hsort : [p, q].mergeSort (fun a b => before a.start b.start) = inOrder := by
    rw [← horder]
    simp [List.mergeSort, List.MergeSort.Internal.splitInTwo, List.merge]
  unfold graphOf
  rw [hsort]

/-- The planner runs at a whole second, and the worker half a second later. -/
theorem half_second_runs_first :
    let spans := [firstDayAt 5000, firstDayAt 5500].map
      (twoRuns (firstDayAt 5000) (firstDayAt 5500))
    Collates codeUnitOrder ∧ LedByRuns spans ∧
    agentGraph codeUnitOrder (spans.map serialized) =
      some ⟨[⟨"worker", 1, 0, [], []⟩, ⟨"planner", 1, 0, [], []⟩], []⟩ ∧
    graphInTime spans = some ⟨[⟨"planner", 1, 0, [], []⟩, ⟨"worker", 1, 0, [], []⟩], []⟩ ∧
    ¬∃ graph, FollowsTime codeUnitOrder spans graph := by
  intro spans
  let planner := twoRuns (firstDayAt 5000) (firstDayAt 5500) (firstDayAt 5000)
  let worker := twoRuns (firstDayAt 5000) (firstDayAt 5500) (firstDayAt 5500)
  have hcode : agentGraph codeUnitOrder (spans.map serialized) =
      some ⟨[⟨"worker", 1, 0, [], []⟩, ⟨"planner", 1, 0, [], []⟩], []⟩ := by
    refine (@graphOf_pair _ _ _ _ _ [serialized worker, serialized planner] ?_).trans ?_
    · decide +kernel
    · decide +kernel
  have htime : graphInTime spans =
      some ⟨[⟨"planner", 1, 0, [], []⟩, ⟨"worker", 1, 0, [], []⟩], []⟩ := by
    refine (@graphOf_pair _ _ _ _ _ [planner, worker] ?_).trans ?_
    · decide +kernel
    · decide +kernel
  refine ⟨collates_codeUnitOrder, ledByRuns_of_called (by decide), hcode, htime, ?_⟩
  rintro ⟨graph, hfollows⟩
  have hsame := (hcode.symm.trans hfollows.code).trans (hfollows.inTime.symm.trans htime)
  exact absurd hsame (by decide)

end Rustrak.AgentTrace
