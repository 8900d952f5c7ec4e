import Mathlib.Data.Fintype.EquivFin
import Rustrak.Auth.Access

/-!
# The views of what one user may do

`can` decides one question; the dashboard, the project list and the token form
ask broader ones, and `auth/rbac.rs` answers each by a case analysis of its own:
`can_somewhere`, `instance_pairs`, `project_pairs`, `holds_somewhere` and
`visible_projects`.  This file compares them with `can` and with each other, for
every `Access`, and a token's answers with its owner's.

## Strategy

A project right is decided by three independent questions: whether the grants
hold it (`Holds`), whether the token kept it (`Keeps`) and whether the token
lists the project (`Lists`).  Every view is rewritten into these once
(`can_iff`, `seesProject_iff`, `canSomewhere_iff`, `mem_instancePairs_iff`), and
the comparisons are first-order reasoning over them.  What is named by neither an
assignment nor the token (`named`) can only be reached through the instance
grants; that is what tells a right on every project from a right on many.
-/

namespace Rustrak.Auth

/-- The projects of a `ProjectScope`. -/
def ProjectScope.Includes : ProjectScope → Int → Prop
  | .all, _ => True
  | .only ids, id => id ∈ ids

namespace Access

/-- Whether `a` on a project resource is allowed on at least one project, for
what belongs to no project yet. -/
def canSomewhere (access : Access) (r : Resource) (a : Action) : Bool :=
  if access.cap.any fun c => !c.grants.allows r a then false
  else
    match access.cap.bind TokenScope.projects with
    | some ids => ids.any fun id => access.held r a (some id)
    | none =>
        access.onInstance.allows r a || access.projects.entries.any fun e => e.2.allows r a

/-- What holds everywhere: workspace permissions, and project permissions on
every project. -/
def instancePairs (access : Access) : List Pair :=
  catalogPairs.filter fun p =>
    match p.1.scope with
    | .instanceWide => access.can p.1 p.2 none
    | .project =>
        access.onInstance.allows p.1 p.2 && access.cap.all fun c => c.allowsEverywhere p.1 p.2

/-- Each project named by an assignment or a token's scope, once. -/
def named (access : Access) : List Int :=
  ((access.projects.keys ++ (access.cap.bind TokenScope.projects).getD []).insertionSort
    (· ≤ ·)).dedup

/-- What holds on one project. -/
def pairsOn (access : Access) (id : Int) : List Pair :=
  catalogPairs.filter fun p => p.1.scope == .project && access.can p.1 p.2 (some id)

/-- What holds on each project named by an assignment or a token's scope. -/
def projectPairs (access : Access) : List (Int × List Pair) :=
  (access.named.map fun id => (id, access.pairsOn id)).filter fun e => !e.2.isEmpty

/-- Whether this holds on the workspace or on at least one project. -/
def holdsSomewhere (access : Access) (r : Resource) (a : Action) : Bool :=
  access.instancePairs.contains (r, a) ||
    access.projectPairs.any fun e => e.2.contains (r, a)

/-! ## The three questions -/

/-- The grants hold it, on the instance or on the project. -/
def Holds (access : Access) (r : Resource) (a : Action) (id : Int) : Prop :=
  access.onInstance.allows r a = true ∨
    ∃ g, access.projects.lookup id = some g ∧ g.allows r a = true

/-- The token, if there is one, kept it. -/
def Keeps (access : Access) (r : Resource) (a : Action) : Prop :=
  ∀ c, access.cap = some c → c.grants.allows r a = true

/-- The token, if it lists projects, lists this one. -/
def Lists (access : Access) (id : Int) : Prop :=
  ∀ ids, access.cap.bind TokenScope.projects = some ids → id ∈ ids

variable {access : Access} {r : Resource} {a : Action} {id : Int}

theorem accepts_ne_read (hpair : r.accepts a = true) : ¬(r = .project ∧ a = .read) := by
  rintro ⟨rfl, rfl⟩
  exact absurd hpair (by decide)

private theorem any_lookup_iff {P : Grants → Bool} :
    (access.projects.lookup id).any P = true ↔
      ∃ g, access.projects.lookup id = some g ∧ P g = true := by
  simp [Option.any_eq_true]

theorem held_iff (hscope : r.scope = .project) :
    access.held r a (some id) = true ↔ access.Holds r a id := by
  simp only [held, hscope, reduceCtorEq, if_false, Bool.or_eq_true, any_lookup_iff, Holds]

private theorem all_listed_iff :
    ((access.cap.bind TokenScope.projects).all fun ids => ids.contains id) = true ↔
      access.Lists id := by
  simp [Option.all_eq_true, Lists]

theorem cappedBy_iff (hscope : r.scope = .project) :
    access.cappedBy r a (some id) = true ↔ access.Keeps r a ∧ access.Lists id := by
  cases hcap : access.cap with
  | none => simp [cappedBy, Keeps, Lists, hcap]
  | some c =>
      cases hids : c.projects with
      | none => simp [cappedBy, Keeps, Lists, hcap, TokenScope.allows, hscope, hids]
      | some ids =>
          simp [cappedBy, Keeps, Lists, hcap, TokenScope.allows, hscope, hids, and_comm]

theorem can_iff (hpair : r.accepts a = true) (hscope : r.scope = .project) :
    access.can r a (some id) = true ↔
      access.Holds r a id ∧ access.Keeps r a ∧ access.Lists id := by
  rw [can, if_neg (accepts_ne_read hpair), Bool.and_eq_true, held_iff hscope,
    cappedBy_iff hscope]

/-! ## Seeing a project -/

theorem showsProject_iff {g : Grants} :
    access.showsProject g = true ↔
      ∃ p ∈ catalogPairs, p.1.scope = .project ∧ g.allows p.1 p.2 = true ∧
        access.Keeps p.1 p.2 := by
  cases hcap : access.cap with
  | none => simp [showsProject, Keeps, hcap, Grants.anyProjectGrant_iff_allows]
  | some c => simp [showsProject, Keeps, hcap, Grants.sharesProjectGrant_iff]

/-- A project is seen through some right on it that the token kept. -/
theorem seesProject_iff :
    access.seesProject id = true ↔
      access.Lists id ∧ ∃ p ∈ catalogPairs, p.1.scope = .project ∧
        access.Holds p.1 p.2 id ∧ access.Keeps p.1 p.2 := by
  rw [seesProject, Bool.and_eq_true, all_listed_iff, Bool.or_eq_true, any_lookup_iff,
    showsProject_iff]
  simp only [showsProject_iff, Holds]
  apply and_congr_right
  intro _
  constructor
  · rintro (⟨p, hp, hscope, hallows, hkeeps⟩ | ⟨g, hg, p, hp, hscope, hallows, hkeeps⟩)
    · exact ⟨p, hp, hscope, .inl hallows, hkeeps⟩
    · exact ⟨p, hp, hscope, .inr ⟨g, hg, hallows⟩, hkeeps⟩
  · rintro ⟨p, hp, hscope, hallows | ⟨g, hg, hallows⟩, hkeeps⟩
    · exact .inl ⟨p, hp, hscope, hallows, hkeeps⟩
    · exact .inr ⟨g, hg, p, hp, hscope, hallows, hkeeps⟩

theorem can_read_eq (access : Access) (id : Int) :
    access.can .project .read (some id) = access.seesProject id := by
  simp [can]

/-- Whoever can do something on a project sees it, and only they do. -/
theorem can_read_iff_exists :
    access.can .project .read (some id) = true ↔
      ∃ p ∈ catalogPairs, p.1.scope = .project ∧ access.can p.1 p.2 (some id) = true := by
  rw [can_read_eq, seesProject_iff]
  constructor
  · rintro ⟨hlists, p, hp, hscope, hholds, hkeeps⟩
    have hpair : p.1.accepts p.2 = true := mem_catalogPairs.mp hp
    exact ⟨p, hp, hscope, (can_iff hpair hscope).mpr ⟨hholds, hkeeps, hlists⟩⟩
  · rintro ⟨p, hp, hscope, hcan⟩
    obtain ⟨hholds, hkeeps, hlists⟩ := (can_iff (mem_catalogPairs.mp hp) hscope).mp hcan
    exact ⟨hlists, p, hp, hscope, hholds, hkeeps⟩

/-- What the grants alone show, before a token's list of projects. -/
private def shown (access : Access) : ProjectScope :=
  if access.showsProject access.onInstance then .all
  else
    .only (((access.projects.entries.filter fun e => access.showsProject e.2).map
      Sigma.fst).insertionSort (· ≤ ·))

private theorem includes_shown_iff :
    access.shown.Includes id ↔ access.showsProject access.onInstance = true ∨
      ∃ g, access.projects.lookup id = some g ∧ access.showsProject g = true := by
  unfold shown
  split_ifs with hall
  · simp [ProjectScope.Includes, hall]
  · simp only [ProjectScope.Includes, hall, Bool.false_eq_true, false_or]
    rw [List.mem_insertionSort, List.mem_map]
    constructor
    · rintro ⟨⟨_, g⟩, he, rfl⟩
      obtain ⟨he, hshows⟩ := List.mem_filter.mp he
      exact ⟨g, AList.mem_lookup_iff.mpr he, hshows⟩
    · rintro ⟨g, hg, hshows⟩
      exact ⟨⟨id, g⟩, List.mem_filter.mpr ⟨AList.mem_lookup_iff.mp hg, hshows⟩, rfl⟩

/-- The projects that are listed are the ones that are seen. -/
theorem includes_visibleProjects_iff :
    access.visibleProjects.Includes id ↔ access.seesProject id = true := by
  rw [seesProject, Bool.and_eq_true, all_listed_iff, Bool.or_eq_true, any_lookup_iff,
    ← includes_shown_iff]
  cases hcap : access.cap with
  | none =>
      have hvisible : access.visibleProjects = access.shown := by
        unfold visibleProjects
        rw [hcap]
        rfl
      simp [hvisible, Lists, hcap]
  | some c =>
      cases hids : c.projects with
      | none =>
          have hvisible : access.visibleProjects = access.shown := by
            unfold visibleProjects
            rw [hcap]
            dsimp only
            rw [hids]
            rfl
          simp [hvisible, Lists, hcap, hids]
      | some ids =>
          cases hshown : access.shown with
          | all =>
              have hvisible : access.visibleProjects = .only ids := by
                unfold visibleProjects
                unfold shown at hshown
                rw [hcap]
                dsimp only
                rw [hids, hshown]
              simp [hvisible, Lists, hcap, hids, ProjectScope.Includes]
          | only held =>
              have hvisible : access.visibleProjects =
                  .only (held.filter fun i => ids.contains i) := by
                unfold visibleProjects
                unfold shown at hshown
                rw [hcap]
                dsimp only
                rw [hids, hshown]
              simp [hvisible, Lists, hcap, hids, ProjectScope.Includes, and_comm]

/-! ## Somewhere, everywhere and on each -/

theorem held_any_iff :
    (∃ id, access.Holds r a id) ↔
      access.onInstance.allows r a = true ∨
        ∃ e ∈ access.projects.entries, e.2.allows r a = true := by
  constructor
  · rintro ⟨id, hallows | ⟨g, hg, hallows⟩⟩
    · exact .inl hallows
    · exact .inr ⟨⟨id, g⟩, AList.mem_lookup_iff.mp hg, hallows⟩
  · rintro (hallows | ⟨⟨id, g⟩, he, hallows⟩)
    · exact ⟨0, .inl hallows⟩
    · exact ⟨id, .inr ⟨g, AList.mem_lookup_iff.mpr he, hallows⟩⟩

theorem canSomewhere_iff (hscope : r.scope = .project) :
    access.canSomewhere r a = true ↔
      access.Keeps r a ∧ ∃ id, access.Lists id ∧ access.Holds r a id := by
  cases hcap : access.cap with
  | none =>
      have hlists : ∀ id, access.Lists id := by simp [Lists, hcap]
      simp [canSomewhere, hcap, Keeps, hlists, held_any_iff]
  | some c =>
      by_cases hkeeps : c.grants.allows r a = true
      · cases hids : c.projects with
        | none =>
            have hlists : ∀ id, access.Lists id := by simp [Lists, hcap, hids]
            simp [canSomewhere, hcap, Keeps, hkeeps, hids, hlists, held_any_iff]
        | some ids =>
            have hlists : ∀ id, access.Lists id ↔ id ∈ ids := by simp [Lists, hcap, hids]
            simp [canSomewhere, hcap, Keeps, hkeeps, hids, hlists, held_iff hscope]
      · simp [canSomewhere, hcap, Keeps, hkeeps]

/-- Allowed somewhere, allowed on some project. -/
theorem canSomewhere_iff_exists (hpair : r.accepts a = true) (hscope : r.scope = .project) :
    access.canSomewhere r a = true ↔ ∃ id, access.can r a (some id) = true := by
  rw [canSomewhere_iff hscope]
  simp only [can_iff hpair hscope]
  constructor
  · rintro ⟨hkeeps, id, hlists, hholds⟩
    exact ⟨id, hholds, hkeeps, hlists⟩
  · rintro ⟨id, hholds, hkeeps, hlists⟩
    exact ⟨hkeeps, id, hlists, hholds⟩

theorem mem_named_iff :
    id ∈ access.named ↔ (∃ g, access.projects.lookup id = some g) ∨
      ∃ ids, access.cap.bind TokenScope.projects = some ids ∧ id ∈ ids := by
  have hkeys : id ∈ access.projects.keys ↔ ∃ g, access.projects.lookup id = some g := by
    rw [← Option.isSome_iff_exists, AList.lookup_isSome, AList.mem_keys]
  rw [named, List.mem_dedup, List.mem_insertionSort, List.mem_append, hkeys]
  cases access.cap.bind TokenScope.projects with
  | none => simp
  | some ids => simp

/-- An id that nothing names is listed unless the token lists projects at all. -/
private theorem lists_of_not_named (hid : id ∉ access.named) :
    access.Lists id ↔ access.cap.bind TokenScope.projects = none := by
  constructor
  · intro hlists
    cases hids : access.cap.bind TokenScope.projects with
    | none => rfl
    | some ids => exact absurd (mem_named_iff.mpr (.inr ⟨ids, hids, hlists ids hids⟩)) hid
  · intro hnone ids hids
    rw [hnone] at hids
    contradiction

private theorem allowsEverywhere_iff :
    (access.cap.all fun c => c.allowsEverywhere r a) = true ↔
      access.Keeps r a ∧ access.cap.bind TokenScope.projects = none := by
  cases hcap : access.cap with
  | none => simp [Keeps, hcap]
  | some c => simp [Keeps, hcap, TokenScope.allowsEverywhere, and_comm]

theorem mem_instancePairs_iff (hpair : r.accepts a = true) (hscope : r.scope = .project) :
    (r, a) ∈ access.instancePairs ↔
      access.onInstance.allows r a = true ∧ access.Keeps r a ∧
        access.cap.bind TokenScope.projects = none := by
  rw [instancePairs, List.mem_filter]
  simp only [mem_catalogPairs.mpr hpair, true_and, hscope, Bool.and_eq_true,
    allowsEverywhere_iff]

/-- On a project that nothing names, exactly what holds everywhere is allowed. -/
theorem mem_instancePairs_iff_can_unnamed (hpair : r.accepts a = true)
    (hscope : r.scope = .project) (hid : id ∉ access.named) :
    (r, a) ∈ access.instancePairs ↔ access.can r a (some id) = true := by
  have hholds : access.Holds r a id ↔ access.onInstance.allows r a = true := by
    constructor
    · rintro (hallows | ⟨g, hg, _⟩)
      · exact hallows
      · exact absurd (mem_named_iff.mpr (.inl ⟨g, hg⟩)) hid
    · exact .inl
  rw [mem_instancePairs_iff hpair hscope, can_iff hpair hscope, hholds, lists_of_not_named hid]

theorem mem_instancePairs_iff_forall (hpair : r.accepts a = true) (hscope : r.scope = .project) :
    (r, a) ∈ access.instancePairs ↔ ∀ id, access.can r a (some id) = true := by
  constructor
  · intro hmem id
    obtain ⟨hallows, hkeeps, hnone⟩ := (mem_instancePairs_iff hpair hscope).mp hmem
    refine (can_iff hpair hscope).mpr ⟨.inl hallows, hkeeps, ?_⟩
    intro ids hids
    rw [hnone] at hids
    contradiction
  · intro hcan
    -- Only finitely many projects are named; any other one decides.
    obtain ⟨id, hid⟩ := Infinite.exists_notMem_finset access.named.toFinset
    rw [List.mem_toFinset] at hid
    exact (mem_instancePairs_iff_can_unnamed hpair hscope hid).mpr (hcan id)

theorem mem_pairsOn_iff {p : Pair} :
    p ∈ access.pairsOn id ↔
      p ∈ catalogPairs ∧ p.1.scope = .project ∧ access.can p.1 p.2 (some id) = true := by
  simp only [pairsOn, List.mem_filter, Bool.and_eq_true, beq_iff_eq]

theorem mem_projectPairs_iff {pairs : List Pair} :
    (id, pairs) ∈ access.projectPairs ↔
      id ∈ access.named ∧ pairs = access.pairsOn id ∧ pairs ≠ [] := by
  simp only [projectPairs, List.mem_filter, List.mem_map, Prod.mk.injEq, Bool.not_eq_true',
    List.isEmpty_eq_false_iff]
  constructor
  · rintro ⟨⟨_, hid, rfl, rfl⟩, hne⟩
    exact ⟨hid, rfl, hne⟩
  · rintro ⟨hid, rfl, hne⟩
    exact ⟨⟨id, hid, rfl, rfl⟩, hne⟩

/-- Held on a named project, or everywhere: the two lists of the dashboard miss
no right that `can` allows somewhere. -/
theorem holdsSomewhere_iff_exists (hpair : r.accepts a = true) (hscope : r.scope = .project) :
    access.holdsSomewhere r a = true ↔ ∃ id, access.can r a (some id) = true := by
  have hmem : (r, a) ∈ catalogPairs := mem_catalogPairs.mpr hpair
  rw [holdsSomewhere, Bool.or_eq_true, List.contains_iff_mem, List.any_eq_true]
  constructor
  · rintro (heverywhere | ⟨⟨id, pairs⟩, hentry, hcontains⟩)
    · exact ⟨0, (mem_instancePairs_iff_forall hpair hscope).mp heverywhere 0⟩
    · obtain ⟨_, rfl, _⟩ := mem_projectPairs_iff.mp hentry
      exact ⟨id, (mem_pairsOn_iff.mp (List.contains_iff_mem.mp hcontains)).2.2⟩
  · rintro ⟨id, hcan⟩
    by_cases hid : id ∈ access.named
    · have hon : (r, a) ∈ access.pairsOn id := mem_pairsOn_iff.mpr ⟨hmem, hscope, hcan⟩
      refine .inr ⟨(id, access.pairsOn id), ?_, List.contains_iff_mem.mpr hon⟩
      exact mem_projectPairs_iff.mpr ⟨hid, rfl, List.ne_nil_of_mem hon⟩
    · exact .inl ((mem_instancePairs_iff_can_unnamed hpair hscope hid).mpr hcan)

/-- The views agree with `can`: a project is listed when it is seen, and seen
when something on it is allowed; a right is held somewhere when some project
allows it, and everywhere when all do.  A project that nothing names is enough
to decide the last. -/
theorem views_agree (access : Access) {r : Resource} {a : Action}
    (hpair : (r, a) ∈ catalogPairs) (hscope : r.scope = .project) :
    (∀ id, access.visibleProjects.Includes id ↔ access.can .project .read (some id) = true) ∧
      (∀ id, access.can .project .read (some id) = true ↔
        ∃ p ∈ catalogPairs, p.1.scope = .project ∧ access.can p.1 p.2 (some id) = true) ∧
      (access.canSomewhere r a = true ↔ ∃ id, access.can r a (some id) = true) ∧
      access.holdsSomewhere r a = access.canSomewhere r a ∧
      ((r, a) ∈ access.instancePairs ↔ ∀ id, access.can r a (some id) = true) ∧
      ∀ id ∉ access.named, ((r, a) ∈ access.instancePairs ↔ access.can r a (some id) = true) := by
  have haccepts : r.accepts a = true := mem_catalogPairs.mp hpair
  refine ⟨?_, fun _ => can_read_iff_exists, canSomewhere_iff_exists haccepts hscope, ?_,
    mem_instancePairs_iff_forall haccepts hscope, ?_⟩
  · intro id
    rw [can_read_eq]
    exact includes_visibleProjects_iff
  · rw [Bool.eq_iff_iff, holdsSomewhere_iff_exists haccepts hscope,
      canSomewhere_iff_exists haccepts hscope]
  · intro id hid
    exact mem_instancePairs_iff_can_unnamed haccepts hscope hid

/-- Someone who reads the issues of project 7, through a token for 7 and 9. -/
private def reader : Access :=
  (new [⟨some 7, Grants.of [(.issues, .read)]⟩]).capped ⟨Grants.everything, some [7, 9]⟩

theorem views_agree_reader :
    reader.visibleProjects.Includes 7 ∧ reader.holdsSomewhere .issues .read = true ∧
      (.issues, .read) ∉ reader.instancePairs := by
  obtain ⟨hvisible, hsees, hsome, hholds, heverywhere, _⟩ :=
    views_agree reader (r := .issues) (a := .read) (by decide) rfl
  have hcan : reader.can .issues .read (some 7) = true := by decide +kernel
  refine ⟨(hvisible 7).mpr ((hsees 7).mpr ⟨(.issues, .read), by decide, rfl, hcan⟩), ?_, ?_⟩
  · rw [hholds]
    exact hsome.mpr ⟨7, hcan⟩
  · intro hmem
    exact absurd (heverywhere.mp hmem 9) (by decide +kernel)

/-! ## A token and its owner -/

variable {scope : TokenScope} {projectId : Option Int}

theorem can_capped (hcap : access.cap = none) (hread : ¬(r = .project ∧ a = .read)) :
    (access.capped scope).can r a projectId =
      (access.can r a projectId && scope.allows r a projectId) := by
  have howner : access.can r a projectId = access.held r a projectId := by
    simp [can, hread, cappedBy, hcap]
  rw [howner, can, if_neg hread]
  rfl

/-- Through a token a project is seen when the scope lets through something that
its owner can do there. -/
theorem can_read_capped (hcap : access.cap = none) :
    (access.capped scope).can .project .read (some id) = true ↔
      ∃ p ∈ catalogPairs, p.1.scope = .project ∧ access.can p.1 p.2 (some id) = true ∧
        scope.allows p.1 p.2 (some id) = true := by
  rw [can_read_iff_exists]
  apply exists_congr
  intro p
  apply and_congr_right
  intro hp
  rw [can_capped hcap (accepts_ne_read (mem_catalogPairs.mp hp)), Bool.and_eq_true]

theorem can_of_can_capped (hcap : access.cap = none)
    (hcan : (access.capped scope).can r a projectId = true) :
    access.can r a projectId = true := by
  by_cases hread : r = .project ∧ a = .read
  · obtain ⟨rfl, rfl⟩ := hread
    cases projectId with
    | none => simp [can] at hcan
    | some id =>
        obtain ⟨p, hp, hscope, howner, _⟩ := (can_read_capped hcap).mp hcan
        exact can_read_iff_exists.mpr ⟨p, hp, hscope, howner⟩
  · rw [can_capped hcap hread, Bool.and_eq_true] at hcan
    exact hcan.1

theorem includes_of_capped (hcap : access.cap = none)
    (hvisible : (access.capped scope).visibleProjects.Includes id) :
    access.visibleProjects.Includes id := by
  rw [includes_visibleProjects_iff, ← can_read_eq] at hvisible ⊢
  exact can_of_can_capped hcap hvisible

theorem exists_holds_of_held (hheld : access.held r a (some id) = true) :
    ∃ id, access.Holds r a id := by
  cases hscope : r.scope with
  | instanceWide => exact ⟨id, .inl (by simpa [held, hscope] using hheld)⟩
  | project => exact ⟨id, (held_iff hscope).mp hheld⟩

theorem canSomewhere_of_capped (hcap : access.cap = none)
    (hsome : (access.capped scope).canSomewhere r a = true) : access.canSomewhere r a = true := by
  have howner : access.canSomewhere r a = true ↔ ∃ id, access.Holds r a id := by
    simp [canSomewhere, hcap, held_any_iff]
  rw [howner]
  unfold canSomewhere at hsome
  split at hsome
  · contradiction
  · split at hsome
    · obtain ⟨id, _, hheld⟩ := List.any_eq_true.mp hsome
      exact exists_holds_of_held hheld
    · rw [held_any_iff]
      simpa [capped] using hsome

theorem mem_instancePairs_of_capped (hcap : access.cap = none) {p : Pair}
    (hp : p ∈ (access.capped scope).instancePairs) : p ∈ access.instancePairs := by
  rw [instancePairs, List.mem_filter] at hp ⊢
  obtain ⟨hmem, hp⟩ := hp
  refine ⟨hmem, ?_⟩
  cases hscope : p.1.scope with
  | instanceWide =>
      simp only [hscope] at hp ⊢
      exact can_of_can_capped hcap hp
  | project =>
      simp only [hscope, Bool.and_eq_true] at hp ⊢
      exact ⟨hp.1, by rw [hcap]; rfl⟩

/-- A right on a project that the token names is one the owner has there: listed
under the project when an assignment names it, and else one held everywhere. -/
theorem mem_projectPairs_of_capped (hcap : access.cap = none) {pairs : List Pair} {p : Pair}
    (hentry : (id, pairs) ∈ (access.capped scope).projectPairs) (hp : p ∈ pairs) :
    if id ∈ access.projects then ∃ owned, (id, owned) ∈ access.projectPairs ∧ p ∈ owned
    else p ∈ access.instancePairs := by
  obtain ⟨_, rfl, _⟩ := mem_projectPairs_iff.mp hentry
  obtain ⟨hmem, hscope, hcan⟩ := mem_pairsOn_iff.mp hp
  replace hcan : access.can p.1 p.2 (some id) = true := can_of_can_capped hcap hcan
  have hnamed : id ∈ access.named ↔ id ∈ access.projects := by
    rw [mem_named_iff, hcap, ← AList.lookup_isSome, Option.isSome_iff_exists]
    simp
  split_ifs with hid
  · have hon : p ∈ access.pairsOn id := mem_pairsOn_iff.mpr ⟨hmem, hscope, hcan⟩
    refine ⟨access.pairsOn id, mem_projectPairs_iff.mpr ⟨?_, rfl, List.ne_nil_of_mem hon⟩, hon⟩
    exact hnamed.mpr hid
  · rw [← hnamed] at hid
    exact (mem_instancePairs_iff_can_unnamed (mem_catalogPairs.mp hmem) hscope hid).mpr hcan

theorem covers_of_capped (hcap : access.cap = none) {grants : Grants}
    (hcovers : (access.capped scope).covers grants projectId = true) :
    access.covers grants projectId = true := by
  unfold covers at hcovers ⊢
  split_ifs at hcovers ⊢ with hall
  · simp only [isOwner, Bool.and_eq_true, hcap] at hcovers ⊢
    exact ⟨hcovers.1, rfl⟩
  · rw [List.all_eq_true] at hcovers ⊢
    intro p hp
    have hpair := hcovers p hp
    unfold coversPair at hpair ⊢
    split at hpair
    · exact can_of_can_capped hcap hpair
    · exact can_of_can_capped hcap hpair
    · rw [Bool.and_eq_true] at hpair ⊢
      exact ⟨hpair.1, by rw [hcap]; rfl⟩

/-- A token only narrows.  What it can do its owner can do, and the scope's
grants and list of projects allow it; seeing a project needs no permission of
its own, so there the scope allows something that the owner can do on it.  The
views of a token are contained in its owner's; of the rights it lists on the
projects that the token itself names, those that no assignment names for the
owner are among the rights the owner holds everywhere. -/
theorem token_only_narrows (assignments : List Assignment) (scope : TokenScope) :
    let owner := new assignments
    let token := owner.capped scope
    (∀ r a projectId, token.can r a projectId = true →
      owner.can r a projectId = true ∧
        if r = .project ∧ a = .read then
          ∃ id, projectId = some id ∧ ∃ p ∈ catalogPairs, p.1.scope = .project ∧
            owner.can p.1 p.2 (some id) = true ∧ scope.allows p.1 p.2 (some id) = true
        else scope.allows r a projectId = true) ∧
      (∀ id, token.visibleProjects.Includes id → owner.visibleProjects.Includes id) ∧
      (∀ r a, token.canSomewhere r a = true → owner.canSomewhere r a = true) ∧
      (∀ p ∈ token.instancePairs, p ∈ owner.instancePairs) ∧
      (∀ id pairs, (id, pairs) ∈ token.projectPairs → ∀ p ∈ pairs,
        if id ∈ owner.projects then ∃ owned, (id, owned) ∈ owner.projectPairs ∧ p ∈ owned
        else p ∈ owner.instancePairs) ∧
      ∀ grants projectId, token.covers grants projectId = true →
        owner.covers grants projectId = true := by
  intro owner token
  have hcap : owner.cap = none := cap_new assignments
  refine ⟨?_, fun _ => includes_of_capped hcap, fun _ _ => canSomewhere_of_capped hcap,
    fun _ => mem_instancePairs_of_capped hcap, ?_, fun _ _ => covers_of_capped hcap⟩
  · intro r a projectId hcan
    refine ⟨can_of_can_capped hcap hcan, ?_⟩
    split_ifs with hread
    · obtain ⟨rfl, rfl⟩ := hread
      cases projectId with
      | none => simp [can] at hcan
      | some id => exact ⟨id, rfl, (can_read_capped hcap).mp hcan⟩
    · rw [can_capped hcap hread, Bool.and_eq_true] at hcan
      exact hcan.2
  · intro id pairs hentry p hp
    exact mem_projectPairs_of_capped hcap hentry hp

/-- An owner of the workspace, and a token of theirs that reads the issues of
project 5.  The token sees the project, which its own grants do not name, and
lists the right under the project, where the owner's list is empty. -/
theorem token_names_its_project :
    let owner := new [⟨none, Grants.everything⟩]
    let scope : TokenScope := ⟨Grants.of [(.issues, .read)], some [5]⟩
    (owner.capped scope).can .project .read (some 5) = true ∧
      scope.allows .project .read (some 5) = false ∧
      (owner.capped scope).projectPairs = [(5, [(.issues, .read)])] ∧
      owner.projectPairs = [] := by
  decide +kernel

end Access

end Rustrak.Auth
