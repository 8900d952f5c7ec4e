import Mathlib.Data.List.AList
import Mathlib.Data.List.Sort
import Rustrak.Auth.Grants

/-!
# What one user may do

`Access` of `auth/rbac.rs`: the grants a user holds on the instance and on each
project, narrowed to a token's scope when they act through one.

## Strategy

`Access.new` sums a list of assignments, so every question it answers is a
question about one assignment: a predicate on grants that is false of nothing
and distributes over `add` holds of a sum exactly when it holds of a summand
(`Additive`, `instance_new`, `project_new`).  `can_new_iff` turns this into the
form every later file uses: without a token, a user can do what one of their
*placed pairs* confers.
-/

namespace Rustrak.Auth

/-- A role given to a user, on the instance (`none`) or on one project. -/
structure Assignment where
  projectId : Option Int
  grants : Grants

/-- Which projects someone can see. -/
inductive ProjectScope
  | all
  | only (ids : List Int)
  deriving DecidableEq, Repr

/-- What an API token was limited to when it was created. -/
structure TokenScope where
  grants : Grants
  /-- `none`: every project the owner can reach. -/
  projects : Option (List Int)
  deriving DecidableEq

namespace TokenScope

def allows (scope : TokenScope) (r : Resource) (a : Action) (projectId : Option Int) : Bool :=
  if r.scope = .instanceWide then scope.grants.allows r a
  else
    match projectId with
    | none => false
    | some id =>
        if scope.projects.any fun ids => !ids.contains id then false else scope.grants.allows r a

/-- Reaches every project, so an instance-wide project grant passes. -/
def allowsEverywhere (scope : TokenScope) (r : Resource) (a : Action) : Bool :=
  scope.projects.isNone && scope.grants.allows r a

end TokenScope

/-- A permission and where it is held. -/
structure Placed where
  place : Option Int
  pair : Pair
  deriving DecidableEq

/-- What one user may do, resolved from all their assignments, and narrowed to a
token's scope when they act through one. -/
structure Access where
  onInstance : Grants
  projects : AList fun _ : Int => Grants
  cap : Option TokenScope

namespace Access

/-- `Access::default()`. -/
def empty : Access := ⟨Grants.none, ∅, none⟩

def assign (access : Access) (a : Assignment) : Access :=
  match a.projectId with
  | none => { access with onInstance := access.onInstance.add a.grants }
  | some id =>
      { access with
        projects :=
          access.projects.insert id (((access.projects.lookup id).getD Grants.none).add a.grants) }

def new (assignments : List Assignment) : Access :=
  assignments.foldl assign empty

/-- The same access, limited to what `scope` allows. -/
def capped (access : Access) (scope : TokenScope) : Access :=
  { access with cap := some scope }

def cappedBy (access : Access) (r : Resource) (a : Action) (projectId : Option Int) : Bool :=
  access.cap.all fun c => c.allows r a projectId

/-- These grants show a project: any permission on it does, and through a token
only one the token keeps. -/
def showsProject (access : Access) (grants : Grants) : Bool :=
  match access.cap with
  | some cap => grants.sharesProjectGrant cap.grants
  | none => grants.anyProjectGrant

def seesProject (access : Access) (id : Int) : Bool :=
  ((access.cap.bind TokenScope.projects).all fun ids => ids.contains id) &&
    (access.showsProject access.onInstance ||
      (access.projects.lookup id).any fun g => access.showsProject g)

def held (access : Access) (r : Resource) (a : Action) (projectId : Option Int) : Bool :=
  if r.scope = .instanceWide then access.onInstance.allows r a
  else
    match projectId with
    | none => false
    | some id =>
        access.onInstance.allows r a || (access.projects.lookup id).any fun g => g.allows r a

/-- Whether `a` on `r` is allowed.  Project resources need the project; instance
resources ignore it and only count instance grants. -/
def can (access : Access) (r : Resource) (a : Action) (projectId : Option Int) : Bool :=
  if r = .project ∧ a = .read then projectId.any fun id => access.seesProject id
  else access.held r a projectId && access.cappedBy r a projectId

/-- The projects this user can see at all. -/
def visibleProjects (access : Access) : ProjectScope :=
  let held : ProjectScope :=
    if access.showsProject access.onInstance then .all
    else
      .only (((access.projects.entries.filter fun e => access.showsProject e.2).map
        Sigma.fst).insertionSort (· ≤ ·))
  match access.cap with
  | none => held
  | some cap =>
      match held, cap.projects with
      | held, none => held
      | .all, some ids => .only ids
      | .only ids, some allowed => .only (ids.filter fun i => allowed.contains i)

/-- Holds every permission on the whole instance, unrestricted. -/
def isOwner (access : Access) : Bool :=
  access.onInstance.all && access.cap.all fun c => c.grants.all && c.projects.isNone

/-- One pair of `covers`. -/
def coversPair (access : Access) (r : Resource) (a : Action) (projectId : Option Int) : Bool :=
  match r.scope, projectId with
  | .instanceWide, _ => access.can r a none
  | .project, some p => access.can r a (some p)
  -- On every project, a project grant reaches every project: only an
  -- instance-wide holder covers it.
  | .project, none =>
      access.onInstance.allows r a && access.cap.all fun c => c.allowsEverywhere r a

/-- Whether this user already holds every grant in `grants` where it would apply,
so handing it out (or writing it into a role) is no escalation. -/
def covers (access : Access) (grants : Grants) (projectId : Option Int) : Bool :=
  if grants.all then access.isOwner
  else grants.pairList.all fun p => access.coversPair p.1 p.2 projectId

/-! ## Sums of grants -/

/-- A question about grants that a sum answers through its summands. -/
structure Additive (P : Grants → Bool) : Prop where
  none : P Grants.none = false
  add : ∀ g h, P (g.add h) = (P g || P h)

theorem additive_allows (r : Resource) (a : Action) : Additive fun g => g.allows r a where
  none := by simp [Grants.allows]
  add g h := by
    rw [Bool.eq_iff_iff, Bool.or_eq_true]
    exact Grants.allows_add

theorem additive_anyProjectGrant : Additive Grants.anyProjectGrant where
  none := by simp [Grants.anyProjectGrant]
  add g h := by
    rw [Bool.eq_iff_iff, Bool.or_eq_true]
    exact Grants.anyProjectGrant_add

theorem additive_all : Additive Grants.all where
  none := rfl
  add _ _ := rfl

variable {P : Grants → Bool}

private theorem instance_foldl (hP : Additive P) (assignments : List Assignment)
    (access : Access) :
    P (assignments.foldl assign access).onInstance =
      (P access.onInstance ||
        assignments.any fun a => a.projectId == Option.none && P a.grants) := by
  induction assignments generalizing access with
  | nil => simp
  | cons a rest ih =>
      rw [List.foldl_cons, ih, List.any_cons, ← Bool.or_assoc]
      congr 1
      cases hplace : a.projectId with
      | none => simp [assign, hplace, hP.add]
      | some id => simp [assign, hplace]

private theorem project_foldl (hP : Additive P) (id : Int) (assignments : List Assignment)
    (access : Access) :
    ((assignments.foldl assign access).projects.lookup id).any P =
      ((access.projects.lookup id).any P ||
        assignments.any fun a => a.projectId == some id && P a.grants) := by
  induction assignments generalizing access with
  | nil => simp
  | cons a rest ih =>
      rw [List.foldl_cons, ih, List.any_cons, ← Bool.or_assoc]
      congr 1
      cases hplace : a.projectId with
      | none => simp [assign, hplace]
      | some other =>
          by_cases hid : other = id
          · subst hid
            cases hold : access.projects.lookup other with
            | none => simp [assign, hplace, hold, hP.add, hP.none]
            | some g => simp [assign, hplace, hold, hP.add]
          · simp [assign, hplace, hid, AList.lookup_insert_ne (Ne.symm hid)]

theorem instance_new (hP : Additive P) (assignments : List Assignment) :
    P (new assignments).onInstance = true ↔
      ∃ a ∈ assignments, a.projectId = Option.none ∧ P a.grants = true := by
  rw [new, instance_foldl hP]
  simp [empty, hP.none]

theorem project_new (hP : Additive P) (assignments : List Assignment) (id : Int) :
    ((new assignments).projects.lookup id).any P = true ↔
      ∃ a ∈ assignments, a.projectId = some id ∧ P a.grants = true := by
  rw [new, project_foldl hP]
  simp [empty]

theorem cap_new (assignments : List Assignment) : (new assignments).cap = none := by
  suffices h : ∀ access : Access, (assignments.foldl assign access).cap = access.cap from h empty
  induction assignments with
  | nil => intro _; rfl
  | cons a rest ih =>
      intro access
      rw [List.foldl_cons, ih]
      unfold assign
      split <;> rfl

/-! ## Placed pairs

A right is a resource, an action and where: on the instance or on one project.
A user's placed pairs are what `RoleService::access_for` reads, one per
permission row of an assigned role. -/

end Access

def Placed.assignment (x : Placed) : Assignment := ⟨x.place, Grants.of [x.pair]⟩

/-- Held everywhere or on this project. -/
def Placed.reaches (x : Placed) (id : Int) : Prop := x.place = none ∨ x.place = some id

/-- What one placed pair lets its holder do. -/
def Placed.Confers (x : Placed) (r : Resource) (a : Action) (projectId : Option Int) : Prop :=
  if r = .project ∧ a = .read then
    ∃ id, projectId = some id ∧ x.pair.1.scope = .project ∧ x.reaches id
  else if r.scope = .instanceWide then x.place = none ∧ Grants.Implies x.pair r a
  else ∃ id, projectId = some id ∧ x.reaches id ∧ Grants.Implies x.pair r a

namespace Access

/-- The access of someone who holds these placed pairs and acts without a token. -/
def ofPlaced (placed : List Placed) : Access := new (placed.map Placed.assignment)

theorem cap_ofPlaced (placed : List Placed) : (ofPlaced placed).cap = none :=
  cap_new _

/-- A placed pair of the catalog answers a question about its grants. -/
private theorem placed_iff {placed : List Placed} {P : Grants → Bool} {place : Option Int} :
    (∃ a ∈ placed.map Placed.assignment, a.projectId = place ∧ P a.grants = true) ↔
      ∃ x ∈ placed, x.place = place ∧ P (Grants.of [x.pair]) = true := by
  constructor
  · rintro ⟨a, ha, hplace, hP⟩
    obtain ⟨x, hx, rfl⟩ := List.mem_map.mp ha
    exact ⟨x, hx, hplace, hP⟩
  · rintro ⟨x, hx, hplace, hP⟩
    exact ⟨x.assignment, List.mem_map_of_mem hx, hplace, hP⟩

variable {placed : List Placed}

theorem onInstance_ofPlaced {P : Grants → Bool} (hP : Additive P) :
    P (ofPlaced placed).onInstance = true ↔
      ∃ x ∈ placed, x.place = none ∧ P (Grants.of [x.pair]) = true := by
  rw [ofPlaced, instance_new hP, placed_iff]

theorem projects_ofPlaced {P : Grants → Bool} (hP : Additive P) (id : Int) :
    ((ofPlaced placed).projects.lookup id).any P = true ↔
      ∃ x ∈ placed, x.place = some id ∧ P (Grants.of [x.pair]) = true := by
  rw [ofPlaced, project_new hP, placed_iff]

/-- On the instance or on the project: what either of them answers. -/
private theorem reaching_ofPlaced {P : Grants → Bool} (hP : Additive P) (id : Int) :
    (P (ofPlaced placed).onInstance || ((ofPlaced placed).projects.lookup id).any P) = true ↔
      ∃ x ∈ placed, x.reaches id ∧ P (Grants.of [x.pair]) = true := by
  rw [Bool.or_eq_true, onInstance_ofPlaced hP, projects_ofPlaced hP, ← exists_or]
  apply exists_congr
  intro x
  unfold Placed.reaches
  tauto

theorem allows_of_single {p : Pair} (hp : p.1.accepts p.2 = true) {r : Resource} {a : Action} :
    (Grants.of [p]).allows r a = true ↔ Grants.Implies p r a := by
  rw [Grants.allows_iff]
  constructor
  · rintro (hall | ⟨q, hq, himplies⟩)
    · simp at hall
    · obtain rfl : q = p := by simpa using (Grants.mem_pairs_of.mp hq).1
      exact himplies
  · intro himplies
    exact .inr ⟨p, Grants.mem_pairs_of.mpr ⟨by simp, hp⟩, himplies⟩

theorem anyProjectGrant_of_single {p : Pair} (hp : p.1.accepts p.2 = true) :
    (Grants.of [p]).anyProjectGrant = true ↔ p.1.scope = .project := by
  rw [Grants.anyProjectGrant_iff]
  constructor
  · rintro (hall | ⟨q, hq, hscope⟩)
    · simp at hall
    · obtain rfl : q = p := by simpa using (Grants.mem_pairs_of.mp hq).1
      exact hscope
  · intro hscope
    exact .inr ⟨p, Grants.mem_pairs_of.mpr ⟨by simp, hp⟩, hscope⟩

/-- Every placed pair is a pair of the catalog. -/
def Catalogued (placed : List Placed) : Prop :=
  ∀ x ∈ placed, x.pair.1.accepts x.pair.2 = true

/-- Without a token, a user can do exactly what one of their placed pairs confers. -/
theorem can_ofPlaced_iff (hcat : Catalogued placed) {r : Resource} {a : Action}
    {projectId : Option Int} :
    (ofPlaced placed).can r a projectId = true ↔ ∃ x ∈ placed, x.Confers r a projectId := by
  have hallows : ∀ x ∈ placed,
      ((Grants.of [x.pair]).allows r a = true ↔ Grants.Implies x.pair r a) :=
    fun x hx => allows_of_single (hcat x hx)
  by_cases hread : r = .project ∧ a = .read
  · -- Seeing a project is never granted: any project permission shows it.
    simp only [can, if_pos hread, Placed.Confers]
    cases projectId with
    | none => simp
    | some id =>
        simp only [Option.any_some, seesProject, cap_ofPlaced, Option.bind_none, Option.all_none,
          Bool.true_and, showsProject, reaching_ofPlaced additive_anyProjectGrant]
        refine exists_congr fun x => and_congr_right fun hx => ?_
        rw [anyProjectGrant_of_single (hcat x hx)]
        simp [and_comm]
  · simp only [can, if_neg hread, Placed.Confers, cappedBy, cap_ofPlaced, Option.all_none,
      Bool.and_true, held]
    split_ifs with hscope
    · rw [onInstance_ofPlaced (additive_allows r a)]
      refine exists_congr fun x => and_congr_right fun hx => ?_
      rw [hallows x hx]
    · cases projectId with
      | none => simp
      | some id =>
          rw [reaching_ofPlaced (additive_allows r a)]
          refine exists_congr fun x => and_congr_right fun hx => ?_
          rw [hallows x hx]
          simp

/-- Nobody is an owner through assigned roles, with or without a token. -/
theorem isOwner_ofPlaced (cap : Option TokenScope) :
    ({ ofPlaced placed with cap } : Access).isOwner = false := by
  have hall : (ofPlaced placed).onInstance.all ≠ true := by
    rw [Ne, onInstance_ofPlaced additive_all]
    simp
  simp [isOwner, hall]

/-! ## What covering means -/

/-- Where the pairs of a role held at `projectId` apply: workspace permissions
apply wherever the role is held. -/
def placeOf (p : Pair) (projectId : Option Int) : Option Int :=
  projectId.filter fun _ => p.1.scope == .project

theorem placeOf_eq_self {p : Pair} (hscope : p.1.scope = .project) (projectId : Option Int) :
    placeOf p projectId = projectId := by
  cases projectId <;> simp [placeOf, hscope, Option.filter]

theorem placeOf_eq_none {p : Pair} (hscope : p.1.scope = .instanceWide)
    (projectId : Option Int) : placeOf p projectId = none := by
  cases projectId <;> simp [placeOf, hscope, Option.filter]

/-- A pair covered on the instance or on the project reaches it. -/
private theorem held_of_coversPair {p : Pair} (hp : p.1.accepts p.2 = true)
    {cap : Option TokenScope} {projectId : Option Int}
    (hcovers : ({ ofPlaced placed with cap } : Access).coversPair p.1 p.2 projectId = true) :
    ∃ x ∈ placed, (x.place = none ∨ x.place = placeOf p projectId) ∧
      (Grants.of [x.pair]).allows p.1 p.2 = true := by
  have hnotread : ¬(p.1 = .project ∧ p.2 = .read) := by
    rintro ⟨hr, ha⟩
    rw [hr, ha] at hp
    exact absurd hp (by decide)
  cases hscope : p.1.scope with
  | instanceWide =>
      simp only [coversPair, hscope, can, if_neg hnotread, Bool.and_eq_true, held, if_true]
        at hcovers
      obtain ⟨x, hx, hplace, hallows⟩ :=
        (onInstance_ofPlaced (additive_allows p.1 p.2)).mp hcovers.1
      exact ⟨x, hx, .inl hplace, hallows⟩
  | project =>
      cases projectId with
      | none =>
          simp only [coversPair, hscope, Bool.and_eq_true] at hcovers
          obtain ⟨x, hx, hplace, hallows⟩ :=
            (onInstance_ofPlaced (additive_allows p.1 p.2)).mp hcovers.1
          exact ⟨x, hx, .inl hplace, hallows⟩
      | some id =>
          simp only [coversPair, hscope, can, if_neg hnotread, Bool.and_eq_true, held,
            reduceCtorEq, if_false] at hcovers
          obtain ⟨x, hx, hplace, hallows⟩ :=
            (reaching_ofPlaced (additive_allows p.1 p.2) id).mp hcovers.1
          refine ⟨x, hx, ?_, hallows⟩
          rw [placeOf_eq_self hscope]
          exact hplace

/-- What a covered pair confers where the grants were covered, the actor can do
already: seeing a project included, and implied reads. -/
theorem can_of_coversPair (hcat : Catalogued placed) {p : Pair}
    (hp : p.1.accepts p.2 = true) {cap : Option TokenScope} {projectId : Option Int}
    (hcovers : ({ ofPlaced placed with cap } : Access).coversPair p.1 p.2 projectId = true)
    {r : Resource} {a : Action} {target : Option Int}
    (hconfers : (⟨placeOf p projectId, p⟩ : Placed).Confers r a target) :
    (ofPlaced placed).can r a target = true := by
  obtain ⟨x, hx, hplace, hallows⟩ := held_of_coversPair hp hcovers
  have himplies : Grants.Implies x.pair p.1 p.2 := (allows_of_single (hcat x hx)).mp hallows
  have hreaches : ∀ id, (⟨placeOf p projectId, p⟩ : Placed).reaches id → x.reaches id := by
    rintro id (hid | hid) <;> rcases hplace with h | h
    · exact .inl h
    · exact .inl (h.trans hid)
    · exact .inl h
    · exact .inr (h.trans hid)
  have htransfer : ∀ {r a}, Grants.Implies p r a → Grants.Implies x.pair r a := by
    intro r a h
    obtain rfl : p.1 = r := h.resource_eq
    exact himplies.trans h
  rw [can_ofPlaced_iff hcat]
  refine ⟨x, hx, ?_⟩
  unfold Placed.Confers at hconfers ⊢
  split_ifs at hconfers ⊢ with hread hscope
  · obtain ⟨id, htarget, hproject, hid⟩ := hconfers
    exact ⟨id, htarget, by rw [himplies.resource_eq]; exact hproject, hreaches id hid⟩
  · obtain ⟨hnone, h⟩ := hconfers
    refine ⟨?_, htransfer h⟩
    rcases hplace with hplace | hplace
    · exact hplace
    · exact hplace.trans hnone
  · obtain ⟨id, htarget, hid, h⟩ := hconfers
    exact ⟨id, htarget, hreaches id hid, htransfer h⟩

/-- Covered on every project, covered on each: a role edited after it was
assigned reaches the places where it is already held. -/
theorem coversPair_anywhere {access : Access} {p : Pair} (hp : p.1.accepts p.2 = true)
    (hcovers : access.coversPair p.1 p.2 none = true) (projectId : Option Int) :
    ({ access with cap := none } : Access).coversPair p.1 p.2 projectId = true := by
  have hnotread : ¬(p.1 = .project ∧ p.2 = .read) := by
    rintro ⟨hr, ha⟩
    rw [hr, ha] at hp
    exact absurd hp (by decide)
  cases hscope : p.1.scope with
  | instanceWide =>
      simp only [coversPair, hscope, can, if_neg hnotread, Bool.and_eq_true, held, if_true]
        at hcovers ⊢
      exact ⟨hcovers.1, rfl⟩
  | project =>
      simp only [coversPair, hscope, Bool.and_eq_true] at hcovers
      cases projectId with
      | none => simp [coversPair, hscope, hcovers.1]
      | some id =>
          simp [coversPair, hscope, can, if_neg hnotread, held, hcovers.1, cappedBy]

theorem coversPair_of_covers {access : Access} {pairs : List Pair} {projectId : Option Int}
    (hcovers : access.covers (Grants.of pairs) projectId = true) {p : Pair} (hp : p ∈ pairs)
    (haccepts : p.1.accepts p.2 = true) : access.coversPair p.1 p.2 projectId = true := by
  simp only [covers, Grants.all_of, Bool.false_eq_true, if_false, List.all_eq_true] at hcovers
  exact hcovers p (Grants.mem_pairList.mpr (Grants.mem_pairs_of.mpr ⟨hp, haccepts⟩))

end Access

end Rustrak.Auth
