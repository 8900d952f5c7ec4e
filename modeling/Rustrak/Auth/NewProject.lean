import Rustrak.Auth.Holdings
import Rustrak.Auth.Requests
import Rustrak.Auth.Views

/-!
# Rights on a project just created

A request that creates a project acts on with the access it began with, which knows nothing
of the project.  `can_on_new_project` of `auth/rbac.rs` says what that access will come to:
a token's list of projects does not grow, whoever reaches every project reaches this one, and
everybody else's roles are extended to it.

Extending copies a user's roles, wherever they are held, to the one project.  So what is held
on it afterwards is what was held on some project before (`holds_extended_iff`).
-/

namespace Rustrak.Auth

open Rustrak.Core RoleService

namespace Access

/-- Whether `a` is allowed on a project this user just created. -/
def canOnNewProject (access : Access) (r : Resource) (a : Action) (id : Int) : Bool :=
  if access.cap.any fun c => c.projects.isSome then false
  else
    match access.visibleProjects with
    | .all => access.can r a (some id)
    | .only _ => access.canSomewhere r a

/-- The access of a session, or of a token with this scope. -/
def under (access : Access) (scope : Option TokenScope) : Access :=
  match scope with
  | none => access
  | some scope => access.capped scope

variable {access : Access} {scope : Option TokenScope} {r : Resource} {a : Action} {id : Int}

theorem cap_under (hcap : access.cap = none) : (access.under scope).cap = scope := by
  cases scope with
  | none => exact hcap
  | some scope => rfl

theorem holds_under : (access.under scope).Holds r a id ↔ access.Holds r a id := by
  cases scope <;> exact Iff.rfl

theorem lists_of_projects_none (h : access.cap.any (fun c => c.projects.isSome) = false)
    (id : Int) : access.Lists id := by
  intro ids hids
  obtain ⟨c, hc, hprojects⟩ := Option.bind_eq_some_iff.mp hids
  simp [hc, hprojects] at h

/-- A list that does not have the project keeps its rights out. -/
theorem can_eq_false_of_listed (hpair : r.accepts a = true) (hscope : r.scope = .project)
    (h : access.cap.any (fun c => c.projects.isSome) = true)
    (hfresh : ∀ ids, access.cap.bind TokenScope.projects = some ids → id ∉ ids) :
    access.can r a (some id) = false := by
  rw [Bool.eq_false_iff, Ne, can_iff hpair hscope]
  rintro ⟨-, -, hlists⟩
  obtain ⟨c, hc, hsome⟩ := Option.any_eq_true .. |>.mp h
  obtain ⟨ids, hids⟩ := Option.isSome_iff_exists.mp hsome
  have hbind : access.cap.bind TokenScope.projects = some ids := by
    rw [hc, Option.bind_some, hids]
  exact hfresh ids hbind (hlists ids hbind)

end Access

/-! ## What is held after extending -/

variable {t t' : Tables} {userId projectId : Int} {r : Resource} {a : Action}

theorem holds_ofPlaced_iff {placed : List Placed} (hcat : Access.Catalogued placed)
    (hpair : r.accepts a = true) (hscope : r.scope = .project) (id : Int) :
    (Access.ofPlaced placed).Holds r a id ↔
      ∃ x ∈ placed, x.reaches id ∧ Grants.Implies x.pair r a := by
  have hkeeps : (Access.ofPlaced placed).Keeps r a := by
    simp [Access.Keeps, Access.cap_ofPlaced]
  have hlists : (Access.ofPlaced placed).Lists id := by
    simp [Access.Lists, Access.cap_ofPlaced]
  have hcan : (Access.ofPlaced placed).Holds r a id ↔
      (Access.ofPlaced placed).can r a (some id) = true := by
    rw [Access.can_iff hpair hscope]
    exact ⟨fun h => ⟨h, hkeeps, hlists⟩, And.left⟩
  rw [hcan, Access.can_ofPlaced_iff hcat]
  refine exists_congr fun x => and_congr_right fun _ => ?_
  rw [Placed.Confers, if_neg (Access.accepts_ne_read hpair), if_neg (by rw [hscope]; decide)]
  simp

/-- An assigned pair about projects is held where its assignment says. -/
theorem holds_accessFor_iff (hplain : (t.user userId).any UserRow.isAdmin = false)
    (hpair : r.accepts a = true) (hscope : r.scope = .project) (id : Int) :
    (accessFor t userId).Holds r a id ↔
      ∃ row ∈ t.assignments, row.userId = userId ∧
        (row.projectId = none ∨ row.projectId = some id) ∧
        ∃ p ∈ t.pairsOf row.roleId, Grants.Implies p r a := by
  rw [accessFor, hplain, if_neg Bool.false_ne_true,
    holds_ofPlaced_iff (catalogued_placedFor t userId) hpair hscope]
  have hplace : ∀ {p : Pair} {projectId : Option Int}, Grants.Implies p r a →
      Access.placeOf p projectId = projectId := by
    intro p projectId himplies
    apply Access.placeOf_eq_self
    rw [himplies.resource_eq, hscope]
  constructor
  · rintro ⟨x, hx, hreaches, himplies⟩
    obtain ⟨row, hrow, huser, p, hp, rfl⟩ := mem_placedFor.mp hx
    rw [Placed.reaches, hplace himplies] at hreaches
    exact ⟨row, hrow, huser, hreaches, p, hp, himplies⟩
  · rintro ⟨row, hrow, huser, hreaches, p, hp, himplies⟩
    refine ⟨_, mem_placedFor.mpr ⟨row, hrow, huser, p, hp, rfl⟩, ?_, himplies⟩
    rw [Placed.reaches, hplace himplies]
    exact hreaches

/-- Each role of the user is held on the project, or everywhere. -/
theorem extendToProject_reaches (h : extendToProject t userId projectId = .ok t')
    {row : AssignmentRow} (hrow : row ∈ t.assignments) (huser : row.userId = userId) :
    ∃ held ∈ t'.assignments, held.userId = userId ∧ held.roleId = row.roleId ∧
      (held.projectId = none ∨ held.projectId = some projectId) := by
  unfold extendToProject at h
  dsimp only at h
  split_ifs at h
  obtain rfl := Except.ok.inj h
  by_cases hheld : t.assignments.any (sameAssignment ⟨userId, row.roleId, some projectId⟩) = true
  · -- The row is there already, where none counts as project 0.
    obtain ⟨held, hmem, hsame⟩ := List.any_eq_true.mp hheld
    simp only [sameAssignment, Bool.and_eq_true, beq_iff_eq, Option.getD_some] at hsame
    obtain ⟨⟨hheldUser, hrole⟩, hplace⟩ := hsame
    refine ⟨held, List.mem_append_left _ hmem, hheldUser.symm, hrole.symm, ?_⟩
    cases hproject : held.projectId with
    | none => exact .inl rfl
    | some id =>
        rw [hproject, Option.getD_some] at hplace
        exact .inr (congrArg some hplace.symm)
  · have hmem : row.roleId ∈ ((t.assignments.filter fun a => a.userId == userId).map
        AssignmentRow.roleId).dedup := by
      rw [List.mem_dedup]
      exact List.mem_map_of_mem (List.mem_filter.mpr ⟨hrow, by simpa using huser⟩)
    refine ⟨⟨userId, row.roleId, some projectId⟩, ?_, rfl, rfl, .inr rfl⟩
    refine List.mem_append_right _ (List.mem_filter.mpr ⟨List.mem_map_of_mem hmem, ?_⟩)
    simpa using hheld

private theorem holds_everything (id : Int) :
    (Access.new [⟨none, Grants.everything⟩]).Holds r a id := by
  refine .inl ((Access.instance_new (Access.additive_allows r a) _).mpr ?_)
  exact ⟨_, List.mem_singleton_self _, rfl, Grants.allows_iff.mpr (.inl rfl)⟩

/-- Extended to one project, a user holds there what they held on any. -/
theorem holds_extended_iff (h : extendToProject t userId projectId = .ok t')
    (hpair : r.accepts a = true) (hscope : r.scope = .project) :
    (accessFor t' userId).Holds r a projectId ↔ ∃ id, (accessFor t userId).Holds r a id := by
  obtain ⟨added, hadded, hrows⟩ := extendToProject_spec h
  have huser : t'.user userId = t.user userId := by
    rw [hadded]
    rfl
  have hpairs : ∀ roleId, t'.pairsOf roleId = t.pairsOf roleId := by
    intro roleId
    rw [hadded]
    rfl
  cases hadmin : (t.user userId).any UserRow.isAdmin with
  | true =>
      rw [accessFor, accessFor, huser, hadmin, if_pos rfl]
      exact ⟨fun _ => ⟨0, holds_everything 0⟩, fun _ => holds_everything projectId⟩
  | false =>
      simp only [holds_accessFor_iff hadmin hpair hscope]
      rw [holds_accessFor_iff (by rw [huser, hadmin]) hpair hscope]
      simp only [hpairs]
      constructor
      · rintro ⟨row, hrow, hrowUser, -, hpermission⟩
        rw [hadded] at hrow
        rcases List.mem_append.mp hrow with hrow | hrow
        · exact ⟨row.projectId.getD 0, row, hrow, hrowUser, by cases row.projectId <;> simp,
            hpermission⟩
        · obtain ⟨-, -, old, hold, holdUser, hrole⟩ := hrows row hrow
          rw [← hrole] at hpermission
          exact ⟨old.projectId.getD 0, old, hold, holdUser, by cases old.projectId <;> simp,
            hpermission⟩
      · rintro ⟨-, row, hrow, hrowUser, -, hpermission⟩
        obtain ⟨held, hheld, hheldUser, hrole, hplace⟩ :=
          extendToProject_reaches h hrow hrowUser
        rw [← hrole] at hpermission
        exact ⟨held, hheld, hheldUser, hplace, hpermission⟩

/-! ## What the request may do next -/

theorem cap_accessFor (t : Tables) (userId : Int) : (accessFor t userId).cap = none := by
  unfold accessFor
  split
  · exact Access.cap_new _
  · exact Access.cap_ofPlaced _

/-- A new project leaves what a user is and holds as they were. -/
theorem accessFor_insertProject (t : Tables) (id : Int) (userId : Int) :
    accessFor { t with projects := t.projects ++ [id], nextProjectId := id + 1 } userId =
      accessFor t userId :=
  rfl

/-- Creating a project extends the creator's roles to it unless they reach every
project. -/
theorem createProject_spec {actor : ApiActor} {user : UserRow} {accepted : AppResult Unit}
    (huser : actor.user = some user) (h : createProject t actor accepted = .ok t') :
    let created : Tables :=
      { t with projects := t.projects ++ [t.nextProjectId], nextProjectId := t.nextProjectId + 1 }
    match actor.access.visibleProjects with
    | .all => t' = created
    | .only _ => extendToProject created user.id t.nextProjectId = .ok t' := by
  obtain ⟨_, _, h⟩ := bind_eq_ok h
  obtain ⟨_, _, h⟩ := bind_eq_ok h
  obtain ⟨⟨_, id⟩, hinsert, h⟩ := bind_eq_ok h
  obtain ⟨_, _, hinsert⟩ := bind_eq_ok hinsert
  obtain ⟨rfl, rfl⟩ := Prod.mk.inj (Except.ok.inj hinsert)
  have hid : actor.userId = some user.id := by simp [ApiActor.userId, huser]
  rw [hid] at h
  cases hvisible : actor.access.visibleProjects with
  | all =>
      rw [hvisible] at h
      exact (Except.ok.inj h).symm
  | only ids =>
      rw [hvisible] at h
      exact h

/-- What a creator is said to be allowed on the project just created is what the
tables allow them there. -/
theorem canOnNewProject_eq_can {user : UserRow} {scope : Option TokenScope}
    {accepted : AppResult Unit}
    (hcreated : createProject t ⟨some user, (accessFor t user.id).under scope⟩ accepted = .ok t')
    (hfresh : ∀ ids, scope.bind TokenScope.projects = some ids → t.nextProjectId ∉ ids)
    (hpair : r.accepts a = true) (hscope : r.scope = .project) :
    ((accessFor t user.id).under scope).canOnNewProject r a t.nextProjectId =
      ((accessFor t' user.id).under scope).can r a (some t.nextProjectId) := by
  have hcap : ∀ t, ((accessFor t user.id).under scope).cap = scope := fun t =>
    Access.cap_under (cap_accessFor t user.id)
  have hspec := createProject_spec rfl hcreated
  unfold Access.canOnNewProject
  rw [hcap]
  cases hlisted : scope.any fun c => c.projects.isSome with
  | true =>
      rw [if_pos rfl]
      rw [← hcap t'] at hlisted hfresh
      exact (Access.can_eq_false_of_listed hpair hscope hlisted hfresh).symm
  | false =>
      rw [if_neg Bool.false_ne_true]
      have hlists : ∀ t id, ((accessFor t user.id).under scope).Lists id := by
        intro t id
        apply Access.lists_of_projects_none
        rw [hcap, hlisted]
      have hkeeps : ((accessFor t' user.id).under scope).Keeps r a ↔
          ((accessFor t user.id).under scope).Keeps r a := by
        simp only [Access.Keeps, hcap]
      cases hvisible : ((accessFor t user.id).under scope).visibleProjects with
      | all =>
          rw [hvisible] at hspec
          rw [hspec, accessFor_insertProject]
      | only ids =>
          rw [hvisible] at hspec
          have hholds := holds_extended_iff hspec hpair hscope
          rw [accessFor_insertProject] at hholds
          rw [Bool.eq_iff_iff, Access.canSomewhere_iff hscope, Access.can_iff hpair hscope,
            hkeeps, Access.holds_under, hholds]
          simp only [Access.holds_under, hlists, true_and, and_true]
          exact and_comm

/-- A member who updates the issues of project 1 and may create projects. -/
def oneProject (assignments : List AssignmentRow) (projects : List Int) (next : Int) : Tables where
  users := [⟨1, true, "admin"⟩, ⟨2, true, "member"⟩]
  projects := projects
  roles := [⟨1, "Lead", "", none⟩]
  permissions := [⟨1, "projects", "create"⟩, ⟨1, "issues", "update"⟩]
  assignments := assignments
  invitations := []
  nextRoleId := 2
  nextProjectId := next

/-- A token over the issues of whatever projects its owner reaches. -/
def issuesToken : TokenScope := ⟨Grants.of [(.projects, .create), (.issues, .update)], none⟩

theorem oneProject_created :
    createProject (oneProject [⟨2, 1, some 1⟩] [1] 2)
        ⟨some ⟨2, true, "member"⟩,
          (accessFor (oneProject [⟨2, 1, some 1⟩] [1] 2) 2).under (some issuesToken)⟩ (.ok ()) =
      .ok (oneProject [⟨2, 1, some 1⟩, ⟨2, 1, some 2⟩] [1, 2] 3) := by
  decide

theorem canOnNewProject_eq_can_oneProject :
    let before := oneProject [⟨2, 1, some 1⟩] [1] 2
    let after := oneProject [⟨2, 1, some 1⟩, ⟨2, 1, some 2⟩] [1, 2] 3
    ((accessFor before 2).under (some issuesToken)).canOnNewProject .issues .update 2 =
        ((accessFor after 2).under (some issuesToken)).can .issues .update (some 2) ∧
      ((accessFor after 2).under (some issuesToken)).can .issues .update (some 2) = true ∧
      ((accessFor before 2).under (some issuesToken)).can .issues .update (some 2) = false :=
  ⟨canOnNewProject_eq_can oneProject_created (by decide) (by decide) (by decide), by decide,
    by decide⟩

end Rustrak.Auth
