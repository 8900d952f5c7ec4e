import Rustrak.Auth.Requests
import Rustrak.Auth.Views

/-!
# What the dashboard shows

`GET /api/access/me` sums up what a caller may do, and `permissionsFrom` of the dashboard's
`permissions.ts` answers from the summary.  The summary of an owner is a flag; that of everyone
else lists what holds on the workspace, on every project and on each project that is named.

A right on a project that nothing names is one on every project, so what the summary leaves out
decides nothing (`permissionsFrom_mirrors`).
-/

namespace Rustrak.Auth

/-! ## The summary -/

/-- A permission in the body of a response. -/
structure Grant where
  resource : String
  action : String
  deriving DecidableEq

structure ProjectPermissions where
  projectId : Int
  permissions : List Grant

structure MyAccess where
  isOwner : Bool
  onInstance : List Grant
  allProjects : List Grant
  projects : List ProjectPermissions

def permissions (pairs : List Pair) : List Grant :=
  pairs.map fun p => ⟨p.1.key, p.2.key⟩

/-- The body that `me` answers with. -/
def Access.me (access : Access) : MyAccess :=
  if access.isOwner then ⟨true, [], [], []⟩
  else
    let (onInstance, allProjects) :=
      access.instancePairs.partition fun p => p.1.scope == .instanceWide
    { isOwner := false
      onInstance := permissions onInstance
      allProjects := permissions allProjects
      projects := access.projectPairs.map fun e => ⟨e.1, permissions e.2⟩ }

/-! ## The dashboard -/

structure Permissions where
  isOwner : Bool
  can : String → String → Option Int → Bool
  canAnywhere : String → String → Bool
  canEverywhere : String → String → Bool
  canCreateProject : Bool

def has (grants : List Grant) (resource action : String) : Bool :=
  grants.any fun g => g.resource == resource && g.action == action

/-- What the summary lists for one project. -/
def MyAccess.localGrants (me : MyAccess) (projectId : Int) : List Grant :=
  ((me.projects.find? fun p => p.projectId == projectId).map (·.permissions)).getD []

def permissionsFrom (me : MyAccess) : Permissions where
  canCreateProject :=
    me.isOwner ||
      (has me.onInstance "projects" "create" &&
        (!me.allProjects.isEmpty || !me.projects.isEmpty))
  isOwner := me.isOwner
  can resource action projectId :=
    if me.isOwner || has me.onInstance resource action then true
    else
      match projectId with
      | none => false
      | some projectId =>
          -- any permission on a project implies seeing it
          if resource = "project" ∧ action = "read" then
            !me.allProjects.isEmpty || !(me.localGrants projectId).isEmpty
          else has me.allProjects resource action || has (me.localGrants projectId) resource action
  canAnywhere resource action :=
    me.isOwner || has me.onInstance resource action || has me.allProjects resource action ||
      me.projects.any fun p => has p.permissions resource action
  canEverywhere resource action :=
    me.isOwner || has me.onInstance resource action || has me.allProjects resource action

/-! ## Keys -/

theorem Resource.key_injective : Function.Injective Resource.key := by
  intro r s h
  have hparse := congrArg Resource.parse h
  rw [Resource.parse_key, Resource.parse_key] at hparse
  exact Option.some.inj hparse

theorem Action.key_injective : Function.Injective Action.key := by
  intro a b h
  have hparse := congrArg Action.parse h
  rw [Action.parse_key, Action.parse_key] at hparse
  exact Option.some.inj hparse

variable {access : Access} {r : Resource} {a : Action} {id : Int} {pairs : List Pair}

theorem has_permissions : has (permissions pairs) r.key a.key = true ↔ (r, a) ∈ pairs := by
  simp only [has, permissions, List.any_map, List.any_eq_true, Function.comp_apply,
    Bool.and_eq_true, beq_iff_eq]
  constructor
  · rintro ⟨⟨s, b⟩, hmem, hr, ha⟩
    rwa [← Resource.key_injective hr, ← Action.key_injective ha]
  · intro hmem
    exact ⟨(r, a), hmem, rfl, rfl⟩

theorem isEmpty_permissions : (permissions pairs).isEmpty = pairs.isEmpty := by
  cases pairs <;> rfl

/-! ## Owners -/

namespace Access

theorem allows_of_all {g : Grants} (h : g.all = true) : g.allows r a = true :=
  Grants.allows_iff.mpr (.inl h)

theorem isOwner_iff : access.isOwner = true ↔ access.onInstance.all = true ∧
    ∀ c, access.cap = some c → c.grants.all = true ∧ c.projects = none := by
  rw [isOwner, Bool.and_eq_true, Option.all_eq_true]
  simp [Option.isNone_iff_eq_none]

/-- A right on the workspace is the same wherever it is asked for. -/
theorem can_of_instanceWide (hpair : r.accepts a = true) (hscope : r.scope = .instanceWide)
    (projectId : Option Int) : access.can r a projectId = access.can r a none := by
  simp [can, accepts_ne_read hpair, held, cappedBy, TokenScope.allows, hscope]

theorem mem_instancePairs_of_instanceWide (hpair : r.accepts a = true)
    (hscope : r.scope = .instanceWide) :
    (r, a) ∈ access.instancePairs ↔ access.can r a none = true := by
  rw [instancePairs, List.mem_filter]
  simp only [mem_catalogPairs.mpr hpair, true_and, hscope]

/-- An owner may do everything everywhere. -/
theorem can_of_isOwner (h : access.isOwner = true) (hpair : r.accepts a = true)
    (projectId : Option Int) (hplace : r.scope = .project → projectId ≠ none) :
    access.can r a projectId = true := by
  obtain ⟨hall, hcap⟩ := isOwner_iff.mp h
  rw [can, if_neg (accepts_ne_read hpair), Bool.and_eq_true, cappedBy, Option.all_eq_true]
  cases hscope : r.scope with
  | instanceWide =>
      refine ⟨by simp [held, hscope, allows_of_all hall], fun c hc => ?_⟩
      simp [TokenScope.allows, hscope, allows_of_all (hcap c hc).1]
  | project =>
      obtain ⟨id, rfl⟩ := Option.ne_none_iff_exists'.mp (hplace hscope)
      refine ⟨by simp [held, hscope, allows_of_all hall], fun c hc => ?_⟩
      simp [TokenScope.allows, hscope, allows_of_all (hcap c hc).1, (hcap c hc).2]

theorem mem_instancePairs_of_isOwner (h : access.isOwner = true) (hpair : r.accepts a = true) :
    (r, a) ∈ access.instancePairs := by
  cases hscope : r.scope with
  | instanceWide =>
      rw [mem_instancePairs_of_instanceWide hpair hscope]
      exact can_of_isOwner h hpair none fun hproject => by rw [hscope] at hproject; contradiction
  | project =>
      rw [mem_instancePairs_iff_forall hpair hscope]
      exact fun id => can_of_isOwner h hpair (some id) fun _ => nofun

theorem seesProject_of_isOwner (h : access.isOwner = true) (id : Int) :
    access.can .project .read (some id) = true := by
  refine can_read_iff_exists.mpr ⟨(.issues, .read), by decide, rfl, ?_⟩
  exact can_of_isOwner h rfl (some id) fun _ => nofun

/-! ## What a project is seen by -/

/-- Something is listed when some project is seen. -/
theorem exists_seen_iff : (∃ id, access.can .project .read (some id) = true) ↔
    (∃ p ∈ access.instancePairs, p.1.scope = .project) ∨ access.projectPairs ≠ [] := by
  constructor
  · rintro ⟨id, hsees⟩
    obtain ⟨⟨r, a⟩, hp, hscope, hcan⟩ := can_read_iff_exists.mp hsees
    have hpair := mem_catalogPairs.mp hp
    by_cases hid : id ∈ access.named
    · right
      have hmem : (r, a) ∈ access.pairsOn id := mem_pairsOn_iff.mpr ⟨hp, hscope, hcan⟩
      exact List.ne_nil_of_mem (mem_projectPairs_iff.mpr ⟨hid, rfl, List.ne_nil_of_mem hmem⟩)
    · left
      exact ⟨(r, a), (mem_instancePairs_iff_can_unnamed hpair hscope hid).mpr hcan, hscope⟩
  · rintro (⟨⟨r, a⟩, hp, hscope⟩ | hprojects)
    · have hcatalog : (r, a) ∈ catalogPairs := List.mem_of_mem_filter hp
      have hcan := (mem_instancePairs_iff_forall (mem_catalogPairs.mp hcatalog) hscope).mp hp
      exact ⟨0, can_read_iff_exists.mpr ⟨(r, a), hcatalog, hscope, hcan 0⟩⟩
    · obtain ⟨⟨id, pairs⟩, hentry⟩ := List.exists_mem_of_ne_nil _ hprojects
      obtain ⟨-, rfl, hpairs⟩ := mem_projectPairs_iff.mp hentry
      obtain ⟨p, hp⟩ := List.exists_mem_of_ne_nil _ hpairs
      exact ⟨id, can_read_iff_exists.mpr ⟨p, mem_pairsOn_iff.mp hp⟩⟩

theorem visibleProjects_ne_nil_iff : access.visibleProjects ≠ .only [] ↔
    ∃ id, access.can .project .read (some id) = true := by
  have hincludes : ∀ id, access.visibleProjects.Includes id ↔
      access.can .project .read (some id) = true := by
    intro id
    rw [can_read_eq]
    exact includes_visibleProjects_iff
  simp only [← hincludes]
  cases access.visibleProjects with
  | all => simp [ProjectScope.Includes]
  | only ids =>
      simp only [ProjectScope.Includes, ne_eq, ProjectScope.only.injEq]
      constructor
      · intro hne
        exact List.exists_mem_of_ne_nil ids hne
      · rintro ⟨id, hid⟩
        exact List.ne_nil_of_mem hid

/-! ## What the summary lists -/

theorem me_of_isOwner (h : access.isOwner = true) : access.me = ⟨true, [], [], []⟩ := by
  rw [me, if_pos h]

theorem me_of_not_isOwner (h : access.isOwner = false) : access.me =
    { isOwner := false
      onInstance := permissions (access.instancePairs.filter fun p => p.1.scope == .instanceWide)
      allProjects := permissions
        (access.instancePairs.filter (not ∘ fun p => p.1.scope == .instanceWide))
      projects := access.projectPairs.map fun e => ⟨e.1, permissions e.2⟩ } := by
  rw [me, h, if_neg Bool.false_ne_true, List.partition_eq_filter_filter]

theorem mem_allProjects {p : Pair} :
    p ∈ access.instancePairs.filter (not ∘ fun p => p.1.scope == .instanceWide) ↔
      p ∈ access.instancePairs ∧ p.1.scope = .project := by
  rw [List.mem_filter]
  cases hscope : p.1.scope <;> simp [hscope]

/-- The entries of the summary are the named projects on which something holds. -/
theorem find_projects_me {found : ProjectPermissions}
    (h : (access.projectPairs.map fun e => (⟨e.1, permissions e.2⟩ : ProjectPermissions)).find?
      (fun p => p.projectId == id) = some found) :
    id ∈ access.named ∧ found.permissions = permissions (access.pairsOn id) := by
  obtain ⟨⟨i, pairs⟩, hentry, rfl⟩ := List.mem_map.mp (List.mem_of_find?_eq_some h)
  obtain ⟨hnamed, rfl, -⟩ := mem_projectPairs_iff.mp hentry
  obtain rfl : i = id := by simpa using List.find?_some h
  exact ⟨hnamed, rfl⟩

variable (hnot : access.isOwner = false)
include hnot

theorem has_onInstance_me : has access.me.onInstance r.key a.key = true ↔
    (r, a) ∈ access.instancePairs ∧ r.scope = .instanceWide := by
  rw [me_of_not_isOwner hnot, has_permissions, List.mem_filter, beq_iff_eq]

theorem has_allProjects_me : has access.me.allProjects r.key a.key = true ↔
    (r, a) ∈ access.instancePairs ∧ r.scope = .project := by
  rw [me_of_not_isOwner hnot, has_permissions, mem_allProjects]

theorem isEmpty_allProjects_me : access.me.allProjects.isEmpty = false ↔
    ∃ p ∈ access.instancePairs, p.1.scope = .project := by
  rw [me_of_not_isOwner hnot]
  simp only [isEmpty_permissions, List.isEmpty_eq_false_iff_exists_mem, mem_allProjects]

/-- One project is listed with what is allowed on it, if anything is. -/
theorem localGrants_me (hid : id ∈ access.named) :
    access.me.localGrants id = permissions (access.pairsOn id) := by
  rw [MyAccess.localGrants, me_of_not_isOwner hnot]
  cases hfind : (access.projectPairs.map fun e =>
      (⟨e.1, permissions e.2⟩ : ProjectPermissions)).find? fun p => p.projectId == id with
  | some found => exact (find_projects_me hfind).2
  | none =>
      have hempty : access.pairsOn id = [] := by
        by_contra hne
        have hentry := mem_projectPairs_iff.mpr ⟨hid, rfl, hne⟩
        have habsent := List.find?_eq_none.mp hfind _ (List.mem_map_of_mem hentry)
        exact habsent (beq_self_eq_true id)
      rw [hempty]
      rfl

theorem localGrants_me_of_not_named (hid : id ∉ access.named) :
    access.me.localGrants id = [] := by
  rw [MyAccess.localGrants, me_of_not_isOwner hnot]
  cases hfind : (access.projectPairs.map fun e =>
      (⟨e.1, permissions e.2⟩ : ProjectPermissions)).find? fun p => p.projectId == id with
  | some found => exact absurd (find_projects_me hfind).1 hid
  | none => rfl

/-- Everywhere or on the one project, for a project right. -/
theorem listed_iff_can (hpair : r.accepts a = true) (hscope : r.scope = .project) :
    (has access.me.allProjects r.key a.key ||
      has (access.me.localGrants id) r.key a.key) = true ↔ access.can r a (some id) = true := by
  rw [Bool.or_eq_true, has_allProjects_me hnot, and_iff_left hscope]
  by_cases hid : id ∈ access.named
  · rw [localGrants_me hnot hid, has_permissions, mem_pairsOn_iff]
    simp only [mem_catalogPairs.mpr hpair, hscope, true_and, or_iff_right_iff_imp]
    intro heverywhere
    exact (mem_instancePairs_iff_forall hpair hscope).mp heverywhere id
  · rw [localGrants_me_of_not_named hnot hid, mem_instancePairs_iff_can_unnamed hpair hscope hid]
    simp [has]

theorem listed_iff_seen : (!access.me.allProjects.isEmpty ||
    !(access.me.localGrants id).isEmpty) = true ↔
      access.can .project .read (some id) = true := by
  rw [Bool.or_eq_true, Bool.not_eq_true', Bool.not_eq_true', isEmpty_allProjects_me hnot,
    can_read_iff_exists]
  constructor
  · rintro (⟨⟨r, a⟩, hp, hscope⟩ | hlocal)
    · have hcatalog : (r, a) ∈ catalogPairs := List.mem_of_mem_filter hp
      have hcan := (mem_instancePairs_iff_forall (mem_catalogPairs.mp hcatalog) hscope).mp hp
      exact ⟨(r, a), hcatalog, hscope, hcan id⟩
    · by_cases hid : id ∈ access.named
      · rw [localGrants_me hnot hid, isEmpty_permissions,
          List.isEmpty_eq_false_iff_exists_mem] at hlocal
        obtain ⟨p, hp⟩ := hlocal
        exact ⟨p, mem_pairsOn_iff.mp hp⟩
      · rw [localGrants_me_of_not_named hnot hid] at hlocal
        contradiction
  · rintro ⟨⟨r, a⟩, hp, hscope, hcan⟩
    by_cases hid : id ∈ access.named
    · right
      rw [localGrants_me hnot hid, isEmpty_permissions, List.isEmpty_eq_false_iff_exists_mem]
      exact ⟨(r, a), mem_pairsOn_iff.mpr ⟨hp, hscope, hcan⟩⟩
    · left
      have hpair := mem_catalogPairs.mp hp
      exact ⟨(r, a), (mem_instancePairs_iff_can_unnamed hpair hscope hid).mpr hcan, hscope⟩

omit hnot

/-! ## The dashboard's answers -/

theorem can_permissionsFrom (hpair : r.accepts a = true) (id : Int) :
    (permissionsFrom access.me).can r.key a.key (some id) = access.can r a (some id) := by
  have hkeys : ¬(r.key = "project" ∧ a.key = "read") := by
    rintro ⟨hr, ha⟩
    exact accepts_ne_read hpair ⟨Resource.key_injective hr, Action.key_injective ha⟩
  cases howner : access.isOwner with
  | true =>
      rw [can_of_isOwner howner hpair (some id) fun _ => nofun, me_of_isOwner howner]
      rfl
  | false =>
      have hme : access.me.isOwner = false := by rw [me_of_not_isOwner howner]
      rw [Bool.eq_iff_iff]
      simp only [permissionsFrom, hme, Bool.false_or, if_neg hkeys]
      cases hscope : r.scope with
      | instanceWide =>
          have hlisted : (has access.me.allProjects r.key a.key ||
              has (access.me.localGrants id) r.key a.key) = false := by
            rw [Bool.or_eq_false_iff, Bool.eq_false_iff, Bool.eq_false_iff, Ne, Ne,
              has_allProjects_me howner, hscope]
            refine ⟨fun h => absurd h.2 nofun, ?_⟩
            by_cases hid : id ∈ access.named
            · rw [localGrants_me howner hid, has_permissions, mem_pairsOn_iff, hscope]
              exact fun h => nomatch h.2.1
            · rw [localGrants_me_of_not_named howner hid]
              exact Bool.false_ne_true
          rw [hlisted, can_of_instanceWide hpair hscope,
            ← mem_instancePairs_of_instanceWide hpair hscope, Bool.if_true_left, Bool.or_false,
            Bool.decide_eq_true, has_onInstance_me howner, and_iff_left hscope]
      | project =>
          have hinstance : has access.me.onInstance r.key a.key = false := by
            rw [Bool.eq_false_iff, Ne, has_onInstance_me howner, hscope]
            exact fun h => nomatch h.2
          rw [hinstance, if_neg Bool.false_ne_true]
          exact listed_iff_can howner hpair hscope

theorem can_read_permissionsFrom (id : Int) :
    (permissionsFrom access.me).can "project" "read" (some id) =
      access.can .project .read (some id) := by
  cases howner : access.isOwner with
  | true =>
      rw [seesProject_of_isOwner howner, me_of_isOwner howner]
      rfl
  | false =>
      have hme : access.me.isOwner = false := by rw [me_of_not_isOwner howner]
      -- no permission of the workspace is that of seeing a project
      have hinstance : has access.me.onInstance "project" "read" = false := by
        rw [Bool.eq_false_iff, Ne]
        intro hhas
        have hmem := (@has_onInstance_me _ .project .read howner).mp hhas
        exact nomatch hmem.2
      rw [Bool.eq_iff_iff]
      simp only [permissionsFrom, hme, hinstance, Bool.or_self, Bool.false_eq_true, if_false,
        and_self, if_true]
      exact listed_iff_seen howner

theorem canEverywhere_permissionsFrom (hpair : r.accepts a = true) :
    (permissionsFrom access.me).canEverywhere r.key a.key = true ↔
      (r, a) ∈ access.instancePairs := by
  cases howner : access.isOwner with
  | true =>
      rw [me_of_isOwner howner]
      exact iff_of_true rfl (mem_instancePairs_of_isOwner howner hpair)
  | false =>
      have hme : access.me.isOwner = false := by rw [me_of_not_isOwner howner]
      simp only [permissionsFrom, hme, Bool.false_or, Bool.or_eq_true, has_onInstance_me howner,
        has_allProjects_me howner, ← and_or_left]
      refine and_iff_left ?_
      cases r.scope
      · exact .inl rfl
      · exact .inr rfl

theorem any_projects_me (howner : access.isOwner = false) :
    (access.me.projects.any fun p => has p.permissions r.key a.key) =
      access.projectPairs.any fun e => e.2.contains (r, a) := by
  rw [me_of_not_isOwner howner, List.any_map]
  congr 1
  funext e
  rw [Bool.eq_iff_iff, List.contains_iff_mem]
  exact has_permissions

theorem canAnywhere_permissionsFrom (hpair : r.accepts a = true) :
    (permissionsFrom access.me).canAnywhere r.key a.key = access.holdsSomewhere r a := by
  have heverywhere : (permissionsFrom access.me).canEverywhere r.key a.key =
      access.instancePairs.contains (r, a) := by
    rw [Bool.eq_iff_iff, canEverywhere_permissionsFrom hpair, List.contains_iff_mem]
  have hanywhere : (permissionsFrom access.me).canAnywhere r.key a.key =
      ((permissionsFrom access.me).canEverywhere r.key a.key ||
        access.me.projects.any fun p => has p.permissions r.key a.key) := rfl
  rw [hanywhere, heverywhere, holdsSomewhere]
  cases howner : access.isOwner with
  | true =>
      have hmem := mem_instancePairs_of_isOwner howner hpair
      rw [List.contains_iff_mem.mpr hmem, Bool.true_or, Bool.true_or]
  | false => rw [any_projects_me howner]

theorem canCreateProject_permissionsFrom :
    (permissionsFrom access.me).canCreateProject = true ↔
      access.can .projects .create none = true ∧ access.visibleProjects ≠ .only [] := by
  rw [visibleProjects_ne_nil_iff]
  cases howner : access.isOwner with
  | true =>
      rw [me_of_isOwner howner]
      refine iff_of_true rfl ⟨?_, 0, seesProject_of_isOwner howner 0⟩
      exact can_of_isOwner howner rfl none fun h => nomatch h
  | false =>
      have hme : access.me.isOwner = false := by rw [me_of_not_isOwner howner]
      have hcreate : has access.me.onInstance "projects" "create" = true ↔
          access.can .projects .create none = true := by
        rw [← mem_instancePairs_of_instanceWide rfl rfl]
        exact (@has_onInstance_me _ .projects .create howner).trans (and_iff_left rfl)
      have hprojects : access.me.projects.isEmpty = false ↔ access.projectPairs ≠ [] := by
        rw [me_of_not_isOwner howner]
        simp
      simp only [permissionsFrom, hme, Bool.false_or, Bool.and_eq_true, Bool.or_eq_true,
        Bool.not_eq_true', hcreate, isEmpty_allProjects_me howner, hprojects, exists_seen_iff]

end Access

/-- The dashboard answers as the server does: for every right of the catalog, for seeing a
project, and for creating one. -/
theorem permissionsFrom_mirrors (actor : ApiActor) :
    (∀ r a, (r, a) ∈ catalogPairs →
      (∀ id, (permissionsFrom actor.access.me).can r.key a.key (some id) =
        actor.access.can r a (some id)) ∧
      (permissionsFrom actor.access.me).canAnywhere r.key a.key =
        actor.access.holdsSomewhere r a ∧
      ((permissionsFrom actor.access.me).canEverywhere r.key a.key = true ↔
        (r, a) ∈ actor.access.instancePairs)) ∧
    (∀ id, (permissionsFrom actor.access.me).can
        Resource.project.key Action.read.key (some id) =
      actor.access.can .project .read (some id)) ∧
    ((permissionsFrom actor.access.me).canCreateProject = true ↔
      actor.require .projects .create none = .ok () ∧
        (actor.access.visibleProjects != .only []) = true) := by
  refine ⟨fun r a hpair => ?_, fun id => Access.can_read_permissionsFrom id, ?_⟩
  · have haccepts := mem_catalogPairs.mp hpair
    exact ⟨Access.can_permissionsFrom haccepts, Access.canAnywhere_permissionsFrom haccepts,
      Access.canEverywhere_permissionsFrom haccepts⟩
  · have hrequire : actor.require .projects .create none = .ok () ↔
        actor.access.can .projects .create none = true := by
      unfold ApiActor.require
      cases actor.access.can .projects .create none with
      | true => exact iff_of_true rfl rfl
      | false => exact iff_of_false nofun Bool.false_ne_true
    rw [hrequire, bne_iff_ne]
    exact Access.canCreateProject_permissionsFrom

end Rustrak.Auth
