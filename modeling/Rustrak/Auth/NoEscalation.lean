import Rustrak.Auth.Holdings
import Rustrak.Transition.Run

/-!
# No escalation over whole runs

Users who are not owners cannot, by any sequence of requests, come to hold a
right that none of them held before: not by handing it to each other, not
through a role edited after it was assigned, not through a token.

## Strategy

A right is held through a placed pair (`Access.can_ofPlaced_iff`), so it is
enough to follow the placed pairs of every user.  `Contained` says what one
request may do to them: a placed pair held afterwards was held by the same user
before, or what it confers the actor could do already (`Backed`).  Every handler
is shown to be `Contained`; the run is then `Run.relates`.

The tables have to be `Sound`: the constraints of the schema, and a personal role
assigned to nobody but its own user.  Without the latter the statement is false
(`shared_personal_role_escalates`): `set_assignments` checks a user's new
personal permissions against the places they are given, and rewrites the role
behind the back of everybody else who holds it.
-/

namespace Rustrak.Auth

open Rustrak.Core RoleService Rustrak.Transition

structure Sound (t : Tables) : Prop where
  schema : Schema t
  personal : OwnPersonal t

/-! ## Rights -/

def Owner (t : Tables) (userId : Int) : Prop :=
  (t.user userId).map UserRow.isAdmin = some true

def NonOwner (t : Tables) (userId : Int) : Prop :=
  (t.user userId).map UserRow.isAdmin = some false

/-- Some user who is no owner can do this. -/
def HeldByNonOwner (t : Tables) (r : Resource) (a : Action) (target : Option Int) : Prop :=
  ∃ userId, NonOwner t userId ∧ (accessFor t userId).can r a target = true

instance (t : Tables) (userId : Int) : Decidable (NonOwner t userId) :=
  inferInstanceAs (Decidable (_ = _))

/-- Only the users there are have to be asked. -/
theorem heldByNonOwner_iff {t : Tables} {r : Resource} {a : Action} {target : Option Int} :
    HeldByNonOwner t r a target ↔
      ∃ user ∈ t.users, NonOwner t user.id ∧ (accessFor t user.id).can r a target = true := by
  constructor
  · rintro ⟨userId, hnon, hcan⟩
    cases huser : t.user userId with
    | none => simp [NonOwner, huser] at hnon
    | some user =>
        have hid : user.id = userId := by simpa using List.find?_some huser
        exact ⟨user, List.mem_of_find?_eq_some huser, by rwa [hid], by rwa [hid]⟩
  · rintro ⟨user, _, hnon, hcan⟩
    exact ⟨user.id, hnon, hcan⟩

instance (t : Tables) (r : Resource) (a : Action) (target : Option Int) :
    Decidable (HeldByNonOwner t r a target) :=
  decidable_of_iff _ heldByNonOwner_iff.symm

/-- The instance, or a project that exists. -/
def ExistingTarget (t : Tables) (target : Option Int) : Prop :=
  ∀ id, target = some id → id ∈ t.projects

/-- A request by a user who is no owner, by session or through a token. -/
def Call.byNonOwner (t : Tables) (call : Call) : Prop :=
  ∃ userId, NonOwner t userId ∧
    (call.credential = .session userId ∨ ∃ scope, call.credential = .token (some userId) scope)

/-- One request of a run, served in full before the next. -/
def NonOwnerStep (t : Tables) (call : Call) (t' : Tables) : Prop :=
  call.byNonOwner t ∧ t' = respond t call

theorem accessFor_nonOwner {t : Tables} {userId : Int} (h : NonOwner t userId) :
    accessFor t userId = Access.ofPlaced (placedFor t userId) := by
  unfold NonOwner at h
  unfold accessFor
  cases huser : t.user userId with
  | none => simp
  | some user =>
      rw [huser] at h
      have hadmin : user.isAdmin = false := Option.some.inj h
      simp [hadmin]

/-! ## What one request may do -/

/-- What `x` confers, on the instance and on the projects that exist, user
`userId` can do already. -/
def Backed (t : Tables) (userId : Int) (x : Placed) : Prop :=
  ∀ r a target, ExistingTarget t target → x.Confers r a target →
    (Access.ofPlaced (placedFor t userId)).can r a target = true

/-- The effect of a request of `userId`, seen through the rights of everybody. -/
structure Contained (t : Tables) (userId : Int) (t' : Tables) : Prop where
  sound : Sound t'
  projects : t.projects ⊆ t'.projects
  owners : ∀ u, (t'.user u).map UserRow.isAdmin = (t.user u).map UserRow.isAdmin
  placed : ∀ u, ∀ x ∈ placedFor t' u, x ∈ placedFor t u ∨ Backed t userId x

/-- The bound on everybody's rights, between any two points of a run. -/
structure NoGain (t t' : Tables) : Prop where
  projects : t.projects ⊆ t'.projects
  rights : ∀ r a target, ExistingTarget t target →
    HeldByNonOwner t' r a target → HeldByNonOwner t r a target
  owners : ∀ u, Owner t' u → Owner t u

theorem NoGain.refl (t : Tables) : NoGain t t :=
  ⟨fun _ h => h, fun _ _ _ _ h => h, fun _ h => h⟩

theorem NoGain.trans {t t' t'' : Tables} (h : NoGain t t') (h' : NoGain t' t'') :
    NoGain t t'' where
  projects := fun _ hp => h'.projects (h.projects hp)
  rights r a target htarget hheld :=
    h.rights r a target htarget
      (h'.rights r a target (fun id hid => h.projects (htarget id hid)) hheld)
  owners u hu := h.owners u (h'.owners u hu)

theorem Contained.noGain {t t' : Tables} {userId : Int} (hactor : NonOwner t userId)
    (h : Contained t userId t') : NoGain t t' where
  projects := h.projects
  rights := by
    rintro r a target htarget ⟨u, hu, hcan⟩
    have hu' : NonOwner t u := (h.owners u).symm.trans hu
    rw [accessFor_nonOwner hu, Access.can_ofPlaced_iff (catalogued_placedFor t' u)] at hcan
    obtain ⟨x, hx, hconfers⟩ := hcan
    rcases h.placed u x hx with hold | hbacked
    · refine ⟨u, hu', ?_⟩
      rw [accessFor_nonOwner hu', Access.can_ofPlaced_iff (catalogued_placedFor t u)]
      exact ⟨x, hold, hconfers⟩
    · refine ⟨userId, hactor, ?_⟩
      rw [accessFor_nonOwner hactor]
      exact hbacked r a target htarget hconfers
  owners u hu := (h.owners u).symm.trans hu

/-! ## What covering gives -/

/-- The actor of a request: a user's placed pairs under the cap of a token. -/
def ActsAs (t : Tables) (userId : Int) (actor : ApiActor) : Prop :=
  ∃ cap, actor.access = { Access.ofPlaced (placedFor t userId) with cap }

theorem backed_of_covers {t : Tables} {userId : Int} {actor : ApiActor}
    (hactor : ActsAs t userId actor) {pairs : List Pair} {place : Option Int}
    (hcovers : actor.access.covers (Grants.of pairs) place = true) {p : Pair} (hp : p ∈ pairs)
    (haccepts : p.1.accepts p.2 = true) : Backed t userId ⟨Access.placeOf p place, p⟩ := by
  obtain ⟨cap, haccess⟩ := hactor
  rw [haccess] at hcovers
  have hpair := Access.coversPair_of_covers hcovers hp haccepts
  exact fun r a target _ hconfers =>
    Access.can_of_coversPair (catalogued_placedFor t userId) haccepts hpair hconfers

/-- What is covered on every project is backed wherever it ends up. -/
theorem backed_of_covers_everywhere {t : Tables} {userId : Int} {actor : ApiActor}
    (hactor : ActsAs t userId actor) {pairs : List Pair}
    (hcovers : actor.access.covers (Grants.of pairs) none = true) {p : Pair} (hp : p ∈ pairs)
    (haccepts : p.1.accepts p.2 = true) (place : Option Int) :
    Backed t userId ⟨Access.placeOf p place, p⟩ := by
  obtain ⟨cap, haccess⟩ := hactor
  rw [haccess] at hcovers
  have hpair := Access.coversPair_anywhere haccepts
    (Access.coversPair_of_covers hcovers hp haccepts) place
  exact fun r a target _ hconfers =>
    Access.can_of_coversPair (catalogued_placedFor t userId) haccepts hpair hconfers

/-- What is held on a project that does not exist yet confers nothing on those
that do. -/
theorem backed_of_fresh {t : Tables} {userId id : Int} (hfresh : id ∉ t.projects) {p : Pair} :
    Backed t userId ⟨some id, p⟩ := by
  intro r a target htarget hconfers
  have hnew : ∀ other, target = some other → (⟨some id, p⟩ : Placed).reaches other → False := by
    rintro other hother (hreach | hreach)
    · cases hreach
    · obtain rfl := Option.some.inj hreach
      exact hfresh (htarget id hother)
  unfold Placed.Confers at hconfers
  split_ifs at hconfers
  · obtain ⟨other, hother, _, hreach⟩ := hconfers
    exact (hnew other hother hreach).elim
  · cases hconfers.1
  · obtain ⟨other, hother, hreach, _⟩ := hconfers
    exact (hnew other hother hreach).elim

/-! ## Roles -/

variable {t t' : Tables} {userId : Int} {actor : ApiActor}

/-- Writing covered permissions into a role: whoever holds it, wherever. -/
private theorem placed_writePermissions (hactor : ActsAs t userId actor) {base : Tables}
    (hassignments : base.assignments = t.assignments)
    (hpermissions : base.permissions = t.permissions) {pairs : List Pair}
    (hcovers : actor.access.covers (Grants.of pairs) none = true)
    {roleId u : Int} {x : Placed} (hx : x ∈ placedFor (writePermissions base roleId pairs) u) :
    x ∈ placedFor t u ∨ Backed t userId x := by
  obtain ⟨a, ha, huser, p, hp, rfl⟩ := mem_placedFor.mp hx
  rw [mem_pairsOf_writePermissions] at hp
  split_ifs at hp with hrole
  · exact .inr (backed_of_covers_everywhere hactor hcovers hp.1 hp.2 a.projectId)
  · refine .inl (mem_placedFor.mpr ⟨a, hassignments ▸ ha, huser, p, ?_, rfl⟩)
    rwa [Tables.pairsOf, hpermissions] at hp

/-- A row with a fresh id changes nothing about the roles there are. -/
private theorem sound_insertRole (h : Sound t) (name description : String) (owner : Option Int) :
    Sound { t with
      roles := t.roles ++ [⟨t.nextRoleId, name, description, owner⟩]
      nextRoleId := t.nextRoleId + 1 } where
  schema :=
    { roleIds := by
        simp only [List.map_append, List.map_cons, List.map_nil]
        refine List.nodup_append.mpr ⟨h.schema.roleIds, by simp, ?_⟩
        intro id hid other hother
        obtain ⟨r, hr, rfl⟩ := List.mem_map.mp hid
        have hlt := h.schema.roleSequence r hr
        obtain rfl := List.mem_singleton.mp hother
        omega
      roleSequence := by
        intro r hr
        rcases List.mem_append.mp hr with hr | hr
        · have hlt := h.schema.roleSequence r hr
          dsimp only
          omega
        · obtain rfl := List.mem_singleton.mp hr
          dsimp only
          omega
      projectSequence := h.schema.projectSequence
      assignedRole := by
        intro a ha
        obtain ⟨r, hr, hid⟩ := hasRole_iff.mp (h.schema.assignedRole a ha)
        exact hasRole_iff.mpr ⟨r, List.mem_append_left _ hr, hid⟩ }
  personal := by
    intro a ha r hr hid u hu
    rcases List.mem_append.mp hr with hr | hr
    · exact h.personal a ha r hr hid u hu
    · obtain rfl := List.mem_singleton.mp hr
      obtain ⟨s, hs, hsid⟩ := hasRole_iff.mp (h.schema.assignedRole a ha)
      have hlt := h.schema.roleSequence s hs
      dsimp only at hid
      omega

private theorem sound_writePermissions (h : Sound t) (roleId : Int) (pairs : List Pair) :
    Sound (writePermissions t roleId pairs) :=
  ⟨⟨h.schema.roleIds, h.schema.roleSequence, h.schema.projectSequence, h.schema.assignedRole⟩,
    h.personal⟩

theorem createRole_contained (hsound : Sound t) (hactor : ActsAs t userId actor)
    {body : RoleInput} (h : createRole t actor body = .ok t') : Contained t userId t' := by
  obtain ⟨_, _, h⟩ := bind_eq_ok h
  obtain ⟨_, _, h⟩ := bind_eq_ok h
  obtain ⟨_, hcovers, h⟩ := bind_eq_ok h
  obtain rfl := create_spec h
  exact
    { sound := sound_writePermissions (sound_insertRole hsound _ _ _) _ _
      projects := fun _ hp => hp
      owners := fun _ => rfl
      placed := fun _ _ hx => placed_writePermissions hactor rfl rfl (ensure_eq_ok hcovers) hx }

private theorem sound_renameRole (h : Sound t) (id : Int) (name description : String) :
    Sound { t with
      roles := t.roles.map fun r => if r.id == id then { r with name, description } else r } := by
  have hids : ∀ r : RoleRow, (if r.id == id then { r with name, description } else r).id = r.id ∧
      (if r.id == id then { r with name, description } else r).userId = r.userId := by
    intro r
    split <;> exact ⟨rfl, rfl⟩
  refine ⟨⟨?_, ?_, h.schema.projectSequence, ?_⟩, ?_⟩
  · have hmap : (t.roles.map fun r =>
        if r.id == id then { r with name, description } else r).map RoleRow.id =
        t.roles.map RoleRow.id := by
      rw [List.map_map]
      exact List.map_congr_left fun r _ => (hids r).1
    rw [hmap]
    exact h.schema.roleIds
  · intro r hr
    obtain ⟨s, hs, rfl⟩ := List.mem_map.mp hr
    rw [(hids s).1]
    exact h.schema.roleSequence s hs
  · intro a ha
    obtain ⟨r, hr, hid⟩ := hasRole_iff.mp (h.schema.assignedRole a ha)
    exact hasRole_iff.mpr ⟨_, List.mem_map_of_mem hr, (hids r).1.trans hid⟩
  · intro a ha r hr hid u hu
    obtain ⟨s, hs, rfl⟩ := List.mem_map.mp hr
    rw [(hids s).1] at hid
    rw [(hids s).2] at hu
    exact h.personal a ha s hs hid u hu

theorem updateRole_contained (hsound : Sound t) (hactor : ActsAs t userId actor) {id : Int}
    {body : RoleInput} (h : updateRole t actor id body = .ok t') : Contained t userId t' := by
  obtain ⟨_, _, h⟩ := bind_eq_ok h
  obtain ⟨_, _, h⟩ := bind_eq_ok h
  obtain ⟨_, _, h⟩ := bind_eq_ok h
  obtain ⟨_, hcovers, h⟩ := bind_eq_ok h
  obtain rfl := update_spec h
  have hnew := ((Bool.and_eq_true _ _).mp (ensure_eq_ok hcovers)).1
  exact
    { sound := sound_writePermissions (sound_renameRole hsound _ _ _) _ _
      projects := fun _ hp => hp
      owners := fun _ => rfl
      placed := fun _ _ hx => placed_writePermissions hactor rfl rfl hnew hx }

private theorem sound_deleteRoles (hsound : Sound t) {gone : RoleRow → Bool}
    (h : deleteRoles t gone = .ok t') : Sound t' := by
  obtain ⟨hassignments, _, hprojects, hnext, hnextProject, hroles, hkept, _⟩ := deleteRoles_spec h
  have hmem : ∀ r ∈ t'.roles, r ∈ t.roles := fun r hr => by
    rw [hroles] at hr
    exact (List.mem_filter.mp hr).1
  refine ⟨⟨?_, ?_, ?_, ?_⟩, ?_⟩
  · rw [hroles]
    exact hsound.schema.roleIds.sublist (List.filter_sublist.map _)
  · intro r hr
    rw [hnext]
    exact hsound.schema.roleSequence r (hmem r hr)
  · rw [hprojects, hnextProject]
    exact hsound.schema.projectSequence
  · intro a ha
    rw [hassignments] at ha
    obtain ⟨r, hr, hid⟩ := hasRole_iff.mp (hsound.schema.assignedRole a ha)
    refine hasRole_iff.mpr ⟨r, ?_, hid⟩
    rw [hroles]
    exact List.mem_filter.mpr ⟨hr, by rw [hkept a ha r hr hid]; rfl⟩
  · intro a ha r hr
    rw [hassignments] at ha
    exact hsound.personal a ha r (hmem r hr)

/-- Deleting roles only takes placed pairs away. -/
private theorem placed_deleteRoles {gone : RoleRow → Bool} (h : deleteRoles t gone = .ok t')
    {u : Int} {x : Placed} (hx : x ∈ placedFor t' u) : x ∈ placedFor t u := by
  obtain ⟨hassignments, _, _, _, _, _, _, hpairs⟩ := deleteRoles_spec h
  obtain ⟨a, ha, huser, p, hp, rfl⟩ := mem_placedFor.mp hx
  exact mem_placedFor.mpr ⟨a, hassignments ▸ ha, huser, p, hpairs _ _ hp, rfl⟩

theorem deleteRole_contained (hsound : Sound t) {id : Int}
    (h : deleteRole t actor id = .ok t') : Contained t userId t' := by
  obtain ⟨_, _, h⟩ := bind_eq_ok h
  obtain ⟨_, _, h⟩ := bind_eq_ok h
  obtain ⟨_, _, h⟩ := bind_eq_ok h
  obtain ⟨_, _, h⟩ := bind_eq_ok h
  obtain ⟨_, husers, hprojects, _⟩ := deleteRoles_spec h
  exact
    { sound := sound_deleteRoles hsound h
      projects := by rw [hprojects]; exact fun _ hp => hp
      owners := fun u => by simp only [Tables.user, husers]
      placed := fun _ _ hx => .inl (placed_deleteRoles h hx) }

/-! ## Assignments -/

/-- New assignments of existing roles, each personal role to its own user. -/
private theorem sound_assignments (h : Sound t) {assignments : List AssignmentRow}
    (hassigned : ∀ a ∈ assignments, a ∈ t.assignments ∨ (t.hasRole a.roleId = true ∧
      ∀ r ∈ t.roles, r.id = a.roleId → ∀ u, r.userId = some u → a.userId = u)) :
    Sound { t with assignments } where
  schema :=
    { roleIds := h.schema.roleIds
      roleSequence := h.schema.roleSequence
      projectSequence := h.schema.projectSequence
      assignedRole := by
        intro a ha
        rcases hassigned a ha with hold | hnew
        · exact h.schema.assignedRole a hold
        · exact hnew.1 }
  personal := by
    intro a ha
    rcases hassigned a ha with hold | hnew
    · exact h.personal a hold
    · exact hnew.2

/-- A role that passed the check of a request is a role of the list, and its
permissions are covered. -/
private theorem coversRole_spec {field : String} {roleId : Int} {place : Option Int}
    (h : coversRole actor (list t) field roleId place = .ok ()) :
    (∃ r ∈ t.roles, r.id = roleId ∧ r.userId = none) ∧
      actor.access.covers (Grants.of (t.pairsOf roleId)) place = true := by
  obtain ⟨role, hfind, h⟩ := bind_eq_ok h
  have hfind := okOr_eq_ok hfind
  obtain ⟨hperms, r, hr, hid, hshared⟩ := mem_list (List.mem_of_find?_eq_some hfind)
  have hrole : role.id = roleId := by simpa using List.find?_some hfind
  refine ⟨⟨r, hr, hid.trans hrole, hshared⟩, ?_⟩
  have hcovers := ensure_eq_ok h
  rwa [Role.grants, hperms, hrole] at hcovers

/-- A role of the list is nobody's personal role. -/
private theorem not_personal (h : Sound t) {roleId : Int}
    (hshared : ∃ r ∈ t.roles, r.id = roleId ∧ r.userId = none) {r : RoleRow} (hr : r ∈ t.roles)
    (hid : r.id = roleId) : r.userId = none := by
  obtain ⟨s, hs, hsid, hnone⟩ := hshared
  rw [h.schema.row_unique hr hs (hid.trans hsid.symm)]
  exact hnone

/-- Adding assignments of roles that were checked. -/
private theorem contained_assignEach (hsound : Sound t) (hactor : ActsAs t userId actor)
    (field : String) {kept : List AssignmentRow} (hkept : ∀ a ∈ kept, a ∈ t.assignments)
    {u : Int} {items : List (Int × Option Int)}
    (hchecked : ∀ item ∈ items, coversRole actor (list t) field item.1 item.2 = .ok ())
    (h : assignEach { t with assignments := kept } u items = .ok t') : Contained t userId t' := by
  obtain ⟨added, rfl, hadded⟩ := assignEach_spec h
  refine ⟨?_, fun _ hp => hp, fun _ => rfl, ?_⟩
  · apply sound_assignments hsound
    intro a ha
    rcases List.mem_append.mp ha with ha | ha
    · exact .inl (hkept a ha)
    · obtain ⟨_, hitem, hrole⟩ := hadded a ha
      refine .inr ⟨hrole, fun r hr hid v hv => ?_⟩
      rw [not_personal hsound (coversRole_spec (hchecked _ hitem)).1 hr hid] at hv
      cases hv
  · intro v x hx
    obtain ⟨a, ha, huser, p, hp, rfl⟩ := mem_placedFor.mp hx
    rcases List.mem_append.mp ha with ha | ha
    · exact .inl (mem_placedFor.mpr ⟨a, hkept a ha, huser, p, hp, rfl⟩)
    · obtain ⟨_, hitem, _⟩ := hadded a ha
      exact .inr (backed_of_covers hactor (coversRole_spec (hchecked _ hitem)).2 hp
        (accepts_of_mem_pairsOf hp))

private theorem setProjectRoles_contained (hsound : Sound t) (hactor : ActsAs t userId actor)
    {projectId u : Int} {roleIds : List Int}
    (hcovered : requireCovered t actor projectId u roleIds = .ok ())
    (h : setProjectRoles t projectId u roleIds = .ok t') : Contained t userId t' := by
  obtain ⟨_, hnew, _⟩ := bind_eq_ok hcovered
  refine contained_assignEach hsound hactor "role_ids" (fun a ha => (List.mem_filter.mp ha).1)
    ?_ h
  intro item hitem
  obtain ⟨id, hid, rfl⟩ := List.mem_map.mp hitem
  exact forAll_eq_ok hnew id hid

theorem upsertMember_contained (hsound : Sound t) (hactor : ActsAs t userId actor)
    {projectId : Int} {body : SetProjectMember}
    (h : upsertMember t actor projectId body = .ok t') : Contained t userId t' := by
  obtain ⟨_, _, h⟩ := bind_eq_ok h
  obtain ⟨_, _, h⟩ := bind_eq_ok h
  obtain ⟨_, _, h⟩ := bind_eq_ok h
  obtain ⟨_, _, h⟩ := bind_eq_ok h
  obtain ⟨_, hcovered, h⟩ := bind_eq_ok h
  exact setProjectRoles_contained hsound hactor hcovered h

theorem removeMember_contained (hsound : Sound t) (hactor : ActsAs t userId actor)
    {projectId u : Int} (h : removeMember t actor projectId u = .ok t') :
    Contained t userId t' := by
  obtain ⟨_, _, h⟩ := bind_eq_ok h
  obtain ⟨_, _, h⟩ := bind_eq_ok h
  obtain ⟨_, _, h⟩ := bind_eq_ok h
  obtain ⟨_, hcovered, h⟩ := bind_eq_ok h
  exact setProjectRoles_contained hsound hactor hcovered h

/-! ### Personal permissions -/

/-- The personal role of a user: theirs or new, and nobody else holds it. -/
private theorem personalRole_spec (hsound : Sound t) (u : Int) :
    Sound (personalRole t u).1 ∧ (personalRole t u).1.assignments = t.assignments ∧
      (personalRole t u).1.permissions = t.permissions ∧
      (personalRole t u).1.users = t.users ∧ (personalRole t u).1.projects = t.projects ∧
      (∃ r ∈ (personalRole t u).1.roles, r.id = (personalRole t u).2 ∧ r.userId = some u) ∧
      ∀ r ∈ t.roles, r.userId = none → r.id ≠ (personalRole t u).2 := by
  unfold personalRole
  split
  · next role hfind =>
      have hmem := List.mem_of_find?_eq_some hfind
      have howner : role.userId = some u := by simpa using List.find?_some hfind
      refine ⟨hsound, rfl, rfl, rfl, rfl, ⟨role, hmem, rfl, howner⟩, ?_⟩
      intro r hr hshared hid
      rw [hsound.schema.row_unique hr hmem hid, howner] at hshared
      cases hshared
  · refine ⟨sound_insertRole hsound _ _ _, rfl, rfl, rfl, rfl,
      ⟨_, List.mem_append_right _ (List.mem_singleton.mpr rfl), rfl, rfl⟩, ?_⟩
    intro r hr _ hid
    have hlt := hsound.schema.roleSequence r hr
    dsimp only at hid
    omega

private theorem coversPersonal_spec {personal : PersonalAccess}
    (h : coversPersonal actor (some personal) = .ok ()) :
    ∀ place ∈ personal.places,
      actor.access.covers (Grants.of personal.permissions) place = true := by
  obtain ⟨covered, hcovered, h⟩ := bind_eq_ok h
  have hall := ensure_eq_ok h
  unfold personalCovered at hcovered
  unfold PersonalAccess.places
  cases hids : personal.projectIds with
  | none =>
      rw [hids] at hcovered
      obtain rfl := Except.ok.inj hcovered
      simpa using hall
  | some ids =>
      rw [hids] at hcovered
      dsimp only at hcovered
      split_ifs at hcovered
      obtain rfl := Except.ok.inj hcovered
      intro place hplace
      obtain ⟨id, hid, rfl⟩ := List.mem_map.mp hplace
      exact List.all_eq_true.mp hall id hid

/-- Writing and assigning covered personal permissions to a user whose other
assignments have just been replaced. -/
private theorem contained_personal {base : Tables} (hbase : Contained t userId base)
    (hactor : ActsAs t userId actor) {u : Int} {personal : PersonalAccess}
    (hcovers : coversPersonal actor (some personal) = .ok ())
    (hshared : ∀ a ∈ base.assignments, a.userId = u →
      ∃ r ∈ base.roles, r.id = a.roleId ∧ r.userId = none)
    (h : assignEach (writePermissions (personalRole base u).1 (personalRole base u).2
      personal.permissions) u
        (personal.places.map fun place => ((personalRole base u).2, place)) = .ok t') :
    Contained t userId t' := by
  obtain ⟨hsound, hassignments, hpermissions, husers, hprojects, hown, hfresh⟩ :=
    personalRole_spec hbase.sound u
  obtain ⟨added, rfl, hadded⟩ := assignEach_spec h
  have hwritten := sound_writePermissions hsound (personalRole base u).2 personal.permissions
  refine ⟨?_, ?_, ?_, ?_⟩
  · apply sound_assignments hwritten
    intro a ha
    rcases List.mem_append.mp ha with ha | ha
    · exact .inl ha
    · obtain ⟨huser, hitem, hrole⟩ := hadded a ha
      refine .inr ⟨hrole, fun r hr hid v hv => ?_⟩
      obtain ⟨place, _, hplace⟩ := List.mem_map.mp hitem
      obtain ⟨s, hs, hsid, hsowner⟩ := hown
      have hrs : r = s := hsound.schema.row_unique hr hs
        (hid.trans ((Prod.mk.inj hplace).1.symm.trans hsid.symm))
      rw [hrs, hsowner] at hv
      rw [huser, Option.some.inj hv]
  · dsimp only [writePermissions]
    rw [hprojects]
    exact hbase.projects
  · intro v
    rw [← hbase.owners v]
    simp only [Tables.user, writePermissions, husers]
  · intro v x hx
    obtain ⟨a, ha, huser, p, hp, rfl⟩ := mem_placedFor.mp hx
    have hp : p ∈ (writePermissions (personalRole base u).1 (personalRole base u).2
      personal.permissions).pairsOf a.roleId := hp
    rw [mem_pairsOf_writePermissions] at hp
    rcases List.mem_append.mp ha with ha | ha
    · -- Kept assignments name another role: a shared one, or somebody else's.
      have ha : a ∈ base.assignments := by rwa [← hassignments]
      have hother : a.roleId ≠ (personalRole base u).2 := by
        intro hrole
        by_cases hau : a.userId = u
        · obtain ⟨r, hr, hid, hnone⟩ := hshared a ha hau
          exact hfresh r hr hnone (hid.trans hrole)
        · obtain ⟨s, hs, hsid, hsowner⟩ := hown
          exact hau (hsound.personal a (hassignments ▸ ha) s hs (hsid.trans hrole.symm) u hsowner)
      rw [if_neg hother] at hp
      refine hbase.placed v _ (mem_placedFor.mpr ⟨a, ha, huser, p, ?_, rfl⟩)
      rwa [Tables.pairsOf, hpermissions] at hp
    · obtain ⟨_, hitem, _⟩ := hadded a ha
      obtain ⟨place, hplace, heq⟩ := List.mem_map.mp hitem
      obtain ⟨hrole, hproject⟩ := Prod.mk.inj heq
      rw [if_pos hrole.symm] at hp
      rw [← hproject]
      exact .inr (backed_of_covers hactor (coversPersonal_spec hcovers place hplace) hp.1 hp.2)

theorem setAssignments_contained (hsound : Sound t) (hactor : ActsAs t userId actor) {u : Int}
    {body : SetAccess} (h : setAssignments t actor u body = .ok t') :
    Contained t userId t' := by
  obtain ⟨_, _, h⟩ := bind_eq_ok h
  obtain ⟨_, _, h⟩ := bind_eq_ok h
  obtain ⟨_, _, h⟩ := bind_eq_ok h
  obtain ⟨_, hgiven, h⟩ := bind_eq_ok h
  obtain ⟨_, _, h⟩ := bind_eq_ok h
  obtain ⟨_, hpersonal, h⟩ := bind_eq_ok h
  obtain ⟨base, hassign, h⟩ := bind_eq_ok h
  have hchecked : ∀ item ∈ body.assignments.map fun a => (a.roleId, a.projectId),
      coversRole actor (list t) "role_id" item.1 item.2 = .ok () := by
    intro item hitem
    obtain ⟨a, ha, rfl⟩ := List.mem_map.mp hitem
    exact forAll_eq_ok hgiven a ha
  have hbase := contained_assignEach hsound hactor "role_id"
    (fun a ha => (List.mem_filter.mp ha).1) hchecked hassign
  cases hbody : body.personal with
  | none =>
      rw [hbody] at h
      obtain ⟨_, husers, hprojects, _⟩ := deleteRoles_spec h
      exact
        { sound := sound_deleteRoles hbase.sound h
          projects := by rw [hprojects]; exact hbase.projects
          owners := fun v => by rw [← hbase.owners v]; simp only [Tables.user, husers]
          placed := fun v x hx => hbase.placed v x (placed_deleteRoles h hx) }
  | some personal =>
      rw [hbody] at h hpersonal
      refine contained_personal hbase hactor hpersonal ?_ h
      intro a ha hau
      obtain ⟨added, rfl, hadded⟩ := assignEach_spec hassign
      rcases List.mem_append.mp ha with ha | ha
      · simpa [hau] using (List.mem_filter.mp ha).2
      · exact (coversRole_spec (hchecked _ (hadded a ha).2.1)).1

/-! ## Owners and projects -/

private theorem user_setUserRole (role : UserRole) (u v : Int) :
    (t.setUserRole u role).user v =
      (t.user v).map fun row => if row.id == u then { row with role := role.asStr } else row := by
  have hid : ((fun row : UserRow => row.id == v) ∘ fun row =>
      if row.id == u then { row with role := role.asStr } else row) = fun row => row.id == v := by
    funext row
    simp only [Function.comp]
    split <;> rfl
  simp only [Tables.user, Tables.setUserRole, List.find?_map, hid]

theorem updateTeamRole_contained (hsound : Sound t) (hactor : ActsAs t userId actor) {u : Int}
    {role : String} (h : updateTeamRole t actor u role = .ok t') : Contained t userId t' := by
  obtain ⟨_, _, h⟩ := bind_eq_ok h
  obtain ⟨newRole, _, h⟩ := bind_eq_ok h
  obtain ⟨target, htarget, h⟩ := bind_eq_ok h
  obtain ⟨_, howner, h⟩ := bind_eq_ok h
  obtain ⟨_, _, h⟩ := bind_eq_ok h
  obtain ⟨_, _, h⟩ := bind_eq_ok h
  obtain rfl := Except.ok.inj h
  have hguard := ensure_eq_ok howner
  have hnot : actor.access.isOwner = false := by
    obtain ⟨cap, haccess⟩ := hactor
    rw [haccess]
    exact Access.isOwner_ofPlaced cap
  rw [hnot] at hguard
  have hrole : newRole ≠ .admin ∧ target.isAdmin = false := by
    simpa using hguard
  have hmember : newRole = .member := by
    cases newRole with
    | admin => exact absurd rfl hrole.1
    | member => rfl
  subst hmember
  refine ⟨⟨⟨hsound.schema.roleIds, hsound.schema.roleSequence, hsound.schema.projectSequence,
    hsound.schema.assignedRole⟩, hsound.personal⟩, fun _ hp => hp, ?_, fun _ _ hx => .inl hx⟩
  intro v
  rw [user_setUserRole, Option.map_map]
  have htarget := okOr_eq_ok htarget
  cases hrow : t.user v with
  | none => rfl
  | some row =>
      simp only [Option.map_some, Function.comp, Option.some.injEq]
      split
      · next hid =>
          have hrowid : row.id = v := by simpa using List.find?_some hrow
          rw [← hrowid, beq_iff_eq.mp hid, htarget] at hrow
          rw [← Option.some.inj hrow, hrole.2]
          rfl
      · rfl

private theorem sound_insertProject (h : Sound t) :
    Sound { t with
      projects := t.projects ++ [t.nextProjectId]
      nextProjectId := t.nextProjectId + 1 } where
  schema :=
    { roleIds := h.schema.roleIds
      roleSequence := h.schema.roleSequence
      projectSequence := by
        intro p hp
        dsimp only at hp ⊢
        rcases List.mem_append.mp hp with hp | hp
        · have hlt := h.schema.projectSequence p hp
          omega
        · have heq := List.mem_singleton.mp hp
          omega
      assignedRole := h.schema.assignedRole }
  personal := h.personal

/-- The roles that extend to a new project were held already, and what they say
about projects is about the new one. -/
private theorem extendToProject_contained (hsound : Sound t) {u : Int}
    (h : extendToProject { t with
      projects := t.projects ++ [t.nextProjectId]
      nextProjectId := t.nextProjectId + 1 } u t.nextProjectId = .ok t') :
    Contained t userId t' := by
  obtain ⟨added, rfl, hadded⟩ := extendToProject_spec h
  refine ⟨?_, fun _ hp => List.mem_append_left _ hp, fun _ => rfl, ?_⟩
  · apply sound_assignments (sound_insertProject hsound)
    intro a ha
    rcases List.mem_append.mp ha with ha | ha
    · exact .inl ha
    · obtain ⟨huser, _, b, hb, hbuser, hrole⟩ := hadded a ha
      rw [← hrole, huser, ← hbuser]
      exact .inr ⟨hsound.schema.assignedRole b hb, hsound.personal b hb⟩
  · intro v x hx
    obtain ⟨a, ha, huser, p, hp, rfl⟩ := mem_placedFor.mp hx
    rcases List.mem_append.mp ha with ha | ha
    · exact .inl (mem_placedFor.mpr ⟨a, ha, huser, p, hp, rfl⟩)
    · obtain ⟨hauser, hproject, b, hb, hbuser, hrole⟩ := hadded a ha
      cases hscope : p.1.scope with
      | instanceWide =>
          -- A workspace permission applies wherever the role is held.
          refine .inl (mem_placedFor.mpr ⟨b, hb, ?_, p, ?_, ?_⟩)
          · rw [hbuser, ← hauser, huser]
          · rw [hrole]
            exact hp
          · simp only [Access.placeOf_eq_none hscope]
      | project =>
          rw [Access.placeOf_eq_self hscope, hproject]
          refine .inr (backed_of_fresh fun hmem => ?_)
          exact lt_irrefl _ (hsound.schema.projectSequence _ hmem)

theorem createProject_contained (hsound : Sound t) {accepted : AppResult Unit}
    (h : createProject t actor accepted = .ok t') : Contained t userId t' := by
  obtain ⟨_, _, h⟩ := bind_eq_ok h
  obtain ⟨_, _, h⟩ := bind_eq_ok h
  obtain ⟨⟨_, id⟩, hinsert, h⟩ := bind_eq_ok h
  obtain ⟨_, _, hinsert⟩ := bind_eq_ok hinsert
  obtain ⟨rfl, rfl⟩ := Prod.mk.inj (Except.ok.inj hinsert)
  dsimp only at h
  split at h
  · exact extendToProject_contained hsound h
  · obtain rfl := Except.ok.inj h
    exact ⟨sound_insertProject hsound, fun _ hp => List.mem_append_left _ hp, fun _ => rfl,
      fun _ _ hx => .inl hx⟩

/-! ## One request and runs of requests -/

/-- Acting by session or through a token: the user's own access, perhaps capped. -/
private theorem actsAs_of_credential (hnon : NonOwner t userId) {credential : Credential}
    (hcredential : credential = .session userId ∨
      ∃ scope, credential = .token (some userId) scope)
    (h : credential.actor t = .ok actor) : ActsAs t userId actor := by
  rcases hcredential with rfl | ⟨scope, rfl⟩
  · obtain ⟨user, huser, h⟩ := bind_eq_ok h
    obtain ⟨_, _, h⟩ := bind_eq_ok h
    obtain rfl := Except.ok.inj h
    have hid : user.id = userId := by simpa using List.find?_some (okOr_eq_ok huser)
    exact ⟨(Access.ofPlaced (placedFor t userId)).cap, by
      rw [ApiActor.forUser, hid, accessFor_nonOwner hnon]⟩
  · obtain ⟨_, hactor, h⟩ := bind_eq_ok h
    obtain ⟨user, huser, hactor⟩ := bind_eq_ok hactor
    obtain ⟨_, _, hactor⟩ := bind_eq_ok hactor
    obtain rfl := Except.ok.inj hactor
    obtain rfl := Except.ok.inj h
    have hid : user.id = userId := by simpa using List.find?_some (okOr_eq_ok huser)
    exact ⟨some scope, by rw [ApiActor.forUser, hid, accessFor_nonOwner hnon]; rfl⟩

theorem handle_contained (hsound : Sound t) (hactor : ActsAs t userId actor)
    {request : Request} (h : request.handle t actor = .ok t') : Contained t userId t' := by
  cases request with
  | createRole body => exact createRole_contained hsound hactor h
  | updateRole id body => exact updateRole_contained hsound hactor h
  | deleteRole id => exact deleteRole_contained hsound h
  | setAssignments u body => exact setAssignments_contained hsound hactor h
  | upsertMember projectId body => exact upsertMember_contained hsound hactor h
  | removeMember projectId u => exact removeMember_contained hsound hactor h
  | updateTeamRole u role => exact updateTeamRole_contained hsound hactor h
  | createProject accepted => exact createProject_contained hsound h

/-- One request of a user who is no owner keeps the tables sound and gains nobody
anything. -/
theorem nonOwnerStep_noGain (hsound : Sound t) {call : Call} (h : NonOwnerStep t call t') :
    Sound t' ∧ NoGain t t' := by
  obtain ⟨⟨userId, hnon, hcredential⟩, rfl⟩ := h
  unfold respond
  cases hcall : call.handle t with
  | error e => exact ⟨hsound, NoGain.refl t⟩
  | ok t' =>
      obtain ⟨actor, hactor, hhandle⟩ := bind_eq_ok hcall
      have hcontained := handle_contained hsound
        (actsAs_of_credential hnon hcredential hactor) hhandle
      exact ⟨hcontained.sound, hcontained.noGain hnon⟩

theorem run_sound {calls : List Call} (hrun : Run NonOwnerStep t calls t') (hsound : Sound t) :
    Sound t' :=
  Run.invariant Sound (fun _ _ _ hs hstep => (nonOwnerStep_noGain hs hstep).1) hrun hsound

/-- Between any two points of a run of requests by users who are no owners, no
right on the instance or on a project that exists at the first point is gained,
and nobody becomes an owner. -/
theorem non_owners_gain_no_right {start mid final : Tables} {before after : List Call}
    (hschema : Schema start) (hpersonal : OwnPersonal start)
    (hbefore : Run NonOwnerStep start before mid) (hafter : Run NonOwnerStep mid after final) :
    (∀ r a target, ExistingTarget mid target →
      HeldByNonOwner final r a target → HeldByNonOwner mid r a target) ∧
      ∀ userId, Owner final userId → Owner mid userId := by
  have hmid : Sound mid := run_sound hbefore ⟨hschema, hpersonal⟩
  have hgain : NoGain mid final := Run.relates Sound NoGain NoGain.refl
    (fun _ _ _ => NoGain.trans) (fun _ _ _ hs hstep => (nonOwnerStep_noGain hs hstep).1)
    (fun _ _ _ hs hstep => (nonOwnerStep_noGain hs hstep).2) hafter hmid
  exact ⟨hgain.rights, hgain.owners⟩

/-! ## Why the personal roles have to be their users' own

An owner, a lead of project 1, and two members.  The second member's personal role
is rewritten by a request about the first, on whom the request is checked. -/

def team (assignments : List AssignmentRow) : Tables where
  users := [⟨1, true, "admin"⟩, ⟨2, true, "member"⟩, ⟨3, true, "member"⟩, ⟨4, true, "member"⟩]
  projects := [1, 2]
  roles := [⟨1, "Lead", "", none⟩, ⟨2, "Custom", "", some 3⟩]
  permissions := [⟨1, "users", "update"⟩, ⟨1, "issues", "update"⟩, ⟨2, "logs", "read"⟩]
  assignments := assignments
  invitations := []
  nextRoleId := 3
  nextProjectId := 3

/-- The lead of project 1 gives user 3 the issues of project 1. -/
def giveIssues : Call :=
  ⟨.session 2, .setAssignments 3 ⟨[], some ⟨[(.issues, .update)], some [1]⟩⟩⟩

theorem giveIssues_byNonOwner (assignments : List AssignmentRow) :
    giveIssues.byNonOwner (team assignments) :=
  ⟨2, rfl, .inl rfl⟩

/-- User 4 holds user 3's personal role: after the request they update the issues
of project 2, which nobody but the owner could. -/
theorem shared_personal_role_escalates :
    let start := team [⟨2, 1, some 1⟩, ⟨4, 2, none⟩]
    Schema start ∧ Run NonOwnerStep start [giveIssues] (respond start giveIssues) ∧
      ExistingTarget start (some 2) ∧ ¬HeldByNonOwner start .issues .update (some 2) ∧
      HeldByNonOwner (respond start giveIssues) .issues .update (some 2) := by
  refine ⟨⟨by decide, by decide, by decide, by decide⟩,
    Run.single ⟨giveIssues_byNonOwner _, rfl⟩, ?_, by decide, by decide⟩
  rintro id hid
  obtain rfl := Option.some.inj hid
  decide

/-- The same request where nobody else holds that role. -/
theorem non_owners_gain_no_right_giveIssues :
    let start := team [⟨2, 1, some 1⟩]
    respond start giveIssues ≠ start ∧
      (∀ r a target, ExistingTarget start target →
        HeldByNonOwner (respond start giveIssues) r a target → HeldByNonOwner start r a target) ∧
      ∀ userId, Owner (respond start giveIssues) userId → Owner start userId :=
  ⟨by decide, non_owners_gain_no_right ⟨by decide, by decide, by decide, by decide⟩
    (by simp [OwnPersonal, team]) (Run.nil _) (Run.single ⟨giveIssues_byNonOwner _, rfl⟩)⟩

end Rustrak.Auth
