import Rustrak.Auth.Requests

/-!
# What the writes of `RoleService` leave behind

The lemmas here say, for each write, which permissions a role has afterwards and
which assignments there are.  Nobody above this file unfolds a write again.

`Schema` is what the database enforces between the tables (primary keys, the
sequences, the foreign key of an assignment); `OwnPersonal` is what the code adds:
a personal role is only ever assigned to the user it belongs to.
-/

namespace Rustrak.Auth

open Rustrak.Core RoleService

/-- The constraints of the tables. -/
structure Schema (t : Tables) : Prop where
  roleIds : (t.roles.map RoleRow.id).Nodup
  roleSequence : ∀ r ∈ t.roles, r.id < t.nextRoleId
  projectSequence : ∀ p ∈ t.projects, p < t.nextProjectId
  assignedRole : ∀ a ∈ t.assignments, t.hasRole a.roleId = true

/-- A personal role is assigned only to its own user. -/
def OwnPersonal (t : Tables) : Prop :=
  ∀ a ∈ t.assignments, ∀ r ∈ t.roles, r.id = a.roleId → ∀ u, r.userId = some u → a.userId = u

theorem hasRole_iff {t : Tables} {id : Int} : t.hasRole id = true ↔ ∃ r ∈ t.roles, r.id = id := by
  simp [Tables.hasRole]

theorem Schema.row_unique {t : Tables} (h : Schema t) {r s : RoleRow} (hr : r ∈ t.roles)
    (hs : s ∈ t.roles) (hid : r.id = s.id) : r = s :=
  List.inj_on_of_nodup_map h.roleIds hr hs hid

/-! ## Permissions of a role -/

theorem accepts_of_parsePair {row : PermissionRow} {p : Pair} (h : parsePair row = some p) :
    p.1.accepts p.2 = true := by
  unfold parsePair at h
  split at h
  · split at h
    · next haccepts =>
        obtain rfl := Option.some.inj h
        exact haccepts
    · cases h
  · cases h

theorem parsePair_key {p : Pair} (hp : p.1.accepts p.2 = true) (roleId : Int) :
    parsePair ⟨roleId, p.1.key, p.2.key⟩ = some p := by
  simp [parsePair, Resource.parse_key, Action.parse_key, hp]

theorem accepts_of_mem_pairsOf {t : Tables} {id : Int} {p : Pair} (hp : p ∈ t.pairsOf id) :
    p.1.accepts p.2 = true := by
  obtain ⟨row, _, hrow⟩ := List.mem_filterMap.mp hp
  exact accepts_of_parsePair hrow

private theorem mem_pairsOf {t : Tables} {id : Int} {p : Pair} :
    p ∈ t.pairsOf id ↔ ∃ row ∈ t.permissions, row.roleId = id ∧ parsePair row = some p := by
  simp [Tables.pairsOf, List.mem_filterMap, and_assoc]

/-- Only the role written to changes. -/
theorem mem_pairsOf_writePermissions {t : Tables} {roleId id : Int} {pairs : List Pair}
    {p : Pair} :
    p ∈ (writePermissions t roleId pairs).pairsOf id ↔
      if id = roleId then p ∈ pairs ∧ p.1.accepts p.2 = true else p ∈ t.pairsOf id := by
  simp only [mem_pairsOf, writePermissions, List.mem_append, List.mem_filter, List.mem_map]
  split_ifs with hid
  · constructor
    · rintro ⟨row, ⟨_, hne⟩ | ⟨q, hq, rfl⟩, hrow, hparse⟩
      · simp [hrow, hid] at hne
      · have hmem := Grants.mem_pairs_of.mp (Grants.mem_pairList.mp hq)
        rw [parsePair_key hmem.2] at hparse
        obtain rfl := Option.some.inj hparse
        exact hmem
    · intro hp
      exact ⟨_, .inr ⟨p, Grants.mem_pairList.mpr (Grants.mem_pairs_of.mpr hp), rfl⟩, hid.symm,
        parsePair_key hp.2 roleId⟩
  · constructor
    · rintro ⟨row, ⟨hrow, _⟩ | ⟨q, _, rfl⟩, hid', hparse⟩
      · exact ⟨row, hrow, hid', hparse⟩
      · exact absurd hid'.symm hid
    · rintro ⟨row, hrow, hid', hparse⟩
      exact ⟨row, .inl ⟨hrow, by simpa [hid'] using hid⟩, hid', hparse⟩

/-! ## Roles of the list -/

/-- A fetched role is a row with the permissions of its id. -/
private theorem mem_fetch {t : Tables} {personal : Bool} {role : Role}
    (h : role ∈ fetch t personal) :
    role.permissions = t.pairsOf role.id ∧
      ∃ row ∈ t.roles, row.id = role.id ∧ (personal = false → row.userId = none) := by
  obtain ⟨row, hrow, rfl⟩ := List.mem_map.mp h
  have hmem := List.mem_filter.mp ((List.mem_insertionSort _).mp hrow)
  refine ⟨rfl, row, hmem.1, rfl, fun hpersonal => ?_⟩
  simpa [hpersonal] using hmem.2

theorem mem_list {t : Tables} {role : Role} (h : role ∈ list t) :
    role.permissions = t.pairsOf role.id ∧
      ∃ row ∈ t.roles, row.id = role.id ∧ row.userId = none := by
  obtain ⟨hperms, row, hrow, hid, hshared⟩ := mem_fetch h
  exact ⟨hperms, row, hrow, hid, hshared rfl⟩

/-! ## Placed pairs -/

theorem mem_placedFor {t : Tables} {userId : Int} {x : Placed} :
    x ∈ placedFor t userId ↔ ∃ a ∈ t.assignments, a.userId = userId ∧
      ∃ p ∈ t.pairsOf a.roleId, ⟨Access.placeOf p a.projectId, p⟩ = x := by
  simp [placedFor, List.mem_flatMap, and_assoc]

theorem catalogued_placedFor (t : Tables) (userId : Int) :
    Access.Catalogued (placedFor t userId) := by
  intro x hx
  obtain ⟨_, _, _, p, hp, rfl⟩ := mem_placedFor.mp hx
  exact accepts_of_mem_pairsOf hp

/-! ## Writing roles -/

/-- What a written role's permissions come to, for the tables around it. -/
theorem create_spec {t t' : Tables} {name description : String} {pairs : List Pair}
    (h : create t name description pairs = .ok t') :
    t' = writePermissions { t with
      roles := t.roles ++ [⟨t.nextRoleId, trim name, description, none⟩]
      nextRoleId := t.nextRoleId + 1 } t.nextRoleId pairs := by
  obtain ⟨_, _, h⟩ := bind_eq_ok h
  exact (Except.ok.inj h).symm

theorem update_spec {t t' : Tables} {id : Int} {name description : String} {pairs : List Pair}
    (h : update t id name description pairs = .ok t') :
    t' = writePermissions { t with
      roles := t.roles.map fun r =>
        if r.id == id then { r with name := trim name, description } else r } id pairs := by
  obtain ⟨_, _, h⟩ := bind_eq_ok h
  obtain ⟨_, _, h⟩ := bind_eq_ok h
  exact (Except.ok.inj h).symm

/-- Deleting roles keeps the assignments, which named none of them. -/
theorem deleteRoles_spec {t t' : Tables} {gone : RoleRow → Bool}
    (h : deleteRoles t gone = .ok t') :
    t'.assignments = t.assignments ∧ t'.users = t.users ∧ t'.projects = t.projects ∧
      t'.nextRoleId = t.nextRoleId ∧ t'.nextProjectId = t.nextProjectId ∧
      t'.roles = t.roles.filter (fun r => !gone r) ∧
      (∀ a ∈ t.assignments, ∀ r ∈ t.roles, r.id = a.roleId → gone r = false) ∧
      ∀ id p, p ∈ t'.pairsOf id → p ∈ t.pairsOf id := by
  unfold deleteRoles at h
  dsimp only at h
  split at h
  · cases h
  · next hused =>
      obtain rfl := Except.ok.inj h
      refine ⟨rfl, rfl, rfl, rfl, rfl, rfl, ?_, ?_⟩
      · intro a ha r hr hid
        rw [Bool.eq_false_iff]
        intro hgone
        apply hused
        rw [List.any_eq_true]
        refine ⟨a, ha, ?_⟩
        rw [List.contains_iff_mem, ← hid]
        exact List.mem_map_of_mem (List.mem_filter.mpr ⟨hr, hgone⟩)
      · intro id p hp
        obtain ⟨row, hrow, hid, hparse⟩ := mem_pairsOf.mp hp
        exact mem_pairsOf.mpr ⟨row, (List.mem_filter.mp hrow).1, hid, hparse⟩

/-! ## Writing assignments -/

theorem assign_spec {t t' : Tables} {userId roleId : Int} {projectId : Option Int}
    (h : assign t userId roleId projectId = .ok t') :
    ∃ added, t' = { t with assignments := t.assignments ++ added } ∧
      ∀ a ∈ added, a = ⟨userId, roleId, projectId⟩ ∧ t.hasRole roleId = true := by
  unfold assign at h
  dsimp only at h
  split_ifs at h with hsame hkeys
  · exact ⟨[], by simpa using (Except.ok.inj h).symm, by simp⟩
  · refine ⟨[⟨userId, roleId, projectId⟩], (Except.ok.inj h).symm, fun a ha => ?_⟩
    simp only [Bool.and_eq_true] at hkeys
    exact ⟨List.mem_singleton.mp ha, hkeys.1.2⟩

/-- The loop adds some of the assignments it was given, and nothing else. -/
theorem assignEach_spec {t t' : Tables} {userId : Int} {items : List (Int × Option Int)}
    (h : assignEach t userId items = .ok t') :
    ∃ added, t' = { t with assignments := t.assignments ++ added } ∧
      ∀ a ∈ added, a.userId = userId ∧ (a.roleId, a.projectId) ∈ items ∧
        t.hasRole a.roleId = true := by
  induction items generalizing t with
  | nil => exact ⟨[], by simpa using (Except.ok.inj h).symm, by simp⟩
  | cons item rest ih =>
      obtain ⟨t₁, hfirst, hrest⟩ := bind_eq_ok h
      obtain ⟨first, rfl, hadded⟩ := assign_spec hfirst
      obtain ⟨others, rfl, hothers⟩ := ih hrest
      refine ⟨first ++ others, by simp, fun a ha => ?_⟩
      rcases List.mem_append.mp ha with ha | ha
      · obtain ⟨rfl, hrole⟩ := hadded a ha
        exact ⟨rfl, by simp, hrole⟩
      · obtain ⟨huser, hitem, hrole⟩ := hothers a ha
        exact ⟨huser, List.mem_cons_of_mem _ hitem, hrole⟩

/-- On one more project, a user gets roles they hold already. -/
theorem extendToProject_spec {t t' : Tables} {userId projectId : Int}
    (h : extendToProject t userId projectId = .ok t') :
    ∃ added, t' = { t with assignments := t.assignments ++ added } ∧
      ∀ a ∈ added, a.userId = userId ∧ a.projectId = some projectId ∧
        ∃ b ∈ t.assignments, b.userId = userId ∧ b.roleId = a.roleId := by
  unfold extendToProject at h
  dsimp only at h
  split_ifs at h
  refine ⟨_, (Except.ok.inj h).symm, fun a ha => ?_⟩
  obtain ⟨roleId, hrole, rfl⟩ := List.mem_map.mp (List.mem_filter.mp ha).1
  obtain ⟨b, hb, hid⟩ := List.mem_map.mp (List.mem_dedup.mp hrole)
  have hb := List.mem_filter.mp hb
  exact ⟨rfl, rfl, b, hb.1, by simpa using hb.2, hid⟩

end Rustrak.Auth
