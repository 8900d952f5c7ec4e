import Rustrak.Auth.Access
import Rustrak.Core.Error
import Rustrak.Core.Text

/-!
# Roles, permissions and assignments in the database

The tables of the granular RBAC migration and `RoleService`, which reads and
writes them.  Every write of the service is one statement or one transaction, so
each is a function from the tables before to the tables after, or an error that
leaves them as they were.

A role with `userId` set holds the personal permissions of that one user; the
other roles are the list everybody chooses from.
-/

namespace Rustrak.Auth

open Rustrak.Core

structure UserRow where
  id : Int
  isActive : Bool
  role : String
  deriving DecidableEq, Repr

structure RoleRow where
  id : Int
  name : String
  description : String
  /-- Set: the personal permissions of this one user, not a role of the list. -/
  userId : Option Int
  deriving DecidableEq, Repr

structure PermissionRow where
  roleId : Int
  resource : String
  action : String
  deriving DecidableEq, Repr

structure AssignmentRow where
  userId : Int
  roleId : Int
  /-- `none`: the role's project permissions reach every project. -/
  projectId : Option Int
  deriving DecidableEq, Repr

structure InvitationRow where
  roleId : Option Int
  status : String
  deriving DecidableEq, Repr

/-- The tables; `nextRoleId` and `nextProjectId` are the sequences of the two
tables these requests insert into. -/
structure Tables where
  users : List UserRow
  projects : List Int
  roles : List RoleRow
  permissions : List PermissionRow
  assignments : List AssignmentRow
  invitations : List InvitationRow
  nextRoleId : Int
  nextProjectId : Int
  deriving DecidableEq, Repr

def UserRow.isAdmin (user : UserRow) : Bool := user.role == "admin"

def Tables.user (t : Tables) (userId : Int) : Option UserRow :=
  t.users.find? fun u => u.id == userId

def Tables.hasRole (t : Tables) (roleId : Int) : Bool :=
  t.roles.any fun r => r.id == roleId

/-! ## Reading roles -/

/-- Rows whose resource or action the catalog no longer knows are skipped, so a
stale row can never grant anything. -/
def parsePair (row : PermissionRow) : Option Pair :=
  match Resource.parse row.resource, Action.parse row.action with
  | some r, some a => if r.accepts a then some (r, a) else none
  | _, _ => none

/-- The permissions of one role. -/
def Tables.pairsOf (t : Tables) (roleId : Int) : List Pair :=
  (t.permissions.filter fun row => row.roleId == roleId).filterMap parsePair

/-- A role with its permissions. -/
structure Role where
  id : Int
  name : String
  description : String
  permissions : List Pair
  assignmentCount : Nat
  deriving DecidableEq, Repr

def Role.grants (role : Role) : Grants := Grants.of role.permissions

namespace RoleService

def fetch (t : Tables) (personal : Bool) : List Role :=
  ((t.roles.filter fun r => r.userId.isNone || personal).insertionSort
    fun r s => r.id ≤ s.id).map fun r =>
      { id := r.id
        name := r.name
        description := r.description
        permissions := t.pairsOf r.id
        assignmentCount := t.assignments.countP fun a => a.roleId == r.id }

/-- Every role of the list with its permissions, oldest first. -/
def list (t : Tables) : List Role := fetch t false

/-- The same, plus everyone's personal roles. -/
def listAll (t : Tables) : List Role := fetch t true

def get (t : Tables) (id : Int) : AppResult Role :=
  okOr ((list t).find? fun r => r.id == id) (.notFound s!"Role {id} not found")

/-! ## Writing roles -/

def writePermissions (t : Tables) (roleId : Int) (permissions : List Pair) : Tables :=
  { t with
    permissions :=
      (t.permissions.filter fun row => row.roleId != roleId) ++
        (Grants.of permissions).pairList.map fun p => ⟨roleId, p.1.key, p.2.key⟩ }

/-- `ux_roles_name`: names are unique among the roles of the list. -/
def nameTaken (t : Tables) (name : String) (except : Option Int) : Bool :=
  t.roles.any fun r => r.userId.isNone && r.name == name && some r.id != except

/-- Creates a role.  Permissions an action does not apply to are dropped. -/
def create (t : Tables) (name description : String) (permissions : List Pair) :
    AppResult Tables := do
  ensure (!nameTaken t (trim name) none)
    (.conflict s!"A role named '{trim name}' already exists")
  let id := t.nextRoleId
  let t := { t with
    roles := t.roles ++ [⟨id, trim name, description, none⟩]
    nextRoleId := id + 1 }
  return writePermissions t id permissions

/-- Replaces a role's name, description and permissions. -/
def update (t : Tables) (id : Int) (name description : String) (permissions : List Pair) :
    AppResult Tables := do
  let _ ← get t id
  ensure (!nameTaken t (trim name) (some id))
    (.conflict s!"A role named '{trim name}' already exists")
  let t := { t with
    roles := t.roles.map fun r =>
      if r.id == id then { r with name := trim name, description } else r }
  return writePermissions t id permissions

/-- `DELETE FROM roles`: the permissions go with the role, invitations forget it,
and an assignment that still names it makes the statement fail. -/
def deleteRoles (t : Tables) (gone : RoleRow → Bool) : AppResult Tables :=
  let ids := (t.roles.filter gone).map RoleRow.id
  if t.assignments.any fun a => ids.contains a.roleId then
    .error (.database .foreignKeyViolation)
  else
    .ok { t with
      roles := t.roles.filter fun r => !gone r
      permissions := t.permissions.filter fun row => !ids.contains row.roleId
      invitations := t.invitations.map fun i =>
        { i with roleId := i.roleId.filter fun id => !ids.contains id } }

/-- Deletes a role nobody holds and no pending invitation names. -/
def delete (t : Tables) (id : Int) : AppResult Tables := do
  let role ← get t id
  ensure (role.assignmentCount == 0)
    (.conflict s!"Role '{role.name}' is still assigned {role.assignmentCount} time(s)")
  let pending := t.invitations.countP fun i => i.roleId == some id && i.status == "pending"
  ensure (pending == 0)
    (.conflict s!"Role '{role.name}' is named by {pending} pending invitation(s)")
  deleteRoles t fun r => r.id == id

/-! ## Assignments -/

/-- `ux_role_assignments`: the same role in the same place. -/
def sameAssignment (a b : AssignmentRow) : Bool :=
  a.userId == b.userId && a.roleId == b.roleId && a.projectId.getD 0 == b.projectId.getD 0

/-- Gives `roleId` to a user.  Giving the same role in the same place twice is a
no-op. -/
def assign (t : Tables) (userId roleId : Int) (projectId : Option Int) : AppResult Tables :=
  let row : AssignmentRow := ⟨userId, roleId, projectId⟩
  if t.assignments.any (sameAssignment row) then .ok t
  else if (t.user userId).isSome && t.hasRole roleId &&
      projectId.all fun id => t.projects.contains id then
    .ok { t with assignments := t.assignments ++ [row] }
  else .error (.notFound "User, role or project not found")

/-- The loop over `assign` in one transaction. -/
def assignEach (t : Tables) (userId : Int) : List (Int × Option Int) → AppResult Tables
  | [] => .ok t
  | (roleId, projectId) :: rest => do
      let t ← assign t userId roleId projectId
      assignEach t userId rest

/-- Gives a user the roles they already hold on one more project. -/
def extendToProject (t : Tables) (userId projectId : Int) : AppResult Tables :=
  let roleIds := ((t.assignments.filter fun a => a.userId == userId).map
    AssignmentRow.roleId).dedup
  let rows := (roleIds.map fun roleId => (⟨userId, roleId, some projectId⟩ : AssignmentRow)).filter
    fun row => !t.assignments.any (sameAssignment row)
  if rows.isEmpty || t.projects.contains projectId then
    .ok { t with assignments := t.assignments ++ rows }
  else .error (.database .foreignKeyViolation)

/-- Permissions given to one person directly, without a role of the list. -/
structure PersonalAccess where
  permissions : List Pair
  /-- Where its project permissions apply.  `none`: every project. -/
  projectIds : Option (List Int)
  deriving DecidableEq, Repr

/-- The places a personal role is assigned to. -/
def PersonalAccess.places (personal : PersonalAccess) : List (Option Int) :=
  match personal.projectIds with
  | none => [none]
  | some ids => ids.map some

/-- The id of a user's personal role, inserting the role when they have none. -/
def personalRole (t : Tables) (userId : Int) : Tables × Int :=
  match t.roles.find? fun r => r.userId == some userId with
  | some role => (t, role.id)
  | none =>
      let id := t.nextRoleId
      ({ t with
        roles := t.roles ++ [⟨id, "Custom", "", some userId⟩]
        nextRoleId := id + 1 }, id)

/-- Replaces everything a user holds, in one transaction: their assignments and
their personal permissions, whose role goes when `personal` is `none`. -/
def setAssignments (t : Tables) (userId : Int) (assignments : List (Int × Option Int))
    (personal : Option PersonalAccess) : AppResult Tables := do
  let t := { t with assignments := t.assignments.filter fun a => a.userId != userId }
  let t ← assignEach t userId assignments
  match personal with
  | none => deleteRoles t fun r => r.userId == some userId
  | some personal =>
      let (t, roleId) := personalRole t userId
      let t := writePermissions t roleId personal.permissions
      assignEach t userId (personal.places.map fun place => (roleId, place))

/-- Replaces the roles a user holds on one project (empty removes them).  Their
personal permissions stay. -/
def setProjectRoles (t : Tables) (projectId userId : Int) (roleIds : List Int) :
    AppResult Tables :=
  let personal := (t.roles.filter fun r => r.userId.isSome).map RoleRow.id
  let t := { t with
    assignments := t.assignments.filter fun a =>
      !(a.userId == userId && a.projectId == some projectId && !personal.contains a.roleId) }
  assignEach t userId (roleIds.map fun roleId => (roleId, some projectId))

/-- An assignment joined with its role. -/
structure RoleAssignment where
  roleId : Int
  projectId : Option Int
  isPersonal : Bool
  deriving DecidableEq, Repr

def assignmentsFor (t : Tables) (userId : Int) : List RoleAssignment :=
  (t.assignments.filter fun a => a.userId == userId).flatMap fun a =>
    (t.roles.filter fun r => r.id == a.roleId).map fun r =>
      ⟨a.roleId, a.projectId, r.userId.isSome⟩

/-! ## What a user may do -/

/-- The rows `access_for` reads: a user's assignments joined with the permissions
of their roles, each pair placed where it applies. -/
def placedFor (t : Tables) (userId : Int) : List Placed :=
  (t.assignments.filter fun a => a.userId == userId).flatMap fun a =>
    (t.pairsOf a.roleId).map fun p => ⟨Access.placeOf p a.projectId, p⟩

/-- Everything for an instance owner (`users.role = 'admin'`), otherwise the sum
of their assigned roles. -/
def accessFor (t : Tables) (userId : Int) : Access :=
  if (t.user userId).any UserRow.isAdmin then
    Access.new [⟨none, Grants.everything⟩]
  else Access.ofPlaced (placedFor t userId)

end RoleService

end Rustrak.Auth
