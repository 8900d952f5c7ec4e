import Rustrak.Auth.RoleStore

/-!
# Requests that change who may do what

The handlers of `routes/roles.rs`, `routes/members.rs`, `routes/team.rs` and
`create_project`, with the actor each of them runs as.  A handler answers the
tables after it or the error it returns; a refused request leaves the tables
unchanged (`respond`).
-/

namespace Rustrak.Auth

open Rustrak.Core

/-! ## The actor -/

/-- The acting user (`none` for a legacy token without an owner) and what they
may do. -/
structure ApiActor where
  user : Option UserRow
  access : Access

namespace ApiActor

def userId (actor : ApiActor) : Option Int := actor.user.map UserRow.id

def forUser (t : Tables) (user : UserRow) : ApiActor :=
  ⟨some user, RoleService.accessFor t user.id⟩

/-- The actor a token acts as: its owner, or full access for a legacy token with
none. -/
def forToken (t : Tables) (userId : Option Int) : AppResult ApiActor :=
  match userId with
  | none => .ok ⟨none, Access.new [⟨none, Grants.everything⟩]⟩
  | some id => do
      let user ← okOr (t.user id) (.unauthorized "Token owner not found")
      ensure user.isActive (.unauthorized "Account is disabled")
      return forUser t user

/-- The actor of a session. -/
def forSession (t : Tables) (userId : Int) : AppResult ApiActor := do
  let user ← okOr (t.user userId) (.unauthorized "Not authenticated")
  ensure user.isActive (.unauthorized "Not authenticated")
  return forUser t user

/-- Fails unless the actor may do `a` on `r`.  For a project resource, someone
who cannot see the project gets a 404 so its existence is not leaked. -/
def require (actor : ApiActor) (r : Resource) (a : Action) (projectId : Option Int) :
    AppResult Unit := do
  match projectId with
  | some id =>
      ensure (actor.access.can .project .read (some id)) (.notFound s!"Project {id} not found")
  | none => pure ()
  ensure (actor.access.can r a projectId) (.forbidden s!"Missing permission {r.key}:{a.key}")

end ApiActor

/-- How a request authenticates. -/
inductive Credential
  | session (userId : Int)
  | token (userId : Option Int) (scope : TokenScope)
  deriving DecidableEq

/-- The `ApiActor` extractor. -/
def Credential.actor (t : Tables) : Credential → AppResult ApiActor
  | .session userId => ApiActor.forSession t userId
  | .token userId scope => do
      let actor ← ApiActor.forToken t userId
      return { actor with access := actor.access.capped scope }

/-! ## Roles -/

structure RoleInput where
  name : String
  description : String
  permissions : List Pair
  deriving DecidableEq, Repr

/-- `validate` of a role's name. -/
def validateRoleName (name : String) : AppResult Unit := do
  ensure (trim name != "")
    ((AppError.validation "Role name is required").withField "name" .required)
  ensure (name.length ≤ 100)
    ((AppError.validation "Role name is at most 100 characters").withField "name" .tooLong)

def beyondYourOwn : AppError := .forbidden "You cannot grant permissions you do not hold"

/-- Creates a role from permissions the caller holds themselves. -/
def createRole (t : Tables) (actor : ApiActor) (body : RoleInput) : AppResult Tables := do
  actor.require .roles .create none
  validateRoleName body.name
  ensure (actor.access.covers (Grants.of body.permissions) none) beyondYourOwn
  RoleService.create t body.name body.description body.permissions

/-- Replaces a role.  The caller must hold both the permissions being added and
those being removed. -/
def updateRole (t : Tables) (actor : ApiActor) (id : Int) (body : RoleInput) :
    AppResult Tables := do
  actor.require .roles .update none
  validateRoleName body.name
  let current ← RoleService.get t id
  ensure (actor.access.covers (Grants.of body.permissions) none &&
    actor.access.covers current.grants none) beyondYourOwn
  RoleService.update t id body.name body.description body.permissions

def deleteRole (t : Tables) (actor : ApiActor) (id : Int) : AppResult Tables := do
  actor.require .roles .delete none
  RoleService.delete t id

/-! ## Assignments -/

structure AssignmentInput where
  roleId : Int
  /-- `none` reaches every project. -/
  projectId : Option Int
  deriving DecidableEq, Repr

/-- Everything a user holds. -/
structure SetAccess where
  assignments : List AssignmentInput
  personal : Option RoleService.PersonalAccess
  deriving DecidableEq, Repr

def unknownRole (field : String) (id : Int) : AppError :=
  (AppError.validation s!"Unknown role {id}").withField field .invalid

/-- The role exists among `roles` and the actor covers it at `projectId`. -/
def coversRole (actor : ApiActor) (roles : List Role) (field : String) (roleId : Int)
    (projectId : Option Int) : AppResult Unit := do
  let role ← okOr (roles.find? fun r => r.id == roleId) (unknownRole field roleId)
  ensure (actor.access.covers role.grants projectId) beyondYourOwn

/-- Whether what is given directly is covered in every place it is given. -/
def personalCovered (actor : ApiActor) (personal : RoleService.PersonalAccess) :
    AppResult Bool :=
  let grants := Grants.of personal.permissions
  match personal.projectIds with
  | none => .ok (actor.access.covers grants none)
  | some ids =>
      if ids.isEmpty then
        .error ((AppError.validation "Choose at least one project").withField "project_ids"
          .invalid)
      else .ok (ids.all fun id => actor.access.covers grants (some id))

def coversPersonal (actor : ApiActor) : Option RoleService.PersonalAccess → AppResult Unit
  | none => .ok ()
  | some personal => do
      let covered ← personalCovered actor personal
      ensure covered beyondYourOwn

/-- Replaces every role and personal permission a user holds.  The caller must
hold every role being given or taken away, on the scope it applies to. -/
def setAssignments (t : Tables) (actor : ApiActor) (userId : Int) (body : SetAccess) :
    AppResult Tables := do
  actor.require .users .update none
  ensure (actor.userId != some userId) (.forbidden "You cannot change your own roles")
  let _ ← okOr (t.user userId) (.notFound s!"User {userId} not found")
  -- Only roles of the list can be given; what is taken away may be anyone's.
  forAll (fun a => coversRole actor (RoleService.list t) "role_id" a.roleId a.projectId)
    body.assignments
  forAll (fun a => coversRole actor (RoleService.listAll t) "role_id" a.roleId a.projectId)
    (RoleService.assignmentsFor t userId)
  coversPersonal actor body.personal
  RoleService.setAssignments t userId (body.assignments.map fun a => (a.roleId, a.projectId))
    body.personal

/-! ## Members of a project -/

structure SetProjectMember where
  userId : Int
  roleIds : List Int
  deriving DecidableEq, Repr

def notYourself (actor : ApiActor) (userId : Int) : AppResult Unit :=
  ensure (actor.userId != some userId) (.forbidden "You cannot change your own project roles")

/-- `ProjectService::get_by_id`, as a check. -/
def projectExists (t : Tables) (projectId : Int) : AppResult Unit :=
  ensure (t.projects.contains projectId) (.notFound s!"Project {projectId} not found")

/-- Every role being given or taken away must be within the caller's own
permissions on this project. -/
def requireCovered (t : Tables) (actor : ApiActor) (projectId userId : Int)
    (newRoleIds : List Int) : AppResult Unit := do
  forAll (fun id => coversRole actor (RoleService.list t) "role_ids" id (some projectId))
    newRoleIds
  forAll (fun id => coversRole actor (RoleService.listAll t) "role_ids" id (some projectId))
    (((RoleService.assignmentsFor t userId).filter fun a =>
      a.projectId == some projectId && !a.isPersonal).map RoleService.RoleAssignment.roleId)

/-- Sets the roles a user holds on the project. -/
def upsertMember (t : Tables) (actor : ApiActor) (projectId : Int) (body : SetProjectMember) :
    AppResult Tables := do
  actor.require .projectMembers .update (some projectId)
  notYourself actor body.userId
  projectExists t projectId
  let _ ← okOr (t.user body.userId) (.notFound s!"User {body.userId} not found")
  requireCovered t actor projectId body.userId body.roleIds
  RoleService.setProjectRoles t projectId body.userId body.roleIds

/-- Removes the roles a user holds on this project. -/
def removeMember (t : Tables) (actor : ApiActor) (projectId userId : Int) :
    AppResult Tables := do
  actor.require .projectMembers .update (some projectId)
  notYourself actor userId
  projectExists t projectId
  requireCovered t actor projectId userId []
  RoleService.setProjectRoles t projectId userId []

/-! ## Owners -/

inductive UserRole
  | admin
  | member
  deriving DecidableEq, Repr

def UserRole.asStr : UserRole → String
  | .admin => "admin"
  | .member => "member"

/-- Strict parse for request bodies. -/
def UserRole.parse (s : String) : Option UserRole :=
  if s = "admin" then some .admin else if s = "member" then some .member else none

/-- `primary_user_id`: the lowest id. -/
def Tables.primaryUserId (t : Tables) : Option Int :=
  (t.users.map UserRow.id).min?

/-- `admin_count`: active owners. -/
def Tables.adminCount (t : Tables) : Nat :=
  t.users.countP fun u => u.isAdmin && u.isActive

/-- `UsersService::update_role`. -/
def Tables.setUserRole (t : Tables) (userId : Int) (role : UserRole) : Tables :=
  { t with users := t.users.map fun u =>
      if u.id == userId then { u with role := role.asStr } else u }

/-- Changes a user's global role.  Owners are made and unmade only by owners. -/
def updateTeamRole (t : Tables) (actor : ApiActor) (userId : Int) (role : String) :
    AppResult Tables := do
  actor.require .users .update none
  let newRole ← okOr (UserRole.parse role)
    ((AppError.validation s!"Invalid role: {role}").withField "role" .invalid)
  let target ← okOr (t.user userId) (.notFound s!"User {userId} not found")
  ensure (!((newRole == .admin || target.isAdmin) && !actor.access.isOwner))
    (.forbidden "Only an owner can change an owner")
  ensure (!(newRole != .admin && t.primaryUserId == some userId))
    (.forbidden "The primary admin's role cannot be changed")
  ensure (!(newRole == .member && target.isAdmin && decide (t.adminCount ≤ 1)))
    ((AppError.conflict "Cannot demote the last admin").withField "role" .invalid)
  return t.setUserRole userId newRole

/-! ## Projects -/

/-- `ProjectService::create`, as far as the tables here: the new project takes the
next id of the sequence.  `accepted` is its verdict on the name, the slug and the
platform, which say nothing about who may do what. -/
def insertProject (t : Tables) (accepted : AppResult Unit) : AppResult (Tables × Int) := do
  accepted
  let id := t.nextProjectId
  return ({ t with projects := t.projects ++ [id], nextProjectId := id + 1 }, id)

/-- Creates a project.  The creator's own roles extend to it, unless they already
reach every project. -/
def createProject (t : Tables) (actor : ApiActor) (accepted : AppResult Unit) :
    AppResult Tables := do
  actor.require .projects .create none
  ensure (actor.access.visibleProjects != .only [])
    (.forbidden "Creating a project also requires a project permission")
  let (t, id) ← insertProject t accepted
  match actor.userId, actor.access.visibleProjects with
  | some uid, .only _ => RoleService.extendToProject t uid id
  | _, _ => return t

/-! ## One request -/

inductive Request
  | createRole (body : RoleInput)
  | updateRole (id : Int) (body : RoleInput)
  | deleteRole (id : Int)
  | setAssignments (userId : Int) (body : SetAccess)
  | upsertMember (projectId : Int) (body : SetProjectMember)
  | removeMember (projectId userId : Int)
  | updateTeamRole (userId : Int) (role : String)
  | createProject (accepted : AppResult Unit)

def Request.handle (t : Tables) (actor : ApiActor) : Request → AppResult Tables
  | .createRole body => Auth.createRole t actor body
  | .updateRole id body => Auth.updateRole t actor id body
  | .deleteRole id => Auth.deleteRole t actor id
  | .setAssignments userId body => Auth.setAssignments t actor userId body
  | .upsertMember projectId body => Auth.upsertMember t actor projectId body
  | .removeMember projectId userId => Auth.removeMember t actor projectId userId
  | .updateTeamRole userId role => Auth.updateTeamRole t actor userId role
  | .createProject accepted => Auth.createProject t actor accepted

/-- A request and how it authenticates. -/
structure Call where
  credential : Credential
  request : Request

def Call.handle (t : Tables) (call : Call) : AppResult Tables := do
  let actor ← call.credential.actor t
  call.request.handle t actor

/-- The tables after a request: unchanged when it is refused. -/
def respond (t : Tables) (call : Call) : Tables :=
  match call.handle t with
  | .ok t' => t'
  | .error _ => t

end Rustrak.Auth
