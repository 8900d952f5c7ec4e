import Rustrak.Auth.Requests
import Rustrak.Transition.Run

/-!
# Requests on accounts, statement by statement

The handlers of `routes/team.rs` that change an account, and the SSO logins of
`UsersService`.  A handler reads several times before its one write, and other
requests come in between, so a request here is where it has come to (`AccountCall`).
The transactions of the service are one step each.

`Rustrak.Auth.Requests` has `update_team_role` as a whole.
-/

namespace Rustrak.Auth

open Rustrak.Core

structure Account where
  id : Int
  email : String
  isActive : Bool
  role : String
  deriving DecidableEq, Repr

def Account.isAdmin (user : Account) : Bool := user.role == "admin"

/-- `User::normalize_email`. -/
def normalizeEmail (email : String) : String := (trim email).toLower

structure OidcLink where
  userId : Int
  issuer : String
  subject : String
  deriving DecidableEq, Repr

/-- The tables; the next user gets `nextId`, or a greater id. -/
structure Accounts where
  users : List Account
  identities : List OidcLink
  nextId : Int
  deriving DecidableEq, Repr

structure OidcIdentity where
  issuer : String
  subject : String
  email : String
  emailVerified : Bool
  groups : List String
  deriving DecidableEq, Repr

/-- What an SSO login may do with an identity that is not linked to an account yet. -/
structure OidcLinkPolicy where
  autoProvision : Bool
  linkExistingAccounts : Bool
  /-- Groups that grant the global `admin` role.  Empty leaves roles alone. -/
  adminGroups : List String
  deriving DecidableEq, Repr

namespace OidcLinkPolicy

variable (policy : OidcLinkPolicy)

/-- The identity's groups that are admin groups right now. -/
def matchedAdminGroups (groups : List String) : List String :=
  policy.adminGroups.filter fun admin => groups.contains admin

def roleFromMatched (matched : List String) : Option UserRole :=
  if policy.adminGroups = [] then none
  else if matched.any fun group => policy.adminGroups.contains group then some .admin
  else some .member

def roleFor (groups : List String) : Option UserRole :=
  policy.roleFromMatched (policy.matchedAdminGroups groups)

end OidcLinkPolicy

/-- What a request answers with. -/
inductive Answer
  | noContent
  | signedIn (user : Account)
  | confirmWithPassword (user : Account)
  deriving DecidableEq, Repr

/-! ## The service -/

namespace Accounts

variable (lower : String → String) (a : Accounts)

def user (userId : Int) : Option Account := a.users.find? fun u => u.id == userId

/-- `primary_user_id`: the lowest id. -/
def primaryUserId : Option Int := (a.users.map Account.id).min?

/-- `admin_count`: active owners. -/
def adminCount : Nat := a.users.countP fun u => u.isAdmin && u.isActive

/-- `UPDATE users SET role = $1 WHERE id = $2`. -/
def setRole (userId : Int) (role : UserRole) : Accounts :=
  { a with users := a.users.map fun u =>
      if u.id == userId then { u with role := role.asStr } else u }

/-- `update_role`. -/
def updateRole (userId : Int) (role : UserRole) : AppResult Accounts := do
  ensure (a.user userId).isSome (.notFound s!"User {userId} not found")
  return a.setRole userId role

/-- `delete`; the identities go with their user. -/
def delete (userId : Int) : AppResult Accounts := do
  ensure (a.user userId).isSome (.notFound s!"User {userId} not found")
  return { a with
    users := a.users.filter fun u => u.id != userId
    identities := a.identities.filter fun link => link.userId != userId }

/-- `create_user_with_password_hash`. -/
def createUser (email : String) (role : UserRole) : AppResult (Accounts × Account) := do
  let email := normalizeEmail email
  ensure (!(a.users.map Account.email).contains email) (.validation "Email already exists")
  let user : Account := ⟨a.nextId, email, true, role.asStr⟩
  return ({ a with users := a.users ++ [user], nextId := a.nextId + 1 }, user)

/-- `apply_sso_role`, for a user as they were read.  The primary account is not demoted. -/
def applySsoRole (user : Account) (role : Option UserRole) : Accounts × Account :=
  match role with
  | none => (a, user)
  | some role =>
      if user.role = role.asStr then (a, user)
      else if a.primaryUserId = some user.id ∧ user.isAdmin ∧ role = .member then (a, user)
      else (a.setRole user.id role, { user with role := role.asStr })

def byOidcIdentity (issuer subject : String) : Option Account :=
  (a.identities.find? fun link => link.issuer = issuer && link.subject = subject).bind fun link =>
    a.user link.userId

/-- The row of an identity, unless it is linked already; its user has to exist. -/
def linkIdentity (userId : Int) (identity : OidcIdentity) : AppResult (Option Accounts) := do
  ensure (a.user userId).isSome (.internal "Failed to link SSO identity")
  if a.identities.any fun link =>
      link.issuer = identity.issuer && link.subject = identity.subject then
    return none
  else return some { a with
    identities := a.identities ++ [⟨userId, identity.issuer, identity.subject⟩] }

/-- The accounts with an email, an exact match first and then the oldest; `lower` is the
database's. -/
def candidates (email : String) : List Account :=
  let found := a.users.filter fun u => lower u.email = lower (normalizeEmail email)
  let byAge := found.mergeSort fun u v => u.id ≤ v.id
  byAge.filter (fun u => u.email = trim email) ++ byAge.filter (fun u => u.email != trim email)

/-- The account that a first login lands on: an existing one, or a new one. -/
def provisioned (identity : OidcIdentity) (policy : OidcLinkPolicy) :
    AppResult (Accounts × Account ⊕ Account) :=
  match a.candidates lower identity.email with
  | existing :: others =>
      if others ≠ [] ∧ existing.email ≠ trim identity.email then
        .error (.forbidden ("Multiple legacy accounts match this email address; exact case match " ++
          "required to link SSO identity"))
      else if !existing.isActive then .error (.unauthorized "Account is disabled")
      -- Otherwise the owner confirms.
      else if !policy.linkExistingAccounts || !identity.emailVerified then .ok (.inr existing)
      else .ok (.inl (a, existing))
  | [] =>
      if policy.autoProvision then do
        -- The first account on an installation still bootstraps as admin.
        let role := if a.users = [] then .admin
          else (policy.roleFor identity.groups).getD .member
        return .inl (← a.createUser identity.email role)
      else .error (.forbidden "No Rustrak account is linked to this SSO identity")

/-- The transaction of a first login in `find_or_provision_oidc`, and its answer.  An identity
that was linked meanwhile rolls it back. -/
def provisionOidc (identity : OidcIdentity) (policy : OidcLinkPolicy) :
    AppResult (Accounts × Answer) := do
  match ← a.provisioned lower identity policy with
  | .inr existing => return (a, .confirmWithPassword existing)
  | .inl (created, user) =>
      let (assigned, user) := created.applySsoRole user (policy.roleFor identity.groups)
      match ← assigned.linkIdentity user.id identity with
      | some linked => return (linked, .signedIn user)
      | none =>
          let winner ← okOr (a.byOidcIdentity identity.issuer identity.subject)
            (.internal "Failed to resolve SSO identity")
          return (a, .signedIn winner)

/-- The transaction of `confirm_oidc_link`, and its answer. -/
def confirmOidc (user : Account) (identity : OidcIdentity) (role : Option UserRole) :
    AppResult (Accounts × Answer) := do
  match ← a.linkIdentity user.id identity with
  | some linked =>
      let (assigned, user) := linked.applySsoRole user role
      return (assigned, .signedIn user)
  | none =>
      -- Linked meanwhile; only the same account may carry on.
      let owner ← okOr (a.byOidcIdentity identity.issuer identity.subject)
        (.internal "Failed to resolve SSO identity")
      ensure (owner.id == user.id)
        (.conflict "This SSO identity is already linked to another account")
      return (a, .signedIn user)

end Accounts

/-! ## Requests under way -/

/-- A request, and what it has read. -/
inductive AccountCall
  | updateTeamRole (actor : ApiActor) (userId : Int) (role : String)
  /-- Has read the target; reads the primary id next. -/
  | updateTarget (actor : ApiActor) (userId : Int) (newRole : UserRole) (target : Account)
  /-- Reads the number of admins next. -/
  | updateGuarded (userId : Int) (newRole : UserRole) (target : Account)
  | updateWrite (userId : Int) (newRole : UserRole)
  | deleteUser (actor : ApiActor) (userId : Int)
  /-- Has read the primary id; reads the target next. -/
  | deleteGuarded (actor : ApiActor) (userId : Int)
  /-- Reads the number of admins next. -/
  | deleteTarget (userId : Int)
  | deleteWrite (userId : Int)
  | ssoLogin (identity : OidcIdentity) (policy : OidcLinkPolicy)
  /-- The identity is linked to a user; brings the role in line. -/
  | ssoTouch (user : Account) (role : Option UserRole)
  | ssoProvision (identity : OidcIdentity) (policy : OidcLinkPolicy)
  /-- `matches` is whether the password is that of the account. -/
  | confirmLink (identity : OidcIdentity) (userId : Int) (passwordMatches : Bool)
      (role : Option UserRole)
  | confirmWrite (user : Account) (identity : OidcIdentity) (role : Option UserRole)
  | createUser (email : String) (role : UserRole)
  | answered (answer : AppResult Answer)

/-- A write, and the answer to it. -/
def Accounts.settle (a : Accounts) : AppResult (Accounts × Answer) → Accounts × AccountCall
  | .ok (written, answer) => (written, .answered (.ok answer))
  | .error e => (a, .answered (.error e))

/-- A read, and where the request goes on. -/
def Accounts.proceed (a : Accounts) : AppResult AccountCall → Accounts × AccountCall
  | .ok next => (a, next)
  | .error e => (a, .answered (.error e))

/-- The next step of a request. -/
def Accounts.advance (lower : String → String) (a : Accounts) : AccountCall → Accounts × AccountCall
  | .updateTeamRole actor userId role => a.proceed do
      actor.require .users .update none
      let newRole ← okOr (UserRole.parse role)
        ((AppError.validation s!"Invalid role: {role}").withField "role" .invalid)
      let target ← okOr (a.user userId) (.notFound s!"User {userId} not found")
      return .updateTarget actor userId newRole target
  | .updateTarget actor userId newRole target => a.proceed do
      ensure (!((newRole == .admin || target.isAdmin) && !actor.access.isOwner))
        (.forbidden "Only an owner can change an owner")
      ensure (!(newRole != .admin && a.primaryUserId == some userId))
        (.forbidden "The primary admin's role cannot be changed")
      return .updateGuarded userId newRole target
  | .updateGuarded userId newRole target => a.proceed do
      ensure (!(newRole == .member && target.isAdmin && decide (a.adminCount ≤ 1)))
        ((AppError.conflict "Cannot demote the last admin").withField "role" .invalid)
      return .updateWrite userId newRole
  | .updateWrite userId newRole => a.settle do
      return (← a.updateRole userId newRole, .noContent)
  | .deleteUser actor userId => a.proceed do
      actor.require .users .delete none
      ensure (actor.userId != some userId) (.forbidden "You cannot delete your own account")
      ensure (a.primaryUserId != some userId) (.forbidden "The primary admin cannot be deleted")
      return .deleteGuarded actor userId
  | .deleteGuarded actor userId => a.proceed do
      let target ← okOr (a.user userId) (.notFound s!"User {userId} not found")
      ensure (!(target.isAdmin && !actor.access.isOwner))
        (.forbidden "Only an owner can delete an owner")
      return if target.isAdmin then .deleteTarget userId else .deleteWrite userId
  | .deleteTarget userId => a.proceed do
      ensure (!decide (a.adminCount ≤ 1)) (.conflict "Cannot delete the last admin")
      return .deleteWrite userId
  | .deleteWrite userId => a.settle do
      return (← a.delete userId, .noContent)
  | .ssoLogin identity policy =>
      match a.byOidcIdentity identity.issuer identity.subject with
      | some user => a.proceed do
          ensure user.isActive (.unauthorized "Account is disabled")
          return .ssoTouch user (policy.roleFor identity.groups)
      | none => (a, .ssoProvision identity policy)
  | .ssoTouch user role =>
      let (assigned, user) := a.applySsoRole user role
      (assigned, .answered (.ok (.signedIn user)))
  | .ssoProvision identity policy => a.settle (a.provisionOidc lower identity policy)
  | .confirmLink identity userId passwordMatches role => a.proceed do
      let user ← okOr (a.user userId) (.unauthorized "Invalid credentials")
      ensure user.isActive (.unauthorized "Account is disabled")
      ensure passwordMatches (.unauthorized "Invalid credentials")
      return .confirmWrite user identity role
  | .confirmWrite user identity role => a.settle (a.confirmOidc user identity role)
  | .createUser email role => a.settle do
      let (created, user) ← a.createUser email role
      return (created, .signedIn user)
  | .answered answer => (a, .answered answer)

/-- The accounts, and the requests under way. -/
structure Instance where
  accounts : Accounts
  calls : List AccountCall

inductive AccountLabel
  /-- A request comes in. -/
  | receive (call : AccountCall)
  | advance (call : Nat)

/-- How a request begins. -/
def AccountCall.IsRequest : AccountCall → Prop
  | .updateTeamRole _ _ _ | .deleteUser _ _ | .ssoLogin _ _ | .confirmLink _ _ _ _
  | .createUser _ _ => True
  | _ => False

inductive AccountSteps (lower : String → String) : Instance → AccountLabel → Instance → Prop
  | receive {s : Instance} {call : AccountCall} : call.IsRequest →
      AccountSteps lower s (.receive call) { s with calls := s.calls ++ [call] }
  | advance {s : Instance} {i : Nat} {call : AccountCall} : s.calls[i]? = some call →
      AccountSteps lower s (.advance i)
        ⟨(s.accounts.advance lower call).1, s.calls.set i (s.accounts.advance lower call).2⟩

end Rustrak.Auth
