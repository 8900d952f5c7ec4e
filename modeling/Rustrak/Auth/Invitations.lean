import Rustrak.Auth.Accounts

/-!
# Invitations, statement by statement

`InvitationService` and the handlers of `routes/invitations.rs`, with the acceptance of
`routes/auth.rs`.  An invitation hands out an account, the global role that goes with it, and
possibly a role of the list.  A handler reads several times before its one write, and other
requests come in between, so a request here is where it has come to (`InvitationCall`).

`created` and `accepted` are the history of what was written, and on whose behalf.  Random
tokens are new; what a step takes from the clock, the generator and the mail server is its
`Draw`.
-/

namespace Rustrak.Auth

open Rustrak.Core Rustrak.Transition

inductive InvitationStatus
  | pending
  | accepted
  | revoked
  /-- Anything else; never acceptable. -/
  | unknown
  deriving DecidableEq, Repr

def InvitationStatus.asStr : InvitationStatus → String
  | .pending => "pending"
  | .accepted => "accepted"
  | .revoked => "revoked"
  | .unknown => "unknown"

def InvitationStatus.fromDb (s : String) : InvitationStatus :=
  if s = "pending" then .pending
  else if s = "accepted" then .accepted
  else if s = "revoked" then .revoked
  else .unknown

structure Invitation where
  id : String
  token : String
  email : String
  role : String
  status : String
  expiresAt : Int
  invitedBy : Option Int
  createdAt : Int
  acceptedAt : Option Int
  /-- When the email was last handed to the mail server. -/
  emailSentAt : Option Int
  /-- A role the new user holds once they accept. -/
  roleId : Option Int
  /-- Where `roleId` applies; `none` is the whole instance. -/
  projectId : Option Int
  deriving DecidableEq, Repr

/-- Usable only while pending and unexpired. -/
def Invitation.isAcceptable (i : Invitation) (now : Int) : Bool :=
  InvitationStatus.fromDb i.status == .pending && decide (now < i.expiresAt)

/-- `INVITATION_TTL_HOURS`, in nanoseconds. -/
def invitationTtl : Int := 48 * 3600 * 1000000000

structure CreateInvitation where
  email : String
  role : String
  sendEmail : Bool
  roleId : Option Int
  projectId : Option Int
  deriving DecidableEq, Repr

def UserRole.fromDb (s : String) : UserRole := if s = "admin" then .admin else .member

def isValidEmail (email : String) : Bool :=
  match email.toList.splitOn '@' with
  | [loc, domain] =>
      let parts := domain.splitOn '.'
      !loc.isEmpty && (loc.map Char.utf8Size).sum ≤ 64 &&
        (!domain.isEmpty && (domain.map Char.utf8Size).sum ≤ 255) && domain.contains '.' &&
        !(domain.head? == some '.' || domain.getLast? == some '.') &&
        parts.all (fun part => !part.isEmpty) &&
        parts.getLast?.all fun tld => 2 ≤ (tld.map Char.utf8Size).sum
  | _ => false

/-! ## The tables -/

/-- An invitation as it was inserted, and what its inviter was checked against: their access
as `asked` had it, and the role as `looked` had it. -/
structure Invite where
  credential : Credential
  asked : Tables
  actor : ApiActor
  looked : Tables
  row : Invitation

/-- An account that an invitation made; `readAt` is when the invitation was found acceptable. -/
structure Acceptance where
  token : String
  readAt : Int
  user : Account
  assignment : Option AssignmentRow
  deriving DecidableEq, Repr

structure Directory where
  accounts : Accounts
  projects : List Int
  roles : List RoleRow
  permissions : List PermissionRow
  assignments : List AssignmentRow
  invitations : List Invitation
  nextRoleId : Int
  nextProjectId : Int
  created : List Invite
  accepted : List Acceptance

namespace Directory

/-- The tables as `RoleService` and the extractors read them. -/
def tables (d : Directory) : Tables where
  users := d.accounts.users.map fun u => ⟨u.id, u.isActive, u.role⟩
  projects := d.projects
  roles := d.roles
  permissions := d.permissions
  assignments := d.assignments
  invitations := d.invitations.map fun i => ⟨i.roleId, i.status⟩
  nextRoleId := d.nextRoleId
  nextProjectId := d.nextProjectId

/-- Whether an account has an email; `lower` is the database's. -/
def emailTaken (lower : String → String) (d : Directory) (email : String) : Bool :=
  d.accounts.users.any fun u => lower u.email = lower email

def get (d : Directory) (token : String) : Option Invitation :=
  d.invitations.find? fun i => i.token == token

def getById (d : Directory) (id : String) : Option Invitation :=
  d.invitations.find? fun i => i.id == id

def pendingForEmail (lower : String → String) (d : Directory) (email : String) :
    Option Invitation :=
  d.invitations.find? fun i => lower i.email = lower email && i.status == "pending"

def setInvitations (d : Directory) (f : Invitation → Invitation) : Directory :=
  { d with invitations := d.invitations.map f }

end Directory

/-! ## The checks of the handlers -/

/-- What `create_invitation` asks of the inviter and the tables before it hands the input to
the service. -/
def mayInvite (t : Tables) (actor : ApiActor) (role : String) (roleId projectId : Option Int) :
    AppResult UserRow := do
  actor.require .invitations .create none
  let inviter ← okOr actor.user (.forbidden "This action requires a user account")
  -- An invitation hands out access: never beyond the inviter's own.
  ensure (!(role == "admin" && !actor.access.isOwner))
    (.forbidden "Only an owner can invite an owner")
  match roleId with
  | none => return inviter
  | some id => do
      let role ← okOr ((RoleService.list t).find? fun r => r.id == id)
        ((AppError.validation s!"Unknown role {id}").withField "role_id" .invalid)
      ensure (actor.access.covers role.grants projectId)
        (.forbidden "You cannot grant permissions you do not hold")
      return inviter

/-- A token claims the invitation's account, so it only reaches who could have created this same
invitation. -/
def mayHoldToken (actor : ApiActor) (roles : List Role) (invitation : Invitation) : Bool :=
  actor.access.can .invitations .create none &&
    (invitation.role != "admin" || actor.access.isOwner) &&
    invitation.roleId.all fun id =>
      ((roles.find? fun r => r.id == id).any fun r =>
        actor.access.covers r.grants invitation.projectId)

def emailNotConfigured : String :=
  "Invitation emails need an enabled email integration or SMTP_HOST, and DASHBOARD_URL or " ++
  "PUBLIC_URL for the link"

/-- What `InvitationService::create` asks of the input itself, and the email it is for. -/
def checkInvitation (input : CreateInvitation) : AppResult (UserRole × String) := do
  let role ← okOr (UserRole.parse input.role) (.validation s!"Invalid role: {input.role}")
  ensure (!(input.projectId.isSome && input.roleId.isNone))
    ((AppError.validation "A project needs a role to give on it").withField "role_id" .required)
  let email := normalizeEmail input.email
  ensure (isValidEmail email) (.validation "Invalid email format")
  return (role, email)

/-! ## Requests under way -/

/-- What a step takes from outside the database. -/
structure Draw where
  now : Int
  id : String
  token : String
  /-- Whether invitation emails are configured. -/
  mailer : Bool
  /-- Why the mail server refused the email, if it did. -/
  smtpError : Option String

/-- An invitation about to be inserted, and what was checked for it. -/
structure Draft where
  credential : Credential
  asked : Tables
  actor : ApiActor
  looked : Tables
  inviter : UserRow
  input : CreateInvitation
  role : UserRole
  email : String

inductive InvitationReply
  | created (invitation : Invitation)
  | sent (invitation : Invitation)
  | accepted (user : Account)
  | noContent

/-- A request, and what it has read. -/
inductive InvitationCall
  | create (credential : Credential) (asked : Tables) (actor : ApiActor)
      (input : CreateInvitation)
  /-- Looks for an account with the email next. -/
  | createChecked (draft : Draft)
  /-- Looks for a pending invitation next. -/
  | createUnclaimed (draft : Draft)
  | createWrite (draft : Draft)
  /-- Emails the link of a new invitation. -/
  | createDeliver (invitation : Invitation)
  | resend (actor : ApiActor) (id : String)
  /-- Reads the roles next. -/
  | resendRead (actor : ApiActor) (invitation : Invitation)
  | resendDeliver (invitation : Invitation)
  | accept (token password : String)
  /-- Looks for an account with the email next. -/
  | acceptRead (invitation : Invitation) (readAt : Int)
  | acceptWrite (invitation : Invitation) (readAt : Int)
  | revoke (actor : ApiActor) (id : String)
  | answered (answer : AppResult InvitationReply)

/-- The row that `create` inserts. -/
def Draft.row (draft : Draft) (draw : Draw) : Invitation where
  id := draw.id
  token := draw.token
  email := draft.email
  role := draft.role.asStr
  status := "pending"
  expiresAt := draw.now + invitationTtl
  invitedBy := some draft.inviter.id
  createdAt := draw.now
  acceptedAt := none
  emailSentAt := none
  roleId := draft.input.roleId
  projectId := draft.input.projectId

/-! The updates of single invitations. -/

/-- The update of `mark_email_sent`. -/
def Invitation.stamp (token : String) (now : Int) (i : Invitation) : Invitation :=
  if i.token == token then { i with emailSentAt := some now } else i

/-- The update of `revoke`. -/
def Invitation.revoke (id : String) (i : Invitation) : Invitation :=
  if i.id == id && i.status == "pending" then { i with status := "revoked" } else i

/-- `ON DELETE SET NULL` of the inviter. -/
def Invitation.forgetInviter (userId : Int) (i : Invitation) : Invitation :=
  { i with invitedBy := i.invitedBy.filter fun id => id != userId }

/-- `ON DELETE SET NULL` of the role. -/
def Invitation.forgetRole (roleId : Int) (i : Invitation) : Invitation :=
  { i with roleId := i.roleId.filter fun id => id != roleId }

/-- The update of `accept`. -/
def Invitation.consume (token : String) (now : Int) (i : Invitation) : Invitation :=
  if i.token == token && i.status == "pending" then
    { i with status := "accepted", acceptedAt := some now }
  else i

def usedUp : AppError := .validation "Invitation is expired or already used"

namespace Directory

variable (d : Directory)

/-- The insert of `create`; its user, its role and its project have to exist. -/
def insertInvitation (draft : Draft) (draw : Draw) : AppResult Directory := do
  let row := draft.row draw
  ensure ((d.accounts.user draft.inviter.id).isSome &&
      (row.roleId.all fun id => d.tables.hasRole id) &&
      row.projectId.all fun id => d.projects.contains id)
    (.database .foreignKeyViolation)
  return { d with
    invitations := d.invitations ++ [row]
    created := d.created ++ [⟨draft.credential, draft.asked, draft.actor, draft.looked, row⟩] }

/-- The transaction of `accept`.  The update takes the invitation only while it is pending. -/
def acceptInvitation (invitation : Invitation) (readAt now : Int) :
    AppResult (Directory × Account) := do
  let (accounts, user) ← d.accounts.createUser invitation.email (UserRole.fromDb invitation.role)
  let assignment := invitation.roleId.map fun roleId =>
    (⟨user.id, roleId, invitation.projectId⟩ : AssignmentRow)
  ensure (assignment.all fun a =>
      d.tables.hasRole a.roleId && a.projectId.all fun id => d.projects.contains id)
    (.database .foreignKeyViolation)
  ensure (d.invitations.any fun i => i.token == invitation.token && i.status == "pending") usedUp
  return ({ d with
    accounts
    assignments := d.assignments ++ assignment.toList
    invitations := d.invitations.map (Invitation.consume invitation.token now)
    accepted := d.accepted ++ [⟨invitation.token, readAt, user, assignment⟩] }, user)

/-- `revoke`. -/
def revokeInvitation (id : String) : AppResult Directory := do
  ensure (d.invitations.any fun i => i.id == id && i.status == "pending")
    (.notFound "Pending invitation not found")
  return d.setInvitations (Invitation.revoke id)

/-- `mark_email_sent`. -/
def markEmailSent (token : String) (now : Int) : Directory :=
  d.setInvitations (Invitation.stamp token now)

/-- A read, and where the request goes on. -/
def goOn : AppResult InvitationCall → Directory × InvitationCall
  | .ok next => (d, next)
  | .error e => (d, .answered (.error e))

/-- A write, and where the request goes on. -/
def write : AppResult (Directory × InvitationCall) → Directory × InvitationCall
  | .ok written => written
  | .error e => (d, .answered (.error e))

/-- The next step of a request. -/
def advance (lower : String → String) (draw : Draw) : InvitationCall → Directory × InvitationCall
  | .create credential asked actor input => d.goOn do
      let inviter ← mayInvite d.tables actor input.role input.roleId input.projectId
      ensure (!input.sendEmail || draw.mailer)
        ((AppError.validation emailNotConfigured).withField "send_email" .invalid)
      let (role, email) ← checkInvitation input
      return .createChecked ⟨credential, asked, actor, d.tables, inviter, input, role, email⟩
  | .createChecked draft => d.goOn do
      ensure (!d.emailTaken lower draft.email)
        ((AppError.conflict "A user with that email already exists").withField "email"
          .alreadyExists)
      return .createUnclaimed draft
  | .createUnclaimed draft => d.goOn do
      ensure (d.pendingForEmail lower draft.email).isNone
        ((AppError.conflict "A pending invitation for that email already exists").withField
          "email" .alreadyExists)
      return .createWrite draft
  | .createWrite draft => d.write do
      let written ← d.insertInvitation draft draw
      return (written, if draft.input.sendEmail then .createDeliver (draft.row draw)
        else .answered (.ok (.created (draft.row draw))))
  -- A failed email still leaves an invitation to share by hand.
  | .createDeliver invitation =>
      match draw.smtpError with
      | some _ => (d, .answered (.ok (.created invitation)))
      | none => (d.markEmailSent invitation.token draw.now,
          .answered (.ok (.created { invitation with emailSentAt := some draw.now })))
  | .resend actor id => d.goOn do
      actor.require .invitations .create none
      let _ ← okOr actor.user (.forbidden "This action requires a user account")
      let invitation ← okOr (d.getById id) (.notFound "Invitation not found")
      return .resendRead actor invitation
  | .resendRead actor invitation => d.goOn do
      ensure (mayHoldToken actor (RoleService.listAll d.tables) invitation)
        (.forbidden "You cannot resend an invitation you could not create")
      ensure (invitation.isAcceptable draw.now) usedUp
      ensure draw.mailer (.validation emailNotConfigured)
      return .resendDeliver invitation
  | .resendDeliver invitation =>
      match draw.smtpError with
      | some e => (d, .answered (.error (.internal s!"Failed to send invitation email: {e}")))
      | none => (d.markEmailSent invitation.token draw.now,
          .answered (.ok (.sent { invitation with emailSentAt := some draw.now })))
  | .accept token password => d.goOn do
      let invitation ← okOr (d.get token) (.validation "Invalid invitation token")
      ensure (invitation.isAcceptable draw.now) usedUp
      ensure (password != "") (.validation "Password is required")
      return .acceptRead invitation draw.now
  | .acceptRead invitation readAt => d.goOn do
      ensure (!d.emailTaken lower invitation.email)
        (.conflict "A user with that email already exists")
      return .acceptWrite invitation readAt
  | .acceptWrite invitation readAt => d.write do
      let (written, user) ← d.acceptInvitation invitation readAt draw.now
      return (written, .answered (.ok (.accepted user)))
  | .revoke actor id => d.write do
      actor.require .invitations .delete none
      let written ← d.revokeInvitation id
      return (written, .answered (.ok .noContent))
  | .answered answer => (d, .answered answer)

/-- `DELETE FROM users`. -/
def deleteUser (userId : Int) : AppResult Directory := do
  let accounts ← d.accounts.delete userId
  let personal := (d.roles.filter fun r => r.userId == some userId).map RoleRow.id
  return { d with
    accounts
    assignments := d.assignments.filter fun a => a.userId != userId
    roles := d.roles.filter fun r => r.userId != some userId
    permissions := d.permissions.filter fun row => !personal.contains row.roleId
    invitations := d.invitations.map (Invitation.forgetInviter userId) }

/-- `DELETE FROM roles`, of a role that nobody is assigned to. -/
def deleteRole (roleId : Int) : AppResult Directory := do
  ensure (!d.assignments.any fun a => a.roleId == roleId) (.database .foreignKeyViolation)
  return { d with
    roles := d.roles.filter fun r => r.id != roleId
    permissions := d.permissions.filter fun row => row.roleId != roleId
    invitations := d.invitations.map (Invitation.forgetRole roleId) }

/-- `DELETE FROM projects`. -/
def deleteProject (projectId : Int) : Directory :=
  { d with
    projects := d.projects.filter fun id => id != projectId
    assignments := d.assignments.filter fun a => a.projectId != some projectId
    invitations := d.invitations.filter fun i => i.projectId != some projectId }

end Directory

/-! ## The system -/

/-- The tables, and the requests under way. -/
structure Invitations where
  directory : Directory
  calls : List InvitationCall

inductive InvitationLabel
  | invite (credential : Credential) (input : CreateInvitation)
  | resend (credential : Credential) (id : String)
  | revoke (credential : Credential) (id : String)
  | accept (token password : String)
  | advance (call : Nat) (draw : Draw)
  | deleteUser (userId : Int)
  | deleteRole (roleId : Int)
  | deleteProject (projectId : Int)
  | other

/-- What other requests may do with the table of roles: add to it and rename, but an id keeps
standing for a role of the list, or for one person's. -/
structure RolesGoOn (d : Directory) (roles : List RoleRow) (nextRoleId : Int) : Prop where
  ids : (roles.map RoleRow.id).Nodup
  bound : ∀ r ∈ roles, r.id < nextRoleId
  later : d.nextRoleId ≤ nextRoleId
  kept : ∀ r ∈ d.roles, ∃ r' ∈ roles, r'.id = r.id ∧ r'.userId = r.userId
  known : ∀ r' ∈ roles, (∃ r ∈ d.roles, r.id = r'.id ∧ r.userId = r'.userId) ∨
    d.nextRoleId ≤ r'.id

inductive InvitationSteps (lower : String → String) :
    Invitations → InvitationLabel → Invitations → Prop
  | invite {s : Invitations} {credential : Credential} {actor : ApiActor}
      {input : CreateInvitation} : credential.actor s.directory.tables = .ok actor →
      InvitationSteps lower s (.invite credential input)
        { s with calls := s.calls ++ [.create credential s.directory.tables actor input] }
  | resend {s : Invitations} {credential : Credential} {actor : ApiActor} {id : String} :
      credential.actor s.directory.tables = .ok actor →
      InvitationSteps lower s (.resend credential id)
        { s with calls := s.calls ++ [.resend actor id] }
  | revoke {s : Invitations} {credential : Credential} {actor : ApiActor} {id : String} :
      credential.actor s.directory.tables = .ok actor →
      InvitationSteps lower s (.revoke credential id)
        { s with calls := s.calls ++ [.revoke actor id] }
  | accept (s : Invitations) (token password : String) :
      InvitationSteps lower s (.accept token password)
        { s with calls := s.calls ++ [.accept token password] }
  | advance {s : Invitations} {i : Nat} {draw : Draw} {call : InvitationCall} :
      s.calls[i]? = some call →
      (∀ c ∈ s.directory.created, c.row.token ≠ draw.token ∧ c.row.id ≠ draw.id) →
      InvitationSteps lower s (.advance i draw)
        ⟨(s.directory.advance lower draw call).1,
          s.calls.set i (s.directory.advance lower draw call).2⟩
  | deleteUser {s : Invitations} {userId : Int} {d : Directory} :
      s.directory.deleteUser userId = .ok d →
      InvitationSteps lower s (.deleteUser userId) { s with directory := d }
  | deleteRole {s : Invitations} {roleId : Int} {d : Directory} :
      s.directory.deleteRole roleId = .ok d →
      InvitationSteps lower s (.deleteRole roleId) { s with directory := d }
  | deleteProject (s : Invitations) (projectId : Int) :
      InvitationSteps lower s (.deleteProject projectId)
        { s with directory := s.directory.deleteProject projectId }
  /-- Whatever else is done with the other tables. -/
  | other {s : Invitations} {roles : List RoleRow} {nextRoleId : Int} (accounts : Accounts)
      (projects : List Int) (permissions : List PermissionRow)
      (assignments : List AssignmentRow) (nextProjectId : Int) :
      RolesGoOn s.directory roles nextRoleId →
      InvitationSteps lower s .other
        { s with directory :=
          { s.directory with
            accounts, projects, roles, permissions, assignments, nextRoleId, nextProjectId } }

variable {lower : String → String} {d : Directory} {call : InvitationCall} {draw : Draw}

/-! ## What an invitation was created with -/

/-- What an invitation keeps of the row it was inserted as. -/
structure Invitation.Keeps (row i : Invitation) : Prop where
  token : i.token = row.token
  email : i.email = row.email
  role : i.role = row.role
  projectId : i.projectId = row.projectId
  expiresAt : i.expiresAt = row.expiresAt
  roleId : ∀ id, i.roleId = some id → row.roleId = some id

theorem Invitation.Keeps.refl (row : Invitation) : row.Keeps row :=
  ⟨rfl, rfl, rfl, rfl, rfl, fun _ h => h⟩

theorem Invitation.Keeps.trans {row i j : Invitation} (h : row.Keeps i) (h' : i.Keeps j) :
    row.Keeps j :=
  ⟨h'.token.trans h.token, h'.email.trans h.email, h'.role.trans h.role,
    h'.projectId.trans h.projectId, h'.expiresAt.trans h.expiresAt,
    fun id hid => h.roleId id (h'.roleId id hid)⟩

theorem Invitation.keeps_stamp (token : String) (now : Int) (i : Invitation) :
    i.Keeps (i.stamp token now) := by
  unfold Invitation.stamp
  split_ifs
  · exact ⟨rfl, rfl, rfl, rfl, rfl, fun _ hid => hid⟩
  · exact .refl i

theorem Invitation.keeps_revoke (id : String) (i : Invitation) : i.Keeps (i.revoke id) := by
  unfold Invitation.revoke
  split_ifs
  · exact ⟨rfl, rfl, rfl, rfl, rfl, fun _ hid => hid⟩
  · exact .refl i

theorem Invitation.keeps_forgetInviter (userId : Int) (i : Invitation) :
    i.Keeps (i.forgetInviter userId) :=
  ⟨rfl, rfl, rfl, rfl, rfl, fun _ hid => hid⟩

theorem Invitation.keeps_forgetRole (roleId : Int) (i : Invitation) :
    i.Keeps (i.forgetRole roleId) :=
  ⟨rfl, rfl, rfl, rfl, rfl, fun _ hid => (Option.filter_eq_some_iff.mp hid).1⟩

@[simp] theorem Invitation.status_stamp (token : String) (now : Int) (i : Invitation) :
    (i.stamp token now).status = i.status := by
  unfold Invitation.stamp
  split_ifs <;> rfl

theorem Invitation.status_revoke (id : String) (i : Invitation) :
    (i.revoke id).status = i.status ∨ i.status = "pending" ∧ (i.revoke id).status = "revoked" := by
  unfold Invitation.revoke
  split_ifs with hpending
  · exact .inr ⟨eq_of_beq (Bool.and_eq_true_iff.mp hpending).2, rfl⟩
  · exact .inl rfl

theorem Invitation.keeps_consume (token : String) (now : Int) (i : Invitation) :
    i.Keeps (i.consume token now) := by
  unfold Invitation.consume
  split_ifs
  · exact ⟨rfl, rfl, rfl, rfl, rfl, fun _ hid => hid⟩
  · exact .refl i

theorem Invitation.map_token {f : Invitation → Invitation}
    (hkeeps : ∀ i : Invitation, i.Keeps (f i)) {invitations : List Invitation} :
    (invitations.map f).map Invitation.token = invitations.map Invitation.token := by
  rw [List.map_map]
  exact List.map_congr_left fun i _ => (hkeeps i).token

/-- An invitation was created by a user who might create one at the time, and it hands out
nothing beyond what that user held. -/
structure Invite.Allowed (c : Invite) : Prop where
  actor : c.credential.actor c.asked = .ok c.actor
  inviter : ∃ inviter, c.actor.user = some inviter ∧ c.row.invitedBy = some inviter.id
  create : c.actor.access.can .invitations .create none = true
  owner : c.row.role = "admin" → c.actor.access.isOwner = true
  covers : ∀ id, c.row.roleId = some id → ∃ role ∈ RoleService.list c.looked, role.id = id ∧
    c.actor.access.covers role.grants c.row.projectId = true
  role : ∃ role : UserRole, c.row.role = role.asStr
  expires : c.row.expiresAt = c.row.createdAt + invitationTtl

/-- An account is as its invitation says, which was read in time. -/
structure Invite.Fulfilled (c : Invite) (m : Acceptance) : Prop where
  token : m.token = c.row.token
  email : m.user.email = normalizeEmail c.row.email
  role : m.user.role = c.row.role
  assignment : ∀ a, m.assignment = some a →
    a.userId = m.user.id ∧ c.row.roleId = some a.roleId ∧ a.projectId = c.row.projectId
  inTime : m.readAt < c.row.createdAt + invitationTtl

theorem UserRole.asStr_of_parse {s : String} {role : UserRole} (h : UserRole.parse s = some role) :
    role.asStr = s := by
  unfold UserRole.parse at h
  split_ifs at h with hadmin hmember
  · rw [← Option.some.inj h, hadmin, UserRole.asStr]
  · rw [← Option.some.inj h, hmember, UserRole.asStr]

theorem UserRole.asStr_fromDb (role : UserRole) :
    (UserRole.fromDb role.asStr).asStr = role.asStr := by
  cases role <;> rfl

theorem require_eq_ok {actor : ApiActor} {r : Resource} {a : Action} {u : Unit}
    (h : actor.require r a none = .ok u) : actor.access.can r a none = true :=
  ensure_eq_ok h

/-- What the checks of `create_invitation` come to. -/
theorem mayInvite_ok {t : Tables} {actor : ApiActor} {role : String} {roleId projectId : Option Int}
    {inviter : UserRow} (h : mayInvite t actor role roleId projectId = .ok inviter) :
    actor.access.can .invitations .create none = true ∧ actor.user = some inviter ∧
      (role = "admin" → actor.access.isOwner = true) ∧
      ∀ id, roleId = some id → ∃ r, (RoleService.list t).find? (fun r => r.id == id) = some r ∧
        actor.access.covers r.grants projectId = true := by
  obtain ⟨_, hrequire, h⟩ := bind_eq_ok h
  obtain ⟨user, huser, h⟩ := bind_eq_ok h
  obtain ⟨_, hadmin, h⟩ := bind_eq_ok h
  have howner : role = "admin" → actor.access.isOwner = true := by
    intro hrole
    have := ensure_eq_ok hadmin
    simpa [hrole] using this
  cases roleId with
  | none =>
      obtain rfl := Except.ok.inj h
      exact ⟨require_eq_ok hrequire, okOr_eq_ok huser, howner, fun id hid => nomatch hid⟩
  | some id =>
      obtain ⟨r, hr, h⟩ := bind_eq_ok h
      obtain ⟨_, hcovers, h⟩ := bind_eq_ok h
      obtain rfl := Except.ok.inj h
      refine ⟨require_eq_ok hrequire, okOr_eq_ok huser, howner, fun id' hid => ?_⟩
      obtain rfl := Option.some.inj hid
      exact ⟨r, okOr_eq_ok hr, ensure_eq_ok hcovers⟩

/-- What was checked before a draft came to be. -/
structure Draft.Checked (draft : Draft) : Prop where
  actor : draft.credential.actor draft.asked = .ok draft.actor
  may : mayInvite draft.looked draft.actor draft.input.role draft.input.roleId
    draft.input.projectId = .ok draft.inviter
  input : checkInvitation draft.input = .ok (draft.role, draft.email)

theorem Draft.Checked.asStr_role {draft : Draft} (h : draft.Checked) :
    draft.role.asStr = draft.input.role := by
  obtain ⟨role, hrole, hrest⟩ := bind_eq_ok h.input
  obtain ⟨_, -, hrest⟩ := bind_eq_ok hrest
  obtain ⟨_, -, hrest⟩ := bind_eq_ok hrest
  obtain rfl : role = draft.role := congrArg Prod.fst (Except.ok.inj hrest)
  exact UserRole.asStr_of_parse (okOr_eq_ok hrole)

theorem Draft.Checked.allowed {draft : Draft} (h : draft.Checked) (draw : Draw) :
    Invite.Allowed ⟨draft.credential, draft.asked, draft.actor, draft.looked, draft.row draw⟩ := by
  obtain ⟨hcreate, hinviter, howner, hcovers⟩ := mayInvite_ok h.may
  refine ⟨h.actor, ⟨draft.inviter, hinviter, rfl⟩, hcreate, ?_, ?_, ⟨draft.role, rfl⟩, rfl⟩
  · intro hrole
    exact howner (h.asStr_role ▸ hrole)
  · intro id hid
    obtain ⟨r, hr, hcovered⟩ := hcovers id hid
    have hsame : (r.id == id) = true := List.find?_some (p := fun r : Role => r.id == id) hr
    exact ⟨r, List.mem_of_find?_eq_some hr, eq_of_beq hsame, hcovered⟩

/-! ## What every state keeps -/

/-- Every invitation is one that was created, and every account one that an invitation made; an
invitation is accepted if it made one. -/
structure Directory.Kept (d : Directory) : Prop where
  rows : ∀ i ∈ d.invitations, ∃ c ∈ d.created, c.row.Keeps i
  tokens : (d.invitations.map Invitation.token).Nodup
  allowed : ∀ c ∈ d.created, c.Allowed
  fulfilled : ∀ m ∈ d.accepted, ∃ c ∈ d.created, c.Fulfilled m
  once : (d.accepted.map Acceptance.token).Nodup
  settled : ∀ i ∈ d.invitations, i.status = "accepted" ↔ i.token ∈ d.accepted.map Acceptance.token

/-- What a request has read was so when it was read. -/
def InvitationCall.Kept (d : Directory) : InvitationCall → Prop
  | .create credential asked actor _ => credential.actor asked = .ok actor
  | .createChecked draft | .createUnclaimed draft | .createWrite draft => draft.Checked
  | .acceptRead invitation readAt | .acceptWrite invitation readAt =>
      readAt < invitation.expiresAt ∧ ∃ c ∈ d.created, c.row.Keeps invitation
  | _ => True

theorem InvitationCall.Kept.mono {d' : Directory} (h : call.Kept d)
    (hcreated : ∀ c ∈ d.created, c ∈ d'.created) : call.Kept d' := by
  cases call with
  | acceptRead invitation readAt | acceptWrite invitation readAt =>
      obtain ⟨htime, c, hc, hkeeps⟩ := h
      exact ⟨htime, c, hcreated c hc, hkeeps⟩
  | _ => exact h

namespace Directory.Kept

/-- An update of the invitations that neither accepts one nor takes an acceptance back. -/
theorem setInvitations (h : d.Kept) {f : Invitation → Invitation}
    (hkeeps : ∀ i : Invitation, i.Keeps (f i))
    (hstatus : ∀ i, (f i).status = "accepted" ↔ i.status = "accepted") :
    (d.setInvitations f).Kept := by
  refine ⟨?_, (Invitation.map_token hkeeps).symm ▸ h.tokens, h.allowed, h.fulfilled, h.once, ?_⟩
  · intro j hj
    obtain ⟨i, hi, rfl⟩ := List.mem_map.mp hj
    obtain ⟨c, hc, hrow⟩ := h.rows i hi
    exact ⟨c, hc, hrow.trans (hkeeps i)⟩
  · intro j hj
    obtain ⟨i, hi, rfl⟩ := List.mem_map.mp hj
    rw [hstatus i, (hkeeps i).token]
    exact h.settled i hi

theorem insertInvitation (h : d.Kept) {draft : Draft} (hdraft : draft.Checked)
    (hfresh : ∀ c ∈ d.created, c.row.token ≠ draw.token) {d' : Directory}
    (hinsert : d.insertInvitation draft draw = .ok d') :
    d'.Kept ∧ ∀ c ∈ d.created, c ∈ d'.created := by
  obtain ⟨_, -, hinsert⟩ := bind_eq_ok hinsert
  obtain rfl := Except.ok.inj hinsert
  have hnew : ∀ i ∈ d.invitations, i.token ≠ draw.token := by
    intro i hi heq
    obtain ⟨c, hc, hrow⟩ := h.rows i hi
    exact hfresh c hc (hrow.token.symm.trans heq)
  refine ⟨⟨?_, ?_, ?_, ?_, h.once, ?_⟩, fun c hc => List.mem_append_left _ hc⟩
  · intro i hi
    rcases List.mem_append.mp hi with hold | hlast
    · obtain ⟨c, hc, hrow⟩ := h.rows i hold
      exact ⟨c, List.mem_append_left _ hc, hrow⟩
    · obtain rfl := List.mem_singleton.mp hlast
      exact ⟨_, List.mem_append_right _ (List.mem_singleton_self _), .refl _⟩
  · rw [List.map_append, List.map_singleton]
    refine List.Nodup.append h.tokens (List.nodup_singleton _) ?_
    intro token hold hlast
    obtain ⟨i, hi, rfl⟩ := List.mem_map.mp hold
    exact hnew i hi (List.mem_singleton.mp hlast)
  · intro c hc
    rcases List.mem_append.mp hc with hold | hlast
    · exact h.allowed c hold
    · rw [List.mem_singleton.mp hlast]
      exact hdraft.allowed draw
  · intro m hm
    obtain ⟨c, hc, hfulfilled⟩ := h.fulfilled m hm
    exact ⟨c, List.mem_append_left _ hc, hfulfilled⟩
  · intro i hi
    rcases List.mem_append.mp hi with hold | hlast
    · exact h.settled i hold
    · obtain rfl := List.mem_singleton.mp hlast
      refine iff_of_false (by simp [Draft.row]) ?_
      intro hmem
      obtain ⟨m, hm, htoken⟩ := List.mem_map.mp hmem
      obtain ⟨c, hc, hfulfilled⟩ := h.fulfilled m hm
      exact hfresh c hc (hfulfilled.token.symm.trans htoken)

/-- The account that `accept` inserts. -/
theorem createUser_ok {a : Accounts} {email : String} {role : UserRole} {accounts : Accounts}
    {user : Account} (h : a.createUser email role = .ok (accounts, user)) :
    user.email = normalizeEmail email ∧ user.role = role.asStr := by
  obtain ⟨_, -, h⟩ := bind_eq_ok h
  obtain rfl : _ = user := congrArg Prod.snd (Except.ok.inj h)
  exact ⟨rfl, rfl⟩

theorem acceptInvitation (h : d.Kept) {invitation : Invitation} {readAt now : Int}
    (hcall : readAt < invitation.expiresAt ∧ ∃ c ∈ d.created, c.row.Keeps invitation)
    {d' : Directory} {user : Account}
    (haccept : d.acceptInvitation invitation readAt now = .ok (d', user)) :
    d'.Kept ∧ d'.created = d.created := by
  obtain ⟨⟨accounts, made⟩, hmade, haccept⟩ := bind_eq_ok haccept
  obtain ⟨_, -, haccept⟩ := bind_eq_ok haccept
  obtain ⟨_, hpending, haccept⟩ := bind_eq_ok haccept
  obtain rfl := congrArg Prod.fst (Except.ok.inj haccept)
  obtain ⟨i, hi, hi'⟩ := List.any_eq_true.mp (ensure_eq_ok hpending)
  obtain ⟨htoken, hstatus⟩ := Bool.and_eq_true_iff.mp hi'
  replace htoken := eq_of_beq htoken
  replace hstatus := eq_of_beq hstatus
  -- It was pending, so it has not made an account.
  have hunused : invitation.token ∉ d.accepted.map Acceptance.token := by
    rw [← htoken, ← h.settled i hi, hstatus]
    decide
  have hkept := Invitation.keeps_consume invitation.token now
  refine ⟨⟨?_, ?_, h.allowed, ?_, ?_, ?_⟩, rfl⟩
  · intro j hj
    obtain ⟨before, hbefore, rfl⟩ := List.mem_map.mp hj
    obtain ⟨c, hc, hrow⟩ := h.rows before hbefore
    exact ⟨c, hc, hrow.trans (hkept before)⟩
  · exact (Invitation.map_token hkept).symm ▸ h.tokens
  · intro m hm
    rcases List.mem_append.mp hm with hold | hlast
    · exact h.fulfilled m hold
    · obtain rfl := List.mem_singleton.mp hlast
      obtain ⟨htime, c, hc, hrow⟩ := hcall
      obtain ⟨hemail, hrole⟩ := createUser_ok hmade
      obtain ⟨role, hasStr⟩ := (h.allowed c hc).role
      refine ⟨c, hc, hrow.token, hrow.email ▸ hemail, ?_, ?_, ?_⟩
      · rw [hrole, hrow.role, hasStr, UserRole.asStr_fromDb]
      · intro a ha
        obtain ⟨roleId, hroleId, rfl⟩ := Option.map_eq_some_iff.mp ha
        exact ⟨rfl, hrow.roleId roleId hroleId, hrow.projectId⟩
      · rw [← (h.allowed c hc).expires, ← hrow.expiresAt]
        exact htime
  · rw [List.map_append, List.map_singleton]
    refine List.Nodup.append h.once (List.nodup_singleton _) ?_
    intro token hold hlast
    obtain rfl : token = invitation.token := List.mem_singleton.mp hlast
    exact hunused hold
  · intro j hj
    obtain ⟨before, hbefore, rfl⟩ := List.mem_map.mp hj
    rw [(hkept before).token, List.map_append, List.map_singleton, List.mem_append,
      List.mem_singleton]
    by_cases hsame : before.token = invitation.token
    · obtain rfl : before = i :=
        List.inj_on_of_nodup_map h.tokens hbefore hi (hsame.trans htoken.symm)
      simp [Invitation.consume, hsame, hstatus]
    · rw [Invitation.consume, if_neg (by simp [hsame]), or_iff_left hsame]
      exact h.settled before hbefore

theorem deleteProject (h : d.Kept) (projectId : Int) : (d.deleteProject projectId).Kept := by
  have hmem : ∀ i ∈ (d.deleteProject projectId).invitations, i ∈ d.invitations :=
    fun i hi => List.mem_of_mem_filter hi
  exact ⟨fun i hi => h.rows i (hmem i hi), h.tokens.sublist (List.filter_sublist.map _), h.allowed,
    h.fulfilled, h.once, fun i hi => h.settled i (hmem i hi)⟩

end Directory.Kept

/-! ## One step of a request -/

/-- What a step of a request writes. -/
inductive Directory.Written (draw : Draw) : InvitationCall → Directory → Directory → Prop
  | nothing {call : InvitationCall} {d : Directory} : Written draw call d d
  | inserted {draft : Draft} {d d' : Directory} : d.insertInvitation draft draw = .ok d' →
      Written draw (.createWrite draft) d d'
  | stamped {call : InvitationCall} {d : Directory} (token : String) :
      Written draw call d (d.markEmailSent token draw.now)
  | revoked {actor : ApiActor} {id : String} {d d' : Directory} :
      d.revokeInvitation id = .ok d' → Written draw (.revoke actor id) d d'
  | accepted {invitation : Invitation} {readAt : Int} {d d' : Directory} {user : Account} :
      d.acceptInvitation invitation readAt draw.now = .ok (d', user) →
      Written draw (.acceptWrite invitation readAt) d d'

theorem Directory.goOn_fst (r : AppResult InvitationCall) : (d.goOn r).1 = d := by
  cases r <;> rfl

theorem Directory.Written.of_write {r : AppResult (Directory × InvitationCall)}
    (h : ∀ written, r = .ok written → Written draw call d written.1) :
    Written draw call d (d.write r).1 := by
  cases r with
  | ok written => exact h written rfl
  | error e => exact .nothing

theorem Directory.advance_written (lower : String → String) (d : Directory) (draw : Draw)
    (call : InvitationCall) : Written draw call d (d.advance lower draw call).1 := by
  cases call with
  | create | createChecked | createUnclaimed | resend | resendRead | accept | acceptRead =>
      rw [Directory.advance, goOn_fst]
      exact .nothing
  | createWrite draft =>
      refine .of_write fun written hwritten => ?_
      obtain ⟨d', hinsert, hwritten⟩ := bind_eq_ok hwritten
      obtain rfl := Except.ok.inj hwritten
      exact .inserted hinsert
  | createDeliver invitation | resendDeliver invitation =>
      rw [Directory.advance]
      cases draw.smtpError with
      | some e => exact .nothing
      | none => exact .stamped invitation.token
  | acceptWrite invitation readAt =>
      refine .of_write fun written hwritten => ?_
      obtain ⟨⟨d', user⟩, haccept, hwritten⟩ := bind_eq_ok hwritten
      obtain rfl := Except.ok.inj hwritten
      exact .accepted haccept
  | revoke actor id =>
      refine .of_write fun written hwritten => ?_
      obtain ⟨_, -, hwritten⟩ := bind_eq_ok hwritten
      obtain ⟨d', hrevoke, hwritten⟩ := bind_eq_ok hwritten
      obtain rfl := Except.ok.inj hwritten
      exact .revoked hrevoke
  | answered answer => exact .nothing

/-- What is true of every answer is true of where a request goes on, if it is after the read. -/
theorem Directory.goOn_snd {P : InvitationCall → Prop} {r : AppResult InvitationCall}
    (hanswered : ∀ answer, P (.answered answer)) (h : ∀ next, r = .ok next → P next) :
    P (d.goOn r).2 := by
  cases r with
  | ok next => exact h next rfl
  | error e => exact hanswered (.error e)

theorem Directory.write_snd {P : InvitationCall → Prop}
    {r : AppResult (Directory × InvitationCall)} (hanswered : ∀ answer, P (.answered answer))
    (h : ∀ written, r = .ok written → P written.2) : P (d.write r).2 := by
  cases r with
  | ok written => exact h written rfl
  | error e => exact hanswered (.error e)

/-- Where a request goes on, what it has read was so. -/
theorem InvitationCall.Kept.advance (hcall : call.Kept d) (h : d.Kept) :
    (d.advance lower draw call).2.Kept d := by
  cases call with
  | create credential asked actor input =>
      refine Directory.goOn_snd (fun _ => trivial) fun next hnext => ?_
      obtain ⟨inviter, hmay, hnext⟩ := bind_eq_ok hnext
      obtain ⟨_, -, hnext⟩ := bind_eq_ok hnext
      obtain ⟨⟨role, email⟩, hinput, hnext⟩ := bind_eq_ok hnext
      obtain rfl := Except.ok.inj hnext
      exact ⟨hcall, hmay, hinput⟩
  | createChecked draft | createUnclaimed draft =>
      refine Directory.goOn_snd (fun _ => trivial) fun next hnext => ?_
      obtain ⟨_, -, hnext⟩ := bind_eq_ok hnext
      obtain rfl := Except.ok.inj hnext
      exact hcall
  | createWrite draft =>
      refine Directory.write_snd (fun _ => trivial) fun written hwritten => ?_
      obtain ⟨d', -, hwritten⟩ := bind_eq_ok hwritten
      obtain rfl := Except.ok.inj hwritten
      dsimp only
      split_ifs <;> trivial
  | createDeliver invitation | resendDeliver invitation =>
      rw [Directory.advance]
      cases draw.smtpError <;> trivial
  | resend actor id =>
      refine Directory.goOn_snd (fun _ => trivial) fun next hnext => ?_
      obtain ⟨_, -, hnext⟩ := bind_eq_ok hnext
      obtain ⟨_, -, hnext⟩ := bind_eq_ok hnext
      obtain ⟨_, -, hnext⟩ := bind_eq_ok hnext
      obtain rfl := Except.ok.inj hnext
      trivial
  | resendRead actor invitation =>
      refine Directory.goOn_snd (fun _ => trivial) fun next hnext => ?_
      obtain ⟨_, -, hnext⟩ := bind_eq_ok hnext
      obtain ⟨_, -, hnext⟩ := bind_eq_ok hnext
      obtain ⟨_, -, hnext⟩ := bind_eq_ok hnext
      obtain rfl := Except.ok.inj hnext
      trivial
  | accept token password =>
      refine Directory.goOn_snd (fun _ => trivial) fun next hnext => ?_
      obtain ⟨invitation, hget, hnext⟩ := bind_eq_ok hnext
      obtain ⟨_, hacceptable, hnext⟩ := bind_eq_ok hnext
      obtain ⟨_, -, hnext⟩ := bind_eq_ok hnext
      obtain rfl := Except.ok.inj hnext
      refine ⟨?_, h.rows invitation (List.mem_of_find?_eq_some (okOr_eq_ok hget))⟩
      exact of_decide_eq_true (Bool.and_eq_true_iff.mp (ensure_eq_ok hacceptable)).2
  | acceptRead invitation readAt =>
      refine Directory.goOn_snd (fun _ => trivial) fun next hnext => ?_
      obtain ⟨_, -, hnext⟩ := bind_eq_ok hnext
      obtain rfl := Except.ok.inj hnext
      exact hcall
  | acceptWrite invitation readAt =>
      refine Directory.write_snd (fun _ => trivial) fun written hwritten => ?_
      obtain ⟨⟨d', user⟩, -, hwritten⟩ := bind_eq_ok hwritten
      obtain rfl := Except.ok.inj hwritten
      trivial
  | revoke actor id =>
      refine Directory.write_snd (fun _ => trivial) fun written hwritten => ?_
      obtain ⟨_, -, hwritten⟩ := bind_eq_ok hwritten
      obtain ⟨d', -, hwritten⟩ := bind_eq_ok hwritten
      obtain rfl := Except.ok.inj hwritten
      trivial
  | answered answer => trivial

theorem Directory.revokeInvitation_eq {id : String} {d' : Directory}
    (hrevoke : d.revokeInvitation id = .ok d') : d' = d.setInvitations (Invitation.revoke id) := by
  obtain ⟨_, -, hrevoke⟩ := bind_eq_ok hrevoke
  exact (Except.ok.inj hrevoke).symm

theorem Directory.Kept.revokeInvitation (h : d.Kept) {id : String} {d' : Directory}
    (hrevoke : d.revokeInvitation id = .ok d') : d'.Kept := by
  rw [revokeInvitation_eq hrevoke]
  refine h.setInvitations (Invitation.keeps_revoke id) fun i => ?_
  rcases i.status_revoke id with hsame | ⟨hpending, hrevoked⟩
  · rw [hsame]
  · simp [hpending, hrevoked]

theorem Directory.Kept.written (h : d.Kept) (hcall : call.Kept d)
    (hfresh : ∀ c ∈ d.created, c.row.token ≠ draw.token) {d' : Directory}
    (hwritten : Directory.Written draw call d d') : d'.Kept ∧ ∀ c ∈ d.created, c ∈ d'.created := by
  cases hwritten with
  | nothing => exact ⟨h, fun c hc => hc⟩
  | inserted hinsert => exact h.insertInvitation hcall hfresh hinsert
  | stamped token =>
      exact ⟨h.setInvitations (Invitation.keeps_stamp token draw.now) (fun i => by simp),
        fun c hc => hc⟩
  | revoked hrevoke =>
      refine ⟨h.revokeInvitation hrevoke, ?_⟩
      rw [Directory.revokeInvitation_eq hrevoke]
      exact fun c hc => hc
  | accepted haccept =>
      obtain ⟨hkept, hcreated⟩ := h.acceptInvitation hcall haccept
      exact ⟨hkept, fun c hc => hcreated ▸ hc⟩

/-! ## Runs -/

/-- The invariant of the runs. -/
def Invitations.Kept (s : Invitations) : Prop :=
  s.directory.Kept ∧ ∀ call ∈ s.calls, call.Kept s.directory

/-- An instance where nobody has been invited yet. -/
structure Invitations.Untouched (s : Invitations) : Prop where
  invitations : s.directory.invitations = []
  created : s.directory.created = []
  accepted : s.directory.accepted = []
  calls : s.calls = []

theorem Invitations.Untouched.kept {s : Invitations} (h : s.Untouched) : s.Kept := by
  obtain ⟨hinvitations, hcreated, haccepted, hcalls⟩ := h
  refine ⟨⟨?_, ?_, ?_, ?_, ?_, ?_⟩, ?_⟩ <;> simp [hinvitations, hcreated, haccepted, hcalls]

theorem Invitations.Kept.receive {s : Invitations} (h : s.Kept) (hcall : call.Kept s.directory) :
    Invitations.Kept { s with calls := s.calls ++ [call] } := by
  refine ⟨h.1, fun other hother => ?_⟩
  rcases List.mem_append.mp hother with hold | hlast
  · exact h.2 other hold
  · exact List.mem_singleton.mp hlast ▸ hcall

/-- A statement of another request, which inserts no invitation. -/
theorem Invitations.Kept.between {s : Invitations} (h : s.Kept) {d : Directory} (hd : d.Kept)
    (hcreated : d.created = s.directory.created) :
    Invitations.Kept { s with directory := d } :=
  ⟨hd, fun other hother => (h.2 other hother).mono fun _ hc => hcreated ▸ hc⟩

theorem Invitations.Kept.step {s t : Invitations} {label : InvitationLabel} (h : s.Kept)
    (hstep : InvitationSteps lower s label t) : t.Kept := by
  cases hstep with
  | invite hactor => exact h.receive hactor
  | resend | revoke | accept => exact h.receive trivial
  | @advance i draw call hi hfresh =>
      have hcall := h.2 call (List.mem_of_getElem? hi)
      obtain ⟨hkept, hcreated⟩ := h.1.written hcall (fun c hc => (hfresh c hc).1)
        (Directory.advance_written lower s.directory draw call)
      refine ⟨hkept, fun other hother => ?_⟩
      rcases List.mem_or_eq_of_mem_set hother with hold | rfl
      · exact (h.2 other hold).mono hcreated
      · exact (hcall.advance h.1).mono hcreated
  | @deleteUser userId _ hdelete =>
      obtain ⟨accounts, -, hdelete⟩ := bind_eq_ok hdelete
      obtain rfl := Except.ok.inj hdelete
      have hset := h.1.setInvitations (Invitation.keeps_forgetInviter userId) fun i => Iff.rfl
      exact h.between ⟨hset.rows, hset.tokens, hset.allowed, hset.fulfilled, hset.once,
        hset.settled⟩ rfl
  | @deleteRole roleId _ hdelete =>
      obtain ⟨_, -, hdelete⟩ := bind_eq_ok hdelete
      obtain rfl := Except.ok.inj hdelete
      have hset := h.1.setInvitations (Invitation.keeps_forgetRole roleId) fun i => Iff.rfl
      exact h.between ⟨hset.rows, hset.tokens, hset.allowed, hset.fulfilled, hset.once,
        hset.settled⟩ rfl
  | deleteProject projectId => exact h.between (h.1.deleteProject projectId) rfl
  | other =>
      exact h.between ⟨h.1.rows, h.1.tokens, h.1.allowed, h.1.fulfilled, h.1.once, h.1.settled⟩ rfl

theorem Invitations.Kept.run {s t : Invitations} {labels : List InvitationLabel}
    (hrun : Run (InvitationSteps lower) s labels t) (h : s.Kept) : t.Kept :=
  hrun.invariant Invitations.Kept (fun _ _ _ h hstep => h.step hstep) h

/-! ## An invitation that is used up -/

/-- An invitation was created that is not pending any more and has made no account. -/
structure Directory.Spent (token : String) (d : Directory) : Prop where
  created : ∃ c ∈ d.created, c.row.token = token
  closed : ∀ i ∈ d.invitations, i.token = token → i.status ≠ "pending"
  unused : token ∉ d.accepted.map Acceptance.token

namespace Directory.Spent

variable {token : String}

/-- An update of the invitations that makes none of them pending. -/
theorem setInvitations (h : d.Spent token) {f : Invitation → Invitation}
    (hkeeps : ∀ i : Invitation, i.Keeps (f i))
    (hpending : ∀ i : Invitation, (f i).status = "pending" → i.status = "pending") :
    (d.setInvitations f).Spent token := by
  refine ⟨h.created, fun j hj htoken hstatus => ?_, h.unused⟩
  obtain ⟨i, hi, rfl⟩ := List.mem_map.mp hj
  exact h.closed i hi ((hkeeps i).token.symm.trans htoken) (hpending i hstatus)

theorem written (h : d.Spent token) (hfresh : ∀ c ∈ d.created, c.row.token ≠ draw.token)
    {d' : Directory} (hwritten : Directory.Written draw call d d') : d'.Spent token := by
  cases hwritten with
  | nothing => exact h
  | inserted hinsert =>
      obtain ⟨_, -, hinsert⟩ := bind_eq_ok hinsert
      obtain rfl := Except.ok.inj hinsert
      obtain ⟨c, hc, htoken⟩ := h.created
      refine ⟨⟨c, List.mem_append_left _ hc, htoken⟩, fun i hi hsame => ?_, h.unused⟩
      rcases List.mem_append.mp hi with hold | hlast
      · exact h.closed i hold hsame
      · obtain rfl := List.mem_singleton.mp hlast
        exact absurd (htoken.trans hsame.symm) (hfresh c hc)
  | stamped other =>
      exact h.setInvitations (Invitation.keeps_stamp other draw.now) fun i hi => by simpa using hi
  | revoked hrevoke =>
      rw [Directory.revokeInvitation_eq hrevoke]
      refine h.setInvitations (Invitation.keeps_revoke _) fun i hi => ?_
      rcases i.status_revoke _ with hsame | ⟨hpending, -⟩
      · exact hsame ▸ hi
      · exact hpending
  | @accepted invitation readAt _ _ user haccept =>
      obtain ⟨⟨accounts, made⟩, -, haccept⟩ := bind_eq_ok haccept
      obtain ⟨_, -, haccept⟩ := bind_eq_ok haccept
      obtain ⟨_, hany, haccept⟩ := bind_eq_ok haccept
      obtain rfl := congrArg Prod.fst (Except.ok.inj haccept)
      obtain ⟨i, hi, hi'⟩ := List.any_eq_true.mp (ensure_eq_ok hany)
      obtain ⟨hsame, hstatus⟩ := Bool.and_eq_true_iff.mp hi'
      -- The transaction rolls back unless some other invitation was pending.
      have hother : invitation.token ≠ token := fun heq =>
        h.closed i hi ((eq_of_beq hsame).trans heq) (eq_of_beq hstatus)
      refine ⟨h.created, fun j hj htoken hpending => ?_, ?_⟩
      · obtain ⟨before, hbefore, rfl⟩ := List.mem_map.mp hj
        unfold Invitation.consume at htoken hpending
        split_ifs at htoken hpending with hconsumed
        · simp at hpending
        · exact h.closed before hbefore htoken hpending
      · rw [List.map_append, List.map_singleton, List.mem_append, List.mem_singleton, not_or]
        exact ⟨h.unused, hother.symm⟩

theorem step {s t : Invitations} {label : InvitationLabel} (h : s.directory.Spent token)
    (hstep : InvitationSteps lower s label t) : t.directory.Spent token := by
  cases hstep with
  | invite | resend | revoke | accept => exact h
  | @advance i draw call hi hfresh =>
      exact h.written (fun c hc => (hfresh c hc).1)
        (Directory.advance_written lower s.directory draw call)
  | @deleteUser userId _ hdelete =>
      obtain ⟨accounts, -, hdelete⟩ := bind_eq_ok hdelete
      obtain rfl := Except.ok.inj hdelete
      have hset := h.setInvitations (Invitation.keeps_forgetInviter userId) fun i hi => hi
      exact ⟨hset.created, hset.closed, hset.unused⟩
  | @deleteRole roleId _ hdelete =>
      obtain ⟨_, -, hdelete⟩ := bind_eq_ok hdelete
      obtain rfl := Except.ok.inj hdelete
      have hset := h.setInvitations (Invitation.keeps_forgetRole roleId) fun i hi => hi
      exact ⟨hset.created, hset.closed, hset.unused⟩
  | deleteProject projectId =>
      exact ⟨h.created, fun i hi => h.closed i (List.mem_of_mem_filter hi), h.unused⟩
  | other => exact ⟨h.created, h.closed, h.unused⟩

end Directory.Spent

/-! ## Who is shown a token -/

/-- The roles have ids of their own, and an invitation names a role of the list. -/
structure Directory.Listed (d : Directory) : Prop where
  ids : (d.roles.map RoleRow.id).Nodup
  bound : ∀ r ∈ d.roles, r.id < d.nextRoleId
  named : ∀ i ∈ d.invitations, ∀ id, i.roleId = some id →
    ∃ r ∈ d.roles, r.id = id ∧ r.userId = none

/-- An id stands for a role of the list, if for any. -/
def Directory.OfList (d : Directory) (id : Int) : Prop :=
  id < d.nextRoleId ∧ ∀ r ∈ d.roles, r.id = id → r.userId = none

/-- The role of a draft was one of the list. -/
def InvitationCall.Listed (d : Directory) : InvitationCall → Prop
  | .createChecked draft | .createUnclaimed draft | .createWrite draft =>
      ∀ id, draft.input.roleId = some id → d.OfList id
  | _ => True

namespace Directory

theorem OfList.mono {d' : Directory} {id : Int} (h : d.OfList id)
    (hnext : d'.nextRoleId = d.nextRoleId) (hroles : ∀ r ∈ d'.roles, r ∈ d.roles) :
    d'.OfList id :=
  ⟨hnext ▸ h.1, fun r hr => h.2 r (hroles r hr)⟩

theorem OfList.goesOn {id nextRoleId : Int} (h : d.OfList id) {roles : List RoleRow}
    (hroles : RolesGoOn d roles nextRoleId) {d' : Directory} (hd' : d'.roles = roles)
    (hnext : d'.nextRoleId = nextRoleId) : d'.OfList id := by
  refine ⟨hnext ▸ h.1.trans_le hroles.later, fun r hr hid => ?_⟩
  rcases hroles.known r (hd' ▸ hr) with ⟨old, hold, hsame, huser⟩ | hnew
  · rw [← huser]
    exact h.2 old hold (hsame.trans hid)
  · exact absurd (hid ▸ hnew) (Int.not_le.mpr h.1)

/-- The roles that are fetched, row by row. -/
theorem mem_fetch {t : Tables} {personal : Bool} {role : Role} :
    role ∈ RoleService.fetch t personal ↔
      ∃ r ∈ t.roles, (r.userId.isNone || personal) = true ∧
        role = ⟨r.id, r.name, r.description, t.pairsOf r.id,
          t.assignments.countP fun a => a.roleId == r.id⟩ := by
  unfold RoleService.fetch
  simp only [List.mem_map, List.mem_insertionSort, List.mem_filter]
  constructor
  · rintro ⟨r, ⟨hr, hkept⟩, rfl⟩
    exact ⟨r, hr, hkept, rfl⟩
  · rintro ⟨r, hr, hkept, rfl⟩
    exact ⟨r, ⟨hr, hkept⟩, rfl⟩

theorem ofList_of_mayInvite (h : d.Listed) {actor : ApiActor} {role : String}
    {roleId projectId : Option Int} {inviter : UserRow}
    (hmay : mayInvite d.tables actor role roleId projectId = .ok inviter) :
    ∀ id, roleId = some id → d.OfList id := by
  intro id hid
  obtain ⟨found, hfound, -⟩ := (mayInvite_ok hmay).2.2.2 id hid
  have hsame : (found.id == id) = true := List.find?_some (p := fun r : Role => r.id == id) hfound
  obtain ⟨r, hr, hlist, rfl⟩ := mem_fetch.mp (List.mem_of_find?_eq_some hfound)
  have hr : r ∈ d.roles := hr
  have hid : r.id = id := eq_of_beq hsame
  refine ⟨hid ▸ h.bound r hr, fun other hother heq => ?_⟩
  rw [List.inj_on_of_nodup_map h.ids hother hr (heq.trans hid.symm)]
  simpa using hlist

namespace Listed

theorem setInvitations (h : d.Listed) {f : Invitation → Invitation}
    (hkeeps : ∀ i : Invitation, i.Keeps (f i)) : (d.setInvitations f).Listed := by
  refine ⟨h.ids, h.bound, fun j hj id hid => ?_⟩
  obtain ⟨i, hi, rfl⟩ := List.mem_map.mp hj
  exact h.named i hi id ((hkeeps i).roleId id hid)

theorem written (h : d.Listed) (hcall : call.Listed d) {d' : Directory}
    (hwritten : Directory.Written draw call d d') :
    d'.Listed ∧ d'.roles = d.roles ∧ d'.nextRoleId = d.nextRoleId := by
  cases hwritten with
  | nothing => exact ⟨h, rfl, rfl⟩
  | @inserted draft _ _ hinsert =>
      obtain ⟨_, hexists, hinsert⟩ := bind_eq_ok hinsert
      obtain rfl := Except.ok.inj hinsert
      refine ⟨⟨h.ids, h.bound, fun i hi id hid => ?_⟩, rfl, rfl⟩
      rcases List.mem_append.mp hi with hold | hlast
      · exact h.named i hold id hid
      · obtain rfl := List.mem_singleton.mp hlast
        have hroleId : draft.input.roleId = some id := hid
        have hall := (Bool.and_eq_true_iff.mp (Bool.and_eq_true_iff.mp (ensure_eq_ok hexists)).1).2
        rw [hid] at hall
        obtain ⟨r, hr, hsame⟩ := List.any_eq_true.mp (show d.tables.hasRole id = true from hall)
        have hr : r ∈ d.roles := hr
        exact ⟨r, hr, eq_of_beq hsame, (hcall id hroleId).2 r hr (eq_of_beq hsame)⟩
  | stamped token =>
      exact ⟨h.setInvitations (Invitation.keeps_stamp token draw.now), rfl, rfl⟩
  | revoked hrevoke =>
      rw [Directory.revokeInvitation_eq hrevoke]
      exact ⟨h.setInvitations (Invitation.keeps_revoke _), rfl, rfl⟩
  | @accepted invitation _ _ _ _ haccept =>
      obtain ⟨⟨accounts, made⟩, -, haccept⟩ := bind_eq_ok haccept
      obtain ⟨_, -, haccept⟩ := bind_eq_ok haccept
      obtain ⟨_, -, haccept⟩ := bind_eq_ok haccept
      obtain rfl := congrArg Prod.fst (Except.ok.inj haccept)
      have hset := h.setInvitations (Invitation.keeps_consume invitation.token draw.now)
      exact ⟨⟨hset.ids, hset.bound, hset.named⟩, rfl, rfl⟩

end Listed

end Directory

theorem InvitationCall.Listed.mono {d' : Directory} (h : call.Listed d)
    (hgoes : ∀ id, d.OfList id → d'.OfList id) : call.Listed d' := by
  cases call with
  | createChecked draft | createUnclaimed draft | createWrite draft =>
      exact fun id hid => hgoes id (h id hid)
  | _ => trivial

theorem InvitationCall.Listed.advance (hcall : call.Listed d) (h : d.Listed) :
    (d.advance lower draw call).2.Listed d := by
  cases call with
  | create credential asked actor input =>
      refine Directory.goOn_snd (fun _ => trivial) fun next hnext => ?_
      obtain ⟨inviter, hmay, hnext⟩ := bind_eq_ok hnext
      obtain ⟨_, -, hnext⟩ := bind_eq_ok hnext
      obtain ⟨_, -, hnext⟩ := bind_eq_ok hnext
      obtain rfl := Except.ok.inj hnext
      exact Directory.ofList_of_mayInvite h hmay
  | createChecked draft | createUnclaimed draft =>
      refine Directory.goOn_snd (fun _ => trivial) fun next hnext => ?_
      obtain ⟨_, -, hnext⟩ := bind_eq_ok hnext
      obtain rfl := Except.ok.inj hnext
      exact hcall
  | createWrite draft =>
      refine Directory.write_snd (fun _ => trivial) fun written hwritten => ?_
      obtain ⟨_, -, hwritten⟩ := bind_eq_ok hwritten
      obtain rfl := Except.ok.inj hwritten
      dsimp only
      split_ifs <;> trivial
  | createDeliver invitation | resendDeliver invitation =>
      rw [Directory.advance]
      cases draw.smtpError <;> trivial
  | resend | resendRead | accept =>
      refine Directory.goOn_snd (fun _ => trivial) fun next hnext => ?_
      obtain ⟨_, -, hnext⟩ := bind_eq_ok hnext
      obtain ⟨_, -, hnext⟩ := bind_eq_ok hnext
      obtain ⟨_, -, hnext⟩ := bind_eq_ok hnext
      obtain rfl := Except.ok.inj hnext
      trivial
  | acceptRead =>
      refine Directory.goOn_snd (fun _ => trivial) fun next hnext => ?_
      obtain ⟨_, -, hnext⟩ := bind_eq_ok hnext
      obtain rfl := Except.ok.inj hnext
      trivial
  | acceptWrite =>
      refine Directory.write_snd (fun _ => trivial) fun written hwritten => ?_
      obtain ⟨_, -, hwritten⟩ := bind_eq_ok hwritten
      obtain rfl := Except.ok.inj hwritten
      trivial
  | revoke =>
      refine Directory.write_snd (fun _ => trivial) fun written hwritten => ?_
      obtain ⟨_, -, hwritten⟩ := bind_eq_ok hwritten
      obtain ⟨_, -, hwritten⟩ := bind_eq_ok hwritten
      obtain rfl := Except.ok.inj hwritten
      trivial
  | answered => trivial

def Invitations.Listed (s : Invitations) : Prop :=
  s.directory.Listed ∧ ∀ call ∈ s.calls, call.Listed s.directory

theorem Invitations.Listed.receive {s : Invitations} (h : s.Listed)
    (hcall : call.Listed s.directory) :
    Invitations.Listed { s with calls := s.calls ++ [call] } := by
  refine ⟨h.1, fun other hother => ?_⟩
  rcases List.mem_append.mp hother with hold | hlast
  · exact h.2 other hold
  · exact List.mem_singleton.mp hlast ▸ hcall

/-- A statement of another request that deletes roles at most. -/
theorem Invitations.Listed.shrink {s : Invitations} (h : s.Listed) {d : Directory}
    (hroles : d.roles.Sublist s.directory.roles) (hnext : d.nextRoleId = s.directory.nextRoleId)
    (hnamed : ∀ i ∈ d.invitations, ∀ id, i.roleId = some id →
      ∃ r ∈ d.roles, r.id = id ∧ r.userId = none) :
    Invitations.Listed { s with directory := d } := by
  refine ⟨⟨h.1.ids.sublist (hroles.map _), fun r hr => ?_, hnamed⟩, fun other hother => ?_⟩
  · exact hnext ▸ h.1.bound r (hroles.subset hr)
  · exact (h.2 other hother).mono fun id hid => hid.mono hnext fun r hr => hroles.subset hr

theorem Invitations.Listed.step {s t : Invitations} {label : InvitationLabel} (h : s.Listed)
    (hstep : InvitationSteps lower s label t) : t.Listed := by
  cases hstep with
  | invite | resend | revoke | accept => exact h.receive trivial
  | @advance i draw call hi hfresh =>
      have hcall := h.2 call (List.mem_of_getElem? hi)
      obtain ⟨hlisted, hroles, hnext⟩ := h.1.written hcall
        (Directory.advance_written lower s.directory draw call)
      have hgoes : ∀ id, s.directory.OfList id →
          (s.directory.advance lower draw call).1.OfList id :=
        fun id hid => hid.mono hnext fun r hr => hroles ▸ hr
      refine ⟨hlisted, fun other hother => ?_⟩
      rcases List.mem_or_eq_of_mem_set hother with hold | rfl
      · exact (h.2 other hold).mono hgoes
      · exact (hcall.advance h.1).mono hgoes
  | @deleteUser userId _ hdelete =>
      obtain ⟨accounts, -, hdelete⟩ := bind_eq_ok hdelete
      obtain rfl := Except.ok.inj hdelete
      refine h.shrink List.filter_sublist rfl fun j hj id hid => ?_
      obtain ⟨i, hi, rfl⟩ := List.mem_map.mp hj
      obtain ⟨r, hr, hsame, huser⟩ := h.1.named i hi id hid
      exact ⟨r, List.mem_filter.mpr ⟨hr, by simp [huser]⟩, hsame, huser⟩
  | @deleteRole roleId _ hdelete =>
      obtain ⟨_, -, hdelete⟩ := bind_eq_ok hdelete
      obtain rfl := Except.ok.inj hdelete
      refine h.shrink List.filter_sublist rfl fun j hj id hid => ?_
      obtain ⟨i, hi, rfl⟩ := List.mem_map.mp hj
      obtain ⟨hroleId, hother⟩ := Option.filter_eq_some_iff.mp hid
      obtain ⟨r, hr, hsame, huser⟩ := h.1.named i hi id hroleId
      exact ⟨r, List.mem_filter.mpr ⟨hr, hsame.symm ▸ hother⟩, hsame, huser⟩
  | deleteProject projectId =>
      exact h.shrink (List.Sublist.refl _) rfl fun i hi => h.1.named i (List.mem_of_mem_filter hi)
  | other accounts projects permissions assignments nextProjectId hroles =>
      refine ⟨⟨hroles.ids, hroles.bound, fun i hi id hid => ?_⟩, fun call hcall => ?_⟩
      · obtain ⟨r, hr, hsame, huser⟩ := h.1.named i hi id hid
        obtain ⟨r', hr', hsame', huser'⟩ := hroles.kept r hr
        exact ⟨r', hr', hsame'.trans hsame, huser'.trans huser⟩
      · exact (h.2 call hcall).mono fun id hid => hid.goesOn hroles rfl rfl

variable {s t u : Invitations} {labels later : List InvitationLabel}

/-- An invitation makes one account at most, exactly those that made one are accepted, and one
that is revoked never makes any, whatever acceptance is under way by then. -/
theorem invitation_makes_one_account (hstart : s.Untouched)
    (hrun : Run (InvitationSteps lower) s labels t)
    (hlater : Run (InvitationSteps lower) t later u) :
    (t.directory.accepted.map Acceptance.token).Nodup ∧
    (∀ i ∈ t.directory.invitations,
      i.status = "accepted" ↔ ∃ m ∈ t.directory.accepted, m.token = i.token) ∧
    ∀ i ∈ t.directory.invitations, i.status = "revoked" →
      ∀ m ∈ u.directory.accepted, m.token ≠ i.token := by
  have hkept := (hstart.kept.run hrun).1
  refine ⟨hkept.once, ?_, ?_⟩
  · intro i hi
    rw [hkept.settled i hi, List.mem_map]
  · intro i hi hrevoked m hm hsame
    have hspent : t.directory.Spent i.token := by
      refine ⟨?_, ?_, ?_⟩
      · obtain ⟨c, hc, hrow⟩ := hkept.rows i hi
        exact ⟨c, hc, hrow.token.symm⟩
      · intro j hj htoken hpending
        obtain rfl := List.inj_on_of_nodup_map hkept.tokens hj hi htoken
        simp [hrevoked] at hpending
      · rw [← hkept.settled i hi, hrevoked]
        decide
    have hend := hlater.invariant (fun v => v.directory.Spent i.token)
      (fun _ _ _ h hstep => h.step hstep) hspent
    exact hend.unused (List.mem_map.mpr ⟨m, hm, hsame⟩)

def sampleDirectory : Directory where
  accounts := ⟨[⟨1, "a@b.cd", true, "admin"⟩], [], 2⟩
  projects := [7]
  roles := [⟨5, "Developer", "", none⟩]
  permissions := [⟨5, "project", "read"⟩]
  assignments := []
  invitations := []
  nextRoleId := 6
  nextProjectId := 8
  created := []
  accepted := []

def sampleInput (email : String) : CreateInvitation := ⟨email, "member", false, some 5, some 7⟩

def sampleDraw (token : String) : Draw := ⟨0, token, token, false, none⟩

/-- The owner invites two; the first accepts twice at one time, and the second's invitation is
revoked while they accept. -/
theorem exists_invited : ∃ s t : Invitations, s.directory = sampleDirectory ∧ s.Untouched ∧
    (∃ labels, Run (InvitationSteps id) s labels t) ∧
    t.directory.accepted =
      [⟨"t", 0, ⟨2, "c@d.ef", true, "member"⟩, some ⟨2, 5, some 7⟩⟩] ∧
    t.directory.invitations.map Invitation.status = ["accepted", "revoked"] := by
  refine ⟨⟨sampleDirectory, []⟩, _, rfl, ⟨rfl, rfl, rfl, rfl⟩,
    ⟨[.invite (.session 1) (sampleInput "c@d.ef"), .invite (.session 1) (sampleInput "g@h.ij"),
      .revoke (.session 1) "u", .accept "t" "p", .accept "t" "p", .accept "u" "p",
      .advance 0 (sampleDraw "x"), .advance 0 (sampleDraw "x"), .advance 0 (sampleDraw "x"),
      .advance 0 (sampleDraw "t"), .advance 1 (sampleDraw "x"), .advance 1 (sampleDraw "x"),
      .advance 1 (sampleDraw "x"), .advance 1 (sampleDraw "u"), .advance 3 (sampleDraw "x"),
      .advance 4 (sampleDraw "x"), .advance 5 (sampleDraw "x"), .advance 3 (sampleDraw "x"),
      .advance 4 (sampleDraw "x"), .advance 5 (sampleDraw "x"), .advance 3 (sampleDraw "x"),
      .advance 4 (sampleDraw "x"), .advance 2 (sampleDraw "x"), .advance 5 (sampleDraw "x")],
      .cons (.invite rfl) <| .cons (.invite rfl) <| .cons (.revoke rfl) <| .cons (.accept _ _ _) <|
      .cons (.accept _ _ _) <| .cons (.accept _ _ _) <| .cons (.advance rfl ?_) <|
      .cons (.advance rfl ?_) <| .cons (.advance rfl ?_) <| .cons (.advance rfl ?_) <|
      .cons (.advance rfl ?_) <| .cons (.advance rfl ?_) <| .cons (.advance rfl ?_) <|
      .cons (.advance rfl ?_) <| .cons (.advance rfl ?_) <| .cons (.advance rfl ?_) <|
      .cons (.advance rfl ?_) <| .cons (.advance rfl ?_) <| .cons (.advance rfl ?_) <|
      .cons (.advance rfl ?_) <| .cons (.advance rfl ?_) <| .cons (.advance rfl ?_) <|
      .cons (.advance rfl ?_) <| .cons (.advance rfl ?_) <| .nil _⟩, ?_, ?_⟩
  all_goals decide +kernel

/-- The second makes no account. -/
theorem invitation_makes_one_account_twice : ∃ t : Invitations,
    (∀ i ∈ t.directory.invitations, i.status = "revoked" →
      ∀ m ∈ t.directory.accepted, m.token ≠ i.token) ∧
    t.directory.invitations.map Invitation.status = ["accepted", "revoked"] := by
  obtain ⟨s, t, -, hstart, ⟨labels, hrun⟩, -, hstatus⟩ := exists_invited
  exact ⟨t, (invitation_makes_one_account hstart hrun (.nil t)).2.2, hstatus⟩

end Rustrak.Auth
