import Mathlib.Logic.Function.Basic
import Rustrak.Auth.Invitations
import Rustrak.Core.Affix
import Rustrak.Core.Json

/-!
# Signing in

The handlers of `routes/auth.rs` that open a session, with what `auth/oidc.rs` makes of the claims
of an identity provider, over the statements of `Rustrak.Auth.Accounts`.

A session is what its cookie holds.  The cookie is signed and encrypted, so a browser presents one
that it was given; but nothing takes a cookie back, and an old one is as good as a new one.

The provider's answer to a code, with its verifier and its nonce, is left to `openidconnect`: it is
whatever claims come back.  `authorizations`, `exchanges`, `proofs`, `invited` and `links` are the
history of what was handed out, answered, shown and written.
-/

namespace Rustrak.Auth

open Rustrak.Core Rustrak.Transition

/-! ## The provider -/

/-- `OidcConfig`, as far as a login reads it. -/
structure OidcService where
  linkPolicy : OidcLinkPolicy
  allowedDomains : List String
  requireEmailVerified : Bool
  /-- The claim that carries the identity's groups. -/
  groupsClaim : String
  disablePasswordLogin : Bool
  deriving DecidableEq, Repr

/-- The protections of a login. -/
structure OidcAuthorization where
  state : String
  nonce : String
  pkceVerifier : String
  deriving DecidableEq, Repr

/-- The claims of a validated ID token. -/
structure Claims where
  issuer : String
  subject : String
  email : Option String
  emailVerified : Option Bool
  /-- `SsoClaims`. -/
  additional : Value
  deriving Repr

/-- Values of a claim that is expected to be a group list.  The entries of an array are never
split. -/
def Claims.groups (claims : Claims) (claim : String) : List String :=
  let named := fun values : List String => (values.map trim).filter (· ≠ "")
  match claims.additional.get claim with
  | some (.array values) => named (values.filterMap Value.asStr)
  | some (.string value) => named ((value.toList.splitOn ',').map String.ofList)
  | _ => []

/-- `exchange_code`, from the claims on. -/
def OidcService.exchangeCode (service : OidcService) (claims : AppResult Claims) :
    AppResult OidcIdentity := do
  let claims ← claims
  let email ← okOr ((claims.email.map trim).filter (· ≠ ""))
    (.forbidden "SSO provider did not supply an email address")
  let emailVerified := claims.emailVerified == some true
  ensure (!(service.requireEmailVerified && !emailVerified))
    (.forbidden "SSO provider did not verify the email address")
  let domain := (rsplitOnce email '@').map fun parts => parts.2.toLower
  ensure (service.allowedDomains.isEmpty || domain.any service.allowedDomains.contains)
    (.forbidden "Email domain is not allowed to use SSO")
  return ⟨claims.issuer, claims.subject, email, emailVerified, claims.groups service.groupsClaim⟩

/-! ## Sessions -/

/-- An SSO identity waiting for the password of the account it matched. -/
structure PendingLink where
  issuer : String
  subject : String
  email : String
  emailVerified : Bool
  userId : Int
  matchedAdminGroups : List String
  deriving DecidableEq, Repr

def PendingLink.identity (pending : PendingLink) : OidcIdentity :=
  ⟨pending.issuer, pending.subject, pending.email, pending.emailVerified, []⟩

structure Session where
  userId : Option Int
  oidcState : Option String
  oidcNonce : Option String
  oidcPkce : Option String
  pendingLink : Option PendingLink
  deriving DecidableEq, Repr

def Session.empty : Session := ⟨none, none, none, none, none⟩

structure SsoCallbackQuery where
  code : Option String
  state : Option String
  error : Option String
  deriving DecidableEq, Repr

/-- What a callback gives to `exchange_code`, and the state it came with. -/
structure CodeExchange where
  code : String
  returnedState : String
  nonce : String
  pkceVerifier : String
  deriving DecidableEq, Repr

/-- The start of `handle_sso_callback`.  The one-time values go before they are looked at, as far
as they were there. -/
def Session.takeCallback (session : Session) (query : SsoCallbackQuery) :
    Session × AppResult CodeExchange :=
  let expired := .error (.unauthorized "SSO session expired; please try again")
  match session.oidcState with
  | none => (session, expired)
  | some expectedState =>
      let session := { session with oidcState := none }
      match session.oidcNonce with
      | none => (session, expired)
      | some nonce =>
          let session := { session with oidcNonce := none }
          match session.oidcPkce with
          | none => (session, expired)
          | some pkceVerifier =>
              ({ session with oidcPkce := none }, do
                let returnedState ← okOr query.state
                  (.unauthorized "SSO callback is missing state")
                ensure (returnedState == expectedState)
                  (.unauthorized "SSO callback state did not match")
                ensure query.error.isNone (.unauthorized "SSO authorization was denied")
                let code ← okOr query.code (.unauthorized "SSO callback is missing a code")
                return ⟨code, returnedState, nonce, pkceVerifier⟩)

/-- A code that was exchanged for an identity. -/
structure Exchange where
  service : OidcService
  request : CodeExchange
  claims : Claims
  identity : OidcIdentity
  exchanged : service.exchangeCode (.ok claims) = .ok identity
  validEmail : isValidEmail identity.email = true

def OidcService.identify (service : OidcService) (request : CodeExchange)
    (answer : AppResult Claims) : AppResult Exchange :=
  match answer with
  | .error e => .error e
  | .ok claims =>
      match h : service.exchangeCode (.ok claims) with
      | .error e => .error e
      | .ok identity =>
          if hvalid : isValidEmail identity.email = true then
            .ok ⟨service, request, claims, identity, h, hvalid⟩
          else .error (.forbidden "SSO provider returned an invalid email address")

/-- The link that waits for the password of an account. -/
def Exchange.pending (exchange : Exchange) (user : Account) : PendingLink where
  issuer := exchange.identity.issuer
  subject := exchange.identity.subject
  email := exchange.identity.email
  emailVerified := exchange.identity.emailVerified
  userId := user.id
  matchedAdminGroups :=
    exchange.service.linkPolicy.matchedAdminGroups exchange.identity.groups

/-! ## The server -/

/-- The way in that a request takes. -/
inductive Entrance
  | sso (exchange : Exchange)
  | confirm (pending : PendingLink) (password : String)
  | invitation
  | password
  /-- A request of the team page, which opens no session. -/
  | team

/-- A request under way, with the session of its cookie as it has come to be. -/
structure Visit where
  session : Session
  entrance : Entrance
  call : AccountCall

/-- A password that was compared with the hash of an account, and matched. -/
structure PasswordProof where
  user : Account
  hash : String
  password : String
  deriving DecidableEq, Repr

/-- Why an identity was linked to an account. -/
inductive LinkGrounds
  /-- There was no account with its email, and one was made; `before` is how things were. -/
  | provisioned (policy : OidcLinkPolicy) (before : Accounts)
  | verifiedEmail (policy : OidcLinkPolicy) (account : Account)
  | password (proof : PasswordProof)
  deriving DecidableEq, Repr

structure LinkRecord where
  row : OidcLink
  identity : OidcIdentity
  grounds : LinkGrounds
  deriving DecidableEq, Repr

/-- A new hash, to be written over the one that was verified. -/
structure PasswordChange where
  userId : Int
  verifiedHash : String
  passwordHash : String
  deriving DecidableEq, Repr

structure SignIns where
  accounts : Accounts
  /-- The column `password_hash`. -/
  hashes : Int → String
  oidc : Option OidcService
  /-- The cookies that were given out. -/
  issued : List Session
  visits : List Visit
  changes : List PasswordChange
  authorizations : List OidcAuthorization
  exchanges : List Exchange
  proofs : List PasswordProof
  /-- The users that an invitation made. -/
  invited : List Int
  links : List LinkRecord

inductive SignInLabel
  /-- `cookie` is which of the cookies given out a browser presents, if any. -/
  | ssoStart (cookie : Option Nat) (authorization : OidcAuthorization)
  | ssoCallback (cookie : Option Nat) (query : SsoCallbackQuery) (answer : AppResult Claims)
  | confirmSsoLink (cookie : Option Nat) (password : String)
  | login (cookie : Option Nat) (email password : String)
  | acceptInvitation (cookie : Option Nat) (email : String) (role : UserRole)
  | logout
  | changePassword (cookie : Option Nat) (currentPassword newPassword passwordHash : String)
  | updateTeamRole (actor : ApiActor) (userId : Int) (role : String)
  | deleteUser (actor : ApiActor) (userId : Int)
  /-- The next step of a request; `passwordHash` is that of the account it makes, if it does. -/
  | advance (visit : Nat) (passwordHash : String)
  | writePassword (change : Nat)
  /-- The server is started again, with another configuration perhaps. -/
  | restart (oidc : Option OidcService)

/-- `get_by_email`: an exact match wins, then the oldest account. -/
def Accounts.getByEmail (lower : String → String) (a : Accounts) (email : String) :
    Option Account :=
  let found := a.users.filter fun u => lower u.email = lower email
  let byAge := found.mergeSort fun u v => u.id ≤ v.id
  (byAge.filter (fun u => u.email = email) ++ byAge.filter fun u => u.email != email).head?

/-- The row that a step of a request adds to `oidc_identities`, if it adds one. -/
def Accounts.linked (lower : String → String) (a : Accounts) (call : AccountCall) :
    Option OidcLink :=
  ((a.advance lower call).1.identities.drop a.identities.length).head?

namespace SignIns

variable (lower : String → String) (verifies : String → String → Bool) (t : SignIns)

/-- The session of a request: nothing, where there is no cookie. -/
def session (cookie : Option Nat) : Session := (cookie.bind (t.issued[·]?)).getD .empty

def issue (session : Session) : SignIns := { t with issued := t.issued ++ [session] }

def receive (visit : Visit) : SignIns := { t with visits := t.visits ++ [visit] }

def passwordLoginDisabled : Bool := t.oidc.any OidcService.disablePasswordLogin

def ssoStart (session : Session) (authorization : OidcAuthorization) : SignIns :=
  match t.oidc with
  | none => t
  | some _ =>
      issue { t with authorizations := t.authorizations ++ [authorization] }
        { session with
          oidcState := some authorization.state
          oidcNonce := some authorization.nonce
          oidcPkce := some authorization.pkceVerifier }

/-- `handle_sso_callback`, up to `find_or_provision_oidc`. -/
def ssoCallback (session : Session) (query : SsoCallbackQuery) (answer : AppResult Claims) :
    SignIns :=
  match t.oidc with
  | none => t
  | some service =>
      let (session, request) := session.takeCallback query
      match request.bind fun request => service.identify request answer with
      | .error _ => t.issue session
      | .ok exchange =>
          receive { t with exchanges := t.exchanges ++ [exchange] }
            ⟨session, .sso exchange, .ssoLogin exchange.identity service.linkPolicy⟩

def confirmSsoLink (session : Session) (password : String) : SignIns :=
  match t.oidc, session.pendingLink with
  | some service, some pending =>
      -- Decided now, not at the callback: the operator may have changed the mapping.
      let role := service.linkPolicy.roleFromMatched pending.matchedAdminGroups
      t.receive ⟨session, .confirm pending password,
        .confirmLink pending.identity pending.userId false role⟩
  | _, _ => t

/-- `login`, up to the question who is primary. -/
def login (session : Session) (email password : String) : SignIns :=
  match t.accounts.getByEmail lower (trim email) with
  | none => t
  | some user =>
      if user.isActive && verifies (t.hashes user.id) password then
        receive { t with proofs := t.proofs ++ [⟨user, t.hashes user.id, password⟩] }
          ⟨session, .password, .answered (.ok (.signedIn user))⟩
      else t

/-- `AuthenticatedUser`. -/
def authenticated (session : Session) : Option Account :=
  (session.userId.bind t.accounts.user).filter Account.isActive

/-- `change_password`, up to its write. -/
def changePassword (session : Session) (currentPassword newPassword passwordHash : String) :
    SignIns :=
  match t.authenticated session with
  | none => t
  | some user =>
      if newPassword ≠ "" ∧ verifies (t.hashes user.id) currentPassword then
        { t with changes := t.changes ++ [⟨user.id, t.hashes user.id, passwordHash⟩] }
      else t

/-- Only the hash that was verified may be replaced. -/
def writePassword (change : PasswordChange) : SignIns :=
  if (t.accounts.user change.userId).isSome ∧ t.hashes change.userId = change.verifiedHash then
    { t with hashes := Function.update t.hashes change.userId change.passwordHash }
  else t

/-- What a visit asks of the tables next: a password is compared with the hash as it is read. -/
def asks (v : Visit) : AccountCall :=
  match v.entrance, v.call with
  | .confirm _ password, .confirmLink identity userId _ role =>
      .confirmLink identity userId (verifies (t.hashes userId) password) role
  | _, call => call

/-- The password that a step has found to match. -/
def proved (v : Visit) (next : AccountCall) : Option PasswordProof :=
  match v.entrance, next with
  | .confirm _ password, .confirmWrite user _ _ => some ⟨user, t.hashes user.id, password⟩
  | _, _ => none

/-- The user that an invitation has made. -/
def invitee (v : Visit) (next : AccountCall) : Option Int :=
  match v.entrance, next with
  | .invitation, .answered (.ok (.signedIn user)) => some user.id
  | _, _ => none

/-- The record of a row that a step has added to `oidc_identities`. -/
def recorded (v : Visit) (row : OidcLink) : Option LinkRecord :=
  match v.entrance, v.call with
  | .sso _, .ssoProvision identity policy =>
      match t.accounts.candidates lower identity.email with
      | [] => some ⟨row, identity, .provisioned policy t.accounts⟩
      | account :: _ => some ⟨row, identity, .verifiedEmail policy account⟩
  | .confirm _ password, .confirmWrite user identity _ =>
      (t.proofs.find? fun p => p.user = user && p.password = password).map fun proof =>
        ⟨row, identity, .password proof⟩
  | _, _ => none

/-- The next statement of a visit. -/
def advance (i : Nat) (v : Visit) (passwordHash : String) : SignIns :=
  let call := t.asks verifies v
  let (accounts, next) := t.accounts.advance lower call
  { t with
    accounts
    hashes :=
      if accounts.nextId = t.accounts.nextId then t.hashes
      else Function.update t.hashes t.accounts.nextId passwordHash
    visits := t.visits.set i { v with call := next }
    proofs := t.proofs ++ (t.proved v next).toList
    invited := t.invited ++ (invitee v next).toList
    links := t.links ++ ((t.accounts.linked lower call).bind (t.recorded lower v)).toList }

/-- The session that goes out with the answer to a visit. -/
def answer (v : Visit) : Session :=
  match v.entrance, v.call with
  | .sso _, .answered (.ok (.signedIn user)) => { v.session with userId := some user.id }
  | .sso exchange, .answered (.ok (.confirmWithPassword user)) =>
      { v.session with pendingLink := some (exchange.pending user) }
  | .confirm _ _, .answered (.ok (.signedIn user)) =>
      { v.session with pendingLink := none, userId := some user.id }
  | .invitation, .answered (.ok (.signedIn user)) =>
      if t.passwordLoginDisabled then .empty else { v.session with userId := some user.id }
  | .password, .answered (.ok (.signedIn user)) =>
      -- The primary account is the documented break-glass.
      if t.passwordLoginDisabled && t.accounts.primaryUserId != some user.id then v.session
      else { v.session with userId := some user.id }
  | _, _ => v.session

/-- The end of a visit. -/
def respond (i : Nat) (v : Visit) : SignIns :=
  issue { t with visits := t.visits.eraseIdx i } (t.answer v)

def step : SignInLabel → SignIns
  | .ssoStart cookie authorization => t.ssoStart (t.session cookie) authorization
  | .ssoCallback cookie query answer => t.ssoCallback (t.session cookie) query answer
  | .confirmSsoLink cookie password => t.confirmSsoLink (t.session cookie) password
  | .login cookie email password => t.login lower verifies (t.session cookie) email password
  | .acceptInvitation cookie email role =>
      t.receive ⟨t.session cookie, .invitation, .createUser email role⟩
  | .logout => t.issue .empty
  | .changePassword cookie currentPassword newPassword passwordHash =>
      t.changePassword verifies (t.session cookie) currentPassword newPassword passwordHash
  | .updateTeamRole actor userId role =>
      t.receive ⟨.empty, .team, .updateTeamRole actor userId role⟩
  | .deleteUser actor userId => t.receive ⟨.empty, .team, .deleteUser actor userId⟩
  | .advance i passwordHash =>
      match t.visits[i]? with
      | none => t
      | some v =>
          match v.call with
          | .answered _ => t.respond i v
          | _ => t.advance lower verifies i v passwordHash
  | .writePassword i => (t.changes[i]?).elim t t.writePassword
  | .restart oidc => { t with oidc, visits := [], changes := [] }

end SignIns

/-- `SignIns.step` as a relation. -/
def SignInStep (lower : String → String) (verifies : String → String → Bool) (t : SignIns)
    (label : SignInLabel) (t' : SignIns) : Prop :=
  t' = t.step lower verifies label

/-! ## What a step does to the tables -/

variable {lower : String → String} {verifies : String → String → Bool} {a b c : Accounts}
  {call : AccountCall} {made : List Int} {link : Option OidcLink} {identity : OidcIdentity}
  {policy : OidcLinkPolicy} {role : Option UserRole} {user : Account} {row : OidcLink}

/-- Some users are added, and a row of an identity that had none. -/
structure Accounts.Grown (a b : Accounts) (made : List Int) (link : Option OidcLink) : Prop where
  next : made = [] ∧ b.nextId = a.nextId ∨ made = [a.nextId] ∧ b.nextId = a.nextId + 1
  users : b.users.map Account.id = a.users.map Account.id ++ made
  identities : b.identities = a.identities ++ link.toList
  linked : ∀ row ∈ link, row.userId ∈ b.users.map Account.id ∧
    ∀ other ∈ a.identities, other.issuer = row.issuer → other.subject ≠ row.subject

namespace Accounts.Grown

theorem refl (a : Accounts) : Grown a a [] none where
  next := .inl ⟨rfl, rfl⟩
  users := (List.append_nil _).symm
  identities := (List.append_nil _).symm
  linked := by simp

/-- First the user, and then the row. -/
theorem trans (h : Grown a b made none) (h' : Grown b c [] link) : Grown a c made link where
  next := by
    have hnext : c.nextId = b.nextId := by simpa using h'.next
    rw [hnext]
    exact h.next
  users := by rw [h'.users, List.append_nil, h.users]
  identities := by rw [h'.identities, h.identities, Option.toList_none, List.append_nil]
  linked := by
    have hsame : b.identities = a.identities := by simpa using h.identities
    rw [← hsame]
    exact h'.linked

/-- Nothing is added after the row. -/
theorem settled (h : Grown a b made link) (h' : Grown b c [] none) : Grown a c made link where
  next := by
    have hnext : c.nextId = b.nextId := by simpa using h'.next
    rw [hnext]
    exact h.next
  users := by rw [h'.users, List.append_nil, h.users]
  identities := by rw [h'.identities, Option.toList_none, List.append_nil, h.identities]
  linked := by
    have hsame : c.users.map Account.id = b.users.map Account.id := by simpa using h'.users
    rw [hsame]
    exact h.linked

end Accounts.Grown

theorem Accounts.setRole_grown (a : Accounts) (userId : Int) (newRole : UserRole) :
    Grown a (a.setRole userId newRole) [] none where
  next := .inl ⟨rfl, rfl⟩
  users := by
    rw [List.append_nil, Accounts.setRole, List.map_map]
    refine List.map_congr_left fun u _ => ?_
    simp only [Function.comp_apply]
    split_ifs <;> rfl
  identities := (List.append_nil _).symm
  linked := by simp

theorem Accounts.applySsoRole_grown (a : Accounts) (user : Account) (role : Option UserRole) :
    Grown a (a.applySsoRole user role).1 [] none ∧ (a.applySsoRole user role).2.id = user.id := by
  unfold Accounts.applySsoRole
  cases role with
  | none => exact ⟨.refl a, rfl⟩
  | some newRole =>
      dsimp only
      split_ifs
      · exact ⟨.refl a, rfl⟩
      · exact ⟨.refl a, rfl⟩
      · exact ⟨a.setRole_grown user.id newRole, rfl⟩

theorem Accounts.createUser_grown {email : String} {newRole : UserRole}
    {created : Accounts × Account} (hcreate : a.createUser email newRole = .ok created) :
    Grown a created.1 [a.nextId] none ∧ created.2.id = a.nextId := by
  obtain ⟨_, -, hcreated⟩ := bind_eq_ok hcreate
  obtain rfl := Except.ok.inj hcreated
  refine ⟨⟨.inr ⟨rfl, rfl⟩, ?_, (List.append_nil _).symm, by simp⟩, rfl⟩
  simp

theorem Accounts.linkIdentity_grown {userId : Int}
    (hlink : a.linkIdentity userId identity = .ok (some b)) :
    Grown a b [] (some ⟨userId, identity.issuer, identity.subject⟩) := by
  unfold Accounts.linkIdentity at hlink
  obtain ⟨_, hexists, hlinked⟩ := bind_eq_ok hlink
  split_ifs at hlinked with hfound
  · have hnone := Except.ok.inj hlinked
    contradiction
  obtain rfl := Option.some.inj (Except.ok.inj hlinked)
  refine ⟨.inl ⟨rfl, rfl⟩, (List.append_nil _).symm, rfl, ?_⟩
  rintro row ⟨⟩
  obtain ⟨user, huser⟩ := Option.isSome_iff_exists.mp (ensure_eq_ok hexists)
  refine ⟨List.mem_map.mpr ⟨user, List.mem_of_find?_eq_some huser, ?_⟩, ?_⟩
  · simpa using List.find?_some huser
  · intro other hother hissuer hsubject
    refine hfound (List.any_eq_true.mpr ⟨other, hother, ?_⟩)
    simp [hissuer, hsubject]

/-- An identity that is looked up has a row. -/
theorem Accounts.byOidcIdentity_row {issuer subject : String}
    (h : a.byOidcIdentity issuer subject = some user) :
    ⟨user.id, issuer, subject⟩ ∈ a.identities := by
  obtain ⟨found, hfound, huser⟩ := Option.bind_eq_some_iff.mp h
  have hkey := List.find?_some hfound
  have hid := List.find?_some huser
  simp only [Bool.and_eq_true, decide_eq_true_eq, beq_iff_eq] at hkey hid
  obtain ⟨rfl, rfl⟩ := hkey
  rw [hid]
  exact List.mem_of_find?_eq_some hfound

/-- The account that a first login lands on was made for it, or has its verified email. -/
def Accounts.LandsOn (lower : String → String) (a : Accounts) (identity : OidcIdentity)
    (policy : OidcLinkPolicy) (userId : Int) : Prop :=
  (a.candidates lower identity.email = [] ∧ policy.autoProvision = true ∧ userId = a.nextId) ∨
    ∃ account others, a.candidates lower identity.email = account :: others ∧
      account.isActive = true ∧ policy.linkExistingAccounts = true ∧
      identity.emailVerified = true ∧ userId = account.id

theorem Accounts.provisioned_cases {created : Accounts × Account}
    (h : a.provisioned lower identity policy = .ok (.inl created)) :
    (∃ made, Grown a created.1 made none) ∧ a.LandsOn lower identity policy created.2.id := by
  unfold Accounts.provisioned at h
  cases hfound : a.candidates lower identity.email with
  | nil =>
      rw [hfound] at h
      dsimp only at h
      cases hpolicy : policy.autoProvision with
      | false =>
          rw [hpolicy] at h
          contradiction
      | true =>
          rw [hpolicy] at h
          obtain ⟨new, hnew, hsame⟩ := bind_eq_ok h
          obtain rfl := Sum.inl.inj (Except.ok.inj hsame)
          obtain ⟨hgrown, hid⟩ := Accounts.createUser_grown hnew
          exact ⟨⟨_, hgrown⟩, .inl ⟨hfound, hpolicy, hid⟩⟩
  | cons account others =>
      rw [hfound] at h
      dsimp only at h
      split_ifs at h with _ hactive hpolicy
      · cases h
      obtain rfl := Sum.inl.inj (Except.ok.inj h)
      simp only [Bool.or_eq_true, Bool.not_eq_true', not_or, Bool.not_eq_false] at hactive hpolicy
      exact ⟨⟨_, .refl a⟩, .inr ⟨account, others, hfound, hactive, hpolicy.1, hpolicy.2, rfl⟩⟩

/-- A first login that signs in finds the identity linked meanwhile, or links it. -/
theorem Accounts.provisionOidc_cases {after : Accounts} {answer : Answer}
    (h : a.provisionOidc lower identity policy = .ok (after, answer)) :
    (after = a ∧ ∃ existing, answer = .confirmWithPassword existing) ∨
      ∃ shown, answer = .signedIn shown ∧
        (after = a ∧ ⟨shown.id, identity.issuer, identity.subject⟩ ∈ a.identities ∨
          (∃ made, Grown a after made (some ⟨shown.id, identity.issuer, identity.subject⟩)) ∧
            a.LandsOn lower identity policy shown.id) := by
  unfold Accounts.provisionOidc at h
  obtain ⟨landed, hlanded, hrest⟩ := bind_eq_ok h
  cases landed with
  | inr existing =>
      obtain ⟨rfl, rfl⟩ := Prod.mk.inj (Except.ok.inj hrest)
      exact .inl ⟨rfl, existing, rfl⟩
  | inl created =>
      obtain ⟨⟨made, hcreated⟩, hlands⟩ := Accounts.provisioned_cases hlanded
      obtain ⟨hassigned, hid⟩ :=
        created.1.applySsoRole_grown created.2 (policy.roleFor identity.groups)
      obtain ⟨linked, hlinked, hanswer⟩ := bind_eq_ok hrest
      cases linked with
      | some linked =>
          obtain ⟨rfl, rfl⟩ := Prod.mk.inj (Except.ok.inj hanswer)
          refine .inr ⟨(created.1.applySsoRole created.2 (policy.roleFor identity.groups)).2, rfl,
            .inr ⟨⟨made, ?_⟩, ?_⟩⟩
          · exact (hcreated.settled hassigned).trans (Accounts.linkIdentity_grown hlinked)
          · rw [hid]
            exact hlands
      | none =>
          obtain ⟨winner, hwinner, hsame⟩ := bind_eq_ok hanswer
          obtain ⟨rfl, rfl⟩ := Prod.mk.inj (Except.ok.inj hsame)
          exact .inr ⟨winner, rfl, .inl ⟨rfl, Accounts.byOidcIdentity_row (okOr_eq_ok hwinner)⟩⟩

theorem Accounts.confirmOidc_cases {after : Accounts} {answer : Answer}
    (h : a.confirmOidc user identity role = .ok (after, answer)) :
    ∃ shown, answer = .signedIn shown ∧ shown.id = user.id ∧
      (after = a ∨ Grown a after [] (some ⟨user.id, identity.issuer, identity.subject⟩)) := by
  unfold Accounts.confirmOidc at h
  obtain ⟨linked, hlinked, hanswer⟩ := bind_eq_ok h
  cases linked with
  | some linked =>
      obtain ⟨rfl, rfl⟩ := Prod.mk.inj (Except.ok.inj hanswer)
      obtain ⟨hassigned, hid⟩ := linked.applySsoRole_grown user role
      exact ⟨_, rfl, hid, .inr ((Accounts.linkIdentity_grown hlinked).settled hassigned)⟩
  | none =>
      obtain ⟨owner, -, hrest⟩ := bind_eq_ok hanswer
      obtain ⟨_, -, hsame⟩ := bind_eq_ok hrest
      obtain ⟨rfl, rfl⟩ := Prod.mk.inj (Except.ok.inj hsame)
      exact ⟨user, rfl, rfl, .inl rfl⟩

/-- What a statement does: it adds, or it deletes a user with their rows. -/
inductive Accounts.Effect (a b : Accounts) : Option OidcLink → Prop
  | grown {made : List Int} {link : Option OidcLink} (h : a.Grown b made link) : Effect a b link
  | deleted (userId : Int) (users : b.users = a.users.filter fun u => u.id != userId)
      (identities : b.identities = a.identities.filter fun row => row.userId != userId)
      (next : b.nextId = a.nextId) : Effect a b none

theorem Accounts.Effect.kept (a : Accounts) : a.Effect a none := .grown (.refl a)

/-- The statements that link an identity. -/
def AccountCall.MayLink : AccountCall → Prop
  | .ssoProvision _ _ | .confirmWrite _ _ _ => True
  | _ => False

theorem settle_kept {result : AppResult (Accounts × Answer)} (a : Accounts)
    (h : ∀ after answer, result = .ok (after, answer) → a.Effect after none) :
    a.Effect (a.settle result).1 none := by
  cases result with
  | ok written => exact h written.1 written.2 rfl
  | error e => exact .kept a

theorem proceed_kept (a : Accounts) (result : AppResult AccountCall) :
    a.Effect (a.proceed result).1 none := by
  cases result with
  | ok next => exact .kept a
  | error e => exact .kept a

theorem Accounts.effect_none (a : Accounts) (hcall : ¬call.MayLink) :
    a.Effect (a.advance lower call).1 none := by
  cases call with
  | updateWrite userId newRole =>
      refine settle_kept a fun after answer hwritten => ?_
      obtain ⟨set, hset, hwritten⟩ := bind_eq_ok hwritten
      obtain ⟨_, -, hset⟩ := bind_eq_ok hset
      obtain ⟨rfl, -⟩ := Prod.mk.inj (Except.ok.inj hwritten)
      obtain rfl := Except.ok.inj hset
      exact .grown (a.setRole_grown userId newRole)
  | deleteWrite userId =>
      refine settle_kept a fun after answer hwritten => ?_
      obtain ⟨deleted, hdeleted, hwritten⟩ := bind_eq_ok hwritten
      obtain ⟨_, -, hdeleted⟩ := bind_eq_ok hdeleted
      obtain ⟨rfl, -⟩ := Prod.mk.inj (Except.ok.inj hwritten)
      obtain rfl := Except.ok.inj hdeleted
      exact .deleted userId rfl rfl rfl
  | ssoLogin identity policy =>
      simp only [Accounts.advance]
      cases a.byOidcIdentity identity.issuer identity.subject with
      | none => exact .kept a
      | some user => exact proceed_kept a _
  | ssoTouch user role => exact .grown (a.applySsoRole_grown user role).1
  | createUser email newRole =>
      refine settle_kept a fun after answer hwritten => ?_
      obtain ⟨created, hcreated, hwritten⟩ := bind_eq_ok hwritten
      obtain ⟨rfl, -⟩ := Prod.mk.inj (Except.ok.inj hwritten)
      exact .grown (Accounts.createUser_grown hcreated).1
  | answered answer => exact .kept a
  | ssoProvision | confirmWrite => exact absurd trivial hcall
  | updateTeamRole | updateTarget | updateGuarded | deleteUser | deleteGuarded | deleteTarget
  | confirmLink => exact proceed_kept a _

theorem Accounts.Effect.linked_eq (h : a.Effect (a.advance lower call).1 link) :
    a.linked lower call = link := by
  unfold Accounts.linked
  cases h with
  | grown hgrown =>
      rw [hgrown.identities, List.drop_left]
      cases link <;> rfl
  | deleted userId _ hidentities _ =>
      rw [hidentities, List.drop_eq_nil_of_le (List.length_filter_le _ _)]
      rfl

/-- The transaction of a first login: what is left, the answer, and the row it added. -/
inductive Accounts.FirstLogin (lower : String → String) (a : Accounts) (identity : OidcIdentity)
    (policy : OidcLinkPolicy) : Accounts → AccountCall → Option OidcLink → Prop
  | refused (e : AppError) : FirstLogin lower a identity policy a (.answered (.error e)) none
  | confirm (existing : Account) :
      FirstLogin lower a identity policy a (.answered (.ok (.confirmWithPassword existing))) none
  | found (shown : Account) : ⟨shown.id, identity.issuer, identity.subject⟩ ∈ a.identities →
      FirstLogin lower a identity policy a (.answered (.ok (.signedIn shown))) none
  | linked {b : Accounts} {made : List Int} (shown : Account) :
      a.Grown b made (some ⟨shown.id, identity.issuer, identity.subject⟩) →
      a.LandsOn lower identity policy shown.id →
      FirstLogin lower a identity policy b (.answered (.ok (.signedIn shown)))
        (some ⟨shown.id, identity.issuer, identity.subject⟩)

theorem Accounts.FirstLogin.effect {next : AccountCall}
    (h : a.FirstLogin lower identity policy b next link) : a.Effect b link := by
  cases h with
  | refused | confirm | found => exact .kept a
  | linked shown hgrown => exact .grown hgrown

theorem Accounts.firstLogin (lower : String → String) (a : Accounts)
    (hcall : call = .ssoProvision identity policy) :
    a.FirstLogin lower identity policy (a.advance lower call).1 (a.advance lower call).2
      (a.linked lower call) := by
  have hexists : ∃ link, a.FirstLogin lower identity policy (a.advance lower call).1
      (a.advance lower call).2 link := by
    rw [hcall]
    change ∃ link, a.FirstLogin lower identity policy
      (a.settle (a.provisionOidc lower identity policy)).1
      (a.settle (a.provisionOidc lower identity policy)).2 link
    cases hwritten : a.provisionOidc lower identity policy with
    | error e => exact ⟨none, .refused e⟩
    | ok written =>
        obtain ⟨after, answer⟩ := written
        rcases Accounts.provisionOidc_cases hwritten with
          ⟨rfl, existing, rfl⟩ | ⟨shown, rfl, ⟨rfl, hrow⟩ | ⟨⟨made, hgrown⟩, hlands⟩⟩
        · exact ⟨none, .confirm existing⟩
        · exact ⟨none, .found shown hrow⟩
        · exact ⟨_, .linked shown hgrown hlands⟩
  obtain ⟨link, hlogin⟩ := hexists
  rw [hlogin.effect.linked_eq]
  exact hlogin

theorem Accounts.FirstLogin.of_linked {next : AccountCall}
    (h : a.FirstLogin lower identity policy b next (some row)) :
    row.issuer = identity.issuer ∧ row.subject = identity.subject ∧
      a.LandsOn lower identity policy row.userId := by
  cases h with
  | linked shown _ hlands => exact ⟨rfl, rfl, hlands⟩

/-- The transaction of a confirmed link. -/
inductive Accounts.Confirmation (a : Accounts) (user : Account) (identity : OidcIdentity) :
    Accounts → AccountCall → Option OidcLink → Prop
  | refused (e : AppError) : Confirmation a user identity a (.answered (.error e)) none
  | found (shown : Account) : shown.id = user.id →
      Confirmation a user identity a (.answered (.ok (.signedIn shown))) none
  | linked {b : Accounts} (shown : Account) : shown.id = user.id →
      a.Grown b [] (some ⟨user.id, identity.issuer, identity.subject⟩) →
      Confirmation a user identity b (.answered (.ok (.signedIn shown)))
        (some ⟨user.id, identity.issuer, identity.subject⟩)

theorem Accounts.Confirmation.effect {next : AccountCall}
    (h : a.Confirmation user identity b next link) : a.Effect b link := by
  cases h with
  | refused | found => exact .kept a
  | linked shown _ hgrown => exact .grown hgrown

theorem Accounts.confirmation (lower : String → String) (a : Accounts)
    (hcall : call = .confirmWrite user identity role) :
    a.Confirmation user identity (a.advance lower call).1 (a.advance lower call).2
      (a.linked lower call) := by
  have hexists : ∃ link, a.Confirmation user identity (a.advance lower call).1
      (a.advance lower call).2 link := by
    rw [hcall]
    change ∃ link, a.Confirmation user identity (a.settle (a.confirmOidc user identity role)).1
      (a.settle (a.confirmOidc user identity role)).2 link
    cases hwritten : a.confirmOidc user identity role with
    | error e => exact ⟨none, .refused e⟩
    | ok written =>
        obtain ⟨after, answer⟩ := written
        obtain ⟨shown, rfl, hid, rfl | hgrown⟩ := Accounts.confirmOidc_cases hwritten
        · exact ⟨none, .found shown hid⟩
        · exact ⟨_, .linked shown hid hgrown⟩
  obtain ⟨link, hconfirmed⟩ := hexists
  rw [hconfirmed.effect.linked_eq]
  exact hconfirmed

theorem Accounts.Confirmation.of_linked {next : AccountCall}
    (h : a.Confirmation user identity b next (some row)) :
    row = ⟨user.id, identity.issuer, identity.subject⟩ := by
  cases h with
  | linked => rfl

theorem Accounts.candidates_email {account : Account} {email : String}
    (h : account ∈ a.candidates lower email) :
    lower account.email = lower (normalizeEmail email) := by
  have hfound := (List.mem_append.mp h).elim List.mem_of_mem_filter List.mem_of_mem_filter
  exact of_decide_eq_true (List.mem_filter.mp (List.mem_mergeSort.mp hfound)).2

theorem Accounts.effect (lower : String → String) (a : Accounts) (call : AccountCall) :
    a.Effect (a.advance lower call).1 (a.linked lower call) := by
  by_cases hcall : call.MayLink
  · cases call with
    | ssoProvision identity policy => exact (a.firstLogin lower rfl).effect
    | confirmWrite user identity role => exact (a.confirmation lower rfl).effect
    | _ => exact hcall.elim
  · rw [(a.effect_none hcall).linked_eq]
    exact a.effect_none hcall

/-! ### The rows -/

/-- The rows of `oidc_identities` are those that were written, of the users there still are, and no
identity has two. -/
structure Accounts.Explained (a : Accounts) (written : List OidcLink) : Prop where
  ids : ∀ id ∈ a.users.map Account.id, id < a.nextId
  past : ∀ row ∈ written, row.userId < a.nextId
  rows : ∀ row, row ∈ a.identities ↔ row ∈ written ∧ row.userId ∈ a.users.map Account.id
  distinct : a.identities.Pairwise fun r r' => r.issuer = r'.issuer → r.subject ≠ r'.subject

theorem Accounts.Explained.grown {written : List OidcLink} (h : a.Explained written)
    (hgrown : a.Grown b made link) : b.Explained (written ++ link.toList) := by
  have hnext : a.nextId ≤ b.nextId := by
    rcases hgrown.next with ⟨-, hnext⟩ | ⟨-, hnext⟩ <;> omega
  have hids : ∀ id ∈ b.users.map Account.id, id < b.nextId := by
    intro id hid
    rw [hgrown.users] at hid
    rcases List.mem_append.mp hid with hold | hnew
    · exact (h.ids id hold).trans_le hnext
    · rcases hgrown.next with ⟨rfl, -⟩ | ⟨rfl, hnext⟩
      · cases hnew
      · rw [List.mem_singleton.mp hnew]
        omega
  refine ⟨hids, ?_, fun row => ⟨?_, ?_⟩, ?_⟩
  · intro row hrow
    rcases List.mem_append.mp hrow with hold | hnew
    · exact (h.past row hold).trans_le hnext
    · exact hids _ (hgrown.linked row (Option.mem_toList.mp hnew)).1
  · intro hrow
    rw [hgrown.identities] at hrow
    rcases List.mem_append.mp hrow with hold | hnew
    · obtain ⟨hwritten, huser⟩ := (h.rows row).mp hold
      refine ⟨List.mem_append_left _ hwritten, ?_⟩
      rw [hgrown.users]
      exact List.mem_append_left _ huser
    · exact ⟨List.mem_append_right _ hnew, (hgrown.linked row (Option.mem_toList.mp hnew)).1⟩
  · rintro ⟨hrow, huser⟩
    rw [hgrown.identities]
    rcases List.mem_append.mp hrow with hold | hnew
    · refine List.mem_append_left _ ((h.rows row).mpr ⟨hold, ?_⟩)
      rw [hgrown.users] at huser
      refine (List.mem_append.mp huser).resolve_right fun hmade => ?_
      -- A user that is made has an id that no row is of yet.
      have hpast := h.past row hold
      rcases hgrown.next with ⟨rfl, -⟩ | ⟨rfl, -⟩
      · cases hmade
      · rw [List.mem_singleton.mp hmade] at hpast
        exact lt_irrefl _ hpast
    · exact List.mem_append_right _ hnew
  · rw [hgrown.identities, List.pairwise_append]
    refine ⟨h.distinct, ?_, ?_⟩
    · cases link with
      | none => exact .nil
      | some row => exact List.pairwise_singleton ..
    · intro other hother row hrow
      exact (hgrown.linked row (Option.mem_toList.mp hrow)).2 other hother

theorem Accounts.Explained.effect {written : List OidcLink} (h : a.Explained written)
    (heffect : a.Effect b link) : b.Explained (written ++ link.toList) := by
  cases heffect with
  | grown hgrown => exact h.grown hgrown
  | deleted userId husers hidentities hnext =>
      have hids : ∀ id, id ∈ b.users.map Account.id ↔
          id ∈ a.users.map Account.id ∧ id ≠ userId := by
        intro id
        rw [husers]
        simp only [List.mem_map, List.mem_filter, bne_iff_ne]
        constructor
        · rintro ⟨u, ⟨hu, hne⟩, rfl⟩
          exact ⟨⟨u, hu, rfl⟩, hne⟩
        · rintro ⟨⟨u, hu, rfl⟩, hne⟩
          exact ⟨u, ⟨hu, hne⟩, rfl⟩
      rw [Option.toList_none, List.append_nil]
      refine ⟨fun id hid => ?_, fun row hrow => ?_, fun row => ?_, ?_⟩
      · rw [hnext]
        exact h.ids id ((hids id).mp hid).1
      · rw [hnext]
        exact h.past row hrow
      · rw [hidentities, List.mem_filter, bne_iff_ne, h.rows, hids, and_assoc]
      · rw [hidentities]
        exact h.distinct.filter _

/-! ## What the history explains -/

/-- The row is of the identity, and the identity was let to the account. -/
def LinkRecord.Consented (lower : String → String) (verifies : String → String → Bool)
    (l : LinkRecord) : Prop :=
  l.row.issuer = l.identity.issuer ∧ l.row.subject = l.identity.subject ∧
    match l.grounds with
    | .provisioned policy before =>
        policy.autoProvision = true ∧ before.candidates lower l.identity.email = [] ∧
          l.row.userId = before.nextId
    | .verifiedEmail policy account =>
        policy.linkExistingAccounts = true ∧ l.identity.emailVerified = true ∧
          account.isActive = true ∧ account.id = l.row.userId ∧
          lower account.email = lower (normalizeEmail l.identity.email)
    | .password proof => proof.user.id = l.row.userId ∧ proof.user.isActive = true ∧
        verifies proof.hash proof.password = true

/-- The exchange was made with the protections of the login. -/
def Exchange.Answers (e : Exchange) (authorization : OidcAuthorization) : Prop :=
  e.request.returnedState = authorization.state ∧ e.request.nonce = authorization.nonce ∧
    e.request.pkceVerifier = authorization.pkceVerifier

namespace SignIns

/-- The provider has answered with the identity. -/
def Knows (t : SignIns) (issuer subject : String) : Prop :=
  ∃ e ∈ t.exchanges, e.identity.issuer = issuer ∧ e.identity.subject = subject

/-- The account's password was given. -/
def Shown (t : SignIns) (userId : Int) : Prop := ∃ proof ∈ t.proofs, proof.user.id = userId

/-- The identity was linked to the account. -/
def Linked (t : SignIns) (userId : Int) (identity : OidcIdentity) : Prop :=
  ∃ l ∈ t.links, l.row = ⟨userId, identity.issuer, identity.subject⟩

/-- Somebody was let into the account. -/
def Entered (t : SignIns) (userId : Int) : Prop :=
  t.Shown userId ∨ userId ∈ t.invited ∨ ∃ e ∈ t.exchanges, t.Linked userId e.identity

/-- What a session says is so. -/
structure Holds (t : SignIns) (session : Session) : Prop where
  entered : ∀ userId ∈ session.userId, t.Entered userId
  /-- The three protections are of one login. -/
  protections : ∀ state ∈ session.oidcState, ∃ authorization ∈ t.authorizations,
    authorization.state = state ∧ (∀ nonce ∈ session.oidcNonce, authorization.nonce = nonce) ∧
      ∀ verifier ∈ session.oidcPkce, authorization.pkceVerifier = verifier
  pending : ∀ p ∈ session.pendingLink, t.Knows p.issuer p.subject

end SignIns

/-- The requests of the team page, and where they go on to. -/
def AccountCall.IsTeam : AccountCall → Prop
  | .updateTeamRole _ _ _ | .updateTarget _ _ _ _ | .updateGuarded _ _ _ | .updateWrite _ _
  | .deleteUser _ _ | .deleteGuarded _ _ | .deleteTarget _ | .deleteWrite _ | .answered _ => True
  | _ => False

/-- How far a visit may have come. -/
inductive SignIns.Sound (t : SignIns) : Entrance → AccountCall → Prop
  | refused (entrance : Entrance) (e : AppError) : Sound t entrance (.answered (.error e))
  | ssoLogin {e : Exchange} (policy : OidcLinkPolicy) : e ∈ t.exchanges →
      Sound t (.sso e) (.ssoLogin e.identity policy)
  | ssoProvision {e : Exchange} (policy : OidcLinkPolicy) : e ∈ t.exchanges →
      Sound t (.sso e) (.ssoProvision e.identity policy)
  | ssoTouch {e : Exchange} (user : Account) (role : Option UserRole) : e ∈ t.exchanges →
      t.Linked user.id e.identity → Sound t (.sso e) (.ssoTouch user role)
  | ssoSignedIn {e : Exchange} (user : Account) : e ∈ t.exchanges → t.Linked user.id e.identity →
      Sound t (.sso e) (.answered (.ok (.signedIn user)))
  | ssoConfirm {e : Exchange} (user : Account) : e ∈ t.exchanges →
      Sound t (.sso e) (.answered (.ok (.confirmWithPassword user)))
  | confirmLink {pending : PendingLink} (password : String) (userId : Int)
      (passwordMatches : Bool) (role : Option UserRole) :
      t.Knows pending.issuer pending.subject →
      Sound t (.confirm pending password)
        (.confirmLink pending.identity userId passwordMatches role)
  | confirmWrite {pending : PendingLink} {password : String} {user : Account}
      (role : Option UserRole) : t.Knows pending.issuer pending.subject →
      (∃ proof ∈ t.proofs, proof.user = user ∧ proof.password = password) →
      Sound t (.confirm pending password) (.confirmWrite user pending.identity role)
  | confirmed (pending : PendingLink) (password : String) (user : Account) : t.Shown user.id →
      Sound t (.confirm pending password) (.answered (.ok (.signedIn user)))
  | createUser (email : String) (role : UserRole) : Sound t .invitation (.createUser email role)
  | invited (user : Account) : user.id ∈ t.invited →
      Sound t .invitation (.answered (.ok (.signedIn user)))
  | password (user : Account) : t.Shown user.id →
      Sound t .password (.answered (.ok (.signedIn user)))
  | team {call : AccountCall} : call.IsTeam → Sound t .team call

namespace SignIns

variable {t t' : SignIns} {session : Session} {v : Visit} {entrance : Entrance} {userId : Int}
  {issuer subject : String}

/-- The invariant of the runs. -/
structure Kept (lower : String → String) (verifies : String → String → Bool) (t : SignIns) :
    Prop where
  explained : t.accounts.Explained (t.links.map LinkRecord.row)
  consented : ∀ l ∈ t.links, l.Consented lower verifies ∧ t.Knows l.row.issuer l.row.subject
  proofs : ∀ p ∈ t.proofs, p.user.isActive = true ∧ verifies p.hash p.password = true
  exchanges : ∀ e ∈ t.exchanges, ∃ authorization ∈ t.authorizations, e.Answers authorization
  cookies : ∀ session ∈ t.issued, t.Holds session
  visits : ∀ v ∈ t.visits, t.Holds v.session ∧ t.Sound v.entrance v.call

/-- The history goes on. -/
structure Extends (t t' : SignIns) : Prop where
  authorizations : t.authorizations ⊆ t'.authorizations
  exchanges : t.exchanges ⊆ t'.exchanges
  proofs : t.proofs ⊆ t'.proofs
  invited : t.invited ⊆ t'.invited
  links : t.links ⊆ t'.links

theorem Knows.mono (h : t.Knows issuer subject) (hext : t.Extends t') : t'.Knows issuer subject := by
  obtain ⟨e, he, hidentity⟩ := h
  exact ⟨e, hext.exchanges he, hidentity⟩

theorem Shown.mono (h : t.Shown userId) (hext : t.Extends t') : t'.Shown userId := by
  obtain ⟨proof, hproof, hid⟩ := h
  exact ⟨proof, hext.proofs hproof, hid⟩

theorem Linked.mono (h : t.Linked userId identity) (hext : t.Extends t') :
    t'.Linked userId identity := by
  obtain ⟨l, hl, hrow⟩ := h
  exact ⟨l, hext.links hl, hrow⟩

theorem Entered.mono (h : t.Entered userId) (hext : t.Extends t') : t'.Entered userId := by
  rcases h with hshown | hinvited | ⟨e, he, hlinked⟩
  · exact .inl (hshown.mono hext)
  · exact .inr (.inl (hext.invited hinvited))
  · exact .inr (.inr ⟨e, hext.exchanges he, hlinked.mono hext⟩)

theorem Holds.mono (h : t.Holds session) (hext : t.Extends t') : t'.Holds session where
  entered userId huser := (h.entered userId huser).mono hext
  protections state hstate := by
    obtain ⟨authorization, hmem, hsame⟩ := h.protections state hstate
    exact ⟨authorization, hext.authorizations hmem, hsame⟩
  pending p hp := (h.pending p hp).mono hext

theorem Sound.mono (h : t.Sound entrance call) (hext : t.Extends t') : t'.Sound entrance call := by
  cases h with
  | refused _ e => exact .refused _ e
  | ssoLogin policy he => exact .ssoLogin policy (hext.exchanges he)
  | ssoProvision policy he => exact .ssoProvision policy (hext.exchanges he)
  | ssoTouch user role he hlinked =>
      exact .ssoTouch user role (hext.exchanges he) (hlinked.mono hext)
  | ssoSignedIn user he hlinked => exact .ssoSignedIn user (hext.exchanges he) (hlinked.mono hext)
  | ssoConfirm user he => exact .ssoConfirm user (hext.exchanges he)
  | confirmLink password userId passwordMatches role hknows =>
      exact .confirmLink password userId passwordMatches role (hknows.mono hext)
  | confirmWrite role hknows hproof =>
      obtain ⟨proof, hmem, hsame⟩ := hproof
      exact .confirmWrite role (hknows.mono hext) ⟨proof, hext.proofs hmem, hsame⟩
  | confirmed pending password user hshown => exact .confirmed pending password user (hshown.mono hext)
  | createUser email role => exact .createUser email role
  | invited user hinvited => exact .invited user (hext.invited hinvited)
  | password user hshown => exact .password user (hshown.mono hext)
  | team hteam => exact .team hteam

theorem Extends.of_eq (hauthorizations : t'.authorizations = t.authorizations)
    (hexchanges : t'.exchanges = t.exchanges) (hproofs : t'.proofs = t.proofs)
    (hinvited : t'.invited = t.invited) (hlinks : t'.links = t.links) : t.Extends t' where
  authorizations := fun _ h => hauthorizations ▸ h
  exchanges := fun _ h => hexchanges ▸ h
  proofs := fun _ h => hproofs ▸ h
  invited := fun _ h => hinvited ▸ h
  links := fun _ h => hlinks ▸ h

variable {query : SsoCallbackQuery} {request : CodeExchange}

/-- A session without the one-time values. -/
theorem Holds.forget (h : t.Holds session) (nonce verifier : Option String) :
    t.Holds { session with oidcState := none, oidcNonce := nonce, oidcPkce := verifier } where
  entered := h.entered
  protections := by simp
  pending := h.pending

theorem Holds.takeCallback (h : t.Holds session) (query : SsoCallbackQuery) :
    t.Holds (session.takeCallback query).1 := by
  unfold Session.takeCallback
  cases hstate : session.oidcState with
  | none => exact h
  | some state =>
      cases hnonce : session.oidcNonce with
      | none => exact h.forget _ _
      | some nonce =>
          cases hpkce : session.oidcPkce with
          | none => exact h.forget _ _
          | some verifier => exact h.forget _ _

/-- A code is exchanged with the protections of one login. -/
theorem Holds.request_answers (h : t.Holds session)
    (hrequest : (session.takeCallback query).2 = .ok request) :
    ∃ authorization ∈ t.authorizations, request.returnedState = authorization.state ∧
      request.nonce = authorization.nonce ∧ request.pkceVerifier = authorization.pkceVerifier := by
  unfold Session.takeCallback at hrequest
  cases hstate : session.oidcState with
  | none => simp [hstate] at hrequest
  | some state =>
      obtain ⟨authorization, hmem, hsame, hnonces, hverifiers⟩ := h.protections state hstate
      cases hnonce : session.oidcNonce with
      | none => simp [hstate, hnonce] at hrequest
      | some nonce =>
          cases hpkce : session.oidcPkce with
          | none => simp [hstate, hnonce, hpkce] at hrequest
          | some verifier =>
              simp only [hstate, hnonce, hpkce] at hrequest
              obtain ⟨returned, -, hrequest⟩ := bind_eq_ok hrequest
              obtain ⟨_, hreturned, hrequest⟩ := bind_eq_ok hrequest
              obtain ⟨_, -, hrequest⟩ := bind_eq_ok hrequest
              obtain ⟨code, -, hrequest⟩ := bind_eq_ok hrequest
              obtain rfl := Except.ok.inj hrequest
              refine ⟨authorization, hmem, ?_, (hnonces nonce hnonce).symm,
                (hverifiers verifier hpkce).symm⟩
              exact (beq_iff_eq.mp (ensure_eq_ok hreturned)).trans hsame.symm

theorem request_of_identify {service : OidcService} {answer : AppResult Claims} {e : Exchange}
    (h : service.identify request answer = .ok e) : e.request = request := by
  unfold OidcService.identify at h
  cases answer with
  | error e => cases h
  | ok claims =>
      dsimp only at h
      split at h
      · cases h
      · split_ifs at h
        obtain rfl := Except.ok.inj h
        rfl

theorem holds_empty (t : SignIns) : t.Holds .empty where
  entered := by simp [Session.empty]
  protections := by simp [Session.empty]
  pending := by simp [Session.empty]

namespace Kept

theorem session_holds (h : t.Kept lower verifies) (cookie : Option Nat) : t.Holds (t.session cookie) := by
  unfold SignIns.session
  cases hcookie : cookie.bind (t.issued[·]?) with
  | none => exact holds_empty t
  | some session =>
      obtain ⟨i, -, hi⟩ := Option.bind_eq_some_iff.mp hcookie
      exact h.cookies session (List.mem_of_getElem? hi)

/-- Something is added to the history, and nothing to the tables. -/
theorem extends_kept (h : t.Kept lower verifies) (hext : t.Extends t')
    (haccounts : t'.accounts = t.accounts) (hlinks : t'.links = t.links)
    (hissued : t'.issued ⊆ t.issued) (hvisits : t'.visits ⊆ t.visits)
    (hproofs : ∀ p ∈ t'.proofs, p.user.isActive = true ∧ verifies p.hash p.password = true)
    (hexchanges : ∀ e ∈ t'.exchanges, ∃ authorization ∈ t'.authorizations,
      e.Answers authorization) : t'.Kept lower verifies where
  explained := by
    rw [haccounts, hlinks]
    exact h.explained
  consented l hl := by
    obtain ⟨hconsented, hknows⟩ := h.consented l (hlinks ▸ hl)
    exact ⟨hconsented, hknows.mono hext⟩
  proofs := hproofs
  exchanges := hexchanges
  cookies session hsession := (h.cookies session (hissued hsession)).mono hext
  visits v hv := by
    obtain ⟨hholds, hsound⟩ := h.visits v (hvisits hv)
    exact ⟨hholds.mono hext, hsound.mono hext⟩

/-- Neither are told apart by the history. -/
theorem same_kept (h : t.Kept lower verifies) (hext : t.Extends t')
    (haccounts : t'.accounts = t.accounts) (hlinks : t'.links = t.links)
    (hproofs : t'.proofs = t.proofs) (hexchanges : t'.exchanges = t.exchanges)
    (hissued : t'.issued ⊆ t.issued) (hvisits : t'.visits ⊆ t.visits) : t'.Kept lower verifies := by
  refine h.extends_kept hext haccounts hlinks hissued hvisits ?_ fun e he => ?_
  · rw [hproofs]
    exact h.proofs
  · obtain ⟨authorization, hmem, hanswers⟩ := h.exchanges e (hexchanges ▸ he)
    exact ⟨authorization, hext.authorizations hmem, hanswers⟩

theorem issue (h : t.Kept lower verifies) {session : Session} (hsession : t.Holds session) :
    (t.issue session).Kept lower verifies := by
  have hext : t.Extends (t.issue session) := .of_eq rfl rfl rfl rfl rfl
  refine ⟨h.explained, h.consented, h.proofs, h.exchanges, fun other hother => ?_, fun v hv =>
    ⟨(h.visits v hv).1.mono hext, (h.visits v hv).2.mono hext⟩⟩
  rcases List.mem_append.mp hother with hold | hnew
  · exact (h.cookies other hold).mono hext
  · rw [List.mem_singleton.mp hnew]
    exact hsession.mono hext

theorem receive (h : t.Kept lower verifies) (hholds : t.Holds v.session)
    (hsound : t.Sound v.entrance v.call) : (t.receive v).Kept lower verifies := by
  have hext : t.Extends (t.receive v) := .of_eq rfl rfl rfl rfl rfl
  refine ⟨h.explained, h.consented, h.proofs, h.exchanges, fun session hsession =>
    (h.cookies session hsession).mono hext, fun other hother => ?_⟩
  rcases List.mem_append.mp hother with hold | hnew
  · exact ⟨(h.visits other hold).1.mono hext, (h.visits other hold).2.mono hext⟩
  · rw [List.mem_singleton.mp hnew]
    exact ⟨hholds.mono hext, hsound.mono hext⟩

end Kept

/-! ### Requests that come in -/

theorem Holds.enter (h : t.Holds session) (hentered : t.Entered userId)
    {pending : Option PendingLink} (hpending : ∀ p ∈ pending, t.Knows p.issuer p.subject) :
    t.Holds { session with userId := some userId, pendingLink := pending } where
  entered := by
    rintro _ ⟨⟩
    exact hentered
  protections := h.protections
  pending := hpending

theorem Kept.ssoStart (h : t.Kept lower verifies) (hsession : t.Holds session)
    (authorization : OidcAuthorization) : (t.ssoStart session authorization).Kept lower verifies := by
  unfold SignIns.ssoStart
  split
  · exact h
  · let handed : SignIns := { t with authorizations := t.authorizations ++ [authorization] }
    have hext : t.Extends handed :=
      ⟨fun _ => List.mem_append_left _, List.Subset.refl _, List.Subset.refl _,
        List.Subset.refl _, List.Subset.refl _⟩
    have hhanded : handed.Kept lower verifies :=
      h.same_kept hext rfl rfl rfl rfl (List.Subset.refl _) (List.Subset.refl _)
    refine hhanded.issue ⟨(hsession.mono hext).entered, ?_, (hsession.mono hext).pending⟩
    rintro _ ⟨⟩
    refine ⟨authorization, List.mem_append_right _ (List.mem_singleton_self _), rfl, ?_, ?_⟩
    · rintro _ ⟨⟩
      rfl
    · rintro _ ⟨⟩
      rfl

theorem Kept.ssoCallback (h : t.Kept lower verifies) (hsession : t.Holds session)
    (query : SsoCallbackQuery) (answer : AppResult Claims) :
    (t.ssoCallback session query answer).Kept lower verifies := by
  unfold SignIns.ssoCallback
  split
  · exact h
  · rename_i service _
    dsimp only
    split
    · exact h.issue (hsession.takeCallback query)
    · rename_i e hexchange
      obtain ⟨request, hrequest, hidentify⟩ := bind_eq_ok hexchange
      let answered : SignIns := { t with exchanges := t.exchanges ++ [e] }
      have hext : t.Extends answered :=
        ⟨List.Subset.refl _, fun _ => List.mem_append_left _, List.Subset.refl _,
          List.Subset.refl _, List.Subset.refl _⟩
      have hanswered : answered.Kept lower verifies := by
        refine h.extends_kept hext rfl rfl (List.Subset.refl _) (List.Subset.refl _) h.proofs
          fun other hother => ?_
        rcases List.mem_append.mp hother with hold | hnew
        · exact h.exchanges other hold
        · rw [List.mem_singleton.mp hnew]
          unfold Exchange.Answers
          rw [request_of_identify hidentify]
          exact hsession.request_answers hrequest
      refine hanswered.receive ((hsession.takeCallback query).mono hext) ?_
      exact .ssoLogin service.linkPolicy (List.mem_append_right _ (List.mem_singleton_self _))

theorem Kept.confirmSsoLink (h : t.Kept lower verifies) (hsession : t.Holds session)
    (password : String) : (t.confirmSsoLink session password).Kept lower verifies := by
  unfold SignIns.confirmSsoLink
  cases t.oidc with
  | none => exact h
  | some service =>
      cases hpending : session.pendingLink with
      | none => exact h
      | some pending =>
          exact h.receive hsession
            (.confirmLink password _ false _ (hsession.pending pending hpending))

theorem Kept.login (h : t.Kept lower verifies) (hsession : t.Holds session)
    (email password : String) :
    (t.login lower verifies session email password).Kept lower verifies := by
  unfold SignIns.login
  cases t.accounts.getByEmail lower (trim email) with
  | none => exact h
  | some user =>
      dsimp only
      split_ifs with hmatches
      · let shown : SignIns :=
          { t with proofs := t.proofs ++ [⟨user, t.hashes user.id, password⟩] }
        have hext : t.Extends shown :=
          ⟨List.Subset.refl _, List.Subset.refl _, fun _ => List.mem_append_left _,
            List.Subset.refl _, List.Subset.refl _⟩
        have hshown : shown.Kept lower verifies := by
          refine h.extends_kept hext rfl rfl (List.Subset.refl _) (List.Subset.refl _)
            (fun p hp => ?_) h.exchanges
          rcases List.mem_append.mp hp with hold | hnew
          · exact h.proofs p hold
          · rw [List.mem_singleton.mp hnew]
            exact Bool.and_eq_true_iff.mp hmatches
        exact hshown.receive (hsession.mono hext)
          (.password user ⟨_, List.mem_append_right _ (List.mem_singleton_self _), rfl⟩)
      · exact h

theorem Kept.changePassword (h : t.Kept lower verifies) (session : Session)
    (currentPassword newPassword passwordHash : String) :
    (t.changePassword verifies session currentPassword newPassword passwordHash).Kept lower
      verifies := by
  unfold SignIns.changePassword
  cases t.authenticated session with
  | none => exact h
  | some user =>
      dsimp only
      split_ifs
      · exact h.same_kept (.of_eq rfl rfl rfl rfl rfl) rfl rfl rfl rfl (List.Subset.refl _)
          (List.Subset.refl _)
      · exact h

theorem Kept.writePassword (h : t.Kept lower verifies) (change : PasswordChange) :
    (t.writePassword change).Kept lower verifies := by
  unfold SignIns.writePassword
  split_ifs
  · exact h.same_kept (.of_eq rfl rfl rfl rfl rfl) rfl rfl rfl rfl (List.Subset.refl _)
      (List.Subset.refl _)
  · exact h

/-! ### Answers -/

theorem Holds.answer (hholds : t.Holds v.session) (hsound : t.Sound v.entrance v.call) :
    t.Holds (t.answer v) := by
  obtain ⟨session, entrance, call⟩ := v
  cases hsound with
  | ssoSignedIn user he hlinked =>
      exact hholds.enter (.inr (.inr ⟨_, he, hlinked⟩)) hholds.pending
  | ssoConfirm user he =>
      refine ⟨hholds.entered, hholds.protections, ?_⟩
      rintro _ ⟨⟩
      exact ⟨_, he, rfl, rfl⟩
  | confirmed pending password user hshown =>
      exact hholds.enter (.inl hshown) (by simp)
  | invited user hinvited =>
      unfold SignIns.answer
      dsimp only
      split_ifs
      · exact holds_empty t
      · exact hholds.enter (.inr (.inl hinvited)) hholds.pending
  | password user hshown =>
      unfold SignIns.answer
      dsimp only
      split_ifs
      · exact hholds
      · exact hholds.enter (.inl hshown) hholds.pending
  | refused => cases entrance <;> exact hholds
  | _ => exact hholds

theorem Kept.respond (h : t.Kept lower verifies) (i : Nat) (hv : v ∈ t.visits) :
    (t.respond i v).Kept lower verifies := by
  let left : SignIns := { t with visits := t.visits.eraseIdx i }
  have hext : t.Extends left := .of_eq rfl rfl rfl rfl rfl
  have hleft : left.Kept lower verifies :=
    h.same_kept hext rfl rfl rfl rfl (List.Subset.refl _) (List.eraseIdx_subset ..)
  obtain ⟨hholds, hsound⟩ := h.visits v hv
  exact hleft.issue ((hholds.answer hsound).mono hext)

/-! ### Statements -/

theorem proceed_cases (a : Accounts) (result : AppResult AccountCall) :
    (∃ e, (a.proceed result).2 = .answered (.error e)) ∨
      ∃ next, result = .ok next ∧ (a.proceed result).2 = next := by
  cases result with
  | ok next => exact .inr ⟨next, rfl, rfl⟩
  | error e => exact .inl ⟨e, rfl⟩

/-- A link goes on to be written for an active account whose password was given. -/
theorem confirmLink_cases (lower : String → String) (a : Accounts) (identity : OidcIdentity)
    (userId : Int) (passwordMatches : Bool) (role : Option UserRole) :
    (∃ e, (a.advance lower (.confirmLink identity userId passwordMatches role)).2 =
      .answered (.error e)) ∨
    ∃ user, user.id = userId ∧ user.isActive = true ∧ passwordMatches = true ∧
      (a.advance lower (.confirmLink identity userId passwordMatches role)).2 =
        .confirmWrite user identity role := by
  refine (proceed_cases a _).imp_right ?_
  rintro ⟨next, hread, hnext⟩
  obtain ⟨user, huser, hread⟩ := bind_eq_ok hread
  obtain ⟨_, hactive, hread⟩ := bind_eq_ok hread
  obtain ⟨_, hmatches, hread⟩ := bind_eq_ok hread
  obtain rfl := Except.ok.inj hread
  refine ⟨user, ?_, ensure_eq_ok hactive, ensure_eq_ok hmatches, hnext⟩
  simpa using List.find?_some (okOr_eq_ok huser)

/-- What is put on record as the password of an account is. -/
theorem Sound.proved_matches (hsound : t.Sound v.entrance v.call)
    (hopen : ∀ answer, v.call ≠ .answered answer) {p : PasswordProof}
    (hp : t.proved v (t.accounts.advance lower (t.asks verifies v)).2 = some p) :
    p.user.isActive = true ∧ verifies p.hash p.password = true := by
  obtain ⟨session, entrance, call⟩ := v
  cases hsound with
  | @confirmLink pending password userId passwordMatches role hknows =>
      have hasks : t.asks verifies ⟨session, .confirm pending password,
        .confirmLink pending.identity userId passwordMatches role⟩ =
          .confirmLink pending.identity userId (verifies (t.hashes userId) password) role := rfl
      rw [hasks] at hp
      rcases confirmLink_cases lower t.accounts pending.identity userId
        (verifies (t.hashes userId) password) role with ⟨e, hnext⟩ | ⟨user, rfl, hactive, hmatches, hnext⟩
      · rw [hnext] at hp
        cases hp
      · rw [hnext] at hp
        obtain rfl := Option.some.inj hp
        exact ⟨hactive, hmatches⟩
  | @confirmWrite pending password user role _ _ =>
      have hasks : t.asks verifies ⟨session, .confirm pending password,
        .confirmWrite user pending.identity role⟩ = .confirmWrite user pending.identity role := rfl
      have hconfirmed := t.accounts.confirmation lower hasks
      revert hp hconfirmed
      generalize (t.accounts.advance lower _).2 = next
      generalize t.accounts.linked lower _ = link
      generalize (t.accounts.advance lower _).1 = after
      intro hp hconfirmed
      cases hconfirmed with
      | refused | found | linked => cases hp
  | refused => exact absurd rfl (hopen _)
  | _ => cases hp

/-- A row that is added has a record, with good grounds. -/
theorem Kept.recorded (h : t.Kept lower verifies) (hsound : t.Sound v.entrance v.call)
    (hrow : t.accounts.linked lower (t.asks verifies v) = some row) :
    ∃ l, t.recorded lower v row = some l ∧ l.row = row ∧ l.Consented lower verifies ∧
      t.Knows row.issuer row.subject := by
  have hlinks : (t.asks verifies v).MayLink := by
    by_contra hnot
    rw [(t.accounts.effect_none hnot).linked_eq] at hrow
    cases hrow
  obtain ⟨session, entrance, call⟩ := v
  cases hsound with
  | @ssoProvision e policy he =>
      have hasks : t.asks verifies ⟨session, .sso e, .ssoProvision e.identity policy⟩ =
        .ssoProvision e.identity policy := rfl
      have hlogin := t.accounts.firstLogin lower hasks
      rw [hrow] at hlogin
      obtain ⟨hissuer, hsubject, hlands⟩ := hlogin.of_linked
      have hknows : t.Knows row.issuer row.subject := ⟨e, he, hissuer.symm, hsubject.symm⟩
      unfold SignIns.recorded
      dsimp only
      rcases hlands with ⟨hnone, hpolicy, hid⟩ | ⟨account, others, hfound, hactive, hpolicy,
        hverified, hid⟩
      · rw [hnone]
        exact ⟨_, rfl, rfl, ⟨hissuer, hsubject, hpolicy, hnone, hid⟩, hknows⟩
      · have hemail : account ∈ t.accounts.candidates lower e.identity.email := by
          rw [hfound]
          exact List.mem_cons_self ..
        rw [hfound]
        exact ⟨_, rfl, rfl, ⟨hissuer, hsubject, hpolicy, hverified, hactive, hid.symm,
          Accounts.candidates_email hemail⟩, hknows⟩
  | @confirmWrite pending password user role hknows hproof =>
      have hasks : t.asks verifies ⟨session, .confirm pending password,
        .confirmWrite user pending.identity role⟩ = .confirmWrite user pending.identity role := rfl
      have hconfirmed := t.accounts.confirmation lower hasks
      rw [hrow] at hconfirmed
      obtain rfl := hconfirmed.of_linked
      obtain ⟨shown, hshown, hsame⟩ := hproof
      have hsome : (t.proofs.find? fun p => p.user = user && p.password = password).isSome := by
        exact List.find?_isSome.mpr ⟨shown, hshown, by simp [hsame]⟩
      obtain ⟨proof, hfound⟩ := Option.isSome_iff_exists.mp hsome
      have hmatch := List.find?_some hfound
      simp only [Bool.and_eq_true, decide_eq_true_eq] at hmatch
      obtain ⟨hactive, hverifies⟩ := h.proofs proof (List.mem_of_find?_eq_some hfound)
      unfold SignIns.recorded
      dsimp only
      rw [hfound]
      exact ⟨_, rfl, rfl, ⟨rfl, rfl, congrArg Account.id hmatch.1, hactive, hverifies⟩, hknows⟩
  | team hteam =>
      cases call with
      | ssoProvision | confirmWrite => exact False.elim hteam
      | _ => exact False.elim hlinks
  | refused => cases entrance <;> exact False.elim hlinks
  | _ => exact False.elim hlinks

theorem Kept.linked (h : t.Kept lower verifies)
    (hrow : ⟨userId, identity.issuer, identity.subject⟩ ∈ t.accounts.identities) :
    t.Linked userId identity := by
  obtain ⟨l, hl, hsame⟩ := List.mem_map.mp ((h.explained.rows _).mp hrow).1
  exact ⟨l, hl, hsame⟩

theorem isTeam_proceed (a : Accounts) {result : AppResult AccountCall}
    (h : ∀ next, result = .ok next → next.IsTeam) : (a.proceed result).2.IsTeam := by
  cases result with
  | ok next => exact h next rfl
  | error e => trivial

theorem isTeam_settle (a : Accounts) (result : AppResult (Accounts × Answer)) :
    (a.settle result).2.IsTeam := by
  cases result with
  | ok written => trivial
  | error e => trivial

theorem isTeam_advance (a : Accounts) (h : call.IsTeam) : (a.advance lower call).2.IsTeam := by
  cases call with
  | updateTeamRole actor userId role =>
      refine isTeam_proceed a fun next hnext => ?_
      obtain ⟨_, -, hnext⟩ := bind_eq_ok hnext
      obtain ⟨_, -, hnext⟩ := bind_eq_ok hnext
      obtain ⟨_, -, hnext⟩ := bind_eq_ok hnext
      obtain rfl := Except.ok.inj hnext
      trivial
  | updateTarget actor userId newRole target =>
      refine isTeam_proceed a fun next hnext => ?_
      obtain ⟨_, -, hnext⟩ := bind_eq_ok hnext
      obtain ⟨_, -, hnext⟩ := bind_eq_ok hnext
      obtain rfl := Except.ok.inj hnext
      trivial
  | updateGuarded userId newRole target =>
      refine isTeam_proceed a fun next hnext => ?_
      obtain ⟨_, -, hnext⟩ := bind_eq_ok hnext
      obtain rfl := Except.ok.inj hnext
      trivial
  | deleteUser actor userId =>
      refine isTeam_proceed a fun next hnext => ?_
      obtain ⟨_, -, hnext⟩ := bind_eq_ok hnext
      obtain ⟨_, -, hnext⟩ := bind_eq_ok hnext
      obtain ⟨_, -, hnext⟩ := bind_eq_ok hnext
      obtain rfl := Except.ok.inj hnext
      trivial
  | deleteGuarded actor userId =>
      refine isTeam_proceed a fun next hnext => ?_
      obtain ⟨_, -, hnext⟩ := bind_eq_ok hnext
      obtain ⟨_, -, hnext⟩ := bind_eq_ok hnext
      obtain rfl := Except.ok.inj hnext
      split_ifs <;> trivial
  | deleteTarget userId =>
      refine isTeam_proceed a fun next hnext => ?_
      obtain ⟨_, -, hnext⟩ := bind_eq_ok hnext
      obtain rfl := Except.ok.inj hnext
      trivial
  | updateWrite | deleteWrite => exact isTeam_settle a _
  | answered answer => trivial
  | _ => exact False.elim h

/-- A visit goes on soundly, once what it has found is on record. -/
theorem Sound.advance (h : t.Kept lower verifies) (hsound : t.Sound v.entrance v.call)
    (hopen : ∀ answer, v.call ≠ .answered answer) (hext : t.Extends t') {next : AccountCall}
    (hnext : next = (t.accounts.advance lower (t.asks verifies v)).2)
    (hproved : ∀ p ∈ t.proved v next, p ∈ t'.proofs) (hmade : ∀ u ∈ invitee v next, u ∈ t'.invited)
    (hlinked : ∀ row ∈ t.accounts.linked lower (t.asks verifies v), ∃ l ∈ t'.links, l.row = row) :
    t'.Sound v.entrance next := by
  obtain ⟨session, entrance, call⟩ := v
  have hsound' : t'.Sound entrance call := hsound.mono hext
  cases hsound with
  | @ssoLogin e policy he =>
      change next = (t.accounts.advance lower (.ssoLogin e.identity policy)).2 at hnext
      unfold Accounts.advance at hnext
      dsimp only at hnext
      cases hfound : t.accounts.byOidcIdentity e.identity.issuer e.identity.subject with
      | none =>
          rw [hfound] at hnext
          rw [hnext]
          exact .ssoProvision policy (hext.exchanges he)
      | some user =>
          rw [hfound] at hnext
          cases hactive : user.isActive with
          | false =>
              simp only [hactive] at hnext
              rw [hnext]
              exact .refused _ _
          | true =>
              simp only [hactive] at hnext
              rw [hnext]
              exact .ssoTouch user _ (hext.exchanges he)
                ((h.linked (Accounts.byOidcIdentity_row hfound)).mono hext)
  | @ssoProvision e policy he =>
      have hasks : t.asks verifies ⟨session, .sso e, .ssoProvision e.identity policy⟩ =
        .ssoProvision e.identity policy := rfl
      have hlogin := t.accounts.firstLogin lower hasks
      rw [← hnext] at hlogin
      revert hlinked hlogin
      generalize t.accounts.linked lower _ = link
      generalize (t.accounts.advance lower _).1 = after
      intro hlinked hlogin
      cases hlogin with
      | refused error => exact .refused _ error
      | confirm existing => exact .ssoConfirm existing (hext.exchanges he)
      | found shown hrow => exact .ssoSignedIn shown (hext.exchanges he) ((h.linked hrow).mono hext)
      | linked shown _ _ => exact .ssoSignedIn shown (hext.exchanges he) (hlinked _ rfl)
  | @ssoTouch e user role he hlink =>
      change next = (t.accounts.advance lower (.ssoTouch user role)).2 at hnext
      rw [hnext]
      refine .ssoSignedIn (t.accounts.applySsoRole user role).2 (hext.exchanges he) ?_
      rw [(t.accounts.applySsoRole_grown user role).2]
      exact hlink.mono hext
  | @confirmLink pending password userId passwordMatches role hknows =>
      change next = (t.accounts.advance lower (.confirmLink pending.identity userId
        (verifies (t.hashes userId) password) role)).2 at hnext
      rcases confirmLink_cases lower t.accounts pending.identity userId
        (verifies (t.hashes userId) password) role with ⟨e, hcase⟩ | ⟨user, rfl, -, -, hcase⟩
      · rw [hnext, hcase]
        exact .refused _ e
      · rw [hcase] at hnext
        subst hnext
        exact .confirmWrite role (hknows.mono hext) ⟨_, hproved _ rfl, rfl, rfl⟩
  | @confirmWrite pending password user role hknows hproof =>
      have hasks : t.asks verifies ⟨session, .confirm pending password,
        .confirmWrite user pending.identity role⟩ = .confirmWrite user pending.identity role := rfl
      have hconfirmed := t.accounts.confirmation lower hasks
      rw [← hnext] at hconfirmed
      obtain ⟨proof, hmem, hsame, -⟩ := hproof
      have hshown : ∀ shown : Account, shown.id = user.id → t'.Shown shown.id := fun shown hid =>
        ⟨proof, hext.proofs hmem, (congrArg Account.id hsame).trans hid.symm⟩
      revert hconfirmed
      generalize t.accounts.linked lower _ = link
      generalize (t.accounts.advance lower _).1 = after
      intro hconfirmed
      cases hconfirmed with
      | refused error => exact .refused _ error
      | found shown hid => exact .confirmed _ _ shown (hshown shown hid)
      | linked shown hid => exact .confirmed _ _ shown (hshown shown hid)
  | createUser email role =>
      change next = (t.accounts.advance lower (.createUser email role)).2 at hnext
      cases hcreate : t.accounts.createUser email role with
      | error error =>
          have hrefused : next = .answered (.error error) := by
            rw [hnext]
            simp [Accounts.advance, Accounts.settle, hcreate]
          rw [hrefused]
          exact .refused _ error
      | ok created =>
          have hcreated : next = .answered (.ok (.signedIn created.2)) := by
            rw [hnext]
            simp [Accounts.advance, Accounts.settle, hcreate]
          rw [hcreated] at hmade ⊢
          exact .invited _ (hmade _ rfl)
  | team hteam =>
      rw [hnext]
      exact .team (isTeam_advance t.accounts hteam)
  | _ => exact absurd rfl (hopen _)

theorem Kept.advance (h : t.Kept lower verifies) (i : Nat) (hv : v ∈ t.visits)
    (hopen : ∀ answer, v.call ≠ .answered answer) (passwordHash : String) :
    (t.advance lower verifies i v passwordHash).Kept lower verifies := by
  obtain ⟨hholds, hsound⟩ := h.visits v hv
  let after := t.advance lower verifies i v passwordHash
  let next := (t.accounts.advance lower (t.asks verifies v)).2
  have hext : t.Extends after :=
    ⟨List.Subset.refl _, List.Subset.refl _, List.subset_append_left _ _,
      List.subset_append_left _ _, List.subset_append_left _ _⟩
  have hrecord : ∀ row ∈ t.accounts.linked lower (t.asks verifies v), ∃ l,
      t.recorded lower v row = some l ∧ l.row = row ∧ l.Consented lower verifies ∧
        t.Knows row.issuer row.subject :=
    fun row hrow => h.recorded hsound hrow
  have hnew : ∀ l ∈ (t.accounts.linked lower (t.asks verifies v)).bind (t.recorded lower v),
      l.Consented lower verifies ∧ t.Knows l.row.issuer l.row.subject := by
    intro l hl
    obtain ⟨row, hrow, hl⟩ := Option.bind_eq_some_iff.mp hl
    obtain ⟨l', hl', rfl, hconsented, hknows⟩ := hrecord row hrow
    obtain rfl := Option.some.inj (hl.symm.trans hl')
    exact ⟨hconsented, hknows⟩
  have hrows : after.links.map LinkRecord.row = t.links.map LinkRecord.row ++
      (t.accounts.linked lower (t.asks verifies v)).toList := by
    change (t.links ++ _).map _ = _
    rw [List.map_append]
    congr 1
    cases hlink : t.accounts.linked lower (t.asks verifies v) with
    | none => rfl
    | some row =>
        obtain ⟨l, hl, rfl, -⟩ := hrecord row hlink
        simp [hl]
  refine ⟨?_, ?_, ?_, h.exchanges, fun session hsession => (h.cookies session hsession).mono hext,
    ?_⟩
  · change after.accounts.Explained (after.links.map LinkRecord.row)
    rw [hrows]
    exact h.explained.effect (t.accounts.effect lower (t.asks verifies v))
  · intro l hl
    rcases List.mem_append.mp hl with hold | hlast
    · exact h.consented l hold
    · exact hnew l (Option.mem_toList.mp hlast)
  · intro p hp
    rcases List.mem_append.mp hp with hold | hlast
    · exact h.proofs p hold
    · exact hsound.proved_matches hopen (Option.mem_toList.mp hlast)
  · intro other hother
    rcases List.mem_or_eq_of_mem_set hother with hold | rfl
    · exact ⟨(h.visits other hold).1.mono hext, (h.visits other hold).2.mono hext⟩
    · refine ⟨hholds.mono hext, hsound.advance h hopen hext rfl (fun p hp => ?_) (fun u hu => ?_)
        fun row hrow => ?_⟩
      · exact List.mem_append_right _ (Option.mem_toList.mpr hp)
      · exact List.mem_append_right _ (Option.mem_toList.mpr hu)
      · obtain ⟨l, hl, hrow', -⟩ := hrecord row hrow
        refine ⟨l, List.mem_append_right _ (Option.mem_toList.mpr ?_), hrow'⟩
        exact Option.bind_eq_some_iff.mpr ⟨row, hrow, hl⟩

/-! ### Runs -/

theorem Kept.step {label : SignInLabel} (h : t.Kept lower verifies)
    (hstep : SignInStep lower verifies t label t') : t'.Kept lower verifies := by
  obtain rfl := hstep
  cases label with
  | ssoStart cookie authorization => exact h.ssoStart (h.session_holds cookie) authorization
  | ssoCallback cookie query answer => exact h.ssoCallback (h.session_holds cookie) query answer
  | confirmSsoLink cookie password => exact h.confirmSsoLink (h.session_holds cookie) password
  | login cookie email password => exact h.login (h.session_holds cookie) email password
  | acceptInvitation cookie email role =>
      exact h.receive (h.session_holds cookie) (.createUser email role)
  | logout => exact h.issue (holds_empty t)
  | changePassword cookie currentPassword newPassword passwordHash =>
      exact h.changePassword (t.session cookie) currentPassword newPassword passwordHash
  | updateTeamRole actor userId role => exact h.receive (holds_empty t) (.team trivial)
  | deleteUser actor userId => exact h.receive (holds_empty t) (.team trivial)
  | advance i passwordHash =>
      dsimp only [SignIns.step]
      split
      · exact h
      · rename_i v hvisit
        have hv : v ∈ t.visits := List.mem_of_getElem? hvisit
        split
        · exact h.respond i hv
        · rename_i hcall
          exact h.advance i hv hcall passwordHash
  | writePassword i =>
      dsimp only [SignIns.step]
      cases t.changes[i]? with
      | none => exact h
      | some change => exact h.writePassword change
  | restart oidc =>
      exact h.same_kept (.of_eq rfl rfl rfl rfl rfl) rfl rfl rfl rfl (List.Subset.refl _)
        (List.nil_subset _)

/-- No session was opened, and no identity linked. -/
structure Untouched (t : SignIns) : Prop where
  ids : ∀ u ∈ t.accounts.users, u.id < t.accounts.nextId
  identities : t.accounts.identities = []
  issued : t.issued = []
  visits : t.visits = []
  exchanges : t.exchanges = []
  proofs : t.proofs = []
  links : t.links = []

theorem Untouched.kept (h : t.Untouched) : t.Kept lower verifies where
  explained := by
    refine ⟨fun id hid => ?_, by simp [h.links], fun row => by simp [h.identities, h.links],
      by simp [h.identities]⟩
    obtain ⟨u, hu, rfl⟩ := List.mem_map.mp hid
    exact h.ids u hu
  consented := by simp [h.links]
  proofs := by simp [h.proofs]
  exchanges := by simp [h.exchanges]
  cookies := by simp [h.issued]
  visits := by simp [h.visits]

theorem Untouched.run {s : SignIns} {labels : List SignInLabel} (h : s.Untouched)
    (hrun : Run (SignInStep lower verifies) s labels t) : t.Kept lower verifies :=
  hrun.invariant (Kept lower verifies) (fun _ _ _ h hstep => h.step hstep) h.kept

end SignIns

/-! ## Who is let in -/

section Runs

variable {s t : SignIns} {labels : List SignInLabel}

/-- The identities that are linked are those that ever were, of the accounts there still are, so
none moves to another account while its own is there; each was linked on good grounds, and after
the provider had answered with it. -/
theorem identity_stays_with_account (hstart : s.Untouched)
    (hrun : Run (SignInStep lower verifies) s labels t) :
    (∀ row, row ∈ t.accounts.identities ↔
      (∃ l ∈ t.links, l.row = row) ∧ ∃ u ∈ t.accounts.users, u.id = row.userId) ∧
    (t.accounts.identities.Pairwise fun r r' => r.issuer = r'.issuer → r.subject ≠ r'.subject) ∧
    ∀ l ∈ t.links, l.Consented lower verifies ∧
      ∃ e ∈ t.exchanges, e.identity.issuer = l.row.issuer ∧ e.identity.subject = l.row.subject := by
  have hkept := hstart.run hrun
  refine ⟨fun row => ?_, hkept.explained.distinct, hkept.consented⟩
  rw [hkept.explained.rows, List.mem_map, List.mem_map]

end Runs

/-! ### An account that is linked with its password -/

def workProvider : OidcService :=
  ⟨⟨true, false, []⟩, [], false, "groups", true⟩

def adaClaims : Claims :=
  ⟨"https://sso.example.com", "ada", some " ada@example.com ", some true, .null⟩

/-- Ada, and whoever made the installation. -/
def adasServer : SignIns where
  accounts :=
    ⟨[⟨1, "root@example.com", true, "admin"⟩, ⟨2, "ada@example.com", true, "member"⟩], [], 3⟩
  hashes := fun _ => "hash"
  oidc := some workProvider
  issued := []
  visits := []
  changes := []
  authorizations := []
  exchanges := []
  proofs := []
  invited := []
  links := []

def adasLogin : List SignInLabel :=
  [.ssoStart none ⟨"state", "nonce", "verifier"⟩,
    .ssoCallback (some 0) ⟨some "code", some "state", none⟩ (.ok adaClaims),
    .advance 0 "", .advance 0 "", .advance 0 "",
    .confirmSsoLink (some 1) "password", .advance 0 "", .advance 0 "", .advance 0 ""]

def adasMatch (hash password : String) : Bool := hash == "hash" && password == "password"

def adasEnd : SignIns := adasLogin.foldl (SignIns.step id adasMatch) adasServer

theorem untouched_adasServer : adasServer.Untouched where
  ids := by decide
  identities := rfl
  issued := rfl
  visits := rfl
  exchanges := rfl
  proofs := rfl
  links := rfl

theorem identity_stays_with_account_linked :
    ⟨2, "https://sso.example.com", "ada"⟩ ∈ adasEnd.accounts.identities ∧
    ∃ l ∈ adasEnd.links, l.row = ⟨2, "https://sso.example.com", "ada"⟩ ∧
      l.Consented id adasMatch := by
  have hrow : ⟨2, "https://sso.example.com", "ada"⟩ ∈ adasEnd.accounts.identities := by
    decide +kernel
  obtain ⟨hrows, -, hlinks⟩ :=
    identity_stays_with_account untouched_adasServer (Run.of_foldl adasLogin _)
  obtain ⟨l, hl, hsame⟩ := ((hrows _).mp hrow).1
  exact ⟨hrow, l, hl, hsame, (hlinks l hl).1⟩

end Rustrak.Auth
