import Rustrak.Core.Text
import Rustrak.OAuth.Reuse

/-!
# Authorization codes

How a client comes to a grant: a signed-in user approves its request on the consent page, which
hands out a code, and the client exchanges the code at the token endpoint of `routes/oauth.rs`.
A code is stored as its hash and is spent by being presented, whatever comes of it.

Every statement is a step, and requests overlap: between the statement that takes a code out of
circulation and the one that inserts the grant the user may be deleted or the client go away.
`approvals` and `connections` are the history of what was approved and of which code each grant
was inserted for.

Random codes, SHA-256 and `url::Url` are parameters.
-/

namespace Rustrak.OAuth

open Rustrak.Core Rustrak.Relational Rustrak.Transition

def codeTtlSecs : Int := 300

/-! ## The request -/

/-- The fields of a client's metadata document that the flow reads. -/
structure ClientMetadata where
  clientId : String
  clientName : String
  redirectUris : List String
  tokenEndpointAuthMethod : Option String
  deriving DecidableEq

/-- `url::Url`. -/
structure Urls (U : Type) where
  parse : String → Option U
  scheme : U → String
  hostStr : U → Option String
  port : U → Option Nat
  cannotBeABase : U → Bool
  /-- `set_port(None)`, which a URL without a host refuses. -/
  withoutPort : U → Option U
  asStr : U → String

/-- An authorization request, as the client put it in the authorize URL. -/
structure AuthorizationRequest where
  responseType : String
  clientId : String
  redirectUri : String
  codeChallenge : String
  codeChallengeMethod : String
  state : Option String
  resource : Option String
  deriving DecidableEq

section Verify

variable {U : Type} [DecidableEq U] (urls : Urls U)

def Urls.parseUrl : ParseUrl := fun s => (urls.parse s).map urls.asStr

def isLoopback (host : Option String) : Bool :=
  host == some "localhost" || host == some "127.0.0.1" || host == some "[::1]"

/-- Schemes that the browser would run or read locally. -/
def refusedSchemes : List String :=
  ["javascript", "data", "vbscript", "file", "blob", "about", "filesystem", "view-source"]

/-- Whether the browser may be sent to an address after consent. -/
def redirectAllowed (redirectUri : String) : Bool :=
  match urls.parse redirectUri with
  | none => false
  | some url =>
      if urls.scheme url = "https" then true
      else if urls.scheme url = "http" then isLoopback (urls.hostStr url)
      else if urls.scheme url ∈ refusedSchemes then false
      else !urls.cannotBeABase url

/-- The same address, except that a loopback address is registered for any port. -/
def redirectMatches (registered requested : String) : Bool :=
  if registered = requested then true
  else
    match urls.parse registered, urls.parse requested with
    | some registered, some requested =>
        let loopback := urls.scheme registered == "http" && (urls.port registered).isNone &&
          isLoopback (urls.hostStr registered)
        loopback && urls.withoutPort requested == some registered
    | _, _ => false

/-- Checks a client and the redirect it asked for against its document. -/
def verifyClient (fetch : String → AppResult ClientMetadata) (clientId redirectUri : String) :
    AppResult ClientMetadata := do
  ensure (clientId.length ≤ 2048 && redirectUri.length ≤ 2048)
    (.validation "client_id and redirect_uri must be at most 2048 characters")
  let client ← fetch clientId
  let name := trim client.clientName
  ensure (!(name == "") && name.length ≤ 255)
    (.validation "The client's name must be 1 to 255 characters")
  ensure (client.clientId == clientId)
    (.validation "The client's metadata document names a different client_id")
  ensure (client.tokenEndpointAuthMethod.all (· == "none"))
    (.validation "Only public clients (token_endpoint_auth_method \"none\") are supported")
  ensure (redirectAllowed urls redirectUri)
    (.validation "redirect_uri must be https, http on loopback, or an app's own scheme")
  ensure (client.redirectUris.any fun uri => redirectMatches urls uri redirectUri)
    (.validation "redirect_uri is not one of the client's registered redirect URIs")
  return client

def mcpResource (base : String) : String := base ++ "/mcp"

/-- Validates a request in full: the client, and the resource its token will be bound to. -/
def verify (fetch : String → AppResult ClientMetadata) (request : AuthorizationRequest)
    (base : String) : AppResult (ClientMetadata × String) := do
  ensure (request.responseType == "code") (.validation "response_type must be \"code\"")
  ensure (request.codeChallengeMethod == "S256" && byteLength request.codeChallenge == 43)
    (.validation "A PKCE code_challenge with method S256 is required")
  let resource := mcpResource base
  ensure (request.resource.all fun asked => sameResource urls.parseUrl asked resource)
    (.validation "resource must be this server's MCP endpoint")
  let client ← verifyClient urls fetch request.clientId request.redirectUri
  return (client, resource)

end Verify

/-! ## The exchange -/

/-- A character that a verifier may have. -/
def isVerifierChar (c : Char) : Bool :=
  c.isAlphanum || c == '-' || c == '.' || c == '_' || c == '~'

/-- Whether a verifier is the one a challenge was made from; `challengeOf` encodes its digest. -/
def pkceMatches (challengeOf : String → String) (verifier challenge : String) : Bool :=
  43 ≤ byteLength verifier && byteLength verifier ≤ 128 && verifier.toList.all isVerifierChar &&
    challengeOf verifier == challenge

/-- A row of `oauth_codes`. -/
structure CodeRow (Digest : Type) where
  codeHash : Digest
  userId : Int
  clientId : String
  clientName : String
  redirectUri : String
  resource : String
  codeChallenge : String
  expiresAt : Int
  /-- Which approval inserted it, for the statements. -/
  approval : Nat
  deriving DecidableEq

def CodeRow.code {Digest : Type} (row : CodeRow Digest) : AuthorizationCode :=
  ⟨row.userId, row.clientId, row.resource⟩

/-- A token request with a code, a verifier and a redirect. -/
structure Presented where
  code : String
  codeVerifier : String
  redirectUri : String
  clientId : String
  resource : Option String
  deriving DecidableEq

/-- An error of the token endpoint, and its description. -/
structure TokenError where
  error : String
  description : String
  deriving DecidableEq

/-- `redeem_code`: the row, which is gone. -/
def redeemCode {Digest : Type} [DecidableEq Digest] (hash : String → Digest)
    (codes : List (CodeRow Digest)) (code : String) :
    Option (CodeRow Digest) × List (CodeRow Digest) :=
  (lookup CodeRow.codeHash (hash code) codes, codes.filter fun row => row.codeHash ≠ hash code)

/-- What `token` makes of the row before it inserts a grant. -/
def checkCode {Digest : Type} (challengeOf : String → String) (parseUrl : ParseUrl)
    (issued : Option (CodeRow Digest)) (form : Presented) (now : Int) :
    Except TokenError (CodeRow Digest) :=
  match issued with
  | none => .error ⟨"invalid_grant", "Unknown or already used code"⟩
  | some issued =>
      if issued.expiresAt ≤ now ∨ issued.clientId ≠ form.clientId ∨
          issued.redirectUri ≠ form.redirectUri then
        .error ⟨"invalid_grant", "The code was not issued for this request"⟩
      else if pkceMatches challengeOf form.codeVerifier issued.codeChallenge = false then
        .error ⟨"invalid_grant", "code_verifier does not match the code_challenge"⟩
      else if form.resource.all fun resource => sameResource parseUrl resource issued.resource then
        .ok issued
      else .error ⟨"invalid_target", "Not the authorized resource"⟩

/-! ## Statement by statement -/

/-- What a user approved, and the code that was handed out for it. -/
structure Approval where
  userId : Int
  request : AuthorizationRequest
  client : ClientMetadata
  resource : String
  secret : String
  time : Int
  deriving DecidableEq

/-- `create_code`. -/
def Approval.row {Digest : Type} (hash : String → Digest) (a : Approval) (number : Nat) :
    CodeRow Digest where
  codeHash := hash a.secret
  userId := a.userId
  clientId := a.client.clientId
  clientName := a.client.clientName
  redirectUri := a.request.redirectUri
  resource := a.resource
  codeChallenge := a.request.codeChallenge
  expiresAt := a.time + codeTtlSecs * second
  approval := number

/-- A token request whose code was accepted. -/
structure Exchange (Digest : Type) where
  form : Presented
  presentedAt : Int
  row : CodeRow Digest

/-- A grant that was inserted, and what for. -/
structure Connection where
  grantId : Nat
  approval : Nat
  form : Presented
  presentedAt : Int
  deriving DecidableEq

def Exchange.connection {Digest : Type} (e : Exchange Digest) (id : Nat) : Connection :=
  ⟨id, e.row.approval, e.form, e.presentedAt⟩

structure Consents (Digest : Type) where
  users : List Int
  codes : List (CodeRow Digest)
  exchanges : Nat → Option (Exchange Digest)
  tokens : World Digest
  approvals : List Approval
  connections : List Connection

def Consents.start {Digest : Type} : Consents Digest := ⟨[], [], fun _ => none, .start, [], []⟩

def Consents.exchange {Digest : Type} (w : Consents Digest) (r : Nat)
    (next : Option (Exchange Digest)) : Consents Digest :=
  { w with exchanges := Function.update w.exchanges r next }

inductive ConsentLabel
  | join (userId : Int)
  | sweep (now : Int)
  | approve (a : Approval)
  | present (request : Nat) (form : Presented) (now : Int)
  | connect (request id : Nat) (secrets : Secrets) (now : Int)
  | abort (request : Nat)
  /-- Anything else that is done with grants. -/
  | tokens (label : Label)
  | deleteUser (userId : Int)

/-- A step on grants that neither makes one nor deletes a user. -/
def Label.isOther : Label → Bool
  | .create .. | .deleteUser _ => false
  | _ => true

section

variable {U Digest : Type} [DecidableEq U] [DecidableEq Digest] (urls : Urls U)
variable (hash : String → Digest) (challengeOf : String → String) (base : String)

inductive ConsentStep : Consents Digest → ConsentLabel → Consents Digest → Prop
  | join (w : Consents Digest) (userId : Int) :
      ConsentStep w (.join userId) { w with users := w.users ++ [userId] }
  /-- The first statement of `create_code`, which anyone's approval brings. -/
  | sweep (w : Consents Digest) (now : Int) :
      ConsentStep w (.sweep now)
        { w with codes := w.codes.filter fun row => !decide (row.expiresAt < now) }
  /-- The second, of a user that is there, after the request was verified. -/
  | approve {w : Consents Digest} {a : Approval} (fetch : String → AppResult ClientMetadata) :
      a.userId ∈ w.users → verify urls fetch a.request base = .ok (a.client, a.resource) →
      lookup CodeRow.codeHash (hash a.secret) w.codes = none →
      ConsentStep w (.approve a)
        { w with
          codes := w.codes ++ [a.row hash w.approvals.length]
          approvals := w.approvals ++ [a] }
  | refused {w : Consents Digest} {r : Nat} {form : Presented} {now : Int} {e : TokenError} :
      checkCode challengeOf urls.parseUrl (redeemCode hash w.codes form.code).1 form now =
        .error e →
      ConsentStep w (.present r form now)
        { w with codes := (redeemCode hash w.codes form.code).2 }
  | accepted {w : Consents Digest} {r : Nat} {form : Presented} {now : Int}
      {row : CodeRow Digest} : w.exchanges r = none →
      checkCode challengeOf urls.parseUrl (redeemCode hash w.codes form.code).1 form now =
        .ok row →
      ConsentStep w (.present r form now)
        { w.exchange r (some ⟨form, now, row⟩) with
          codes := (redeemCode hash w.codes form.code).2 }
  /-- The insert of `create_grant`; the foreign key wants the user. -/
  | connect {w : Consents Digest} {r id : Nat} {secrets : Secrets} {now : Int}
      {e : Exchange Digest} {tokens : World Digest} : w.exchanges r = some e →
      e.row.userId ∈ w.users →
      Step hash urls.parseUrl w.tokens (.create e.row.code id secrets now) tokens →
      ConsentStep w (.connect r id secrets now)
        { w.exchange r none with
          tokens
          connections := w.connections ++ [e.connection id] }
  | abort (w : Consents Digest) (r : Nat) : ConsentStep w (.abort r) (w.exchange r none)
  | tokens {w : Consents Digest} {label : Label} {tokens : World Digest} :
      label.isOther = true → Step hash urls.parseUrl w.tokens label tokens →
      ConsentStep w (.tokens label) { w with tokens }
  /-- The codes and the grants of a user go with the user. -/
  | deleteUser {w : Consents Digest} {userId : Int} {tokens : World Digest} :
      Step hash urls.parseUrl w.tokens (.deleteUser userId) tokens →
      ConsentStep w (.deleteUser userId)
        { w with
          users := w.users.filter fun u => u ≠ userId
          codes := w.codes.filter fun row => row.userId ≠ userId
          tokens }

end

variable {U Digest : Type} {urls : Urls U}
variable {hash : String → Digest} {challengeOf : String → String} {base : String}

/-! ## What an exchange has checked -/

variable (urls hash challengeOf) in
/-- A request presents the code that was handed out for an approval, in time, for the client and
the redirect that were approved, and with the verifier of the challenge. -/
structure Redeems (a : Approval) (form : Presented) (now : Int) : Prop where
  code : hash form.code = hash a.secret
  inTime : now < a.time + codeTtlSecs * second
  client : form.clientId = a.client.clientId
  redirect : form.redirectUri = a.request.redirectUri
  verifier : pkceMatches challengeOf form.codeVerifier a.request.codeChallenge = true
  resource : ∀ resource, form.resource = some resource →
    sameResource urls.parseUrl resource a.resource = true

theorem redeemCode_some [DecidableEq Digest] {codes : List (CodeRow Digest)} {code : String}
    {row : CodeRow Digest} (h : (redeemCode hash codes code).1 = some row) :
    row ∈ codes ∧ row.codeHash = hash code :=
  ⟨mem_of_lookup h, key_of_lookup h⟩

theorem mem_redeemCode [DecidableEq Digest] {codes : List (CodeRow Digest)} {code : String}
    {row : CodeRow Digest} :
    row ∈ (redeemCode hash codes code).2 ↔ row ∈ codes ∧ row.codeHash ≠ hash code := by
  simp [redeemCode]

theorem checkCode_ok {parseUrl : ParseUrl} {issued : Option (CodeRow Digest)} {form : Presented}
    {now : Int} {row : CodeRow Digest}
    (h : checkCode challengeOf parseUrl issued form now = .ok row) :
    issued = some row ∧ now < row.expiresAt ∧ row.clientId = form.clientId ∧
      row.redirectUri = form.redirectUri ∧
      pkceMatches challengeOf form.codeVerifier row.codeChallenge = true ∧
      ∀ resource, form.resource = some resource →
        sameResource parseUrl resource row.resource = true := by
  unfold checkCode at h
  cases issued with
  | none => cases h
  | some issued =>
      dsimp only at h
      split_ifs at h with hother hverifier hresource
      obtain rfl := Except.ok.inj h
      simp only [not_or, not_not] at hother
      refine ⟨rfl, Int.not_le.mp hother.1, hother.2.1, hother.2.2,
        Bool.not_eq_false _ ▸ hverifier, ?_⟩
      intro resource hsome
      rw [hsome] at hresource
      exact hresource

/-- The row of an approval is redeemed as the approval says. -/
theorem redeems_of_checkCode [DecidableEq Digest] {a : Approval} {n : Nat}
    {codes : List (CodeRow Digest)} {form : Presented} {now : Int} {row : CodeRow Digest}
    (hrow : row = a.row hash n)
    (h : checkCode challengeOf urls.parseUrl (redeemCode hash codes form.code).1 form now =
      .ok row) : Redeems urls hash challengeOf a form now := by
  obtain ⟨hissued, htime, hclient, hredirect, hverifier, hresource⟩ := checkCode_ok h
  have hcode := (redeemCode_some hissued).2
  subst hrow
  exact ⟨hcode.symm, htime, hclient.symm, hredirect.symm, hverifier, hresource⟩

/-! ## Where a code is -/

theorem getElem?_append_of_some {α : Type} {list more : List α} {n : Nat} {a : α}
    (h : list[n]? = some a) : (list ++ more)[n]? = some a := by
  rw [List.getElem?_append_left (List.getElem?_eq_some_iff.mp h).1]
  exact h

variable (urls hash challengeOf) in
/-- Every code in circulation, every exchange and every connection is of an approval, and of
another one each. -/
structure Circulation (approvals : List Approval) (codes : List (CodeRow Digest))
    (exchanges : Nat → Option (Exchange Digest)) (connections : List Connection) : Prop where
  rows : ∀ row ∈ codes, ∃ a, approvals[row.approval]? = some a ∧ row = a.row hash row.approval
  once : (codes.map CodeRow.approval).Nodup
  exchanged : ∀ r e, exchanges r = some e → ∃ a, approvals[e.row.approval]? = some a ∧
    e.row = a.row hash e.row.approval ∧ Redeems urls hash challengeOf a e.form e.presentedAt
  spent : ∀ r e, exchanges r = some e → e.row.approval ∉ codes.map CodeRow.approval ∧
    e.row.approval ∉ connections.map Connection.approval
  apart : ∀ r r' e e', exchanges r = some e → exchanges r' = some e' →
    e.row.approval = e'.row.approval → r = r'
  connected : ∀ c ∈ connections, ∃ a, approvals[c.approval]? = some a ∧
    Redeems urls hash challengeOf a c.form c.presentedAt
  used : ∀ c ∈ connections, c.approval ∉ codes.map CodeRow.approval
  connectedOnce : (connections.map Connection.approval).Nodup

namespace Circulation

variable {approvals : List Approval} {codes : List (CodeRow Digest)}
variable {exchanges : Nat → Option (Exchange Digest)} {connections : List Connection}

theorem start : Circulation urls hash challengeOf [] [] (fun _ => none) [] where
  rows := by simp
  once := by simp
  exchanged := by simp
  spent := by simp
  apart := by simp
  connected := by simp
  used := by simp
  connectedOnce := by simp

variable (h : Circulation urls hash challengeOf approvals codes exchanges connections)
include h

/-- Codes that are deleted, for whatever reason. -/
theorem filter (p : CodeRow Digest → Bool) :
    Circulation urls hash challengeOf approvals (codes.filter p) exchanges connections := by
  have hsub : ∀ n, n ∈ (codes.filter p).map CodeRow.approval → n ∈ codes.map CodeRow.approval :=
    fun _ hn => (List.filter_sublist.map CodeRow.approval).subset hn
  exact
    { h with
      rows := fun row hrow => h.rows row (List.mem_of_mem_filter hrow)
      once := h.once.sublist (List.filter_sublist.map _)
      spent := fun r e he => ⟨fun hmem => (h.spent r e he).1 (hsub _ hmem), (h.spent r e he).2⟩
      used := fun c hc hmem => h.used c hc (hsub _ hmem) }

/-- An approval is numbered as no code, exchange or connection is. -/
theorem approve (a : Approval) :
    Circulation urls hash challengeOf (approvals ++ [a])
      (codes ++ [a.row hash approvals.length]) exchanges connections := by
  have hlt : ∀ {n : Nat} {b : Approval}, approvals[n]? = some b → n ≠ approvals.length := by
    intro n b hb
    have := (List.getElem?_eq_some_iff.mp hb).1
    omega
  have hcodes : ∀ row ∈ codes, row.approval ≠ approvals.length := by
    intro row hrow
    obtain ⟨b, hb, -⟩ := h.rows row hrow
    exact hlt hb
  have hmem : ∀ {n : Nat}, n ∈ (codes ++ [a.row hash approvals.length]).map CodeRow.approval →
      n ∈ codes.map CodeRow.approval ∨ n = approvals.length := by
    intro n hn
    rw [List.map_append, List.mem_append] at hn
    exact hn.imp_right List.mem_singleton.mp
  constructor
  · intro row hrow
    rcases List.mem_append.mp hrow with hold | hnew
    · obtain ⟨b, hb, heq⟩ := h.rows row hold
      exact ⟨b, getElem?_append_of_some hb, heq⟩
    · obtain rfl := List.mem_singleton.mp hnew
      exact ⟨a, List.getElem?_concat_length, rfl⟩
  · rw [List.map_append, List.nodup_append]
    refine ⟨h.once, by simp, ?_⟩
    intro n hn m hm heq
    obtain ⟨row, hrow, rfl⟩ := List.mem_map.mp hn
    obtain rfl := List.mem_singleton.mp hm
    exact hcodes row hrow heq
  · intro r e he
    obtain ⟨b, hb, hrest⟩ := h.exchanged r e he
    exact ⟨b, getElem?_append_of_some hb, hrest⟩
  · intro r e he
    obtain ⟨b, hb, -⟩ := h.exchanged r e he
    exact ⟨fun hn => (hmem hn).elim (h.spent r e he).1 (hlt hb), (h.spent r e he).2⟩
  · exact h.apart
  · intro c hc
    obtain ⟨b, hb, hrest⟩ := h.connected c hc
    exact ⟨b, getElem?_append_of_some hb, hrest⟩
  · intro c hc hn
    obtain ⟨b, hb, -⟩ := h.connected c hc
    exact (hmem hn).elim (h.used c hc) (hlt hb)
  · exact h.connectedOnce

/-- A code that is presented is in circulation no more. -/
theorem accept [DecidableEq Digest] {r : Nat} {form : Presented} {now : Int} {row : CodeRow Digest}
    (hidle : exchanges r = none)
    (hcheck : checkCode challengeOf urls.parseUrl (redeemCode hash codes form.code).1 form now =
      .ok row) :
    Circulation urls hash challengeOf approvals (redeemCode hash codes form.code).2
      (Function.update exchanges r (some ⟨form, now, row⟩)) connections := by
  obtain ⟨hrow, hhash⟩ := redeemCode_some (checkCode_ok hcheck).1
  have hrest := h.filter fun row => row.codeHash ≠ hash form.code
  have hgone : row.approval ∉ (redeemCode hash codes form.code).2.map CodeRow.approval := by
    intro hmem
    obtain ⟨other, hother, heq⟩ := List.mem_map.mp hmem
    obtain ⟨hold, hne⟩ := mem_redeemCode.mp hother
    exact hne (List.inj_on_of_nodup_map h.once hold hrow heq ▸ hhash)
  have hexchange : ∀ r' e, Function.update exchanges r (some ⟨form, now, row⟩) r' = some e →
      (r' = r ∧ e = ⟨form, now, row⟩) ∨ (r' ≠ r ∧ exchanges r' = some e) := by
    intro r' e he
    by_cases hr : r' = r
    · subst hr
      rw [Function.update_self] at he
      exact .inl ⟨rfl, (Option.some.inj he).symm⟩
    · rw [Function.update_of_ne hr] at he
      exact .inr ⟨hr, he⟩
  have hin : row.approval ∈ codes.map CodeRow.approval := List.mem_map_of_mem hrow
  refine { hrest with exchanged := ?_, spent := ?_, apart := ?_ }
  · intro r' e he
    rcases hexchange r' e he with ⟨-, rfl⟩ | ⟨-, hold⟩
    · obtain ⟨a, ha, heq⟩ := h.rows row hrow
      exact ⟨a, ha, heq, redeems_of_checkCode heq hcheck⟩
    · exact h.exchanged r' e hold
  · intro r' e he
    rcases hexchange r' e he with ⟨-, rfl⟩ | ⟨-, hold⟩
    · refine ⟨hgone, fun hmem => ?_⟩
      obtain ⟨c, hc, heq⟩ := List.mem_map.mp hmem
      exact h.used c hc (heq ▸ hin)
    · exact hrest.spent r' e hold
  · intro r' r'' e e' he he' heq
    rcases hexchange r' e he with ⟨rfl, rfl⟩ | ⟨-, hold⟩ <;>
      rcases hexchange r'' e' he' with ⟨rfl, rfl⟩ | ⟨-, hold'⟩
    · rfl
    · exact absurd (heq ▸ hin) (h.spent r'' e' hold').1
    · exact absurd (heq.symm ▸ hin) (h.spent r' e hold).1
    · exact h.apart r' r'' e e' hold hold' heq

theorem abort (r : Nat) :
    Circulation urls hash challengeOf approvals codes (Function.update exchanges r none)
      connections := by
  have hold : ∀ r' e, Function.update exchanges r none r' = some e → exchanges r' = some e := by
    intro r' e he
    by_cases hr : r' = r
    · subst hr
      rw [Function.update_self] at he
      contradiction
    · rwa [Function.update_of_ne hr] at he
  exact
    { h with
      exchanged := fun r' e he => h.exchanged r' e (hold r' e he)
      spent := fun r' e he => h.spent r' e (hold r' e he)
      apart := fun r' r'' e e' he he' => h.apart r' r'' e e' (hold r' e he) (hold r'' e' he') }

theorem connect {r : Nat} {e : Exchange Digest} (id : Nat) (he : exchanges r = some e) :
    Circulation urls hash challengeOf approvals codes (Function.update exchanges r none)
      (connections ++ [e.connection id]) := by
  have hrest := h.abort r
  have hmem : ∀ {n : Nat}, n ∈ (connections ++ [e.connection id]).map Connection.approval →
      n ∈ connections.map Connection.approval ∨ n = e.row.approval := by
    intro n hn
    rw [List.map_append, List.mem_append] at hn
    exact hn.imp_right List.mem_singleton.mp
  refine { hrest with spent := ?_, connected := ?_, used := ?_, connectedOnce := ?_ }
  · intro r' e' he'
    refine ⟨(hrest.spent r' e' he').1, fun hn => ?_⟩
    rcases hmem hn with hold | heq
    · exact (hrest.spent r' e' he').2 hold
    · have hne : r' ≠ r := by
        rintro rfl
        rw [Function.update_self] at he'
        contradiction
      rw [Function.update_of_ne hne] at he'
      exact hne (h.apart r' r e' e he' he heq)
  · intro c hc
    rcases List.mem_append.mp hc with hold | hnew
    · exact h.connected c hold
    · obtain rfl := List.mem_singleton.mp hnew
      obtain ⟨a, ha, -, hredeems⟩ := h.exchanged r e he
      exact ⟨a, ha, hredeems⟩
  · intro c hc
    rcases List.mem_append.mp hc with hold | hnew
    · exact h.used c hold
    · obtain rfl := List.mem_singleton.mp hnew
      exact (h.spent r e he).1
  · rw [List.map_append, List.nodup_append]
    refine ⟨h.connectedOnce, by simp, ?_⟩
    intro n hn m hm heq
    have hm : m = e.row.approval := List.mem_singleton.mp hm
    rw [heq, hm] at hn
    exact (h.spent r e he).2 hn

end Circulation

/-! ## Whose a grant is -/

/-- The grant's number, and what it is for. -/
def Grant.scope (g : Grant Digest) : Nat × AuthorizationCode :=
  (g.id, ⟨g.userId, g.clientId, g.resource⟩)

theorem mem_rotate_scope [DecidableEq Digest] {t t' : Tables Digest} {id : Nat} {old : Digest}
    {secrets : Secrets} {now : Int} {pair : TokenPair} {g : Grant Digest}
    (h : rotate hash t id old secrets now = some (t', pair)) (hg : g ∈ t'.grants) :
    ∃ was ∈ t.grants, was.scope = g.scope := by
  unfold rotate at h
  dsimp only at h
  split_ifs at h
  simp only [Option.some.injEq, Prod.mk.injEq] at h
  obtain ⟨rfl, -⟩ := h
  obtain ⟨was, hwas, rfl⟩ := List.mem_map.mp hg
  refine ⟨was, hwas, ?_⟩
  split_ifs <;> rfl

/-- A grant is for what it was for before, or for what the step makes it for. -/
theorem Step.scope [DecidableEq Digest] {parseUrl : ParseUrl} {w w' : World Digest}
    {label : Label} {g : Grant Digest} (h : Step hash parseUrl w label w')
    (hg : g ∈ w'.tables.grants) : (∃ was ∈ w.tables.grants, was.scope = g.scope) ∨
      ∃ code id secrets now, label = .create code id secrets now ∧ g.scope = (id, code) := by
  cases h with
  | expire now => exact .inl ⟨g, (mem_deleteGrants.mp hg).1, rfl⟩
  | @create code id secrets now tables pair hid hcreate hfresh =>
      unfold createGrant at hcreate
      dsimp only at hcreate
      split_ifs at hcreate
      simp only [Option.some.injEq, Prod.mk.injEq] at hcreate
      obtain ⟨rfl, -⟩ := hcreate
      rcases List.mem_append.mp hg with hold | hnew
      · exact .inl ⟨g, hold, rfl⟩
      · obtain rfl := List.mem_singleton.mp hnew
        exact .inr ⟨code, id, secrets, now, rfl, rfl⟩
  | read token clientId hidle => exact .inl ⟨g, hg, rfl⟩
  | refused hreading hfinish =>
      rcases finishRefresh_none hfinish with rfl | ⟨id, rfl⟩
      · exact .inl ⟨g, hg, rfl⟩
      · exact .inl ⟨g, (mem_deleteGrants.mp hg).1, rfl⟩
  | rotated hreading hfinish hfresh =>
      exact .inl (mem_rotate_scope (finishRefresh_some hfinish).2 hg)
  | abort r => exact .inl ⟨g, hg, rfl⟩
  | authenticate token resource now => exact .inl ⟨g, hg, rfl⟩
  | @revoke userId grantId tables hrevoke =>
      unfold OAuth.revoke at hrevoke
      split_ifs at hrevoke
      rw [← Except.ok.inj hrevoke] at hg
      exact .inl ⟨g, (mem_deleteGrants.mp hg).1, rfl⟩
  | deleteUser userId => exact .inl ⟨g, (mem_deleteGrants.mp hg).1, rfl⟩

/-- A grant was inserted for an approval of its user, client and resource. -/
def Granted (approvals : List Approval) (connections : List Connection)
    (scope : Nat × AuthorizationCode) : Prop :=
  ∃ c ∈ connections, ∃ a, approvals[c.approval]? = some a ∧
    scope = (c.grantId, ⟨a.userId, a.client.clientId, a.resource⟩)

variable (urls hash challengeOf base) in
structure Consented [DecidableEq U] (w : Consents Digest) : Prop where
  circulation : Circulation urls hash challengeOf w.approvals w.codes w.exchanges w.connections
  verified : ∀ a ∈ w.approvals, ∃ fetch,
    verify urls fetch a.request base = .ok (a.client, a.resource)
  granted : ∀ g ∈ w.tokens.tables.grants, Granted w.approvals w.connections g.scope
  users : ∀ g ∈ w.tokens.tables.grants, g.userId ∈ w.users

/-! ## Every run -/

section Runs

variable [DecidableEq U] [DecidableEq Digest] {w w' : Consents Digest} {label : ConsentLabel}
variable {labels : List ConsentLabel}

omit [DecidableEq Digest] in
theorem Consented.start : Consented urls hash challengeOf base (.start : Consents Digest) where
  circulation := .start
  verified := by simp [Consents.start]
  granted := by simp [Consents.start, World.start]
  users := by simp [Consents.start, World.start]

/-- What a step that makes no grant leaves of those there are. -/
theorem Consented.of_other (h : Consented urls hash challengeOf base w) {label : Label}
    {tokens : World Digest} (hother : ∀ code id secrets now, label ≠ .create code id secrets now)
    (hstep : Step hash urls.parseUrl w.tokens label tokens) :
    ∀ g ∈ tokens.tables.grants, Granted w.approvals w.connections g.scope ∧ g.userId ∈ w.users := by
  intro g hg
  rcases hstep.scope hg with ⟨was, hwas, hscope⟩ | ⟨code, id, secrets, now, hcreate, -⟩
  · refine ⟨hscope ▸ h.granted was hwas, ?_⟩
    have huser : was.userId = g.userId := congrArg (fun scope => scope.2.userId) hscope
    exact huser ▸ h.users was hwas
  · exact absurd hcreate (hother code id secrets now)

theorem Consented.step (h : Consented urls hash challengeOf base w)
    (hstep : ConsentStep urls hash challengeOf base w label w') :
    Consented urls hash challengeOf base w' := by
  cases hstep with
  | join userId =>
      exact { h with users := fun g hg => List.mem_append_left _ (h.users g hg) }
  | sweep now => exact { h with circulation := h.circulation.filter _ }
  | @approve a fetch huser hverify hfree =>
      refine ⟨h.circulation.approve a, ?_, ?_, h.users⟩
      · intro b hb
        rcases List.mem_append.mp hb with hold | hnew
        · exact h.verified b hold
        · obtain rfl := List.mem_singleton.mp hnew
          exact ⟨fetch, hverify⟩
      · intro g hg
        obtain ⟨c, hc, b, hb, hscope⟩ := h.granted g hg
        exact ⟨c, hc, b, getElem?_append_of_some hb, hscope⟩
  | refused hcheck => exact { h with circulation := h.circulation.filter _ }
  | accepted hidle hcheck => exact { h with circulation := h.circulation.accept hidle hcheck }
  | @connect r id secrets now e tokens he huser hcreate =>
      have hgrant : ∀ g ∈ tokens.tables.grants,
          Granted w.approvals (w.connections ++ [e.connection id]) g.scope ∧
            g.userId ∈ w.users := by
        intro g hg
        rcases hcreate.scope hg with ⟨was, hwas, hscope⟩ | ⟨code, id, secrets, now, hlabel, hscope⟩
        · obtain ⟨c, hc, a, ha, hof⟩ := h.granted was hwas
          refine ⟨⟨c, List.mem_append_left _ hc, a, ha, hscope ▸ hof⟩, ?_⟩
          have hsame : was.userId = g.userId := congrArg (fun scope => scope.2.userId) hscope
          exact hsame ▸ h.users was hwas
        · simp only [Label.create.injEq] at hlabel
          obtain ⟨rfl, rfl, -, -⟩ := hlabel
          obtain ⟨a, ha, hrow, -⟩ := h.circulation.exchanged r e he
          refine ⟨⟨_, List.mem_append_right _ (List.mem_singleton_self _), a, ha, ?_⟩, ?_⟩
          · rw [hscope, CodeRow.code, hrow]
            rfl
          · have hsame : g.userId = e.row.userId := congrArg (fun scope => scope.2.userId) hscope
            exact hsame ▸ huser
      exact ⟨h.circulation.connect id he, h.verified, fun g hg => (hgrant g hg).1,
        fun g hg => (hgrant g hg).2⟩
  | abort r => exact { h with circulation := h.circulation.abort r }
  | @tokens label tokens hother htokens =>
      have hgrant := h.of_other (by rintro code id secrets now rfl; contradiction) htokens
      exact { h with granted := fun g hg => (hgrant g hg).1, users := fun g hg => (hgrant g hg).2 }
  | @deleteUser userId tokens htokens =>
      have hgrant := h.of_other (by rintro code id secrets now ⟨⟩) htokens
      refine ⟨h.circulation.filter _, h.verified, fun g hg => (hgrant g hg).1, fun g hg => ?_⟩
      refine List.mem_filter.mpr ⟨(hgrant g hg).2, ?_⟩
      cases htokens with
      | deleteUser =>
          have hkept := (mem_deleteGrants.mp hg).2
          simpa using hkept

theorem Consented.run (hrun : Run (ConsentStep urls hash challengeOf base) .start labels w) :
    Consented urls hash challengeOf base w :=
  Run.invariant (Consented urls hash challengeOf base) (fun _ _ _ hs hstep => hs.step hstep) hrun
    .start

/-- Whatever requests overlap, a code makes one grant at most, and once it has made one, or is
being exchanged for one, it is not in circulation any more. -/
theorem code_connects_once
    (hrun : Run (ConsentStep urls hash challengeOf base) .start labels w) :
    (w.connections.map Connection.approval).Nodup ∧
    (∀ c ∈ w.connections, ∀ row ∈ w.codes, row.approval ≠ c.approval) ∧
    (∀ r e, w.exchanges r = some e → (∀ row ∈ w.codes, row.approval ≠ e.row.approval) ∧
      (∀ c ∈ w.connections, c.approval ≠ e.row.approval) ∧
      ∀ r' e', w.exchanges r' = some e' → e'.row.approval = e.row.approval → r' = r) := by
  have hw := (Consented.run hrun).circulation
  refine ⟨hw.connectedOnce, ?_, ?_⟩
  · intro c hc row hrow heq
    exact hw.used c hc (heq ▸ List.mem_map_of_mem hrow)
  · intro r e he
    refine ⟨?_, ?_, ?_⟩
    · intro row hrow heq
      exact (hw.spent r e he).1 (heq ▸ List.mem_map_of_mem hrow)
    · intro c hc heq
      exact (hw.spent r e he).2 (heq ▸ List.mem_map_of_mem hc)
    · intro r' e' he' heq
      exact hw.apart r' r e' e he' he heq

end Runs

/-! ## A client that connects -/

/-- Addresses are taken as they are written. -/
def plainUrls : Urls String where
  parse := some
  scheme := fun url => String.ofList (url.toList.takeWhile (· != ':'))
  hostStr := fun _ => none
  port := fun _ => none
  cannotBeABase := fun _ => false
  withoutPort := some
  asStr := fun url => url

theorem sameResource_self {resource : String}
    (h : resource.toList ≠ List.replicate resource.toList.length '/') :
    sameResource plainUrls.parseUrl resource resource = true := by
  have hslashes : resource.revAll '/' = false := by
    rw [← Bool.not_eq_true]
    intro hall
    have hslice := String.Slice.revAll_char_iff.mp
      (show resource.toSlice.revAll '/' = true from hall)
    rw [String.copy_toSlice] at hslice
    exact h hslice
  simp [sameResource, Urls.parseUrl, plainUrls, hslashes]

def sampleApproval : Approval where
  userId := 1
  request :=
    { responseType := "code"
      clientId := "https://client"
      redirectUri := "https://client/done"
      codeChallenge := "0123456789012345678901234567890123456789012"
      codeChallengeMethod := "S256"
      state := none
      resource := none }
  client := ⟨"https://client", "Client", ["https://client/done"], none⟩
  resource := "https://host/mcp"
  secret := "c"
  time := 0

def samplePresented : Presented :=
  ⟨"c", "0123456789012345678901234567890123456789012", "https://client/done", "https://client",
    none⟩

/-- The code is presented twice at one time; one of the two requests connects. -/
theorem exists_connected : ∃ w : Consents String,
    Run (ConsentStep plainUrls (fun secret => secret) (fun verifier => verifier) "https://host")
      .start [.join 1, .approve sampleApproval, .present 0 samplePresented 1,
        .present 1 samplePresented 1, .connect 0 0 ⟨"a", "b"⟩ 1] w ∧
    authenticate (fun secret => secret) plainUrls.parseUrl w.tokens.tables "rto_a"
      "https://host/mcp" 2 = some 1 ∧ w.connections = [⟨0, 0, samplePresented, 1⟩] := by
  have haccepted : checkCode (fun verifier => verifier) plainUrls.parseUrl
      (redeemCode (fun secret => secret) [sampleApproval.row (fun secret => secret) 0] "c").1
      samplePresented 1 = .ok (sampleApproval.row (fun secret => secret) 0) := by decide +kernel
  have hfresh : ∀ pair, Fresh [] pair := fun _ => by simp [Fresh]
  refine ⟨_, .cons (.join _ 1) <| .cons (.approve (fun _ => .ok sampleApproval.client) ?_ ?_ rfl) <|
    .cons (.accepted rfl haccepted) <| .cons (.refused (e := ⟨_, _⟩) rfl) <|
    .cons (.connect rfl ?_ (.create (Nat.le_refl 0) rfl (hfresh _))) <| .nil _, ?_, rfl⟩
  · decide
  · decide +kernel
  · decide
  · have hsame : sameResource plainUrls.parseUrl "https://host/mcp" "https://host/mcp" = true :=
      sameResource_self (by decide)
    simp only [authenticate, lookup, Consents.exchange, World.start, Consents.start,
      List.nil_append, List.find?_cons, List.find?_nil, accessPrefix]
    simp [hsame, Approval.row, CodeRow.code, sampleApproval]
    decide

/-- The code is gone, though it was presented twice. -/
theorem code_connects_once_connected : ∃ w : Consents String,
    w.connections = [⟨0, 0, samplePresented, 1⟩] ∧ ∀ row ∈ w.codes, row.approval ≠ 0 := by
  obtain ⟨w, hrun, -, hconnections⟩ := exists_connected
  refine ⟨w, hconnections, ?_⟩
  exact (code_connects_once hrun).2.1 ⟨0, 0, samplePresented, 1⟩
    (hconnections ▸ List.mem_singleton_self _)

end Rustrak.OAuth
