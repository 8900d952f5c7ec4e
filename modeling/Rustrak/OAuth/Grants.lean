import Rustrak.Core.Error
import Rustrak.Relational.Table

/-!
# OAuth grants and their tokens

`services/oauth.rs`: a client that a user has connected has one row, with the hashes of its
current access token and refresh token.  A refresh replaces both and keeps the hash of the
refresh token that was spent, for as long as there is the grant.

Postgres runs requests concurrently, and a statement sees what was committed when it
started.  So a refresh is two steps here: it reads the grant its token belongs to, and then
does the rest in a transaction whose first write locks the row.  Anything may happen in
between.
-/

namespace Rustrak.OAuth

open Rustrak.Core Rustrak.Relational

def accessTtlSecs : Int := 3600

def refreshTtlDays : Int := 30

def accessPrefix : String := "rto_"

def refreshPrefix : String := "rtr_"

/-- A second, in the nanoseconds that times are counted in. -/
def second : Int := 1000000000

/-- A fresh access and refresh token, as the token endpoint returns them. -/
structure TokenPair where
  accessToken : String
  tokenType : String
  expiresIn : Int
  refreshToken : String
  deriving DecidableEq

/-- The random parts of a pair. -/
structure Secrets where
  access : String
  refresh : String
  deriving DecidableEq

/-- The pair, and when its tokens expire. -/
def newPair (secrets : Secrets) (now : Int) : TokenPair × Int × Int :=
  ({ accessToken := accessPrefix ++ secrets.access
     tokenType := "Bearer"
     expiresIn := accessTtlSecs
     refreshToken := refreshPrefix ++ secrets.refresh },
    now + accessTtlSecs * second, now + refreshTtlDays * 86400 * second)

section

variable (Digest : Type)

structure Grant where
  id : Nat
  userId : Int
  clientId : String
  resource : String
  accessHash : Digest
  accessExpiresAt : Int
  refreshHash : Digest
  refreshExpiresAt : Int
  deriving DecidableEq

/-- A row of `oauth_spent_refresh_tokens`. -/
structure SpentToken where
  refreshHash : Digest
  grantId : Nat
  deriving DecidableEq

structure Tables where
  grants : List (Grant Digest)
  spent : List (SpentToken Digest)
  /-- No grant has had this id or a greater one: the sequence never gives one twice. -/
  nextId : Nat
  deriving DecidableEq

end

/-- What a code was issued for. -/
structure AuthorizationCode where
  userId : Int
  clientId : String
  resource : String
  deriving DecidableEq

variable {Digest : Type} [DecidableEq Digest] (hash : String → Digest)

/-- Deletes grants, and the spent tokens of each with it. -/
def Tables.deleteGrants (t : Tables Digest) (p : Grant Digest → Bool) : Tables Digest :=
  { t with
    grants := t.grants.filter fun g => !p g
    spent := t.spent.filter fun s => !t.grants.any fun g => p g && g.id = s.grantId }

/-- Connections whose refresh token ran out can never act again. -/
def deleteExpired (t : Tables Digest) (now : Int) : Tables Digest :=
  t.deleteGrants fun g => g.refreshExpiresAt < now

/-- The insert of `create_grant`, with the next id or a later one; `none` when a hash is
taken. -/
def createGrant (t : Tables Digest) (code : AuthorizationCode) (id : Nat) (secrets : Secrets)
    (now : Int) : Option (Tables Digest × TokenPair) :=
  let (pair, accessExpires, refreshExpires) := newPair secrets now
  let grant : Grant Digest :=
    { id, userId := code.userId, clientId := code.clientId, resource := code.resource
      accessHash := hash pair.accessToken, accessExpiresAt := accessExpires
      refreshHash := hash pair.refreshToken, refreshExpiresAt := refreshExpires }
  if t.grants.any fun g =>
      g.accessHash = grant.accessHash || g.refreshHash = grant.refreshHash then none
  else some ({ t with grants := t.grants ++ [grant], nextId := id + 1 }, pair)

/-- The grant a refresh token is current for. -/
def readGrant (t : Tables Digest) (token : String) : Option (Grant Digest) :=
  lookup Grant.refreshHash (hash token) t.grants

/-- Replaces the tokens of the grant that was read, whose token is spent with that; `none`
when a hash is taken. -/
def rotate (t : Tables Digest) (id : Nat) (old : Digest) (secrets : Secrets) (now : Int) :
    Option (Tables Digest × TokenPair) :=
  let (pair, accessExpires, refreshExpires) := newPair secrets now
  if (t.grants.any fun g => g.id ≠ id &&
      (g.accessHash = hash pair.accessToken || g.refreshHash = hash pair.refreshToken)) ||
      t.spent.any (·.refreshHash = old) then none
  else
    some ({ t with
      grants := modify Grant.id id (fun g =>
        { g with
          accessHash := hash pair.accessToken, accessExpiresAt := accessExpires
          refreshHash := hash pair.refreshToken, refreshExpiresAt := refreshExpires }) t.grants
      spent := t.spent ++ [⟨old, id⟩] }, pair)

/-- The rest of `refresh`, once it has read the grant: the tables it commits, and the pair
it returns if it does.  `none` when a statement fails, and nothing is committed. -/
def finishRefresh (t : Tables Digest) (read : Option (Grant Digest)) (token clientId : String)
    (now : Int) (secrets : Secrets) (later : Int) :
    Option (Tables Digest × Option TokenPair) :=
  let old := hash token
  match read with
  | none =>
      match lookup SpentToken.refreshHash old t.spent with
      | some s => some (t.deleteGrants (·.id = s.grantId), none)
      | none => some (t, none)
  | some grant =>
      if grant.clientId ≠ clientId ∨ grant.refreshExpiresAt ≤ now then some (t, none)
      else if (t.grants.countP fun g => g.id = grant.id ∧ g.refreshHash = old) ≠ 1 then
        -- Another request rotated this same token first: it was presented twice.
        some (t.deleteGrants (·.id = grant.id), none)
      else (rotate hash t grant.id old secrets later).map fun (t', pair) => (t', some pair)

/-- `url::Url::parse` and `as_str`. -/
abbrev ParseUrl := String → Option String

/-- Scheme and host ignore case, and a trailing slash is not a different resource. -/
def sameResource (parseUrl : ParseUrl) (a b : String) : Bool :=
  let canonical s := ((parseUrl s).map fun u => (u.dropEndWhile '/').toString).getD ""
  canonical a ≠ "" && canonical a = canonical b

/-- The user an access token acts for, if it is current and was issued for `resource`. -/
def authenticate (parseUrl : ParseUrl) (t : Tables Digest) (token resource : String)
    (now : Int) : Option Int :=
  ((lookup Grant.accessHash (hash token) t.grants).filter fun g =>
    g.accessExpiresAt > now && sameResource parseUrl g.resource resource).map Grant.userId

/-- Disconnects a client; only its own user can. -/
def revoke (t : Tables Digest) (userId : Int) (grantId : Nat) : Except AppError (Tables Digest) :=
  if t.grants.any fun g => g.id = grantId && g.userId = userId then
    .ok (t.deleteGrants fun g => g.id = grantId && g.userId = userId)
  else .error (.notFound "Connection not found")

/-- The grants of a user go with the user. -/
def deleteUser (t : Tables Digest) (userId : Int) : Tables Digest :=
  t.deleteGrants (·.userId = userId)

end Rustrak.OAuth
