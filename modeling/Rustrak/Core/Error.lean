import Mathlib.Tactic.Common

/-!
# Application errors

The errors of `error.rs`: eight kinds, and a ninth shape `withFields` that only
decorates one of the eight with the request fields it blames.  `withFields` is
kept one level deep, which is why `kind` reads through it and why a handler
matches on `kind` and never on the error itself.

The database error carries what the code asks of `sqlx::Error`: whether a
constraint failed, and the database's own error code.
-/

namespace Rustrak.Core

/-- The closed vocabulary a field error may use. -/
inductive FieldErrorCode
  | required
  | invalid
  | alreadyExists
  | tooShort
  | tooLong
  | custom
  deriving DecidableEq, Repr

/-- One rejected input, named by its dot path into the request body. -/
structure FieldError where
  field : String
  code : FieldErrorCode
  message : Option String
  deriving DecidableEq, Repr

def FieldError.new (field : String) (code : FieldErrorCode) : FieldError :=
  { field, code, message := none }

/-- What the code reads of a `sqlx::Error`. -/
inductive DbError
  | uniqueViolation
  | foreignKeyViolation
  | database (code : Option String)
  | rowNotFound
  | other (text : String)
  deriving DecidableEq, Repr

/-- The eight kinds of error. -/
inductive ErrorKind
  | notFound (message : String)
  | validation (message : String)
  | conflict (message : String)
  | unauthorized (message : String)
  | forbidden (message : String)
  | payloadTooLarge (message : String)
  | database (error : DbError)
  | internal (message : String)
  deriving DecidableEq, Repr

/-- An error and the fields it blames.  `WithFields` decorates a kind and never
another decorated error, so an error is a kind and a list: empty where the source
holds the bare variant. -/
structure AppError where
  kind : ErrorKind
  fields : List FieldError
  deriving DecidableEq, Repr

abbrev AppResult := Except AppError

instance {α : Type} [DecidableEq α] : DecidableEq (AppResult α) := fun
  | .ok a, .ok b => decidable_of_iff (a = b) (by simp)
  | .error a, .error b => decidable_of_iff (a = b) (by simp)
  | .ok _, .error _ => isFalse (by simp)
  | .error _, .ok _ => isFalse (by simp)

namespace AppError

def of (kind : ErrorKind) : AppError := ⟨kind, []⟩

def notFound (message : String) : AppError := of (.notFound message)
def validation (message : String) : AppError := of (.validation message)
def conflict (message : String) : AppError := of (.conflict message)
def unauthorized (message : String) : AppError := of (.unauthorized message)
def forbidden (message : String) : AppError := of (.forbidden message)
def payloadTooLarge (message : String) : AppError := of (.payloadTooLarge message)
def database (error : DbError) : AppError := of (.database error)
def internal (message : String) : AppError := of (.internal message)

/-- Annotates this error with several rejected fields, after those it has. -/
def withFields (e : AppError) (fields : List FieldError) : AppError :=
  { e with fields := e.fields ++ fields }

def withField (e : AppError) (field : String) (code : FieldErrorCode) : AppError :=
  e.withFields [FieldError.new field code]

end AppError

/-! ## Sequencing

What a later step of a handler sees: the checks before it passed. -/

theorem bind_eq_ok {α β : Type} {x : AppResult α} {f : α → AppResult β} {b : β}
    (h : x >>= f = .ok b) : ∃ a, x = .ok a ∧ f a = .ok b := by
  cases x with
  | ok a => exact ⟨a, rfl, h⟩
  | error e => cases h

theorem ok_bind {α β : Type} (a : α) (f : α → AppResult β) :
    (Except.ok a : AppResult α) >>= f = f a := rfl

/-- `Option::ok_or_else`. -/
def okOr {α : Type} (o : Option α) (e : AppError) : AppResult α :=
  match o with
  | some a => .ok a
  | none => .error e

theorem okOr_eq_ok {α : Type} {o : Option α} {e : AppError} {a : α} (h : okOr o e = .ok a) :
    o = some a := by
  cases o with
  | none => cases h
  | some b => cases h; rfl

/-- A guard: `if !holds { return Err(e) }`. -/
def ensure (holds : Bool) (e : AppError) : AppResult Unit :=
  if holds then .ok () else .error e

theorem ensure_eq_ok {holds : Bool} {e : AppError} {u : Unit} (h : ensure holds e = .ok u) :
    holds = true := by
  cases holds with
  | true => rfl
  | false => cases h

/-- A `for` loop whose body only fails or passes: every element passed. -/
def forAll {α : Type} (check : α → AppResult Unit) : List α → AppResult Unit
  | [] => .ok ()
  | a :: rest => check a >>= fun _ => forAll check rest

theorem forAll_eq_ok {α : Type} {check : α → AppResult Unit} {items : List α} {u : Unit}
    (h : forAll check items = .ok u) : ∀ a ∈ items, check a = .ok () := by
  induction items with
  | nil => simp
  | cons a rest ih =>
      obtain ⟨_, hfirst, hrest⟩ := bind_eq_ok h
      intro b hb
      rcases List.mem_cons.mp hb with rfl | hb
      · exact hfirst
      · exact ih hrest b hb

end Rustrak.Core
