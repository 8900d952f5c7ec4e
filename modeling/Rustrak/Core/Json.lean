import Mathlib.Tactic.Common

/-!
# JSON values

`serde_json::Value` as the code reads it: by key, and by type.  Reading a value of
another type answers `none`.

A number is an integer that fits 64 bits, or else a double.  The code prints a double's
integer part and its JSON text, so those two stand for it.
-/

namespace Rustrak.Core

inductive Number
  | int (n : Int)
  | float (truncated text : String)
  deriving DecidableEq, Repr

inductive Value
  | null
  | bool (b : Bool)
  | number (n : Number)
  | string (s : String)
  | array (values : List Value)
  | object (fields : List (String × Value))
  deriving Repr

namespace Value

/-- The field of an object. -/
def get (v : Value) (key : String) : Option Value :=
  match v with
  | object fields => (fields.find? fun field => field.1 = key).map Prod.snd
  | _ => none

def asStr : Value → Option String
  | string s => some s
  | _ => none

def asBool : Value → Option Bool
  | bool b => some b
  | _ => none

def asArray : Value → Option (List Value)
  | array values => some values
  | _ => none

def asU64 : Value → Option Nat
  | number (.int n) => if 0 ≤ n then some n.toNat else none
  | _ => none

/-- The text of a field, when it is one. -/
def str (v : Value) (key : String) : Option String :=
  (v.get key).bind asStr

def isObject : Value → Bool
  | object _ => true
  | _ => false

/-- `value[key] = field`: a null becomes an object.  The code assigns to no other value,
which would panic. -/
def set (v : Value) (key : String) (field : Value) : Value :=
  match v with
  | object fields => object ((key, field) :: fields.filter fun f => f.1 ≠ key)
  | null => object [(key, field)]
  | other => other

/-- `Map::remove`, on an object. -/
def remove (v : Value) (key : String) : Value :=
  match v with
  | object fields => object (fields.filter fun f => f.1 ≠ key)
  | other => other

variable {v : Value} {key key' : String} {field : Value}

@[simp] theorem get_null (key : String) : null.get key = none := rfl

theorem isObject_of_get (h : v.get key = some field) : v.isObject = true := by
  cases v with
  | object fields => rfl
  | _ => contradiction

private theorem find_filter_ne {fields : List (String × Value)} (hne : key ≠ key') :
    (fields.filter fun f => f.1 ≠ key').find? (fun f => f.1 = key) =
      fields.find? fun f => f.1 = key := by
  rw [List.find?_filter]
  congr 1
  funext f
  by_cases hf : f.1 = key
  · simp [hf, hne]
  · simp [hf]

theorem get_set_self (h : v.isObject = true) : (v.set key field).get key = some field := by
  cases v with
  | object fields => simp [set, get]
  | _ => contradiction

theorem get_set_null : (null.set key field).get key = some field := by
  simp [set, get]

theorem get_set_ne (hne : key ≠ key') : (v.set key' field).get key = v.get key := by
  cases v with
  | object fields =>
      have hhead : ¬key' = key := fun heq => hne heq.symm
      simp only [set, get]
      rw [List.find?_cons_of_neg (by simpa using hhead), find_filter_ne hne]
  | null =>
      have hhead : ¬key' = key := fun heq => hne heq.symm
      simp [set, get, hhead]
  | _ => rfl

theorem isObject_set (h : v.isObject = true) : (v.set key field).isObject = true := by
  cases v with
  | object fields => rfl
  | _ => contradiction

theorem get_remove_self : (v.remove key).get key = none := by
  cases v with
  | object fields => simp [remove, get]
  | _ => rfl

theorem get_remove_ne (hne : key ≠ key') : (v.remove key').get key = v.get key := by
  cases v with
  | object fields =>
      simp only [remove, get]
      rw [find_filter_ne hne]
  | _ => rfl

end Value

end Rustrak.Core
