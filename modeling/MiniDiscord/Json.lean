import Mathlib.Data.Nat.Notation
import Mathlib.Tactic.SplitIfs

/-!
# JSON values

The values of `serde_json` that are sent here, the ways they are read and written, and the types
that are serialized. An integer is a natural number, as no other numbers are sent.
-/

namespace MiniDiscord

inductive Json
  | null
  | bool (b : Bool)
  | num (n : ℕ)
  | str (s : String)
  | arr (elements : List Json)
  | obj (fields : List (String × Json))

namespace Json

/-! ## Objects -/

/-- `Map::insert`: the value under a key is replaced. -/
def insertField (key : String) (value : Json) : List (String × Json) → List (String × Json)
  | [] => [(key, value)]
  | (k, v) :: rest => if k = key then (key, value) :: rest else (k, v) :: insertField key value rest

/-- `value.get(key)` -/
def get? (value : Json) (key : String) : Option Json :=
  match value with
  | .obj fields => fields.lookup key
  | _ => none

/-- `value[key]`, which is null where there is nothing. -/
def index (value : Json) (key : String) : Json := (value.get? key).getD .null

/-- `value[key] = field`; a panic unless the value is an object or null. -/
def set (value : Json) (key : String) (field : Json) : Option Json :=
  match value with
  | .obj fields => some (.obj (insertField key field fields))
  | .null => some (.obj [(key, field)])
  | _ => none

def asStr : Json → Option String
  | .str s => some s
  | _ => none

def asU64 : Json → Option ℕ
  | .num n => some n
  | _ => none

def asBool : Json → Option Bool
  | .bool b => some b
  | _ => none

variable {value value' field : Json} {key other : String} {fields : List (String × Json)}

theorem lookup_field {k : String} {v : Json} :
    ((k, v) :: fields).lookup other = if other = k then some v else fields.lookup other := by
  split_ifs with h
  · rw [h, List.lookup_cons, beq_self_eq_true]
  · rw [List.lookup_cons, beq_false_of_ne h]

theorem lookup_insertField : (insertField key field fields).lookup other =
    if other = key then some field else fields.lookup other := by
  induction fields with
  | nil => exact lookup_field
  | cons kv rest ih =>
    obtain ⟨k, v⟩ := kv
    unfold insertField
    by_cases hk : k = key
    · rw [if_pos hk, lookup_field, lookup_field, hk]
      split_ifs <;> rfl
    · rw [if_neg hk, lookup_field, lookup_field, ih]
      split_ifs with h h' <;> simp_all

theorem get?_set (h : value.set key field = some value') :
    value'.get? other = if other = key then some field else value.get? other := by
  cases value with
  | obj fields =>
    obtain rfl := Option.some.inj h
    exact lookup_insertField
  | null =>
    obtain rfl := Option.some.inj h
    exact lookup_field
  | bool | num | str | arr => cases h

theorem get?_set_self (h : value.set key field = some value') : value'.get? key = some field := by
  rw [get?_set h, if_pos rfl]

theorem get?_set_of_ne (h : value.set key field = some value') (hne : other ≠ key) :
    value'.get? other = value.get? other := by
  rw [get?_set h, if_neg hne]

end Json

/-! ## Serialized types -/

/-- A type that can be sent, with a reader that gives back what was written. -/
class Serde (α : Type) where
  serialize : α → Json
  /-- `none` where `serde_json` returns an error. -/
  deserialize : Json → Option α
  read_back : ∀ a, deserialize (serialize a) = some a

open Serde

instance : Serde Unit where
  serialize _ := .null
  deserialize
    | .null => some ()
    | _ => none
  read_back _ := rfl

instance : Serde String where
  serialize := .str
  deserialize := Json.asStr
  read_back _ := rfl

instance : Serde ℕ where
  serialize := .num
  deserialize := Json.asU64
  read_back _ := rfl

variable {α : Type} [Serde α]

theorem mapM_serialize (l : List α) : (l.map serialize).mapM (deserialize (α := α)) = some l := by
  induction l with
  | nil => rfl
  | cons a l ih => simp [read_back, ih]

instance : Serde (List α) where
  serialize l := .arr (l.map serialize)
  deserialize
    | .arr elements => elements.mapM deserialize
    | _ => none
  read_back := mapM_serialize

end MiniDiscord
