import StLint.Json.Basic

/-!
# Reading records from JSON

A record is read from an object by its keys or from an array by position. Unknown keys are ignored,
a repeated key of the record is refused, and so is an array with more items than there are keys.
-/

namespace StLint.Json

/-- What a record says of one of its fields. -/
inductive Presence where
  | present (v : Json)
  /-- The key does not occur in the object. -/
  | absent
  /-- The array is too short. -/
  | beyond

/-- The fields of a record, by key. -/
abbrev Record := String → Presence

/-- The members of an object with a given key. -/
def occurrences (members : List (String × Json)) (key : String) : List Json :=
  members.filterMap fun (k, v) => if k = key then some v else none

/-- Reads a value as a record with the given keys, in the order of an array. -/
def record? (keys : List String) : Json → Option Record
  | .obj ms =>
    if keys.all fun k => (occurrences ms k).length ≤ 1 then
      some fun k => match occurrences ms k with
        | v :: _ => .present v
        | [] => .absent
    else none
  | .arr items =>
    if items.length ≤ keys.length then
      some fun k => match items[keys.idxOf k]? with
        | some v => .present v
        | none => .beyond
    else none
  | _ => none

/-- As `record?`, and an object with any other key is refused. -/
def strictRecord? (keys : List String) (v : Json) : Option Record :=
  match v with
  | .obj ms => if ms.all fun m => keys.contains m.1 then record? keys v else none
  | _ => record? keys v

namespace Presence

/-- A field that must be there. -/
def required (decode : Json → Option α) : Presence → Option α
  | .present v => decode v
  | _ => none

/-- A field that may be null or left out of an object. -/
def optional (decode : Json → Option α) : Presence → Option (Option α)
  | .present .null => some none
  | .present v => (decode v).map some
  | .absent => some none
  | .beyond => none

/-- A field that has a default where it is left out. -/
def orDefault (default : α) (decode : Json → Option α) : Presence → Option α
  | .present v => decode v
  | _ => some default

end Presence

/-! ## Values -/

/-- A string. -/
def string? : Json → Option String
  | .str s => some s
  | _ => none

/-- A truth value. -/
def bool? : Json → Option Bool
  | .bool b => some b
  | _ => none

/-- An unsigned 64-bit integer. -/
def nat? : Json → Option Nat
  | .num n => n.toNat?
  | _ => none

/-- A signed 64-bit integer. -/
def int? : Json → Option Int
  | .num n => n.toInt?
  | _ => none

/-- A double; integers are accepted. -/
def float? : Json → Option Float
  | .num n => n.toFloat?
  | _ => none

/-- An array of one form of value. -/
def list? (decode : Json → Option α) : Json → Option (List α)
  | .arr items => items.mapM decode
  | _ => none

/-- The value or null. -/
def nullable? (decode : Json → Option α) : Json → Option (Option α)
  | .null => some none
  | v => (decode v).map some

/-- A name of an enumeration, alone or as the only key over null. -/
def variantName? : Json → Option String
  | .str s => some s
  | .obj [(k, .null)] => some k
  | _ => none

/-- The constructor with a given name. -/
def variant? (names : List (String × α)) (v : Json) : Option α :=
  (variantName? v).bind fun s => names.lookup s

end StLint.Json
