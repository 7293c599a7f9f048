import StLint.Json.Number

/-!
# JSON values

Objects keep their members in order, and a repeated key stays visible to whoever reads the object.
**A text need not be valid everywhere to be read**: what is not a text of Unicode characters can still
be passed over.
-/

namespace StLint

/-- A JSON value. -/
inductive Json where
  | null
  | bool (b : Bool)
  | num (n : Json.Number)
  | str (s : String)
  | arr (items : List Json)
  | obj (members : List (String × Json))
  /-- A string with half a surrogate pair, or an object with such a key. No reader takes it, but it
      may stand under a key that nobody reads. -/
  | unreadable
  deriving Repr, Inhabited

namespace Json

/-- An integer. -/
def ofInt (i : Int) : Json := .num (.ofInt i)

/-- A natural number. -/
def ofNat (n : Nat) : Json := .num (.ofInt n)

/-- A double; the values that JSON cannot write are null. -/
def ofFloat (x : Float) : Json :=
  match Number.ofFloat? x with
  | some n => .num n
  | none => .null

/-- A value or null. -/
def ofOption (f : α → Json) : Option α → Json
  | some a => f a
  | none => .null

/-- An array of one form of value. -/
def ofList (f : α → Json) (as : List α) : Json := .arr (as.map f)

/-- The members that are present, in order. -/
def ofMembers (members : List (Option (String × Json))) : Json := .obj (members.filterMap id)

/-- A member that is always written. -/
def field (key : String) (value : Json) : Option (String × Json) := some (key, value)

/-- A member that is left out when it has no value. -/
def field? (key : String) (f : α → Json) (value : Option α) : Option (String × Json) :=
  value.map fun a => (key, f a)

end Json

end StLint
