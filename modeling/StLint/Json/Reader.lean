import StLint.Json.Basic

/-!
# Reading JSON

A text is cut into tokens, and the tokens drive a machine with a stack of open brackets. Both walk
their list once, so reading always ends.

* `tokens?` — strings are decoded here; a bare control character is refused, and a string with half a
  surrogate pair is unreadable.
* `State.step?` — one token. What may come next is a **constructor of the state**, so that a comma
  before a closing bracket has no transition.
* `parse?` — the value of a text.
-/

namespace StLint.Json

/-- A token of a JSON text. -/
inductive Token where
  | beginArray
  | endArray
  | beginObject
  | endObject
  | colon
  | comma
  | scalar (v : Json)

/-- What the tokenizer is inside of, with what it has read in reverse. -/
inductive Lexing where
  | between
  | number (read : List Char)
  /-- There is nothing to be read after half a surrogate pair. -/
  | string (read : Option (List Char))

/-- The value of a hexadecimal digit. -/
def hexValue? (c : Char) : Option Nat :=
  if '0' ≤ c ∧ c ≤ '9' then some (c.toNat - '0'.toNat)
  else if 'a' ≤ c ∧ c ≤ 'f' then some (c.toNat - 'a'.toNat + 10)
  else if 'A' ≤ c ∧ c ≤ 'F' then some (c.toNat - 'A'.toNat + 10)
  else none

/-- The value of four hexadecimal digits. -/
def hex4? (a b c d : Char) : Option Nat := do
  let a ← hexValue? a
  let b ← hexValue? b
  let c ← hexValue? c
  let d ← hexValue? d
  return ((a * 16 + b) * 16 + c) * 16 + d

/-- The characters of a number literal. -/
def isNumberChar (c : Char) : Bool :=
  c.isDigit || c = '-' || c = '+' || c = '.' || c = 'e' || c = 'E'

/-- White space between tokens. -/
def isSpace (c : Char) : Bool := c = ' ' || c = '\n' || c = '\t' || c = '\r'

/-- The bracket and separator tokens. -/
def punctuation? (c : Char) : Option Token :=
  if c = '[' then some .beginArray
  else if c = ']' then some .endArray
  else if c = '\x7b' then some .beginObject
  else if c = '\x7d' then some .endObject
  else if c = ':' then some .colon
  else if c = ',' then some .comma
  else none

/-- The escapes of one letter. -/
def shortEscape? (c : Char) : Option Char :=
  if c = '"' || c = '\\' || c = '/' then some c
  else if c = 'b' then some '\u0008'
  else if c = 'f' then some '\u000c'
  else if c = 'n' then some '\n'
  else if c = 'r' then some '\r'
  else if c = 't' then some '\t'
  else none

/-- The character of a surrogate pair. -/
def surrogatePair? (hi lo : Nat) : Option Char :=
  if 0xd800 ≤ hi ∧ hi < 0xdc00 ∧ 0xdc00 ≤ lo ∧ lo < 0xe000 then
    some (Char.ofNat (0x10000 + (hi - 0xd800) * 0x400 + (lo - 0xdc00)))
  else none

/-- What was read of a string, with another character. -/
def extend (read : Option (List Char)) (c : Char) : Option (List Char) := read.map fun cs => c :: cs

/-- What was read of a string, with the character of an escaped number; half a surrogate pair has
    none. -/
def extendCode (read : Option (List Char)) (n : Nat) : Option (List Char) :=
  if 0xd800 ≤ n ∧ n < 0xe000 then none else extend read (Char.ofNat n)

/-- The string token of what was read. -/
def stringToken (read : Option (List Char)) : Token :=
  .scalar (match read with
    | some cs => .str (String.ofList cs.reverse)
    | none => .unreadable)

/-- The number token of what was read. -/
def numberToken? (read : List Char) : Option Token :=
  (Number.ofSpelling? read.reverse).map fun n => .scalar (.num n)

/-- Tokens in reverse, from a given point of the text on. -/
def tokensFrom? (done : List Token) : Lexing → List Char → Option (List Token)
  | .between, [] => some done.reverse
  | .number read, [] => (numberToken? read).map fun t => (t :: done).reverse
  | .string _, [] => none
  | .between, 't' :: 'r' :: 'u' :: 'e' :: r => tokensFrom? (.scalar (.bool true) :: done) .between r
  | .between, 'f' :: 'a' :: 'l' :: 's' :: 'e' :: r =>
    tokensFrom? (.scalar (.bool false) :: done) .between r
  | .between, 'n' :: 'u' :: 'l' :: 'l' :: r => tokensFrom? (.scalar .null :: done) .between r
  | .between, c :: r =>
    if isSpace c then tokensFrom? done .between r
    else if c = '"' then tokensFrom? done (.string (some [])) r
    else if isNumberChar c then tokensFrom? done (.number [c]) r
    else match punctuation? c with
      | some t => tokensFrom? (t :: done) .between r
      | none => none
  | .number read, c :: r =>
    if isNumberChar c then tokensFrom? done (.number (c :: read)) r
    else match numberToken? read with
      | none => none
      | some n =>
        if isSpace c then tokensFrom? (n :: done) .between r
        else match punctuation? c with
          | some t => tokensFrom? (t :: n :: done) .between r
          | none => none
  | .string read, '\\' :: 'u' :: a :: b :: c :: d :: '\\' :: 'u' :: e :: f :: g :: h :: r =>
    match hex4? a b c d, hex4? e f g h with
    | some n, some n' =>
      match surrogatePair? n n' with
      | some ch => tokensFrom? done (.string (extend read ch)) r
      | none =>
        tokensFrom? done (.string (extendCode read n)) ('\\' :: 'u' :: e :: f :: g :: h :: r)
    | _, _ => none
  | .string read, '\\' :: 'u' :: a :: b :: c :: d :: r =>
    match hex4? a b c d with
    | some n => tokensFrom? done (.string (extendCode read n)) r
    | none => none
  | .string read, '\\' :: c :: r =>
    match shortEscape? c with
    | some ch => tokensFrom? done (.string (extend read ch)) r
    | none => none
  | .string read, c :: r =>
    if c = '"' then tokensFrom? (stringToken read :: done) .between r
    else if c.toNat < 0x20 || c = '\\' then none
    else tokensFrom? done (.string (extend read c)) r

/-- The tokens of a text. -/
def tokens? (s : List Char) : Option (List Token) := tokensFrom? [] .between s

/-- The members of an object so far, in reverse; none after an unreadable key. -/
abbrev Members := Option (List (String × Json))

/-- The members with another one. -/
def Members.add (ms : Members) (key : Option String) (v : Json) : Members := do
  return (← key, v) :: (← ms)

/-- The object of some members. -/
def Members.close : Members → Json
  | some ms => .obj ms.reverse
  | none => .unreadable

/-- An open bracket with the members before the value that is being read, in reverse. -/
inductive Frame where
  | array (items : List Json)
  | object (members : Members) (key : Option String)

/-- What the tokens so far leave open. -/
inductive State where
  /-- A value must follow, or the end of the array that was just opened. -/
  | value (frames : List Frame) (mayEnd : Bool)
  /-- A key must follow, or the end of the object that was just opened. -/
  | key (frames : List Frame) (members : Members) (mayEnd : Bool)
  /-- A colon must follow the key. -/
  | colon (frames : List Frame) (members : Members) (key : Option String)
  /-- A value is complete. -/
  | complete (frames : List Frame) (v : Json)

/-- One token. -/
def State.step? : State → Token → Option State
  | .value fs _, .scalar v => some (.complete fs v)
  | .value fs _, .beginArray => some (.value (.array [] :: fs) true)
  | .value fs _, .beginObject => some (.key fs (some []) true)
  | .value (.array [] :: fs) true, .endArray => some (.complete fs (.arr []))
  | .key fs ms _, .scalar (.str k) => some (.colon fs ms (some k))
  | .key fs ms _, .scalar .unreadable => some (.colon fs ms none)
  | .key fs (some []) true, .endObject => some (.complete fs (.obj []))
  | .colon fs ms k, .colon => some (.value (.object ms k :: fs) false)
  | .complete (.array items :: fs) v, .comma => some (.value (.array (v :: items) :: fs) false)
  | .complete (.array items :: fs) v, .endArray => some (.complete fs (.arr (v :: items).reverse))
  | .complete (.object ms k :: fs) v, .comma => some (.key fs (ms.add k v) false)
  | .complete (.object ms k :: fs) v, .endObject => some (.complete fs (ms.add k v).close)
  | _, _ => none

/-- The value of a token list. -/
def ofTokens? (ts : List Token) : Option Json :=
  match ts.foldlM State.step? (.value [] false) with
  | some (.complete [] v) => some v
  | _ => none

/-- The value of a text. -/
def parse? (s : String) : Option Json := (tokens? s.toList).bind ofTokens?

end StLint.Json
