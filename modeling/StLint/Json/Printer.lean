import StLint.Json.Basic

/-!
# Writing JSON

Two layouts: `compact` on one line, and `pretty` with one member or item per line, indented by two
spaces. Only the quote, the backslash and the control characters are escaped. What is unreadable is
null, as are the doubles that JSON cannot write.
-/

namespace StLint.Json

/-- A hexadecimal digit. -/
def hexDigit (n : Nat) : Char :=
  (['0','1','2','3','4','5','6','7','8','9','a','b','c','d','e','f'][n]?).getD '0'

/-- A character inside a string literal. -/
def escapeChar (c : Char) : List Char :=
  if c = '"' then ['\\', '"']
  else if c = '\\' then ['\\', '\\']
  else if c = '\n' then ['\\', 'n']
  else if c = '\r' then ['\\', 'r']
  else if c = '\t' then ['\\', 't']
  else if c = '\u0008' then ['\\', 'b']
  else if c = '\u000c' then ['\\', 'f']
  else if c.toNat < 0x20 then
    ['\\', 'u', '0', '0', hexDigit (c.toNat / 16), hexDigit (c.toNat % 16)]
  else [c]

/-- A string literal with its quotes. -/
def quote (s : String) : String := String.ofList ('"' :: (s.toList.flatMap escapeChar ++ ['"']))

mutual

/-- A value on one line. -/
def compact : Json → String
  | .null | .unreadable => "null"
  | .bool b => if b then "true" else "false"
  | .num n => String.ofList n.spelling
  | .str s => quote s
  | .arr items => "[" ++ ",".intercalate (compactItems items) ++ "]"
  | .obj members => "\x7b" ++ ",".intercalate (compactMembers members) ++ "\x7d"

/-- The items of an array, each on one line. -/
def compactItems : List Json → List String
  | [] => []
  | v :: r => compact v :: compactItems r

/-- The members of an object, each on one line. -/
def compactMembers : List (String × Json) → List String
  | [] => []
  | (k, v) :: r => (quote k ++ ":" ++ compact v) :: compactMembers r

end

/-- A line break and the indentation of a level. -/
def newline (level : Nat) : String := "\n" ++ String.ofList (List.replicate (2 * level) ' ')

/-- Lines between an opening and a closing bracket. -/
def bracketed (opening closing : String) (level : Nat) (parts : List String) : String :=
  if parts.isEmpty then opening ++ closing
  else opening ++ newline (level + 1) ++ ("," ++ newline (level + 1)).intercalate parts ++
    newline level ++ closing

mutual

/-- A value over several lines, whose first line stands at `level`. -/
def prettyAt (level : Nat) : Json → String
  | .null | .unreadable => "null"
  | .bool b => if b then "true" else "false"
  | .num n => String.ofList n.spelling
  | .str s => quote s
  | .arr items => bracketed "[" "]" level (prettyItems (level + 1) items)
  | .obj members => bracketed "\x7b" "\x7d" level (prettyMembers (level + 1) members)

/-- The items of an array, one per line. -/
def prettyItems (level : Nat) : List Json → List String
  | [] => []
  | v :: r => prettyAt level v :: prettyItems level r

/-- The members of an object, one per line. -/
def prettyMembers (level : Nat) : List (String × Json) → List String
  | [] => []
  | (k, v) :: r => (quote k ++ ": " ++ prettyAt level v) :: prettyMembers level r

end

/-- A value over several lines. -/
def pretty (v : Json) : String := prettyAt 0 v

end StLint.Json
