import StLint.Text.Word

/-!
# The words of the language

Tables of the reserved words, the standard functions and function blocks, and the elementary types.
A word is looked up in upper case.

* `isReserved` — a word that can never name a called unit.
* `isBuiltin` — a standard function or function block, or a type conversion such as `INT_TO_REAL`.
* `isInstanceType` — a base type that may name a function block.
-/

namespace StLint.Language

open Text

/-- The reserved words. -/
def reservedWords : List String :=
  [ "IF", "THEN", "ELSIF", "ELSE", "END_IF",
    "FOR", "TO", "BY", "DO", "END_FOR",
    "WHILE", "END_WHILE", "REPEAT", "UNTIL", "END_REPEAT",
    "CASE", "OF", "END_CASE", "EXIT", "CONTINUE", "RETURN",
    "AND", "OR", "XOR", "NOT", "MOD", "DIV",
    "TRUE", "FALSE",
    "VAR", "VAR_INPUT", "VAR_OUTPUT", "VAR_IN_OUT", "VAR_TEMP",
    "VAR_GLOBAL", "VAR_EXTERNAL", "END_VAR", "CONSTANT", "RETAIN", "PERSISTENT", "AT",
    "PROGRAM", "END_PROGRAM", "FUNCTION", "END_FUNCTION",
    "FUNCTION_BLOCK", "END_FUNCTION_BLOCK",
    "ARRAY", "STRUCT", "END_STRUCT", "TYPE", "END_TYPE" ]

/-- The standard functions and function blocks. -/
def standardFunctions : List String :=
  [ "ABS", "SQRT", "LN", "LOG", "EXP", "EXPT", "SIN", "COS", "TAN",
    "ASIN", "ACOS", "ATAN", "TRUNC", "ROUND",
    "ADD", "SUB", "MUL", "DIV", "MOD", "MOVE",
    "SEL", "MAX", "MIN", "LIMIT", "MUX",
    "GT", "GE", "EQ", "LE", "LT", "NE",
    "AND", "OR", "XOR", "NOT", "SHL", "SHR", "ROL", "ROR",
    "LEN", "LEFT", "RIGHT", "MID", "CONCAT", "INSERT", "DELETE", "REPLACE", "FIND",
    "TON", "TOF", "TP", "CTU", "CTD", "CTUD", "R_TRIG", "F_TRIG", "SR", "RS",
    "SIZEOF", "ADR" ]

/-- The elementary types. A variable of one of these is never an instance. -/
def elementaryTypes : List String :=
  [ "BOOL", "BYTE", "WORD", "DWORD", "LWORD",
    "SINT", "INT", "DINT", "LINT", "USINT", "UINT", "UDINT", "ULINT",
    "REAL", "LREAL",
    "STRING", "WSTRING", "CHAR", "WCHAR",
    "TIME", "LTIME", "DATE", "TOD", "TIME_OF_DAY", "DT", "DATE_AND_TIME" ]

/-- The type constructors, which name no function block either. -/
def typeConstructors : List String := ["ARRAY", "POINTER", "REF_TO", "STRUCT"]

/-- A text is one of the words of a table. -/
def isOneOf (words : List String) (s : List Char) : Bool := words.any fun w => w.toList == s

/-- A text is one of the words of a table, in any case. -/
def isOneOfIgnoringCase (words : List String) (s : List Char) : Bool := isOneOf words (upper s)

/-- A part of the name of a type conversion. -/
def isConversionPart (s : List Char) : Bool := !s.isEmpty && s.all fun c => isLetter c || c = '_'

/-- A type conversion, `INT_TO_REAL` and the like, cut at the first `_TO_`. -/
def isConversion (name : List Char) : Bool :=
  let s := upper name
  match find? "_TO_".toList s with
  | some i => isConversionPart (s.take i) && isConversionPart (s.drop (i + 4))
  | none => false

@[inherit_doc standardFunctions] def isStandard (name : List Char) : Bool :=
  isOneOfIgnoringCase standardFunctions name

/-- A standard function or function block, or a type conversion. -/
def isBuiltin (name : List Char) : Bool := isStandard name || isConversion name

@[inherit_doc reservedWords] def isReserved (name : List Char) : Bool :=
  isOneOfIgnoringCase reservedWords name

/-- A base type, already in upper case, that may name a function block. -/
def isInstanceType (baseType : List Char) : Bool :=
  !baseType.isEmpty && !isOneOf elementaryTypes baseType && !isOneOf typeConstructors baseType

end StLint.Language
