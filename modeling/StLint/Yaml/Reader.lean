import StLint.Source.Comment
import StLint.Yaml.Basic
import StLint.Yaml.Token

/-!
# Reading YAML

The block structure is read line by line over a stack of open mappings, innermost first; a line
belongs to the mapping whose keys **stand in the same column**. What is inside braces is read
token by token over a stack of its own.

* `Flow.step?` — one token inside braces.
* `Document.step?` — one line of the block structure.
* `parse?` — the value of a text.
-/

namespace StLint.Yaml

open Text

/-- The scalar that a token is. -/
def scalarOf? (t : Token) : Option Yaml :=
  match t.kind with
  | .plain s => some (.scalar (String.ofList s) true)
  | .quoted s => some (.scalar (String.ofList s) false)
  | _ => none

/-- The key that a token may be: a scalar on one line. -/
def keyOf? (t : Token) : Option String :=
  if t.line = t.lastLine then (scalarOf? t).bind string? else none

/-! ## Inside braces -/

/-- A mapping in braces around another one: its members in reverse, and the key of the inner one. -/
structure FlowFrame where
  members : List (String × Yaml)
  key : String

/-- What the tokens inside braces leave open. -/
inductive Flow where
  /-- A key must follow, or the end. -/
  | key (outer : List FlowFrame) (members : List (String × Yaml))
  /-- The colon of a key may follow on its line. -/
  | afterKey (outer : List FlowFrame) (members : List (String × Yaml)) (key : String) (line : Nat)
  /-- A value may follow. -/
  | value (outer : List FlowFrame) (members : List (String × Yaml)) (key : String)
  /-- A comma must follow, or the end. -/
  | afterValue (outer : List FlowFrame) (members : List (String × Yaml))
  | complete (v : Yaml)

namespace Flow

/-- Closes the innermost braces. -/
def close (members : List (String × Yaml)) : List FlowFrame → Flow
  | [] => .complete (.mapping members.reverse)
  | f :: outer => .afterValue outer ((f.key, .mapping members.reverse) :: f.members)

/-- One token. A key or colon with nothing after it has a null value. -/
def step? (f : Flow) (t : Token) : Option Flow :=
  match f, t.kind with
  | key outer ms, .closing => some (close ms outer)
  | key outer ms, _ => (keyOf? t).map fun k => .afterKey outer ms k t.line
  | afterKey outer ms k line, .colon => if t.line = line then some (.value outer ms k) else none
  | afterKey outer ms k _, .comma => some (.key outer ((k, null) :: ms))
  | afterKey outer ms k _, .closing => some (close ((k, null) :: ms) outer)
  | value outer ms k, .comma => some (.key outer ((k, null) :: ms))
  | value outer ms k, .closing => some (close ((k, null) :: ms) outer)
  | value outer ms k, .opening => some (.key (⟨ms, k⟩ :: outer) [])
  | value outer ms k, _ => (scalarOf? t).map fun v => .afterValue outer ((k, v) :: ms)
  | afterValue outer ms, .comma => some (.key outer ms)
  | afterValue outer ms, .closing => some (close ms outer)
  | _, _ => none

end Flow

/-- The value that some tokens are: one scalar, or a mapping in braces. -/
def node? : List Token → Option Yaml
  | [] => none
  | t :: ts =>
    if t.kind = .opening then
      match ts.foldlM Flow.step? (.key [] []) with
      | some (.complete v) => some v
      | _ => none
    else if ts.isEmpty then scalarOf? t else none

/-! ## Lines -/

/-- What stands on a line of the block structure, apart from comments. -/
inductive Content where
  | nothing
  /-- A key, with a value where one stands on the same line. -/
  | entry (key : String) (value : Option Yaml)
  | value (v : Yaml)

/-- A line of the block structure. -/
structure BlockLine where
  content : Content
  column : Nat
  line : Nat
  /-- The last line, and whether the line ends in a plain scalar that the next line may go on
      with. -/
  lastLine : Nat
  isOpen : Bool

/-- The tokens of each line of the block structure. -/
def cutLines : List Token → List (List Token)
  | [] => []
  | t :: ts =>
    match cutLines ts with
    | (u :: us) :: ls => if u.begins then [t] :: (u :: us) :: ls else (t :: u :: us) :: ls
    | ls => [t] :: ls

/-- What stands on a line. -/
def content? : List Token → Option Content
  | [] => some .nothing
  | t :: ts =>
    match ts with
    | colon :: rest =>
      if colon.kind = .colon then
        (keyOf? t).bind fun k =>
          if rest.isEmpty then some (.entry k none) else (node? rest).map fun v => .entry k (some v)
      else (node? (t :: ts)).map .value
    | [] => (node? [t]).map .value

/-- The line that some tokens are. -/
def blockLine? (ts : List Token) : Option BlockLine :=
  let code := ts.filter (·.kind ≠ .comment)
  (content? code).map fun content =>
    { content
      column := (code.head?.map Token.column).getD 0
      line := (code.head?.map Token.line).getD 0
      lastLine := (code.getLast?.map Token.lastLine).getD 0
      isOpen := code.length = ts.length }

/-! ## The block structure -/

/-- A mapping whose end was not reached: its members but the last, in reverse, and the last one. -/
structure OpenMapping where
  column : Nat
  members : List (String × Yaml)
  key : String
  value : Option Yaml
  /-- The last line of a plain scalar that may go on. -/
  tail : Option Nat

namespace OpenMapping

/-- All members; a key without a value has null. -/
def all (o : OpenMapping) : List (String × Yaml) := (o.key, o.value.getD null) :: o.members

/-- The mapping when it ends. -/
def close (o : OpenMapping) : Yaml := .mapping o.all.reverse

/-- The mapping goes on with another key. -/
def next (o : OpenMapping) (key : String) (value : Option Yaml) (tail : Option Nat) : OpenMapping :=
  ⟨o.column, o.all, key, value, tail⟩

/-- Closes mappings until the innermost one has its keys in a column. -/
def unwind? (column : Nat) (o : OpenMapping) :
    List OpenMapping → Option (OpenMapping × List OpenMapping)
  | [] => if o.column = column then some (o, []) else none
  | p :: outer =>
    if o.column = column then some (o, p :: outer)
    else if o.column < column then none
    else unwind? column { p with value := some o.close, tail := none } outer

/-- Closes all mappings. -/
def closeAll (o : OpenMapping) : List OpenMapping → Yaml
  | [] => o.close
  | p :: outer => closeAll { p with value := some o.close } outer

/-- A scalar in the column of a value: the value itself, or more of a plain scalar. -/
def fill? (o : OpenMapping) (l : BlockLine) (v : Yaml) : Option OpenMapping :=
  match o.value, o.tail, v with
  | none, _, _ =>
    some { o with value := some v, tail := if l.isOpen then some l.lastLine else none }
  | some (.scalar s true), some last, .scalar t true =>
    some { o with
      value := some (.scalar (s ++ String.ofList (fold (l.line - last - 1)) ++ t) true)
      tail := if l.isOpen then some l.lastLine else none }
  | _, _, _ => none

end OpenMapping

/-- What the lines so far leave open. -/
inductive Document where
  | empty
  | value (v : Yaml)
  | mapping (inner : OpenMapping) (outer : List OpenMapping)

namespace Document

/-- A line with a key. -/
def entry? (d : Document) (l : BlockLine) (key : String) (value : Option Yaml) : Option Document :=
  let tail := if value.isSome && l.isOpen then some l.lastLine else none
  match d with
  | .empty => some (.mapping ⟨l.column, [], key, value, tail⟩ [])
  | .value _ => none
  | .mapping o outer =>
    if o.value.isNone && o.column < l.column then
      some (.mapping ⟨l.column, [], key, value, tail⟩ (o :: outer))
    else (o.unwind? l.column outer).map fun (o, outer) => .mapping (o.next key value tail) outer

/-- The line that may stand before everything else. -/
def isMarker (l : BlockLine) (v : Yaml) : Bool := l.column = 0 && v.plain? = some "---"

/-- One line. -/
def step? (d : Document) (l : BlockLine) : Option Document :=
  match l.content with
  | .nothing =>
    match d with
    | .mapping o outer => some (.mapping { o with tail := none } outer)
    | d => some d
  | .entry key v => d.entry? l key v
  | .value v =>
    match d with
    | .empty => if isMarker l v then some .empty else some (.value v)
    | .value _ => none
    | .mapping o outer =>
      if o.column < l.column then (o.fill? l v).map fun o => .mapping o outer else none

/-- The value of a text that ends here; an empty text is null. -/
def finish : Document → Yaml
  | .empty => null
  | .value v => v
  | .mapping o outer => o.closeAll outer

end Document

/-- The value of a text. -/
def parse? (s : String) : Option Yaml := do
  let ts ← tokens? (Source.normalizeLineEndings s.toList)
  let ls ← (cutLines ts).mapM blockLine?
  let d ← ls.foldlM Document.step? .empty
  return d.finish

end StLint.Yaml
