import StLint.Issue.Json
import StLint.Suggestion.Rules

/-!
# Suggestions by a language model

A model is asked once about all units of a project. Its reply counts when it holds an array of
suggestions of which at least one is about a unit of the project; **in every other case the rules
answer**, so that this provider cannot fail. How an array is read is left open.

* `Model.question?` — what the model is asked; nothing about an empty project.
* `Model.RemarkDecoder` — a reader of arrays.
* `Model.ofReply?` — the suggestions of a reply.
-/

namespace StLint

/-- What is asked of a model: a text is completed or the call fails. -/
abbrev CompletionClient := String → Option String

namespace Model

/-! ## The question -/

/-- The characters of a unit's source that a model is shown. -/
def sourceLimit : Nat := 4000

/-- What a model is told to do. -/
def instruction : String :=
  "You review IEC 61131-3 Structured Text. Reply with only a JSON array of objects with keys " ++
  "unitName, title, description, suggestion, lineNumber, confidence, type, severity.\n"

/-- A unit as a model is shown it. -/
def describe (u : Pou) : String :=
  "\n### " ++ u.kind.keyword ++ " " ++ u.name ++ " (" ++ toString u.vars.length ++
    " variables, depends on: " ++
    (if u.dependencies.isEmpty then "nothing" else ", ".intercalate u.dependencies) ++ ")\n" ++
    String.ofList (u.source.toList.take sourceLimit) ++ "\n"

/-- What a model is asked about a project, unless there is nothing to ask about. -/
def question? (p : Project) : Option String :=
  if p.units.isEmpty then none else some (instruction ++ String.join (p.units.map describe))

/-! ## The reply -/

/-- A suggestion as a model writes it. -/
structure Remark where
  unitName : String
  title : String
  description : String
  suggestion : String
  line : Option Nat
  confidence : Option Float
  type : Option String
  severity : Option String
  deriving Repr

/-- A reader of an array of suggestions. It may refuse a text on whatever grounds. -/
abbrev RemarkDecoder := String → Option (List Remark)

/-- The confidence in a suggestion that states none. -/
def defaultConfidence : Float := 0.6

/-- A suggestion about a unit of the project. An unknown type or severity is that of an
    improvement. -/
def Remark.toIssue (r : Remark) (u : Pou) : Issue :=
  .inUnit u r.line ((r.type.bind IssueType.ofWord?).getD .potentialImprovement)
    ((r.severity.bind Severity.ofWord?).getD .info) r.title r.description r.suggestion
    (r.confidence.getD defaultConfidence)

/-- The text from the first opening to the last closing bracket. -/
def arrayText? (reply : List Char) : Option (List Char) :=
  let fromOpening := reply.dropWhile (· ≠ '[')
  let upToClosing := (fromOpening.reverse.dropWhile (· ≠ ']')).reverse
  if fromOpening.isEmpty || upToClosing.isEmpty then none else some upToClosing

/-- The suggestions that a reply spells. -/
def remarks? (decode : RemarkDecoder) (reply : String) : Option (List Remark) :=
  (arrayText? reply.toList).bind fun text => decode (String.ofList text)

/-- The suggestions of a reply about the units of a project; none at all are fine, but not when
    all of them are about something else. -/
def ofReply? (decode : RemarkDecoder) (p : Project) (reply : String) : Option (List Issue) := do
  let rs ← remarks? decode reply
  let issues := rs.filterMap fun r => (p.unit? r.unitName).map r.toIssue
  if !rs.isEmpty && issues.isEmpty then none else some issues

/-- The suggestions of a model about a project. -/
def suggestions (decode : RemarkDecoder) (client : CompletionClient) (p : Project) : List Issue :=
  match question? p with
  | none => []
  | some q => ((client q).bind (ofReply? decode p)).getD (Rules.suggestions p)

/-- A model as a provider. -/
def provider (decode : RemarkDecoder) (client : CompletionClient) : SuggestionProvider :=
  ⟨"model", fun p => .ok (suggestions decode client p)⟩

end Model

/-- The provider that settings name; without a client a model is not asked. -/
def SuggestionProvider.named (decode : Model.RemarkDecoder) (s : SuggestionSettings)
    (client : Option CompletionClient) : SuggestionProvider :=
  match s.provider, client with
  | .model, some c => Model.provider decode c
  | _, _ => rules

end StLint
