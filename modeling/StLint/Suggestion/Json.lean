import StLint.Json.Reader
import StLint.Suggestion.Model

/-!
# Suggestions of a model in JSON

A suggestion is a record; its unit and its title must be there. Keys that are not its own are passed
over.

* `Model.decodeJson` — the reader of arrays of suggestions in JSON.
* `SuggestionProvider.model`, `SuggestionProvider.ofSettings` — providers with this reader.
-/

namespace StLint

namespace Model

/-- Reads a suggestion. -/
def Remark.ofJson? (v : Json) : Option Remark := do
  let r ← Json.record? ["unitName", "title", "description", "suggestion", "lineNumber",
    "confidence", "type", "severity"] v
  return {
    unitName := ← (r "unitName").required Json.string?
    title := ← (r "title").required Json.string?
    description := ← (r "description").orDefault "" Json.string?
    suggestion := ← (r "suggestion").orDefault "" Json.string?
    line := ← (r "lineNumber").orDefault none (Json.nullable? Json.nat?)
    confidence := ← (r "confidence").orDefault none (Json.nullable? Json.float?)
    type := ← (r "type").orDefault none (Json.nullable? Json.string?)
    severity := ← (r "severity").orDefault none (Json.nullable? Json.string?) }

/-- Reads an array of suggestions. -/
def decodeJson : RemarkDecoder :=
  fun text => (Json.parse? text).bind (Json.list? Remark.ofJson?)

end Model

namespace SuggestionProvider

/-- A model that replies in JSON as a provider. -/
def model (client : CompletionClient) : SuggestionProvider := Model.provider Model.decodeJson client

/-- The provider that settings name, where a model replies in JSON. -/
def ofSettings (s : SuggestionSettings) (client : Option CompletionClient) : SuggestionProvider :=
  named Model.decodeJson s client

end SuggestionProvider

end StLint
