import Mathlib.Data.List.Forall2
import StLint.Proofs.Graph.Unit
import StLint.Proofs.Number.Order
import StLint.Proofs.Text.Word
import StLint.Suggestion.Json

/-!
# Replies of a language model

What a model replies is any text, and the call may fail. Still **a project with units has one of two
answers**, however arrays of remarks are read: the remarks of the reply about its units, or else what the
rules suggest. No suggestion is about a unit that the project does not have, and none has a confidence
outside the range.

* `IsArrayText` — the text from the first opening to the last closing bracket; `arrayText?_eq_some_iff`.
* `Spells` — the remarks that a reply spells to a reader of arrays.
* `Issue.clampConfidence_bounds` — any number as a confidence.
* `Conveys` — a suggestion that says what a remark does, about a unit of the project.
* `suggest_exact` — the suggestions, for every answer of a model.
-/

namespace StLint

open Text

/-- **Any number as a confidence** is from zero to one. -/
theorem Issue.clampConfidence_bounds (x : Float) :
    0.0 ≤ clampConfidence x ∧ clampConfidence x ≤ 1.0 := by
  rw [clampConfidence]
  by_cases hnan : x.isNaN = true
  · rw [if_pos hnan]
    decide
  rw [if_neg hnan]
  rw [Bool.not_eq_true] at hnan
  by_cases hlow : x < 0.0
  · rw [if_pos hlow]
    decide
  rw [if_neg hlow]
  by_cases hhigh : x > 1.0
  · rw [if_pos hhigh]
    decide
  rw [if_neg hhigh]
  exact ⟨Number.le_of_not_lt hnan (by decide) hlow, Number.le_of_not_lt (by decide) hnan hhigh⟩

namespace Model

/-! ## The array in a reply -/

/-- The text from the first opening bracket of a reply to its last closing bracket. -/
def IsArrayText (reply span : List Char) : Prop :=
  ∃ before inside behind, reply = before ++ (span ++ behind) ∧ span = '[' :: (inside ++ [']']) ∧
    '[' ∉ before ∧ ']' ∉ behind

/-- What precedes the last place of a character, with it. -/
theorem dropWhile_reverse_append {c : Char} {s : List Char} (h : c ∉ s) (r : List Char) :
    ((r ++ c :: s).reverse.dropWhile (· ≠ c)).reverse = r ++ [c] := by
  have hmem : c ∉ s.reverse := fun hc => h (List.mem_reverse.mp hc)
  rw [List.reverse_append, List.reverse_cons, List.append_assoc, List.singleton_append,
    dropWhile_ne_append hmem, List.reverse_cons, List.reverse_reverse]

/-- A character that occurs has a last place. -/
theorem exists_last_of_mem {c : Char} {s : List Char} (h : c ∈ s) :
    ∃ r t, s = r ++ c :: t ∧ c ∉ t := by
  obtain ⟨t, r, hreverse, hmem⟩ := List.eq_append_cons_of_mem (List.mem_reverse.mpr h)
  refine ⟨r.reverse, t.reverse, ?_, fun hc => hmem (List.mem_reverse.mp hc)⟩
  rw [← List.reverse_reverse s, hreverse]
  simp

/-- **The text of the array is found.** -/
theorem arrayText?_append {before inside behind : List Char} (hbefore : '[' ∉ before)
    (hbehind : ']' ∉ behind) :
    arrayText? (before ++ '[' :: (inside ++ ']' :: behind)) = some ('[' :: (inside ++ [']'])) := by
  have hclosing := dropWhile_reverse_append hbehind ('[' :: inside)
  rw [List.cons_append] at hclosing
  rw [arrayText?]
  simp only [dropWhile_ne_append hbefore, hclosing]
  rfl

/-- Nothing else is. -/
theorem arrayText?_eq_some_iff {reply span : List Char} :
    arrayText? reply = some span ↔ IsArrayText reply span := by
  constructor
  · intro h
    by_cases hopening : '[' ∈ reply
    · obtain ⟨before, rest, rfl, hbefore⟩ := List.eq_append_cons_of_mem hopening
      by_cases hclosing : ']' ∈ rest
      · obtain ⟨inside, behind, rfl, hbehind⟩ := exists_last_of_mem hclosing
        rw [arrayText?_append hbefore hbehind] at h
        obtain rfl := Option.some.inj h
        exact ⟨before, inside, behind, by simp, rfl, hbefore, hbehind⟩
      · have hmem : ']' ∉ ('[' :: rest).reverse := by simpa using hclosing
        rw [arrayText?] at h
        simp only [dropWhile_ne_append hbefore, dropWhile_ne_of_not_mem hmem] at h
        exact nomatch h
    · rw [arrayText?] at h
      simp only [dropWhile_ne_of_not_mem hopening] at h
      exact nomatch h
  · rintro ⟨before, inside, behind, rfl, rfl, hbefore, hbehind⟩
    rw [List.cons_append, List.append_assoc]
    exact arrayText?_append hbefore hbehind

/-! ## The remarks in a reply -/

/-- A reply spells some remarks: its array is read as them. -/
def Spells (decode : RemarkDecoder) (reply : String) (rs : List Remark) : Prop :=
  ∃ span, IsArrayText reply.toList span ∧ decode (String.ofList span) = some rs

theorem remarks?_eq_some_iff {decode : RemarkDecoder} {reply : String} {rs : List Remark} :
    remarks? decode reply = some rs ↔ Spells decode reply rs := by
  simp only [remarks?, Option.bind_eq_some_iff, arrayText?_eq_some_iff, Spells]

/-! ## Suggestions -/

/-- A remark is about a unit of a project, which may spell its name in another case. -/
def Remark.isAbout (p : Project) (r : Remark) : Bool :=
  p.units.any fun u => eqIgnoreCase u.name.toList r.unitName.toList

/-- A suggestion says what a remark does. It is about a unit of the project and spells its name as the
    project does. -/
structure Conveys (p : Project) (r : Remark) (i : Issue) : Prop where
  unit : ∃ u ∈ p.units, SameName u.name r.unitName ∧ i.unitNames = [u.name]
  title : i.title = r.title
  description : i.description = r.description
  suggestion : i.suggestion = r.suggestion
  line : i.line = r.line
  confidence : 0.0 ≤ i.confidence ∧ i.confidence ≤ 1.0

section Suggestions

variable {decode : RemarkDecoder} {p : Project} {r : Remark} {rs : List Remark} {reply : String}

theorem conveys_toIssue {u : Pou} (hu : p.unit? r.unitName = some u) : Conveys p r (r.toIssue u) where
  unit := ⟨u, mem_of_unitNamed? hu, sameName_of_unitNamed? hu, rfl⟩
  title := rfl
  description := rfl
  suggestion := rfl
  line := rfl
  confidence := Issue.clampConfidence_bounds _

/-- A remark about no unit of the project is passed over. -/
theorem isAbout_eq_isSome (p : Project) (r : Remark) : r.isAbout p = (p.unit? r.unitName).isSome :=
  List.isSome_find?.symm

/-- **Each remark about a unit becomes a suggestion**, in the order of the reply. -/
theorem forall₂_conveys (p : Project) (rs : List Remark) :
    List.Forall₂ (Conveys p) (rs.filter fun r => r.isAbout p)
      (rs.filterMap fun r => (p.unit? r.unitName).map r.toIssue) := by
  induction rs with
  | nil => exact .nil
  | cons r rs ih =>
      cases hu : p.unit? r.unitName with
      | none =>
          have habout : ¬ r.isAbout p = true := by
            rw [isAbout_eq_isSome, hu]
            exact Bool.false_ne_true
          rw [List.filter_cons_of_neg habout, List.filterMap_cons_none (by rw [hu]; rfl)]
          exact ih
      | some u =>
          have habout : r.isAbout p = true := by
            rw [isAbout_eq_isSome, hu]
            rfl
          rw [List.filter_cons_of_pos habout, List.filterMap_cons_some (by rw [hu]; rfl)]
          exact .cons (conveys_toIssue hu) ih

/-- A reply is taken if some remark is about a unit of the project, or if there are no remarks at all. -/
theorem ofReply?_of_remarks (hrs : remarks? decode reply = some rs) :
    ofReply? decode p reply = if rs ≠ [] ∧ ∀ r ∈ rs, r.isAbout p = false then none
      else some (rs.filterMap fun r => (p.unit? r.unitName).map r.toIssue) := by
  have hnil : (rs.filterMap fun r => (p.unit? r.unitName).map r.toIssue) = [] ↔
      ∀ r ∈ rs, r.isAbout p = false := by
    simp [isAbout_eq_isSome]
  have hnone : (!rs.isEmpty && (rs.filterMap fun r => (p.unit? r.unitName).map r.toIssue).isEmpty) = true ↔
      rs ≠ [] ∧ ∀ r ∈ rs, r.isAbout p = false := by
    rw [Bool.and_eq_true, List.isEmpty_iff, hnil]
    simp
  simp only [ofReply?, hrs, Option.bind_eq_bind, Option.bind_some, hnone]

theorem ofReply?_of_not_spells (h : ∀ rs, ¬ Spells decode reply rs) : ofReply? decode p reply = none := by
  have hrs : remarks? decode reply = none := by
    cases hrs : remarks? decode reply with
    | none => rfl
    | some rs => exact absurd (remarks?_eq_some_iff.mp hrs) (h rs)
  simp only [ofReply?, hrs, Option.bind_eq_bind, Option.bind_none]

/-- **A model that is asked about units answers, whatever it replies** and however arrays are read. The rules
    answer in its place if the call fails, if the reply does not spell a list of remarks, and if there are
    remarks and none is about a unit of the project. Else there is a suggestion for each remark about a unit,
    in the order of the remarks. -/
theorem suggest_exact (decode : RemarkDecoder) (client : CompletionClient) (p : Project)
    (hunits : p.units ≠ []) :
    ∃ q issues, question? p = some q ∧ (provider decode client).suggest p = .ok issues ∧
      (client q = none → SuggestionProvider.rules.suggest p = .ok issues) ∧
      ∀ reply, client q = some reply →
        ((∀ rs, ¬ Spells decode reply rs) → SuggestionProvider.rules.suggest p = .ok issues) ∧
        ∀ rs, Spells decode reply rs →
          ((rs ≠ [] ∧ ∀ r ∈ rs, r.isAbout p = false) →
            SuggestionProvider.rules.suggest p = .ok issues) ∧
          ((rs = [] ∨ ∃ r ∈ rs, r.isAbout p = true) →
            List.Forall₂ (Conveys p) (rs.filter fun r => r.isAbout p) issues) := by
  obtain ⟨q, hq⟩ : ∃ q, question? p = some q := by
    rw [question?, List.isEmpty_eq_false_iff.mpr hunits]
    exact ⟨_, rfl⟩
  have hissues : suggestions decode client p
      = ((client q).bind (ofReply? decode p)).getD (Rules.suggestions p) := by
    rw [suggestions, hq]
  refine ⟨q, suggestions decode client p, hq, rfl, fun h => ?_, fun reply h => ⟨fun hnot => ?_, ?_⟩⟩
  · rw [hissues, h]
    rfl
  · rw [hissues, h, Option.bind_some, ofReply?_of_not_spells hnot]
    rfl
  · intro rs hspells
    have hreply := ofReply?_of_remarks (p := p) (remarks?_eq_some_iff.mpr hspells)
    rw [hissues, h, Option.bind_some, hreply]
    constructor
    · intro hnone
      rw [if_pos hnone]
      rfl
    · intro hsome
      rw [if_neg]
      · exact forall₂_conveys p rs
      · rintro ⟨hne, hnone⟩
        obtain ⟨r, hr, habout⟩ := hsome.resolve_left hne
        exact Bool.noConfusion (habout.symm.trans (hnone r hr))

/-- A project with a pump. -/
def pumpUnits : Project := .of [{ (default : Pou) with name := "Pump" }] none default

/-- A reply with a remark about the pump, far too confident and with a key of its own that holds no text, and
    one about another unit. -/
def mixedReply : String :=
  "Sure: [\x7b\"unitName\":\"PUMP\",\"title\":\"Use enums\",\"confidence\":1.7,\"note\":\"\\ud800\"\x7d," ++
    "\x7b\"unitName\":\"Ghost\",\"title\":\"t\"\x7d] (1 of 2)"

/-- In JSON, the remark about the pump is suggested, under the name that the project has for it; without a
    reply the rules suggest something else. -/
theorem suggest_exact_mixedReply :
    pumpUnits.units ≠ [] ∧
      (∃ rs issues, Spells decodeJson mixedReply rs ∧ rs.map Remark.unitName = ["PUMP", "Ghost"] ∧
        (provider decodeJson fun _ => some mixedReply).suggest pumpUnits = .ok issues ∧
        List.Forall₂ (Conveys pumpUnits) (rs.filter fun r => r.isAbout pumpUnits) issues ∧
        issues.map Issue.unitNames = [["Pump"]]) ∧
      ∃ issues, (provider decodeJson fun _ => none).suggest pumpUnits = .ok issues ∧
        SuggestionProvider.rules.suggest pumpUnits = .ok issues := by
  have hunits : pumpUnits.units ≠ [] := List.cons_ne_nil _ _
  obtain ⟨rs, hrs, hnames, habout⟩ : ∃ rs, remarks? decodeJson mixedReply = some rs ∧
      rs.map Remark.unitName = ["PUMP", "Ghost"] ∧
        (rs.filter fun r => r.isAbout pumpUnits).map Remark.unitName = ["PUMP"] := by
    have hall : ((remarks? decodeJson mixedReply).map fun rs => (rs.map Remark.unitName,
        (rs.filter fun r => r.isAbout pumpUnits).map Remark.unitName))
          = some (["PUMP", "Ghost"], ["PUMP"]) := by decide +kernel
    obtain ⟨rs, hrs, hboth⟩ := Option.map_eq_some_iff.mp hall
    obtain ⟨hnames, habout⟩ := Prod.mk.inj hboth
    exact ⟨rs, hrs, hnames, habout⟩
  have hspells := remarks?_eq_some_iff.mp hrs
  have hsome : ∃ r ∈ rs, r.isAbout pumpUnits = true := by
    have hne : (rs.filter fun r => r.isAbout pumpUnits) ≠ [] := by
      intro hnil
      rw [hnil] at habout
      cases habout
    obtain ⟨r, hr⟩ := List.exists_mem_of_ne_nil _ hne
    exact ⟨r, List.mem_filter.mp hr⟩
  refine ⟨hunits, ?_, ?_⟩
  · obtain ⟨q, issues, -, hissues, -, hreply⟩ :=
      suggest_exact decodeJson (fun _ => some mixedReply) pumpUnits hunits
    have hconveys := ((hreply mixedReply rfl).2 rs hspells).2 (Or.inr hsome)
    have hunit : (suggestions decodeJson (fun _ => some mixedReply) pumpUnits).map Issue.unitNames
        = [["Pump"]] := by
      decide +kernel
    obtain rfl := Except.ok.inj hissues
    exact ⟨rs, _, hspells, hnames, hissues, hconveys, hunit⟩
  · obtain ⟨q, issues, -, hissues, hrules, -⟩ := suggest_exact decodeJson (fun _ => none) pumpUnits hunits
    exact ⟨issues, hissues, hrules rfl⟩

end Suggestions

end Model

end StLint
