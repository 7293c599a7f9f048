import StLint.Check.Loops
import StLint.Proofs.Statement.Row

/-!
# Counting loops

The header of a counting loop is read twice: by the reader of bodies, which keeps its bounds as one
text, and by the check of loops, which takes that text apart again. On bounds without white space
**both readers cut at the same places**, for a keyword is only read behind white space and a part
without it is read to its end. So a bound may even be one of the words `TO`, `BY` and `DO`.

* `IsToken.isPart` — a text without white space is read to its end.
* `Bounds.readThen_text` — the bounds are read back, whatever ends them.
* `Bounds.read?_text` — from the text that the node keeps.
* `ForHeader.read?_text` — from the header.
* `readStatement_countingLoop` — the node of the loop, its bounds and its first statement.
-/

namespace StLint.Statement

open Text Text.Pattern
open Expression (Place)

/-! ## Tokens -/

/-- A text without white space, such as a name, a number or `INT#-5`. -/
structure IsToken (x : List Char) : Prop where
  ne_nil : x ≠ []
  not_blank : ∀ c ∈ x, isBlank c = false

theorem isToken_of_all {x : List Char} (h : (!x.isEmpty && x.all (!isBlank ·)) = true) :
    IsToken x := by
  rw [Bool.and_eq_true, Bool.not_eq_true', List.isEmpty_eq_false_iff, List.all_eq_true] at h
  refine ⟨h.1, ?_⟩
  intro c hc
  rw [← Bool.not_eq_true']
  exact h.2 c hc

/-- The bounds are tokens. -/
structure Bounds.AreTokens (b : Bounds) : Prop where
  first : IsToken b.first
  last : IsToken b.last
  step : ∀ s ∈ b.step, IsToken s

section Parts

variable {α : Type} {next : List Char → Option α} {x : List Char}

/-- What follows the bounds can only be read at white space or at the end. -/
def RejectsSolid (next : List Char → Option α) : Prop :=
  ∀ c r, isBlank c = false → next (c :: r) = none

theorem blanks_one_rejectsSolid (next : List Char → Option α) : RejectsSolid (blanks 1 next) :=
  fun _ _ hc => blanks_of_startsSolid hc

theorem not_allBlank_cons {c : Char} (hc : isBlank c = false) (r : List Char) :
    ¬ allBlank (c :: r) = true := by
  intro h
  rw [allBlank_iff.mp h c (List.mem_cons_self ..)] at hc
  exact nomatch hc

theorem atEnd_rejectsSolid : RejectsSolid Bounds.atEnd := fun _ r hc => if_neg (not_allBlank_cons hc r)

theorem loopBody?_rejectsSolid : RejectsSolid loopBody? := by
  intro c r hc
  rw [loopBody?, blanks_one_rejectsSolid _ c r hc, if_neg (not_allBlank_cons hc r)]
  rfl

/-- **A token is read to its end**, for no part of it ends before white space. -/
theorem IsToken.isPart (hx : IsToken x) (hnext : RejectsSolid next) : IsPart next x := by
  have hnewline : '\n' ∉ x := by
    intro h
    exact absurd (hx.not_blank '\n' h) (by decide)
  -- what is left of the token begins with one of its characters
  have hrest : ∀ {β : Type} {f : List Char → Option β} {u v : List Char}, RejectsSolid f →
      x = u ++ v → v ≠ [] → ∀ r, f (v ++ r) = none := by
    intro β f u v hf huv hv r
    obtain ⟨c, v, rfl⟩ := List.exists_cons_of_ne_nil hv
    have hc : c ∈ x := by
      rw [huv]
      exact List.mem_append_right u (List.mem_cons_self ..)
    exact hf c (v ++ r) (hx.not_blank c hc)
  refine ⟨trim_eq_self hx.not_blank, hx.ne_nil, hnewline, ?_, ?_, ?_⟩
  · intro β f u v r _ huv hv _
    exact hrest (blanks_one_rejectsSolid _) huv hv r
  · intro β f u v r _ huv hv _
    exact hrest (blanks_one_rejectsSolid _) huv hv r
  · intro u v r huv hv _
    exact hrest hnext huv hv r

end Parts

/-! ## The bounds -/

theorem isGap_space : IsGap [' '] := ⟨blank_space, List.cons_ne_nil ' ' []⟩

section Bounds

variable {α : Type} {next : List Char → Option α} {b : Bounds} {w r : List Char} {a : α}

/-- **Bounds are read back from their text**, whatever ends them. -/
theorem Bounds.readThen_text (hb : b.AreTokens) (hnext : RejectsSolid next)
    (hw : ∀ c ∈ w, isBlank c = true) (hr : EndsPart r)
    (hby : ∀ first last, readStepThen next first last r = none) (hend : next r = some a) :
    Bounds.readThen next (w ++ (b.text ++ r)) = some (b, a) := by
  obtain ⟨first, last, step⟩ := b
  have hfirst := hb.first.isPart hnext
  have hlast := hb.last.isPart hnext
  have hto : " TO ".toList = [' '] ++ ("TO".toList ++ [' ']) := rfl
  cases step with
  | none =>
      have hread : Bounds.readLast next first (last ++ r) = some (⟨trim first, last, none⟩, a) :=
        readLast_end hlast hr (hby _ _) hend
      have h := readThen_append hfirst hw isGap_space isGap_space (hlast.startsSolid r) hread
      rw [hfirst.trim_eq] at h
      simpa only [Bounds.text, hto, List.append_assoc, List.append_nil, List.nil_append] using h
  | some step =>
      have hstep := (hb.step step rfl).isPart hnext
      have hby : " BY ".toList = [' '] ++ ("BY".toList ++ [' ']) := rfl
      have hread : Bounds.readLast next first
          (last ++ ([' '] ++ ("BY".toList ++ ([' '] ++ (step ++ r)))))
            = some (⟨trim first, last, some step⟩, a) :=
        readLast_by hlast hstep isGap_space isGap_space hr hend
      have h := readThen_append hfirst hw isGap_space isGap_space (hlast.startsSolid _) hread
      rw [hfirst.trim_eq] at h
      simpa only [Bounds.text, hto, hby, List.append_assoc] using h

/-- The text of bounds spells them. -/
theorem Bounds.read?_text (hb : b.AreTokens) : Bounds.read? b.text = some b := by
  have h : Bounds.readThen Bounds.atEnd ([] ++ (b.text ++ [])) = some (b, ()) :=
    Bounds.readThen_text hb atEnd_rejectsSolid (fun _ hc => absurd hc List.not_mem_nil)
      (Or.inl rfl) (fun _ _ => rfl) rfl
  rw [List.nil_append, List.append_nil] at h
  rw [Bounds.read?, h]
  rfl

end Bounds

/-- The header behind `FOR`, with the statement behind its `DO`. -/
theorem ForHeader.read?_text {v r : List Char} {b : Bounds} (hv : IsLoopVariable v)
    (hb : b.AreTokens) :
    ForHeader.read? (' ' :: (v ++ (" :=".toList ++ (' ' :: (b.text ++ (" DO ".toList ++ r))))))
      = some ⟨v, b, trim r⟩ := by
  have hbody : loopBody? ([' '] ++ ("DO".toList ++ (' ' :: r))) = some (' ' :: r) :=
    loopBody?_do isGap_space rfl
  have hbounds := Bounds.readThen_text hb loopBody?_rejectsSolid blank_space
    (isGap_space.endsPart _) (fun _ _ => readStepThen_do isGap_space) hbody
  have htrim : trim (' ' :: r) = trim r := trim_blank_append blank_space r
  have h := ForHeader.read?_append hv hbounds
  rw [htrim] at h
  exact h

/-! ## The statement -/

/-- A counting loop on one segment with a statement behind its header. -/
def countingLoop (v : List Char) (b : Bounds) (r : List Char) : List Char :=
  "FOR ".toList ++ (v ++ (" := ".toList ++ (b.text ++ (" DO ".toList ++ r))))

variable {later : List Segment} {line : Nat} {stack : BlockStack}

/-- White space around a statement is not read. -/
theorem readStatement_trim (s : List Char) :
    readStatement later line stack (trim s) = readStatement later line stack s := by
  have htext : statementText stack (trim s) = statementText stack s := by
    simp only [statementText, trim_trim]
  rw [readStatement, readStatement, htext]

theorem statementText_countingLoop {v r : List Char} {b : Bounds} (hv : IsLoopVariable v)
    (hr : trim r ≠ []) :
    statementText stack (countingLoop v b r) = countingLoop v b (trimEnd r) := by
  have htrim : trim (countingLoop v b r) = countingLoop v b (trimEnd r) := by
    have hstart : StartsSolid (countingLoop v b r) := rfl
    have hsolid : trimEnd r ≠ [] := fun h => hr (trim_eq_nil_iff.mpr (trimEnd_eq_nil_iff.mp h))
    have hend := trimEnd_append_of_ne_nil
      ("FOR ".toList ++ (v ++ (" := ".toList ++ (b.text ++ " DO ".toList)))) hsolid
    simp only [List.append_assoc] at hend
    rw [trim, trimStart_of_startsSolid hstart]
    exact hend
  exact statementText_of_no_label htrim (dropBranchLabel?_loop hv _)

/-- The node of a counting loop. -/
def loopNode (p : Place) (v : List Char) (b : Bounds) : Node :=
  ⟨.forLoop, some (String.ofList v), some (String.ofList b.text), [Expression.parse p v], p.line, p.scope⟩

theorem openBlock_countingLoop {v : List Char} {b : Bounds} (hv : IsLoopVariable v)
    (hb : b.AreTokens) (p : Place) (r : List Char) :
    openBlock later p .forBlock (countingLoop v b r) = (loopNode p v b, trim r) := by
  have hword : leadingWord (countingLoop v b r) = "FOR".toList := rfl
  show forNode p (afterWord (countingLoop v b r)) _ = _
  rw [hword]
  show forNode p _ (' ' :: (v ++ (" :=".toList ++ (' ' :: (b.text ++ (" DO ".toList ++ r)))))) = _
  rw [forNode, ForHeader.read?_text hv hb]
  rfl

/-- **A counting loop** emits one node with its variable and its bounds, the statement behind its
    header is the first one of the loop, and the check of loops reads the bounds that were written. -/
theorem readStatement_countingLoop {v r : List Char} {b : Bounds} (hv : IsLoopVariable v)
    (hb : b.AreTokens) (hr : trim r ≠ []) :
    ∃ n : Node, n.kind = .forLoop ∧ n.name = some (String.ofList v) ∧
      n.value = some (String.ofList b.text) ∧ n.line = line ∧ n.scope = stack.path ∧
      readStatement later line stack (countingLoop v b r)
        = (.node n ++ (readStatement later line (stack.push .forBlock line) r).1,
          (readStatement later line (stack.push .forBlock line) r).2) ∧
      n.value.bind (fun s => Bounds.read? s.toList) = some b ∧
      n.value.bind Check.NumericBounds.read? = Check.NumericBounds.ofBounds? b := by
  have htext := @statementText_countingLoop stack v r b hv hr
  have hlead : Lead.ofWord (leadingWord (statementText stack (countingLoop v b r)))
      = .opens .forBlock := by
    have hword : leadingWord (countingLoop v b (trimEnd r)) = "FOR".toList := rfl
    rw [htext, hword]
    decide
  have hbounds : Bounds.read? (String.ofList b.text).toList = some b := by
    rw [String.toList_ofList]
    exact Bounds.read?_text hb
  refine ⟨loopNode ⟨line, stack.path⟩ v b, rfl, rfl, rfl, rfl, rfl, ?_, ?_, ?_⟩
  · rw [readStatement_opens hlead, htext, openBlock_countingLoop hv hb, trim_trimEnd,
      readStatement_trim]
  · exact hbounds
  · show (Bounds.read? (String.ofList b.text).toList).bind Check.NumericBounds.ofBounds? = _
    rw [hbounds]
    rfl

/-- Bounds that are spelled like the keywords between them. -/
theorem readStatement_countingLoop_keywordBounds :
    ∃ n : Node, n.kind = .forLoop ∧ n.name = some "v.x" ∧ n.value = some "TO TO BY BY DO" ∧
      n.value.bind (fun s => Bounds.read? s.toList)
        = some ⟨"TO".toList, "BY".toList, some "DO".toList⟩ ∧
      readStatement [] 1 (.start "Main") "FOR v.x := TO TO BY BY DO DO i := 1".toList
        = (.node n ++ (readStatement [] 1 (BlockStack.push (.start "Main") .forBlock 1)
            "i := 1".toList).1,
          (readStatement [] 1 (BlockStack.push (.start "Main") .forBlock 1) "i := 1".toList).2) := by
  have hv : IsLoopVariable "v.x".toList := by
    have hall : (".x".toList.all fun d => isWordChar d || d = '.') = true := by decide
    refine isLoopVariable_cons (c := 'v') (t := ".x".toList) (by decide) ?_
    simpa using hall
  have hb : Bounds.AreTokens ⟨"TO".toList, "BY".toList, some "DO".toList⟩ := by
    refine ⟨isToken_of_all (by decide), isToken_of_all (by decide), ?_⟩
    rintro s hs
    obtain rfl := Option.some.inj hs
    exact isToken_of_all (by decide)
  obtain ⟨n, hkind, hname, hvalue, -, -, hread, hbounds, -⟩ :=
    @readStatement_countingLoop [] 1 (.start "Main") _ "i := 1".toList _ hv hb (by decide)
  exact ⟨n, hkind, hname, hvalue, hbounds, hread⟩

end StLint.Statement
