import StLint.Proofs.Source.Declaration
import StLint.Proofs.Source.Literal
import StLint.Proofs.Text.Word

/-!
# Declarations and quotes

A declaration is looked for in the characters of a line, whether they stand in a string or not. But
no part of it holds a quote, so **it never runs across one**: the declaration of a line with a string
literal is the first one of those that stand before the literal, in it, and behind it.

* `spelled?` — the kind and the name of the first declaration in a text.
* `spelled?_append_quote` — a quote parts the declarations of a line.
* `startsWithKeyword_append_quote` — only what stands before a quote leads the line.
* `spelled?_literal` — which declaration a line with a literal makes.
-/

namespace StLint.Source

open Text

/-! ## Quotes are no part of a declaration -/

section Quote

variable {q : Char}

theorem not_blank_of_quote (hq : isQuote q = true) : isBlank q = false := by
  rcases isQuote_iff.mp hq with rfl | rfl <;> decide

theorem not_continuesName_of_quote (hq : isQuote q = true) : continuesName q = false := by
  rcases isQuote_iff.mp hq with rfl | rfl <;> decide

theorem not_wordChar_of_quote (hq : isQuote q = true) : isWordChar q = false := by
  rcases isQuote_iff.mp hq with rfl | rfl <;> decide

/-- A word may start behind a quote. -/
theorem wordMayStart_of_quote (hq : isQuote q = true) : wordMayStart (some q) = true := by
  rcases isQuote_iff.mp hq with rfl | rfl <;> decide +kernel

theorem fold_quote_not_mem (hq : isQuote q = true) {keyword : String} (hk : keyword ∈ unitKeywords) :
    fold q ∉ keyword.toList := by
  have hall : ['\'', '"'].all
      (fun q => unitKeywords.all fun k => !k.toList.contains (fold q)) = true := by
    decide
  have hmem : q ∈ ['\'', '"'] := by
    rcases isQuote_iff.mp hq with rfl | rfl <;> decide
  have hkeyword := List.all_eq_true.mp (List.all_eq_true.mp hall q hmem) keyword hk
  rw [Bool.not_eq_true'] at hkeyword
  intro h
  rw [List.contains_iff_mem.mpr h] at hkeyword
  exact nomatch hkeyword

theorem trimStart_append_quote (hq : isQuote q = true) (s z : List Char) :
    trimStart (s ++ q :: z) = trimStart s ++ q :: z := by
  by_cases hs : trimStart s = []
  · rw [trimStart_append_of_blank (trimStart_eq_nil_iff.mp hs), hs,
      trimStart_of_not_blank (not_blank_of_quote hq)]
    rfl
  · exact trimStart_append_of_ne_nil hs _

/-- The name after white space ends before a quote. -/
private theorem blanks_name_append_quote (hq : isQuote q = true) (s z : List Char) :
    (dropBlanks? (s ++ q :: z)).bind takeName?
      = ((dropBlanks? s).bind takeName?).map fun (name, rest) => (name, rest ++ q :: z) := by
  cases s with
  | nil =>
      rw [List.nil_append, dropBlanks?, not_blank_of_quote hq]
      rfl
  | cons c r =>
      rw [List.cons_append, dropBlanks?, dropBlanks?]
      by_cases hc : isBlank c = true
      · rw [if_pos hc, if_pos hc, trimStart_append_quote hq]
        refine takeName?_append _ ?_
        rintro d hd
        rw [← Option.some.inj hd]
        exact not_continuesName_of_quote hq
      · rw [if_neg hc, if_neg hc]
        rfl

/-! ## The first declaration of a text -/

/-- The keyword and the name of a declaration. -/
def heading (d : List Char × List Char × Option (List Char)) : List Char × List Char := (d.1, d.2.1)

/-- A declaration at the start of a text is over before a quote, up to the type behind its name. -/
private theorem heading_declarationAt?_append_quote (hq : isQuote q = true) (s z : List Char) :
    (declarationAt? (s ++ q :: z)).map heading = (declarationAt? s).map heading := by
  rw [declarationAt?_eq, declarationAt?_eq, List.map_findSome?, List.map_findSome?]
  refine findSome?_congr ?_
  intro keyword hk
  have hdrop : dropKeyword? keyword.toList (s ++ q :: z)
      = (dropKeyword? keyword.toList s).map (· ++ q :: z) := by
    refine dropKeyword?_append ?_
    intro d hd
    rw [← Option.some.inj hd]
    exact fold_quote_not_mem hq hk
  show (declarationBy? keyword (s ++ q :: z)).map heading = (declarationBy? keyword s).map heading
  rw [declarationBy?, declarationBy?, hdrop]
  cases hrest : dropKeyword? keyword.toList s with
  | none => rfl
  | some rest =>
      have hlen : keyword.length ≤ s.length := by
        rw [← String.length_toList]
        exact length_le_of_dropKeyword? hrest
      show Option.map heading (Option.map _ ((dropBlanks? (rest ++ q :: z)).bind takeName?))
        = Option.map heading (Option.map _ ((dropBlanks? rest).bind takeName?))
      rw [blanks_name_append_quote hq, Option.map_map, Option.map_map, Option.map_map,
        List.take_append_of_le_length hlen]
      rfl

/-- The search asks of the character before a text only whether a word may start behind it. -/
private theorem declarationFrom?_congr {p p' : Option Char} (h : wordMayStart p = wordMayStart p')
    (s : List Char) : declarationFrom? p s = declarationFrom? p' s := by
  cases s with
  | nil => rfl
  | cons c r => rw [declarationFrom?, declarationFrom?, h]

private theorem declarationFrom?_cons (p : Option Char) (c : Char) (r : List Char) :
    declarationFrom? p (c :: r)
      = (if wordMayStart p then declarationAt? (c :: r) else none).or
          (declarationFrom? (some c) r) := by
  rw [declarationFrom?]
  cases (if wordMayStart p then declarationAt? (c :: r) else none) <;> rfl

/-- **A quote parts the declarations of a text**, by induction on what stands before it. -/
private theorem heading_declarationFrom?_append_quote (hq : isQuote q = true) (p : Option Char)
    (x z : List Char) :
    (declarationFrom? p (x ++ q :: z)).map heading
      = ((declarationFrom? p x).map heading).or ((declarationFrom? none z).map heading) := by
  induction x generalizing p with
  | nil =>
      have hat : declarationAt? (q :: z) = none := by
        have h := heading_declarationAt?_append_quote hq [] z
        exact Option.map_eq_none_iff.mp h
      have hfresh : wordMayStart (some q) = wordMayStart none := wordMayStart_of_quote hq
      rw [List.nil_append, declarationFrom?_cons, hat, ite_self, Option.none_or,
        declarationFrom?_congr hfresh]
      rfl
  | cons c x ih =>
      have hat := heading_declarationAt?_append_quote hq (c :: x) z
      rw [List.cons_append] at hat
      rw [List.cons_append, declarationFrom?_cons, declarationFrom?_cons, Option.map_or, Option.map_or,
        ih, Option.or_assoc]
      by_cases hp : wordMayStart p = true
      · rw [if_pos hp, if_pos hp, hat]
      · rw [if_neg hp, if_neg hp]

end Quote

/-- The kind and the name of the first declaration in a text. A keyword with a character outside
    ASCII has no kind. -/
def spelled? (s : List Char) : Option (Option UnitKind × List Char) :=
  ((declarationFrom? none s).map heading).map fun d => (UnitKind.ofKeyword? d.1, d.2)

/-- The declaration of a line is the first one that it spells. -/
theorem map_ofLine?_eq_spelled? (line : List Char) :
    (Declaration.ofLine? line).map (fun d => (d.kind, d.name))
      = (spelled? line).bind fun d => d.1.map fun kind => (kind, d.2) := by
  rw [Declaration.ofLine?, spelled?]
  cases declarationFrom? none line with
  | none => rfl
  | some d =>
      show ((UnitKind.ofKeyword? d.1).map _).map _ = (UnitKind.ofKeyword? d.1).map _
      rw [Option.map_map]
      rfl

variable {q : Char}

theorem spelled?_append_quote (hq : isQuote q = true) (x z : List Char) :
    spelled? (x ++ q :: z) = (spelled? x).or (spelled? z) := by
  rw [spelled?, heading_declarationFrom?_append_quote hq, Option.map_or]
  rfl

/-- **Which declaration a line with a literal makes**: the first one of those before the literal, in
    it, and behind it. -/
theorem spelled?_literal (hq : isQuote q = true) (x c y : List Char) :
    spelled? (x ++ (literal q c ++ y)) = (spelled? x).or ((spelled? c).or (spelled? y)) := by
  rw [← spelled?_append_quote hq c y, ← spelled?_append_quote hq x, literal, List.cons_append,
    List.append_assoc]
  rfl

/-- Only what stands before a quote leads a line. -/
theorem startsWithKeyword_append_quote (hq : isQuote q = true) {keyword : String}
    (hk : IsKeyword keyword.toList) (x z : List Char) :
    startsWithKeyword keyword (x ++ q :: z) = startsWithKeyword keyword x := by
  have hword : isWordChar q = false := not_wordChar_of_quote hq
  rw [startsWithKeyword, startsWithKeyword, trimStart_append_quote hq]
  congr 1
  by_cases hx : trimStart x = []
  · -- a keyword does not begin with a quote, and no keyword stands in an empty text
    have hnone : ∀ s : List Char, s.head?.any isWordChar = false →
        wordAt keyword.toList none s = false := by
      intro s hs
      rw [Bool.eq_false_iff, Ne, wordAt_iff]
      rintro ⟨t, rest, rfl, ht, -, -⟩
      cases t with
      | nil => exact hk.1 (List.map_eq_nil_iff.mp ht.symm)
      | cons c t =>
          rw [List.cons_append, List.head?_cons, Option.any_some,
            wordChar_of_upper_eq hk ht c (List.mem_cons_self ..)] at hs
          cases hs
    rw [hx, List.nil_append, hnone (q :: z) hword, hnone [] rfl]
  · exact wordAt_append hk hx hword

end StLint.Source
