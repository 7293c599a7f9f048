import StLint.Expression.Literal
import StLint.Proofs.Source.Quote
import StLint.Proofs.Text.Word

/-!
# Literals by their first character

Which form of literal a text can be shows at its first character: a quoted string begins with a quote,
and no other literal does. **A text that begins with a quote is a literal exactly if it ends with the
same quote**; what stands in between is not looked at.

* `isDecimal_cons_eq_false`, `hash_mem_of_isBased`, `hash_mem_of_isTime` — what a number and a time
  need.
* `isLiteral_of_quote` — a text that begins with a quote.
-/

namespace StLint.Literal

open Text

variable {c : Char} {r s : List Char}

/-- A number without a prefix begins with a sign, a digit or its point. -/
theorem isDecimal_cons_eq_false (hdigit : isUnicodeDigit c = false)
    (hother : c ≠ '+' ∧ c ≠ '-' ∧ c ≠ '.') : isDecimal (c :: r) = false := by
  have hsign : dropSign (c :: r) = c :: r := by
    rw [dropSign, if_neg (by simp [hother.1, hother.2.1])]
  have hwhole : (c :: r).takeWhile isUnicodeDigit = [] := List.takeWhile_cons_of_neg (by simp [hdigit])
  have hrest : (c :: r).dropWhile isUnicodeDigit = c :: r :=
    List.dropWhile_cons_of_neg (by simp [hdigit])
  have hnone : Spelling.ofText? (c :: r) = none := by
    rw [Spelling.ofText?, hsign, hwhole, hrest]
    split
    rename_i fraction rest hparts
    split at hparts
    · rename_i h
      exact absurd (List.cons.inj h).1 hother.2.2
    · obtain ⟨rfl, -⟩ := Prod.mk.inj hparts
      rfl
  rw [isDecimal, hnone]
  rfl

theorem hash_mem_of_isBased (h : isBased s = true) : '#' ∈ s := by
  by_contra hmem
  rw [isBased, dropWhile_ne_of_not_mem hmem] at h
  cases h

theorem hash_mem_of_isTime (h : isTime s = true) : '#' ∈ s := by
  by_contra hmem
  rw [isTime, dropWhile_ne_of_not_mem hmem] at h
  cases h

/-- No word begins with a quote. -/
theorem isOneOf_quote (hq : isQuote c = true) {words : List String}
    (hwords : (words.all fun w => !w.toList.head?.any isQuote) = true) :
    Language.isOneOfIgnoringCase words (c :: r) = false := by
  rw [Language.isOneOfIgnoringCase, Language.isOneOf, List.any_eq_false]
  intro w hw heq
  have hhead := List.all_eq_true.mp hwords w hw
  have hupper : isQuote c.toUpper = true := by
    rcases Source.isQuote_iff.mp hq with rfl | rfl <;> decide
  rw [eq_of_beq heq, upper, List.map_cons, List.head?_cons, Option.any_some, hupper] at hhead
  cases hhead

/-- **A text that begins with a quote is a literal exactly if it is quoted.** -/
theorem isLiteral_of_quote (hq : isQuote c = true) (htrim : trim (c :: r) = c :: r) :
    isLiteral (c :: r) = isQuoted (c :: r) := by
  have hdigit : isUnicodeDigit c = false := by
    rcases Source.isQuote_iff.mp hq with rfl | rfl <;> decide
  have hbase : (c :: r).takeWhile (· ≠ '#') = c :: r.takeWhile (· ≠ '#') := by
    refine List.takeWhile_cons_of_pos ?_
    rcases Source.isQuote_iff.mp hq with rfl | rfl <;> decide
  have hupper : isQuote c.toUpper = true ∧ c.toUpper ≠ 'T' ∧ c.toUpper ≠ 'F' := by
    rcases Source.isQuote_iff.mp hq with rfl | rfl <;> decide
  have hbool : isBool (c :: r) = false := by
    rw [isBool, isTrue, Bool.or_eq_false_iff, beq_eq_false_iff_ne, beq_eq_false_iff_ne]
    exact ⟨fun h => hupper.2.1 (List.cons.inj h).1, fun h => hupper.2.2 (List.cons.inj h).1⟩
  have hdecimal : isDecimal (c :: r) = false := by
    refine isDecimal_cons_eq_false hdigit ?_
    rcases Source.isQuote_iff.mp hq with rfl | rfl <;> decide
  have hbased : isBased (c :: r) = false := by
    have hletter : isLetter c = false := by
      rcases Source.isQuote_iff.mp hq with rfl | rfl <;> decide
    rw [isBased, hbase]
    split
    · rfl
    · simp [isDigits, hdigit, hletter]
  have htime : isTime (c :: r) = false := by
    rw [isTime, hbase]
    split
    · rfl
    · rw [isOneOf_quote hq (by decide), Bool.false_and, Bool.false_and]
  rw [isLiteral, htrim, hbool, isNumeric, hdecimal, hbased, htime, Bool.or_self, Bool.or_false,
    Bool.or_false, Bool.or_false]

end StLint.Literal
