import Mathlib.Algebra.BigOperators.Group.List.Basic
import Mathlib.Algebra.GroupWithZero.Nat
import StLint.Report.Basic

/-!
# Counts of a report

Scores and recommendations are counts of the issues of a report. A score falls by a fixed amount for
each issue of its kind and stops at nothing; every type of issue belongs to **one group only**, so the
numbers in the recommendations are the issues, sorted by group.

* `safetyScore_eq`, `maintainabilityScore_eq`, `complexityScore_le` — the scores.
* `shownNumber`, `shownNumber_of_recommendation` — the number in a recommendation is its count.
* `sum_shownNumber` — together the recommendations show all issues.
-/

namespace StLint

/-! ## Scores -/

theorem complexityScore_le (units : List Pou) : complexityScore units ≤ maxScore := Nat.min_le_left ..

/-- **Ten less for each issue of safety**, and never less than nothing. -/
theorem safetyScore_eq (issues : List Issue) :
    (safetyScore issues : Int) = max 0 (100 - 10 * (issues.filter fun i => i.type.isSafety).length) := by
  rw [safetyScore, maxScore, List.countP_eq_length_filter]
  omega

/-- **Five less for each issue of upkeep**, and never less than nothing. -/
theorem maintainabilityScore_eq (issues : List Issue) :
    (maintainabilityScore issues : Int)
      = max 0 (100 - 5 * (issues.filter fun i => i.type.isMaintainability).length) := by
  rw [maintainabilityScore, maxScore, List.countP_eq_length_filter]
  omega

/-! ## The number in a recommendation -/

/-- The first number that a text shows. -/
def shownNumber (s : String) : Nat :=
  Nat.ofDigitChars 10 ((s.toList.dropWhile fun c => !c.isDigit).takeWhile Char.isDigit) 0

/-- **A number is read back from a text around it**, where no digit stands before it and none right
    behind it. -/
theorem shownNumber_append {before after : String} (n : Nat)
    (hbefore : ∀ c ∈ before.toList, c.isDigit = false)
    (hafter : after.toList.takeWhile Char.isDigit = []) :
    shownNumber (before ++ toString n ++ after) = n := by
  have hdigit : ∀ c ∈ Nat.toDigits 10 n, c.isDigit = true := by
    intro c hc
    exact Nat.isDigit_of_mem_toDigits (by decide) (by decide) hc
  have hdrop : (Nat.toDigits 10 n ++ after.toList).dropWhile (fun c => !c.isDigit)
      = Nat.toDigits 10 n ++ after.toList := by
    obtain ⟨c, rest, hc⟩ := List.exists_cons_of_ne_nil (Nat.toDigits_ne_nil (n := n) (b := 10))
    have hfirst := hdigit c (hc ▸ List.mem_cons_self ..)
    rw [hc, List.cons_append, List.dropWhile_cons, hfirst]
    rfl
  have hskip : ∀ c ∈ before.toList, (!c.isDigit) = true := by
    intro c hc
    rw [hbefore c hc]
    rfl
  rw [shownNumber, String.toList_append, String.toList_append, Nat.toString_eq_repr, Nat.toList_repr,
    List.append_assoc, List.dropWhile_append_of_pos hskip, hdrop,
    List.takeWhile_append_of_pos hdigit, hafter, List.append_nil]
  exact Nat.ofDigitChars_ten_toDigits

namespace Bucket

/-- The text of a group leaves the number in it readable. -/
theorem readable_of_mem_all {b : Bucket} (hb : b ∈ all) :
    (∀ c ∈ b.before.toList, c.isDigit = false) ∧ b.after.toList.takeWhile Char.isDigit = [] := by
  have hall : (all.all fun b => b.before.toList.all (fun c => !c.isDigit) &&
      (b.after.toList.takeWhile Char.isDigit).isEmpty) = true := by decide +kernel
  have hb := List.all_eq_true.mp hall b hb
  rw [Bool.and_eq_true, List.all_eq_true, List.isEmpty_iff] at hb
  refine ⟨?_, hb.2⟩
  intro c hc
  rw [← Bool.not_eq_true']
  exact hb.1 c hc

/-- **A recommendation shows the number of the issues of its group.** -/
theorem shownNumber_of_recommendation {b : Bucket} (hb : b ∈ all) {issues : List Issue} {s : String}
    (h : b.recommendation? issues = some s) : shownNumber s = b.count issues := by
  rw [recommendation?] at h
  by_cases hpos : 0 < b.count issues
  · rw [if_pos hpos] at h
    obtain ⟨hbefore, hafter⟩ := readable_of_mem_all hb
    rw [← Option.some.inj h]
    exact shownNumber_append _ hbefore hafter
  · rw [if_neg hpos] at h
    cases h

/-! ## One group for each type -/

/-- **Every type belongs to one group.** -/
theorem countP_all (t : IssueType) : all.countP (fun b => b.types.contains t) = 1 := by
  cases t <;> decide

theorem count_cons (b : Bucket) (i : Issue) (issues : List Issue) :
    b.count (i :: issues) = b.count issues + if b.types.contains i.type then 1 else 0 :=
  List.countP_cons ..

/-- One more issue is one more in one group. -/
theorem sum_count_cons (bs : List Bucket) (i : Issue) (issues : List Issue) :
    (bs.map fun b => b.count (i :: issues)).sum
      = (bs.map fun b => b.count issues).sum + bs.countP fun b => b.types.contains i.type := by
  induction bs with
  | nil => rfl
  | cons b bs ih =>
      rw [List.map_cons, List.sum_cons, ih, count_cons, List.map_cons, List.sum_cons,
        List.countP_cons]
      omega

/-- **The groups share out the issues.** -/
theorem sum_count (issues : List Issue) : (all.map fun b => b.count issues).sum = issues.length := by
  induction issues with
  | nil => rfl
  | cons i issues ih => rw [sum_count_cons, ih, countP_all, List.length_cons]

/-- Groups that do not occur add nothing to the numbers that are shown. -/
theorem sum_filterMap {bs : List Bucket} (hbs : ∀ b ∈ bs, b ∈ all) (issues : List Issue) :
    ((bs.filterMap fun b => b.recommendation? issues).map shownNumber).sum
      = (bs.map fun b => b.count issues).sum := by
  induction bs with
  | nil => rfl
  | cons b bs ih =>
      have ih := ih fun c hc => hbs c (List.mem_cons_of_mem _ hc)
      rw [List.map_cons, List.sum_cons, ← ih, List.filterMap_cons]
      cases h : b.recommendation? issues with
      | none =>
          have hzero : b.count issues = 0 := by
            by_contra hne
            rw [recommendation?, if_pos (Nat.pos_of_ne_zero hne)] at h
            cases h
          rw [hzero, Nat.zero_add]
      | some s =>
          rw [← shownNumber_of_recommendation (hbs b (List.mem_cons_self ..)) h]
          exact List.sum_cons

end Bucket

/-- **Together the recommendations show all issues.** What is said about no issues shows no number. -/
theorem sum_shownNumber (issues : List Issue) :
    ((recommendations issues).map shownNumber).sum = issues.length := by
  cases issues with
  | nil => decide
  | cons i issues =>
      rw [recommendations, if_neg (by exact Bool.noConfusion),
        Bucket.sum_filterMap (fun _ hb => hb), Bucket.sum_count]

example : shownNumber "Review 12 of 30" = 12 := by decide

end StLint
