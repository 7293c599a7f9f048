import Mathlib.Algebra.Order.Group.Int
import Mathlib.Data.Prod.Lex
import Mathlib.Order.Compare

/-!
# The order of doubles

Doubles are compared by their sign, then by exponent and mantissa, and what is not a number is compared
with nothing. So **each number has a place in a linear order**, and the comparisons are those of the
places.

* `place` — the place of a double.
* `compare_eq` — two numbers compare as their places do.
* `le_iff`, `lt_iff` — the comparisons of doubles.
-/

namespace StLint.Number

open Float.Model (UnpackedFloat)

/-- The place of a double in the order: its sign, its exponent and its mantissa. The infinities stand
    outside all numbers of their sign. -/
def place : UnpackedFloat → ℤ ×ₗ ℤ ×ₗ ℤ
  | .infinity .negative => toLex (-2, toLex (0, 0))
  | .finite .negative mantissa exponent _ => toLex (-1, toLex (-exponent, -mantissa))
  | .notANumber | .zero _ => toLex (0, toLex (0, 0))
  | .finite .positive mantissa exponent _ => toLex (1, toLex (exponent, mantissa))
  | .infinity .positive => toLex (2, toLex (0, 0))

theorem compare_natCast (m n : ℕ) : compare (m : ℤ) n = compare m n := by
  rcases lt_trichotomy m n with h | h | h
  · rw [compare_lt_iff_lt.mpr h, compare_lt_iff_lt.mpr (Int.ofNat_lt.mpr h)]
  · rw [h, compare_eq_iff_eq.mpr rfl, compare_eq_iff_eq.mpr rfl]
  · rw [compare_gt_iff_gt.mpr h, compare_gt_iff_gt.mpr (Int.ofNat_lt.mpr h)]

theorem compare_neg (a b : ℤ) : compare (-a) (-b) = (compare a b).swap := by
  rw [Int.compare_swap]
  rcases lt_trichotomy a b with h | h | h
  · rw [compare_gt_iff_gt.mpr h, compare_gt_iff_gt.mpr (Int.neg_lt_neg h)]
  · rw [h, compare_eq_iff_eq.mpr rfl, compare_eq_iff_eq.mpr rfl]
  · rw [compare_lt_iff_lt.mpr h, compare_lt_iff_lt.mpr (Int.neg_lt_neg h)]

/-- Two finite numbers of one sign compare by exponent and mantissa, the negative ones backwards. -/
theorem compare_finite (sign : UnpackedFloat.Sign) {m n : ℕ} {e f : ℤ} (hm : 0 < m) (hn : 0 < n) :
    (UnpackedFloat.finite sign m e hm).compare (.finite sign n f hn)
      = some (compare (place (.finite sign m e hm)) (place (.finite sign n f hn))) := by
  cases sign with
  | positive =>
      show some ((compare e f).then (compare m n)) = some ((compare e f).then (compare (m : ℤ) n))
      rw [compare_natCast]
  | negative =>
      show some ((compare e f).then (compare m n)).swap
        = some ((compare (-e) (-f)).then (compare (-m : ℤ) (-n)))
      rw [Ordering.swap_then, compare_neg, compare_neg, compare_natCast]

/-- **Two numbers compare as their places do.** -/
theorem compare_eq {x y : UnpackedFloat} (hx : x ≠ .notANumber) (hy : y ≠ .notANumber) :
    x.compare y = some (compare (place x) (place y)) := by
  cases x with
  | notANumber => exact absurd rfl hx
  | infinity s =>
      cases y with
      | notANumber => exact absurd rfl hy
      | infinity t => cases s <;> cases t <;> decide
      | zero t => cases s <;> cases t <;> decide
      | finite t n f hn => cases s <;> cases t <;> rfl
  | zero s =>
      cases y with
      | notANumber => exact absurd rfl hy
      | infinity t => cases s <;> cases t <;> decide
      | zero t => cases s <;> cases t <;> decide
      | finite t n f hn => cases s <;> cases t <;> rfl
  | finite s m e hm =>
      cases y with
      | notANumber => exact absurd rfl hy
      | infinity t => cases s <;> cases t <;> rfl
      | zero t => cases s <;> cases t <;> rfl
      | finite t n f hn =>
          cases s with
          | positive =>
              cases t with
              | positive => exact compare_finite .positive hm hn
              | negative => rfl
          | negative =>
              cases t with
              | positive => rfl
              | negative => exact compare_finite .negative hm hn

/-! ## Comparisons -/

/-- The place of a double that stands in a record. -/
def placeOf (x : Float) : ℤ ×ₗ ℤ ×ₗ ℤ := place x.toModel.unpack

theorem isNaN_eq_false_iff {x : Float} : x.isNaN = false ↔ x.toModel.unpack ≠ .notANumber := by
  show x.toModel.unpack.isNaN = false ↔ _
  cases x.toModel.unpack with
  | notANumber => exact ⟨nofun, fun h => absurd rfl h⟩
  | infinity | zero | finite => exact ⟨fun _ => nofun, fun _ => rfl⟩

/-- What is not a number compares with nothing, and numbers compare as their places do. -/
theorem compare_eq_some_iff {x y : Float} {o : Ordering} :
    x.toModel.unpack.compare y.toModel.unpack = some o ↔
      (x.isNaN = false ∧ y.isNaN = false) ∧ compare (placeOf x) (placeOf y) = o := by
  rw [isNaN_eq_false_iff, isNaN_eq_false_iff, placeOf, placeOf]
  generalize x.toModel.unpack = u
  generalize y.toModel.unpack = v
  by_cases hu : u = .notANumber
  · subst hu
    exact iff_of_false nofun fun h => h.1.1 rfl
  · by_cases hv : v = .notANumber
    · subst hv
      refine iff_of_false ?_ fun h => h.1.2 rfl
      cases u <;> exact nofun
    · rw [compare_eq hu hv, Option.some.injEq, and_iff_right ⟨hu, hv⟩]

/-- A comparison of doubles is one of their places. -/
theorem le_iff {x y : Float} :
    x ≤ y ↔ (x.isNaN = false ∧ y.isNaN = false) ∧ placeOf x ≤ placeOf y := by
  have hmodel : x ≤ y ↔
      Option.any Ordering.isLE (x.toModel.unpack.compare y.toModel.unpack) = true :=
    ⟨of_decide_eq_true, decide_eq_true⟩
  rw [hmodel, Option.any_eq_true, ← compare_le_iff_le]
  simp only [compare_eq_some_iff, Ordering.isLE_iff_ne_gt]
  constructor
  · rintro ⟨o, ⟨hnumbers, rfl⟩, hle⟩
    exact ⟨hnumbers, hle⟩
  · rintro ⟨hnumbers, hle⟩
    exact ⟨_, ⟨hnumbers, rfl⟩, hle⟩

@[inherit_doc le_iff]
theorem lt_iff {x y : Float} :
    x < y ↔ (x.isNaN = false ∧ y.isNaN = false) ∧ placeOf x < placeOf y := by
  have hmodel : x < y ↔ (x.toModel.unpack.compare y.toModel.unpack == some .lt) = true :=
    ⟨of_decide_eq_true, decide_eq_true⟩
  rw [hmodel, beq_iff_eq, compare_eq_some_iff, compare_lt_iff_lt]

/-- **What is above a bound** is below nothing that the bound is above. -/
theorem not_le_of_lt_of_le {x y z : Float} (hxy : x ≤ y) (hyz : y < z) : ¬ z ≤ x := by
  intro hzx
  have hlt := lt_of_le_of_lt (le_iff.mp hxy).2 (lt_iff.mp hyz).2
  exact absurd (le_iff.mp hzx).2 (not_le_of_gt hlt)

/-- A number that is not above another one is at most that. -/
theorem le_of_not_lt {x y : Float} (hx : x.isNaN = false) (hy : y.isNaN = false) (h : ¬ x < y) :
    y ≤ x := by
  refine le_iff.mpr ⟨⟨hy, hx⟩, not_lt.mp fun hlt => ?_⟩
  exact h (lt_iff.mpr ⟨⟨hx, hy⟩, hlt⟩)

end StLint.Number
