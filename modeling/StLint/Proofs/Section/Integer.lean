import Mathlib.Tactic.IntervalCases
import StLint.Proofs.Section.Value

/-!
# Integer initial values

An initial value that is spelled as an integer, with a sign or none and any number of ASCII digits, is
**the integer that it spells** if that fits in 64 bits. Any other is a double; none wraps around, and none
stays a text. Only such texts become integers: digits of another script and fractions do not.

* `exists_integerText` — a text of a sign and ASCII digits, by its digits.
* `ofText?_integer` — an integer is a spelling of a number, too.
* `SpellsInteger` — an integer with white space around it.
* `classify_integer` — the two cases, and that there is no other way to an integer.
-/

namespace StLint.Section.Written

open Text Source

/-! ## Digits -/

/-- The digit that an ASCII digit spells. -/
def digitOf (c : Char) : Fin 10 := ⟨(c.toNat - '0'.toNat) % 10, Nat.mod_lt _ (by decide)⟩

theorem digitChar_digitOf {c : Char} (h : isDigit c = true) : Nat.digitChar (digitOf c).val = c := by
  rw [isDigit, Bool.and_eq_true, decide_eq_true_eq, decide_eq_true_eq] at h
  have hlow : 48 ≤ c.toNat := h.1
  have hhigh : c.toNat ≤ 57 := h.2
  show Nat.digitChar ((c.toNat - 48) % 10) = c
  obtain ⟨n, hn⟩ : ∃ n, c.toNat = n := ⟨_, rfl⟩
  rw [← Char.ofNat_toNat c, hn]
  rw [hn] at hlow hhigh
  interval_cases n <;> rfl

/-- ASCII digits are digits of Unicode. -/
theorem isUnicodeDigit_digitChar (d : Fin 10) : isUnicodeDigit (Nat.digitChar d.val) = true := by
  revert d
  decide +kernel

theorem map_digitOf {s : List Char} (h : s.all isDigit = true) :
    (s.map digitOf).map (fun d => Nat.digitChar d.val) = s := by
  rw [List.map_map]
  have hsame : ∀ c ∈ s, Nat.digitChar (digitOf c).val = id c := fun c hc =>
    digitChar_digitOf (List.all_eq_true.mp h c hc)
  exact (List.map_congr_left hsame).trans (List.map_id s)

/-- **What is left of a sign are digits**: then the text is an integer. -/
theorem exists_integerText {s : List Char} (hne : Literal.dropSign s ≠ [])
    (h : (Literal.dropSign s).all isDigit = true) :
    ∃ sign digits, digits ≠ [] ∧ integerText sign digits = s := by
  have hdigits := map_digitOf h
  generalize (Literal.dropSign s).map digitOf = digits at hdigits
  have hsome : digits ≠ [] := by
    rintro rfl
    exact hne hdigits.symm
  cases s with
  | nil => exact absurd rfl hne
  | cons c r =>
      rw [Literal.dropSign] at hdigits
      by_cases hsign : (decide (c = '+') || decide (c = '-')) = true
      · rw [if_pos hsign] at hdigits
        rw [Bool.or_eq_true, decide_eq_true_eq, decide_eq_true_eq] at hsign
        rcases hsign with rfl | rfl
        · exact ⟨.plus, digits, hsome, by rw [← hdigits]; rfl⟩
        · exact ⟨.minus, digits, hsome, by rw [← hdigits]; rfl⟩
      · rw [if_neg hsign] at hdigits
        exact ⟨.none, digits, hsome, hdigits⟩

/-- The number that digits spell. -/
def magnitude (digits : List (Fin 10)) : Nat := Nat.ofDigits 10 (digits.reverse.map Fin.val)

/-- The sign is a minus. -/
def Sign.isMinus : Sign → Bool
  | .minus => true
  | .none | .plus => false

/-- **An integer is a number without fraction and exponent.** -/
theorem ofText?_integer (sign : Sign) {digits : List (Fin 10)} (hne : digits ≠ []) :
    Literal.Spelling.ofText? (integerText sign digits)
      = some ⟨sign.isMinus, digits.map fun d => Nat.digitChar d.val, [], none⟩ := by
  have hall : ∀ c ∈ digits.map (fun d => Nat.digitChar d.val), isUnicodeDigit c = true := by
    intro c hc
    obtain ⟨d, -, rfl⟩ := List.mem_map.mp hc
    exact isUnicodeDigit_digitChar d
  have hwhole := List.takeWhile_eq_self_iff.mpr hall
  have hrest := List.dropWhile_eq_nil_iff.mpr hall
  rw [Literal.Spelling.ofText?, dropSign_integer sign hne, hasMinus_integer sign hne, hwhole, hrest]
  cases sign <;> simp [Literal.exponent?, hne, Sign.isMinus]

/-- The double of an integer is read from its digits. -/
theorem value?_integer (sign : Sign) {digits : List (Fin 10)} (hne : digits ≠ []) :
    (Literal.Spelling.ofText? (integerText sign digits)).bind Literal.Spelling.value?
      = some (Decimal.read sign.isMinus (magnitude digits) 0) := by
  rw [ofText?_integer sign hne, Option.bind_some, Literal.Spelling.value?]
  simp [digitsValue?_digits, Literal.exponentValue?, magnitude]

/-! ## Initial values -/

/-- A text is an integer with white space around it: a sign or none, and one or more ASCII digits. -/
def SpellsInteger (s : List Char) (sign : Sign) (digits : List (Fin 10)) : Prop :=
  digits ≠ [] ∧ ∃ before behind, (∀ c ∈ before, isBlank c = true) ∧ (∀ c ∈ behind, isBlank c = true) ∧
    s = before ++ integerText sign digits ++ behind

theorem spellsInteger_iff {s : List Char} {sign : Sign} {digits : List (Fin 10)} :
    SpellsInteger s sign digits ↔ digits ≠ [] ∧ trim s = integerText sign digits := by
  refine and_congr_right fun _ => ?_
  constructor
  · rintro ⟨before, behind, hbefore, hbehind, rfl⟩
    rw [trim_surrounded hbefore hbehind, trim_integer]
  · intro h
    obtain ⟨before, behind, hbefore, hbehind, hs⟩ := exists_trim_parts s
    exact ⟨before, behind, hbefore, hbehind, by rw [← h, List.append_assoc, hs]⟩

/-- What is read as an integer is spelled as one. -/
theorem spellsInteger_of_int64? {s : List Char} {i : Int} (h : Literal.int64? (trim s) = some i) :
    ∃ sign digits, SpellsInteger s sign digits ∧ numberOf sign digits = i := by
  have hread := h
  rw [Literal.int64?] at hread
  dsimp only at hread
  by_cases hempty : (Literal.dropSign (trim s)).isEmpty = true
  · rw [if_pos hempty] at hread
    cases hread
  · rw [if_neg hempty] at hread
    obtain ⟨n, hvalue, -⟩ := Option.bind_eq_some_iff.mp hread
    have hall : (Literal.dropSign (trim s)).all isDigit = true := by
      by_contra hall
      rw [Literal.digitsValue?, if_neg hall] at hvalue
      cases hvalue
    obtain ⟨sign, digits, hne, htext⟩ :=
      exists_integerText (fun hnil => hempty (List.isEmpty_iff.mpr hnil)) hall
    refine ⟨sign, digits, spellsInteger_iff.mpr ⟨hne, htext.symm⟩, ?_⟩
    rw [← htext, int64?_integer sign hne] at h
    split at h
    · exact Option.some.inj h
    · cases h

/-- An integer comes from the reader of integers. -/
theorem int64?_of_classify {s : List Char} {i : Int} (h : InitialValue.classify s = .int i) :
    Literal.int64? (trim s) = some i := by
  rw [InitialValue.classify] at h
  by_cases hbool : Literal.isBool (trim s) = true
  · rw [if_pos hbool] at h
    cases h
  · rw [if_neg hbool] at h
    cases hint : Literal.int64? (trim s) with
    | some j =>
        rw [hint] at h
        exact congrArg some (InitialValue.int.inj h)
    | none =>
        rw [hint] at h
        dsimp only at h
        split at h
        · cases h
        · split at h <;> cases h

/-- **Integer initial values are exact.** The text of an integer is that integer exactly if it fits in 64
    bits, else it is the double read from its digits. No other text is an integer. -/
theorem classify_integer (s : List Char) :
    (∀ sign digits, SpellsInteger s sign digits →
      (InitialValue.classify s = .int (numberOf sign digits) ↔
        -2 ^ 63 ≤ numberOf sign digits ∧ numberOf sign digits < 2 ^ 63) ∧
      (¬ (-2 ^ 63 ≤ numberOf sign digits ∧ numberOf sign digits < 2 ^ 63) →
        InitialValue.classify s = .float (Decimal.read sign.isMinus (magnitude digits) 0))) ∧
    ∀ i, InitialValue.classify s = .int i →
      ∃ sign digits, SpellsInteger s sign digits ∧ numberOf sign digits = i := by
  constructor
  · intro sign digits hs
    obtain ⟨hne, htrim⟩ := spellsInteger_iff.mp hs
    have hclassify : InitialValue.classify s
        = if -2 ^ 63 ≤ numberOf sign digits ∧ numberOf sign digits < 2 ^ 63
          then .int (numberOf sign digits)
          else .float (Decimal.read sign.isMinus (magnitude digits) 0) := by
      rw [InitialValue.classify, htrim, isBool_integer sign hne, if_neg Bool.false_ne_true,
        int64?_integer sign hne, value?_integer sign hne]
      split_ifs <;> rfl
    rw [hclassify]
    split_ifs with hfits
    · exact ⟨iff_of_true rfl hfits, fun h => absurd hfits h⟩
    · refine ⟨iff_of_false ?_ hfits, fun _ => rfl⟩
      intro h
      cases h
  · intro i h
    exact spellsInteger_of_int64? (int64?_of_classify h)

/-- The digits of the least number that has no positive of 64 bits. -/
def limitDigits : List (Fin 10) := "9223372036854775808".toList.map digitOf

/-- The least integer of 64 bits is an integer, and its opposite is a double. -/
theorem classify_integer_limits :
    SpellsInteger " -9223372036854775808\t".toList .minus limitDigits ∧
      InitialValue.classify " -9223372036854775808\t".toList = .int (-9223372036854775808) ∧
      SpellsInteger "+9223372036854775808".toList .plus limitDigits ∧
      InitialValue.classify "+9223372036854775808".toList
        = .float (Decimal.read false 9223372036854775808 0) := by
  have hleast : SpellsInteger " -9223372036854775808\t".toList .minus limitDigits :=
    ⟨by decide, [' '], ['\t'], List.forall_mem_singleton.mpr rfl,
      List.forall_mem_singleton.mpr rfl, rfl⟩
  have hlimit : SpellsInteger "+9223372036854775808".toList .plus limitDigits :=
    ⟨by decide, [], [], List.forall_mem_nil _, List.forall_mem_nil _, rfl⟩
  have hvalue : numberOf .minus limitDigits = -9223372036854775808 := by decide
  have hopposite : numberOf .plus limitDigits = 9223372036854775808 := by decide
  have hmagnitude : magnitude limitDigits = 9223372036854775808 := by decide
  refine ⟨hleast, ?_, hlimit, ?_⟩
  · have hfits := ((classify_integer _).1 .minus limitDigits hleast).1
    rw [hvalue] at hfits
    exact hfits.mpr ⟨by decide, by decide⟩
  · have hdouble := ((classify_integer _).1 .plus limitDigits hlimit).2
    rw [hopposite, hmagnitude] at hdouble
    exact hdouble (by decide)

end StLint.Section.Written
