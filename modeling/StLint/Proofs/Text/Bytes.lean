import Mathlib.Data.String.Basic
import StLint.Text.Basic

/-!
# The order of bytes

Names are compared character by character. In UTF-8 a later character has later bytes: a longer
code begins with a greater byte, and codes of one length compare like the numbers that they spell.
So **the order of texts is the order of their bytes**.

* `utf8` — the bytes of a text.
* `utf8EncodeChar_append_lt` — two characters with any bytes behind them.
* `utf8_lt_utf8` — two texts.
-/

namespace StLint.Text

/-- The bytes of a text in UTF-8. -/
def utf8 (s : String) : List UInt8 := s.toList.flatMap String.utf8EncodeChar

/-- A first byte that is not greater decides, unless it is the same. -/
theorem ofNat_cons_lt {m n : Nat} (hn : n < 256) (hle : m ≤ n) {x y : List UInt8}
    (h : m = n → x < y) : UInt8.ofNat m :: x < UInt8.ofNat n :: y := by
  rw [List.cons_lt_cons_iff]
  rcases Nat.lt_or_eq_of_le hle with hlt | heq
  · left
    rw [UInt8.lt_iff_toNat_lt, UInt8.toNat_ofNat', UInt8.toNat_ofNat', Nat.mod_eq_of_lt hn,
      Nat.mod_eq_of_lt (Nat.lt_trans hlt hn)]
    exact hlt
  · exact Or.inr ⟨congrArg _ heq, h heq⟩

/-- **A later character has later bytes**, whatever stands behind the two. -/
theorem utf8EncodeChar_append_lt {c d : Char} (h : c < d) (x y : List UInt8) :
    String.utf8EncodeChar c ++ x < String.utf8EncodeChar d ++ y := by
  have hcd : c.val.toNat < d.val.toNat := h
  have hd : d.val.toNat < 1114112 := by
    rcases d.valid with hvalid | hvalid
    · exact Nat.lt_trans hvalid (by decide)
    · exact hvalid.2
  simp only [String.utf8EncodeChar]
  generalize c.val.toNat = m at *
  generalize d.val.toNat = n at *
  -- on the lengths of the two codes; a shorter one begins with a smaller byte
  by_cases h1 : m ≤ 127
  · rw [if_pos h1]
    by_cases g1 : n ≤ 127
    · rw [if_pos g1]
      exact ofNat_cons_lt (by omega) (by omega) fun heq => absurd heq (by omega)
    · rw [if_neg g1]
      split_ifs
      all_goals exact ofNat_cons_lt (by omega) (by omega) fun heq => absurd heq (by omega)
  · rw [if_neg h1, if_neg (show ¬ n ≤ 127 by omega)]
    by_cases h2 : m ≤ 2047
    · rw [if_pos h2]
      by_cases g2 : n ≤ 2047
      · rw [if_pos g2]
        refine ofNat_cons_lt (by omega) (by omega) fun _ => ?_
        exact ofNat_cons_lt (by omega) (by omega) fun heq => absurd heq (by omega)
      · rw [if_neg g2]
        split_ifs
        all_goals exact ofNat_cons_lt (by omega) (by omega) fun heq => absurd heq (by omega)
    · rw [if_neg h2, if_neg (show ¬ n ≤ 2047 by omega)]
      by_cases h3 : m ≤ 65535
      · rw [if_pos h3]
        by_cases g3 : n ≤ 65535
        · rw [if_pos g3]
          refine ofNat_cons_lt (by omega) (by omega) fun _ => ?_
          refine ofNat_cons_lt (by omega) (by omega) fun _ => ?_
          exact ofNat_cons_lt (by omega) (by omega) fun heq => absurd heq (by omega)
        · rw [if_neg g3]
          exact ofNat_cons_lt (by omega) (by omega) fun heq => absurd heq (by omega)
      · rw [if_neg h3, if_neg (show ¬ n ≤ 65535 by omega)]
        refine ofNat_cons_lt (by omega) (by omega) fun _ => ?_
        refine ofNat_cons_lt (by omega) (by omega) fun _ => ?_
        refine ofNat_cons_lt (by omega) (by omega) fun _ => ?_
        exact ofNat_cons_lt (by omega) (by omega) fun heq => absurd heq (by omega)

theorem utf8EncodeChar_ne_nil (c : Char) : String.utf8EncodeChar c ≠ [] := by
  simp only [String.utf8EncodeChar]
  split_ifs
  all_goals exact List.cons_ne_nil _ _

/-- Common bytes in front do not count. -/
theorem append_lt_append {x y : List UInt8} (h : x < y) (p : List UInt8) : p ++ x < p ++ y := by
  induction p with
  | nil => exact h
  | cons b p ih => exact List.cons_lt_cons_iff.mpr (Or.inr ⟨rfl, ih⟩)

/-- **The order of texts is the order of their bytes.** -/
theorem utf8_lt_utf8 {s t : String} (h : s < t) : utf8 s < utf8 t := by
  rw [String.lt_iff_toList_lt] at h
  rw [utf8, utf8]
  generalize s.toList = cs at h ⊢
  generalize t.toList = ds at h ⊢
  induction h with
  | @nil d ds =>
      obtain ⟨b, bs, hb⟩ := List.exists_cons_of_ne_nil (utf8EncodeChar_ne_nil d)
      rw [List.flatMap_cons, hb]
      exact List.nil_lt_cons _ _
  | rel hcd => exact utf8EncodeChar_append_lt hcd _ _
  | cons _ ih => exact append_lt_append ih _

end StLint.Text
