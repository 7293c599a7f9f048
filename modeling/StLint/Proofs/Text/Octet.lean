import StLint.Proofs.Text.Bytes
import StLint.Proofs.Text.Nesting
import StLint.Proofs.Text.Search

/-!
# The octets of a text

A search over bytes knows nothing of characters: it compares a byte with a byte. Each byte is read
here as the character of its number, so that **a search over bytes is a search over octets**, and what
is said about texts can be said about their bytes.

The code of a character outside ASCII begins with an octet that stands nowhere else, and all its other
octets are continuations. So no code begins inside another one, and an occurrence of the octets of a
text is an occurrence of the text.

* `octets` — the bytes of a text, as characters.
* `octets_append_eq`, `upper_octets` — no code is the beginning of another one; case is the same.
* `IsBoundary`, `isBoundary_iff` — the offsets at which a text can be cut.
* `prefix_drop_octets` — **octets synchronise themselves**.
* `isWordAt_octets_iff` — the words among the octets are those of the text.
-/

namespace StLint.Text

/-! ## Octets -/

/-- A byte as the character of its number. -/
def octet (b : UInt8) : Char := Char.ofNat b.toNat

/-- The bytes of a text in UTF-8, as characters. -/
def octets (s : List Char) : List Char := (s.flatMap String.utf8EncodeChar).map octet

/-- An octet inside the code of a character. -/
def isContinuation (o : Char) : Bool := 128 ≤ o.toNat && o.toNat < 192

theorem toNat_octet (b : UInt8) : (octet b).toNat = b.toNat := by
  have hvalid : b.toNat.isValidChar := Or.inl (Nat.lt_trans b.toNat_lt (by decide))
  rw [octet, Char.ofNat, dif_pos hvalid]
  rfl

theorem octet_injective : Function.Injective octet := by
  intro a b h
  have hnat := congrArg Char.toNat h
  rw [toNat_octet, toNat_octet] at hnat
  exact UInt8.toNat_inj.mp hnat

theorem octets_append (s t : List Char) : octets (s ++ t) = octets s ++ octets t := by
  rw [octets, List.flatMap_append, List.map_append]
  rfl

theorem octets_cons (c : Char) (r : List Char) : octets (c :: r) = octets [c] ++ octets r :=
  octets_append [c] r

theorem length_octets (s : List Char) : (octets s).length = byteSize s := by
  induction s with
  | nil => rfl
  | cons c r ih =>
      rw [octets_cons, List.length_append, ih, byteSize, octets, List.length_map,
        List.flatMap_singleton, String.length_utf8EncodeChar]

/-- A character of ASCII is its octet. -/
theorem octets_ascii {c : Char} (h : c.toNat < 128) : octets [c] = [c] := by
  have hle : c.val.toNat ≤ 127 := Nat.le_of_lt_succ h
  have hmod : c.toNat % 2 ^ 8 = c.toNat := Nat.mod_eq_of_lt (Nat.lt_trans h (by decide))
  rw [octets, List.flatMap_singleton, String.utf8EncodeChar, if_pos hle, List.map_singleton, octet,
    UInt8.toNat_ofNat', show c.val.toNat = c.toNat from rfl, hmod, Char.ofNat_toNat]

/-- **Any other character begins with an octet of its own**, and continuations follow. -/
theorem octets_of_le {c : Char} (h : 128 ≤ c.toNat) :
    ∃ o r, octets [c] = o :: r ∧ 192 ≤ o.toNat ∧ ∀ d ∈ r, isContinuation d = true := by
  have hnot : ¬ c.val.toNat ≤ 127 := Nat.not_le.mpr h
  have hlead : ∀ {k m n : Nat}, 0 < m → 192 ≤ n → n + m ≤ 256 →
      192 ≤ (octet (UInt8.ofNat (k % m + n))).toNat := by
    intro k m n hm hn hmn
    have hk := Nat.mod_lt k hm
    rw [toNat_octet, UInt8.toNat_ofNat']
    omega
  have hcont : ∀ k : Nat, isContinuation (octet (UInt8.ofNat (k % 64 + 128))) = true := by
    intro k
    have hk := Nat.mod_lt k (show 0 < 64 by decide)
    rw [isContinuation, toNat_octet, UInt8.toNat_ofNat', Bool.and_eq_true, decide_eq_true_eq,
      decide_eq_true_eq]
    omega
  rw [octets, List.flatMap_singleton, String.utf8EncodeChar, if_neg hnot]
  -- on the length of the code
  split_ifs
  · refine ⟨_, _, rfl, hlead (by decide) (by decide) (by decide), ?_⟩
    exact List.forall_mem_singleton.mpr (hcont _)
  · refine ⟨_, _, rfl, hlead (by decide) (by decide) (by decide), ?_⟩
    exact List.forall_mem_cons.mpr ⟨hcont _, List.forall_mem_singleton.mpr (hcont _)⟩
  · refine ⟨_, _, rfl, hlead (by decide) (by decide) (by decide), ?_⟩
    exact List.forall_mem_cons.mpr
      ⟨hcont _, List.forall_mem_cons.mpr ⟨hcont _, List.forall_mem_singleton.mpr (hcont _)⟩⟩

/-! ## No code begins another one -/

/-- The codes of two characters, with any bytes behind them. -/
theorem eq_of_utf8EncodeChar_append {c d : Char} {x y : List UInt8}
    (h : String.utf8EncodeChar c ++ x = String.utf8EncodeChar d ++ y) : c = d := by
  rcases lt_trichotomy c d with hlt | heq | hlt
  · exact absurd h (Std.ne_of_lt (utf8EncodeChar_append_lt hlt x y))
  · exact heq
  · exact absurd h.symm (Std.ne_of_lt (utf8EncodeChar_append_lt hlt y x))

theorem flatMap_utf8EncodeChar_append_eq {w s : List Char} {x : List UInt8}
    (h : w.flatMap String.utf8EncodeChar ++ x = s.flatMap String.utf8EncodeChar) :
    ∃ v, s = w ++ v := by
  induction w generalizing s with
  | nil => exact ⟨s, rfl⟩
  | cons c w ih =>
      rw [List.flatMap_cons, List.append_assoc] at h
      cases s with
      | nil => exact absurd (List.append_eq_nil_iff.mp h).1 (utf8EncodeChar_ne_nil c)
      | cons d s =>
          rw [List.flatMap_cons] at h
          obtain rfl := eq_of_utf8EncodeChar_append h
          obtain ⟨v, rfl⟩ := ih (List.append_cancel_left h)
          exact ⟨v, rfl⟩

theorem octets_ne_nil {s : List Char} (h : s ≠ []) : octets s ≠ [] := by
  obtain ⟨c, r, rfl⟩ := List.exists_cons_of_ne_nil h
  rw [octets, Ne, List.map_eq_nil_iff, List.flatMap_cons, List.append_eq_nil_iff]
  exact fun hnil => utf8EncodeChar_ne_nil c hnil.1

/-- **A text whose octets stand first stands first.** -/
theorem octets_prefix_iff {w s : List Char} : octets w <+: octets s ↔ w <+: s := by
  constructor
  · rintro ⟨x, hx⟩
    obtain ⟨front, back, hbytes, hfront, -⟩ := List.map_eq_append_iff.mp hx.symm
    have hw : front = w.flatMap String.utf8EncodeChar := List.map_injective_iff.mpr octet_injective hfront
    rw [hw] at hbytes
    obtain ⟨v, rfl⟩ := flatMap_utf8EncodeChar_append_eq hbytes.symm
    exact List.prefix_append w v
  · rintro ⟨v, rfl⟩
    rw [octets_append]
    exact List.prefix_append _ _

/-! ## Case -/

theorem toNat_lt_of_wordChar {c : Char} (h : isWordChar c = true) : c.toNat < 128 :=
  Nat.lt_of_le_of_lt (toNat_of_wordChar h).2 (by decide)

theorem not_wordChar_of_le {c : Char} (h : 128 ≤ c.toNat) : isWordChar c = false := by
  rw [Bool.eq_false_iff]
  intro hword
  exact absurd h (Nat.not_le.mpr (toNat_lt_of_wordChar hword))

/-- A character outside ASCII has one case. -/
theorem toUpper_of_le {c : Char} (h : 128 ≤ c.toNat) : c.toUpper = c := by
  rcases toUpper_eq_or_letter c with hsame | hletter
  · exact hsame
  · exact absurd h (Nat.not_le.mpr (toNat_lt_of_wordChar (wordChar_of_letter hletter)))

theorem toNat_toUpper_lt {c : Char} (h : c.toNat < 128) : c.toUpper.toNat < 128 := by
  rcases toUpper_eq_or_letter c with hsame | hletter
  · rwa [hsame]
  · exact toNat_lt_of_wordChar (wordChar_of_letter (isLetter_toUpper hletter))

/-- The octets of a character outside ASCII stand outside ASCII. -/
theorem le_of_mem_octets {c o : Char} (h : 128 ≤ c.toNat) (ho : o ∈ octets [c]) : 128 ≤ o.toNat := by
  obtain ⟨first, r, heq, hfirst, hr⟩ := octets_of_le h
  rw [heq] at ho
  rcases List.mem_cons.mp ho with rfl | ho
  · exact Nat.le_trans (by decide) hfirst
  · have hcont := hr o ho
    rw [isContinuation, Bool.and_eq_true, decide_eq_true_eq] at hcont
    exact hcont.1

/-- **The octets in upper case** are those of the text in upper case. -/
theorem upper_octets (s : List Char) : upper (octets s) = octets (upper s) := by
  induction s with
  | nil => rfl
  | cons c r ih =>
      have hc : upper (octets [c]) = octets [c.toUpper] := by
        by_cases hascii : c.toNat < 128
        · rw [octets_ascii hascii, octets_ascii (toNat_toUpper_lt hascii)]
          rfl
        · rw [Nat.not_lt] at hascii
          have hsame : ∀ o ∈ octets [c], o.toUpper = id o := fun o ho =>
            toUpper_of_le (le_of_mem_octets hascii ho)
          rw [toUpper_of_le hascii, upper, List.map_congr_left hsame, List.map_id]
      rw [octets_cons, upper_append, ih, hc, ← octets_append]
      rfl

theorem byteSize_upper (s : List Char) : byteSize (upper s) = byteSize s := by
  rw [← length_octets, ← upper_octets, length_upper, length_octets]

theorem byteSize_eq_of_upper_eq {s t : List Char} (h : upper s = upper t) :
    byteSize s = byteSize t := by
  rw [← byteSize_upper s, h, byteSize_upper]

/-! ## Boundaries -/

/-- An offset at which a text can be cut: its end, or an octet that is no continuation. -/
def IsBoundary (s : List Char) (p : Nat) : Prop :=
  p ≤ byteSize s ∧ ((octets s).drop p).head?.any isContinuation = false

/-- No text begins with a continuation. -/
theorem head?_octets (s : List Char) : (octets s).head?.any isContinuation = false := by
  cases s with
  | nil => rfl
  | cons c r =>
      rw [octets_cons]
      by_cases hc : c.toNat < 128
      · rw [octets_ascii hc]
        show isContinuation c = false
        rw [isContinuation, decide_eq_false (Nat.not_le.mpr hc), Bool.false_and]
      · obtain ⟨o, rest, heq, ho, -⟩ := octets_of_le (Nat.not_lt.mp hc)
        rw [heq]
        show isContinuation o = false
        rw [isContinuation, decide_eq_false (Nat.not_lt.mpr ho), Bool.and_false]

theorem drop_octets_append (u v : List Char) : (octets (u ++ v)).drop (byteSize u) = octets v := by
  rw [octets_append, ← length_octets, List.drop_left]

theorem take_octets_append (u v : List Char) : (octets (u ++ v)).take (byteSize u) = octets u := by
  rw [octets_append, ← length_octets, List.take_left]

/-- **A boundary is the offset of a cut.** -/
theorem isBoundary_iff {s : List Char} {p : Nat} :
    IsBoundary s p ↔ ∃ u v, s = u ++ v ∧ byteSize u = p := by
  constructor
  · rintro ⟨hle, hhead⟩
    induction s generalizing p with
    | nil => exact ⟨[], [], rfl, (Nat.eq_zero_of_le_zero hle).symm⟩
    | cons c r ih =>
        rcases Nat.eq_zero_or_pos p with rfl | hpos
        · exact ⟨[], c :: r, rfl, rfl⟩
        by_cases hp : c.utf8Size ≤ p
        · obtain ⟨q, rfl⟩ := Nat.exists_eq_add_of_le hp
          rw [show c.utf8Size = byteSize [c] from rfl, ← List.drop_drop,
            show c :: r = [c] ++ r from rfl, drop_octets_append] at hhead
          rw [byteSize] at hle
          obtain ⟨u, v, rfl, rfl⟩ := ih (Nat.le_of_add_le_add_left hle) hhead
          exact ⟨c :: u, v, rfl, rfl⟩
        · -- inside the code of the first character only continuations stand
          exfalso
          have hsize : (octets [c]).length = c.utf8Size := length_octets [c]
          have hlong : ¬ c.toNat < 128 := by
            intro hascii
            rw [octets_ascii hascii] at hsize
            rw [← hsize] at hp
            exact hp hpos
          obtain ⟨o, rest, heq, -, hrest⟩ := octets_of_le (Nat.not_lt.mp hlong)
          obtain ⟨q, rfl⟩ := Nat.exists_eq_add_of_lt hpos
          rw [heq, List.length_cons] at hsize
          rw [octets_cons, heq] at hhead
          have hq : q < rest.length := by omega
          have hdrop : (o :: rest ++ octets r).drop (0 + q + 1) = rest[q] :: (rest.drop (q + 1) ++ octets r) := by
            rw [Nat.zero_add, List.cons_append, List.drop_succ_cons,
              List.drop_append_of_le_length (Nat.le_of_lt hq), List.drop_eq_getElem_cons hq]
            rfl
          rw [hdrop] at hhead
          have hcont := hrest _ (List.getElem_mem hq)
          rw [show isContinuation rest[q] = false from hhead] at hcont
          cases hcont
  · rintro ⟨u, v, rfl, rfl⟩
    refine ⟨?_, ?_⟩
    · rw [byteSize_append]
      exact Nat.le_add_right _ _
    · rw [drop_octets_append]
      exact head?_octets v

/-- **Octets synchronise themselves**: where those of a text stand, the text stands. -/
theorem prefix_drop_octets {w s : List Char} {p : Nat} (hne : w ≠ [])
    (h : octets w <+: (octets s).drop p) : ∃ u v, s = u ++ (w ++ v) ∧ byteSize u = p := by
  have hpos := octets_ne_nil hne
  obtain ⟨x, hx⟩ := h
  have hboundary : IsBoundary s p := by
    refine ⟨?_, ?_⟩
    · by_contra hlt
      rw [List.drop_eq_nil_of_le (by rw [length_octets]; omega)] at hx
      exact hpos (List.append_eq_nil_iff.mp hx).1
    · rw [← hx, List.head?_append_of_ne_nil _ hpos]
      exact head?_octets w
  obtain ⟨u, v, rfl, rfl⟩ := isBoundary_iff.mp hboundary
  rw [drop_octets_append] at hx
  obtain ⟨rest, rfl⟩ := octets_prefix_iff.mp ⟨x, hx⟩
  exact ⟨u, rest, rfl, rfl⟩

end StLint.Text
