import StLint.Proofs.Section.Written
import StLint.Proofs.Source.Quote

/-!
# Written values

An initial value is a truth value, a number or a string. The reader cuts it off at the first place
where the rest ends the declaration, and tells the three apart by their characters: the first two are
**tokens**, of letters, digits and signs, and a string begins with a quote.

* `isTokenChar` — the characters of truth values and numbers.
* `initialValue?_text` — a value in front of a semicolon is read as it is written.
* `classify_text` — a value is understood as it is meant.
-/

namespace StLint.Section.Written

open Text Source

/-! ## Characters -/

/-- A character of a truth value or a number. -/
def isTokenChar (c : Char) : Bool := isWordChar c || c = '+' || c = '-'

theorem not_blank_of_tokenChar {c : Char} (h : isTokenChar c = true) : isBlank c = false := by
  simp only [isTokenChar, Bool.or_eq_true, decide_eq_true_eq] at h
  rcases h with (h | rfl) | rfl
  · exact not_blank_of_wordChar h
  · decide
  · decide

/-- A class of characters without those that end something or open a comment is plain. -/
theorem isPlainChar_of_class {p : Char → Bool}
    (hp : (['\'', '"', ';', '/', '*', '\n', '\r'].any p) = false) {c : Char} (h : p c = true) :
    isPlainChar c = true := by
  cases hc : isPlainChar c with
  | true => rfl
  | false =>
      rw [List.any_eq_false] at hp
      simp only [isPlainChar, isQuote, Bool.and_eq_false_iff, Bool.not_eq_false', Bool.or_eq_true,
        decide_eq_true_eq, decide_eq_false_iff_not, not_not] at hc
      rcases hc with (((((rfl | rfl) | rfl) | rfl) | rfl) | rfl) | rfl <;>
        exact absurd h (hp _ (by decide))

theorem isPlainChar_of_tokenChar {c : Char} (h : isTokenChar c = true) : isPlainChar c = true :=
  isPlainChar_of_class (by decide) h

theorem not_quote_of_plainChar {c : Char} (h : isPlainChar c = true) : isQuote c = false := by
  simp only [isPlainChar, Bool.and_eq_true, Bool.not_eq_true'] at h
  exact h.1.1.1.1.1

theorem ne_semicolon_of_plainChar {c : Char} (h : isPlainChar c = true) : c ≠ ';' := by
  rintro rfl
  exact absurd h (by decide)

/-! ## Tokens -/

theorem tokenChar_of_mem_bool (b : Bool) : ∀ c ∈ (Value.bool b).text, isTokenChar c = true := by
  refine List.all_eq_true.mp ?_
  cases b <;> decide

theorem tokenChar_of_digit (d : Fin 10) : isTokenChar (Nat.digitChar d.val) = true := by
  revert d
  decide

theorem Numeral.text_ne_nil (n : Numeral) : n.text ≠ [] := by
  intro h
  exact n.notEmpty (List.map_eq_nil_iff.mp (List.append_eq_nil_iff.mp h).2)

/-- A sign and decimal digits as they are written. -/
def integerText (sign : Sign) (digits : List (Fin 10)) : List Char :=
  sign.text ++ digits.map fun d => Nat.digitChar d.val

theorem tokenChar_of_mem_integer (sign : Sign) (digits : List (Fin 10)) :
    ∀ c ∈ integerText sign digits, isTokenChar c = true := by
  have hsign : sign.text.all isTokenChar = true := by
    cases sign <;> decide
  intro c hc
  rcases List.mem_append.mp hc with hc | hc
  · exact List.all_eq_true.mp hsign c hc
  · obtain ⟨d, -, rfl⟩ := List.mem_map.mp hc
    exact tokenChar_of_digit d

theorem tokenChar_of_mem_numeral (n : Numeral) : ∀ c ∈ n.text, isTokenChar c = true :=
  tokenChar_of_mem_integer n.sign n.digits

/-- No white space stands in an integer. -/
theorem trim_integer (sign : Sign) (digits : List (Fin 10)) :
    trim (integerText sign digits) = integerText sign digits :=
  trim_eq_self fun c hc => not_blank_of_tokenChar (tokenChar_of_mem_integer sign digits c hc)

/-! ## Where a value ends -/

/-- Only white space may stand in front of the semicolon. -/
theorem endsDeclaration_cons {c : Char} (hblank : isBlank c = false) (hc : c ≠ ';') (r : List Char) :
    endsDeclaration (c :: r) = false := by
  rw [endsDeclaration, trimStart_of_not_blank hblank]
  simp [hc]

/-- A token is cut off at the semicolon: no place in it ends the declaration. -/
theorem takeValue?_token {s : List Char} (hs : ∀ c ∈ s, isTokenChar c = true) {started : Bool}
    (h : s ≠ [] ∨ started = true) : takeValue? none started (s ++ [';']) = some s := by
  induction s generalizing started with
  | nil =>
      rcases h with h | rfl
      · exact absurd rfl h
      · rfl
  | cons c r ih =>
      have hc := hs c (List.mem_cons_self ..)
      have hplain := isPlainChar_of_tokenChar hc
      have hends := endsDeclaration_cons (not_blank_of_tokenChar hc)
        (ne_semicolon_of_plainChar hplain) (r ++ [';'])
      have hrest : takeValue? none true (r ++ [';']) = some r :=
        ih (fun d hd => hs d (List.mem_cons_of_mem c hd)) (Or.inr rfl)
      rw [List.cons_append, takeValue?, hends, Bool.and_false, if_neg Bool.false_ne_true,
        if_neg (by simp [ne_semicolon_of_plainChar hplain]), Nesting.stepQuote,
        if_neg (by rw [not_quote_of_plainChar hplain]; exact Bool.false_ne_true), hrest]
      rfl

/-- In a string nothing ends the declaration. -/
private theorem takeValue?_content {q : Char} {s : List Char} (hs : ∀ c ∈ s, c ≠ q) (started : Bool)
    (r : List Char) :
    takeValue? (some q) started (s ++ q :: r)
      = (takeValue? none true r).map fun v => s ++ q :: v := by
  induction s generalizing started with
  | nil =>
      rw [List.nil_append, takeValue?, Nesting.stepQuote, if_pos rfl]
      rfl
  | cons c s ih =>
      have hc : c ≠ q := hs c (List.mem_cons_self ..)
      rw [List.cons_append, takeValue?, Nesting.stepQuote, if_neg hc,
        ih fun d hd => hs d (List.mem_cons_of_mem c hd)]
      simp only [Option.isNone_some, Bool.false_and, Bool.false_eq_true, if_false, Option.map_map]
      rfl

theorem Quoted.ne_quote (q : Quoted) : ∀ c ∈ q.content, c ≠ q.quote := by
  rintro c hc rfl
  have hquote := (q.plain _ hc).1
  rw [q.isQuote] at hquote
  exact nomatch hquote

private theorem takeValue?_quoted (q : Quoted) :
    takeValue? none false (q.text ++ [';']) = some q.text := by
  have hsemicolon : q.quote ≠ ';' := by
    intro h
    have hquote := q.isQuote
    rw [h] at hquote
    exact absurd hquote (by decide)
  have hcontent := takeValue?_content q.ne_quote true [';']
  rw [show q.text ++ [';'] = q.quote :: (q.content ++ q.quote :: [';']) by
      simp [Quoted.text, literal], takeValue?, Nesting.stepQuote, if_pos q.isQuote, hcontent]
  simp only [Bool.and_false, Bool.false_and, Bool.false_eq_true, if_false, Option.isNone_none,
    Bool.true_and, decide_eq_true_eq, if_neg hsemicolon]
  rfl

/-- **A value in front of a semicolon** is cut off as it is written. -/
theorem takeValue?_text (v : Value) : takeValue? none false (v.text ++ [';']) = some v.text := by
  cases v with
  | bool b => exact takeValue?_token (tokenChar_of_mem_bool b) (Or.inl (by cases b <;> decide))
  | int n => exact takeValue?_token (tokenChar_of_mem_numeral n) (Or.inl n.text_ne_nil)
  | string q => exact takeValue?_quoted q

theorem Value.exists_text_eq_cons (v : Value) : ∃ c r, v.text = c :: r ∧ isBlank c = false := by
  cases v with
  | bool b => cases b <;> exact ⟨_, _, rfl, by decide⟩
  | int n =>
      obtain ⟨c, r, hcr⟩ := List.exists_cons_of_ne_nil n.text_ne_nil
      have hc : c ∈ n.text := hcr ▸ List.mem_cons_self ..
      exact ⟨c, r, hcr, not_blank_of_tokenChar (tokenChar_of_mem_numeral n c hc)⟩
  | string q => exact ⟨q.quote, _, rfl, not_blank_of_quote q.isQuote⟩

/-- **A value behind `:=`** is read as it is written. -/
theorem initialValue?_text (v : Value) :
    initialValue? (' ' :: (v.text ++ [';'])) = some v.text := by
  obtain ⟨c, r, hcr, hc⟩ := v.exists_text_eq_cons
  have htrim : trimStart (' ' :: (v.text ++ [';'])) = v.text ++ [';'] := by
    rw [trimStart_cons, if_pos (by decide), hcr, List.cons_append, trimStart_of_not_blank hc]
  rw [initialValue?, htrim, takeValue?_text]

/-! ## What a value means -/

theorem digitsValue?_digits (ds : List (Fin 10)) :
    Literal.digitsValue? (ds.map fun d => Nat.digitChar d.val)
      = some (Nat.ofDigits 10 (ds.reverse.map Fin.val)) := by
  have hdigit : ∀ d : Fin 10, isDigit (Nat.digitChar d.val) = true ∧
      (Nat.digitChar d.val).toNat - '0'.toNat = d.val := by
    decide
  have hall : (ds.map fun d => Nat.digitChar d.val).all isDigit = true := by
    rw [List.all_map, List.all_eq_true]
    exact fun d _ => (hdigit d).1
  -- both folds start from the digits read so far
  have hvalue : ∀ n : Nat, (ds.map fun d => Nat.digitChar d.val).foldl
      (fun n c => 10 * n + (c.toNat - '0'.toNat)) n = ds.foldl (fun n d => d.val + 10 * n) n := by
    clear hall
    induction ds with
    | nil => exact fun _ => rfl
    | cons d ds ih =>
        intro n
        rw [List.map_cons, List.foldl_cons, List.foldl_cons, (hdigit d).2, Nat.add_comm, ih]
  rw [Literal.digitsValue?, if_pos hall, hvalue, Nat.ofDigits_eq_foldr, List.foldr_map,
    List.foldr_reverse]
  rfl

section Integer

variable {digits : List (Fin 10)}

theorem dropSign_integer (sign : Sign) (hne : digits ≠ []) :
    Literal.dropSign (integerText sign digits) = digits.map fun d => Nat.digitChar d.val := by
  obtain ⟨d, ds, rfl⟩ := List.exists_cons_of_ne_nil hne
  cases sign with
  | none =>
      show (if _ then _ else _) = _
      rw [if_neg (by simp)]
      rfl
  | plus => rfl
  | minus => rfl

theorem hasMinus_integer (sign : Sign) (hne : digits ≠ []) :
    Literal.hasMinus (integerText sign digits) = match sign with
      | .minus => true
      | .none | .plus => false := by
  obtain ⟨d, ds, rfl⟩ := List.exists_cons_of_ne_nil hne
  cases sign with
  | none => simp [integerText, Sign.text, Literal.hasMinus]
  | plus => rfl
  | minus => rfl

/-- **An integer is read as that number** if it fits in 64 bits. -/
theorem int64?_integer (sign : Sign) (hne : digits ≠ []) :
    Literal.int64? (integerText sign digits)
      = if -2 ^ 63 ≤ numberOf sign digits ∧ numberOf sign digits < 2 ^ 63
        then some (numberOf sign digits) else none := by
  have hempty : (digits.map fun d => Nat.digitChar d.val).isEmpty = false := by
    simpa using hne
  have hlimit : (limit63 : Int) = 2 ^ 63 := by decide
  rw [Literal.int64?, dropSign_integer sign hne, hempty, if_neg Bool.false_ne_true,
    digitsValue?_digits, hasMinus_integer sign hne, hlimit]
  cases sign with
  | none | plus | minus => simp [numberOf]

/-- A text that begins like neither word is no truth value. -/
theorem isBool_cons_eq_false {c : Char} (ht : c.toUpper ≠ 'T') (hf : c.toUpper ≠ 'F')
    (r : List Char) : Literal.isBool (c :: r) = false := by
  simp [Literal.isBool, Literal.isTrue, upper, ht, hf]

theorem isBool_integer (sign : Sign) (hne : digits ≠ []) :
    Literal.isBool (integerText sign digits) = false := by
  have hdigit : ∀ d : Fin 10, (Nat.digitChar d.val).toUpper ≠ 'T' ∧
      (Nat.digitChar d.val).toUpper ≠ 'F' := by
    decide
  obtain ⟨d, ds, rfl⟩ := List.exists_cons_of_ne_nil hne
  cases sign with
  | none => exact isBool_cons_eq_false (hdigit d).1 (hdigit d).2 _
  | plus => exact isBool_cons_eq_false (by decide) (by decide) _
  | minus => exact isBool_cons_eq_false (by decide) (by decide) _

end Integer

/-- A text that begins with a quote is no number. -/
theorem not_number_of_quote {q : Char} (hq : isQuote q = true) (r : List Char) :
    Literal.int64? (q :: r) = none ∧ Literal.Spelling.ofText? (q :: r) = none := by
  have hsign : Literal.dropSign (q :: r) = q :: r := by
    rcases isQuote_iff.mp hq with rfl | rfl <;> rfl
  have hdigit : isDigit q = false := by
    rcases isQuote_iff.mp hq with rfl | rfl <;> decide
  have hunicode : isUnicodeDigit q = false := by
    rcases isQuote_iff.mp hq with rfl | rfl <;> decide +kernel
  have hdot : q ≠ '.' := by
    rintro rfl
    exact absurd hq (by decide)
  constructor
  · rw [Literal.int64?, hsign]
    simp [Literal.digitsValue?, hdigit]
  · rw [Literal.Spelling.ofText?, hsign]
    simp [hunicode, hdot]

/-- **A value is understood as it is meant.** -/
theorem classify_text (v : Value) : InitialValue.classify v.text = v.meaning := by
  cases v with
  | bool b => cases b <;> rfl
  | int n =>
      show InitialValue.classify (integerText n.sign n.digits) = _
      rw [InitialValue.classify, trim_integer, isBool_integer n.sign n.notEmpty,
        if_neg Bool.false_ne_true, int64?_integer n.sign n.notEmpty, if_pos n.inRange]
      rfl
  | string q =>
      have hblank := not_blank_of_quote q.isQuote
      have htrim : trim q.text = q.text := by
        rw [trim, Quoted.text, literal, trimStart_of_not_blank hblank, ← List.cons_append,
          trimEnd_concat _ hblank]
      have hbool : Literal.isBool q.text = false := by
        rcases isQuote_iff.mp q.isQuote with h | h <;>
          exact isBool_cons_eq_false (by rw [h]; decide) (by rw [h]; decide) _
      obtain ⟨hint, hspelling⟩ := not_number_of_quote q.isQuote (q.content ++ [q.quote])
      have hlast : (q.quote :: (q.content ++ [q.quote])).getLast? = some q.quote := by
        rw [← List.cons_append, List.getLast?_concat]
      have hquoted : Literal.isQuoted (q.quote :: (q.content ++ [q.quote])) = true := by
        rw [Literal.isQuoted, hlast]
        rcases isQuote_iff.mp q.isQuote with h | h <;> simp [h]
      have hinner : ((q.quote :: (q.content ++ [q.quote])).drop 1).dropLast = q.content := by
        simp
      show InitialValue.classify q.text = _
      rw [InitialValue.classify, htrim, hbool, if_neg Bool.false_ne_true, Quoted.text, literal, hint,
        hspelling]
      show (if Literal.isQuoted _ then InitialValue.string _ else _) = _
      rw [if_pos hquoted, hinner]
      rfl

end StLint.Section.Written
