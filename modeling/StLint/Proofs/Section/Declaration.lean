import StLint.Proofs.Section.Value

/-!
# Written declarations

A written declaration is **plain text, at most one string, and a semicolon**. So the semicolon at its
end is the first one at top level, and nothing in it opens a comment. The parts of the plain text are
found by their separators: no name holds a comma or a colon, and no type a colon or a semicolon.

* `Declaration.exists_parts` — the shape of a declaration.
* `cutDeclaration_text`, `isKept_text`, `trailingComment?_text` — the declaration as a whole.
* `read?_text`, `entries_nameList` — its parts.
-/

namespace StLint.Section.Written

open Text Source

/-! ## Names -/

namespace Name

variable (n : Name)

theorem wordChar : ∀ c ∈ n.text, isWordChar c = true := (wordChar_of_identifier n.identifier).2

theorem text_ne_nil : n.text ≠ [] := (wordChar_of_identifier n.identifier).1

theorem not_blank : ∀ c ∈ n.text, isBlank c = false := fun c hc =>
  not_blank_of_wordChar (n.wordChar c hc)

/-- A name has no address, even if it reads `AT`. -/
theorem splitAddress_text : splitAddress n.text = (n.text, none) := by
  rw [splitAddress, trim_eq_self n.not_blank]
  rcases findWord?_of_wordChar "AT" n.wordChar with h | h <;> rw [h]

theorem splitAddress_blank_text : splitAddress (' ' :: n.text) = (n.text, none) := by
  have htrim : trim (' ' :: n.text) = trim n.text := by
    rw [trim, trimStart_cons, if_pos (by decide), trim]
  rw [← n.splitAddress_text, splitAddress, splitAddress, htrim]

/-- A name does not end a section, whatever stands behind it. -/
theorem not_end {r : List Char} (hr : r.head?.any isWordChar = false) :
    startsWithKeyword "END_VAR" (n.text ++ r) = false := by
  obtain ⟨c, t, hct⟩ := List.exists_cons_of_ne_nil n.text_ne_nil
  have hc : isBlank c = false := n.not_blank c (hct ▸ List.mem_cons_self ..)
  have hstart : trimStart (n.text ++ r) = n.text ++ r := by
    rw [hct, List.cons_append, trimStart_of_not_blank hc]
  have hword : IsKeyword "END_VAR".toList := isKeyword_of_all (by decide)
  rw [startsWithKeyword, hstart, wordAt_append hword n.text_ne_nil hr, Bool.and_eq_false_iff]
  refine Or.inr (Bool.eq_false_iff.mpr ?_)
  rw [Ne, wordAt_iff]
  rintro ⟨u, rest, hname, hu, -, hrest⟩
  -- the name goes on with word characters, so the keyword would be all of it
  cases rest with
  | nil =>
      rw [List.append_nil] at hname
      exact n.notEnd (by rw [hname, hu]; decide)
  | cons d rest =>
      have hd := n.wordChar d (by rw [hname]; simp)
      simp [hd] at hrest

end Name

/-! ## Types -/

namespace TypeText

variable (t : TypeText)

theorem plainChar : ∀ c ∈ t.text, isPlainChar c = true ∧ c ≠ ':' := by
  intro c hc
  simpa using List.all_eq_true.mp t.allowed c hc

/-- A type begins with a character that is neither blank nor an equals sign, and does not end in white
    space. -/
theorem exists_text_eq_cons :
    ∃ c r, t.text = c :: r ∧ isBlank c = false ∧ c ≠ '=' ∧ trimEnd r = r := by
  obtain ⟨c, r, hcr⟩ : ∃ c r, t.text = c :: r := by
    refine List.exists_cons_of_ne_nil ?_
    intro h
    have hopens := t.opens
    rw [h] at hopens
    exact nomatch hopens
  have hopens := t.opens
  have htrim := t.trimmed
  rw [hcr] at hopens htrim
  have hstart : trimStart (c :: r) = c :: r := by
    rw [← htrim, trimStart_trim]
  rw [trim, hstart] at htrim
  exact ⟨c, r, hcr, isBlank_head_trimStart hstart, by simpa using hopens,
    trimEnd_eq_self_of_cons htrim⟩

end TypeText

-- `dropPrefix?` stays folded, so that the two sides are compared as they are written
seal dropPrefix? in
/-- One character of a type. -/
theorem takeType?_cons (c : Char) (r : List Char) :
    takeType? (c :: r)
      = match (dropPrefix? ":=".toList (trimStart (c :: r))).bind initialValue? with
        | some v => some ([], some v)
        | none =>
          if endsDeclaration (c :: r) then some ([], none)
          else if c = ';' then none
          else (takeType? r).map fun (type, v) => (c :: type, v) := rfl

/-- **A type is read up to its end**: behind no other character the rest is well formed. -/
theorem takeType?_append {s r : List Char} (hs : ∀ c ∈ s, isPlainChar c = true ∧ c ≠ ':')
    (htrim : trimEnd s = s) {v : Option (List Char)} (hr : takeType? r = some ([], v)) :
    takeType? (s ++ r) = some (s, v) := by
  induction s with
  | nil => exact hr
  | cons c s ih =>
      have hne : trimStart (c :: s) ≠ [] := by
        intro h
        rw [trimEnd_eq_nil_iff.mpr (trimStart_eq_nil_iff.mp h)] at htrim
        exact nomatch htrim
      -- the next character that is not blank belongs to the type
      obtain ⟨d, u, hdu⟩ := List.exists_cons_of_ne_nil hne
      obtain ⟨w, -, hw⟩ := exists_append_trimStart (c :: s)
      have hd : isPlainChar d = true ∧ d ≠ ':' := by
        refine hs d ?_
        rw [← hw, hdu]
        exact List.mem_append_right w (List.mem_cons_self ..)
      have hstart : trimStart (c :: (s ++ r)) = d :: (u ++ r) := by
        rw [← List.cons_append, trimStart_append_of_ne_nil hne, hdu, List.cons_append]
      have hassign : dropPrefix? ":=".toList (trimStart (c :: (s ++ r))) = none := by
        rw [hstart, dropPrefix?, if_neg]
        intro h
        exact hd.2 (List.cons_prefix_cons.mp (List.isPrefixOf_iff_prefix.mp h)).1.symm
      have hends : endsDeclaration (c :: (s ++ r)) = false := by
        rw [endsDeclaration, hstart]
        simp [ne_semicolon_of_plainChar hd.1]
      have hc := ne_semicolon_of_plainChar (hs c (List.mem_cons_self ..)).1
      have hrest := ih (fun e he => hs e (List.mem_cons_of_mem c he)) (trimEnd_eq_self_of_cons htrim)
      rw [List.cons_append, takeType?_cons, hassign, hends, hrest, Option.bind_none]
      dsimp only
      rw [if_neg Bool.false_ne_true, if_neg hc]
      rfl

/-! ## Lists of names -/

/-- A character of a list of names. -/
def isListChar (c : Char) : Bool := isWordChar c || c = ',' || c = ' '

theorem isListChar_of_wordChar {c : Char} (h : isWordChar c = true) : isListChar c = true := by
  simp [isListChar, h]

theorem listChar_of_mem_names {ns : List Name} {c : Char}
    (hc : c ∈ ns.flatMap fun name => ", ".toList ++ name.text) : isListChar c = true := by
  obtain ⟨name, -, hc⟩ := List.mem_flatMap.mp hc
  rcases List.mem_append.mp hc with hc | hc
  · have hseparator : ", ".toList.all isListChar = true := by decide
    exact List.all_eq_true.mp hseparator c hc
  · exact isListChar_of_wordChar (name.wordChar c hc)

/-- Names behind a text are parted from it, and from each other, at the commas. -/
theorem splitOn_names {s : List Char} (hs : ',' ∉ s) (ns : List Name) :
    splitOn ',' (s ++ ns.flatMap fun name => ", ".toList ++ name.text)
      = s :: ns.map fun name => ' ' :: name.text := by
  induction ns generalizing s with
  | nil => rw [List.flatMap_nil, List.append_nil, splitOn_of_not_mem hs, List.map_nil]
  | cons n ns ih =>
      have hn : ',' ∉ ' ' :: n.text := by
        intro h
        rcases List.mem_cons.mp h with h | h
        · exact absurd h (by decide)
        · exact absurd (n.wordChar _ h) (by decide)
      rw [List.flatMap_cons, List.append_assoc]
      show splitOn ',' (s ++ ',' :: (' ' :: n.text ++ _)) = _
      rw [splitOn_append_sep, splitOn_of_not_mem hs, ih hn, List.map_cons]
      rfl

theorem trimEnd_names {s : List Char} (hs : trimEnd s = s) (ns : List Name) :
    trimEnd (s ++ ns.flatMap fun name => ", ".toList ++ name.text)
      = s ++ ns.flatMap fun name => ", ".toList ++ name.text := by
  induction ns generalizing s with
  | nil => rwa [List.flatMap_nil, List.append_nil]
  | cons n ns ih =>
      have hn : trimEnd n.text = n.text := trimEnd_eq_self n.not_blank
      have hnext : trimEnd (s ++ (", ".toList ++ n.text)) = s ++ (", ".toList ++ n.text) := by
        rw [← List.append_assoc, trimEnd_append_of_ne_nil _ (by rw [hn]; exact n.text_ne_nil), hn]
      rw [List.flatMap_cons, ← List.append_assoc]
      exact ih hnext

namespace Declaration

variable (d : Declaration)

theorem listChar_of_mem_nameList {c : Char} (hc : c ∈ d.nameList) : isListChar c = true := by
  rcases List.mem_append.mp hc with hc | hc
  · exact isListChar_of_wordChar (d.name.wordChar c hc)
  · exact listChar_of_mem_names hc

/-- **The names of a declaration** are cut apart again, without addresses. -/
theorem entries_nameList (dataType : List Char) (value : Option (List Char)) :
    (Section.Declaration.mk d.nameList dataType value).entries
      = d.names.map fun name => (name.text, none) := by
  have hcomma : ',' ∉ d.name.text := fun h => absurd (d.name.wordChar _ h) (by decide)
  rw [Section.Declaration.entries, nameList, splitOn_names hcomma, names, List.map_cons, List.map_map,
    List.map_cons, d.name.splitAddress_text]
  refine congrArg (_ :: ·) (List.map_congr_left ?_)
  intro name _
  exact name.splitAddress_blank_text

/-- Behind the type stand the initial value and the end. -/
theorem takeType?_tail : takeType? (d.tail ++ [';']) = some ([], d.value.map Value.text) := by
  rw [tail]
  cases d.value with
  | none => rfl
  | some v =>
      have hassign : (dropPrefix? ":=".toList (trimStart (' ' :: ':' :: '=' :: ' ' ::
          (v.text ++ [';'])))).bind initialValue? = some v.text := by
        rw [← initialValue?_text v]
        rfl
      show takeType? (' ' :: ':' :: '=' :: ' ' :: (v.text ++ [';'])) = _
      rw [takeType?_cons, hassign]
      rfl

/-- The names end at the first colon. -/
theorem span_nameList (r : List Char) :
    (d.nameList ++ ' ' :: ':' :: r).takeWhile (fun e => !(e = ':' || e = ';')) = d.nameList ++ [' '] ∧
      (d.nameList ++ ' ' :: ':' :: r).dropWhile (fun e => !(e = ':' || e = ';')) = ':' :: r := by
  have hnames : ∀ e ∈ d.nameList ++ [' '], (!(e = ':' || e = ';')) = true := by
    intro e he
    have hlist : isListChar e = true := by
      rcases List.mem_append.mp he with he | he
      · exact d.listChar_of_mem_nameList he
      · rw [List.mem_singleton.mp he]
        decide
    cases hsep : (e = ':' || e = ';' : Bool) with
    | false => rfl
    | true =>
        simp only [Bool.or_eq_true, decide_eq_true_eq] at hsep
        rcases hsep with rfl | rfl <;> exact absurd hlist (by decide)
  rw [show d.nameList ++ ' ' :: ':' :: r = (d.nameList ++ [' ']) ++ ':' :: r by simp,
    List.takeWhile_append_of_pos hnames, List.dropWhile_append_of_pos hnames,
    List.takeWhile_cons_of_neg (by decide), List.dropWhile_cons_of_neg (by decide), List.append_nil]
  exact ⟨rfl, rfl⟩

/-- **The parts of a declaration** are read as they are written. -/
theorem read?_text :
    Section.Declaration.read? d.text
      = some ⟨d.nameList, d.dataType.text, d.value.map Value.text⟩ := by
  obtain ⟨c, r, hcr, hblank, hequals, htrim⟩ := d.dataType.exists_text_eq_cons
  have hplain := d.dataType.plainChar
  rw [hcr] at hplain
  have htext : d.text = d.nameList ++ ' ' :: ':' :: ' ' :: (c :: (r ++ (d.tail ++ [';']))) := by
    rw [text, hcr]
    rfl
  have hnames : trimEnd (d.nameList ++ [' ']) = d.nameList := by
    rw [trimEnd_append_of_blank _ blank_space]
    exact trimEnd_names (trimEnd_eq_self d.name.not_blank) d.others
  have hne : d.nameList ≠ [] := fun h => d.name.text_ne_nil (List.append_eq_nil_iff.mp h).1
  have hstart : trimStart (' ' :: (c :: (r ++ (d.tail ++ [';'])))) = c :: (r ++ (d.tail ++ [';'])) := by
    rw [trimStart_cons, if_pos (by decide), trimStart_of_not_blank hblank]
  have hc := ne_semicolon_of_plainChar (hplain c (List.mem_cons_self ..)).1
  have htype := takeType?_append (fun e he => hplain e (List.mem_cons_of_mem c he)) htrim
    d.takeType?_tail
  obtain ⟨htake, hdrop⟩ := d.span_nameList (' ' :: (c :: (r ++ (d.tail ++ [';']))))
  rw [Section.Declaration.read?, htext, htake, hdrop, hnames]
  simp [hne, hstart, hc, hequals, htype, ← hcr, d.dataType.trimmed]

end Declaration

/-! ## Plain text, a string and a semicolon -/

/-- A text outside strings whose brackets are balanced. -/
structure IsPlain (s : List Char) : Prop where
  chars : ∀ c ∈ s, isPlainChar c = true
  neutral : IsNeutral s

namespace IsPlain

variable {s t : List Char}

theorem append (hs : IsPlain s) (ht : IsPlain t) : IsPlain (s ++ t) where
  chars := by
    intro c hc
    rcases List.mem_append.mp hc with hc | hc
    · exact hs.chars c hc
    · exact ht.chars c hc
  neutral := hs.neutral.append ht.neutral

/-- A class of characters that are neither marks nor brackets makes plain text. -/
theorem of_class {p : Char → Bool}
    (hp : (['\'', '"', ';', '/', '*', '\n', '\r', '(', ')', '[', ']'].any p) = false)
    (h : ∀ c ∈ s, p c = true) : IsPlain s where
  chars := fun c hc => isPlainChar_of_class (by simp_all) (h c hc)
  neutral := isNeutral_of_isFlat fun c hc => isFlat_of_class (by simp_all) (h c hc)

theorem not_mark (hs : IsPlain s) :
    ∀ c ∈ s, isQuote c = false ∧ c ≠ '/' ∧ c ≠ '*' ∧ c ≠ ';' ∧ c ≠ '\n' ∧ c ≠ '\r' := by
  intro c hc
  have hplain := hs.chars c hc
  simp only [isPlainChar, Bool.and_eq_true, Bool.not_eq_true', decide_eq_true_eq] at hplain
  obtain ⟨⟨⟨⟨⟨hquote, hend⟩, hslash⟩, hstar⟩, hfeed⟩, hreturn⟩ := hplain
  exact ⟨hquote, hslash, hstar, hend, hfeed, hreturn⟩

/-- Plain text opens no comment. -/
theorem isKept (hs : IsPlain s) : IsKept s := by
  have hbare : IsBare s := by
    refine ⟨fun c hc => (hs.not_mark c hc).1, ?_, ?_⟩
    · intro h
      exact (hs.not_mark '/' (h.subset (by decide))).2.1 rfl
    · intro h
      exact (hs.not_mark '*' (h.subset (by decide))).2.2.1 rfl
  exact hbare.isKept

end IsPlain

/-- What stands behind the plain text of a declaration. -/
inductive Ending : List Char → Prop
  | semicolon : Ending [';']
  | string (q : Quoted) : Ending (q.text ++ [';'])

namespace Ending

variable {p t : List Char}

theorem findTopLevelFrom?_eq (ht : Ending t) :
    findTopLevelFrom? [';'] ⟨none, 0⟩ t = some (t.length - 1) := by
  cases ht with
  | semicolon => rfl
  | string q =>
      have hq : q.quote ∉ q.content := fun h => q.ne_quote _ h rfl
      have hopen : Nesting.step ⟨none, 0⟩ q.quote = ⟨some q.quote, 0⟩ := by
        have hbracket : isOpening q.quote = false ∧ isClosing q.quote = false := by
          rcases isQuote_iff.mp q.isQuote with h | h <;> rw [h] <;> decide
        simp [Nesting.step, Nesting.stepQuote, q.isQuote, hbracket]
      have htext : q.text ++ [';'] = q.quote :: (q.content ++ q.quote :: [';']) := by
        simp [Quoted.text, literal]
      have hnot : Nesting.isFree ⟨none, 0⟩ q.quote = false := by
        simp [Nesting.isFree, q.isQuote]
      rw [htext, findTopLevelFrom?, hnot, hopen, findTopLevelFrom?_append_of_quoted hq]
      rw [Bool.false_and, if_neg Bool.false_ne_true,
        show findTopLevelFrom? [';'] ⟨none, 0⟩ [';'] = some 0 from rfl]
      simp

theorem trailingCommentFrom?_eq (ht : Ending t) : trailingCommentFrom? none t = none := by
  cases ht with
  | semicolon => rfl
  | string q =>
      rw [Quoted.text, trailingCommentFrom?_literal q.isQuote fun h => q.ne_quote _ h rfl]
      rfl

theorem head?_ne_star (ht : Ending t) : t.head? ≠ some '*' := by
  cases ht with
  | semicolon => decide
  | string q =>
      intro h
      have hq := q.isQuote
      rw [show q.quote = '*' from Option.some.inj h] at hq
      exact absurd hq (by decide)

theorem isKept_append (ht : Ending t) (hp : IsPlain p) : IsKept (p ++ t) := by
  have hsemicolon : IsKept [';'] := ⟨rfl, rfl⟩
  cases ht with
  | semicolon =>
      have hseam : IsSeam ';' := by decide
      constructor
      · rw [stripFrom_append_of_seam hseam, hp.isKept.1, hp.isKept.2]
        rfl
      · rw [Region.after_append_of_seam hseam, hp.isKept.2]
        rfl
  | string q =>
      exact IsKept.append_literal q.isQuote (isContent_of_plain q.isQuote q.plain) hp.isKept hsemicolon

theorem not_lineBreak (ht : Ending t) : ∀ c ∈ t, isLineBreak c = false := by
  cases ht with
  | semicolon =>
      intro c hc
      rw [List.mem_singleton.mp hc]
      decide
  | string q =>
      have hcontent := isContent_of_plain q.isQuote q.plain
      intro c hc
      rcases List.mem_append.mp hc with hc | hc
      · exact not_lineBreak_of_mem_literal q.isQuote hcontent c hc
      · rw [List.mem_singleton.mp hc]
        decide

end Ending

theorem isPlain_separator {s : List Char} (h : s.all (fun c => c = ':' || c = '=' || c = ' ') = true) :
    IsPlain s :=
  IsPlain.of_class (by decide) (List.all_eq_true.mp h)

namespace Declaration

variable (d : Declaration)

/-- A declaration up to its initial value is plain. -/
theorem isPlain_left : IsPlain (d.nameList ++ (" : ".toList ++ d.dataType.text)) := by
  have hnames : IsPlain d.nameList :=
    IsPlain.of_class (by decide) fun c hc => d.listChar_of_mem_nameList hc
  have hseparator : IsPlain " : ".toList := isPlain_separator (by decide)
  have htype : IsPlain d.dataType.text := by
    have hchars := d.dataType.plainChar
    refine ⟨fun c hc => (hchars c hc).1, isNeutral_of_isBalanced ?_ d.dataType.balanced⟩
    exact fun c hc => not_quote_of_plainChar (hchars c hc).1
  exact hnames.append (hseparator.append htype)

/-- **A declaration is plain text and what ends it.** -/
theorem exists_parts : ∃ p t, d.text = p ++ t ∧ IsPlain p ∧ Ending t := by
  have hleft := d.isPlain_left
  have htext : d.text = (d.nameList ++ (" : ".toList ++ d.dataType.text)) ++ (d.tail ++ [';']) := by
    simp [text]
  rw [htext]
  generalize d.nameList ++ (" : ".toList ++ d.dataType.text) = left at hleft
  have hassign : IsPlain " := ".toList := isPlain_separator (by decide)
  have htoken : ∀ s : List Char, (∀ c ∈ s, isTokenChar c = true) → IsPlain s := fun s hs =>
    IsPlain.of_class (by decide) hs
  -- a value without quotes belongs to the plain text, and only the semicolon is left behind it
  have htail : ∀ s, IsPlain s → ∃ p t, left ++ (" := ".toList ++ s ++ [';']) = p ++ t ∧
      IsPlain p ∧ Ending t := by
    intro s hs
    exact ⟨left ++ (" := ".toList ++ s), [';'], by simp, hleft.append (hassign.append hs), .semicolon⟩
  rw [tail]
  cases d.value with
  | none => exact ⟨left, [';'], rfl, hleft, .semicolon⟩
  | some v =>
      cases v with
      | bool b => exact htail _ (htoken _ (tokenChar_of_mem_bool b))
      | int n => exact htail _ (htoken _ (tokenChar_of_mem_numeral n))
      | string q =>
          exact ⟨left ++ " := ".toList, q.text ++ [';'], by simp [Value.text], hleft.append hassign,
            .string q⟩

/-- A declaration begins with its first name and ends with a semicolon. -/
theorem exists_text_eq :
    ∃ c r, d.text = c :: (r ++ [';']) ∧ isBlank c = false := by
  obtain ⟨c, r, hcr⟩ := List.exists_cons_of_ne_nil d.name.text_ne_nil
  refine ⟨c, r ++ ((d.others.flatMap fun name => ", ".toList ++ name.text) ++
    (" : ".toList ++ (d.dataType.text ++ d.tail))), ?_, d.name.not_blank c (hcr ▸ List.mem_cons_self ..)⟩
  rw [text, nameList, hcr]
  simp

theorem trim_text : trim d.text = d.text := by
  obtain ⟨c, r, htext, hc⟩ := d.exists_text_eq
  rw [htext, trim, trimStart_of_not_blank hc, ← List.cons_append, trimEnd_concat _ (by decide)]

/-- **A declaration is cut off as a whole**: its last character is the first semicolon at top level. -/
theorem cutDeclaration_text : Position.cutDeclaration d.text = (d.text, []) := by
  obtain ⟨p, t, htext, hp, ht⟩ := d.exists_parts
  have hsemicolon : ';' ∉ p := fun h => (hp.not_mark ';' h).2.2.2.1 rfl
  have hpos : 0 < t.length := by
    cases ht <;> simp
  have hfind : findTopLevel? ";" d.text = some (d.text.length - 1) := by
    rw [findTopLevel?, show ";".toList = [';'] from rfl, htext,
      findTopLevelFrom?_append_of_not_mem hsemicolon, Nesting.start, hp.neutral,
      ht.findTopLevelFrom?_eq, List.length_append]
    exact congrArg some (Nat.add_sub_assoc hpos p.length).symm
  have hlength : d.text.length - 1 + 1 = d.text.length := by
    rw [htext, List.length_append]
    omega
  rw [Position.cutDeclaration, hfind]
  dsimp only
  rw [hlength, List.take_length, List.drop_length, d.trim_text]
  rfl

theorem trailingComment?_text : trailingComment? d.text = none := by
  obtain ⟨p, t, htext, hp, ht⟩ := d.exists_parts
  have hmark : ∀ c ∈ p, isQuote c = false ∧ c ≠ '/' ∧ c ≠ '*' := fun c hc =>
    ⟨(hp.not_mark c hc).1, (hp.not_mark c hc).2.1, (hp.not_mark c hc).2.2.1⟩
  rw [trailingComment?, htext, trailingCommentFrom?_append hmark ht.head?_ne_star,
    ht.trailingCommentFrom?_eq]

theorem isKept_text : IsKept d.text := by
  obtain ⟨p, t, htext, hp, ht⟩ := d.exists_parts
  rw [htext]
  exact ht.isKept_append hp

theorem not_lineBreak : ∀ c ∈ d.text, isLineBreak c = false := by
  obtain ⟨p, t, htext, hp, ht⟩ := d.exists_parts
  intro c hc
  rw [htext] at hc
  rcases List.mem_append.mp hc with hc | hc
  · obtain ⟨-, -, -, -, hfeed, hreturn⟩ := hp.not_mark c hc
    simp [isLineBreak, hfeed, hreturn]
  · exact ht.not_lineBreak c hc

/-- A declaration does not end its section. -/
theorem not_end_text : startsWithKeyword "END_VAR" d.text = false := by
  rw [text, nameList, List.append_assoc]
  refine d.name.not_end ?_
  cases d.others <;> rfl

end Declaration

end StLint.Section.Written
