import StLint.Proofs.Text.Pattern
import StLint.Proofs.Text.Search
import StLint.Statement.Body

/-!
# Headers that fill their line

A header is read back **part by part**, and each part is read to its end. The parts of the text may be
anything that does not contain the words that end a part.

* `splitHeader_append_blank_word` — a condition and the word that ends it.
* `splitHeader_afterWord` — the same behind the keyword that opens the block.
* `IsPart`, `IsBound.isPart` — what it means that a part is read to its end.
* `readThen_append`, `readLast_append` — the bounds up to what follows them.
* `ForHeader.read?_append` — a loop variable with its bounds, and the body behind them.
-/

namespace StLint.Statement

open Text Text.Pattern

/-! ## Conditions -/

theorem startsSolid_of_not_blank {s : List Char} (hne : s ≠ [])
    (h : ∀ c ∈ s, isBlank c = false) (r : List Char) : StartsSolid (s ++ r) := by
  obtain ⟨c, t, rfl⟩ := List.exists_cons_of_ne_nil hne
  exact h c (List.mem_cons_self ..)

theorem startsSolid_keyword {word : List Char} (hw : IsKeyword word) (r : List Char) :
    StartsSolid (word ++ r) :=
  startsSolid_of_not_blank hw.1 (fun c hc => not_blank_of_wordChar (hw.wordChar c hc)) r

/-- A word without white space is its own trim at the end of a text. -/
theorem trimEnd_append_word (s : List Char) {word : List Char} (hw : IsKeyword word) :
    trimEnd (s ++ word) = s ++ word := by
  obtain ⟨t, c, rfl⟩ := (List.eq_nil_or_concat word).resolve_left hw.1
  have hc : isBlank c = false := not_blank_of_wordChar (hw.wordChar c (by simp))
  rw [List.concat_eq_append, ← List.append_assoc]
  exact trimEnd_concat (s ++ t) hc

theorem trimEnd_append_blank_word (s : List Char) {word : List Char} (hw : IsKeyword word) :
    trimEnd (s ++ ' ' :: word) = s ++ ' ' :: word := by
  have h := trimEnd_append_word (s ++ [' ']) hw
  rw [List.append_assoc] at h
  exact h

section Between

variable {keyword x : List Char} {word : String}

/-- Between its two keywords a header has no white space at its ends. -/
theorem trim_keyword_word (hk : IsKeyword keyword) (hw : IsKeyword word.toList) (x : List Char) :
    trim (keyword ++ ' ' :: (x ++ ' ' :: word.toList)) = keyword ++ ' ' :: (x ++ ' ' :: word.toList) := by
  have h := trimEnd_append_blank_word (keyword ++ ' ' :: x) hw
  rw [List.append_assoc, List.cons_append] at h
  rw [trim, trimStart_of_startsSolid (startsSolid_keyword hk _), h]

theorem splitHeader_append_blank_word (hw : IsKeyword word.toList) (hx : containsWord word x = false) :
    splitHeader word (x ++ ' ' :: word.toList) = (trim x, []) := by
  have htake : (x ++ ' ' :: word.toList).take (x.length + 1) = x ++ [' '] := by
    rw [List.take_append, List.take_of_length_le (Nat.le_succ _), Nat.add_sub_cancel_left]
    rfl
  have hdrop : (x ++ ' ' :: word.toList).drop (x.length + 1 + word.length) = [] := by
    rw [List.drop_eq_nil_iff, List.length_append, List.length_cons, String.length_toList]
    omega
  rw [splitHeader, findWord?_append_blank_word hw hx]
  dsimp only
  rw [htake, hdrop, trim_append_of_blank x blank_space]
  rfl

/-- White space before a header is not read. -/
theorem splitHeader_trimStart (hw : IsKeyword word.toList) (s : List Char) :
    splitHeader word (trimStart s) = splitHeader word s := by
  obtain ⟨w, hblank, hs⟩ := exists_append_trimStart s
  conv_rhs => rw [← hs]
  rw [splitHeader, splitHeader, findWord?_blank_append hw hblank]
  cases findWord? word (trimStart s) with
  | none =>
      show (stripStatementEnd (trimStart s), []) = (stripStatementEnd (w ++ trimStart s), [])
      rw [stripStatementEnd, stripStatementEnd, trim_blank_append hblank]
  | some i =>
      show (trim ((trimStart s).take i), trim ((trimStart s).drop (i + word.length)))
        = (trim ((w ++ trimStart s).take (w.length + i)),
            trim ((w ++ trimStart s).drop (w.length + i + word.length)))
      rw [List.take_length_add_append, trim_blank_append hblank, Nat.add_assoc,
        List.drop_length_add_append]

/-- **A condition between two keywords** is cut as it is without the first one. -/
theorem splitHeader_afterWord (hk : IsKeyword keyword) (hw : IsKeyword word.toList) (x : List Char) :
    splitHeader word (afterWord (keyword ++ ' ' :: (x ++ ' ' :: word.toList)))
      = splitHeader word (x ++ ' ' :: word.toList) := by
  have hlead : leadingWord (keyword ++ ' ' :: (x ++ ' ' :: word.toList)) = keyword :=
    leadingWord_append hk.wordChar rfl
  have hafter : afterWord (keyword ++ ' ' :: (x ++ ' ' :: word.toList))
      = trimStart (x ++ ' ' :: word.toList) := by
    rw [afterWord, hlead, List.drop_left]
    show trim ([' '] ++ (x ++ ' ' :: word.toList)) = _
    rw [trim_blank_append blank_space, trim, ← trimStart_trimEnd, trimEnd_append_blank_word x hw]
  rw [hafter, splitHeader_trimStart hw]

end Between

/-! ## The bounds of a loop -/

/-- A bound of a loop without the white space around it. -/
structure IsBound (x : List Char) : Prop where
  trim_eq : trim x = x
  ne_nil : x ≠ []
  not_newline : '\n' ∉ x
  not_to : containsWord "TO" x = false
  not_by : containsWord "BY" x = false
  not_do : containsWord "DO" x = false

/-- White space between two parts of a header. -/
structure IsGap (w : List Char) : Prop where
  blank : ∀ c ∈ w, isBlank c = true
  ne_nil : w ≠ []

/-- White space behind a part of a header, or the end of the text. -/
def EndsPart (r : List Char) : Prop := r = [] ∨ ∃ b r', r = b :: r' ∧ isBlank b = true

theorem IsGap.endsPart {w : List Char} (hw : IsGap w) (r : List Char) : EndsPart (w ++ r) := by
  obtain ⟨b, w', rfl⟩ := List.exists_cons_of_ne_nil hw.ne_nil
  exact Or.inr ⟨b, w' ++ r, rfl, hw.blank b (List.mem_cons_self ..)⟩

theorem IsGap.one_le {w : List Char} (hw : IsGap w) : 1 ≤ w.length :=
  List.length_pos_iff.mpr hw.ne_nil

/-- A part of a header that is read to its end: from inside of it on no keyword can be read, nor what
    `next` reads behind the bounds. -/
structure IsPart {α : Type} (next : List Char → Option α) (x : List Char) : Prop where
  trim_eq : trim x = x
  ne_nil : x ≠ []
  not_newline : '\n' ∉ x
  not_to : ∀ {β : Type} {f : List Char → Option β} {u v r : List Char}, RejectsWord f →
    x = u ++ v → v ≠ [] → EndsPart r → blanks 1 (keyword "TO" f) (v ++ r) = none
  not_by : ∀ {β : Type} {f : List Char → Option β} {u v r : List Char}, RejectsWord f →
    x = u ++ v → v ≠ [] → EndsPart r → blanks 1 (keyword "BY" f) (v ++ r) = none
  not_next : ∀ {u v r : List Char}, x = u ++ v → v ≠ [] → EndsPart r → next (v ++ r) = none

section Part

variable {α β : Type} {next : List Char → Option α} {x : List Char}

theorem IsPart.startsSolid (hx : IsPart next x) (r : List Char) : StartsSolid (x ++ r) := by
  obtain ⟨c, t, hct⟩ := List.exists_cons_of_ne_nil hx.ne_nil
  have hstart : trimStart x = c :: t := by
    rw [← hct]
    conv_lhs => rw [← hx.trim_eq]
    rw [trimStart_trim, hx.trim_eq]
  rw [hct]
  show (some c).any isBlank = false
  exact isBlank_head_trimStart hstart

/-- A part is read to its end when nothing can be read behind a part of it. -/
theorem IsPart.shortest_append {f : List Char → List Char → Option β} {r : List Char} {b : β}
    (hx : IsPart next x) (hcut : ∀ u v, x = u ++ v → v ≠ [] → f u (v ++ r) = none)
    (hlast : f x r = some b) : shortest f [] (x ++ r) = some b := by
  refine Pattern.shortest_append hx.ne_nil hx.not_newline ?_ hlast
  intro u v huv _ hv
  exact hcut u v huv hv

end Part

theorem isUnicodeWord_of_wordChar {c : Char} (h : isWordChar c = true) :
    isUnicodeWord c = true := by
  have hascii : c.toNat < 0x80 := Nat.lt_of_le_of_lt (toNat_of_wordChar h).2 (by decide)
  rw [isUnicodeWord, if_pos hascii, Bool.or_eq_true]
  rw [isWordChar, Bool.or_eq_true, Bool.or_eq_true] at h
  rcases h with (h | h) | h
  · have halpha : c.isAlpha = true := by
      simp only [isLetter, Bool.or_eq_true, Bool.and_eq_true, decide_eq_true_eq] at h
      have hcase : c.isUpper = true ∨ c.isLower = true :=
        h.symm.imp (fun hupper => decide_eq_true hupper)
          fun hlower => Bool.and_eq_true_iff.mpr ⟨decide_eq_true hlower.1, decide_eq_true hlower.2⟩
      exact Bool.or_eq_true_iff.mpr hcase
    refine Or.inl ?_
    rw [Char.isAlphanum, halpha, Bool.true_or]
  · refine Or.inl ?_
    simp only [isDigit, Bool.and_eq_true, decide_eq_true_eq] at h
    simp only [Char.isAlphanum, Char.isDigit, Bool.or_eq_true, Bool.and_eq_true, decide_eq_true_eq]
    exact Or.inr h
  · exact Or.inr h

theorem isHeaderWord_to : IsHeaderWord "TO" := isHeaderWord_of_all (by decide)

theorem isHeaderWord_by : IsHeaderWord "BY" := isHeaderWord_of_all (by decide)

theorem isHeaderWord_do : IsHeaderWord "DO" := isHeaderWord_of_all (by decide)

/-! ### The end of the header -/

/-- A bound that does not contain the keywords is read to its end. -/
theorem IsBound.isPart {x : List Char} (hx : IsBound x) : IsPart loopBody? x := by
  have hend : trimEnd x = x := by
    have h := trimEnd_trim x
    rwa [hx.trim_eq] at h
  refine ⟨hx.trim_eq, hx.ne_nil, hx.not_newline, ?_, ?_, ?_⟩
  · intro β f u v r hf huv hv hr
    exact blanks_keyword_eq_none isHeaderWord_to hf hx.not_to hend huv hv hr
  · intro β f u v r hf huv hv hr
    exact blanks_keyword_eq_none isHeaderWord_by hf hx.not_by hend huv hv hr
  · -- the header does not end at a `DO` there, and not at the end of the text either
    intro u v r huv hv hr
    have hrejects : RejectsWord fun r : List Char => if wordMayEnd r then some r else none := by
      intro c r hc
      have hend : wordMayEnd (c :: r) = false := by
        rw [wordMayEnd, List.head?_cons, Option.any_some, isUnicodeWord_of_wordChar hc]
        rfl
      refine if_neg ?_
      rw [hend]
      exact Bool.false_ne_true
    have hkeyword := blanks_keyword_eq_none isHeaderWord_do hrejects hx.not_do hend huv hv hr
    have hblank : ¬ allBlank (v ++ r) = true := by
      intro h
      refine trimStart_ne_nil_of_solid hend huv hv (trimStart_eq_nil_iff.mpr ?_)
      intro c hc
      exact allBlank_iff.mp h c (List.mem_append_left _ hc)
    rw [loopBody?, hkeyword, if_neg hblank]
    rfl

/-- A header ends at its `DO`, and what follows is the body of the loop. -/
theorem loopBody?_do {w r : List Char} (hw : IsGap w) (hr : wordMayEnd r = true) :
    loopBody? (w ++ ("DO".toList ++ r)) = some r := by
  have hdo : keyword "DO" (fun r => if wordMayEnd r then some r else none) ("DO".toList ++ r)
      = some r := if_pos hr
  have hsolid : StartsSolid ("DO".toList ++ r) := rfl
  rw [loopBody?, blanks_append_of_eq_some hw.blank hsolid hw.one_le hdo]
  rfl

/-! ### The bounds -/

section Bounds

variable {α : Type} {next : List Char → Option α} {first last step r : List Char} {a : α}
  {w₀ w₁ w₂ : List Char}

/-- A step and what follows the bounds, behind the last bound. -/
def readStepThen (next : List Char → Option α) (first last : List Char) :
    List Char → Option (Bounds × α) :=
  blanks 1 (keyword "BY" (blanks 1 (shortest (fun step r =>
    (next r).map fun a => (⟨first, last, some (trim step)⟩, a)) [])))

theorem readStepThen_append (hs : IsPart next step) (hw₀ : IsGap w₀) (hw₁ : IsGap w₁)
    (hr : EndsPart r) (hend : next r = some a) :
    readStepThen next first last (w₀ ++ ("BY".toList ++ (w₁ ++ (step ++ r))))
      = some (⟨first, last, some step⟩, a) := by
  have hstep : shortest (fun step r => (next r).map fun a =>
      ((⟨first, last, some (trim step)⟩ : Bounds), a)) [] (step ++ r)
        = some (⟨first, last, some step⟩, a) := by
    refine hs.shortest_append ?_ ?_
    · intro u v huv hv
      rw [hs.not_next huv hv hr]
      rfl
    · rw [hend, hs.trim_eq]
      rfl
  have hgap := blanks_append_of_eq_some hw₁.blank (hs.startsSolid r) hw₁.one_le hstep
  have hby : StartsSolid ("BY".toList ++ (w₁ ++ (step ++ r))) := rfl
  exact blanks_append_of_eq_some hw₀.blank hby hw₀.one_le hgap

/-- Where the header ends no step begins. -/
theorem readStepThen_do (hw : IsGap w₀) :
    readStepThen next first last (w₀ ++ ("DO".toList ++ r)) = none := by
  have hsolid : StartsSolid ("DO".toList ++ r) := rfl
  rw [readStepThen, blanks_append hw.blank hsolid (keyword_rejectsBlank isHeaderWord_by _),
    if_pos hw.one_le]
  rfl

/-- The last bound ends where a step or what follows the bounds can be read. -/
theorem readLast_append {found : Bounds × α} (hl : IsPart next last) (hr : EndsPart r)
    (hend : either (readStepThen next (trim first) (trim last) r)
      ((next r).map fun a => (⟨trim first, trim last, none⟩, a)) = some found) :
    Bounds.readLast next first (last ++ r) = some found := by
  refine hl.shortest_append ?_ hend
  intro u v huv hv
  have hby : readStepThen next (trim first) (trim u) (v ++ r) = none :=
    hl.not_by (blanks_one_rejectsWord _) huv hv hr
  show either (readStepThen next (trim first) (trim u) (v ++ r)) _ = none
  rw [hby, hl.not_next huv hv hr]
  rfl

theorem readLast_end (hl : IsPart next last) (hr : EndsPart r)
    (hby : readStepThen next (trim first) last r = none) (hend : next r = some a) :
    Bounds.readLast next first (last ++ r) = some (⟨trim first, last, none⟩, a) := by
  refine readLast_append hl hr ?_
  rw [hl.trim_eq, hby, hend]
  rfl

theorem readLast_by (hl : IsPart next last) (hs : IsPart next step) (hw₀ : IsGap w₀) (hw₁ : IsGap w₁)
    (hr : EndsPart r) (hend : next r = some a) :
    Bounds.readLast next first (last ++ (w₀ ++ ("BY".toList ++ (w₁ ++ (step ++ r)))))
      = some (⟨trim first, last, some step⟩, a) := by
  refine readLast_append hl (hw₀.endsPart _) ?_
  rw [readStepThen_append hs hw₀ hw₁ hr hend, hl.trim_eq]
  rfl

/-- The first bound is read up to the word between the bounds. -/
theorem readThen_append {found : Bounds × α} (hf : IsPart next first)
    (hw₀ : ∀ c ∈ w₀, isBlank c = true) (hw₁ : IsGap w₁) (hw₂ : IsGap w₂) (hr : StartsSolid r)
    (hlast : Bounds.readLast next first r = some found) :
    Bounds.readThen next (w₀ ++ (first ++ (w₁ ++ ("TO".toList ++ (w₂ ++ r))))) = some found := by
  refine blanks_append_of_eq_some hw₀ (hf.startsSolid _) (Nat.zero_le _) ?_
  refine hf.shortest_append ?_ ?_
  · intro u v huv hv
    exact hf.not_to (blanks_one_rejectsWord _) huv hv (hw₁.endsPart _)
  · have hnext := blanks_append_of_eq_some hw₂.blank hr hw₂.one_le hlast
    have hto : StartsSolid ("TO".toList ++ (w₂ ++ r)) := rfl
    exact blanks_append_of_eq_some hw₁.blank hto hw₁.one_le hnext

end Bounds

/-! ### The header of a loop -/

theorem IsGap.before {w : List Char} (hw : ∀ c ∈ w, isBlank c = true) : IsGap (' ' :: w) := by
  refine ⟨?_, List.cons_ne_nil ' ' w⟩
  intro c hc
  rcases List.mem_cons.mp hc with rfl | hc
  · rfl
  · exact hw c hc

theorem IsGap.behind {w : List Char} (hw : ∀ c ∈ w, isBlank c = true) : IsGap (w ++ [' ']) := by
  refine ⟨?_, by simp⟩
  intro c hc
  rcases List.mem_append.mp hc with hc | hc
  · exact hw c hc
  · rw [List.mem_singleton.mp hc]
    rfl

/-- Bounds without a step, whatever white space stands around them. -/
theorem readThen_do {a b : List Char} (ha : IsBound (trim a)) (hb : IsBound (trim b)) :
    Bounds.readThen loopBody? (' ' :: (a ++ (" TO ".toList ++ (b ++ " DO".toList))))
      = some (⟨trim a, trim b, none⟩, []) := by
  obtain ⟨v, w, hv, hw, hs⟩ := exists_trim_parts a
  obtain ⟨v', w', hv', hw', hs'⟩ := exists_trim_parts b
  have hgap := IsGap.behind hw'
  have hlast : Bounds.readLast loopBody? (trim a) (trim b ++ ((w' ++ [' ']) ++ ("DO".toList ++ [])))
      = some (⟨trim (trim a), trim b, none⟩, []) :=
    readLast_end hb.isPart (hgap.endsPart _) (readStepThen_do hgap) (loopBody?_do hgap rfl)
  rw [trim_trim, List.append_nil] at hlast
  have h := readThen_append ha.isPart (IsGap.before hv).blank (IsGap.behind hw) (IsGap.before hv')
    (hb.isPart.startsSolid _) hlast
  have htext : ' ' :: (a ++ (" TO ".toList ++ (b ++ " DO".toList)))
      = (' ' :: v) ++ (trim a ++ ((w ++ [' ']) ++ ("TO".toList ++ ((' ' :: v') ++
          (trim b ++ ((w' ++ [' ']) ++ "DO".toList)))))) := by
    have hto : " TO ".toList = ' ' :: ("TO".toList ++ [' ']) := rfl
    have hdo : " DO".toList = ' ' :: "DO".toList := rfl
    conv_lhs => rw [← hs, ← hs', hto, hdo]
    simp only [List.append_assoc, List.cons_append, List.nil_append]
  rw [htext, h]

/-- Bounds with a step. -/
theorem readThen_by {a b c : List Char} (ha : IsBound (trim a)) (hb : IsBound (trim b))
    (hc : IsBound (trim c)) :
    Bounds.readThen loopBody?
        (' ' :: (a ++ (" TO ".toList ++ (b ++ (" BY ".toList ++ (c ++ " DO".toList))))))
      = some (⟨trim a, trim b, some (trim c)⟩, []) := by
  obtain ⟨v, w, hv, hw, hs⟩ := exists_trim_parts a
  obtain ⟨v', w', hv', hw', hs'⟩ := exists_trim_parts b
  obtain ⟨v'', w'', hv'', hw'', hs''⟩ := exists_trim_parts c
  have hgap := IsGap.behind hw''
  have hlast : Bounds.readLast loopBody? (trim a) (trim b ++ ((w' ++ [' ']) ++ ("BY".toList ++
      ((' ' :: v'') ++ (trim c ++ ((w'' ++ [' ']) ++ ("DO".toList ++ [])))))))
      = some (⟨trim (trim a), trim b, some (trim c)⟩, []) :=
    readLast_by hb.isPart hc.isPart (IsGap.behind hw') (IsGap.before hv'') (hgap.endsPart _)
      (loopBody?_do hgap rfl)
  rw [trim_trim, List.append_nil] at hlast
  have h := readThen_append ha.isPart (IsGap.before hv).blank (IsGap.behind hw) (IsGap.before hv')
    (hb.isPart.startsSolid _) hlast
  have htext : ' ' :: (a ++ (" TO ".toList ++ (b ++ (" BY ".toList ++ (c ++ " DO".toList)))))
      = (' ' :: v) ++ (trim a ++ ((w ++ [' ']) ++ ("TO".toList ++ ((' ' :: v') ++
          (trim b ++ ((w' ++ [' ']) ++ ("BY".toList ++ ((' ' :: v'') ++
            (trim c ++ ((w'' ++ [' ']) ++ "DO".toList)))))))))) := by
    have hto : " TO ".toList = ' ' :: ("TO".toList ++ [' ']) := rfl
    have hby : " BY ".toList = ' ' :: ("BY".toList ++ [' ']) := rfl
    have hdo : " DO".toList = ' ' :: "DO".toList := rfl
    conv_lhs => rw [← hs, ← hs', ← hs'', hto, hby, hdo]
    simp only [List.append_assoc, List.cons_append, List.nil_append]
  rw [htext, h]

theorem continuesName_of_startsName {c : Char} (h : startsName c = true) : continuesName c = true := by
  rw [continuesName, h]
  rfl

theorem not_blank_of_startsName {c : Char} (h : startsName c = true) : isBlank c = false := by
  refine Bool.eq_false_iff.mpr ?_
  intro hb
  have hname := not_continuesName_of_blank hb
  rw [continuesName_of_startsName h] at hname
  exact nomatch hname

/-- The name of a loop variable, which may name a member. -/
def IsLoopVariable (v : List Char) : Prop :=
  ∃ c t, v = c :: t ∧ startsName c = true ∧ ∀ d ∈ t, continuesCounter d = true

/-- A letter or an underscore, then letters, digits, underscores and dots. -/
theorem isLoopVariable_cons {c : Char} {t : List Char} (hc : (isLetter c || c = '_') = true)
    (ht : ∀ d ∈ t, isWordChar d = true ∨ d = '.') : IsLoopVariable (c :: t) := by
  refine ⟨c, t, rfl, ?_, ?_⟩
  · rw [Bool.or_eq_true] at hc
    rw [startsName, Bool.or_eq_true]
    exact hc.imp isFoldedLetter_of_letter id
  · intro d hd
    rcases ht d hd with hword | rfl
    · rw [continuesCounter, continuesName_of_wordChar hword]
      rfl
    · rfl

theorem isLoopVariable_of_identifier {v : List Char} (hv : isIdentifier v = true) :
    IsLoopVariable v := by
  cases v with
  | nil => exact nomatch hv
  | cons c t =>
      rw [isIdentifier, Bool.and_eq_true, List.all_eq_true] at hv
      exact isLoopVariable_cons hv.1 fun d hd => Or.inl (hv.2 d hd)

/-- **The header of a loop** is read as its variable and its bounds, and what follows its `DO` is the
    body. -/
theorem ForHeader.read?_append {counter r body : List Char} {bounds : Bounds}
    (hc : IsLoopVariable counter) (hr : Bounds.readThen loopBody? r = some (bounds, body)) :
    ForHeader.read? (' ' :: (counter ++ (" :=".toList ++ r)))
      = some ⟨counter, bounds, trim body⟩ := by
  obtain ⟨c, t, rfl, hstart, ht⟩ := hc
  have hcounter : ∀ d ∈ c :: t, continuesCounter d = true := by
    intro d hd
    rcases List.mem_cons.mp hd with rfl | hd
    · rw [continuesCounter, continuesName_of_startsName hstart]
      rfl
    · exact ht d hd
  -- the name ends at the blank before the assignment
  have htake : (c :: t ++ (" :=".toList ++ r)).takeWhile continuesCounter = c :: t := by
    rw [List.takeWhile_append_of_pos hcounter]
    show c :: t ++ [] = c :: t
    exact List.append_nil _
  have hdrop : (c :: t ++ (" :=".toList ++ r)).dropWhile continuesCounter = " :=".toList ++ r :=
    List.dropWhile_append_of_pos hcounter
  have hbounds : ForHeader.readBounds? (c :: t) (":=".toList ++ r)
      = some ⟨c :: t, bounds, trim body⟩ := by
    have hassign : dropPrefix? ":=".toList (":=".toList ++ r) = some r := rfl
    rw [ForHeader.readBounds?, hassign, Option.bind_some, hr]
    rfl
  have hsolid : StartsSolid (c :: t ++ (" :=".toList ++ r)) := by
    rw [StartsSolid, List.cons_append, List.head?_cons, Option.any_some]
    exact not_blank_of_startsName hstart
  have hassign : StartsSolid (":=".toList ++ r) := rfl
  have hhead : (c :: t ++ (" :=".toList ++ r)).head?.any startsName = true := hstart
  show blanks 1 _ ([' '] ++ (c :: t ++ (" :=".toList ++ r))) = _
  generalize c :: t ++ (" :=".toList ++ r) = s at htake hdrop hsolid hhead ⊢
  refine blanks_append_of_eq_some blank_space hsolid (Nat.le_refl 1) ?_
  rw [if_pos hhead, htake, hdrop]
  show blanks 0 _ ([' '] ++ (":=".toList ++ r)) = _
  exact blanks_append_of_eq_some blank_space hassign (Nat.zero_le 1) hbounds

end StLint.Statement
