import StLint.Proofs.Analysis.Selection
import StLint.Proofs.Pou.Label

/-!
# Findings that share an id

The id of a finding is a digest of one text: its type, its units joined by commas, its line, its title
and its description, with bars between them. **A bar or a comma that belongs to a field is written like
one that ends it**, so two findings may have one text, and then they have one id, whatever the digest.

* `IssueKey.eq_of_text_eq` — the text gives the finding back together with `IssueKey.marks`, the
  numbers of bars and commas inside the fields. No digest is involved.
* `IssueKey.IsPlain` — no separator stands where one is misread: two plain findings with one text are
  one.
* `IssueKey.isUnmistakable_iff` — which findings share their text with no other one at all.
* `Issue.id_separates` — the same for ids, of two issues whose digests do not collide.
* `Engine.nodup_id_select` — the ids of a report on plain findings are different.
-/

namespace StLint

open Text

/-! ## Texts that are joined -/

section Joined

variable {c : Char}

theorem count_eq_of_notMem {a b : List Char} (ha : c ∉ a) (hb : c ∉ b) : a.count c = b.count c := by
  rw [List.count_eq_zero.mpr ha, List.count_eq_zero.mpr hb]

/-- **A text is cut in one way at a separator with a given number of separators before it.** -/
theorem append_cons_inj_of_count {a a' b b' : List Char} (hcount : a.count c = a'.count c)
    (h : a ++ c :: b = a' ++ c :: b') : a = a' ∧ b = b' := by
  induction a generalizing a' with
  | nil =>
      cases a' with
      | nil => exact ⟨rfl, (List.cons.inj h).2⟩
      | cons x a' =>
          obtain ⟨rfl, -⟩ := List.cons.inj h
          rw [List.count_nil, List.count_cons_self] at hcount
          omega
  | cons x a ih =>
      cases a' with
      | nil =>
          obtain ⟨rfl, -⟩ := List.cons.inj h
          rw [List.count_nil, List.count_cons_self] at hcount
          omega
      | cons y a' =>
          obtain ⟨rfl, htail⟩ := List.cons.inj h
          have hrest : a.count c = a'.count c := by
            rw [List.count_cons, List.count_cons] at hcount
            omega
          obtain ⟨rfl, hb⟩ := ih hrest htail
          exact ⟨rfl, hb⟩

/-- A text is cut at one separator or at two of them. -/
theorem append_cons_eq_append_cons {a a' b b' : List Char} (h : a ++ c :: b = a' ++ c :: b') :
    a = a' ∨ (∃ m, a = a' ++ c :: m ∧ b' = m ++ c :: b) ∨ ∃ m, a' = a ++ c :: m ∧ b = m ++ c :: b' := by
  rcases List.append_eq_append_iff.mp h with ⟨m, hm, hrest⟩ | ⟨m, hm, hrest⟩
  · cases m with
    | nil => exact Or.inl (by rw [hm, List.append_nil])
    | cons d m =>
        obtain ⟨rfl, hb⟩ := List.cons.inj hrest
        exact Or.inr (Or.inr ⟨m, hm, hb⟩)
  · cases m with
    | nil => exact Or.inl (by rw [hm, List.append_nil])
    | cons d m =>
        obtain ⟨rfl, hb⟩ := List.cons.inj hrest
        exact Or.inr (Or.inl ⟨m, hm, hb⟩)

/-- Two lists of texts with the same separators in each text are joined to different texts. -/
theorem intercalate_inj_of_count {xs ys : List (List Char)}
    (hcount : xs.map (List.count c) = ys.map (List.count c))
    (h : [c].intercalate xs = [c].intercalate ys) : xs = ys := by
  induction xs generalizing ys with
  | nil => exact (List.map_eq_nil_iff.mp hcount.symm).symm
  | cons x xs ih =>
      cases ys with
      | nil => exact absurd hcount (List.cons_ne_nil _ _)
      | cons y ys =>
          obtain ⟨hx, hxs⟩ := List.cons.inj hcount
          cases xs with
          | nil =>
              obtain rfl : ys = [] := List.map_eq_nil_iff.mp hxs.symm
              rw [List.intercalate_singleton, List.intercalate_singleton] at h
              rw [h]
          | cons x' xs =>
              cases ys with
              | nil => exact absurd hxs (List.cons_ne_nil _ _)
              | cons y' ys =>
                  rw [List.intercalate_cons_cons, List.intercalate_cons_cons, List.append_assoc,
                    List.append_assoc] at h
                  obtain ⟨rfl, hrest⟩ := append_cons_inj_of_count hx h
                  rw [ih hxs hrest]

/-- A text without separators is joined from itself alone, unless it is empty. -/
theorem eq_singleton_of_intercalate_eq {x : List Char} {ys : List (List Char)} (hc : c ∉ x)
    (hne : x ≠ []) (h : [c].intercalate ys = x) : ys = [x] := by
  cases ys with
  | nil => exact absurd h.symm hne
  | cons y ys =>
      cases ys with
      | nil => rw [← h, List.intercalate_singleton]
      | cons z ys =>
          rw [List.intercalate_cons_cons] at h
          refine absurd ?_ hc
          rw [← h]
          simp

/-- Only no text at all and the empty text alone are joined to the empty text. -/
theorem eq_of_intercalate_eq_nil {ys : List (List Char)} (h : [c].intercalate ys = []) :
    ys = [] ∨ ys = [[]] := by
  cases ys with
  | nil => exact Or.inl rfl
  | cons y ys =>
      cases ys with
      | nil => exact Or.inr (by rw [← h, List.intercalate_singleton])
      | cons z ys =>
          rw [List.intercalate_cons_cons] at h
          simp at h

/-- **Texts without separators are joined to different texts**, apart from no text and an empty
    one. -/
theorem intercalate_inj_of_notMem {xs ys : List (List Char)} (hx : ∀ x ∈ xs, c ∉ x)
    (hy : ∀ y ∈ ys, c ∉ y) (hxs : xs ≠ [[]]) (hys : ys ≠ [[]])
    (h : [c].intercalate xs = [c].intercalate ys) : xs = ys := by
  by_cases hxnil : xs = []
  · subst hxnil
    exact ((eq_of_intercalate_eq_nil h.symm).resolve_right hys).symm
  by_cases hynil : ys = []
  · subst hynil
    exact absurd ((eq_of_intercalate_eq_nil h).resolve_right hxs) hxnil
  rw [← List.splitOn_intercalate c hx hxnil, h, List.splitOn_intercalate c hy hynil]

/-- What is in no text and is not the separator is not in the joined text. -/
theorem not_mem_intercalate {d : Char} {xs : List (List Char)} (hd : d ≠ c) (hx : ∀ x ∈ xs, d ∉ x) :
    d ∉ [c].intercalate xs := by
  induction xs with
  | nil => exact List.not_mem_nil
  | cons x xs ih =>
      have hrest := ih fun y hy => hx y (List.mem_cons_of_mem _ hy)
      cases xs with
      | nil => rw [List.intercalate_singleton]; exact hx x List.mem_cons_self
      | cons y ys =>
          rw [List.intercalate_cons_cons, List.mem_append, List.mem_append, List.mem_singleton]
          rintro ((hmem | rfl) | hmem)
          · exact hx x List.mem_cons_self hmem
          · exact hd rfl
          · exact hrest hmem

end Joined

/-! ## The text of a finding -/

theorem IssueType.word_inj {s t : IssueType} (h : s.word = t.word) : s = t := by
  cases s <;> cases t <;> first | rfl | exact absurd h (by decide)

theorem IssueType.bar_notMem_word (t : IssueType) : '|' ∉ t.word.toList := by
  cases t <;> decide

namespace IssueKey

/-- The units of a finding as they stand in its text. -/
def unitsText (k : IssueKey) : List Char := [','].intercalate (k.unitNames.map String.toList)

theorem unitsText_of_singleton {k : IssueKey} {n : String} (h : k.unitNames = [n]) :
    k.unitsText = n.toList := by
  rw [unitsText, h, List.map_singleton, List.intercalate_singleton]

/-- The line of a finding as it stands in its text. -/
def lineText (line : Option Nat) : List Char := ((line.map toString).getD "").toList

theorem lineText_inj {m n : Option Nat} (h : lineText m = lineText n) : m = n := by
  have htext := String.toList_inj.mp h
  cases m with
  | none =>
      cases n with
      | none => rfl
      | some n => exact absurd htext.symm Nat.repr_ne_empty
  | some m =>
      cases n with
      | none => exact absurd htext Nat.repr_ne_empty
      | some n =>
          have hrepr : m.repr = n.repr := htext
          have hdigits : Nat.toDigits 10 m = Nat.toDigits 10 n := by
            rw [← Nat.toList_repr, ← Nat.toList_repr, hrepr]
          rw [← Nat.ofDigitChars_ten_toDigits (n := m), hdigits, Nat.ofDigitChars_ten_toDigits]

theorem bar_notMem_lineText (line : Option Nat) : '|' ∉ lineText line := by
  cases line with
  | none => exact List.not_mem_nil
  | some n => exact not_mem_toString (by decide) n

/-- What follows the units in the text of a finding. -/
def tailText (k : IssueKey) : List Char :=
  lineText k.line ++ '|' :: (k.title.toList ++ '|' :: k.description.toList)

/-- The text of a finding: five fields with bars between them. -/
theorem toList_text (k : IssueKey) :
    k.text.toList = k.type.word.toList ++ '|' :: (k.unitsText ++ '|' :: k.tailText) := by
  rw [text, String.toList_intercalate, List.map_cons, List.map_cons, List.map_cons, List.map_cons,
    List.map_cons, List.map_nil, String.toList_intercalate]
  simp only [List.intercalate_cons_cons, List.intercalate_singleton, List.append_assoc]
  rfl

/-- Findings with one text have one type, and the same text behind it. -/
theorem text_eq_iff {k l : IssueKey} : k.text = l.text ↔
    k.type = l.type ∧ k.unitsText ++ '|' :: k.tailText = l.unitsText ++ '|' :: l.tailText := by
  rw [← String.toList_inj, toList_text, toList_text]
  constructor
  · intro h
    obtain ⟨hword, hrest⟩ := append_cons_inj_of_count
      (count_eq_of_notMem k.type.bar_notMem_word l.type.bar_notMem_word) h
    exact ⟨IssueType.word_inj (String.toList_inj.mp hword), hrest⟩
  · rintro ⟨htype, hrest⟩
    rw [htype, hrest]

theorem count_tailText (k : IssueKey) : k.tailText.count '|' =
    k.title.toList.count '|' + k.description.toList.count '|' + 2 := by
  rw [tailText, List.count_append, List.count_eq_zero.mpr (bar_notMem_lineText _),
    List.count_cons_self, List.count_append, List.count_cons_self]
  omega

/-- **The numbers of bars in the units and in the title settle where the fields end.** -/
theorem fields_eq_of_text_eq {k l : IssueKey} (h : k.text = l.text)
    (hunits : k.unitsText.count '|' = l.unitsText.count '|')
    (htitle : k.title.toList.count '|' = l.title.toList.count '|') :
    k.type = l.type ∧ k.unitsText = l.unitsText ∧ k.line = l.line ∧ k.title = l.title ∧
      k.description = l.description := by
  obtain ⟨htype, hrest⟩ := text_eq_iff.mp h
  obtain ⟨hunitsText, hrest⟩ := append_cons_inj_of_count hunits hrest
  obtain ⟨hlineText, hrest⟩ := append_cons_inj_of_count
    (count_eq_of_notMem (bar_notMem_lineText k.line) (bar_notMem_lineText l.line)) hrest
  obtain ⟨htitleText, hdescription⟩ := append_cons_inj_of_count htitle hrest
  exact ⟨htype, hunitsText, lineText_inj hlineText, String.toList_inj.mp htitleText,
    String.toList_inj.mp hdescription⟩

/-- Findings that agree on the names of the units and on all other fields are one. -/
theorem eq_of_fields_eq {k l : IssueKey} (hnames : k.unitNames.map String.toList =
      l.unitNames.map String.toList)
    (h : k.type = l.type ∧ k.unitsText = l.unitsText ∧ k.line = l.line ∧ k.title = l.title ∧
      k.description = l.description) : k = l := by
  obtain ⟨htype, -, hline, htitle, hdescription⟩ := h
  have hunits : k.unitNames = l.unitNames :=
    List.map_injective_iff.mpr (fun _ _ hs => String.toList_inj.mp hs) hnames
  cases k
  cases l
  simp only at htype hunits hline htitle hdescription
  subst htype hunits hline htitle hdescription
  rfl

/-! ## Which texts are misread -/

/-- The separators that are not read as separators: the bars in the units, the commas in the name of
    each unit and the bars in the title. -/
def marks (k : IssueKey) : Nat × List Nat × Nat :=
  (k.unitsText.count '|', k.unitNames.map fun n => n.toList.count ',', k.title.toList.count '|')

/-- **A text and the marks inside its fields are those of one finding.** -/
theorem eq_of_text_eq {k l : IssueKey} (h : k.text = l.text) (hmarks : k.marks = l.marks) : k = l := by
  obtain ⟨hunits, hmarks⟩ := Prod.mk.inj hmarks
  obtain ⟨hcommas, htitle⟩ := Prod.mk.inj hmarks
  have hfields := fields_eq_of_text_eq h hunits htitle
  refine eq_of_fields_eq (intercalate_inj_of_count ?_ hfields.2.1) hfields
  rw [List.map_map, List.map_map]
  exact hcommas

/-- A finding without a separator in its units and in its title, and not about one unit without a
    name. -/
structure IsPlain (k : IssueKey) : Prop where
  units : ∀ n ∈ k.unitNames, ',' ∉ n.toList ∧ '|' ∉ n.toList
  named : k.unitNames ≠ [""]
  title : '|' ∉ k.title.toList

namespace IsPlain

variable {k l : IssueKey}

theorem comma_notMem (h : k.IsPlain) : ∀ n ∈ k.unitNames.map String.toList, ',' ∉ n := by
  intro n hn
  obtain ⟨m, hm, rfl⟩ := List.mem_map.mp hn
  exact (h.units m hm).1

theorem names_ne (h : k.IsPlain) : k.unitNames.map String.toList ≠ [[]] := by
  intro hnames
  obtain ⟨n, hn, hempty⟩ := List.map_eq_singleton_iff.mp hnames
  rw [String.toList_eq_nil_iff.mp hempty] at hn
  exact h.named hn

theorem count_unitsText (h : k.IsPlain) : k.unitsText.count '|' = 0 := by
  refine List.count_eq_zero.mpr (not_mem_intercalate (by decide) ?_)
  intro n hn
  obtain ⟨m, hm, rfl⟩ := List.mem_map.mp hn
  exact (h.units m hm).2

/-- **Two plain findings with one text are one.** -/
theorem eq_of_text_eq (hk : k.IsPlain) (hl : l.IsPlain) (h : k.text = l.text) : k = l := by
  have hunits : k.unitsText.count '|' = l.unitsText.count '|' := by
    rw [hk.count_unitsText, hl.count_unitsText]
  have hfields := fields_eq_of_text_eq h hunits (count_eq_of_notMem hk.title hl.title)
  refine eq_of_fields_eq ?_ hfields
  exact intercalate_inj_of_notMem hk.comma_notMem hl.comma_notMem hk.names_ne hl.names_ne hfields.2.1

end IsPlain

/-- A finding about one unit, with a name that is not empty and holds no comma and no line between two
    bars (the bar behind the name is one), and without bars in its title and its description. -/
structure IsUnmistakable (k : IssueKey) : Prop where
  unit : ∃ n, k.unitNames = [n] ∧ n ≠ "" ∧ ',' ∉ n.toList ∧
    ∀ line, ¬ '|' :: lineText line ++ ['|'] <:+: n.toList ++ ['|']
  title : '|' ∉ k.title.toList
  description : '|' ∉ k.description.toList

namespace IsUnmistakable

variable {k l : IssueKey}

/-- A finding with the same text has the same units. -/
theorem unitsText_eq (h : k.IsUnmistakable) (htext : k.text = l.text) :
    k.unitsText = l.unitsText := by
  obtain ⟨n, hnames, -, -, hline⟩ := h.unit
  have hn := unitsText_of_singleton hnames
  rcases append_cons_eq_append_cons (text_eq_iff.mp htext).2 with heq | ⟨m, hm, htail⟩ | ⟨m, -, htail⟩
  · exact heq
  · -- the name goes on behind the units of `l`, so it holds the line of `l` between two bars
    exfalso
    refine hline l.line ?_
    rw [← hn, hm]
    rcases append_cons_eq_append_cons htail with heq | ⟨r, hr, -⟩ | ⟨r, hr, -⟩
    · exact ⟨l.unitsText, [], by rw [heq]; simp⟩
    · exact absurd (by rw [hr]; simp) (bar_notMem_lineText l.line)
    · exact ⟨l.unitsText, r ++ ['|'], by rw [hr]; simp⟩
  · -- the units of `l` go on behind the name, and too few bars are left behind them
    have hcount := congrArg (List.count '|') htail
    rw [count_tailText, List.count_append, List.count_cons_self, count_tailText,
      List.count_eq_zero.mpr h.title, List.count_eq_zero.mpr h.description] at hcount
    omega

/-- **No other finding has the text of an unmistakable one.** -/
theorem eq_of_text_eq (h : k.IsUnmistakable) (htext : k.text = l.text) : k = l := by
  have hunits := h.unitsText_eq htext
  obtain ⟨n, hnames, hne, hcomma, -⟩ := h.unit
  have hn := unitsText_of_singleton hnames
  have hlnames : l.unitNames.map String.toList = [n.toList] :=
    eq_singleton_of_intercalate_eq hcomma (mt String.toList_eq_nil_iff.mp hne)
      (hunits.symm.trans hn)
  have htitle : k.title.toList.count '|' = l.title.toList.count '|' := by
    have htail := (text_eq_iff.mp htext).2
    rw [hunits] at htail
    have hcount := congrArg (List.count '|') (List.cons.inj (List.append_cancel_left htail)).2
    rw [count_tailText, count_tailText, List.count_eq_zero.mpr h.title,
      List.count_eq_zero.mpr h.description] at hcount
    rw [List.count_eq_zero.mpr h.title]
    omega
  refine eq_of_fields_eq ?_ (fields_eq_of_text_eq htext (by rw [hunits]) htitle)
  rw [hlnames, hnames, List.map_singleton]

end IsUnmistakable

/-- A plain finding about one unit is unmistakable, unless its description holds a bar. -/
theorem IsPlain.isUnmistakable {k : IssueKey} (h : k.IsPlain) {n : String} (hn : k.unitNames = [n])
    (hdescription : '|' ∉ k.description.toList) : k.IsUnmistakable := by
  obtain ⟨hcomma, hbar⟩ := h.units n (hn ▸ List.mem_singleton_self n)
  refine ⟨⟨n, hn, ?_, hcomma, ?_⟩, h.title, hdescription⟩
  · rintro rfl
    exact h.named hn
  · intro line hinfix
    have hle := hinfix.sublist.count_le '|'
    simp [List.count_append, List.count_eq_zero.mpr hbar] at hle

/-! ### A finding that can be misread -/

section Unique

variable {k : IssueKey} (h : ∀ l : IssueKey, k.text = l.text → k = l)

include h

theorem unitNames_eq_of_unique {names : List String}
    (hnames : k.unitsText = [','].intercalate (names.map String.toList)) : k.unitNames = names := by
  have hkey := h { k with unitNames := names } (text_eq_iff.mpr ⟨rfl, by rw [hnames]; rfl⟩)
  exact congrArg unitNames hkey

theorem title_eq_of_unique (title description : List Char)
    (htail : k.title.toList ++ '|' :: k.description.toList = title ++ '|' :: description) :
    k.title.toList = title := by
  have hkey := h { k with title := .ofList title, description := .ofList description } <| by
    refine text_eq_iff.mpr ⟨rfl, ?_⟩
    simp only [tailText, unitsText, String.toList_ofList, htail]
  rw [congrArg IssueKey.title hkey, String.toList_ofList]

/-- A finding that shares its text with no other one is unmistakable. -/
theorem isUnmistakable_of_unique : k.IsUnmistakable := by
  have hnames : k.unitNames = [.ofList k.unitsText] := unitNames_eq_of_unique h <| by
    rw [List.map_singleton, String.toList_ofList, List.intercalate_singleton]
  refine ⟨⟨_, hnames, ?_, ?_, ?_⟩, ?_, ?_⟩
  · intro hempty
    have hnone : k.unitNames = [] := unitNames_eq_of_unique h (String.ofList_eq_empty_iff.mp hempty)
    rw [hnone] at hnames
    exact absurd hnames (List.cons_ne_nil _ _).symm
  · rw [String.toList_ofList]
    intro hcomma
    obtain ⟨a, b, hab⟩ := List.append_of_mem hcomma
    have htwo : k.unitNames = [.ofList a, .ofList b] := unitNames_eq_of_unique h (by rw [hab]; simp)
    rw [htwo] at hnames
    exact absurd (List.cons.inj hnames).2 (List.cons_ne_nil _ _)
  · rw [String.toList_ofList]
    rintro line ⟨a, b, hab⟩
    -- the line between the bars is the line of another finding, about what stands before it
    have hkey := h ⟨k.type, .ofList (b ++ lineText k.line),
      .ofList (k.title.toList ++ '|' :: k.description.toList), [.ofList a], line⟩ <| by
        refine text_eq_iff.mpr ⟨rfl, ?_⟩
        have hcut := congrArg (· ++ k.tailText) hab
        simp only [List.append_assoc, List.cons_append, List.nil_append] at hcut
        simp only [unitsText, tailText, List.map_singleton, List.intercalate_singleton,
          String.toList_ofList, List.append_assoc] at hcut ⊢
        exact hcut.symm
    have hshort : k.unitsText = a := by
      have hname := hnames.symm.trans (congrArg unitNames hkey)
      exact String.ofList_inj.mp (List.cons.inj hname).1
    have hlength := congrArg List.length hab
    rw [hshort] at hlength
    simp at hlength
  · intro hbar
    obtain ⟨a, b, hab⟩ := List.append_of_mem hbar
    have htitle := title_eq_of_unique h a (b ++ '|' :: k.description.toList) (by rw [hab]; simp)
    have hlength := congrArg List.length (hab.symm.trans htitle)
    simp at hlength
  · intro hbar
    obtain ⟨a, b, hab⟩ := List.append_of_mem hbar
    have htitle := title_eq_of_unique h (k.title.toList ++ '|' :: a) b (by rw [hab]; simp)
    have hlength := congrArg List.length htitle
    simp at hlength

end Unique

/-- **A finding shares its text with no other one exactly if it is unmistakable.** -/
theorem isUnmistakable_iff {k : IssueKey} :
    k.IsUnmistakable ↔ ∀ l : IssueKey, k.text = l.text → k = l :=
  ⟨fun h _ htext => h.eq_of_text_eq htext, isUnmistakable_of_unique⟩

/-! ## Ids -/

/-- The digits of its digest that the id of a finding keeps. -/
def digits (k : IssueKey) : List Char := (Sha256.hex k.text).toList.take idDigits

/-- The digests of two findings do not collide: the digits that the ids keep tell their texts apart. -/
def DigestSeparates (k l : IssueKey) : Prop := k.digits = l.digits → k.text = l.text

/-- One text has one id, whatever the digest. -/
theorem idWith_congr {k l : IssueKey} (h : k.text = l.text) (digest : String → String) :
    k.idWith digest = l.idWith digest := by
  rw [idWith, idWith, h]

theorem id_eq_iff {k l : IssueKey} : k.id = l.id ↔ k.digits = l.digits := by
  rw [id, id, idWith, idWith, String.append_right_inj, String.ofList_inj]
  rfl

/-- **Two findings whose digests do not collide have one id exactly if they have one text.** -/
theorem DigestSeparates.id_eq_iff {k l : IssueKey} (h : k.DigestSeparates l) :
    k.id = l.id ↔ k.text = l.text :=
  ⟨fun hid => h (IssueKey.id_eq_iff.mp hid), fun htext => idWith_congr htext Sha256.hex⟩

end IssueKey

namespace Issue

/-- **Which issues an id separates.** Of two issues whose digests do not collide: one id and the same
    separators inside the fields make them one finding, and nothing less does; and if both are plain,
    the id is enough. No other finding at all has the id of an issue exactly if the issue is
    unmistakable. -/
theorem id_separates (a b : Issue) (hdigest : a.key.DigestSeparates b.key) :
    (a.key = b.key ↔ a.key.id = b.key.id ∧ a.key.marks = b.key.marks) ∧
      (a.key.IsPlain → b.key.IsPlain → a.key.id = b.key.id → a.key = b.key) ∧
      (a.key.IsUnmistakable ↔
        ∀ c : Issue, a.key.DigestSeparates c.key → a.key.id = c.key.id → a.key = c.key) := by
  refine ⟨⟨?_, ?_⟩, ?_, ⟨?_, ?_⟩⟩
  · intro hkey
    rw [hkey]
    exact ⟨rfl, rfl⟩
  · rintro ⟨hid, hmarks⟩
    exact IssueKey.eq_of_text_eq (hdigest.id_eq_iff.mp hid) hmarks
  · intro ha hb hid
    exact ha.eq_of_text_eq hb (hdigest.id_eq_iff.mp hid)
  · intro ha c hc hid
    exact ha.eq_of_text_eq (hc.id_eq_iff.mp hid)
  · intro hseparates
    rw [IssueKey.isUnmistakable_iff]
    intro l htext
    -- every key is that of an issue, and equal texts need no assumption on the digest
    have hl : IssueKey.DigestSeparates a.key l := fun _ => htext
    exact hseparates (.found l.type .info l.title l.description l.unitNames l.line "" 0) hl
      (hl.id_eq_iff.mpr htext)

/-- A suggestion with a bar in its title. -/
def barInTitle : Issue :=
  .found .potentialImprovement .info "Split a|b" "c" ["A"] none "s" 0.6

/-- A suggestion with the same words and the bar in its description. -/
def barInDescription : Issue :=
  .found .potentialImprovement .info "Split a" "b|c" ["A"] none "s" 0.6

/-- **Two findings have one id, whatever the digest**, when a bar moves from the title to the
    description. -/
theorem id_of_moved_bar : barInTitle.key ≠ barInDescription.key ∧
    barInTitle.key.id = barInDescription.key.id ∧
    ∀ digest, barInTitle.key.idWith digest = barInDescription.key.idWith digest := by
  have htext : barInTitle.key.text = barInDescription.key.text := by decide
  exact ⟨by decide, IssueKey.idWith_congr htext Sha256.hex, IssueKey.idWith_congr htext⟩

/-- A loop that never runs, found on a line. -/
def idleLoop (line : Nat) : Issue :=
  .found .logicError .warning "Loop never executes" "d" ["Main"] (some line) "" 0.9

theorem isPlain_idleLoop (line : Nat) : (idleLoop line).key.IsPlain where
  units := by
    intro n hn
    obtain rfl := List.mem_singleton.mp hn
    decide
  named := by
    intro h
    exact absurd (List.cons.inj h).1 (by decide)
  title := by
    show '|' ∉ "Loop never executes".toList
    decide

/-- The same loop on two lines has two ids, and the separators tell the two suggestions with one id
    apart. -/
theorem id_separates_idleLoop :
    (idleLoop 5).key.IsPlain ∧ (idleLoop 6).key.IsPlain ∧ (idleLoop 5).key.IsUnmistakable ∧
      (idleLoop 5).key.DigestSeparates (idleLoop 6).key ∧ (idleLoop 5).key.id ≠ (idleLoop 6).key.id ∧
      barInTitle.key.DigestSeparates barInDescription.key ∧
      barInTitle.key.marks ≠ barInDescription.key.marks := by
  have hlines : (idleLoop 5).key.DigestSeparates (idleLoop 6).key := by
    intro hdigits
    have hne : (idleLoop 5).key.digits ≠ (idleLoop 6).key.digits := by decide +kernel
    exact absurd hdigits hne
  have hbars : barInTitle.key.DigestSeparates barInDescription.key := fun _ => by decide
  obtain ⟨-, hplain, -⟩ := id_separates (idleLoop 5) (idleLoop 6) hlines
  obtain ⟨hmarks, -, -⟩ := id_separates barInTitle barInDescription hbars
  have hunmistakable : (idleLoop 5).key.IsUnmistakable :=
    (isPlain_idleLoop 5).isUnmistakable rfl (by show '|' ∉ "d".toList; decide)
  refine ⟨isPlain_idleLoop 5, isPlain_idleLoop 6, hunmistakable, hlines, ?_, hbars, ?_⟩
  · intro hid
    exact absurd (hplain (isPlain_idleLoop 5) (isPlain_idleLoop 6) hid) (by decide)
  · intro heq
    have hid : barInTitle.key.id = barInDescription.key.id := hbars.id_eq_iff.mpr (by decide)
    exact absurd (hmarks.mpr ⟨hid, heq⟩) (by decide)

end Issue

/-! ## The ids of a report -/

/-- **The ids of a report are different**, if the findings are plain and their digests do not
    collide. -/
theorem Engine.nodup_id_select (e : Engine) (request : AnalysisRequest) {found : List Issue}
    (hplain : ∀ i ∈ found, i.key.IsPlain)
    (hdigest : ∀ i ∈ found, ∀ j ∈ found, i.key.DigestSeparates j.key) :
    ((e.select request found).map Issue.id).Nodup := by
  obtain ⟨places, -, hselect⟩ := e.takes_select request found
  have hkeys := e.nodup_key_select request found
  rw [hselect, List.map_map] at hkeys ⊢
  refine List.pairwise_map.mpr ((List.pairwise_map.mp hkeys).imp ?_)
  intro m n hne hid
  have hm : found[m] ∈ found := List.getElem_mem m.isLt
  have hn : found[n] ∈ found := List.getElem_mem n.isLt
  have htext : found[m].key.text = found[n].key.text := (hdigest _ hm _ hn).id_eq_iff.mp hid
  have hkey : found[m].key = found[n].key := (hplain _ hm).eq_of_text_eq (hplain _ hn) htext
  exact hne hkey

end StLint
