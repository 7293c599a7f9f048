import StLint.Proofs.Pou.Label
import StLint.Proofs.Source.Line
import StLint.Proofs.Text.Folding
import StLint.Source.Declaration

/-!
# Unit declarations

A declaration is found on a line by its text alone: **white space at the end of the line does not
count**, and neither do blank lines in front of the source. The comment above it is looked up in the
source by line number, and moves with the source.

* `Declaration.ofLine?_trimEnd` — the end of a line does not count.
* `isLabelName_of_ofLine?` — a unit has a name that can stand in a scope label.
* `findDeclaration?_append_of_blank`, `findDeclaration?_map_shift` — where the declaration is found.
* `lt_length_of_findDeclaration?` — the declaration that is found is on one of the lines.
* `descriptionAbove?_newlines` — the description of a source that stands further down.
-/

namespace StLint.Source

open Text

/-! ## White space after a declaration -/

section Blank

variable {s w : List Char}

/-- The name after white space ends before white space. -/
private theorem blanks_name_append (s : List Char) (hw : ∀ c ∈ w, isBlank c = true) :
    (dropBlanks? (s ++ w)).bind takeName?
      = ((dropBlanks? s).bind takeName?).map fun (name, rest) => (name, rest ++ w) := by
  cases s with
  | nil =>
      cases w with
      | nil => rfl
      | cons c r =>
          show (if isBlank c = true then some (trimStart r) else none).bind takeName? = none
          rw [if_pos (hw c (List.mem_cons_self ..)),
            trimStart_eq_nil_iff.mpr fun d hd => hw d (List.mem_cons_of_mem c hd)]
          rfl
  | cons c r =>
      rw [List.cons_append, dropBlanks?, dropBlanks?]
      by_cases hc : isBlank c = true
      · rw [if_pos hc, if_pos hc, trimStart_append_of_blank_right r hw]
        show takeName? _ = (takeName? (trimStart r)).map _
        by_cases hr : trimStart r = []
        · rw [if_pos hr, hr]
          rfl
        · rw [if_neg hr, takeName?_append_of_blank _ hw]
      · rw [if_neg hc, if_neg hc]
        rfl

/-- What is left of a text before white space begins with the same character. -/
private theorem trimStart_append_eq_cons_iff (hw : ∀ c ∈ w, isBlank c = true) {d : Char}
    {t : List Char} : trimStart (s ++ w) = d :: t ↔ ∃ r, trimStart s = d :: r ∧ t = r ++ w := by
  rw [trimStart_append_of_blank_right s hw]
  by_cases hs : trimStart s = []
  · rw [if_pos hs, hs]
    constructor
    · intro h
      exact nomatch h
    · rintro ⟨r, h, -⟩
      exact nomatch h
  · rw [if_neg hs]
    obtain ⟨c, r, hcr⟩ := List.exists_cons_of_ne_nil hs
    rw [hcr, List.cons_append]
    constructor
    · intro h
      obtain ⟨rfl, rfl⟩ := List.cons.inj h
      exact ⟨r, rfl, rfl⟩
    · rintro ⟨r', h, rfl⟩
      obtain ⟨rfl, rfl⟩ := List.cons.inj h
      rfl

/-- A type with the bounds in brackets that may follow its name. -/
private def withBounds (name rest : List Char) : List Char :=
  match trimStart rest with
  | '[' :: bounds =>
    if bounds.contains ']' then
      name ++ rest.takeWhile isBlank ++ '[' :: bounds.takeWhile (· ≠ ']') ++ [']']
    else name
  | _ => name

private theorem withBounds_of_bracket {name rest bounds : List Char}
    (h : trimStart rest = '[' :: bounds) :
    withBounds name rest
      = if bounds.contains ']' then
          name ++ rest.takeWhile isBlank ++ '[' :: bounds.takeWhile (· ≠ ']') ++ [']']
        else name := by
  rw [withBounds, h]
  rfl

private theorem withBounds_of_not_bracket {name rest : List Char}
    (h : ∀ bounds, trimStart rest ≠ '[' :: bounds) : withBounds name rest = name := by
  rw [withBounds]
  split
  · rename_i bounds heq
    exact absurd heq (h bounds)
  · rfl

private theorem typeAnnotation?_of_colon {r : List Char} (h : trimStart s = ':' :: r) :
    typeAnnotation? s = (takeName? (trimStart r)).map fun x => withBounds x.1 x.2 := by
  rw [typeAnnotation?, h]
  rfl

private theorem typeAnnotation?_of_not_colon (h : ∀ r, trimStart s ≠ ':' :: r) :
    typeAnnotation? s = none := by
  rw [typeAnnotation?]
  split
  · rename_i r heq
    exact absurd heq (h r)
  · rfl

/-- Bounds end at a bracket, which comes before white space at the end. -/
private theorem withBounds_append (name rest : List Char) (hw : ∀ c ∈ w, isBlank c = true) :
    withBounds name (rest ++ w) = withBounds name rest := by
  by_cases h : ∃ bounds, trimStart rest = '[' :: bounds
  · obtain ⟨bounds, hb⟩ := h
    have hbracket : ']' ∉ w := fun h => absurd (hw _ h) (by decide)
    have hcontains : (bounds ++ w).contains ']' = bounds.contains ']' := by
      rw [Bool.eq_iff_iff]
      simp [hbracket]
    have hblanks : (rest ++ w).takeWhile isBlank = rest.takeWhile isBlank := by
      obtain ⟨v, hv, hvr⟩ := exists_append_trimStart rest
      rw [← hvr, hb, List.append_assoc, List.cons_append, List.takeWhile_append_of_pos hv,
        List.takeWhile_append_of_pos hv, List.takeWhile_cons_of_neg (by decide),
        List.takeWhile_cons_of_neg (by decide)]
    -- the bracket is found before the white space is reached
    have hbounds : bounds.contains ']' = true →
        (bounds ++ w).takeWhile (· ≠ ']') = bounds.takeWhile (· ≠ ']') := by
      intro hc
      rw [List.takeWhile_append, if_neg]
      intro hlen
      have hall := (List.takeWhile_sublist _).eq_of_length hlen
      rw [← hall, List.contains_iff_mem] at hc
      exact absurd (List.mem_takeWhile_imp hc) (by decide)
    rw [withBounds_of_bracket hb,
      withBounds_of_bracket ((trimStart_append_eq_cons_iff hw).mpr ⟨bounds, hb, rfl⟩),
      hcontains, hblanks]
    by_cases hc : bounds.contains ']' = true
    · rw [if_pos hc, if_pos hc, hbounds hc]
    · rw [if_neg hc, if_neg hc]
  · have hnot : ∀ bounds, trimStart rest ≠ '[' :: bounds := fun b hb => h ⟨b, hb⟩
    rw [withBounds_of_not_bracket hnot, withBounds_of_not_bracket]
    intro b hb
    obtain ⟨r, hr, -⟩ := (trimStart_append_eq_cons_iff hw).mp hb
    exact hnot r hr

/-- The type after a name ends before white space. -/
private theorem typeAnnotation?_append (s : List Char) (hw : ∀ c ∈ w, isBlank c = true) :
    typeAnnotation? (s ++ w) = typeAnnotation? s := by
  by_cases h : ∃ r, trimStart s = ':' :: r
  · obtain ⟨r, hr⟩ := h
    rw [typeAnnotation?_of_colon hr,
      typeAnnotation?_of_colon ((trimStart_append_eq_cons_iff hw).mpr ⟨r, hr, rfl⟩),
      trimStart_append_of_blank_right r hw]
    by_cases hnil : trimStart r = []
    · rw [if_pos hnil, hnil]
    · rw [if_neg hnil, takeName?_append_of_blank _ hw, Option.map_map]
      exact Option.map_congr fun x _ => withBounds_append x.1 x.2 hw
  · have hnot : ∀ r, trimStart s ≠ ':' :: r := fun r hr => h ⟨r, hr⟩
    rw [typeAnnotation?_of_not_colon hnot, typeAnnotation?_of_not_colon]
    intro b hb
    obtain ⟨r, hr, -⟩ := (trimStart_append_eq_cons_iff hw).mp hb
    exact hnot r hr

/-- A declaration by one of the keywords. -/
def declarationBy? (keyword : String) (s : List Char) :
    Option (List Char × List Char × Option (List Char)) :=
  (dropKeyword? keyword.toList s).bind fun rest =>
    ((dropBlanks? rest).bind takeName?).map fun x =>
      (s.take keyword.length, x.1, typeAnnotation? x.2)

theorem declarationAt?_eq (s : List Char) :
    declarationAt? s = unitKeywords.findSome? fun keyword => declarationBy? keyword s := by
  rw [declarationAt?]
  congr 1
  funext keyword
  show (dropKeyword? keyword.toList s).bind _ = (dropKeyword? keyword.toList s).bind _
  congr 1
  funext rest
  show (dropBlanks? rest).bind _ = ((dropBlanks? rest).bind takeName?).map _
  rw [Option.map_bind]
  congr 1
  funext r
  show (takeName? r).bind _ = (takeName? r).map _
  rw [Option.map_eq_bind]
  rfl

private theorem declarationBy?_append {keyword : String}
    (hk : ∀ k ∈ keyword.toList, isBlank k = false) (s : List Char)
    (hw : ∀ c ∈ w, isBlank c = true) :
    declarationBy? keyword (s ++ w) = declarationBy? keyword s := by
  rw [declarationBy?, declarationBy?, dropKeyword?_append_of_blank hk hw]
  cases hd : dropKeyword? keyword.toList s with
  | none => rfl
  | some rest =>
      have hlen : keyword.length ≤ s.length := by
        rw [← String.length_toList]
        exact length_le_of_dropKeyword? hd
      show ((dropBlanks? (rest ++ w)).bind takeName?).map _ = ((dropBlanks? rest).bind takeName?).map _
      rw [blanks_name_append rest hw, Option.map_map, List.take_append_of_le_length hlen]
      refine Option.map_congr ?_
      intro x _
      show (_, x.1, typeAnnotation? (x.2 ++ w)) = _
      rw [typeAnnotation?_append x.2 hw]

private theorem not_blank_of_mem_unitKeywords {keyword : String} (h : keyword ∈ unitKeywords) :
    ∀ c ∈ keyword.toList, isBlank c = false := by
  have hall : unitKeywords.all (fun k => k.toList.all fun c => !isBlank c) = true := by decide
  intro c hc
  have hblank := List.all_eq_true.mp (List.all_eq_true.mp hall keyword h) c hc
  rw [Bool.not_eq_true'] at hblank
  exact hblank

/-- Searches that agree on every element have the same first answer. -/
theorem findSome?_congr {α β : Type} {f g : α → Option β} {as : List α} (h : ∀ a ∈ as, f a = g a) :
    as.findSome? f = as.findSome? g := by
  induction as with
  | nil => rfl
  | cons a as ih =>
      rw [List.findSome?_cons, List.findSome?_cons, h a (List.mem_cons_self ..),
        ih fun b hb => h b (List.mem_cons_of_mem a hb)]

/-- A declaration at the start of a text is over before white space. -/
private theorem declarationAt?_append (s : List Char) (hw : ∀ c ∈ w, isBlank c = true) :
    declarationAt? (s ++ w) = declarationAt? s := by
  rw [declarationAt?_eq, declarationAt?_eq]
  exact findSome?_congr fun keyword hk =>
    declarationBy?_append (not_blank_of_mem_unitKeywords hk) s hw

private theorem declarationFrom?_append (prev : Option Char) (s : List Char)
    (hw : ∀ c ∈ w, isBlank c = true) :
    declarationFrom? prev (s ++ w) = declarationFrom? prev s := by
  induction s generalizing prev with
  | nil =>
      rw [List.nil_append]
      -- nothing but white space is left, where no declaration begins
      induction w generalizing prev with
      | nil => rfl
      | cons c r ih =>
          have hat : declarationAt? (c :: r) = none := declarationAt?_append [] hw
          rw [declarationFrom?, declarationFrom?, hat, ite_self]
          exact ih (fun d hd => hw d (List.mem_cons_of_mem c hd)) (some c)
  | cons c r ih =>
      rw [List.cons_append, declarationFrom?, declarationFrom?, ih, ← List.cons_append,
        declarationAt?_append (c :: r) hw]

end Blank

/-- **The end of a line does not count** for its declaration. -/
theorem Declaration.ofLine?_trimEnd (l : List Char) :
    Declaration.ofLine? (trimEnd l) = Declaration.ofLine? l := by
  obtain ⟨w, hw, hl⟩ := exists_trimEnd_append l
  rw [Declaration.ofLine?, Declaration.ofLine?]
  conv_rhs => rw [← hl, declarationFrom?_append none (trimEnd l) hw]

theorem Declaration.ofLine?_nil : Declaration.ofLine? [] = none := rfl

/-! ## Names -/

private theorem mem_name_of_declarationAt? {s keyword name : List Char} {type : Option (List Char)}
    (h : declarationAt? s = some (keyword, name, type)) :
    ∀ c ∈ name, continuesName c = true := by
  rw [declarationAt?_eq] at h
  obtain ⟨k, -, h⟩ := List.exists_of_findSome?_eq_some h
  rw [declarationBy?, Option.bind_eq_some_iff] at h
  obtain ⟨rest, -, h⟩ := h
  obtain ⟨x, hx, h⟩ := Option.map_eq_some_iff.mp h
  obtain ⟨r, -, hx⟩ := Option.bind_eq_some_iff.mp hx
  obtain ⟨-, h⟩ := Prod.mk.inj h
  obtain ⟨rfl, -⟩ := Prod.mk.inj h
  exact mem_name_of_takeName? hx

private theorem mem_name_of_declarationFrom? {prev : Option Char} {s keyword name : List Char}
    {type : Option (List Char)} (h : declarationFrom? prev s = some (keyword, name, type)) :
    ∀ c ∈ name, continuesName c = true := by
  induction s generalizing prev with
  | nil => exact nomatch h
  | cons c r ih =>
      rw [declarationFrom?] at h
      by_cases hp : wordMayStart prev = true
      · rw [if_pos hp] at h
        cases hat : declarationAt? (c :: r) with
        | none =>
            rw [hat] at h
            exact ih h
        | some d =>
            rw [hat] at h
            rw [Option.some.inj h] at hat
            exact mem_name_of_declarationAt? hat
      · rw [if_neg hp] at h
        exact ih h

/-- **A unit has a name that can stand in a scope label.** -/
theorem isLabelName_of_ofLine? {l : List Char} {d : Declaration}
    (h : Declaration.ofLine? l = some d) : IsLabelName (String.ofList d.name) := by
  rw [Declaration.ofLine?] at h
  obtain ⟨x, hx, h⟩ := Option.bind_eq_some_iff.mp h
  obtain ⟨kind, -, rfl⟩ := Option.map_eq_some_iff.mp h
  have hname := mem_name_of_declarationFrom? hx
  rw [IsLabelName, String.toList_ofList]
  exact ⟨fun h => absurd (hname _ h) (by decide), fun h => absurd (hname _ h) (by decide)⟩

/-! ## Where the declaration is found -/

/-- Blank lines in front are passed over. -/
theorem findDeclaration?_append_of_blank {p : List CodeLine} (hp : ∀ l ∈ p, l.text = [])
    (ls : List CodeLine) :
    findDeclaration? (p ++ ls) = (findDeclaration? ls).map fun (i, d) => (p.length + i, d) := by
  induction p with
  | nil => cases h : findDeclaration? ls <;> simp [h]
  | cons l p ih =>
      rw [List.cons_append, findDeclaration?, hp l (List.mem_cons_self ..),
        Declaration.ofLine?_nil, ih fun m hm => hp m (List.mem_cons_of_mem l hm)]
      show Option.map _ (Option.map _ _) = _
      rw [Option.map_map]
      refine Option.map_congr ?_
      intro x _
      show (p.length + x.1 + 1, x.2) = (p.length + 1 + x.1, x.2)
      rw [Nat.add_right_comm]

/-- The first declaration does not depend on the lines below it. -/
theorem findDeclaration?_append_of_some {ls ms : List CodeLine} {x : Nat × Declaration}
    (h : findDeclaration? ls = some x) : findDeclaration? (ls ++ ms) = some x := by
  induction ls generalizing x with
  | nil => exact nomatch h
  | cons l ls ih =>
      rw [findDeclaration?] at h
      rw [List.cons_append, findDeclaration?]
      cases hl : Declaration.ofLine? l.text with
      | some d =>
          rw [hl] at h
          exact h
      | none =>
          rw [hl] at h
          obtain ⟨y, hy, rfl⟩ := Option.map_eq_some_iff.mp h
          show (findDeclaration? (ls ++ ms)).map _ = _
          rw [ih hy]
          rfl

/-- Lines that stand further down hold the same declarations. -/
theorem findDeclaration?_map_shift (n : Nat) (ls : List CodeLine) :
    findDeclaration? (ls.map (CodeLine.shift n)) = findDeclaration? ls := by
  induction ls with
  | nil => rfl
  | cons l ls ih =>
      rw [List.map_cons, findDeclaration?, findDeclaration?, ih]
      rfl

/-- Apart from the index, the search goes through the texts of the lines. -/
theorem map_snd_findDeclaration? (ls : List CodeLine) :
    (findDeclaration? ls).map Prod.snd = ls.findSome? fun l => Declaration.ofLine? l.text := by
  induction ls with
  | nil => rfl
  | cons l ls ih =>
      rw [findDeclaration?, List.findSome?_cons, ← ih]
      cases Declaration.ofLine? l.text with
      | some d => rfl
      | none =>
          show Option.map _ (Option.map _ _) = _
          rw [Option.map_map]
          rfl

/-- **A blank source declares nothing.** -/
theorem findDeclaration?_codeLines_of_blank {source : List Char} (h : ∀ c ∈ source, isBlank c = true) :
    findDeclaration? (codeLines (normalizeLineEndings source)) = none := by
  have hline : ∀ l ∈ lines (stripComments (normalizeLineEndings source)),
      Declaration.ofLine? l = none := by
    intro l hl
    have hblank : ∀ c ∈ l, isBlank c = true := by
      intro c hc
      have hstrip := (mem_and_ne_of_mem_splitOn hl hc).1
      rw [stripComments, normalizeLineEndings_idem] at hstrip
      exact isBlank_normalizeLineEndings h c ((stripFrom_sublist .code _).subset hstrip)
    rw [← Declaration.ofLine?_trimEnd, trimEnd_eq_nil_iff.mpr hblank, Declaration.ofLine?_nil]
  rw [← Option.map_eq_none_iff (f := Prod.snd), map_snd_findDeclaration?, codeLines,
    findSome?_collapse Declaration.ofLine?_nil Declaration.ofLine?_trimEnd]
  exact List.findSome?_eq_none_iff.mpr hline

/-- The declaration that is found stands on one of the lines. -/
theorem exists_of_findDeclaration? {ls : List CodeLine} {i : Nat} {d : Declaration}
    (h : findDeclaration? ls = some (i, d)) :
    ∃ l, ls[i]? = some l ∧ Declaration.ofLine? l.text = some d := by
  induction ls generalizing i with
  | nil => exact nomatch h
  | cons l ls ih =>
      rw [findDeclaration?] at h
      cases hl : Declaration.ofLine? l.text with
      | some e =>
          rw [hl] at h
          obtain ⟨rfl, rfl⟩ := Prod.mk.inj (Option.some.inj h)
          exact ⟨l, rfl, hl⟩
      | none =>
          rw [hl] at h
          obtain ⟨⟨j, e⟩, hj, h⟩ := Option.map_eq_some_iff.mp h
          obtain ⟨rfl, rfl⟩ := Prod.mk.inj h
          exact ih hj

/-- **The index of the declaration is that of a line.** -/
theorem lt_length_of_findDeclaration? {ls : List CodeLine} {i : Nat} {d : Declaration}
    (h : findDeclaration? ls = some (i, d)) : i < ls.length := by
  obtain ⟨l, hl, -⟩ := exists_of_findDeclaration? h
  exact (List.getElem?_eq_some_iff.mp hl).1

/-! ## The description -/

/-- The description stands in the lines above the declaration. -/
theorem descriptionAbove?_congr {s t : List Char} {number : Nat}
    (h : (lines (normalizeLineEndings s)).take (number - 1)
      = (lines (normalizeLineEndings t)).take (number - 1)) :
    descriptionAbove? s number = descriptionAbove? t number := by
  rw [descriptionAbove?, descriptionAbove?, h]

/-- Empty lines at the top of a source describe nothing. -/
private theorem filter_commentsUpward_append (inBlock : Bool) (ls : List (List Char)) (n : Nat) :
    (commentsUpward inBlock (ls ++ List.replicate n [])).filter (!·.isEmpty)
      = (commentsUpward inBlock ls).filter (!·.isEmpty) := by
  induction ls generalizing inBlock with
  | nil =>
      rw [List.nil_append]
      -- at the top of the source: empty lines are passed over, or kept and filtered out
      induction n with
      | zero => rfl
      | succ n ih =>
          rw [List.replicate_succ]
          cases inBlock with
          | false => exact ih
          | true => exact ih
  | cons l ls ih =>
      rw [List.cons_append, commentsUpward, commentsUpward]
      cases inBlock with
      | true =>
          rw [if_pos rfl, if_pos rfl]
          cases find? "(*".toList (trim l) <;> simp only [List.filter_cons, ih]
      | false =>
          rw [if_neg Bool.false_ne_true, if_neg Bool.false_ne_true]
          by_cases ht : (trim l).isEmpty = true
          · rw [if_pos ht, if_pos ht, ih]
          rw [if_neg ht, if_neg ht]
          cases dropPrefix? "//".toList (trim l) with
          | some text => simp only [List.filter_cons, ih]
          | none =>
              dsimp only
              cases (dropPrefix? "(*".toList (trim l)).bind (dropSuffix? "*)".toList) with
              | some text => simp only [List.filter_cons, ih]
              | none =>
                  dsimp only
                  cases dropSuffix? "*)".toList (trim l) with
                  | some text => simp only [List.filter_cons, ih]
                  | none => rfl

/-- **The description of a source that stands further down** is the same. -/
theorem descriptionAbove?_newlines (n : Nat) (s : List Char) {number : Nat} (hn : 0 < number) :
    descriptionAbove? (List.replicate n '\n' ++ s) (number + n) = descriptionAbove? s number := by
  have htake : (List.replicate n [] ++ lines (normalizeLineEndings s)).take (number + n - 1)
      = List.replicate n [] ++ (lines (normalizeLineEndings s)).take (number - 1) := by
    rw [show number + n - 1 = (List.replicate n ([] : List Char)).length + (number - 1) by
      rw [List.length_replicate]
      omega]
    exact List.take_length_add_append ..
  rw [descriptionAbove?, descriptionAbove?, normalizeLineEndings_replicate_newline_append,
    lines_replicate_newline_append, htake, List.reverse_append, List.reverse_replicate,
    List.filter_reverse, List.filter_reverse, filter_commentsUpward_append]

end StLint.Source
