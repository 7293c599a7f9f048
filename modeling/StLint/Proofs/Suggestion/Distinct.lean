import StLint.Proofs.Pou.Trace
import StLint.Proofs.Section.Overwrite
import StLint.Suggestion.Rules

/-!
# Suggestions that are made twice

The suggestions about a unit are cut off at a number of them, so one that is made twice takes the place of
another. Of the numbers in a condition only those that follow each other are taken for one. **A number that
is compared again behind another one is reported again**, and so is what stands twice on one line.

* `IsGrouped`, `nodup_dropRepeats_iff` — what is left of a list where repeats in a row are dropped.
* `Rules.SuggestsOnce` — the suggestions about a unit are pairwise different.
* `Rules.suggestsOnce_iff` — rule by rule, for any unit.
* `Rules.suggestsOnce_parse_iff` — for the units that are read from sources.
-/

namespace StLint

open Text

namespace Rules

/-! ## Repeats in a row -/

section Repeats

variable {α : Type} {a b : α} {l m : List α}

/-- Between equal elements there are no others. -/
def IsGrouped (l : List α) : Prop := ∀ a b, [a, b, a].Sublist l → a = b

theorem IsGrouped.sublist (h : IsGrouped m) (hl : l.Sublist m) : IsGrouped l :=
  fun a b hab => h a b (hab.trans hl)

theorem isGrouped_cons_self_iff : IsGrouped (a :: a :: l) ↔ IsGrouped (a :: l) := by
  refine ⟨fun h => h.sublist (List.sublist_cons_self a _), ?_⟩
  intro h x y hxy
  rcases List.sublist_cons_iff.mp hxy with hxy | ⟨r, hr, hxy⟩
  · exact h x y hxy
  · obtain ⟨rfl, rfl⟩ := List.cons_eq_cons.mp hr
    rcases List.sublist_cons_iff.mp hxy with hxy | ⟨s, hs, -⟩
    · exact h x y (hxy.cons_cons x)
    · exact (List.cons_eq_cons.mp hs).1.symm

theorem isGrouped_cons_cons_iff (hne : a ≠ b) :
    IsGrouped (a :: b :: l) ↔ a ∉ b :: l ∧ IsGrouped (b :: l) := by
  constructor
  · intro h
    refine ⟨?_, h.sublist (List.sublist_cons_self a _)⟩
    intro hmem
    have hbehind : [a].Sublist l := List.singleton_sublist.mpr (List.mem_of_ne_of_mem hne hmem)
    exact hne (h a b ((hbehind.cons_cons b).cons_cons a))
  · rintro ⟨hnew, h⟩ x y hxy
    rcases List.sublist_cons_iff.mp hxy with hxy | ⟨r, hr, hxy⟩
    · exact h x y hxy
    · obtain ⟨rfl, rfl⟩ := List.cons_eq_cons.mp hr
      exact absurd (hxy.subset (List.mem_cons_of_mem y (List.mem_singleton_self x))) hnew

variable [DecidableEq α]

/-- Nothing is lost but repeats. -/
theorem mem_dropRepeats : a ∈ dropRepeats l ↔ a ∈ l := by
  fun_induction dropRepeats l with
  | case1 b r ih => simp [ih]
  | case2 b c r hne ih => rw [List.mem_cons, ih, List.mem_cons (a := a) (b := b)]
  | case3 => exact Iff.rfl

/-- **Nothing is left twice** if equal elements stand side by side. -/
theorem nodup_dropRepeats_iff : (dropRepeats l).Nodup ↔ IsGrouped l := by
  fun_induction dropRepeats l with
  | case1 b r ih => rw [ih, isGrouped_cons_self_iff]
  | case2 b c r hne ih => rw [List.nodup_cons, mem_dropRepeats, ih, isGrouped_cons_cons_iff hne]
  | case3 s hs =>
      match s, hs with
      | [], _ => exact iff_of_true List.nodup_nil fun a b h => nomatch h
      | [a], _ => exact iff_of_true (List.nodup_singleton a) fun b c h => absurd h.length_le (by simp)
      | a :: b :: r, hs => exact (hs a b r rfl).elim

end Repeats

/-! ## Two suggestions of one rule -/

/-- What a reader sees of a suggestion. -/
def shown (i : Issue) : IssueType × String × String × Option Nat :=
  (i.type, i.title, i.description, i.line)

variable {t : Thresholds} {u : Pou} {v w : Variable} {n m : Node} {a b : String}

theorem shown_unusedVariable_eq_iff :
    shown (unusedVariable u v) = shown (unusedVariable u w) ↔ v.name = w.name ∧ v.line = w.line := by
  simp [shown, unusedVariable, Issue.inUnit, Issue.found, String.append_left_inj]

theorem shown_magicNumber_eq_iff :
    shown (magicNumber u n a) = shown (magicNumber u m b) ↔ a = b ∧ n.line = m.line := by
  simp [shown, magicNumber, Issue.inUnit, Issue.found, String.append_right_inj]

theorem shown_nestedLoop_eq_iff :
    shown (nestedLoop u n) = shown (nestedLoop u m) ↔ n.line = m.line ∧ n.scope = m.scope := by
  constructor
  · intro h
    have hline : n.line = m.line := Option.some.inj (congrArg (fun s => s.2.2.2) h)
    have htext := congrArg (fun s => s.2.2.1) h
    simp only [shown, nestedLoop, Issue.inUnit, Issue.found, hline, String.append_left_inj,
      String.append_right_inj] at htext
    exact ⟨hline, htext⟩
  · rintro ⟨hline, hscope⟩
    simp only [shown, nestedLoop, Issue.inUnit, Issue.found, hline, hscope]

/-! ## The suggestions about a unit -/

/-- **The suggestions about a unit are pairwise different** for a reader. -/
def SuggestsOnce (t : Thresholds) (u : Pou) : Prop :=
  (ofUnit t u).Pairwise fun i j => shown i ≠ shown j

/-- The private variables that no statement refers to. -/
def unused (u : Pou) : List Variable :=
  u.vars.filter fun v => isPrivate v && !isReferenced u.body v.name

/-- The statements with a condition. -/
def conditionals (u : Pou) : List Node := u.body.walk.filter hasCondition

/-- The numbers without a name in a condition, one for each side of a comparison. -/
def comparedNumbers (n : Node) : List String := (Node.preorderAll n.children).flatMap magicOperands

/-- The loops inside others. -/
def innerLoops (u : Pou) : List Node :=
  u.body.walk.filter fun n => n.kind.isLoop && isInsideLoop n.scope

/-- The rules in their order, each with the title of what it suggests. -/
def titled (t : Thresholds) (u : Pou) : List (String × List Issue) :=
  [("Unused variable", unusedVariables u), ("Magic number in condition", conditionNumbers u),
    ("Nested loop", nestedLoops u), ("Missing unit description", missingDescription u),
    ("Large unit", largeUnit t.largeUnit u)]

theorem ofUnit_eq_flatMap (t : Thresholds) (u : Pou) : ofUnit t u = (titled t u).flatMap Prod.snd := by
  simp [ofUnit, titled]

/-- There is at most one suggestion about a missing description, and it has its title. -/
theorem missingDescription_eq (u : Pou) :
    missingDescription u = [] ∨
      ∃ i, missingDescription u = [i] ∧ i.title = "Missing unit description" := by
  rw [missingDescription]
  split
  · exact Or.inl rfl
  · exact Or.inr ⟨_, rfl, rfl⟩

theorem largeUnit_eq (limit : Nat) (u : Pou) :
    largeUnit limit u = [] ∨ ∃ i, largeUnit limit u = [i] ∧ i.title = "Large unit" := by
  rw [largeUnit]
  split
  · exact Or.inr ⟨_, rfl, rfl⟩
  · exact Or.inl rfl

theorem title_of_mem_titled {p : String × List Issue} (hp : p ∈ titled t u) :
    ∀ i ∈ p.2, i.title = p.1 := by
  intro i hi
  simp only [titled, List.mem_cons, List.not_mem_nil, or_false] at hp
  rcases hp with rfl | rfl | rfl | rfl | rfl
  · obtain ⟨v, -, rfl⟩ := List.mem_map.mp hi
    rfl
  · obtain ⟨n, -, hi⟩ := List.mem_flatMap.mp hi
    obtain ⟨literal, -, rfl⟩ := List.mem_map.mp hi
    rfl
  · obtain ⟨n, -, rfl⟩ := List.mem_map.mp hi
    rfl
  · rcases missingDescription_eq u with h | ⟨j, h, htitle⟩
    · exact absurd (h ▸ hi) List.not_mem_nil
    · exact List.mem_singleton.mp (h ▸ hi) ▸ htitle
  · rcases largeUnit_eq t.largeUnit u with h | ⟨j, h, htitle⟩
    · exact absurd (h ▸ hi) List.not_mem_nil
    · exact List.mem_singleton.mp (h ▸ hi) ▸ htitle

/-- **Rule by rule**: two rules suggest nothing in common. -/
theorem suggestsOnce_iff_titled :
    SuggestsOnce t u ↔ ∀ p ∈ titled t u, p.2.Pairwise fun i j => shown i ≠ shown j := by
  rw [SuggestsOnce, ofUnit_eq_flatMap, List.pairwise_flatMap, and_iff_left]
  have htitles : ((titled t u).map Prod.fst).Nodup := by simp [titled]
  refine (List.pairwise_map.mp htitles).imp_of_mem ?_
  intro p q hp hq hne i hi j hj hshown
  refine hne ?_
  rw [← title_of_mem_titled hp i hi, ← title_of_mem_titled hq j hj]
  exact congrArg (fun s => s.2.1) hshown

/-- The suggestions about numbers, in one condition and between two of them. -/
theorem pairwise_conditionNumbers_iff :
    ((conditionNumbers u).Pairwise fun i j => shown i ≠ shown j) ↔
      (∀ n ∈ conditionals u, IsGrouped (comparedNumbers n)) ∧
        (conditionals u).Pairwise fun n m =>
          n.line = m.line → (comparedNumbers n).Disjoint (comparedNumbers m) := by
  rw [conditionNumbers, List.pairwise_flatMap]
  refine and_congr (forall₂_congr fun n _ => ?_) (List.Pairwise.iff fun n m => ?_)
  · rw [List.pairwise_map, ← nodup_dropRepeats_iff]
    simp only [ne_eq, shown_magicNumber_eq_iff, and_true]
    rfl
  · rw [List.forall_mem_map]
    simp only [List.forall_mem_map, magicNumbers, mem_dropRepeats, ne_eq, shown_magicNumber_eq_iff,
      not_and]
    constructor
    · intro h hline a hn hm
      exact h a hn a hm rfl hline
    · rintro h a hn _ hm rfl hline
      exact h hline hn hm

/-- **Which suggestions are made twice.** A unit gets no suggestion twice exactly if no two unused variables
    have one name and one line, in each condition equal numbers are compared one right after the other, the
    conditions on one line share no number, and no two loops inside others have one line and one scope. -/
theorem suggestsOnce_iff (t : Thresholds) (u : Pou) :
    SuggestsOnce t u ↔
      ((unused u).map fun v => (v.name, v.line)).Nodup ∧
        (∀ n ∈ conditionals u, IsGrouped (comparedNumbers n)) ∧
        ((conditionals u).Pairwise fun n m =>
          n.line = m.line → (comparedNumbers n).Disjoint (comparedNumbers m)) ∧
        ((innerLoops u).map fun n => (n.line, n.scope)).Nodup := by
  have hvars : ((unusedVariables u).Pairwise fun i j => shown i ≠ shown j) ↔
      ((unused u).map fun v => (v.name, v.line)).Nodup := by
    rw [unusedVariables, List.pairwise_map, List.Nodup, List.pairwise_map]
    simp only [ne_eq, shown_unusedVariable_eq_iff, Prod.mk.injEq]
    rfl
  have hloops : ((nestedLoops u).Pairwise fun i j => shown i ≠ shown j) ↔
      ((innerLoops u).map fun n => (n.line, n.scope)).Nodup := by
    rw [nestedLoops, List.pairwise_map, List.Nodup, List.pairwise_map]
    simp only [ne_eq, shown_nestedLoop_eq_iff, Prod.mk.injEq]
    rfl
  have hdescription : (missingDescription u).Pairwise fun i j => shown i ≠ shown j := by
    rcases missingDescription_eq u with h | ⟨i, h, -⟩
    · rw [h]; exact List.Pairwise.nil
    · rw [h]; exact List.pairwise_singleton _ i
  have hlarge : (largeUnit t.largeUnit u).Pairwise fun i j => shown i ≠ shown j := by
    rcases largeUnit_eq t.largeUnit u with h | ⟨i, h, -⟩
    · rw [h]; exact List.Pairwise.nil
    · rw [h]; exact List.pairwise_singleton _ i
  rw [suggestsOnce_iff_titled, titled, List.forall_mem_cons, List.forall_mem_cons, List.forall_mem_cons,
    hvars, pairwise_conditionNumbers_iff, hloops, and_assoc]
  simp [hdescription, hlarge]

end Rules

/-! ## Units that are read -/

/-- No two variables of a unit have one scope and one name up to case. -/
theorem Pou.nodup_place_parse {label : String} {source : List Char} {u : Pou}
    (hu : parse label source = .ok u) : (u.vars.map Section.Table.place).Nodup := by
  rw [parse_eq_find] at hu
  cases hfind : Source.findDeclaration? (Source.codeLines (Source.normalizeLineEndings source)) with
  | none =>
      rw [hfind] at hu
      cases hu
  | some found =>
      rw [hfind] at hu
      obtain rfl := Except.ok.inj hu
      exact (Section.Table.ofLines_records _ _ _ _).1.distinct

namespace Rules

variable {t : Thresholds} {u : Pou}

/-- Two unused variables of one name are a local one and a temporary one. -/
theorem mem_unused_iff {v : Variable} : v ∈ unused u ↔
    v ∈ u.vars ∧ (v.scope = .localVar ∨ v.scope = .temp) ∧ isReferenced u.body v.name = false := by
  rw [unused, List.mem_filter, isPrivate, Bool.and_eq_true, Bool.or_eq_true, decide_eq_true_eq,
    decide_eq_true_eq, Bool.not_eq_true']

theorem nodup_unused_iff (h : (u.vars.map Section.Table.place).Nodup) :
    ((unused u).map fun v => (v.name, v.line)).Nodup ↔
      ∀ v ∈ u.vars, ∀ w ∈ u.vars, v.scope = .localVar → w.scope = .temp → v.name = w.name →
        v.line = w.line → isReferenced u.body v.name = true := by
  constructor
  · intro hunused v hv w hw hlocal htemp hname hline
    by_contra hreferenced
    rw [Bool.not_eq_true] at hreferenced
    have hsame : v = w := List.inj_on_of_nodup_map hunused
      (mem_unused_iff.mpr ⟨hv, Or.inl hlocal, hreferenced⟩)
      (mem_unused_iff.mpr ⟨hw, Or.inr htemp, hname ▸ hreferenced⟩) (Prod.ext hname hline)
    rw [hsame, htemp] at hlocal
    cases hlocal
  · intro hreferenced
    refine List.Nodup.map_on ?_ (h.of_map.filter _)
    intro v hv w hw hsame
    obtain ⟨hname, hline⟩ := Prod.mk.inj hsame
    obtain ⟨hv, hvscope, hvname⟩ := mem_unused_iff.mp hv
    obtain ⟨hw, hwscope, hwname⟩ := mem_unused_iff.mp hw
    have hscope : v.scope = w.scope := by
      rcases hvscope with hvscope | hvscope <;> rcases hwscope with hwscope | hwscope
      · exact hvscope.trans hwscope.symm
      · rw [hreferenced v hv w hw hvscope hwscope hname hline] at hvname
        cases hvname
      · rw [hreferenced w hw v hv hwscope hvscope hname.symm hline.symm] at hwname
        cases hwname
      · exact hvscope.trans hwscope.symm
    exact List.inj_on_of_nodup_map h hv hw
      (by rw [Section.Table.place, Section.Table.place, hscope, hname])

/-- **Which suggestions are made twice about a unit that is read.** None are exactly if no unused variable
    stands on one line in a section of local and in one of temporary variables, in each condition equal
    numbers are compared one right after the other, the conditions on one line share no number, and no two
    loops inside others have one line and one scope. -/
theorem suggestsOnce_parse_iff {label : String} {source : List Char}
    (hu : Pou.parse label source = .ok u) (t : Thresholds) :
    SuggestsOnce t u ↔
      (∀ v ∈ u.vars, ∀ w ∈ u.vars, v.scope = .localVar → w.scope = .temp → v.name = w.name →
        v.line = w.line → isReferenced u.body v.name = true) ∧
        (∀ n ∈ conditionals u, IsGrouped (comparedNumbers n)) ∧
        ((conditionals u).Pairwise fun n m =>
          n.line = m.line → (comparedNumbers n).Disjoint (comparedNumbers m)) ∧
        ((innerLoops u).map fun n => (n.line, n.scope)).Nodup := by
  rw [suggestsOnce_iff, nodup_unused_iff (Pou.nodup_place_parse hu)]

instance (t : Thresholds) (u : Pou) : Decidable (SuggestsOnce t u) :=
  inferInstanceAs (Decidable (List.Pairwise _ _))

/-- A number that is compared twice without another one between. -/
def numberInRange : List Char :=
  "PROGRAM Main\nIF a > 5 AND b < 5 THEN\nx := 1;\nEND_IF;\nEND_PROGRAM".toList

/-- A number that is compared before and behind another one. -/
def numberAround : List Char :=
  "PROGRAM Main\nIF a > 5 OR b > 6 OR c > 5 THEN\nx := 1;\nEND_IF;\nEND_PROGRAM".toList

/-- In the range nothing is suggested twice, so the number is one of those that stand side by side. -/
theorem suggestsOnce_parse_iff_numberInRange :
    ∃ u, Pou.parse "main.st" numberInRange = .ok u ∧
      SuggestsOnce Settings.default.thresholds u ∧ ∀ n ∈ conditionals u, IsGrouped (comparedNumbers n) := by
  obtain ⟨u, hu, honce⟩ : ∃ u, Pou.parse "main.st" numberInRange = .ok u ∧
      SuggestsOnce Settings.default.thresholds u := Pou.exists_parse_of_any (by decide +kernel)
  exact ⟨u, hu, honce, ((suggestsOnce_parse_iff hu _).mp honce).2.1⟩

/-- What a reader sees of the suggestion about a number on the second line. -/
def aboutNumber (literal : String) : IssueType × String × String × Option Nat :=
  (.potentialImprovement, "Magic number in condition",
    "The condition compares against the literal " ++ literal, some 2)

/-- **A number is reported twice for one condition**: of the first three suggestions two are the same. -/
theorem exists_suggested_twice :
    ∃ u, Pou.parse "main.st" numberAround = .ok u ∧ ∀ t, ¬ SuggestsOnce t u ∧
      ((ofUnit t u).take 3).map shown = [aboutNumber "5", aboutNumber "6", aboutNumber "5"] := by
  obtain ⟨u, hu, hunused, hnumbers⟩ : ∃ u, Pou.parse "main.st" numberAround = .ok u ∧
      (unusedVariables u).isEmpty = true ∧
      (conditionNumbers u).map shown = [aboutNumber "5", aboutNumber "6", aboutNumber "5"] :=
    Pou.exists_parse_of_any (by decide +kernel)
  refine ⟨u, hu, fun t => ?_⟩
  have hlength : (conditionNumbers u).length = 3 := by
    rw [← List.length_map (f := shown), hnumbers]
    rfl
  have hfirst : (ofUnit t u).take 3 = conditionNumbers u := by
    rw [ofUnit, List.isEmpty_iff.mp hunused, List.nil_append, List.append_assoc, List.append_assoc,
      List.take_left' hlength]
  refine ⟨?_, by rw [hfirst, hnumbers]⟩
  intro honce
  have hnodup : ((conditionNumbers u).map shown).Nodup := by
    rw [← hfirst]
    exact List.pairwise_map.mpr (honce.sublist (List.take_sublist 3 _))
  rw [hnumbers] at hnodup
  exact absurd hnodup (by decide)

end Rules

end StLint
