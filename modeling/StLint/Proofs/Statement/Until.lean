import StLint.Proofs.Statement.Part
import StLint.Proofs.Statement.Scope

/-!
# The condition of a `REPEAT`

The condition of a loop `REPEAT` stands behind its end, so the reader looks ahead for it: it goes
through the segments after the header and counts the loops that open and close in between. But it
looks at **the first word of each segment** only. A `REPEAT` behind another header or a label is not
counted, and an `UNTIL` behind its `REPEAT` on one segment is not met; then the lookahead takes the
`UNTIL` of another loop, or none.

* `untilIndex?` — the position of the `UNTIL` that is taken.
* `Sinks` — segments in which as many loops end uncounted as the lookahead has open.
* `Nested.hidden`, `Nested.inStep` — the loops that are not counted, and trees in which none of them
  stands inside another loop.
* `Nested.inStep_iff` — the lookahead takes the own `UNTIL` of each loop exactly in such a tree.
* `WellNested.conditions_iff` — the conditions of a whole body.
-/

namespace StLint.Statement

open Text Source
open Expression (Place)

/-! ## The lookahead -/

/-- The position of the `UNTIL` that is taken for the one of a `REPEAT`, in the segments after it,
    where `depth` loops are open. -/
def untilIndex? (depth : Nat) : List Segment → Option Nat
  | [] => none
  | s :: later =>
    if LeadsWith "REPEAT" s.text then (untilIndex? (depth + 1) later).map (· + 1)
    else if LeadsWith "UNTIL" s.text then
      if depth = 0 then some 0 else (untilIndex? (depth - 1) later).map (· + 1)
    else (untilIndex? depth later).map (· + 1)

/-- The condition behind an `UNTIL`, up to the `END_REPEAT` if there is one. -/
def untilText (t : List Char) : List Char :=
  match findWord? "END_REPEAT" (afterWord t) with
  | some i => trim ((afterWord t).take i)
  | none => afterWord t

variable {s : Segment} {later : List Segment} {d h k : Nat}

theorem untilIndex?_repeat (hs : LeadsWith "REPEAT" s.text) :
    untilIndex? d (s :: later) = (untilIndex? (d + 1) later).map (· + 1) := by
  rw [untilIndex?, if_pos hs]

theorem leadsWith_unique {word other : String} {t : List Char} (h : LeadsWith word t)
    (h' : LeadsWith other t) : word = other := String.toList_inj.mp (h.symm.trans h')

theorem untilIndex?_until_zero (hs : LeadsWith "UNTIL" s.text) :
    untilIndex? 0 (s :: later) = some 0 := by
  rw [untilIndex?, if_neg fun h => absurd (leadsWith_unique hs h) (by decide), if_pos hs, if_pos rfl]

theorem untilIndex?_until_succ (hs : LeadsWith "UNTIL" s.text) :
    untilIndex? (d + 1) (s :: later) = (untilIndex? d later).map (· + 1) := by
  rw [untilIndex?, if_neg fun h => absurd (leadsWith_unique hs h) (by decide), if_pos hs,
    if_neg (Nat.succ_ne_zero d), Nat.add_sub_cancel]

theorem untilIndex?_other (hrepeat : ¬ LeadsWith "REPEAT" s.text) (huntil : ¬ LeadsWith "UNTIL" s.text) :
    untilIndex? d (s :: later) = (untilIndex? d later).map (· + 1) := by
  rw [untilIndex?, if_neg hrepeat, if_neg huntil]

/-- **The condition that is stored** is the one of the `UNTIL` that is taken. -/
theorem untilCondition?_eq (d : Nat) (later : List Segment) :
    untilCondition? d later
      = (untilIndex? d later).bind fun i => later[i]?.map fun s => untilText (trim s.text) := by
  have hcons : ∀ (x : Option Nat) (s : Segment) (later : List Segment),
      ((x.map (· + 1)).bind fun i => (s :: later)[i]?.map fun s => untilText (trim s.text))
        = x.bind fun i => later[i]?.map fun s => untilText (trim s.text) := by
    intro x s later
    cases x <;> rfl
  induction later generalizing d with
  | nil => rfl
  | cons s later ih =>
      unfold untilCondition?
      dsimp only
      by_cases hrepeat : LeadsWith "REPEAT" s.text
      · rw [if_pos (show upper _ = _ from hrepeat), untilIndex?_repeat hrepeat, ih, hcons]
      · rw [if_neg (show ¬ upper _ = _ from hrepeat)]
        by_cases huntil : LeadsWith "UNTIL" s.text
        · rw [if_pos (show upper _ = _ from huntil)]
          cases d with
          | zero =>
              rw [untilIndex?_until_zero huntil]
              show _ = some (untilText (trim s.text))
              rw [untilText]
              dsimp only
              cases findWord? "END_REPEAT" (afterWord (trim s.text)) <;> rfl
          | succ d => rw [untilIndex?_until_succ huntil, hcons, ← ih]
        · rw [if_neg (show ¬ upper _ = _ from huntil), untilIndex?_other hrepeat huntil, ih, hcons]

/-! ## Segments that the lookahead passes -/

/-- **In the segments `h` more loops end than the lookahead has counted.** It passes them if it has so
    many more loops open, and otherwise takes an `UNTIL` among them. -/
structure Sinks (h : Nat) (passed : List Segment) : Prop where
  through : ∀ d rest, untilIndex? (d + h) (passed ++ rest)
    = (untilIndex? d rest).map (passed.length + ·)
  within : ∀ d < h, ∃ i < passed.length, ∀ rest, untilIndex? d (passed ++ rest) = some i

variable {front more : List Segment}

theorem sinks_nil : Sinks 0 [] where
  through := by
    intro d rest
    rw [List.nil_append, Nat.add_zero]
    cases untilIndex? d rest with
    | none => rfl
    | some i => exact congrArg some (Nat.zero_add i).symm
  within := fun _ hd => absurd hd (Nat.not_lt_zero _)

theorem Sinks.append (hfront : Sinks h front) (hmore : Sinks k more) :
    Sinks (h + k) (front ++ more) where
  through := by
    intro d rest
    rw [List.append_assoc, Nat.add_comm h k, ← Nat.add_assoc, hfront.through, hmore.through,
      Option.map_map, List.length_append]
    refine Option.map_congr ?_
    intro i _
    exact (Nat.add_assoc ..).symm
  within := by
    intro d hd
    rw [List.length_append]
    by_cases hlt : d < h
    · obtain ⟨i, hi, htaken⟩ := hfront.within d hlt
      refine ⟨i, Nat.lt_add_right _ hi, ?_⟩
      intro rest
      rw [List.append_assoc, htaken]
    · -- the first segments are front, with fewer loops open behind them
      obtain ⟨e, rfl⟩ := Nat.exists_eq_add_of_le' (Nat.le_of_not_lt hlt)
      obtain ⟨i, hi, htaken⟩ := hmore.within e (by omega)
      refine ⟨front.length + i, Nat.add_lt_add_left hi _, ?_⟩
      intro rest
      rw [List.append_assoc, hfront.through, htaken]
      rfl

theorem Sinks.zero_append (hfront : Sinks 0 front) (hmore : Sinks k more) :
    Sinks k (front ++ more) := by
  have h := hfront.append hmore
  rwa [Nat.zero_add] at h

/-- A segment that opens and closes no loop. -/
theorem sinks_other (hrepeat : ¬ LeadsWith "REPEAT" s.text) (huntil : ¬ LeadsWith "UNTIL" s.text) :
    Sinks 0 [s] where
  through := by
    intro d rest
    rw [Nat.add_zero, List.singleton_append, untilIndex?_other hrepeat huntil]
    exact Option.map_congr fun i _ => Nat.add_comm i 1
  within := fun _ hd => absurd hd (Nat.not_lt_zero _)

/-- The end of a loop that is not counted. -/
theorem sinks_until (hs : LeadsWith "UNTIL" s.text) : Sinks 1 [s] where
  through := by
    intro d rest
    rw [List.singleton_append, untilIndex?_until_succ hs]
    exact Option.map_congr fun i _ => Nat.add_comm i 1
  within := by
    intro d hd
    obtain rfl := Nat.lt_one_iff.mp hd
    exact ⟨0, Nat.one_pos, fun rest => untilIndex?_until_zero hs⟩

/-- A `REPEAT` in front of segments counts one loop more. -/
theorem Sinks.repeat (hs : LeadsWith "REPEAT" s.text) (hfront : Sinks (h + 1) front) :
    Sinks h (s :: front) where
  through := by
    intro d rest
    rw [List.cons_append, untilIndex?_repeat hs, Nat.add_assoc, hfront.through, Option.map_map]
    refine Option.map_congr ?_
    intro i _
    show front.length + i + 1 = front.length + 1 + i
    omega
  within := by
    intro d hd
    obtain ⟨i, hi, htaken⟩ := hfront.within (d + 1) (Nat.succ_lt_succ hd)
    refine ⟨i + 1, Nat.succ_lt_succ hi, ?_⟩
    intro rest
    rw [List.cons_append, untilIndex?_repeat hs, htaken]
    rfl

/-! ## Loops in a tree -/

/-- The segment at a point, if the point is its start. -/
def Point.here (fresh : Bool) (p : Point) : List Segment :=
  if fresh then [⟨p.line, p.rest⟩] else []

/-- How many loops the lookahead does not count where a `REPEAT` stands at a point: none if it is the
    first word of its segment. -/
def Point.hidden (fresh : Bool) (p : Point) : Nat :=
  if fresh = true ∧ LeadsWith "REPEAT" p.rest then 0 else 1

/-- The segment of the `END_REPEAT` that ends a block, if it has one of its own. -/
def BlockEnd.segments {stack : BlockStack} {n : Nat} {u : Point} {kind : BlockKind} :
    BlockEnd stack n u kind → List Segment
  | .closer .. | .together .. => []
  | @apart _ _ _ s .. => [s]

/-- A loop `REPEAT` of a tree. -/
structure Loop where
  /-- The segments after its header. -/
  later : List Segment
  /-- The position of its `UNTIL` among them, if this is the first word of its segment. -/
  until? : Option Nat
  /-- Its condition. -/
  condition : List Char

/-- The lookahead takes the own `UNTIL` of a loop. -/
def Loop.TakesOwn (l : Loop) : Prop := ∃ i, l.until? = some i ∧ untilIndex? 0 l.later = some i

namespace Nested

/-- The last point is the start of its segment, where `fresh` tells whether the first one is. -/
def endsFresh (fresh : Bool) : {stack : BlockStack} → {p q : Point} → Nested stack p q → Bool
  | _, _, _, nil => fresh
  | _, _, _, next _ tail .. => tail.endsFresh true
  | _, _, _, leaf tail .. => tail.endsFresh false
  | _, _, _, branch _ tail .. => tail.endsFresh false
  | _, _, _, block _ _ _ tail .. => tail.endsFresh false

/-- The segments from the first point to the last one, each as soon as a statement of it is read. -/
def passed (fresh : Bool) : {stack : BlockStack} → {p q : Point} → Nested stack p q → List Segment
  | _, _, _, nil => []
  | _, p, _, next _ tail .. => p.here fresh ++ tail.passed true
  | _, p, _, leaf tail .. => p.here fresh ++ tail.passed false
  | _, p, _, branch _ tail .. => p.here fresh ++ tail.passed false
  | _, p, _, @block _ _ u _ _ body ends tail .. =>
    p.here fresh ++ (body.passed false ++ (u.here (body.endsFresh false) ++
      (ends.segments ++ tail.passed false)))

/-- The number of loops whose `REPEAT` is not the first word of its segment. -/
def hidden (fresh : Bool) : {stack : BlockStack} → {p q : Point} → Nested stack p q → Nat
  | _, _, _, nil => 0
  | _, _, _, next _ tail .. => tail.hidden true
  | _, _, _, leaf tail .. => tail.hidden false
  | _, _, _, branch _ tail .. => tail.hidden false
  | _, p, _, block kind body _ tail .. =>
    (if kind = .repeatBlock then p.hidden fresh else 0) + (body.hidden false + tail.hidden false)

/-- **Each `UNTIL` is the first word of its segment, and so is each `REPEAT` inside another loop.** -/
def inStep : {stack : BlockStack} → {p q : Point} → Nested stack p q → Bool
  | _, _, _, nil => true
  | _, _, _, next _ tail .. => tail.inStep
  | _, _, _, leaf tail .. => tail.inStep
  | _, _, _, branch _ tail .. => tail.inStep
  | _, _, _, block kind body _ tail .. =>
    (kind != .repeatBlock || (body.endsFresh false && body.hidden false == 0)) &&
      (body.inStep && tail.inStep)

/-- The loops `REPEAT` of a tree, in the order of their headers. -/
def loops : {stack : BlockStack} → {p q : Point} → Nested stack p q → List Loop
  | _, _, _, nil => []
  | _, _, _, next _ tail .. => tail.loops
  | _, _, _, leaf tail .. => tail.loops
  | _, _, _, branch _ tail .. => tail.loops
  | _, p, _, @block _ _ u _ kind body _ tail .. =>
    (if kind = .repeatBlock then
      [⟨p.later, if body.endsFresh false then some (body.passed false).length else none,
        untilText (trim u.rest)⟩] else []) ++ (body.loops ++ tail.loops)

end Nested

variable {stack : BlockStack} {p q u : Point} {kind : BlockKind} {n : Nat}

theorem BlockEnd.later_eq (e : BlockEnd stack n u kind) : u.later = e.segments ++ e.after.later := by
  cases e with
  | closer | together => rfl
  | apart hlater => exact hlater

/-- **A tree passes its segments**, and the others are left. -/
theorem Nested.passed_append (fresh : Bool) (D : Nested stack p q) :
    p.here fresh ++ p.later
      = D.passed fresh ++ (q.here (D.endsFresh fresh) ++ q.later) := by
  induction D generalizing fresh with
  | nil => rfl
  | next hlater tail _ _ ih =>
      rw [passed, endsFresh, List.append_assoc, ← ih true, hlater]
      rfl
  | leaf tail _ _ _ ih | branch _ tail _ ih =>
      rw [passed, endsFresh, List.append_assoc, ← ih false]
      rfl
  | @block stack p u q kind body ends tail _ _ ihbody ihtail =>
      have hbody : p.later = body.passed false ++ (u.here (body.endsFresh false) ++ u.later) :=
        ihbody false
      have htail : ends.after.later
          = tail.passed false ++ (q.here (tail.endsFresh false) ++ q.later) := ihtail false
      calc p.here fresh ++ p.later
          = p.here fresh ++ (body.passed false ++ (u.here (body.endsFresh false) ++ u.later)) :=
            congrArg (p.here fresh ++ ·) hbody
        _ = _ := by
            rw [ends.later_eq, htail, passed, endsFresh]
            simp only [List.append_assoc]

/-! ## The first words of segments -/

theorem lead_of_leadsWith_repeat {t : List Char} (h : LeadsWith "REPEAT" t) :
    Lead.ofWord (leadingWord (trim t)) = .opens .repeatBlock := by
  rw [Lead.ofWord, h]
  rfl

/-- A keyword that leads a segment leads its statement. -/
theorem not_leadsWith_of_lead {word : String} {l : Lead} {t : List Char}
    (hword : LeadsWith word t → Lead.ofWord (leadingWord (trim t)) = l) (hplain : l ≠ .plain)
    (hlabel : PlainLabel stack t) (hlead : Lead.ofWord (leadingWord (statementText stack t)) ≠ l) :
    ¬ LeadsWith word t := by
  intro h
  rcases hlabel with hlabel | hlabel
  · rw [← hlabel] at hlead
    exact hlead (hword h)
  · exact hplain ((hword h).symm.trans hlabel)

/-- The segment at a point counts for nothing, unless its statement opens or closes a loop. -/
theorem sinks_here (fresh : Bool) (hlabel : PlainLabel stack p.rest)
    (hopens : Lead.ofWord (leadingWord (statementText stack p.rest)) ≠ .opens .repeatBlock)
    (hcloses : Lead.ofWord (leadingWord (statementText stack p.rest)) ≠ .closes .repeatBlock) :
    Sinks 0 (p.here fresh) := by
  cases fresh with
  | false => exact sinks_nil
  | true =>
      refine sinks_other ?_ ?_
      · exact not_leadsWith_of_lead lead_of_leadsWith_repeat (by decide) hlabel hopens
      · exact not_leadsWith_of_lead (closes_of_leadsWith (Or.inl rfl)) (by decide) hlabel hcloses

theorem BlockEnd.sinks_segments (e : BlockEnd stack n u kind) : Sinks 0 e.segments := by
  cases e with
  | closer | together => exact sinks_nil
  | apart _ _ _ _ hs =>
      refine sinks_other ?_ ?_
      · exact fun h => absurd (leadsWith_unique hs h) (by decide)
      · exact fun h => absurd (leadsWith_unique hs h) (by decide)

/-- The end of another block counts for nothing. -/
theorem BlockEnd.sinks_here (e : BlockEnd stack n u kind) (hkind : kind ≠ .repeatBlock)
    (fresh : Bool) : Sinks 0 (u.here fresh) := by
  cases e with
  | closer _ hlabel hlead =>
      refine Statement.sinks_here fresh hlabel ?_ ?_
      · rw [hlead]
        exact fun h => nomatch h
      · rw [hlead]
        exact fun h => hkind (Lead.closes.inj h)
  | together | apart => exact absurd rfl hkind

theorem BlockEnd.leadsWith_until (e : BlockEnd stack n u .repeatBlock) :
    LeadsWith "UNTIL" u.rest := by
  cases e with
  | closer hkind => exact absurd rfl hkind
  | together huntil | apart _ huntil => exact huntil

/-! ## The lookahead in a tree -/

/-- The header of a loop, in front of segments in which one more loop ends. -/
theorem sinks_loop (fresh : Bool) (hlabel : PlainLabel stack p.rest)
    (hlead : Lead.ofWord (leadingWord (statementText stack p.rest)) = .opens .repeatBlock)
    (hmore : Sinks (h + 1) more) : Sinks (p.hidden fresh + h) (p.here fresh ++ more) := by
  rw [Point.hidden]
  by_cases hled : fresh = true ∧ LeadsWith "REPEAT" p.rest
  · rw [if_pos hled, Nat.zero_add, hled.1]
    exact Sinks.repeat (s := ⟨p.line, p.rest⟩) hled.2 hmore
  · rw [if_neg hled, Nat.add_comm]
    refine Sinks.zero_append ?_ hmore
    cases fresh with
    | false => exact sinks_nil
    | true =>
        refine sinks_other (fun hrepeat => hled ⟨rfl, hrepeat⟩) ?_
        exact not_leadsWith_of_lead (closes_of_leadsWith (Or.inl rfl)) (by decide) hlabel
          (by rw [hlead]; exact fun h => nomatch h)

/-- **In a tree in step** more loops end than the lookahead has counted: those that are hidden. By
    induction on the tree. -/
theorem Nested.sinks (fresh : Bool) (D : Nested stack p q) (h : D.inStep = true) :
    Sinks (D.hidden fresh) (D.passed fresh) := by
  induction D generalizing fresh with
  | nil => exact sinks_nil
  | next _ tail hlabel hblank ih =>
      have hhere := sinks_here fresh hlabel (by rw [hblank]; decide) (by rw [hblank]; decide)
      exact hhere.zero_append (ih true h)
  | leaf tail hlabel _ hlead ih =>
      have hhere := sinks_here fresh hlabel
        (fun hopens => by rw [hopens] at hlead; cases hlead)
        (fun hcloses => by rw [hcloses] at hlead; cases hlead)
      exact hhere.zero_append (ih false h)
  | branch hbranch tail hlabel ih =>
      refine Sinks.zero_append ?_ (ih false h)
      cases hbranch with
      | elsif _ hlead | otherwise _ hlead =>
          exact sinks_here fresh hlabel (by rw [hlead]; decide) (by rw [hlead]; decide)
  | @block stack p u q kind body ends tail hlabel hlead ihbody ihtail =>
      rw [inStep, Bool.and_eq_true, Bool.and_eq_true] at h
      obtain ⟨hloop, hbody, htail⟩ := h
      have hbehind := ends.sinks_segments.zero_append (ihtail false htail)
      rw [hidden, passed]
      by_cases hkind : kind = .repeatBlock
      · subst hkind
        rw [bne_self_eq_false, Bool.false_or, Bool.and_eq_true, beq_iff_eq] at hloop
        have hinside := ihbody false hbody
        have huntil : Sinks 1 (u.here true) := sinks_until ends.leadsWith_until
        rw [hloop.2] at hinside
        rw [if_pos rfl, hloop.1, hloop.2, Nat.zero_add]
        refine sinks_loop fresh hlabel hlead ?_
        -- the `UNTIL` of the loop closes one more than is counted
        rw [Nat.add_comm]
        exact hinside.zero_append (huntil.append hbehind)
      · have hhere := sinks_here fresh hlabel
          (fun hopens => hkind (Lead.opens.inj (hlead.symm.trans hopens)))
          (fun hcloses => by rw [hcloses] at hlead; cases hlead)
        have hend := ends.sinks_here hkind (body.endsFresh false)
        rw [if_neg hkind, Nat.zero_add]
        exact hhere.zero_append ((ihbody false hbody).append (hend.zero_append hbehind))

/-- The segments after the header of a block, up to its end. -/
theorem later_eq_of_body {rest : List Char} (body : Nested (stack.push kind n) (p.goTo rest) u) :
    p.later = body.passed false ++ (u.here (body.endsFresh false) ++ u.later) :=
  body.passed_append false

/-- Its `UNTIL` stands behind the segments of its body. -/
theorem getElem?_later_of_body {rest : List Char} (body : Nested (stack.push kind n) (p.goTo rest) u)
    (hfresh : body.endsFresh false = true) :
    p.later[(body.passed false).length]? = some ⟨u.line, u.rest⟩ := by
  rw [later_eq_of_body body, hfresh, List.getElem?_append_right (Nat.le_refl _), Nat.sub_self]
  rfl

theorem takesOwn_mk {later : List Segment} {fresh : Bool} {i : Nat} {condition : List Char} :
    (⟨later, if fresh then some i else none, condition⟩ : Loop).TakesOwn ↔
      fresh = true ∧ untilIndex? 0 later = some i := by
  cases fresh with
  | false =>
      refine iff_of_false ?_ fun h => Bool.false_ne_true h.1
      rintro ⟨j, hj, -⟩
      cases hj
  | true =>
      constructor
      · rintro ⟨j, hj, htaken⟩
        obtain rfl := Option.some.inj hj
        exact ⟨rfl, htaken⟩
      · exact fun h => ⟨i, rfl, h.2⟩

/-- **The lookahead of one loop** in whose body the lookahead is in step: it takes the own `UNTIL` if
    this is the first word of its segment and no loop inside is hidden, and only then. -/
theorem takesOwn_iff {rest : List Char} {condition : List Char}
    (body : Nested (stack.push .repeatBlock n) (p.goTo rest) u) (hbody : body.inStep = true)
    (huntil : LeadsWith "UNTIL" u.rest) :
    (⟨p.later, if body.endsFresh false then some (body.passed false).length else none,
        condition⟩ : Loop).TakesOwn ↔
      (body.endsFresh false && body.hidden false == 0) = true := by
  have hsinks := body.sinks false hbody
  have hlater := later_eq_of_body body
  rw [takesOwn_mk, Bool.and_eq_true, beq_iff_eq]
  refine and_congr_right fun hfresh => ?_
  constructor
  · intro htaken
    by_contra hne
    -- an earlier `UNTIL` is taken
    obtain ⟨j, hj, hearlier⟩ := hsinks.within 0 (Nat.pos_of_ne_zero hne)
    rw [hlater, hearlier] at htaken
    exact absurd (Option.some.inj htaken) (Nat.ne_of_lt hj)
  · intro hnone
    have hthrough := hsinks.through 0
    rw [hnone] at hthrough
    rw [hlater, hfresh, hthrough]
    show (untilIndex? 0 (⟨u.line, u.rest⟩ :: u.later)).map _ = _
    rw [untilIndex?_until_zero huntil]
    rfl

/-- **The lookahead takes the own `UNTIL` of each loop exactly in a tree in step**, by induction on the
    tree. -/
theorem Nested.inStep_iff (D : Nested stack p q) :
    D.inStep = true ↔ ∀ l ∈ D.loops, l.TakesOwn := by
  induction D with
  | nil => exact iff_of_true rfl (List.forall_mem_nil _)
  | next _ tail _ _ ih | leaf tail _ _ _ ih | branch _ tail _ ih => exact ih
  | @block stack p u q kind body ends tail _ _ ihbody ihtail =>
      rw [inStep, loops, Bool.and_eq_true, Bool.and_eq_true, ihtail, List.forall_mem_append,
        List.forall_mem_append, ← ihbody]
      by_cases hkind : kind = .repeatBlock
      · subst hkind
        rw [if_pos rfl, List.forall_mem_singleton, bne_self_eq_false, Bool.false_or]
        constructor
        · rintro ⟨hloop, hbody, htail⟩
          exact ⟨(takesOwn_iff body hbody ends.leadsWith_until).mpr hloop, hbody, htail⟩
        · rintro ⟨htakes, hbody, htail⟩
          exact ⟨(takesOwn_iff body hbody ends.leadsWith_until).mp htakes, hbody, htail⟩
      · rw [if_neg hkind]
        refine and_congr_left' (iff_of_true ?_ (List.forall_mem_nil _))
        rw [bne_iff_ne.mpr hkind, Bool.true_or]

/-- The condition of a loop is stored where the lookahead takes its own `UNTIL`. -/
theorem Nested.untilCondition?_of_takesOwn (D : Nested stack p q) :
    ∀ l ∈ D.loops, l.TakesOwn → untilCondition? 0 l.later = some l.condition := by
  induction D with
  | nil => exact List.forall_mem_nil _
  | next _ tail _ _ ih | leaf tail _ _ _ ih | branch _ tail _ ih => exact ih
  | @block stack p u q kind body ends tail _ _ ihbody ihtail =>
      rw [loops, List.forall_mem_append, List.forall_mem_append]
      refine ⟨?_, ihbody, ihtail⟩
      by_cases hkind : kind = .repeatBlock
      · rw [if_pos hkind, List.forall_mem_singleton]
        intro htakes
        obtain ⟨hfresh, htaken⟩ := takesOwn_mk.mp htakes
        rw [untilCondition?_eq, htaken, Option.bind_some, getElem?_later_of_body body hfresh]
        rfl
      · rw [if_neg hkind]
        exact List.forall_mem_nil _

/-! ## The nodes of loops -/

theorem kind_of_mem_readPlain_nodes {p : Place} {t : List Char} {m : Node}
    (hm : m ∈ (readPlain p t).nodes) : m.kind ≠ .repeatLoop := by
  rcases readPlain_cases p t with ⟨n, hread, hkind⟩ | hread
  · rw [hread] at hm
    obtain rfl := List.mem_singleton.mp hm
    exact hkind
  · rw [hread] at hm
    cases hm

theorem kind_openBlock (later : List Segment) (p : Place) (kind : BlockKind) (t : List Char) :
    (openBlock later p kind t).1.kind = .repeatLoop ↔ kind = .repeatBlock := by
  cases kind with
  | ifBlock | whileBlock | caseBlock => constructor <;> (intro h; cases h)
  | forBlock =>
      refine iff_of_false ?_ (by decide)
      rw [openBlock, forNode]
      cases ForHeader.read? (t.drop (leadingWord t).length) <;> (intro h; cases h)
  | repeatBlock =>
      refine iff_of_true ?_ rfl
      rw [openBlock]
      cases untilCondition? 0 later <;> rfl

theorem line_openBlock (later : List Segment) (p : Place) (kind : BlockKind) (t : List Char) :
    (openBlock later p kind t).1.line = p.line :=
  (carries_openBlock later p kind t _ (Node.mem_preorder.mpr (Or.inl rfl))).1

/-- **What is stored** in the node of a loop is what the lookahead finds. -/
theorem value_openBlock_repeat (later : List Segment) (p : Place) (t : List Char) :
    (openBlock later p .repeatBlock t).1.value = (untilCondition? 0 later).map String.ofList := by
  rw [openBlock]
  cases untilCondition? 0 later <;> rfl

/-- So it is in every node of a loop, wherever on its segment the loop stands. -/
theorem value_of_mem_readStatement (later : List Segment) (line : Nat) (stack : BlockStack)
    (t : List Char) {m : Node} (hm : m ∈ (readStatement later line stack t).1.nodes)
    (hkind : m.kind = .repeatLoop) :
    m.line = line ∧ m.value = (untilCondition? 0 later).map String.ofList := by
  induction stack, t using readStatement.induct later line with
  | case1 stack t hblank =>
      rw [readStatement_blank (List.isEmpty_iff.mp hblank)] at hm
      cases hm
  | case2 stack t _ _ _ kind hlead _ _ _ ih =>
      rw [readStatement_opens hlead] at hm
      rcases List.mem_append.mp hm with hm | hm
      · obtain rfl := List.mem_singleton.mp hm
        obtain rfl := (kind_openBlock later _ kind _).mp hkind
        exact ⟨line_openBlock later _ _ _, value_openBlock_repeat later _ _⟩
      · exact ih hm
  | case3 stack t _ _ hlead ih =>
      rw [readStatement_branch hlead] at hm
      exact ih hm
  | case4 stack t _ _ hlead ih =>
      rw [readStatement_otherwise hlead] at hm
      exact ih hm
  | case5 stack t _ _ kind hlead =>
      rw [readStatement_closes hlead] at hm
      cases hm
  | case6 stack t _ _ hlead =>
      rw [readStatement_returns hlead] at hm
      rw [List.mem_singleton.mp hm] at hkind
      cases hkind
  | case7 stack t _ _ hlead =>
      rw [readStatement_jumps hlead] at hm
      cases hm
  | case8 stack t hne _ hlead =>
      rw [readStatement_plain (by simpa using hne) hlead] at hm
      exact absurd hkind (kind_of_mem_readPlain_nodes hm)

/-- The values of the nodes of loops, in order. -/
def loopValues (nodes : List Node) : List (Option String) :=
  (nodes.filter (·.kind = .repeatLoop)).map Node.value

theorem loopValues_append (nodes others : List Node) :
    loopValues (nodes ++ others) = loopValues nodes ++ loopValues others := by
  rw [loopValues, List.filter_append, List.map_append]
  rfl

theorem loopValues_leafOutput (p : Place) (t : List Char) :
    loopValues (leafOutput p t).nodes = [] := by
  have hnone : ∀ m ∈ (leafOutput p t).nodes, ¬ decide (m.kind = .repeatLoop) = true := by
    intro m hm
    rw [decide_eq_true_eq]
    rw [leafOutput] at hm
    split at hm
    · exact kind_of_mem_readPlain_nodes hm
    · obtain rfl := List.mem_singleton.mp hm
      intro hkind
      cases hkind
    · cases hm
  rw [loopValues, List.filter_eq_nil_iff.mpr hnone]
  rfl

/-- **The nodes of loops in the output of a tree are its loops**, in order. -/
theorem Nested.loopValues_output (D : Nested stack p q) :
    loopValues D.output.nodes
      = D.loops.map fun l => (untilCondition? 0 l.later).map String.ofList := by
  induction D with
  | nil => rfl
  | next _ tail _ _ ih | branch _ tail _ ih => exact ih
  | leaf tail _ _ _ ih =>
      show loopValues ((leafOutput _ _).nodes ++ tail.output.nodes) = _
      rw [loopValues_append, loopValues_leafOutput]
      exact ih
  | block kind body ends tail _ _ ihbody ihtail =>
      show loopValues ([(openBlock _ _ kind _).1] ++ (body.output.nodes ++ tail.output.nodes)) = _
      rw [loopValues_append, loopValues_append, ihbody, ihtail, loops, List.map_append,
        List.map_append]
      congr 1
      by_cases hkind : kind = .repeatBlock
      · subst hkind
        rw [loopValues, List.filter_cons_of_pos (by rw [decide_eq_true_eq, kind_openBlock]),
          if_pos rfl]
        exact congrArg (· :: []) (value_openBlock_repeat _ _ _)
      · rw [loopValues, List.filter_cons_of_neg (by rw [decide_eq_true_eq, kind_openBlock]; exact hkind),
          if_neg hkind]
        rfl

/-- **The conditions of the loops of a well-nested body.** The lookahead takes the own `UNTIL` of each
    loop exactly if the body is in step, and where it does, it finds the condition of the loop. Every
    node of a loop holds what the lookahead finds behind its segment; and if each `END_REPEAT` on a
    segment of its own stands outside all other loops, these nodes are the loops of the body, in
    order. -/
theorem WellNested.conditions_iff {unit : String} {ss : List Segment} (D : WellNested unit ss) :
    (D.tree.inStep = true ↔ ∀ l ∈ D.tree.loops, l.TakesOwn) ∧
      (∀ l ∈ D.tree.loops, l.TakesOwn → untilCondition? 0 l.later = some l.condition) ∧
      (∀ m ∈ (Body.ofSegments unit ss).root.children, m.kind = .repeatLoop →
        ∃ before s later, ss = before ++ s :: later ∧ m.line = s.line ∧
          m.value = (untilCondition? 0 later).map String.ofList) ∧
      (D.tree.endsOutside = true → loopValues (Body.ofSegments unit ss).root.children
        = D.tree.loops.map fun l => (untilCondition? 0 l.later).map String.ofList) := by
  refine ⟨D.tree.inStep_iff, D.tree.untilCondition?_of_takesOwn, ?_, ?_⟩
  · intro m hm hkind
    obtain ⟨before, s, later, hss, hm⟩ := exists_readStatement_of_mem (.start unit) hm
    obtain ⟨hline, hvalue⟩ := value_of_mem_readStatement later s.line _ s.text hm hkind
    exact ⟨before, s, later, hss, hline, hvalue⟩
  · intro hends
    rw [← D.tree.loopValues_output, ← (D.run_eq hends).1]
    rfl

/-- A loop in a loop, each on segments of its own: both conditions are found and stored. -/
theorem conditions_iff_closedOnTwoSegments :
    (∀ l ∈ closedOnTwoSegmentsTree.tree.loops, untilCondition? 0 l.later = some l.condition) ∧
      loopValues (Body.ofSegments "Main" closedOnTwoSegments).root.children
        = [some "b", some "a"] := by
  obtain ⟨hstep, hfound, -, -⟩ := closedOnTwoSegmentsTree.conditions_iff
  have htakes := hstep.mp (by decide)
  exact ⟨fun l hl => hfound l hl (htakes l hl), by decide +kernel⟩

/-- A loop behind the header of a branch in a loop. -/
def loopBehindHeader : List Segment :=
  [⟨1, "REPEAT".toList⟩, ⟨2, "IF p THEN REPEAT".toList⟩, ⟨3, "x := 1".toList⟩,
    ⟨4, "UNTIL a END_REPEAT".toList⟩, ⟨5, "END_IF".toList⟩, ⟨6, "UNTIL b END_REPEAT".toList⟩]

/-- **The outer loop ends at `b`**, and the condition of the inner one is stored for it. -/
theorem hidden_loop_takes_until :
    ∃ D : WellNested "Main" loopBehindHeader,
      D.tree.loops.map Loop.condition = ["b".toList, "a".toList] ∧
        loopValues (Body.ofSegments "Main" loopBehindHeader).root.children
          = [some "a", some "a"] := by
  refine ⟨⟨6, .next rfl <| .block .repeatBlock
    (.next rfl <| .block .ifBlock
      (.block .repeatBlock (.next rfl <| .leaf <| .next rfl .nil) .together <| .next rfl .nil)
      .closer <| .next rfl .nil)
    .together .nil⟩, ?_⟩
  decide +kernel

end StLint.Statement
