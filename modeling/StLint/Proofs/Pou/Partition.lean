import StLint.Proofs.Pou.Segment

/-!
# A file and its parts

The cut of a file decides by the lines without their comments and takes the lines with them. Both
lists have the same length, so **the same cut can be made by indices alone** and no index runs out
of range; and each part begins on the line behind the one before it, so the parts in order are the
lines of the file up to the end of the last unit.

* `cutByIndex?` — the cut as a loop over indices, which fails at the first one out of range.
* `Tiles` — parts that follow each other without a gap.
* `cutsBehind` — the cut by indices is the cut of the file.
* `tilesBehind` — the loop leaves no gap.
* `splitUnits_partition` — the parts of a source.
-/

namespace StLint

open Text Source

/-! ## The cut by indices -/

/-- The lines with indices from `start` up to `stop`, unless one of them is out of range. -/
def range? (ls : List (List Char)) (start stop : Nat) : Option (List (List Char)) :=
  if start ≤ stop ∧ stop ≤ ls.length then some (slice ls start stop) else none

/-- The part of some lines that begins at `start` and ends before `stop`. -/
def segmentAt? (ls : List (List Char)) (start stop : Nat) : Option UnitSegment :=
  (range? ls start stop).map fun run => ⟨start, unlines run⟩

/-- The cut of the lines `raw`, from the line with index `index` on: `codes` are the lines from there
    on without their comments, `start` is the index of the first line of the part that is open. -/
def cutByIndex? (raw : List (List Char)) (index start : Nat) (open? : Option UnitKind) :
    List (List Char) → Option (List UnitSegment)
  | [] =>
    if open?.isSome && start < raw.length then (segmentAt? raw start raw.length).map ([·]) else some []
  | code :: codes =>
    match open? with
    | none => cutByIndex? raw (index + 1) start ((Declaration.ofLine? code).map (·.kind)) codes
    | some kind =>
      if startsWithKeyword kind.endKeyword code then
        (segmentAt? raw start (index + 1)).bind fun s =>
          (cutByIndex? raw (index + 1) (index + 1) none codes).map (s :: ·)
      else match Declaration.ofLine? code with
        | some next =>
          (segmentAt? raw start index).bind fun s =>
            (cutByIndex? raw (index + 1) index (some next.kind) codes).map (s :: ·)
        | none => cutByIndex? raw (index + 1) start (some kind) codes

section Index

variable {raw : List (List Char)} {index start : Nat} {kind : UnitKind} {code : List Char}
  {codes : List (List Char)}

theorem cutByIndex?_end (h : startsWithKeyword kind.endKeyword code = true) :
    cutByIndex? raw index start (some kind) (code :: codes)
      = (segmentAt? raw start (index + 1)).bind fun s =>
          (cutByIndex? raw (index + 1) (index + 1) none codes).map (s :: ·) := by
  rw [cutByIndex?, if_pos h]

theorem cutByIndex?_next {next : Declaration} (h : ¬ startsWithKeyword kind.endKeyword code = true)
    (hd : Declaration.ofLine? code = some next) :
    cutByIndex? raw index start (some kind) (code :: codes)
      = (segmentAt? raw start index).bind fun s =>
          (cutByIndex? raw (index + 1) index (some next.kind) codes).map (s :: ·) := by
  rw [cutByIndex?, if_neg h, hd]

theorem cutByIndex?_inside (h : ¬ startsWithKeyword kind.endKeyword code = true)
    (hd : Declaration.ofLine? code = none) :
    cutByIndex? raw index start (some kind) (code :: codes)
      = cutByIndex? raw (index + 1) start (some kind) codes := by
  rw [cutByIndex?, if_neg h, hd]

theorem segmentAt?_eq {stop : Nat} (hle : start ≤ stop) (hstop : stop ≤ raw.length) :
    segmentAt? raw start stop = some ⟨start, unlines (slice raw start stop)⟩ := by
  rw [segmentAt?, range?, if_pos ⟨hle, hstop⟩]
  rfl

/-- A part whose last line has been read is cut within the range. -/
theorem segmentAt?_append (done rest : List (List Char)) (hstart : start ≤ done.length) :
    segmentAt? (done ++ rest) start done.length
      = some (.ofLines start (done.drop start).reverse) := by
  have hstop : done.length ≤ (done ++ rest).length := by
    rw [List.length_append]
    omega
  rw [segmentAt?_eq hstart hstop, slice, List.take_left, UnitSegment.ofLines, List.reverse_reverse]

/-- A part that takes the line which has just been read ends behind it. -/
theorem segmentAt?_through (done rest : List (List Char)) (l : List Char)
    (hstart : start ≤ done.length) :
    segmentAt? (done ++ l :: rest) start (done.length + 1)
      = some (.ofLines start (l :: (done.drop start).reverse)) := by
  have hdone : (done ++ [l]).length = done.length + 1 := List.length_append
  have hmore : start ≤ done.length + 1 := Nat.le_succ_of_le hstart
  have h := segmentAt?_append (done ++ [l]) rest (hdone ▸ hmore)
  rw [hdone, List.append_assoc, reverse_drop_concat hstart] at h
  exact h

/-- Behind the lines `done`, the cut by indices of the lines `rest` is the cut of the file: whatever
    part is open there, it begins on a line that has been read. -/
def CutsBehind (done rest codes : List (List Char)) : Prop :=
  ∀ (start : Nat) (open? : Option UnitKind), start ≤ done.length →
    (open?.isSome = true → start < done.length) →
    cutByIndex? (done ++ rest) done.length start open? codes
      = some (segmentsFrom done.length start open? (done.drop start).reverse (codes.zip rest))

/-- Behind the last line the part that is open is cut. -/
theorem cutsBehind_nil (done : List (List Char)) : CutsBehind done [] [] := by
  intro start open? hstart hopen
  rw [List.append_nil, cutByIndex?, List.zip_nil_left, segmentsFrom]
  cases open? with
  | none => rfl
  | some kind =>
      have hcut := segmentAt?_append done [] hstart
      rw [List.append_nil] at hcut
      have htest : ((some kind).isSome && decide (start < done.length)) = true := by
        rw [decide_eq_true (hopen rfl)]
        rfl
      rw [if_pos htest, hcut]
      rfl

/-- **One line**: if the cuts agree behind it, they agree in front of it. -/
theorem CutsBehind.cons {done rest : List (List Char)} {l : List Char}
    (h : CutsBehind (done ++ [l]) rest codes) : CutsBehind done (l :: rest) (code :: codes) := by
  have hdone : (done ++ [l]).length = done.length + 1 := List.length_append
  rw [CutsBehind, hdone, List.append_assoc] at h
  intro start open? hstart hopen
  have hinside := h start
  rw [reverse_drop_concat hstart] at hinside
  have hmore : start ≤ done.length + 1 := Nat.le_succ_of_le hstart
  have hlt : start < done.length + 1 := Nat.lt_succ_of_le hstart
  rw [List.zip_cons_cons]
  cases open? with
  | none =>
      rw [cutByIndex?, segmentsFrom_outside]
      exact hinside _ hmore fun _ => hlt
  | some kind =>
      by_cases hend : startsWithKeyword kind.endKeyword code = true
      · have hlater := h (done.length + 1) none (Nat.le_refl _) nofun
        rw [← hdone, List.drop_length, hdone] at hlater
        rw [cutByIndex?_end hend, segmentsFrom_end hend, segmentAt?_through done rest l hstart,
          Option.bind_some]
        exact congrArg (Option.map _) hlater
      · cases hd : Declaration.ofLine? code with
        | some next =>
            have hlater := h done.length (some next.kind) (Nat.le_succ _) fun _ => Nat.lt_succ_self _
            rw [List.drop_left] at hlater
            rw [cutByIndex?_next hend hd, segmentsFrom_next hend hd, segmentAt?_append _ _ hstart,
              Option.bind_some]
            exact congrArg (Option.map _) hlater
        | none =>
            rw [cutByIndex?_inside hend hd, segmentsFrom_inside hend hd]
            exact hinside _ hmore fun _ => hlt

/-- **The cut by indices never leaves the range**, and it is the cut of the file. On the lines ahead:
    `done` are the lines that have been read. -/
theorem cutsBehind (done rest : List (List Char)) {codes : List (List Char)}
    (hlength : codes.length = rest.length) : CutsBehind done rest codes := by
  induction codes generalizing done rest with
  | nil =>
      obtain rfl : rest = [] := List.length_eq_zero_iff.mp hlength.symm
      exact cutsBehind_nil done
  | cons code codes ih =>
      obtain ⟨l, rest, rfl⟩ : ∃ l ls, rest = l :: ls :=
        List.exists_cons_of_length_pos (hlength ▸ Nat.succ_pos codes.length)
      exact (ih (done ++ [l]) rest (Nat.succ.inj hlength)).cons

end Index

/-! ## Parts without gaps -/

/-- The parts `ss` are runs of the lines `raw`, the first one from line `first` on and each other one
    from the line behind the one before it; `stop` is the line behind the last. -/
inductive Tiles (raw : List (List Char)) : Nat → List UnitSegment → Nat → Prop
  | nil (first : Nat) : Tiles raw first [] first
  | cons {first stop : Nat} {run : List (List Char)} {ss : List UnitSegment} (hne : run ≠ [])
      (hrun : run <+: raw.drop first) (htail : Tiles raw (first + run.length) ss stop) :
      Tiles raw first (⟨first, unlines run⟩ :: ss) stop

namespace Tiles

variable {raw : List (List Char)} {first stop : Nat} {ss : List UnitSegment}

theorem lineOffset_head (h : Tiles raw first ss stop) : ∀ s ∈ ss.head?, s.lineOffset = first := by
  cases h with
  | nil => exact fun _ hs => nomatch hs
  | cons =>
      intro s hs
      rw [← Option.some.inj hs]

theorem exists_run (h : Tiles raw first ss stop) :
    ∀ s ∈ ss, ∃ run, run ≠ [] ∧ s.text = unlines run ∧ run <+: raw.drop s.lineOffset := by
  induction h with
  | nil => exact fun _ hs => nomatch hs
  | @cons first _ run _ hne hrun _ ih =>
      intro s hs
      rcases List.mem_cons.mp hs with rfl | hs
      · exact ⟨run, hne, rfl, hrun⟩
      · exact ih s hs

/-- The lines of a part are the lines that it was made of. -/
theorem lines_of_run {run : List (List Char)} (hraw : ∀ l ∈ raw, '\n' ∉ l) (hne : run ≠ [])
    (hrun : run <+: raw.drop first) : lines (unlines run) = run :=
  lines_unlines hne fun l hl => hraw l (List.mem_of_mem_drop (hrun.subset hl))

theorem isChain (h : Tiles raw first ss stop) (hraw : ∀ l ∈ raw, '\n' ∉ l) :
    ss.IsChain fun s t => t.lineOffset = s.lineOffset + (lines s.text).length := by
  induction h with
  | nil => exact List.IsChain.nil
  | @cons first _ run ss hne hrun htail ih =>
      cases htail with
      | nil => exact List.IsChain.singleton _
      | cons =>
          refine List.isChain_cons_cons.mpr ⟨?_, ih⟩
          rw [lines_of_run hraw hne hrun]

/-- **The lines of the parts in order** are the lines from the first one up to the last. -/
theorem flatMap_lines (h : Tiles raw first ss stop) (hraw : ∀ l ∈ raw, '\n' ∉ l) :
    (ss.flatMap fun s => lines s.text) <+: raw.drop first ∧
      first + (ss.flatMap fun s => lines s.text).length = stop := by
  induction h with
  | nil => exact ⟨List.nil_prefix, rfl⟩
  | @cons first stop run ss hne hrun _ ih =>
      obtain ⟨htaken, hlength⟩ := ih
      rw [List.flatMap_cons, lines_of_run hraw hne hrun]
      constructor
      · obtain ⟨later, hlater⟩ := hrun
        obtain ⟨behind, hbehind⟩ := htaken
        refine ⟨behind, ?_⟩
        -- what follows the run is what is left of the lines behind it
        have hdrop : raw.drop (first + run.length) = later := by
          rw [← List.drop_drop, ← hlater, List.drop_left]
        rw [List.append_assoc, hbehind, hdrop, hlater]
      · rw [List.length_append, ← Nat.add_assoc]
        exact hlength

/-- The lines from one index up to a later one make a part. -/
theorem slice (hlt : first < stop) (hstop : stop ≤ raw.length) {last : Nat}
    (h : Tiles raw stop ss last) :
    Tiles raw first (⟨first, unlines (Source.slice raw first stop)⟩ :: ss) last := by
  have hlength : (Source.slice raw first stop).length = stop - first := by
    rw [Source.slice, List.length_drop, List.length_take, Nat.min_eq_left hstop]
  refine Tiles.cons ?_ ?_ ?_
  · rw [← List.length_pos_iff, hlength]
    omega
  · rw [Source.slice, List.drop_take]
    exact List.take_prefix _ _
  · rw [hlength, Nat.add_sub_cancel' (Nat.le_of_lt hlt)]
    exact h

end Tiles

/-- Behind the lines of code `done`, the loop over the lines `codes` leaves no gap: whatever part is
    open there, it and the parts behind it tile the lines `raw`, and no line behind the last part
    declares a unit. Where no unit is open, no line since `start` has declared one. -/
def TilesBehind (raw done codes : List (List Char)) : Prop :=
  ∀ (start : Nat) (open? : Option UnitKind), start ≤ done.length →
    (open?.isSome = true → start < done.length) →
    (open? = none → ∀ code ∈ done.drop start, Declaration.ofLine? code = none) →
    ∃ ss stop, cutByIndex? raw done.length start open? codes = some ss ∧ Tiles raw start ss stop ∧
      ∀ code ∈ (done ++ codes).drop stop, Declaration.ofLine? code = none

section Gap

variable {raw done codes : List (List Char)} {code : List Char}

/-- A part that is open behind the last line goes up to it. -/
theorem tilesBehind_nil (hlength : done.length = raw.length) : TilesBehind raw done [] := by
  intro start open? hstart hopen hnone
  rw [cutByIndex?, List.append_nil]
  cases open? with
  | none => exact ⟨[], start, rfl, Tiles.nil start, hnone rfl⟩
  | some kind =>
      have hlt : start < raw.length := hlength ▸ hopen rfl
      refine ⟨_, raw.length, ?_, Tiles.slice hlt (Nat.le_refl _) (Tiles.nil _), ?_⟩
      · rw [if_pos (by simpa using hlt), segmentAt?_eq (Nat.le_of_lt hlt) (Nat.le_refl _)]
        rfl
      · rw [← hlength, List.drop_length]
        exact fun _ hcode => nomatch hcode

/-- **One line**: if the loop leaves no gap behind it, it leaves none in front of it. -/
theorem TilesBehind.cons (hle : done.length + 1 ≤ raw.length)
    (hnext : TilesBehind raw (done ++ [code]) codes) : TilesBehind raw done (code :: codes) := by
  have hdone : (done ++ [code]).length = done.length + 1 := List.length_append
  rw [TilesBehind, hdone, ← List.append_cons] at hnext
  intro start open? hstart hopen hnone
  have hmore : start ≤ done.length + 1 := Nat.le_succ_of_le hstart
  cases open? with
  | none =>
      rw [cutByIndex?]
      refine hnext start _ hmore (fun _ => Nat.lt_succ_of_le hstart) ?_
      intro hcode c hc
      rw [List.drop_append_of_le_length hstart] at hc
      rcases List.mem_append.mp hc with hc | hc
      · exact hnone rfl c hc
      · rw [List.mem_singleton.mp hc]
        exact Option.map_eq_none_iff.mp hcode
  | some kind =>
      have hlt : start < done.length := hopen rfl
      by_cases hend : startsWithKeyword kind.endKeyword code = true
      · obtain ⟨ss, stop, hcut, htiles, hrest⟩ := hnext (done.length + 1) none (Nat.le_refl _) nofun
          (fun _ => by rw [← hdone, List.drop_length]; exact fun _ hc => nomatch hc)
        refine ⟨_, stop, ?_, Tiles.slice (Nat.lt_succ_of_lt hlt) hle htiles, hrest⟩
        rw [cutByIndex?_end hend, segmentAt?_eq hmore hle, hcut]
        rfl
      · cases hd : Declaration.ofLine? code with
        | some next =>
            obtain ⟨ss, stop, hcut, htiles, hrest⟩ := hnext done.length (some next.kind)
              (Nat.le_succ _) (fun _ => Nat.lt_succ_self _) nofun
            have hle' : done.length ≤ raw.length := Nat.le_of_succ_le hle
            refine ⟨_, stop, ?_, Tiles.slice hlt hle' htiles, hrest⟩
            rw [cutByIndex?_next hend hd, segmentAt?_eq hstart hle', hcut]
            rfl
        | none =>
            rw [cutByIndex?_inside hend hd]
            exact hnext start (some kind) hmore (fun _ => Nat.lt_succ_of_le hstart) nofun

/-- **The loop leaves no gap**, by induction on the lines ahead. -/
theorem tilesBehind (raw done codes : List (List Char))
    (hlength : (done ++ codes).length = raw.length) : TilesBehind raw done codes := by
  induction codes generalizing done with
  | nil => exact tilesBehind_nil (by rwa [List.append_nil] at hlength)
  | cons code codes ih =>
      have hle : done.length + 1 ≤ raw.length := by
        rw [← hlength, List.length_append, List.length_cons]
        omega
      exact (ih (done ++ [code]) (by rwa [← List.append_cons])).cons hle

end Gap

/-! ## The parts of a source -/

/-- **The parts of a source** are its lines up to the end of the last unit, each exactly once and in
    order. No line is taken by an index out of range; the first part begins with the first line, each
    part is a run of lines that is not empty, and the next one begins on the line behind it; and no
    line of code behind the last part declares a unit. -/
theorem splitUnits_partition (source : List Char) :
    cutByIndex? (lines (normalizeLineEndings source)) 0 0 none
        (lines (stripComments (normalizeLineEndings source))) = some (splitUnits source) ∧
      (∀ s ∈ (splitUnits source).head?, s.lineOffset = 0) ∧
      (∀ s ∈ splitUnits source, ∃ run, run ≠ [] ∧ s.text = unlines run ∧
        run <+: (lines (normalizeLineEndings source)).drop s.lineOffset) ∧
      ((splitUnits source).IsChain fun s t => t.lineOffset = s.lineOffset + (lines s.text).length) ∧
      ((splitUnits source).flatMap fun s => lines s.text) <+: lines (normalizeLineEndings source) ∧
      ∀ code ∈ (lines (stripComments (normalizeLineEndings source))).drop
          ((splitUnits source).flatMap fun s => lines s.text).length,
        Declaration.ofLine? code = none := by
  have hlength : (lines (stripComments (normalizeLineEndings source))).length
      = (lines (normalizeLineEndings source)).length := by
    rw [lines_stripComments, length_stripLines, normalizeLineEndings_idem]
  have hraw : ∀ l ∈ lines (normalizeLineEndings source), '\n' ∉ l :=
    fun l hl => newline_not_mem_of_mem_lines hl
  have hcut : cutByIndex? (lines (normalizeLineEndings source)) 0 0 none
      (lines (stripComments (normalizeLineEndings source))) = some (splitUnits source) :=
    cutsBehind [] _ hlength 0 none (Nat.le_refl 0) nofun
  obtain ⟨ss, stop, hss, htiles, hrest⟩ :=
    tilesBehind (lines (normalizeLineEndings source)) [] _ hlength 0 none (Nat.le_refl 0) nofun
      fun _ _ hc => nomatch hc
  obtain rfl : splitUnits source = ss := Option.some.inj (hcut.symm.trans hss)
  obtain ⟨htaken, hstop⟩ := htiles.flatMap_lines hraw
  rw [Nat.zero_add] at hstop
  refine ⟨hcut, htiles.lineOffset_head, htiles.exists_run, htiles.isChain hraw, htaken, ?_⟩
  rw [hstop]
  exact hrest

end StLint
