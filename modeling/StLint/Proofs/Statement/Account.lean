import StLint.Proofs.Statement.Trace

/-!
# What each segment adds

A body is what its segments add to it, one after the other. Labels, `ELSE` and `ELSIF … THEN` add
nothing and lead to the text behind them. **Where text is left, it adds a node or a diagnostic on the
line of its segment**, unless it begins with a keyword that is read without one: the end of a block,
`EXIT` or `CONTINUE`, or an `ELSIF` without its `THEN`.

* `coreText` — a segment without the punctuation that leads it; `remainder` — also without the
  closing keyword of a block.
* `exists_silent_iff` — which segments add nothing.
* `additions` — what each segment adds.
* `Body.accounts_ofLines` — a body is what its segments add, and which of them add something.
-/

namespace StLint.Statement

open Text Source

variable {later : List Segment} {line : Nat} {stack : BlockStack} {s : List Char}

/-! ## The text behind leading punctuation -/

/-- A segment without the label of a branch, the `ELSE` and the `ELSIF … THEN` that lead it, as often
    as they do. -/
def coreText (stack : BlockStack) (s : List Char) : List Char :=
  let t := statementText stack s
  match _h : Lead.ofWord (leadingWord t) with
  | .otherwise => coreText stack (afterWord t)
  | .branch =>
    if containsWord "THEN" (afterWord t) then coreText stack (splitHeader "THEN" (afterWord t)).2
    else t
  | _ => t
termination_by s.length
decreasing_by
  · exact Nat.lt_of_lt_of_le (length_afterWord_lt (by rw [_h]; simp)) (length_statementText_le _ _)
  · exact Nat.lt_of_le_of_lt (length_splitHeader_le _ _)
      (Nat.lt_of_lt_of_le (length_afterWord_lt (by rw [_h]; simp)) (length_statementText_le _ _))

/-- What is left of a text without the closing keyword that leads it; an `UNTIL` goes with its
    condition. -/
def withoutCloser (t : List Char) : List Char :=
  match Lead.ofWord (leadingWord t) with
  | .closes _ => behindCloser t
  | _ => t

/-- **What is left of a segment** without its leading punctuation and one closing keyword. -/
def remainder (stack : BlockStack) (s : List Char) : List Char := withoutCloser (coreText stack s)

theorem coreText_otherwise
    (h : Lead.ofWord (leadingWord (statementText stack s)) = .otherwise) :
    coreText stack s = coreText stack (afterWord (statementText stack s)) := by
  rw [coreText]
  split <;> simp_all

theorem coreText_elsif (h : Lead.ofWord (leadingWord (statementText stack s)) = .branch)
    (hthen : containsWord "THEN" (afterWord (statementText stack s)) = true) :
    coreText stack s = coreText stack (splitHeader "THEN" (afterWord (statementText stack s))).2 := by
  rw [coreText]
  split <;> simp_all

/-- Any other statement is kept as it is. -/
theorem coreText_eq_statementText
    (hotherwise : Lead.ofWord (leadingWord (statementText stack s)) ≠ .otherwise)
    (hthen : Lead.ofWord (leadingWord (statementText stack s)) = .branch →
      containsWord "THEN" (afterWord (statementText stack s)) = false) :
    coreText stack s = statementText stack s := by
  rw [coreText]
  split <;> simp_all

/-- No `ELSE` leads the text behind the punctuation. -/
theorem lead_coreText_ne_otherwise (stack : BlockStack) (s : List Char) :
    Lead.ofWord (leadingWord (coreText stack s)) ≠ .otherwise := by
  fun_induction coreText stack s with
  | case1 s t hlead ih | case2 s t hlead hthen ih => exact ih
  | case3 s t hlead hthen =>
      rw [hlead]
      exact nofun
  | case4 s t hotherwise hbranch => exact hotherwise

/-! ## Segments that add nothing -/

/-- A text that is read without a trace: nothing, or what a keyword leads that adds nothing. -/
def IsMute (t : List Char) : Prop := t = [] ∨ (Lead.ofWord (leadingWord t)).leavesTrace = false

/-- The text of a silent segment, by induction on the punctuation that leads it. -/
theorem isMute_of_silent {dropped : List Char} (h : Silent stack s dropped) :
    IsMute (coreText stack s) := by
  induction h with
  | blank h =>
      have hplain : Lead.ofWord (leadingWord []) = .plain := by decide
      left
      rw [coreText_eq_statementText, h]
      · rw [h, hplain]
        exact nofun
      · rw [h, hplain]
        exact nofun
  | elsif h hthen _ ih =>
      rw [coreText_elsif h hthen]
      exact ih
  | otherwise h _ ih =>
      rw [coreText_otherwise h]
      exact ih
  | elsifWithoutThen h hthen =>
      right
      rw [coreText_eq_statementText (by rw [h]; exact nofun) (fun _ => hthen), h]
      rfl
  | closes h | jumps h =>
      right
      rw [coreText_eq_statementText (by rw [h]; exact nofun) (by rw [h]; exact nofun), h]
      rfl

/-- **Which segments add nothing**: those whose text, behind all punctuation that leads it, is read
    without a trace. -/
theorem exists_silent_iff : (∃ dropped, Silent stack s dropped) ↔ IsMute (coreText stack s) := by
  refine ⟨fun ⟨_, h⟩ => isMute_of_silent h, ?_⟩
  intro h
  fun_induction coreText stack s with
  | case1 s t hlead ih => exact (exists_silent_otherwise_iff hlead).mpr (ih h)
  | case2 s t hlead hthen ih => exact (exists_silent_branch_iff hlead).mpr (ih h)
  | case3 s t hlead hthen =>
      exact ⟨_, .elsifWithoutThen hlead (by simpa using hthen)⟩
  | case4 s t hotherwise hbranch =>
      rcases h with h | h
      · exact ⟨[], .blank h⟩
      · cases hlead : Lead.ofWord (leadingWord (statementText stack s)) with
        | closes kind => exact ⟨_, .closes hlead⟩
        | jumps => exact ⟨_, .jumps hlead⟩
        | branch => exact absurd hlead hbranch
        | otherwise => exact absurd hlead hotherwise
        | opens | returns | plain =>
            rw [hlead] at h
            cases h

/-! ## What a segment adds -/

/-- What each segment adds, read under the blocks that are open before it. -/
def additions (stack : BlockStack) : List Segment → List Output
  | [] => []
  | s :: later =>
    (readStatement later s.line stack s.text).1 ::
      additions (readStatement later s.line stack s.text).2 later

/-- **Segments add nothing but what each of them adds.** -/
theorem readSegments_fst_eq (stack : BlockStack) (ss : List Segment) :
    (readSegments stack ss).1.nodes = (additions stack ss).flatMap Output.nodes ∧
      (readSegments stack ss).1.diagnostics = (additions stack ss).flatMap Output.diagnostics := by
  induction ss generalizing stack with
  | nil => exact ⟨rfl, rfl⟩
  | cons s later ih =>
      obtain ⟨hnodes, hdiagnostics⟩ := ih (readStatement later s.line stack s.text).2
      rw [readSegments_cons, additions, List.flatMap_cons, List.flatMap_cons, ← hnodes,
        ← hdiagnostics]
      exact ⟨rfl, rfl⟩

theorem getElem?_additions (stack : BlockStack) (before : List Segment) (s : Segment)
    (later : List Segment) :
    (additions stack (before ++ s :: later))[before.length]?
      = some (readStatement later s.line (stackAfter stack before) s.text).1 := by
  induction before generalizing stack with
  | nil => rfl
  | cons t before ih =>
      rw [stackAfter_cons (before ++ s :: later)]
      exact ih _

/-- What is not recognized is the only thing that a statement reports. -/
theorem kind_of_mem_readStatement (later : List Segment) (line : Nat) (stack : BlockStack)
    (s : List Char) :
    ∀ d ∈ (readStatement later line stack s).1.diagnostics, d.kind = .unrecognizedStatement := by
  induction stack, s using readStatement.induct later line with
  | case1 stack s hblank =>
      rw [readStatement_blank (List.isEmpty_iff.mp hblank)]
      intro d hd
      cases hd
  | case2 stack s _ _ _ kind hlead _ _ _ ih =>
      rw [readStatement_opens hlead]
      exact ih
  | case3 stack s _ _ hlead ih =>
      rw [readStatement_branch hlead]
      exact ih
  | case4 stack s _ _ hlead ih =>
      rw [readStatement_otherwise hlead]
      exact ih
  | case5 stack s _ _ kind hlead =>
      rw [readStatement_closes hlead]
      intro d hd
      cases hd
  | case6 stack s _ _ hlead =>
      rw [readStatement_returns hlead]
      intro d hd
      cases hd
  | case7 stack s _ _ hlead =>
      rw [readStatement_jumps hlead]
      intro d hd
      cases hd
  | case8 stack s hne _ hlead =>
      rw [readStatement_plain (by simpa using hne) hlead]
      intro d hd
      rw [readPlain] at hd
      split at hd
      · cases hd
      · split at hd
        · cases hd
        · rw [List.mem_singleton.mp hd]

/-- A node on the line, or a report on it of a statement that is not recognized. -/
def Output.AccountsFor (out : Output) (line : Nat) : Prop :=
  (∃ n ∈ out.nodes, n.line = line) ∨
    ∃ d ∈ out.diagnostics, d.kind = .unrecognizedStatement ∧ d.line = line

instance (out : Output) (line : Nat) : Decidable (out.AccountsFor line) :=
  inferInstanceAs (Decidable (_ ∨ _))

/-- **Whatever a segment adds accounts for its line.** -/
theorem accountsFor_of_ne_none
    (h : (readStatement later line stack s).1 ≠ .none) :
    (readStatement later line stack s).1.AccountsFor line := by
  have hstands := stands_readStatement later line stack s
  cases hnodes : (readStatement later line stack s).1.nodes with
  | cons n ns =>
      have hn : n ∈ (readStatement later line stack s).1.nodes := hnodes ▸ List.mem_cons_self ..
      exact Or.inl ⟨n, hn, (hstands.nodes n hn).1⟩
  | nil =>
      obtain ⟨d, hd⟩ : ∃ d, d ∈ (readStatement later line stack s).1.diagnostics :=
        List.exists_mem_of_ne_nil _ fun hdiagnostics => h (Output.ext hnodes hdiagnostics)
      exact Or.inr ⟨d, hd, kind_of_mem_readStatement later line stack s d hd,
        hstands.diagnostics d hd⟩

/-! ## A body -/

/-- A word that leaves a loop or goes on with it. -/
def isJump (t : List Char) : Bool := upper t = "EXIT".toList || upper t = "CONTINUE".toList

theorem lead_of_isJump {t : List Char} (h : isJump t = true) :
    Lead.ofWord (leadingWord t) = .jumps := by
  have hlead : ∀ {word : String}, (word.toList.all isWordChar) = true → upper t = word.toList →
      leadingWord t = t := by
    intro word hword ht
    have hchars : ∀ c ∈ t, isWordChar c = true := by
      intro c hc
      refine isWordChar_of_toUpper (List.all_eq_true.mp hword _ ?_)
      rw [← ht]
      exact List.mem_map_of_mem hc
    have happend := @leadingWord_append t [] hchars rfl
    rwa [List.append_nil] at happend
  rw [isJump, Bool.or_eq_true, decide_eq_true_eq, decide_eq_true_eq] at h
  rcases h with h | h
  · rw [hlead (by decide) h, Lead.ofWord, h]
    decide
  · rw [hlead (by decide) h, Lead.ofWord, h]
    decide

/-- A text that is left of a segment and is no punctuation is not read without a trace. -/
theorem not_isMute_coreText (hne : remainder stack s ≠ [])
    (hcloser : ∀ kind, Lead.ofWord (leadingWord (coreText stack s)) ≠ .closes kind)
    (hjump : Lead.ofWord (leadingWord (coreText stack s)) ≠ .jumps)
    (hbranch : Lead.ofWord (leadingWord (coreText stack s)) ≠ .branch) :
    ¬ IsMute (coreText stack s) := by
  rintro (h | h)
  · refine hne ?_
    rw [remainder, h]
    rfl
  · cases hlead : Lead.ofWord (leadingWord (coreText stack s)) with
    | closes kind => exact hcloser kind hlead
    | jumps => exact hjump hlead
    | branch => exact hbranch hlead
    | otherwise => exact lead_coreText_ne_otherwise stack s hlead
    | opens | returns | plain =>
        rw [hlead] at h
        cases h

namespace Body

/-- **No text of a body is dropped.** A body is what its segments add, in their order. A segment of
    which text is left, without its leading punctuation and one closing keyword, adds a node or a
    report on its line, unless what stands behind the punctuation begins with the closing keyword of
    a block, `EXIT` or `CONTINUE`, or an `ELSIF` without its `THEN`; `EXIT` and `CONTINUE` alone add
    nothing. -/
theorem accounts_ofLines (unit : String) (ls : List CodeLine) (start stop : Nat) :
    let ss := segments (slice ls start stop)
    let body := Body.ofLines unit ls start stop
    let added := additions (.start unit) ss
    body.root.children = added.flatMap Output.nodes ∧
      body.diagnostics = added.flatMap Output.diagnostics ++
        (stackAfter (.start unit) ss).outermostFirst.map unterminated ∧
      ∀ before s later, ss = before ++ s :: later →
        let stack := stackAfter (.start unit) before
        let lead := Lead.ofWord (leadingWord (coreText stack s.text))
        ∃ out, added[before.length]? = some out ∧
          (remainder stack s.text ≠ [] → out.AccountsFor s.line ∨
            (∃ kind, lead = .closes kind) ∨ lead = .jumps ∨ lead = .branch) ∧
          (isJump (coreText stack s.text) = true → out = .none) := by
  intro ss body added
  obtain ⟨hnodes, hdiagnostics⟩ := readSegments_fst_eq (.start unit) ss
  refine ⟨hnodes, congrArg (· ++ _) hdiagnostics, ?_⟩
  intro before s later hss stack lead
  have hout : added[before.length]? = some (readStatement later s.line stack s.text).1 := by
    show (additions (.start unit) ss)[before.length]? = _
    rw [hss]
    exact getElem?_additions (.start unit) before s later
  refine ⟨_, hout, ?_, ?_⟩
  · intro hne
    by_cases hexempt : (∃ kind, lead = .closes kind) ∨ lead = .jumps ∨ lead = .branch
    · exact Or.inr hexempt
    · obtain ⟨hcloser, hjump, hbranch⟩ : (∀ kind, lead ≠ .closes kind) ∧ lead ≠ .jumps ∧
          lead ≠ .branch := by
        simpa only [not_or, not_exists] using hexempt
      refine Or.inl (accountsFor_of_ne_none ?_)
      rw [Ne, readStatement_fst_eq_none_iff, exists_silent_iff]
      exact not_isMute_coreText hne hcloser hjump hbranch
  · intro hjump
    rw [readStatement_fst_eq_none_iff, exists_silent_iff]
    right
    rw [lead_of_isJump hjump]
    rfl

/-- A branch that leaves a loop, and one with a statement that is not recognized. -/
def unreadBranch : List CodeLine :=
  codeLines "CASE n OF
1: EXIT;
2: foo bar;
END_CASE".toList

/-- Behind its label the one adds nothing, and the other is reported. -/
theorem accounts_ofLines_unreadBranch :
    (additions (.start "Main") (segments (slice unreadBranch 0 4)))[1]? = some .none ∧
      ∃ out, (additions (.start "Main") (segments (slice unreadBranch 0 4)))[2]? = some out ∧
        out.AccountsFor 3 := by
  obtain ⟨-, -, h⟩ := accounts_ofLines "Main" unreadBranch 0 4
  obtain ⟨leave, hleave, -, hnone⟩ := h [⟨1, "CASE n OF".toList⟩] ⟨2, "1: EXIT".toList⟩
    [⟨3, "2: foo bar".toList⟩, ⟨4, "END_CASE".toList⟩] (by decide +kernel)
  obtain ⟨out, hout, haccounts, -⟩ := h [⟨1, "CASE n OF".toList⟩, ⟨2, "1: EXIT".toList⟩]
    ⟨3, "2: foo bar".toList⟩ [⟨4, "END_CASE".toList⟩] (by decide +kernel)
  have hplain : Lead.ofWord (leadingWord (coreText (stackAfter (.start "Main")
      [⟨1, "CASE n OF".toList⟩, ⟨2, "1: EXIT".toList⟩]) "2: foo bar".toList)) = .plain := by
    decide +kernel
  constructor
  · rw [← hnone (by decide +kernel)]
    exact hleave
  · refine ⟨out, hout, (haccounts (by decide +kernel)).resolve_right ?_⟩
    rw [hplain]
    rintro (⟨_, hcloser⟩ | hjump | hbranch)
    · cases hcloser
    · cases hjump
    · cases hbranch

/-! ## Text that is dropped -/

/-- A segment of which text is left adds neither a node nor a report. -/
def Drops (ls : List CodeLine) (s : Segment) (left : List Char) : Prop :=
  ∃ before later out, segments (slice ls 0 ls.length) = before ++ s :: later ∧
    remainder (stackAfter (.start "Main") before) s.text = left ∧ left ≠ [] ∧
    (additions (.start "Main") (segments (slice ls 0 ls.length)))[before.length]? = some out ∧
    ¬ out.AccountsFor s.line

theorem drops_of_segments {ls : List CodeLine} {s : Segment} {left : List Char}
    {before later : List Segment} (hss : segments (slice ls 0 ls.length) = before ++ s :: later)
    (hleft : remainder (stackAfter (.start "Main") before) s.text = left) (hne : left ≠ [])
    (hout : ¬ (readStatement later s.line (stackAfter (.start "Main") before) s.text).1.AccountsFor
      s.line) : Drops ls s left := by
  refine ⟨before, later, _, hss, hleft, hne, ?_, hout⟩
  rw [hss]
  exact getElem?_additions (.start "Main") before s later

/-- A loop that is left. -/
def leftLoop : List CodeLine := codeLines "FOR i := 1 TO 3 DO
EXIT;
END_FOR".toList

/-- A branch whose `THEN` stands on the next line, and a statement behind the end of its block. -/
def gluedStatement : List CodeLine :=
  codeLines "IF a THEN
ELSIF b
THEN x := 1;
END_IF z := 2;".toList

/-- **Text can be dropped**: an `EXIT`, a statement behind the end of a block, and an `ELSIF` without
    its `THEN`. -/
theorem exists_dropped_text :
    Drops leftLoop ⟨2, "EXIT".toList⟩ "EXIT".toList ∧
      Drops gluedStatement ⟨4, "END_IF z := 2".toList⟩ "z := 2".toList ∧
      Drops gluedStatement ⟨2, "ELSIF b".toList⟩ "ELSIF b".toList := by
  have hleft : segments (slice leftLoop 0 leftLoop.length) = [⟨1, "FOR i := 1 TO 3 DO".toList⟩] ++
      ⟨2, "EXIT".toList⟩ :: [⟨3, "END_FOR".toList⟩] := by decide +kernel
  have hbranch : segments (slice gluedStatement 0 gluedStatement.length)
      = [⟨1, "IF a THEN".toList⟩] ++ ⟨2, "ELSIF b".toList⟩ ::
        [⟨3, "THEN x := 1".toList⟩, ⟨4, "END_IF z := 2".toList⟩] := by decide +kernel
  have hbehind : segments (slice gluedStatement 0 gluedStatement.length)
      = [⟨1, "IF a THEN".toList⟩, ⟨2, "ELSIF b".toList⟩, ⟨3, "THEN x := 1".toList⟩] ++
        ⟨4, "END_IF z := 2".toList⟩ :: [] := hbranch
  refine ⟨drops_of_segments hleft ?_ ?_ ?_, drops_of_segments hbehind ?_ ?_ ?_,
    drops_of_segments hbranch ?_ ?_ ?_⟩
  all_goals decide +kernel

end Body

end StLint.Statement
