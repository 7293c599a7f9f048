import Mathlib.Data.Multiset.Filter
import StLint.Proofs.Analysis.Selection
import StLint.Proofs.Check.Owner
import StLint.Proofs.Graph.File

/-!
# Findings in another order

Findings are shuffled where what has **one identity** keeps its order, and a circle may be found with its
units in another order. A report on shuffled findings has the same issues, in some order, and says the same
about them.

* `Issue.Agrees`, `Report.Agrees` — issues and reports that differ in order alone.
* `Rearranged` — findings that are shuffled, with their circles found again.
* `Engine.select_rel` — what is selected from rearranged findings agrees.
* `Engine.reportOn_agrees` — reports agree where their issues do.
-/

namespace StLint

/-! ## Elements that correspond -/

section Related

variable {α β : Type} {r : α → β → Prop} {s : Multiset α} {t : Multiset β}
  {p : α → Prop} {q : β → Prop} [DecidablePred p] [DecidablePred q]

/-- What is selected from both sides alike corresponds. -/
theorem rel_filter (h : Multiset.Rel r s t) (hpq : ∀ a b, r a b → (p a ↔ q b)) :
    Multiset.Rel r (s.filter p) (t.filter q) := by
  induction h with
  | zero => exact .zero
  | @cons a b s t hab _ ih =>
      by_cases hp : p a
      · rw [Multiset.filter_cons_of_pos _ hp, Multiset.filter_cons_of_pos _ ((hpq a b hab).mp hp)]
        exact .cons hab ih
      · rw [Multiset.filter_cons_of_neg _ hp,
          Multiset.filter_cons_of_neg _ fun hq => hp ((hpq a b hab).mpr hq)]
        exact ih

/-- As many are selected on both sides. -/
theorem countP_eq_of_rel (h : Multiset.Rel r s t) (hpq : ∀ a b, r a b → (p a ↔ q b)) :
    s.countP p = t.countP q := by
  rw [Multiset.countP_eq_card_filter, Multiset.countP_eq_card_filter]
  exact Multiset.card_eq_card_of_rel (rel_filter h hpq)

end Related

/-! ## Issues that agree -/

namespace Issue

/-- Two issues are the same, or they are about one circle and list its units in two orders. -/
inductive Agrees : Issue → Issue → Prop
  | same (i : Issue) : Agrees i i
  | circle {i : Issue} {names : List String} (id description : String)
      (htype : i.type = .circularDependency) (hnames : i.unitNames.Perm names) :
      Agrees i { i with id, description, unitNames := names }

namespace Agrees

variable {i j : Issue}

theorem type_eq (h : i.Agrees j) : i.type = j.type := by cases h <;> rfl

theorem severity_eq (h : i.Agrees j) : i.severity = j.severity := by cases h <;> rfl

theorem confidence_eq (h : i.Agrees j) : i.confidence = j.confidence := by cases h <;> rfl

theorem withId (h : i.Agrees j) : i.withId.Agrees j.withId := by
  cases h with
  | same => exact .same _
  | circle id description htype hnames => exact .circle (i := i.withId) _ _ htype hnames

theorem withSource (source : String) (h : i.Agrees j) :
    Agrees { i with source } { j with source } := by
  cases h with
  | same => exact .same _
  | circle id description htype hnames =>
      exact .circle (i := { i with source }) _ _ htype hnames

end Agrees

/-- An issue is about a circle. -/
def isCircle (i : Issue) : Bool := i.type = .circularDependency

theorem isCircle_eq_of_key {i j : Issue} (h : i.key = j.key) : i.isCircle = j.isCircle :=
  congrArg (fun k : IssueKey => decide (k.type = .circularDependency)) h

theorem OnlyOf.isCircle_eq {u : Pou} {i : Issue} (h : i.OnlyOf u) : i.isCircle = false :=
  decide_eq_false h.type_ne

theorem filter_isCircle_eq_nil {is : List Issue} (h : ∀ i ∈ is, i.isCircle = false) :
    is.filter isCircle = [] :=
  List.filter_eq_nil_iff.mpr fun i hi => Bool.eq_false_iff.mp (h i hi)

end Issue

/-! ## Findings in another order -/

/-- The findings of two analyses differ in their order, in a way that a report does not show: circles agree
    in some order, and of all else what has one identity is found in one order. -/
structure Rearranged (as bs : List Issue) : Prop where
  circles : Multiset.Rel Issue.Agrees (as.filter Issue.isCircle : Multiset Issue)
    (bs.filter Issue.isCircle)
  others : SameByKey Issue.key (as.filter fun i => !i.isCircle) (bs.filter fun i => !i.isCircle)

namespace Rearranged

variable {as bs as' bs' : List Issue}

theorem refl (as : List Issue) : Rearranged as as where
  circles := Multiset.rel_refl_of_refl_on fun i _ => .same i
  others := .refl _

theorem append (h : Rearranged as bs) (h' : Rearranged as' bs') :
    Rearranged (as ++ as') (bs ++ bs') where
  circles := by
    rw [List.filter_append, List.filter_append, ← Multiset.coe_add, ← Multiset.coe_add]
    exact h.circles.add h'.circles
  others := by
    rw [List.filter_append, List.filter_append]
    exact h.others.append h'.others

theorem flatMap {ι : Type} {is : List ι} {f g : ι → List Issue}
    (h : ∀ i ∈ is, Rearranged (f i) (g i)) : Rearranged (is.flatMap f) (is.flatMap g) := by
  induction is with
  | nil => exact refl []
  | cons i is ih =>
      rw [List.flatMap_cons, List.flatMap_cons]
      exact (h i (List.mem_cons_self ..)).append (ih fun j hj => h j (List.mem_cons_of_mem _ hj))

/-- Naming what reported them rearranges findings no further. -/
theorem withSource (source : String) (h : Rearranged as bs) :
    Rearranged (as.map fun i => { i with source }) (bs.map fun i => { i with source }) where
  circles := by
    rw [List.filter_map, List.filter_map, ← Multiset.map_coe, ← Multiset.map_coe, Multiset.rel_map]
    exact h.circles.mono fun _ _ _ _ hij => hij.withSource source
  others := by
    rw [List.filter_map, List.filter_map]
    exact h.others.map fun _ => rfl

/-- Circles that agree are rearranged. -/
theorem of_circles (ha : ∀ i ∈ as, i.isCircle = true) (hb : ∀ i ∈ bs, i.isCircle = true)
    (h : Multiset.Rel Issue.Agrees (as : Multiset Issue) bs) : Rearranged as bs where
  circles := by
    rw [List.filter_eq_self.mpr ha, List.filter_eq_self.mpr hb]
    exact h
  others := by
    have hnil : ∀ {is : List Issue}, (∀ i ∈ is, i.isCircle = true) →
        is.filter (fun i => !i.isCircle) = [] := by
      intro is his
      refine List.filter_eq_nil_iff.mpr ?_
      intro i hi
      rw [his i hi]
      exact Bool.noConfusion
    rw [hnil ha, hnil hb]
    exact .refl []

/-- **Findings about single units are rearranged with the units.** -/
theorem of_perm {units units' : List Pou} (hnames : DistinctNames units) (hperm : units.Perm units')
    {f : Pou → List Issue} (hf : ∀ u, ∀ i ∈ f u, i.OnlyOf u) :
    Rearranged (units.flatMap f) (units'.flatMap f) := by
  have hnot : ∀ vs : List Pou, ∀ i ∈ vs.flatMap f, i.isCircle = false := by
    intro vs i hi
    obtain ⟨u, -, hu⟩ := List.mem_flatMap.mp hi
    exact (hf u i hu).isCircle_eq
  have hothers : ∀ vs : List Pou, (vs.flatMap f).filter (fun i => !i.isCircle) = vs.flatMap f := by
    intro vs
    refine List.filter_eq_self.mpr ?_
    intro i hi
    rw [hnot vs i hi]
    rfl
  refine ⟨?_, ?_⟩
  · rw [Issue.filter_isCircle_eq_nil (hnot units), Issue.filter_isCircle_eq_nil (hnot units')]
    exact .zero
  · rw [hothers, hothers]
    have hnodup : (units.map fun u => [u.name]).Nodup := by
      refine List.pairwise_map.mpr (hnames.imp ?_)
      intro u v huv heq
      exact huv (List.singleton_inj.mp heq ▸ SameName.refl _)
    exact .flatMap_perm hperm hnodup IssueKey.unitNames fun u i hi => (hf u i hi).unitNames

end Rearranged

/-! ## What is selected -/

/-- **The first findings with each identity agree**, where no circle is found twice. -/
theorem Rearranged.rel_firstBy {as bs : List Issue} (h : Rearranged as bs)
    (ha : (as.filter Issue.isCircle).Pairwise fun i j => i.key ≠ j.key)
    (hb : (bs.filter Issue.isCircle).Pairwise fun i j => i.key ≠ j.key) :
    Multiset.Rel Issue.Agrees (firstBy Issue.key as : Multiset Issue) (firstBy Issue.key bs) := by
  -- circles are all kept, and of all else the same
  have hsplit : ∀ is : List Issue, ((is.filter Issue.isCircle).Pairwise fun i j => i.key ≠ j.key) →
      (firstBy Issue.key is : Multiset Issue)
        = is.filter Issue.isCircle + firstBy Issue.key (is.filter fun i => !i.isCircle) := by
    intro is his
    have hparts := List.filter_append_perm Issue.isCircle (firstBy Issue.key is)
    rw [filter_firstBy Issue.key fun _ _ => Issue.isCircle_eq_of_key, firstBy_eq_self Issue.key his,
      filter_firstBy Issue.key fun _ _ hij => congrArg not (Issue.isCircle_eq_of_key hij)] at hparts
    rw [Multiset.coe_add]
    exact Multiset.coe_eq_coe.mpr hparts.symm
  rw [hsplit as ha, hsplit bs hb, Multiset.coe_eq_coe.mpr h.others.firstBy_perm]
  exact h.circles.add (Multiset.rel_refl_of_refl_on fun i _ => .same i)

namespace Engine

/-- Issues that agree are kept or left out together. -/
theorem keeps_eq_of_agrees (e : Engine) (request : AnalysisRequest) {i j : Issue} (h : i.Agrees j) :
    e.keeps request i = e.keeps request j := by
  rw [keeps, keeps, AnalysisRequest.accepts, AnalysisRequest.accepts, h.type_eq, h.severity_eq,
    h.confidence_eq]

/-- **What is selected from rearranged findings agrees**, where no circle is found twice. -/
theorem select_rel (e : Engine) (request : AnalysisRequest) {as bs : List Issue} (h : Rearranged as bs)
    (ha : (as.filter Issue.isCircle).Pairwise fun i j => i.key ≠ j.key)
    (hb : (bs.filter Issue.isCircle).Pairwise fun i j => i.key ≠ j.key) :
    Multiset.Rel Issue.Agrees (e.select request as : Multiset Issue) (e.select request bs) := by
  have hselect : ∀ is : List Issue, (e.select request is : Multiset Issue)
      = ((firstBy Issue.key is : Multiset Issue).filter fun i => e.keeps request i = true).map
          Issue.withId := by
    intro is
    rw [select, Multiset.coe_eq_coe.mpr (List.mergeSort_perm _ _), Multiset.filter_coe,
      Multiset.map_coe]
    simp only [Bool.decide_eq_true]
  rw [hselect, hselect, Multiset.rel_map]
  have hkept := rel_filter (h.rel_firstBy ha hb) fun i j hij => Bool.eq_iff_iff.mp
    (e.keeps_eq_of_agrees request hij)
  exact hkept.mono fun _ _ _ _ hij => hij.withId

end Engine

/-! ## Reports that agree -/

/-- Two reports differ in the order of their issues alone, and of the units of each circle. -/
structure Report.Agrees (r r' : Report) : Prop where
  issues : Multiset.Rel Issue.Agrees (r.issues : Multiset Issue) r'.issues
  totalIssues : r.totalIssues = r'.totalIssues
  criticalIssues : r.criticalIssues = r'.criticalIssues
  warnings : r.warnings = r'.warnings
  summary : r.summary = r'.summary
  recommendations : r.recommendations = r'.recommendations
  failedChecks : r.failedChecks = r'.failedChecks

/-- Issues that agree are counted alike by severity and type. -/
theorem countP_eq_of_agrees {is js : List Issue}
    (h : Multiset.Rel Issue.Agrees (is : Multiset Issue) js) (p : Severity → IssueType → Bool) :
    is.countP (fun i => p i.severity i.type) = js.countP fun j => p j.severity j.type := by
  have hcount := countP_eq_of_rel (p := fun i => p i.severity i.type = true)
    (q := fun j => p j.severity j.type = true) h fun i j hij => by rw [hij.severity_eq, hij.type_eq]
  rw [Multiset.coe_countP, Multiset.coe_countP] at hcount
  simpa only [Bool.decide_eq_true] using hcount

theorem totalBy_perm {units units' : List Pou} (hperm : units.Perm units') (count : Pou → Nat) :
    totalBy count units = totalBy count units' := by
  have htotal : ∀ ns, total ns = ns.sum := by
    intro ns
    induction ns with
    | nil => rfl
    | cons n ns ih => rw [total_cons, ih, List.sum_cons]
  rw [totalBy, totalBy, htotal, htotal]
  exact (hperm.map count).sum_eq

theorem Summary.of_eq {units units' : List Pou} (hperm : units.Perm units') {is js : List Issue}
    (h : Multiset.Rel Issue.Agrees (is : Multiset Issue) js) : Summary.of units is = .of units' js := by
  rw [Summary.of, Summary.of, complexityScore, complexityScore, hperm.length_eq, totalBy_perm hperm,
    totalBy_perm hperm, safetyScore, safetyScore, maintainabilityScore, maintainabilityScore,
    countP_eq_of_agrees h fun _ t => t.isSafety, countP_eq_of_agrees h fun _ t => t.isMaintainability]

theorem recommendations_eq {is js : List Issue}
    (h : Multiset.Rel Issue.Agrees (is : Multiset Issue) js) :
    recommendations is = recommendations js := by
  have hcard := Multiset.card_eq_card_of_rel h
  rw [Multiset.coe_card, Multiset.coe_card] at hcard
  have hempty : is.isEmpty = js.isEmpty := by
    rw [Bool.eq_iff_iff, List.isEmpty_iff_length_eq_zero, List.isEmpty_iff_length_eq_zero, hcard]
  rw [recommendations, recommendations, hempty]
  congr 2
  funext b
  rw [Bucket.recommendation?, Bucket.recommendation?, Bucket.count, Bucket.count,
    countP_eq_of_agrees h fun _ t => b.types.contains t]

namespace Engine

/-- **Reports agree where their issues do.** -/
theorem reportOn_agrees (e : Engine) (request : AnalysisRequest) {units units' : List Pou}
    (hperm : units.Perm units') {found found' : Outcome}
    (hissues : Multiset.Rel Issue.Agrees (e.select request found.issues : Multiset Issue)
      (e.select request found'.issues))
    (hfailed : found.failed = found'.failed) :
    (e.reportOn request units found).Agrees (e.reportOn request units' found') where
  issues := hissues
  totalIssues := by
    have hcard := Multiset.card_eq_card_of_rel hissues
    rwa [Multiset.coe_card, Multiset.coe_card] at hcard
  criticalIssues := countP_eq_of_agrees hissues fun s _ => s = .critical
  warnings := countP_eq_of_agrees hissues fun s _ => s = .warning
  summary := Summary.of_eq hperm hissues
  recommendations := recommendations_eq hissues
  failedChecks := congrArg (firstBy id) hfailed

end Engine

end StLint
