import StLint.Proofs.Collection.Keyed
import StLint.Proofs.Pou.Tree
import StLint.Proofs.Text.Bytes

/-!
# What a body calls

A call counts for a unit by its name, or by the type of the instance that it goes through. The names are
found on a walk over the whole tree, and what is found is sorted and kept once. So **the dependencies of a
body are a function of the names that it calls**: where in the tree a call stands, how often a name is called
and in which order plays no part.

* `Node.Within`, `Node.Calls` — the nodes of a tree at any depth, and the names that they call.
* `Callee.GoesThrough`, `Node.DependsOn`, `Node.Binds` — what a name that is called stands for.
* `Node.Reordered` — trees with the same subtrees in another order, and `Reordered.calls_iff`.
* `Dependencies.IsExact` — the dependencies and instances of a body, and `ofBody_exact`.
-/

namespace StLint

open Text

/-! ## The nodes of a tree -/

namespace Node

/-- A node stands in a tree, at the root or at any depth below it. -/
inductive Within (m : Node) : Node → Prop
  | root : Within m m
  | child {n c : Node} (hc : c ∈ n.children) (h : Within m c) : Within m n

theorem within_iff {m n : Node} : m.Within n ↔ m = n ∨ ∃ c ∈ n.children, m.Within c := by
  constructor
  · intro h
    cases h with
    | root => exact Or.inl rfl
    | child hc h => exact Or.inr ⟨_, hc, h⟩
  · rintro (rfl | ⟨c, hc, h⟩)
    · exact .root
    · exact .child hc h

theorem Within.mem_preorder {m n : Node} (h : m.Within n) : m ∈ n.preorder := by
  induction h with
  | root => exact Node.mem_preorder.mpr (Or.inl rfl)
  | child hc _ ih => exact Node.mem_preorder.mpr (Or.inr ⟨_, hc, ih⟩)

theorem within_of_mem_preorder : (n : Node) → ∀ m ∈ n.preorder, m.Within n
  | ⟨_, _, _, children, _, _⟩ =>
    forall_mem_preorder .root fun c hc m hm => .child hc (within_of_mem_preorder c m hm)
termination_by n => sizeOf n
decreasing_by
  have hlt : sizeOf c < sizeOf children := List.sizeOf_lt_of_mem hc
  simp only [Node.mk.sizeOf_spec]
  omega

/-- **The walk visits every node of the tree**, and no other. -/
theorem mem_walk_iff {m n : Node} : m ∈ n.walk ↔ m.Within n := by
  rw [walk_eq_preorder]
  exact ⟨within_of_mem_preorder n m, Within.mem_preorder⟩

/-- A name is called by a node of the tree. -/
def Calls (n : Node) (name : String) : Prop :=
  ∃ m : Node, m.Within n ∧ m.kind = .functionCall ∧ m.name = some name

theorem calls_iff {n : Node} {name : String} :
    n.Calls name ↔ (n.kind = .functionCall ∧ n.name = some name) ∨ ∃ c ∈ n.children, c.Calls name := by
  constructor
  · rintro ⟨m, hm, hcall⟩
    rcases within_iff.mp hm with rfl | ⟨c, hc, hm⟩
    · exact Or.inl hcall
    · exact Or.inr ⟨c, hc, m, hm, hcall⟩
  · rintro (hcall | ⟨c, hc, m, hm, hcall⟩)
    · exact ⟨n, .root, hcall⟩
    · exact ⟨m, .child hc hm, hcall⟩

/-- **Trees that differ in the order of statements and subtrees**: at any node the trees below it may stand
    in another order. -/
inductive Reordered : Node → Node → Prop
  | permuted {n : Node} {cs : List Node} (h : n.children.Perm cs) : Reordered n { n with children := cs }
  | inside {n c d : Node} {before after : List Node} (hchildren : n.children = before ++ c :: after)
      (h : Reordered c d) : Reordered n { n with children := before ++ d :: after }
  | trans {a b c : Node} (hab : Reordered a b) (hbc : Reordered b c) : Reordered a c

/-- Another order keeps the names that are called. -/
theorem Reordered.calls_iff {a b : Node} (h : a.Reordered b) {name : String} :
    b.Calls name ↔ a.Calls name := by
  induction h with
  | permuted h =>
      rw [Node.calls_iff, Node.calls_iff]
      exact or_congr Iff.rfl (exists_congr fun c => and_congr_left fun _ => h.mem_iff.symm)
  | inside hchildren _ ih =>
      rw [Node.calls_iff, Node.calls_iff, hchildren]
      refine or_congr Iff.rfl ?_
      simp only [List.mem_append, List.mem_cons, or_and_right, exists_or, exists_eq_left, ih]
  | trans _ _ ih ih' => exact ih'.trans ih

end Node

/-! ## What a name stands for -/

namespace Callee

variable {vars : List Variable}

/-- **A call goes through an instance**: the first variable with the name before the first dot, in any case,
    if its type may be a function block. -/
def GoesThrough (vars : List Variable) (call : String) (v : Variable) : Prop :=
  (∃ before after, vars = before ++ v :: after ∧
    ∀ w ∈ before, w.isNamed (firstComponent call.toList) = false) ∧
  v.isNamed (firstComponent call.toList) = true ∧ Language.isInstanceType v.baseType = true

theorem instance?_eq_some_iff {call : String} {v : Variable} :
    instance? vars call.toList = some v ↔ GoesThrough vars call v := by
  rw [instance?, Option.filter_eq_some_iff, List.find?_eq_some_iff_append, GoesThrough]
  simp only [Bool.not_eq_true']
  constructor
  · rintro ⟨⟨hnamed, before, after, hvars, hbefore⟩, htype⟩
    exact ⟨⟨before, after, hvars, hbefore⟩, hnamed, htype⟩
  · rintro ⟨⟨before, after, hvars, hbefore⟩, hnamed, htype⟩
    exact ⟨⟨hnamed, before, after, hvars, hbefore⟩, htype⟩

/-- The type of a variable without the white space around it. -/
def typeText (v : Variable) : String := String.ofList (trim v.dataType.toList)

/-- **What a body calls**, in terms of the names that are called. -/
theorem mem_callees_iff {body : Node} {callee : Callee} :
    callee ∈ body.walk.filterMap (resolve? vars) ↔
      (∃ call v, body.Calls call ∧ GoesThrough vars call v ∧ callee = .throughInstance ⟨v.name, typeText v⟩) ∨
      ∃ call, body.Calls call ∧ (∀ v, ¬ GoesThrough vars call v) ∧ callee = .direct call := by
  rw [List.mem_filterMap]
  constructor
  · rintro ⟨m, hm, hresolve⟩
    rw [Node.mem_walk_iff] at hm
    rw [resolve?] at hresolve
    by_cases hkind : m.kind = .functionCall
    · rw [if_pos hkind, Option.map_eq_some_iff] at hresolve
      obtain ⟨call, hname, hcallee⟩ := hresolve
      have hcall : body.Calls call := ⟨m, hm, hkind, hname⟩
      cases hinstance : instance? vars call.toList with
      | some v =>
          rw [hinstance] at hcallee
          exact Or.inl ⟨call, v, hcall, instance?_eq_some_iff.mp hinstance, hcallee.symm⟩
      | none =>
          rw [hinstance] at hcallee
          refine Or.inr ⟨call, hcall, ?_, hcallee.symm⟩
          intro v hv
          rw [instance?_eq_some_iff.mpr hv] at hinstance
          cases hinstance
    · rw [if_neg hkind] at hresolve
      cases hresolve
  · rintro (⟨call, v, ⟨m, hm, hkind, hname⟩, hthrough, rfl⟩ | ⟨call, ⟨m, hm, hkind, hname⟩, hnone, rfl⟩)
    · refine ⟨m, Node.mem_walk_iff.mpr hm, ?_⟩
      rw [resolve?, if_pos hkind, hname, Option.map_some, instance?_eq_some_iff.mpr hthrough]
      rfl
    · have hinstance : instance? vars call.toList = none := by
        cases hfound : instance? vars call.toList with
        | none => rfl
        | some v => exact absurd (instance?_eq_some_iff.mp hfound) (hnone v)
      refine ⟨m, Node.mem_walk_iff.mpr hm, ?_⟩
      rw [resolve?, if_pos hkind, hname, Option.map_some, hinstance]

end Callee

namespace Node

open Callee StLint.Language

/-- **A body depends on a name**: a call goes through an instance of this type, or it goes through none and
    has this name; standard functions never count, and reserved words are no names. -/
inductive DependsOn (body : Node) (vars : List Variable) (name : String) : Prop
  | throughInstance {call : String} {v : Variable} (hcall : body.Calls call)
      (hthrough : GoesThrough vars call v) (htype : typeText v = name)
      (hbuiltin : isBuiltin name.toList = false)
  | direct (hcall : body.Calls name) (hnone : ∀ v, ¬ GoesThrough vars name v)
      (hbuiltin : isBuiltin name.toList = false) (hreserved : isReserved name.toList = false)

/-- An instance that a call of the body goes through, with its type. -/
def Binds (body : Node) (vars : List Variable) (b : InstanceBinding) : Prop :=
  ∃ call v, body.Calls call ∧ GoesThrough vars call v ∧ b = ⟨v.name, typeText v⟩

end Node

/-! ## Dependencies and instances -/

namespace Dependencies

open Callee StLint.Language

variable {vars : List Variable} {body : Node}

theorem isKeyOrder_unitBefore : IsKeyOrder fun a b : String => decide (a < b) :=
  IsKeyOrder.ofLinearOrder

theorem isKeyOrder_instanceBefore : IsKeyOrder InstanceBinding.before := by
  refine (IsKeyOrder.pairs isKeyOrder_unitBefore isKeyOrder_unitBefore).comap
    (f := fun b : InstanceBinding => (b.name, b.typeName)) ?_
  rintro ⟨a, x⟩ ⟨b, y⟩ h
  obtain ⟨rfl, rfl⟩ := Prod.mk.inj h
  rfl

theorem mem_units_iff {name : String} : name ∈ (ofBody vars body).units ↔ body.DependsOn vars name := by
  rw [ofBody, mem_sortOnce, List.mem_filterMap]
  constructor
  · rintro ⟨callee, hcallee, hname⟩
    rcases mem_callees_iff.mp hcallee with ⟨call, v, hcall, hthrough, rfl⟩ | ⟨call, hcall, hnone, rfl⟩
    · rw [dependency?, Option.ite_none_left_eq_some, Bool.not_eq_true] at hname
      obtain ⟨hbuiltin, hname⟩ := hname
      obtain rfl := Option.some.inj hname
      exact .throughInstance hcall hthrough rfl hbuiltin
    · rw [dependency?, Option.ite_none_left_eq_some, Bool.or_eq_true, not_or, Bool.not_eq_true,
        Bool.not_eq_true] at hname
      obtain ⟨⟨hbuiltin, hreserved⟩, hname⟩ := hname
      obtain rfl := Option.some.inj hname
      exact .direct hcall hnone hbuiltin hreserved
  · rintro (⟨hcall, hthrough, rfl, hbuiltin⟩ | ⟨hcall, hnone, hbuiltin, hreserved⟩)
    · refine ⟨_, mem_callees_iff.mpr (Or.inl ⟨_, _, hcall, hthrough, rfl⟩), ?_⟩
      rw [dependency?, if_neg (by rw [hbuiltin]; exact Bool.false_ne_true)]
    · refine ⟨_, mem_callees_iff.mpr (Or.inr ⟨_, hcall, hnone, rfl⟩), ?_⟩
      rw [dependency?, if_neg (by rw [hbuiltin, hreserved]; exact Bool.false_ne_true)]

theorem mem_instances_iff {b : InstanceBinding} :
    b ∈ (ofBody vars body).instances ↔ body.Binds vars b := by
  rw [ofBody, mem_sortOnce, List.mem_filterMap]
  constructor
  · rintro ⟨callee, hcallee, hbinding⟩
    rcases mem_callees_iff.mp hcallee with ⟨call, v, hcall, hthrough, rfl⟩ | ⟨call, -, -, rfl⟩
    · exact ⟨call, v, hcall, hthrough, (Option.some.inj hbinding).symm⟩
    · cases hbinding
  · rintro ⟨call, v, hcall, hthrough, rfl⟩
    exact ⟨_, mem_callees_iff.mpr (Or.inl ⟨call, v, hcall, hthrough, rfl⟩), rfl⟩

/-- The dependencies of a body with some variables. -/
structure IsExact (vars : List Variable) (body : Node) (d : Dependencies) : Prop where
  /-- The names stand in the strict order of their bytes. -/
  units_ordered : d.units.Pairwise fun a b => utf8 a < utf8 b
  mem_units : ∀ name, name ∈ d.units ↔ body.DependsOn vars name
  /-- The instances stand in the strict order of their names, and for one name in that of their types. -/
  instances_ordered : d.instances.Pairwise fun a b =>
    utf8 a.name < utf8 b.name ∨ (a.name = b.name ∧ utf8 a.typeName < utf8 b.typeName)
  mem_instances : ∀ b, b ∈ d.instances ↔ body.Binds vars b

/-- **The dependencies of a body are exact.** -/
theorem isExact_ofBody (vars : List Variable) (body : Node) : (ofBody vars body).IsExact vars body where
  units_ordered := by
    refine (keySorted_sortOnce isKeyOrder_unitBefore _).imp ?_
    intro a b hab
    exact utf8_lt_utf8 (of_decide_eq_true hab)
  mem_units _ := mem_units_iff
  instances_ordered := by
    refine (keySorted_sortOnce isKeyOrder_instanceBefore _).imp ?_
    intro a b hab
    rw [id, id, InstanceBinding.before, Bool.or_eq_true, Bool.and_eq_true, decide_eq_true_eq,
      decide_eq_true_eq, decide_eq_true_eq] at hab
    exact hab.imp utf8_lt_utf8 (And.imp_right utf8_lt_utf8)
  mem_instances _ := mem_instances_iff

/-- **They are a function of the names that are called.** -/
theorem ofBody_congr {other : Node} (h : ∀ call, other.Calls call ↔ body.Calls call) :
    ofBody vars other = ofBody vars body := by
  have hcallees : ∀ callee, callee ∈ other.walk.filterMap (resolve? vars) ↔
      callee ∈ body.walk.filterMap (resolve? vars) := by
    intro callee
    rw [mem_callees_iff, mem_callees_iff]
    simp only [h]
  rw [ofBody, ofBody, Dependencies.mk.injEq]
  constructor
  · refine sortOnce_congr isKeyOrder_unitBefore fun name => ?_
    simp only [List.mem_filterMap, ← hcallees]
  · refine sortOnce_congr isKeyOrder_instanceBefore fun b => ?_
    simp only [List.mem_filterMap, ← hcallees]

/-- **The dependencies of a body are exact, and no order plays a part**: a body that calls the same names has
    them too, in particular one with its statements and subtrees in another order. -/
theorem ofBody_exact (vars : List Variable) (body : Node) :
    (ofBody vars body).IsExact vars body ∧
      (∀ other : Node, (∀ call, other.Calls call ↔ body.Calls call) →
        ofBody vars other = ofBody vars body) ∧
      ∀ other, body.Reordered other → ofBody vars other = ofBody vars body :=
  ⟨isExact_ofBody vars body, fun _ h => ofBody_congr h, fun _ h => ofBody_congr fun _ => h.calls_iff⟩

/-- A pump, a timer and a counter. -/
def plantVariables : List Variable :=
  [("Timer1", "TON"), ("Pump1", " PumpControl"), ("count", "INT")].map fun (name, dataType) =>
    { name, dataType, scope := .localVar, isConstant := false, isRetain := false, initialValue := none,
      description := none, address := none, line := 1 }

/-- A call, with other calls among its arguments. -/
def plantCall (name : String) (children : List Node) : Node :=
  { Node.leaf .functionCall 2 "Plant" with name := some name, children }

/-- Calls through both instances, and `Scale` as an argument of `MAX`. -/
def plantBody : Node :=
  { Node.leaf .root 0 "Plant" with
    children := [plantCall "Timer1" [], plantCall "MAX" [plantCall "pump1.Status" [], plantCall "Scale" []]] }

/-- The statements of the body and the arguments of `MAX` the other way round. -/
def plantBodyReversed : Node :=
  { Node.leaf .root 0 "Plant" with
    children := [plantCall "MAX" [plantCall "Scale" [], plantCall "pump1.Status" []], plantCall "Timer1" []] }

/-- Both bodies depend on the same units, through the same instances. -/
theorem ofBody_exact_plantBody :
    plantBody.Reordered plantBodyReversed ∧
      ofBody plantVariables plantBodyReversed = ofBody plantVariables plantBody ∧
      ofBody plantVariables plantBody
        = ⟨["PumpControl", "Scale"], [⟨"Pump1", "PumpControl"⟩, ⟨"Timer1", "TON"⟩]⟩ := by
  have harguments : (plantCall "MAX" [plantCall "pump1.Status" [], plantCall "Scale" []]).Reordered
      (plantCall "MAX" [plantCall "Scale" [], plantCall "pump1.Status" []]) :=
    .permuted (List.Perm.swap ..)
  have hreordered : plantBody.Reordered plantBodyReversed :=
    .trans (@Node.Reordered.inside plantBody _ _ [plantCall "Timer1" []] [] rfl harguments)
      (.permuted (List.Perm.swap ..))
  exact ⟨hreordered, (ofBody_exact plantVariables plantBody).2.2 _ hreordered, by decide +kernel⟩

end Dependencies

end StLint
