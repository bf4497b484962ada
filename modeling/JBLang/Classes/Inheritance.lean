import JBLang.Classes.VTableLayout

/-!
# Inherited layouts

The struct of a class starts with the struct of its parent. Flattened, it has the members of
`getAllClassMembers` and begins like the struct of each ancestor.
-/

namespace JBLang.Classes

open JBLang.Base JBLang.Types JBLang.Ast Relation

variable {ts : TypeSystem} {A C D : Str} {l : List Str}

/-! ### Flattened structs -/

/-- A member of a struct, with an embedded struct replaced by its members. -/
def flattenMember (flatten : Str → Except VisitError (List LayoutMember)) :
    LayoutMember → Except VisitError (List LayoutMember)
  | .parent className => flatten className
  | .vtable => .ok [.vtable]
  | .field name type => .ok [.field name type]

/-- The members of the struct of a class, with embedded structs flattened. -/
def flatLayoutFrom (ts : TypeSystem) : Nat → Str → Except VisitError (List LayoutMember)
  | 0, _ => .error .diverges
  | fuel + 1, className => match ts.classes[className]? with
    | none => .error (.compiler .typeError ("Class not found: " ++ className))
    | some t => do
      let parts ← (classLayout ts className t).mapM (flattenMember (flatLayoutFrom ts fuel))
      pure parts.flatten

/-- The flattened struct of a class. -/
def flatLayout (ts : TypeSystem) (className : Str) : Except VisitError (List LayoutMember) :=
  flatLayoutFrom ts ts.walkBound className

/-- The fields among the members of a struct: all but the vtable pointer. -/
def layoutFields : List LayoutMember → List (Str × Ty)
  | [] => []
  | .field name type :: members => (name, type) :: layoutFields members
  | .parent _ :: members | .vtable :: members => layoutFields members

/-- The struct of `A` stands at the very start of the struct of `C`. -/
inductive AtStart (ts : TypeSystem) (A : Str) : Str → Prop
  | self : AtStart ts A A
  | parent {C P : Str} {t : Ty} {rest : List LayoutMember} (ht : ts.classes[C]? = some t)
    (hlayout : classLayout ts C t = .parent P :: rest) (h : AtStart ts A P) : AtStart ts A C

/-! ### Flattening along a chain -/

/-- What a class adds to the struct of its parent: its fields, and without parent the vtable
pointer of a class with virtual methods. -/
def ownLayout (ts : TypeSystem) (C : Str) : List LayoutMember :=
  (if (ts.parentOf C).isNone && ts.hasVirtualMethods C then [LayoutMember.vtable] else []) ++
    (ts.ownMembers C).map fun m ↦ .field m.1 m.2

/-- The flattened struct of the first class of a chain. -/
def layoutOn (ts : TypeSystem) (l : List Str) : List LayoutMember :=
  l.reverse.flatMap (ownLayout ts)

theorem layoutOn_cons (C : Str) (l : List Str) :
    layoutOn ts (C :: l) = layoutOn ts l ++ ownLayout ts C := by
  simp [layoutOn]

private theorem mapM_fields (flatten : Str → Except VisitError (List LayoutMember))
    (members : List (Str × Ty)) :
    (members.map fun m ↦ LayoutMember.field m.1 m.2).mapM (flattenMember flatten) =
      .ok (members.map fun m ↦ [.field m.1 m.2]) := by
  induction members with
  | nil => rfl
  | cons m members ih =>
    rw [List.map_cons, List.mapM_cons, ih]
    rfl

private theorem flatten_fields (members : List (Str × Ty)) :
    (members.map fun m ↦ [LayoutMember.field m.1 m.2]).flatten =
      members.map fun m ↦ .field m.1 m.2 := by
  induction members with
  | nil => rfl
  | cons m members ih => rw [List.map_cons, List.flatten_cons, ih]; rfl

/-- The struct of a class without parent has no embedded struct. -/
private theorem flatLayoutFrom_root {fuel : Nat} {t : Ty} (ht : ts.classes[C]? = some t)
    (hp : ts.parentOf C = none) : flatLayoutFrom ts (fuel + 1) C = .ok (ownLayout ts C) := by
  have hparent : t.hasParent = false := by
    rw [TypeSystem.parentOf_of_class ht] at hp
    simpa using hp
  simp only [flatLayoutFrom, ht, classLayout, layoutHead, ownLayout, TypeSystem.ownMembers, hp,
    hparent, Bool.false_eq_true, if_false, Option.isNone_none, Bool.true_and]
  split
  · rw [Option.toList_some, List.singleton_append, List.mapM_cons, mapM_fields]
    exact congrArg Except.ok (by rw [List.flatten_cons, flatten_fields]; rfl)
  · rw [Option.toList_none, List.nil_append, mapM_fields]
    exact congrArg Except.ok (flatten_fields t.structMembers)

private theorem flatLayoutFrom_child {fuel : Nat} {P : Str} {layout : List LayoutMember}
    (hp : ts.parentOf C = some P) (hP : flatLayoutFrom ts fuel P = .ok layout) :
    flatLayoutFrom ts (fuel + 1) C = .ok (layout ++ ownLayout ts C) := by
  obtain ⟨t, ht, hparent, rfl⟩ := TypeSystem.parentOf_eq_some hp
  simp only [flatLayoutFrom, ht, classLayout, layoutHead, ownLayout, TypeSystem.ownMembers, hp,
    hparent, if_true, Option.isNone_some, Bool.false_and, Bool.false_eq_true, if_false]
  rw [Option.toList_some, List.singleton_append, List.mapM_cons, flattenMember, hP, mapM_fields]
  exact congrArg Except.ok (by rw [List.flatten_cons, flatten_fields]; rfl)

private theorem flatLayoutFrom_chain (hl : Chain ts.parentOf C l) {fuel : Nat}
    (hfuel : l.length ≤ fuel) :
    (∀ D ∈ l, D ∈ ts.classes) → flatLayoutFrom ts fuel C = .ok (layoutOn ts l) := by
  refine hl.walk hfuel (fun n C hn hmem ↦ ?_) fun n C P l hP _ ih hmem ↦ ?_
  · obtain ⟨t, ht⟩ := TypeSystem.exists_class_of_mem (hmem C (by simp))
    rw [flatLayoutFrom_root ht hn]
    simp [layoutOn]
  · rw [layoutOn_cons]
    exact flatLayoutFrom_child hP (ih fun D hD ↦ hmem D (List.mem_cons_of_mem _ hD))

/-- The flattened struct of a class is that of its chain. -/
theorem flatLayout_eq (h : ts.Hierarchy) (hC : C ∈ ts.classes) (hl : Chain ts.parentOf C l) :
    flatLayout ts C = .ok (layoutOn ts l) := by
  obtain ⟨l', hl', hlen⟩ := h.exists_chain C
  rw [hl'.unique hl] at hlen
  exact flatLayoutFrom_chain hl hlen (h.mem_classes_of_chain hC hl)

/-! ### Fields and beginnings -/

theorem layoutFields_append (l l' : List LayoutMember) :
    layoutFields (l ++ l') = layoutFields l ++ layoutFields l' := by
  induction l with
  | nil => rfl
  | cons m l ih => cases m <;> simp [layoutFields, ih]

private theorem layoutFields_fields (members : List (Str × Ty)) :
    layoutFields (members.map fun m ↦ .field m.1 m.2) = members := by
  induction members with
  | nil => rfl
  | cons m members ih => rw [List.map_cons, layoutFields, ih]

theorem layoutFields_ownLayout (C : Str) : layoutFields (ownLayout ts C) = ts.ownMembers C := by
  rw [ownLayout, layoutFields_append, layoutFields_fields]
  split <;> rfl

/-- The fields of a flattened struct are the members of the chain. -/
theorem layoutFields_layoutOn (l : List Str) : layoutFields (layoutOn ts l) = ts.membersOn l := by
  induction l with
  | nil => rfl
  | cons C l ih =>
    rw [layoutOn_cons, TypeSystem.membersOn_cons, layoutFields_append, ih, layoutFields_ownLayout]

/-- The chain of an ancestor is the end of a chain, so its struct is the beginning. -/
private theorem layoutOn_suffix (before l : List Str) :
    layoutOn ts l <+: layoutOn ts (before ++ l) := by
  rw [layoutOn, layoutOn, List.reverse_append, List.flatMap_append]
  exact List.prefix_append ..

private theorem membersOn_suffix (before l : List Str) :
    ts.membersOn l <+: ts.membersOn (before ++ l) := by
  rw [TypeSystem.membersOn, TypeSystem.membersOn, List.reverse_append, List.flatMap_append]
  exact List.prefix_append ..

theorem atStart_of_reflTransGen (h : ReflTransGen (Follows ts.parentOf) C A) : AtStart ts A C := by
  induction h using ReflTransGen.head_induction_on with
  | refl => exact .self
  | @head C P hP _ ih =>
    obtain ⟨t, ht, hparent, rfl⟩ := TypeSystem.parentOf_eq_some hP
    have hlayout : classLayout ts C t =
        .parent t.parentClass :: t.structMembers.map fun m ↦ .field m.1 m.2 := by
      simp only [classLayout, layoutHead, hparent, if_true]
      rfl
    exact .parent ht hlayout ih

/-- The emitted struct of a class, flattened, has exactly the members that `getAllClassMembers`
gives. Those of an ancestor come first, and so does the ancestor's whole struct. -/
theorem inherited_layout (h : ts.Hierarchy) (hC : C ∈ ts.classes) :
    ∃ members layout, ts.getAllClassMembers C = .ok members ∧ flatLayout ts C = .ok layout ∧
      layoutFields layout = members ∧
      ∀ A, TransGen (Follows ts.parentOf) C A → AtStart ts A C ∧
        ∃ membersA layoutA, ts.getAllClassMembers A = .ok membersA ∧
          flatLayout ts A = .ok layoutA ∧ membersA <+: members ∧ layoutA <+: layout := by
  obtain ⟨l, hl, -⟩ := h.exists_chain C
  refine ⟨_, _, h.getAllClassMembers_eq hC hl, flatLayout_eq h hC hl, layoutFields_layoutOn l, ?_⟩
  intro A hA
  have hmem : A ∈ l := hl.mem_iff.mpr hA.to_reflTransGen
  have hdeclared : A ∈ ts.classes := h.mem_classes_of_chain hC hl A hmem
  obtain ⟨before, l', rfl, hl'⟩ := hl.of_mem hmem
  exact ⟨atStart_of_reflTransGen hA.to_reflTransGen, _, _, h.getAllClassMembers_eq hdeclared hl',
    flatLayout_eq h hdeclared hl', membersOn_suffix before l', layoutOn_suffix before l'⟩

private def layoutA : Ident := ⟨"A".toList, isIdentifier_A⟩

private def layoutB : Ident := ⟨"B".toList, isIdentifier_B⟩

private def layoutC : Ident := ⟨"C".toList, isIdentifier_C⟩

private def fieldX : Ident := ⟨"x".toList, isIdentifier_x⟩

private def fieldY : Ident := ⟨"y".toList, isIdentifier_y⟩

private def layoutM : Ident := ⟨"m".toList, isIdentifier_m⟩

/-- `class A { int x; virtual void m() {} } class B : A {} class C : B { int y; }` -/
def fieldsOfThree : Program where
  directives := []
  statements := [
    .classDecl layoutA none [.field (.plain .int fieldX), .method true .void layoutM [] []],
    .classDecl layoutB (some layoutA) [],
    .classDecl layoutC (some layoutB) [.field (.plain .int fieldY)]]

/-- The third class of a chain has the fields of the first at its start. -/
theorem inherited_layout_fieldsOfThree :
    (typesOf fieldsOfThree).Hierarchy ∧ ∃ layout, flatLayout (typesOf fieldsOfThree) "C" = .ok layout ∧
      (layoutFields layout).map Prod.fst = ["x".toList, "y".toList] ∧
      AtStart (typesOf fieldsOfThree) "A" "C" := by
  have h : (typesOf fieldsOfThree).Hierarchy :=
    .of_parentsFirst ["A".toList, "B".toList, "C".toList] (by decide +kernel)
  have hC : "C".toList ∈ (typesOf fieldsOfThree).classes :=
    Std.TreeMap.contains_iff_mem.mp (by decide +kernel)
  obtain ⟨members, layout, hmembers, hlayout, hfields, hanc⟩ := inherited_layout h hC
  have hnames : ((typesOf fieldsOfThree).getAllClassMembers "C").toOption.map (·.map Prod.fst) =
      some ["x".toList, "y".toList] := by decide +kernel
  have hBC : (typesOf fieldsOfThree).parentOf "C" = some "B".toList := by decide +kernel
  have hAB : (typesOf fieldsOfThree).parentOf "B" = some "A".toList := by decide +kernel
  rw [hmembers] at hnames
  refine ⟨h, layout, hlayout, ?_, (hanc "A" (.head hBC (.single hAB))).1⟩
  rw [hfields]
  exact Option.some.inj hnames

end JBLang.Classes
