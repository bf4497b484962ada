import JBLang.Ast.Steps
import JBLang.Types.Hierarchy

/-!
# The vtable pointer in the emitted structs

A constructor writes the vtable pointer and a virtual call reads it along a path of at most two
members, chosen by whether the class has a parent. Here the paths are followed through the
structs that `visitClassDecl` emits.
-/

namespace JBLang.Classes

open JBLang.Base JBLang.Types JBLang.Ast

variable {ts : TypeSystem} {C : Str} {t : Ty}

/-- The member of that name in the struct of a class; C accepts no second member of the name. -/
def memberNamed (ts : TypeSystem) (className name : Str) : Option LayoutMember :=
  match ts.classes[className]? with
  | none => none
  | some t => match (classLayout ts className t).filter (·.name = name) with
    | [m] => some m
    | _ => none

/-- The class whose struct holds the vtable pointer that a member path of an object of class
`className` denotes. -/
def vtableOwner (ts : TypeSystem) (className : Str) : List Str → Option Str
  | [] => none
  | [name] => match memberNamed ts className name with
    | some .vtable => some className
    | _ => none
  | name :: path => match memberNamed ts className name with
    | some (.parent parentClass) => vtableOwner ts parentClass path
    | _ => none

/-- The path that the constructor of `C`, declared as `t`, writes and the path that a call on an
object of static class `C` reads denote one vtable pointer. -/
def VTablePathsMeet (ts : TypeSystem) (C : Str) (t : Ty) : Prop :=
  ∃ owner, vtableOwner ts C (VTablePath.ofType t).members = some owner ∧
    ∀ callType, ts.resolveType C = .ok callType →
      vtableOwner ts C (VTablePath.ofType callType).members = some owner

/-- Where a call takes the class name for another type, by a `typedef` of the same name, that
type has a parent if the class has one. -/
def CallAgreesOnParent (ts : TypeSystem) (C : Str) (t : Ty) : Prop :=
  ∀ callType, ts.resolveType C = .ok callType → callType.hasParent = t.hasParent

/-- The class type declares a field of this name. -/
def DeclaresField (t : Ty) (name : Str) : Prop := name ∈ t.structMembers.map Prod.fst

instance (t : Ty) (name : Str) : Decidable (DeclaresField t name) :=
  inferInstanceAs (Decidable (name ∈ t.structMembers.map Prod.fst))

/-- A class without parent has no field `vtable`; a class with a parent has no field `parent`,
and its parent is a class without parent, with a virtual method of its own and without a field
`vtable`. -/
def VTableNearby (ts : TypeSystem) (t : Ty) : Prop :=
  if t.hasParent then
    ¬ DeclaresField t "parent" ∧ ∃ p, ts.classes[t.parentClass]? = some p ∧ p.hasParent = false ∧
      ts.hasVirtualMethods t.parentClass = true ∧ ¬ DeclaresField p "vtable"
  else ¬ DeclaresField t "vtable"

/-! ### Members of a struct -/

/-- The fields of that name, as members. -/
private def fieldsNamed (t : Ty) (name : Str) : List LayoutMember :=
  (t.structMembers.map fun m ↦ LayoutMember.field m.1 m.2).filter (·.name = name)

private theorem fieldsNamed_eq_nil {name : Str} :
    fieldsNamed t name = [] ↔ ¬ DeclaresField t name := by
  have hname : ∀ m : Str × Ty, (LayoutMember.field m.1 m.2).name = m.1 := fun _ ↦ rfl
  rw [fieldsNamed, List.filter_map, List.map_eq_nil_iff, List.filter_eq_nil_iff]
  simp only [Function.comp_apply, decide_eq_true_eq]
  simp only [DeclaresField, hname, List.mem_map, not_exists, not_and]

private theorem ne_of_mem_fieldsNamed {name : Str} {m m' : LayoutMember}
    (hm : ∀ n type, m ≠ .field n type) (h : m' ∈ fieldsNamed t name) : m' ≠ m := by
  obtain ⟨n, -, rfl⟩ := List.mem_map.mp (List.mem_filter.mp h).1
  exact (hm _ _).symm

/-- The embedded parent or the vtable pointer is found under its name when it heads the struct
and no field has that name too. -/
theorem memberNamed_head_iff (ht : ts.classes[C]? = some t) {m : LayoutMember}
    (hm : ∀ n type, m ≠ .field n type) :
    memberNamed ts C m.name = some m ↔
      layoutHead ts C t = some m ∧ ¬ DeclaresField t m.name := by
  rw [← fieldsNamed_eq_nil]
  have hlayout : (classLayout ts C t).filter (·.name = m.name) =
      (layoutHead ts C t).toList.filter (·.name = m.name) ++ fieldsNamed t m.name :=
    List.filter_append ..
  simp only [memberNamed, ht, hlayout]
  by_cases hhead : ∃ m', layoutHead ts C t = some m' ∧ m'.name = m.name
  · obtain ⟨m', h', hname⟩ := hhead
    cases hf : fieldsNamed t m.name with
    | nil => simp [h', hname]
    | cons f fs => simp [h', hname]
  · have hnil : (layoutHead ts C t).toList.filter (·.name = m.name) = [] := by
      simpa [List.filter_eq_nil_iff] using hhead
    have hne : layoutHead ts C t ≠ some m := fun h ↦ hhead ⟨m, h, rfl⟩
    simp only [hnil, List.nil_append, hne, false_and, iff_false]
    split
    next m' hf =>
      simpa using ne_of_mem_fieldsNamed hm (hf ▸ List.mem_singleton_self m')
    next => simp

/-- Where the embedded parent is found. -/
theorem memberNamed_parent_iff (ht : ts.classes[C]? = some t) {P : Str} :
    memberNamed ts C "parent" = some (.parent P) ↔
      t.hasParent = true ∧ t.parentClass = P ∧ ¬ DeclaresField t "parent" := by
  have hhead : layoutHead ts C t = some (.parent P) ↔ t.hasParent = true ∧ t.parentClass = P := by
    unfold layoutHead
    cases t.hasParent <;> cases ts.hasVirtualMethods C <;> simp
  rw [← and_assoc, ← hhead]
  exact memberNamed_head_iff (m := .parent P) ht fun _ _ ↦ LayoutMember.noConfusion

/-- Where the vtable pointer is found. -/
theorem memberNamed_vtable_iff (ht : ts.classes[C]? = some t) :
    memberNamed ts C "vtable" = some .vtable ↔
      t.hasParent = false ∧ ts.hasVirtualMethods C = true ∧ ¬ DeclaresField t "vtable" := by
  have hhead : layoutHead ts C t = some .vtable ↔
      t.hasParent = false ∧ ts.hasVirtualMethods C = true := by
    unfold layoutHead
    cases t.hasParent <;> cases ts.hasVirtualMethods C <;> simp
  rw [← and_assoc, ← hhead]
  exact memberNamed_head_iff (m := .vtable) ht fun _ _ ↦ LayoutMember.noConfusion

/-! ### Paths -/

theorem vtableOwner_own {owner : Str} (ht : ts.classes[C]? = some t) :
    vtableOwner ts C VTablePath.own.members = some owner ↔
      owner = C ∧ t.hasParent = false ∧ ts.hasVirtualMethods C = true ∧
        ¬ DeclaresField t "vtable" := by
  rw [← memberNamed_vtable_iff ht]
  unfold VTablePath.members vtableOwner
  split
  next h => rw [h, Option.some.injEq, eq_comm, and_iff_left rfl]
  next h => exact ⟨nofun, fun hm ↦ absurd hm.2 h⟩

theorem vtableOwner_viaParent {owner : Str} (ht : ts.classes[C]? = some t) :
    vtableOwner ts C VTablePath.viaParent.members = some owner ↔
      t.hasParent = true ∧ ¬ DeclaresField t "parent" ∧
        vtableOwner ts t.parentClass VTablePath.own.members = some owner := by
  have hpath : vtableOwner ts C VTablePath.viaParent.members = some owner ↔
      ∃ P, memberNamed ts C "parent" = some (.parent P) ∧
        vtableOwner ts P VTablePath.own.members = some owner := by
    change vtableOwner ts C ["parent".toList, "vtable".toList] = some owner ↔ _
    rw [vtableOwner]
    · split
      next P h =>
        rw [h]
        constructor
        · exact fun ho ↦ ⟨P, rfl, ho⟩
        · rintro ⟨_, ⟨⟩, ho⟩
          exact ho
      next h => exact ⟨nofun, fun ⟨P, hm, _⟩ ↦ absurd hm (h P)⟩
    · nofun
  simp only [hpath, memberNamed_parent_iff ht]
  constructor
  · rintro ⟨P, ⟨hp, rfl, hf⟩, ho⟩
    exact ⟨hp, hf, ho⟩
  · rintro ⟨hp, hf, ho⟩
    exact ⟨_, ⟨hp, rfl, hf⟩, ho⟩

/-- A class without parent has itself the virtual method that its chain has. -/
private theorem hasVirtualMethods_of_root {l : List Str} (hl : Chain ts.parentOf C l)
    (ht : ts.classes[C]? = some t) (hp : t.hasParent = false)
    (hv : ∃ D ∈ l, ts.hasVirtualMethods D = true) : ts.hasVirtualMethods C = true := by
  have hroot : ts.parentOf C = none := by rw [TypeSystem.parentOf_of_class ht, hp]; rfl
  rw [hl.unique (.last hroot)] at hv
  simpa using hv

/-- One path is in the emitted structs where the vtable pointer is near. -/
theorem vtableOwner_ofType (h : ts.Hierarchy) (ht : ts.classes[C]? = some t)
    (hv : ∃ D, Relation.ReflTransGen (Follows ts.parentOf) C D ∧ ts.hasVirtualMethods D = true) :
    (∃ owner, vtableOwner ts C (VTablePath.ofType t).members = some owner) ↔
      VTableNearby ts t := by
  unfold VTableNearby VTablePath.ofType
  cases hp : t.hasParent with
  | false =>
    obtain ⟨l, hl, -⟩ := h.exists_chain C
    simp only [← hl.mem_iff] at hv
    have hown := hasVirtualMethods_of_root hl ht hp hv
    simp only [Bool.false_eq_true, if_false, vtableOwner_own ht, hp, hown, true_and, exists_eq_left]
  | true =>
    have hlink : ts.parentOf C = some t.parentClass := by
      rw [TypeSystem.parentOf_of_class ht, hp]; rfl
    obtain ⟨p, hpc⟩ := TypeSystem.exists_class_of_mem (h.parent_declared C _ hlink)
    simp only [if_true, vtableOwner_viaParent ht, vtableOwner_own hpc, hp, hpc, true_and,
      exists_and_left, exists_eq_left, Option.some.injEq, exists_eq_left']

/-- The other path is not in the emitted structs. -/
private theorem hasParent_eq_of_vtableOwner {callType : Ty} {owner : Str}
    (ht : ts.classes[C]? = some t)
    (ho : vtableOwner ts C (VTablePath.ofType callType).members = some owner) :
    callType.hasParent = t.hasParent := by
  unfold VTablePath.ofType at ho
  cases hc : callType.hasParent with
  | false =>
    rw [hc] at ho
    exact ((vtableOwner_own ht).mp ho).2.1.symm
  | true =>
    rw [hc] at ho
    exact ((vtableOwner_viaParent ht).mp ho).1.symm

/-- The two paths to the vtable pointer of a class with a virtual method on its chain meet in one
vtable pointer of the emitted structs exactly when it is in the class itself or in its parent, and
no `typedef` misleads the call. -/
theorem vtable_paths_meet_iff (h : ts.Hierarchy) (ht : ts.classes[C]? = some t)
    (hv : ∃ D, Relation.ReflTransGen (Follows ts.parentOf) C D ∧ ts.hasVirtualMethods D = true) :
    VTablePathsMeet ts C t ↔ VTableNearby ts t ∧ CallAgreesOnParent ts C t := by
  rw [← vtableOwner_ofType h ht hv]
  constructor
  · rintro ⟨owner, ho, hcall⟩
    exact ⟨⟨owner, ho⟩, fun callType hres ↦
      hasParent_eq_of_vtableOwner ht (hcall callType hres)⟩
  · rintro ⟨⟨owner, ho⟩, hcall⟩
    refine ⟨owner, ho, fun callType hres ↦ ?_⟩
    rw [VTablePath.ofType, hcall callType hres]
    exact ho

private def nameA : Ident := ⟨"A".toList, isIdentifier_A⟩

private def nameB : Ident := ⟨"B".toList, isIdentifier_B⟩

private def nameC : Ident := ⟨"C".toList, isIdentifier_C⟩

private def nameM : Ident := ⟨"m".toList, isIdentifier_m⟩

/-- `class A { virtual void m() {} } class B : A {} class C : B { C() {} }` -/
def threeLevels : Program where
  directives := []
  statements := [.classDecl nameA none [.method true .void nameM [] []],
    .classDecl nameB (some nameA) [], .classDecl nameC (some nameB) [.constructor nameC [] none []]]

/-- The type system after the first pass. -/
def typesOf (p : Program) : TypeSystem := (afterFirstPass ⟨true⟩ p).typeSystem

/-- A class's type as the first pass leaves it. -/
def typeOf (p : Program) (C : Str) : Ty := ((typesOf p).classes[C]?).getD { base := .class }

private theorem class_typeOf {p : Program} (h : ((typesOf p).classes[C]?).isSome = true) :
    (typesOf p).classes[C]? = some (typeOf p C) := by
  obtain ⟨t, ht⟩ := Option.isSome_iff_exists.mp h
  rw [typeOf, ht]
  rfl

private theorem threeLevels_hierarchy : (typesOf threeLevels).Hierarchy :=
  .of_parentsFirst ["A".toList, "B".toList, "C".toList] (by decide +kernel)

private theorem threeLevels_parentOf_B : (typesOf threeLevels).parentOf "B" = some "A".toList := by
  decide +kernel

private theorem threeLevels_virtual_A : (typesOf threeLevels).hasVirtualMethods "A" = true := by
  decide +kernel

/-- In `B` of `threeLevels` the paths meet, in the vtable pointer of `A`. -/
theorem vtable_paths_meet_iff_threeLevels :
    VTablePathsMeet (typesOf threeLevels) "B" (typeOf threeLevels "B") := by
  have ht := class_typeOf (p := threeLevels) (C := "B") (by decide +kernel)
  have hA := class_typeOf (p := threeLevels) (C := "A") (by decide +kernel)
  have hp : (typeOf threeLevels "B").hasParent = true := by decide +kernel
  have hparent : (typeOf threeLevels "B").parentClass = "A" := by decide +kernel
  have hcall : ((typesOf threeLevels).resolveType "B").toOption.map (·.hasParent) = some true := by
    decide +kernel
  refine (vtable_paths_meet_iff threeLevels_hierarchy ht
    ⟨"A".toList, .single threeLevels_parentOf_B, threeLevels_virtual_A⟩).mpr ⟨?_, ?_⟩
  · rw [VTableNearby, if_pos hp, hparent]
    exact ⟨by decide +kernel, _, hA, by decide +kernel, threeLevels_virtual_A, by decide +kernel⟩
  · intro callType hres
    rw [hres] at hcall
    rw [hp]
    exact Option.some.inj hcall

/-- In `C` of `threeLevels`, with the virtual method of `A` on its chain, the constructor writes
to a member of `B` that the struct of `B` does not have. -/
theorem threeLevels_path_missing :
    (typesOf threeLevels).Hierarchy ∧
      Relation.ReflTransGen (Follows (typesOf threeLevels).parentOf) "C".toList "A".toList ∧
      (typesOf threeLevels).hasVirtualMethods "A" = true ∧
      (typesOf threeLevels).classes["C".toList]? = some (typeOf threeLevels "C") ∧
      ¬ VTablePathsMeet (typesOf threeLevels) "C" (typeOf threeLevels "C") := by
  have hCB : (typesOf threeLevels).parentOf "C" = some "B".toList := by decide +kernel
  refine ⟨threeLevels_hierarchy, .head hCB (.single threeLevels_parentOf_B), threeLevels_virtual_A,
    class_typeOf (by decide +kernel), ?_⟩
  rintro ⟨owner, ho, -⟩
  have hnone : vtableOwner (typesOf threeLevels) "C"
      (VTablePath.ofType (typeOf threeLevels "C")).members = none := by decide +kernel
  rw [hnone] at ho
  cases ho

end JBLang.Classes
