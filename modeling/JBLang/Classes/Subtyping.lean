import JBLang.Ast.Steps
import JBLang.Types.Hierarchy

/-!
# Subtyping

`isSubclassOf` is the ancestor order of the class table. `isCompatible` compares printed types and
subclasses; on the types of a type system in which no name is both a struct and a class it is an
order up to what is printed.
-/

namespace JBLang.Classes

open JBLang.Base JBLang.Types JBLang.Ast JBLang.Codegen Relation

variable {ts ts' : TypeSystem} {t t' t'' : Ty}

/-! ### Types of a type system -/

/-- A type of a type system: a struct or a class is a declared one. Whether it is a pointer, and
when its members and its parent were read, does not matter. -/
structure Draws (ts : TypeSystem) (t : Ty) : Prop where
  struct_declared : t.base = .struct → t.structName ∈ ts.structs
  class_declared : t.base = .class → t.structName ∈ ts.classes

/-- The entries of the tables have the kind of their table and the name they stand under. -/
structure KeyedByName (ts : TypeSystem) : Prop where
  typedefs : ∀ (n : Str) t, ts.typedefs[n]? = some t → Draws ts t
  structs : ∀ (n : Str) t, ts.structs[n]? = some t → t.base = .struct ∧ t.structName = n ∧ '*' ∉ n
  classes : ∀ (n : Str) t, ts.classes[n]? = some t → t.base = .class ∧ t.structName = n ∧ '*' ∉ n

/-- No name is both a struct and a class. -/
def OneKind (ts : TypeSystem) : Prop := ∀ n : Str, n ∈ ts.structs → n ∉ ts.classes

theorem Draws.of_core (h : Draws ts t) (hbase : t'.base = t.base)
    (hname : t'.structName = t.structName) : Draws ts t' := by
  constructor
  · rw [hbase, hname]
    exact h.struct_declared
  · rw [hbase, hname]
    exact h.class_declared

theorem Draws.mono (h : Draws ts t) (hstructs : ∀ n : Str, n ∈ ts.structs → n ∈ ts'.structs)
    (hclasses : ∀ n : Str, n ∈ ts.classes → n ∈ ts'.classes) : Draws ts' t :=
  ⟨fun hb ↦ hstructs _ (h.struct_declared hb), fun hb ↦ hclasses _ (h.class_declared hb)⟩

namespace KeyedByName

theorem draws_struct (h : KeyedByName ts) {n : Str} (ht : ts.structs[n]? = some t) : Draws ts t := by
  obtain ⟨hbase, hname, -⟩ := h.structs n t ht
  refine ⟨fun _ ↦ ?_, fun hb ↦ ?_⟩
  · rw [hname, Std.TreeMap.mem_iff_isSome_getElem?, ht]
    rfl
  · rw [hbase] at hb
    cases hb

theorem draws_class (h : KeyedByName ts) {n : Str} (ht : ts.classes[n]? = some t) : Draws ts t := by
  obtain ⟨hbase, hname, -⟩ := h.classes n t ht
  refine ⟨fun hb ↦ ?_, fun _ ↦ ?_⟩
  · rw [hbase] at hb
    cases hb
  · rw [hname]
    exact TypeSystem.mem_classes_of_getElem? ht

/-- What a type text resolves to is a type of the type system. -/
theorem draws_of_resolveType (h : KeyedByName ts) {text : Str} (ht : ts.resolveType text = .ok t) :
    Draws ts t := by
  obtain ⟨name, t₀, ht₀, hcore⟩ := TypeSystem.translateType_eq_ok ht
  suffices Draws ts t₀ from this.of_core hcore.base hcore.structName
  rcases TypeSystem.resolveBase_eq_ok ht₀ with hbuiltin | hdef | hstruct | hclass
  · exact ⟨fun hb ↦ absurd hb hbuiltin.not_struct, fun hb ↦ absurd hb hbuiltin.not_class⟩
  · exact h.typedefs name t₀ hdef
  · exact h.draws_struct hstruct
  · exact h.draws_class hclass

theorem draws_of_resolveTypeText (h : KeyedByName ts) {text : Str}
    (ht : resolveTypeText ts text = .ok t) : Draws ts t := by
  unfold resolveTypeText at ht
  split at ht
  · simp only at ht
    split at ht
    · cases hres : ts.resolveType (List.drop 6 text).dropLast with
      | error e =>
        rw [hres] at ht
        cases ht
      | ok t₁ =>
        rw [hres] at ht
        cases ht
        exact (h.draws_of_resolveType hres).of_core rfl rfl
    · exact h.draws_of_resolveType ht
  · exact h.draws_of_resolveType ht

/-! ### Type systems of a run -/

private theorem star_not_mem (name : Ident) : '*' ∉ name.text :=
  not_mem_identifier name.valid (by decide) (by decide)

/-- A struct's entry is replaced by one of its name. -/
private theorem insert_struct (h : KeyedByName ts) {name : Str} (hbase : t.base = .struct)
    (hname : t.structName = name) (hstar : '*' ∉ name) :
    KeyedByName { ts with structs := ts.structs.insert name t } where
  typedefs n u hu := (h.typedefs n u hu).mono
    (fun n hn ↦ Std.TreeMap.mem_insert.mpr (.inr hn)) fun _ hn ↦ hn
  structs n u hu := by
    rw [NameMap.lookup_insert] at hu
    split at hu
    next heq =>
      cases hu
      rw [heq]
      exact ⟨hbase, hname, hstar⟩
    next => exact h.structs n u hu
  classes := h.classes

/-- A class's entry is replaced by one of its name. -/
private theorem of_lookup (h : KeyedByName ts) {name : Str}
    (hframe : ts' = { ts with classes := ts'.classes })
    (hlookup : ∀ C : Str, ts'.classes[C]? = if C = name then some t else ts.classes[C]?)
    (hbase : t.base = .class) (hname : t.structName = name) (hstar : '*' ∉ name) :
    KeyedByName ts' where
  typedefs n u hu := by
    rw [hframe] at hu
    refine (h.typedefs n u hu).mono (fun n hn ↦ ?_) fun n hn ↦ ?_
    · rw [hframe]
      exact hn
    · rw [Std.TreeMap.mem_iff_isSome_getElem?] at hn ⊢
      rw [hlookup]
      split
      · rfl
      · exact hn
  structs n u hu := by
    rw [hframe] at hu
    exact h.structs n u hu
  classes n u hu := by
    rw [hlookup] at hu
    split at hu
    next heq =>
      cases hu
      rw [heq]
      exact ⟨hbase, hname, hstar⟩
    next => exact h.classes n u hu

private theorem linkClass (h : KeyedByName ts) {name : Str} {parent : Option Str}
    {fields : List (Str × Ty)} (hlink : Ast.linkClass ts name parent fields = .ok (ts', t)) :
    KeyedByName ts' := by
  obtain ⟨hframe, hlookup, ⟨t₀, ht₀, rfl⟩, -⟩ := linkClass_spec hlink
  obtain ⟨hbase, hname, hstar⟩ := h.classes name t₀ ht₀
  exact h.of_lookup hframe hlookup hbase hname hstar

/-- Every step of a pass keeps the names. -/
theorem step {b : Bool} {s s' : VState} (h : KeyedByName s.typeSystem) (hstep : VisitStep b s s') :
    KeyedByName s'.typeSystem := by
  cases hstep with
  | write | temp | counting | symbols | defineMethod => exact h
  | registerFunction | registerConstructor | registerMethod =>
    exact ⟨fun n t ht ↦ ⟨(h.typedefs n t ht).struct_declared, (h.typedefs n t ht).class_declared⟩,
      h.structs, h.classes⟩
  | registerStruct name => exact h.insert_struct rfl rfl (star_not_mem name)
  | setStructMembers hm =>
    obtain ⟨t₀, ht₀, rfl, rfl⟩ := TypeSystem.setStructMembers_eq_ok.mp hm
    obtain ⟨hbase, hname, hstar⟩ := h.structs _ t₀ ht₀
    exact h.insert_struct hbase hname hstar
  | @registerTypeDef name type _ htype =>
    have hdraws : Draws s.typeSystem type := by
      rcases htype with ⟨text, htext⟩ | ⟨structName, hstruct⟩
      · exact h.draws_of_resolveTypeText htext
      · exact h.draws_struct hstruct
    refine ⟨fun n t ht ↦ ?_, h.structs, h.classes⟩
    rw [TypeSystem.registerTypeDef, NameMap.lookup_insert] at ht
    split at ht
    · cases ht
      exact ⟨hdraws.struct_declared, hdraws.class_declared⟩
    · exact ⟨(h.typedefs n t ht).struct_declared, (h.typedefs n t ht).class_declared⟩
  | @declareClass _ name parent fields ts type _ hlink =>
    have hregistered : KeyedByName (s.typeSystem.registerClass name.text) :=
      h.of_lookup rfl (NameMap.lookup_insert _ _ _) rfl rfl (star_not_mem name)
    exact hregistered.linkClass hlink
  | relinkClass _ _ hlink => exact h.linkClass hlink

theorem steps {b : Bool} {s s' : VState} (h : KeyedByName s.typeSystem) (hsteps : Steps b s s') :
    KeyedByName s'.typeSystem :=
  (hsteps.invariant (P := fun s ↦ KeyedByName s.typeSystem) (fun _ _ _ hstep h₁ ↦ h₁.step hstep) h).1

private theorem empty (defines : NameMap Str) : KeyedByName { defines } := by
  constructor <;> intro n t ht <;> simp at ht

/-- The type system of every translation names its entries. -/
theorem of_translate {gen : CCodeGenerator} {p : Program} {s : VState}
    (h : translate gen p = .ok s) : KeyedByName s.typeSystem := by
  obtain ⟨hfirst, s₁, hvtables, hsecond⟩ := translate_eq_ok h
  obtain ⟨output, defines, hsteps⟩ := (firstPassProgram_steps p).of_run _ _ hfirst
  obtain ⟨text, rfl⟩ := emitVTables_frame.of_run _ _ hvtables
  have hafter : KeyedByName (afterFirstPass gen p).typeSystem := KeyedByName.steps (empty defines) hsteps
  have second : Post (secondPassProgram gen p)
      { afterFirstPass gen p with output := (afterFirstPass gen p).output ++ text }
      fun _ s' ↦ KeyedByName s'.typeSystem := by
    simp only [secondPassProgram, post_bind, post_modify, post_emit, post_get]
    apply (visitTopLevel_steps p.statements).mono
    intro _ s₂ h₂
    exact KeyedByName.steps (s := { afterFirstPass gen p with
      output := (afterFirstPass gen p).output ++ text, firstPass := false }) hafter h₂
  exact second.of_run _ _ hsecond

end KeyedByName

/-! ### The orders -/

/-- `isSubclassOf` returns, and is the strict order of classes and their ancestors. -/
structure AncestorOrder (ts : TypeSystem) : Prop where
  subclass_iff : ∀ c p, ts.isSubclassOf c p = .ok true ↔ TransGen (Follows ts.parentOf) c p
  not_subclass_iff : ∀ c p, ts.isSubclassOf c p = .ok false ↔ ¬ TransGen (Follows ts.parentOf) c p
  irreflexive : ∀ c, ts.isSubclassOf c c = .ok false
  asymmetric : ∀ c p, ts.isSubclassOf c p = .ok true → ts.isSubclassOf p c = .ok false
  transitive : ∀ c p q, ts.isSubclassOf c p = .ok true → ts.isSubclassOf p q = .ok true →
    ts.isSubclassOf c q = .ok true

/-- A type of a type system that is no array. -/
def Scalar (ts : TypeSystem) (t : Ty) : Prop := Draws ts t ∧ t.isArray = false

/-- `isCompatible` returns, and is an order on types up to what they print. -/
structure CompatibilityOrder (ts : TypeSystem) : Prop where
  decided : ∀ t t', Scalar ts t → Scalar ts t' → ∃ b, ts.isCompatible t t' = .ok b
  reflexive : ∀ t, Scalar ts t → ts.isCompatible t t = .ok true
  transitive : ∀ t t' t'', Scalar ts t → Scalar ts t' → Scalar ts t'' →
    ts.isCompatible t t' = .ok true → ts.isCompatible t' t'' = .ok true →
      ts.isCompatible t t'' = .ok true
  mutual_iff : ∀ t t', Scalar ts t → Scalar ts t' →
    (ts.isCompatible t t' = .ok true ∧ ts.isCompatible t' t = .ok true ↔ t.toStr = t'.toStr)

theorem ancestorOrder (h : Acyclic ts.parentOf) : AncestorOrder ts where
  subclass_iff c p := (TypeSystem.isSubclassOf_iff h c p).1
  not_subclass_iff c p := (TypeSystem.isSubclassOf_iff h c p).2
  irreflexive c := (TypeSystem.isSubclassOf_iff h c c).2.mpr (h c)
  asymmetric c p hcp := by
    rw [(TypeSystem.isSubclassOf_iff h c p).1] at hcp
    exact (TypeSystem.isSubclassOf_iff h p c).2.mpr fun hpc ↦ h c (hcp.trans hpc)
  transitive c p q hcp hpq := by
    rw [(TypeSystem.isSubclassOf_iff h _ _).1] at hcp hpq ⊢
    exact hcp.trans hpq

/-! ### Printed types -/

private theorem toStr_scalar (h : t.isArray = false) : t.toStr =
    (if t.isStruct || t.isClass then "struct ".toList ++ t.structName else baseTypeToString t.base) ++
      if t.isPointer then "*".toList else [] := by
  have harray : t.array = none := by simpa [Ty.isArray] using h
  simp only [Ty.toStr, harray]
  by_cases hp : t.isPointer = true
  · rw [if_pos hp, if_pos hp]
  · rw [if_neg hp, if_neg hp, List.append_nil]

/-- A type that prints like a pointer to a struct or class is one, with the same name. -/
private theorem pointer_of_toStr_eq (ha : t.isArray = false) (ha' : t'.isArray = false)
    (hstar : t.isStruct || t.isClass → '*' ∉ t.structName) (hp : t'.isPointer = true)
    (hc : t'.isClass = true) (h : t.toStr = t'.toStr) :
    (t.isStruct || t.isClass) = true ∧ t.isPointer = true ∧ t.structName = t'.structName := by
  rw [toStr_scalar ha, toStr_scalar ha', hp, hc, Bool.or_true, if_pos rfl, if_pos rfl] at h
  cases hkind : t.isStruct || t.isClass with
  | false =>
    -- No builtin type prints an `s` first.
    rw [hkind, if_neg (by simp)] at h
    have hhead := congrArg List.head? h
    cases hb : t.base with
    | struct | «class» => simp [Ty.isStruct, Ty.isClass, hb] at hkind
    | void | int | string | bool =>
      rw [hb] at hhead
      cases hhead
  | true =>
    rw [hkind, if_pos rfl, List.append_assoc, List.append_assoc] at h
    have htail := List.append_cancel_left h
    cases hpt : t.isPointer with
    | true =>
      rw [hpt, if_pos rfl] at htail
      exact ⟨rfl, rfl, List.append_cancel_right htail⟩
    | false =>
      rw [hpt, if_neg (by simp), List.append_nil] at htail
      refine absurd ?_ (hstar hkind)
      rw [htail]
      exact List.mem_append_right _ (by simp)

private theorem star_not_mem_of_draws (h : KeyedByName ts) (ht : Draws ts t)
    (hkind : (t.isStruct || t.isClass) = true) : '*' ∉ t.structName := by
  rw [Bool.or_eq_true, Ty.isStruct, Ty.isClass, beq_iff_eq, beq_iff_eq] at hkind
  rcases hkind with hb | hb
  · obtain ⟨u, hu⟩ := Option.isSome_iff_exists.mp
      (Std.TreeMap.mem_iff_isSome_getElem?.mp (ht.struct_declared hb))
    exact (h.structs _ u hu).2.2
  · obtain ⟨u, hu⟩ := TypeSystem.exists_class_of_mem (ht.class_declared hb)
    exact (h.classes _ u hu).2.2

/-- A type that prints like a pointer to a class is a pointer to that class. -/
private theorem classPointer_of_toStr_eq (h : KeyedByName ts) (hone : OneKind ts)
    (ht : Scalar ts t) (ht' : Scalar ts t') (hp : t'.isPointer = true) (hc : t'.isClass = true)
    (heq : t.toStr = t'.toStr) :
    t.isPointer = true ∧ t.isClass = true ∧ t.structName = t'.structName := by
  obtain ⟨hkind, hpt, hname⟩ := pointer_of_toStr_eq ht.2 ht'.2
    (star_not_mem_of_draws h ht.1) hp hc heq
  refine ⟨hpt, ?_, hname⟩
  cases hct : t.isClass with
  | true => rfl
  | false =>
    have hs : t.isStruct = true := by simpa [hct] using hkind
    have hdeclared := ht.1.struct_declared (beq_iff_eq.mp hs)
    rw [hname] at hdeclared
    exact absurd (ht'.1.class_declared (beq_iff_eq.mp hc)) (hone _ hdeclared)

/-- Compatible types print the same or are pointers to a class and an ancestor of it. -/
private theorem isCompatible_iff (h : Acyclic ts.parentOf) :
    ts.isCompatible t t' = .ok true ↔ t.toStr = t'.toStr ∨
      (t.isPointer = true ∧ t'.isPointer = true ∧ t.isClass = true ∧ t'.isClass = true ∧
        TransGen (Follows ts.parentOf) t.structName t'.structName) := by
  unfold TypeSystem.isCompatible
  by_cases heq : t.toStr = t'.toStr
  · rw [if_pos heq]
    exact iff_of_true rfl (.inl heq)
  · rw [if_neg heq, or_iff_right heq]
    by_cases hc : (t.isPointer && t'.isPointer && t.isClass && t'.isClass) = true
    · rw [if_pos hc, (TypeSystem.isSubclassOf_iff h _ _).1]
      simp only [Bool.and_eq_true] at hc
      simp [hc]
    · rw [if_neg hc]
      refine iff_of_false nofun ?_
      rintro ⟨h₁, h₂, h₃, h₄, -⟩
      simp [h₁, h₂, h₃, h₄] at hc

theorem compatibilityOrder (hac : Acyclic ts.parentOf) (h : KeyedByName ts) (hone : OneKind ts) :
    CompatibilityOrder ts where
  decided t t' _ _ := by
    unfold TypeSystem.isCompatible
    split
    · exact ⟨_, rfl⟩
    · split
      · by_cases hsub : TransGen (Follows ts.parentOf) t.structName t'.structName
        · exact ⟨true, (TypeSystem.isSubclassOf_iff hac _ _).1.mpr hsub⟩
        · exact ⟨false, (TypeSystem.isSubclassOf_iff hac _ _).2.mpr hsub⟩
      · exact ⟨_, rfl⟩
  reflexive t _ := (isCompatible_iff hac).mpr (.inl rfl)
  transitive t t' t'' ht ht' ht'' h₁ h₂ := by
    rw [isCompatible_iff hac] at h₁ h₂ ⊢
    rcases h₁ with heq | ⟨hp, hp', hc, hc', hsub⟩
    · rcases h₂ with heq' | ⟨hp', hp'', hc', hc'', hsub'⟩
      · exact .inl (heq.trans heq')
      · obtain ⟨hp, hc, hname⟩ := classPointer_of_toStr_eq h hone ht ht' hp' hc' heq
        exact .inr ⟨hp, hp'', hc, hc'', hname ▸ hsub'⟩
    · rcases h₂ with heq' | ⟨-, hp'', -, hc'', hsub'⟩
      · obtain ⟨hp'', hc'', hname⟩ := classPointer_of_toStr_eq h hone ht'' ht' hp' hc' heq'.symm
        exact .inr ⟨hp, hp'', hc, hc'', hname ▸ hsub⟩
      · exact .inr ⟨hp, hp'', hc, hc'', hsub.trans hsub'⟩
  mutual_iff t t' _ _ := by
    rw [isCompatible_iff hac, isCompatible_iff hac]
    constructor
    · rintro ⟨heq | ⟨-, -, -, -, hsub⟩, heq' | ⟨-, -, -, -, hsub'⟩⟩
      · exact heq
      · exact heq
      · exact heq'.symm
      · exact absurd (hsub.trans hsub') (hac _)
    · exact fun heq ↦ ⟨.inl heq, .inl heq.symm⟩

/-- Over a class table without cycles `isSubclassOf` is the ancestor order; where in addition no
name is both a struct and a class, `isCompatible` orders the types up to what they print. -/
theorem subtyping_orders (h : Acyclic ts.parentOf) :
    AncestorOrder ts ∧ (KeyedByName ts → OneKind ts → CompatibilityOrder ts) :=
  ⟨ancestorOrder h, compatibilityOrder h⟩

private def parentA : Ident := ⟨"A".toList, isIdentifier_A⟩

private def childB : Ident := ⟨"B".toList, isIdentifier_B⟩

private def structS : Ident := ⟨"S".toList, by decide +kernel⟩

/-- `struct S {}; class A {} class B : A {}` -/
def classesAndStruct : Program where
  directives := []
  statements := [.structDecl ⟨structS, []⟩, .classDecl parentA none [],
    .classDecl childB (some parentA) []]

/-- Both orders hold in the type system of a translation. -/
theorem subtyping_orders_classesAndStruct :
    ∃ s, translate ⟨true⟩ classesAndStruct = .ok s ∧ s.typeSystem.parentOf "B" = some "A".toList ∧
      Acyclic s.typeSystem.parentOf ∧ KeyedByName s.typeSystem ∧ OneKind s.typeSystem ∧
      AncestorOrder s.typeSystem ∧ CompatibilityOrder s.typeSystem := by
  obtain ⟨s, hs⟩ := translate_of_isOk ⟨true⟩ classesAndStruct (by decide +kernel)
  have hfacts : (translate ⟨true⟩ classesAndStruct).toOption.map (fun s ↦
      (s.typeSystem.parentOf "B", s.typeSystem.parentsFirst ["A".toList, "B".toList],
        s.typeSystem.structs.keys.all fun n ↦ !(s.typeSystem.classes.contains n))) =
      some (some "A".toList, true, true) := by decide +kernel
  rw [hs] at hfacts
  obtain ⟨hparent, hfirst, hkinds⟩ :
      s.typeSystem.parentOf "B" = some "A".toList ∧
      s.typeSystem.parentsFirst ["A".toList, "B".toList] = true ∧
      (s.typeSystem.structs.keys.all fun n ↦ !(s.typeSystem.classes.contains n)) = true := by
    simpa only [Except.toOption, Option.map_some, Option.some.injEq, Prod.mk.injEq] using hfacts
  have hac := (TypeSystem.Hierarchy.of_parentsFirst _ hfirst).acyclic
  have hone : OneKind s.typeSystem := by
    intro n hn hc
    have hall := List.all_eq_true.mp hkinds n (Std.TreeMap.mem_keys.mpr hn)
    rw [Std.TreeMap.contains_iff_mem.mpr hc] at hall
    cases hall
  obtain ⟨hanc, hcomp⟩ := subtyping_orders hac
  exact ⟨s, hs, hparent, hac, .of_translate hs, hone, hanc, hcomp (.of_translate hs) hone⟩

end JBLang.Classes
