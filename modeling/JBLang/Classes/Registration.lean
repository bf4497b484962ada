import JBLang.Ast.Steps
import JBLang.Types.Hierarchy

/-!
# What the first pass registers

Invariants of the passes: the class table and the method lists agree with the record of the run,
and a method is virtual exactly if its text says so or it overrides an earlier registered virtual
method of an ancestor.
-/

namespace JBLang.Classes

open JBLang.Base JBLang.Types JBLang.Ast Relation

variable {s s' : VState} {ts : TypeSystem}

/-- A type that some name stands for. -/
inductive KnownType (ts : TypeSystem) (t : Ty) : Prop
  | typedefs (name : Str) (h : ts.typedefs[name]? = some t)
  | structs (name : Str) (h : ts.structs[name]? = some t)
  | classes (name : Str) (h : ts.classes[name]? = some t)

variable {t : Ty} {text : Str} {isVirtual : Bool}

/-- A name that resolves to a type with a parent is in one of the tables. -/
theorem resolveBase_lookup {name source : Str} (h : ts.resolveBase name source = .ok t)
    (hp : t.hasParent = true) : ts.typedefs[name]? = some t ∨ ts.structs[name]? = some t ∨
      ts.classes[name]? = some t := by
  rcases TypeSystem.resolveBase_eq_ok h with hbuiltin | hnamed
  · simp [hbuiltin.parentClass, Ty.hasParent] at hp
  · exact hnamed

/-- A resolved type with a parent has it from a type of the tables. -/
theorem resolveType_parent (h : ts.resolveType text = .ok t) (hp : t.hasParent = true) :
    ∃ t', KnownType ts t' ∧ t'.hasParent = true ∧ t'.parentClass = t.parentClass := by
  obtain ⟨name, t₀, ht₀, hcore⟩ := TypeSystem.translateType_eq_ok h
  rw [hcore.hasParent] at hp
  refine ⟨t₀, ?_, hp, hcore.parentClass.symm⟩
  rcases resolveBase_lookup ht₀ hp with h | h | h
  · exact .typedefs name h
  · exact .structs name h
  · exact .classes name h

theorem resolveTypeText_parent (h : resolveTypeText ts text = .ok t) (hp : t.hasParent = true) :
    ∃ t', KnownType ts t' ∧ t'.hasParent = true ∧ t'.parentClass = t.parentClass := by
  unfold resolveTypeText at h
  split at h
  · simp only at h
    split at h
    · cases ht : ts.resolveType (List.drop 6 text).dropLast with
      | error e => rw [ht] at h; cases h
      | ok t₁ =>
        rw [ht] at h
        cases h
        exact resolveType_parent (t := t₁) ht hp
    · exact resolveType_parent h hp
  · exact resolveType_parent h hp

/-- The tables of the type system and the record of the run agree. -/
structure Recorded (s : VState) : Prop where
  classes_iff : ∀ C : Str, C ∈ s.typeSystem.classes ↔ C ∈ s.classNames
  identifier : ∀ C ∈ s.classNames, isIdentifier C = true
  parent_declared : ∀ t, KnownType s.typeSystem t → t.hasParent = true →
    t.parentClass ∈ s.typeSystem.classes
  methods : ∀ C, s.typeSystem.getClassMethods C =
    (s.registered.filter (·.className = C)).map (·.method)
  method_name : ∀ e ∈ s.registered, e.method.name = e.className ++ "_" ++ e.methodName
  method_class : ∀ e ∈ s.registered, e.className ∈ s.classNames

namespace Recorded

variable {ts : TypeSystem} {type : Ty} {fields : List (Str × Ty)}

/-- A step that changes the types only: the new types have no other parents. -/
private theorem of_types (h : Recorded s) (hclasses : ts.classes = s.typeSystem.classes)
    (hmethods : ts.classMethods = s.typeSystem.classMethods)
    (hknown : ∀ t, KnownType ts t → t.hasParent = true →
      ∃ t', KnownType s.typeSystem t' ∧ t'.hasParent = true ∧ t'.parentClass = t.parentClass) :
    Recorded { s with typeSystem := ts } where
  classes_iff := by simpa only [hclasses] using h.classes_iff
  identifier := h.identifier
  parent_declared t ht hp := by
    obtain ⟨t', ht', hp', heq⟩ := hknown t ht hp
    rw [← heq, hclasses]
    exact h.parent_declared t' ht' hp'
  methods C := by
    simpa only [TypeSystem.getClassMethods, hmethods] using h.methods C
  method_name := h.method_name
  method_class := h.method_class

private theorem registerStruct (h : Recorded s) (name : Str) :
    Recorded { s with typeSystem := s.typeSystem.registerStruct name } := by
  refine h.of_types rfl rfl fun t ht hp ↦ ?_
  cases ht with
  | typedefs n ht => exact ⟨t, .typedefs n ht, hp, rfl⟩
  | classes n ht => exact ⟨t, .classes n ht, hp, rfl⟩
  | structs n ht =>
    rw [TypeSystem.registerStruct, NameMap.lookup_insert] at ht
    split at ht
    · cases ht
      simp [Ty.hasParent] at hp
    · exact ⟨t, .structs n ht, hp, rfl⟩

private theorem setStructMembers (h : Recorded s) {name : Str} {members : List (Str × Ty)}
    (hm : s.typeSystem.setStructMembers name members = .ok (ts, type)) :
    Recorded { s with typeSystem := ts } := by
  obtain ⟨t₀, ht₀, rfl, rfl⟩ := TypeSystem.setStructMembers_eq_ok.mp hm
  refine h.of_types rfl rfl fun t ht hp ↦ ?_
  cases ht with
  | typedefs n ht => exact ⟨t, .typedefs n ht, hp, rfl⟩
  | classes n ht => exact ⟨t, .classes n ht, hp, rfl⟩
  | structs n ht =>
    rw [NameMap.lookup_insert] at ht
    split at ht
    · cases ht
      exact ⟨t₀, .structs name ht₀, hp, rfl⟩
    · exact ⟨t, .structs n ht, hp, rfl⟩

private theorem registerTypeDef (h : Recorded s) (name : Str)
    (htype : (∃ text, resolveTypeText s.typeSystem text = .ok type) ∨
      ∃ structName : Str, s.typeSystem.structs[structName]? = some type) :
    Recorded { s with typeSystem := s.typeSystem.registerTypeDef name type } := by
  refine h.of_types rfl rfl fun t ht hp ↦ ?_
  cases ht with
  | structs n ht => exact ⟨t, .structs n ht, hp, rfl⟩
  | classes n ht => exact ⟨t, .classes n ht, hp, rfl⟩
  | typedefs n ht =>
    rw [TypeSystem.registerTypeDef, NameMap.lookup_insert] at ht
    split at ht
    · cases ht
      rcases htype with ⟨text, htext⟩ | ⟨structName, hstruct⟩
      · exact resolveTypeText_parent htext hp
      · exact ⟨type, .structs structName hstruct, hp, rfl⟩
    · exact ⟨t, .typedefs n ht, hp, rfl⟩

private theorem declareClass (h : Recorded s) {name : Ident} {parent : Option Str}
    (hlink : linkClass (s.typeSystem.registerClass name.text) name.text parent fields =
      .ok (ts, type)) :
    Recorded { s with typeSystem := ts, classNames := s.classNames ++ [name.text] } := by
  obtain ⟨hframe, hlookup, ⟨t₀, ht₀, htype⟩, hparent⟩ := linkClass_spec hlink
  have hregistered : ∀ C : Str, (s.typeSystem.registerClass name.text).classes[C]? =
      if C = name.text then some { base := .class, structName := name.text }
      else s.typeSystem.classes[C]? := NameMap.lookup_insert _ _ _
  have hlookup' : ∀ C : Str, ts.classes[C]? =
      if C = name.text then some type else s.typeSystem.classes[C]? := by
    intro C
    rw [hlookup, hregistered]
    split <;> rfl
  have hmem : ∀ C : Str, C ∈ ts.classes ↔ C = name.text ∨ C ∈ s.typeSystem.classes := by
    intro C
    rw [Std.TreeMap.mem_iff_isSome_getElem?, Std.TreeMap.mem_iff_isSome_getElem?, hlookup']
    split <;> simp [*]
  obtain rfl : t₀ = { base := .class, structName := name.text } := by
    rw [hregistered, if_pos rfl] at ht₀
    exact (Option.some.inj ht₀).symm
  exact {
    classes_iff := fun C ↦ by
      rw [hmem, h.classes_iff, List.mem_append, List.mem_singleton, or_comm]
    identifier := fun C hC ↦ by
      rcases List.mem_append.mp hC with hC | hC
      · exact h.identifier C hC
      · rw [List.mem_singleton.mp hC]
        exact name.valid
    parent_declared := fun t ht hp ↦ by
      rw [hmem]
      have hold : KnownType s.typeSystem t → t.parentClass ∈ s.typeSystem.classes :=
        fun ht ↦ h.parent_declared t ht hp
      cases ht with
      | typedefs n ht =>
        rw [hframe] at ht
        exact .inr (hold (.typedefs n ht))
      | structs n ht =>
        rw [hframe] at ht
        exact .inr (hold (.structs n ht))
      | classes n ht =>
        rw [hlookup'] at ht
        split at ht
        · cases ht
          cases parent with
          | none =>
            rw [htype] at hp
            simp [Ty.hasParent] at hp
          | some P =>
            have hP := hparent P rfl
            rw [Std.TreeMap.mem_iff_isSome_getElem?, hregistered] at hP
            rw [htype, Std.TreeMap.mem_iff_isSome_getElem?]
            change P = name.text ∨ _
            split at hP
            next heq => exact .inl heq
            next => exact .inr hP
        · exact .inr (hold (.classes n ht))
    methods := fun C ↦ by
      rw [hframe]
      exact h.methods C
    method_name := h.method_name
    method_class := fun e he ↦ List.mem_append_left _ (h.method_class e he) }

private theorem relinkClass (h : Recorded s) {name : Str} {parent : Option Str}
    (hlink : linkClass s.typeSystem name parent fields = .ok (ts, type)) :
    Recorded { s with typeSystem := ts } := by
  obtain ⟨hframe, hlookup, ⟨t₀, ht₀, htype⟩, hparent⟩ := linkClass_spec hlink
  have hmem : ∀ C : Str, C ∈ ts.classes ↔ C ∈ s.typeSystem.classes := by
    intro C
    rw [Std.TreeMap.mem_iff_isSome_getElem?, Std.TreeMap.mem_iff_isSome_getElem?, hlookup]
    split <;> simp [*]
  exact {
    classes_iff := fun C ↦ by rw [hmem, h.classes_iff]
    identifier := h.identifier
    parent_declared := fun t ht hp ↦ by
      rw [hmem]
      have hold : KnownType s.typeSystem t → t.parentClass ∈ s.typeSystem.classes :=
        fun ht ↦ h.parent_declared t ht hp
      cases ht with
      | typedefs n ht =>
        rw [hframe] at ht
        exact hold (.typedefs n ht)
      | structs n ht =>
        rw [hframe] at ht
        exact hold (.structs n ht)
      | classes n ht =>
        rw [hlookup] at ht
        split at ht
        · cases ht
          rw [htype] at hp ⊢
          cases parent with
          | none => exact h.parent_declared t₀ (.classes name ht₀) hp
          | some P => exact hparent P rfl
        · exact hold (.classes n ht)
    methods := fun C ↦ by
      rw [hframe]
      exact h.methods C
    method_name := h.method_name
    method_class := h.method_class }

theorem registerMethod (h : Recorded s) {entry : MethodEntry}
    (hC : entry.className ∈ s.classNames)
    (hname : entry.method.name = entry.className ++ "_" ++ entry.methodName) :
    Recorded { s with
      typeSystem := s.typeSystem.registerClassMethod entry.className entry.method
      registered := s.registered ++ [entry] } where
  classes_iff := h.classes_iff
  identifier := h.identifier
  parent_declared t ht hp := h.parent_declared t (by
    cases ht with
    | typedefs n ht => exact .typedefs n ht
    | structs n ht => exact .structs n ht
    | classes n ht => exact .classes n ht) hp
  methods C := by
    have hold := h.methods C
    rw [TypeSystem.getClassMethods, Std.TreeMap.getD_eq_getD_getElem?] at hold ⊢
    rw [TypeSystem.registerClassMethod, NameMap.lookup_insert, List.filter_append, List.map_append,
      ← hold]
    by_cases hCe : C = entry.className
    · rw [if_pos hCe]
      simp [hCe, TypeSystem.getClassMethods, Std.TreeMap.getD_eq_getD_getElem?]
    · simp [hCe, Ne.symm hCe]
  method_name e he := by
    rcases List.mem_append.mp he with he | he
    · exact h.method_name e he
    · rw [List.mem_singleton.mp he]
      exact hname
  method_class e he := by
    rcases List.mem_append.mp he with he | he
    · exact h.method_class e he
    · rw [List.mem_singleton.mp he]
      exact hC

/-- Nothing is declared at the start of the first pass. -/
theorem initial (output : Str) (defines : NameMap Str) :
    Recorded { output, typeSystem := { defines }, firstPass := true } where
  classes_iff := by simp
  identifier := nofun
  parent_declared t ht := by
    cases ht with
    | typedefs n ht | structs n ht | classes n ht => simp at ht
  methods C := by simp [TypeSystem.getClassMethods]
  method_name := nofun
  method_class := nofun

/-- Every step keeps the tables and the record in agreement. -/
theorem step {b : Bool} (h : Recorded s) (hstep : VisitStep b s s') : Recorded s' := by
  cases hstep with
  | write | temp | counting | symbols | registerFunction | registerConstructor | defineMethod =>
    exact ⟨h.classes_iff, h.identifier, fun t ht ↦ h.parent_declared t (by
      cases ht with
      | typedefs n ht => exact .typedefs n ht
      | structs n ht => exact .structs n ht
      | classes n ht => exact .classes n ht), h.methods, h.method_name, h.method_class⟩
  | relinkClass _ _ hlink => exact h.relinkClass hlink
  | registerStruct name => exact h.registerStruct name.text
  | setStructMembers hm => exact h.setStructMembers hm
  | registerTypeDef name _ ht => exact h.registerTypeDef name ht
  | declareClass _ _ hlink => exact h.declareClass hlink
  | registerMethod _ _ hc hname _ _ => exact h.registerMethod hc.1 hname

/-- A parent link leads to a declared class. -/
theorem parentOf_declared (h : Recorded s) (C P : Str) (hP : s.typeSystem.parentOf C = some P) :
    P ∈ s.typeSystem.classes := by
  obtain ⟨t, ht, hp, rfl⟩ := TypeSystem.parentOf_eq_some hP
  exact h.parent_declared t (.classes C ht) hp

theorem mem_getClassMethods (h : Recorded s) {C : Str} {f : Function} :
    f ∈ s.typeSystem.getClassMethods C ↔ ∃ e ∈ s.registered, e.className = C ∧ e.method = f := by
  simp [h.methods C, and_assoc]

end Recorded

/-! ### Virtual methods -/

/-- One of the methods is overridden by a method `m` of class `C`: it is virtual, its class is an
ancestor, and its name behind the first underscore is `m`. -/
def Overridden (ts : TypeSystem) (entries : List MethodEntry) (C m : Str) : Prop :=
  ∃ z ∈ entries, z.method.isVirtual = true ∧ baseName z.method.name = m ∧
    TransGen (Follows ts.parentOf) C z.className

/-- A method is virtual if its text says so or an earlier one is overridden. -/
def FlaggedInOrder (s : VState) : Prop :=
  ∀ earlier e later, s.registered = earlier ++ e :: later →
    (e.method.isVirtual = true ↔
      e.saysVirtual = true ∨ Overridden s.typeSystem earlier e.className e.methodName)

/-- The virtual methods that a chain collects. -/
theorem exists_virtualsOn_iff (h : Recorded s) {P m : Str} {l : List Str}
    (hl : Chain s.typeSystem.parentOf P l) :
    (∃ f ∈ s.typeSystem.virtualsOn l, baseName f.name = m) ↔
      ∃ z ∈ s.registered, z.method.isVirtual = true ∧ baseName z.method.name = m ∧
        ReflTransGen (Follows s.typeSystem.parentOf) P z.className := by
  constructor
  · rintro ⟨f, hf, rfl⟩
    obtain ⟨hvirtual, D, hD, hfD⟩ := TypeSystem.mem_virtualsOn hf
    obtain ⟨e, he, rfl, rfl⟩ := h.mem_getClassMethods.mp hfD
    exact ⟨e, he, hvirtual, rfl, hl.mem_iff.mp hD⟩
  · rintro ⟨z, hz, hvirtual, rfl, hup⟩
    obtain ⟨g, hg, hname⟩ := TypeSystem.exists_mem_virtualsOn (hl.mem_iff.mpr hup)
      (h.mem_getClassMethods.mpr ⟨z, hz, rfl, rfl⟩) hvirtual
    exact ⟨g, hg, by rw [hname]⟩

/-- Override detection finds the virtual methods registered so far for the parent of the class and
its ancestors. -/
theorem methodIsVirtual_iff_parent (h : Recorded s) {m : Str}
    (hP : t.hasParent = true → t.parentClass ∈ s.typeSystem.classes)
    (hm : methodIsVirtual s.typeSystem t m text = .ok isVirtual) :
    isVirtual = true ↔ occursIn "virtual" text = true ∨ t.hasParent = true ∧
      ∃ z ∈ s.registered, z.method.isVirtual = true ∧ baseName z.method.name = m ∧
        ReflTransGen (Follows s.typeSystem.parentOf) t.parentClass z.className := by
  unfold methodIsVirtual at hm
  cases hmarked : occursIn "virtual" text with
  | true =>
    rw [hmarked, if_pos rfl] at hm
    cases hm
    simp
  | false =>
    simp only [hmarked, Bool.false_eq_true, if_false, false_or] at hm ⊢
    cases hp : t.hasParent with
    | false =>
      simp only [hp, Bool.false_eq_true, if_false] at hm
      cases hm
      simp
    | true =>
      simp only [hp, if_true] at hm
      cases hvirtuals : s.typeSystem.getAllVirtualMethods t.parentClass with
      | error e =>
        rw [hvirtuals] at hm
        cases hm
      | ok parentVirtuals =>
        rw [hvirtuals] at hm
        cases hm
        obtain ⟨l, hl, rfl⟩ := TypeSystem.getAllVirtualMethods_ok h.parentOf_declared (hP hp)
          hvirtuals
        simp only [List.any_eq_true, decide_eq_true_eq, exists_virtualsOn_iff h hl, true_and]

/-- Override detection finds the virtual methods above the class so far. -/
theorem methodIsVirtual_iff (h : Recorded s) {C m : Str}
    (hC : s.typeSystem.parentOf C = if t.hasParent then some t.parentClass else none)
    (hm : methodIsVirtual s.typeSystem t m text = .ok isVirtual) : isVirtual = true ↔
      occursIn "virtual" text = true ∨ Overridden s.typeSystem s.registered C m := by
  unfold Overridden
  cases hp : t.hasParent with
  | false =>
    have hlast : s.typeSystem.parentOf C = none := by
      rw [hC, hp]; rfl
    rw [methodIsVirtual_iff_parent h (fun hp' ↦ by rw [hp] at hp'; cases hp') hm]
    simp [hp, not_transGen_of_last hlast]
  | true =>
    have hlink : s.typeSystem.parentOf C = some t.parentClass := by
      rw [hC, hp]; rfl
    rw [methodIsVirtual_iff_parent h (fun _ ↦ h.parentOf_declared C _ hlink) hm]
    simp only [hp, true_and, transGen_iff_of_next hlink]

/-- The class names of earlier states are among those of later ones. -/
theorem nodup_of_step {b : Bool} (hstep : VisitStep b s s') (h : s'.classNames.Nodup) :
    s.classNames.Nodup := by
  cases hstep with
  | declareClass => exact (List.nodup_append.mp h).1
  | _ => exact h

/-- A new class is no ancestor of an old one. -/
private theorem declareClass_transGen (h : Recorded s) {name : Ident} {parent : Option Str}
    {fields : List (Str × Ty)} {ts : TypeSystem} {type : Ty}
    (hlink : linkClass (s.typeSystem.registerClass name.text) name.text parent fields =
      .ok (ts, type)) (hnew : name.text ∉ s.classNames) {C D : Str} (hC : C ∈ s.classNames) :
    TransGen (Follows ts.parentOf) C D ↔ TransGen (Follows s.typeSystem.parentOf) C D := by
  have hparentOf : ∀ C ∈ s.classNames, ts.parentOf C = s.typeSystem.parentOf C := by
    intro C hC
    have hne : C ≠ name.text := fun h ↦ hnew (h ▸ hC)
    simp only [TypeSystem.parentOf, (linkClass_spec hlink).lookup, if_neg hne,
      TypeSystem.registerClass, NameMap.lookup_insert]
  have hclosed : ∀ C P, C ∈ s.classNames → s.typeSystem.parentOf C = some P →
      P ∈ s.classNames := fun C P _ hP ↦ (h.classes_iff P).mp (h.parentOf_declared C P hP)
  constructor
  · intro hCD
    refine (transGen_of_agree (S := (· ∈ s.classNames)) (fun C P hC hP ↦ ?_) hCD hC).1
    rw [hparentOf C hC] at hP
    exact ⟨hP, hclosed C P hC hP⟩
  · intro hCD
    refine (transGen_of_agree (S := (· ∈ s.classNames)) (fun C P hC hP ↦ ?_) hCD hC).1
    rw [hparentOf C hC]
    exact ⟨hP, hclosed C P hC hP⟩

/-- Every step of the first pass keeps the flags in order. -/
theorem FlaggedInOrder.step (h : Recorded s) (hs : s.firstPass = true) (hstep : VisitStep true s s')
    (hn : s'.classNames.Nodup) (hv : FlaggedInOrder s) : FlaggedInOrder s' := by
  cases hstep with
  | relinkClass _ hs' => simp [hs] at hs'
  | defineMethod _ _ hs' => simp [hs] at hs'
  | setStructMembers hm =>
    obtain ⟨_, _, _, rfl⟩ := TypeSystem.setStructMembers_eq_ok.mp hm
    exact hv
  | @declareClass _ name parent fields ts type _ hlink =>
    have hnew : name.text ∉ s.classNames := by
      intro hmem
      simpa [hmem] using (List.nodup_append.mp hn).2.2 _ hmem name.text
    intro earlier e later hsplit
    have he : e ∈ s.registered := by
      change s.registered = _ at hsplit
      simp [hsplit]
    rw [hv earlier e later hsplit]
    simp only [Overridden, declareClass_transGen h hlink hnew (h.method_class e he)]
  | @registerMethod _ entry classType text _ hc hname hmarked hm =>
    intro earlier e later hsplit
    rcases List.eq_nil_or_concat later with rfl | ⟨later, last, rfl⟩
    · obtain ⟨rfl, hlast⟩ := List.append_inj' hsplit rfl
      obtain rfl : entry = e := by simpa using hlast
      rw [methodIsVirtual_iff h (TypeSystem.parentOf_of_class (hc.2 hn)) hm, ← hmarked]
      rfl
    · rw [List.concat_eq_append, ← List.cons_append, ← List.append_assoc] at hsplit
      exact hv earlier e later (List.append_inj' hsplit rfl).1
  | _ => exact hv

/-- The state that the first pass leaves. -/
theorem firstPass_recorded {gen : Codegen.CCodeGenerator} {p : Program}
    (hrun : (firstPassProgram gen p).run {} = .ok ((), s)) :
    Recorded s ∧ (s.classNames.Nodup → FlaggedInOrder s) := by
  obtain ⟨output, defines, hsteps⟩ := (firstPassProgram_steps p).of_run _ _ hrun
  refine (hsteps.invariant (P := fun s ↦ Recorded s ∧ (s.classNames.Nodup → FlaggedInOrder s))
    (fun s₁ s₂ hs₁ hstep ⟨h, hv⟩ ↦ ⟨h.step hstep, fun hn ↦
      (hv (nodup_of_step hstep hn)).step h hs₁ hstep hn⟩) ⟨.initial output defines, fun _ ↦ ?_⟩).1
  intro earlier e later hsplit
  simp at hsplit

/-! ### Methods of classes with plain names -/

/-- One of the earlier methods makes `e` an override: it has the same name, its text says
`virtual` and its class is an ancestor. -/
def MarkedBefore (ts : TypeSystem) (earlier : List MethodEntry) (e : MethodEntry) : Prop :=
  ∃ z ∈ earlier, z.methodName = e.methodName ∧ z.saysVirtual = true ∧
    TransGen (Follows ts.parentOf) e.className z.className

/-- The classes have different names, without underscores. -/
structure PlainClassNames (s : VState) : Prop where
  nodup : s.classNames.Nodup
  no_underscore : ∀ C ∈ s.classNames, '_' ∉ C

/-- A method is virtual if its text says so or an earlier one makes it an override. -/
def VirtualAsMarked (s : VState) : Prop :=
  ∀ earlier e later, s.registered = earlier ++ e :: later →
    (e.method.isVirtual = true ↔ e.saysVirtual = true ∨ MarkedBefore s.typeSystem earlier e)

/-- With plain names the part behind the underscore is the name of the method. -/
theorem PlainClassNames.baseName_eq (hn : PlainClassNames s) (h : Recorded s) {e : MethodEntry}
    (he : e ∈ s.registered) : baseName e.method.name = e.methodName := by
  rw [h.method_name e he, baseName_mangled (hn.no_underscore _ (h.method_class e he))]

/-- Along the overridden methods of a virtual one there is a method whose text says `virtual`. -/
theorem FlaggedInOrder.marked (h : Recorded s) (hn : PlainClassNames s) (hv : FlaggedInOrder s) :
    VirtualAsMarked s := by
  -- A method that is overridden stands before its override.
  have main : ∀ (n : Nat) (earlier : List MethodEntry) (e : MethodEntry) (later : List MethodEntry),
      earlier.length = n → s.registered = earlier ++ e :: later →
        (e.method.isVirtual = true ↔
          e.saysVirtual = true ∨ MarkedBefore s.typeSystem earlier e) := by
    intro n
    induction n using Nat.strongRecOn with
    | _ n ih =>
      intro earlier e later hlen hsplit
      rw [hv earlier e later hsplit]
      refine or_congr_right ⟨?_, ?_⟩
      · rintro ⟨z, hz, hvirtual, hname, hup⟩
        obtain ⟨before, after, rfl⟩ := List.append_of_mem hz
        have hzsplit : s.registered = before ++ z :: (after ++ e :: later) := by
          simpa using hsplit
        rw [hn.baseName_eq h (by simp [hzsplit])] at hname
        rcases (ih before.length (by simp [← hlen]) before z _ rfl hzsplit).mp hvirtual with
          hmarked | ⟨w, hw, hwname, hmarked, hwup⟩
        · exact ⟨z, hz, hname, hmarked, hup⟩
        · exact ⟨w, List.mem_append_left _ hw, hwname.trans hname, hmarked, hup.trans hwup⟩
      · rintro ⟨z, hz, hname, hmarked, hup⟩
        obtain ⟨before, after, rfl⟩ := List.append_of_mem hz
        have hzsplit : s.registered = before ++ z :: (after ++ e :: later) := by
          simpa using hsplit
        refine ⟨z, hz, (hv before z _ hzsplit).mpr (.inl hmarked), ?_, hup⟩
        rwa [hn.baseName_eq h (by simp [hzsplit])]
  exact fun earlier e later ↦ main _ earlier e later rfl

end JBLang.Classes
