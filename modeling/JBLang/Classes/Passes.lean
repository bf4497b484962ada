import JBLang.Classes.Dispatch
import JBLang.Classes.MethodSites
import JBLang.Classes.SlotTypes
import Mathlib.Data.List.Nodup

/-!
# The two passes over a method

Both passes build the header of a method: the first one registers it, the second one writes its
definition. The types of a header are resolved anew, and whether it is virtual is found out anew,
against tables that have grown meanwhile.
-/

namespace JBLang.Classes

open JBLang.Base JBLang.Types JBLang.Ast JBLang.Codegen Relation

/-! ### Headers -/

/-- The headers are printed alike. -/
structure SameHeader (f g : Function) : Prop where
  name : f.name = g.name
  isVirtual : f.isVirtual = g.isVirtual
  result : f.returnType.toStr = g.returnType.toStr
  params : f.params.map (fun p ↦ (p.1, p.2.toStr)) = g.params.map fun p ↦ (p.1, p.2.toStr)
  printed : f.params.map (fun p ↦ outputVariable p.2 p.1) =
    g.params.map fun p ↦ outputVariable p.2 p.1

/-- A prototype made from one is the header of the other. -/
theorem SameHeader.generateFunctionDecl_eq {f g : Function} (h : SameHeader f g) :
    generateFunctionDecl f = generateFunctionDecl g := by
  have hparams : f.params.tail.map virtualParam = g.params.tail.map virtualParam := by
    have htext : virtualParam = (fun p : Str × Str ↦ (", " : Str) ++ p.2 ++ " " ++ p.1) ∘
        fun p : Str × Ty ↦ (p.1, p.2.toStr) := rfl
    have htail := congrArg List.tail h.params
    rw [← List.map_tail, ← List.map_tail] at htail
    rw [htext, ← List.map_map, ← List.map_map, htail]
  unfold generateFunctionDecl Function.getSignature
  rw [h.isVirtual, h.name, h.result, hparams, h.printed]

/-- The class of a method's receiver. -/
def receiverClass (f : Function) : Option Str := f.params.head?.map fun p ↦ p.2.structName

/-- Every method that is defined for a class has the header under which it is registered; `s` is
the state after the first pass. The classes that the second pass leaves out define nothing. -/
def PassesAgree (s : VState) (defined : List Function) : Prop :=
  ∀ C, defined.filter (fun f ↦ receiverClass f = some C) ≠ [] →
    List.Forall₂ SameHeader (s.typeSystem.getClassMethods C)
      (defined.filter fun f ↦ receiverClass f = some C)

/-- Every type name that a registered header could use stands for the same type at the end of the
first pass. -/
def FixedTypeNames (s : VState) : Prop := ∀ e ∈ s.registered, e.types.Preserves s.typeSystem

/-! ### The order of declarations -/

/-- A method is virtual by what is declared before it: its text says so, or it overrides a method
that is virtual by what is declared before that one. -/
inductive VirtualByDecl (ts : TypeSystem) : List MethodEntry → MethodEntry → Prop
  | marked {earlier : List MethodEntry} {e : MethodEntry} (h : e.saysVirtual = true) :
    VirtualByDecl ts earlier e
  | overrides {before after : List MethodEntry} {z e : MethodEntry} (hz : VirtualByDecl ts before z)
    (hname : baseName (z.className ++ "_" ++ z.methodName) = e.methodName)
    (hup : TransGen (Follows ts.parentOf) e.className z.className) :
    VirtualByDecl ts (before ++ z :: after) e

/-- Every method outside of `for` statements that overrides a virtual method is virtual by what is
declared before it. -/
def OverridesInOrder (p : Program) (s : VState) : Prop :=
  ∀ earlier e later, s.registered = earlier ++ e :: later →
    (∃ c ∈ classDeclsIn false p.statements, c.name.text = e.className) →
    ∀ before z after, s.registered = before ++ z :: after → VirtualByDecl s.typeSystem before z →
      baseName (z.className ++ "_" ++ z.methodName) = e.methodName →
      TransGen (Follows s.typeSystem.parentOf) e.className z.className →
      VirtualByDecl s.typeSystem earlier e

/-! ### Two headers from one method -/

variable {gen : CCodeGenerator} {s s' : VState} {ts ts' : TypeSystem} {c : ClassDecl}

variable {e' : MethodEntry} {t : Ty}

theorem resolveTypeText_preserves (h : ts.Preserves ts') {text : Str}
    (ht : resolveTypeText ts text = .ok t) :
    ∃ t', resolveTypeText ts' text = .ok t' ∧ t'.shape = t.shape := by
  unfold resolveTypeText at ht ⊢
  split_ifs at ht ⊢ with hstruct
  · simp only at ht ⊢
    split_ifs at ht ⊢
    · obtain ⟨u, hu, hpure⟩ := bind_eq_ok.mp ht
      obtain ⟨u', hu', hshape⟩ := h.resolveType hu
      obtain ⟨hb, -, ha, hn⟩ := Shape.mk.inj hshape
      cases hpure
      refine ⟨u'.setPointer, bind_eq_ok.mpr ⟨u', hu', rfl⟩, ?_⟩
      simp [Ty.shape, Ty.setPointer, hb, ha, hn]
    · exact h.resolveType ht
  · exact h.resolveType ht

/-- With the same definitions and type names a declarator gets a type of the same shape. -/
theorem DeclaratorTyped.same {d : Declarator} {q q' : Str × Ty} (h : ts.Preserves ts')
    (hdefines : ts'.defines = ts.defines) (hq : DeclaratorTyped ts d q)
    (hq' : DeclaratorTyped ts' d q') : q.1 = q'.1 ∧ q.2.shape = q'.2.shape := by
  have hvalue : arraySizeValue ts' = arraySizeValue ts := by
    funext size
    cases size <;> simp only [arraySizeValue, TypeSystem.getDefineValue, hdefines]
  cases hq with
  | plain hres =>
    cases hq' with
    | plain hres' =>
      obtain ⟨t', ht', hshape⟩ := resolveTypeText_preserves h hres
      cases hres'.symm.trans ht'
      exact ⟨rfl, hshape.symm⟩
  | array hres hsizes =>
    cases hq' with
    | array hres' hsizes' =>
      obtain ⟨t', ht', hshape⟩ := resolveTypeText_preserves h hres
      cases hres'.symm.trans ht'
      rw [hvalue] at hsizes'
      cases hsizes'.symm.trans hsizes
      obtain ⟨hb, hp, -, hn⟩ := Shape.mk.inj hshape
      simp [Ty.shape, Ty.setArray, hb, hp, hn]

theorem outputVariable_eq_of_shape {t' : Ty} (h : t.shape = t'.shape) (name : Str) :
    outputVariable t name = outputVariable t' name := by
  have harray : t.isArray = t'.isArray := congrArg (fun σ : Shape ↦ σ.array.isSome) h
  unfold outputVariable
  rw [harray, Ty.toStr_eq_of_shape h]

/-- Parameters of the same names and shapes are printed alike. -/
private theorem params_printed {ds : List Declarator} {ps ps' : List (Str × Ty)}
    (h : ts.Preserves ts') (hdefines : ts'.defines = ts.defines)
    (hps : List.Forall₂ (DeclaratorTyped ts) ds ps)
    (hps' : List.Forall₂ (DeclaratorTyped ts') ds ps') :
    ps.map (fun p ↦ (p.1, p.2.toStr)) = ps'.map (fun p ↦ (p.1, p.2.toStr)) ∧
      ps.map (fun p ↦ outputVariable p.2 p.1) = ps'.map fun p ↦ outputVariable p.2 p.1 := by
  induction hps generalizing ps' with
  | nil =>
    cases hps'
    exact ⟨rfl, rfl⟩
  | cons hq _ ih =>
    cases hps' with
    | cons hq' hps' =>
      obtain ⟨hname, hshape⟩ := hq.same h hdefines hq'
      obtain ⟨ih₁, ih₂⟩ := ih hps'
      simp only [List.map_cons]
      rw [ih₁, ih₂, hname, Ty.toStr_eq_of_shape hshape, outputVariable_eq_of_shape hshape]
      exact ⟨rfl, rfl⟩

theorem ClassTypeOf.pointer_shape {t' : Ty} (h : ClassTypeOf c t) (h' : ClassTypeOf c t') :
    t.setPointer.shape = t'.setPointer.shape := by
  obtain ⟨hb, -, ha, hn⟩ := Shape.mk.inj (h.shape.trans h'.shape.symm)
  simp [Ty.shape, Ty.setPointer, hb, ha, hn]

variable {I : VState → Prop} {site : ClassDecl × ClassMember} {e : MethodEntry}

variable {decls : List ClassDecl} {p : Program} {s₁ : VState} {I' : VState → Prop}

/-- The headers that two passes build from one method differ at most in being virtual. -/
theorem Built.sameHeader_iff (h : Built I site e) (h' : Built I' site e')
    (htypes : e.types.Preserves e'.types) (hdefines : e'.types.defines = e.types.defines) :
    SameHeader e.method e'.method ↔ e.method.isVirtual = e'.method.isVirtual := by
  cases h with
  | method hI hclass hresult hvirtual hparams =>
    cases h' with
    | method hI' hclass' hresult' hvirtual' hparams' =>
      refine ⟨fun h ↦ h.isVirtual, fun hv ↦ ?_⟩
      obtain ⟨t', ht', hshape⟩ := resolveTypeText_preserves htypes hresult
      cases hresult'.symm.trans ht'
      obtain ⟨hps, hprinted⟩ := params_printed htypes hdefines hparams hparams'
      have hthis := hclass.pointer_shape hclass'
      refine ⟨rfl, hv, (Ty.toStr_eq_of_shape hshape).symm, ?_, ?_⟩
      · rw [List.map_cons, List.map_cons, hps, Ty.toStr_eq_of_shape hthis]
      · rw [List.map_cons, List.map_cons, hprinted, outputVariable_eq_of_shape hthis]

theorem Built.receiverClass_eq
    (h : Built I site e) : receiverClass e.method = some e.className := by
  cases h with
  | method hI hclass =>
    exact congrArg (fun σ : Shape ↦ some σ.structName) hclass.shape

/-! ### The passes -/

/-- Plain steps change neither the class table nor the definitions. -/
theorem tables_of_plain (h : Steps false s s') :
    s'.typeSystem.classes = s.typeSystem.classes ∧
      s'.typeSystem.defines = s.typeSystem.defines := by
  refine (h.invariant (P := fun s₁ ↦ s₁.typeSystem.classes = s.typeSystem.classes ∧
    s₁.typeSystem.defines = s.typeSystem.defines) (fun s₁ s₂ _ hstep h₁ ↦ ?_) ⟨rfl, rfl⟩).1
  cases hstep with
  | declareClass hw | relinkClass hw | registerMethod hw | defineMethod hw => cases hw
  | setStructMembers hm =>
    obtain ⟨_, _, _, rfl⟩ := TypeSystem.setStructMembers_eq_ok.mp hm
    exact h₁
  | _ => exact h₁

theorem DistinctClasses.eq_of_name (hd : DistinctClasses decls)
    {c c' : ClassDecl} (hc : c ∈ decls) (hc' : c' ∈ decls) (h : c.name.text = c'.name.text) :
    c = c' := List.inj_on_of_nodup_map hd hc hc' h

/-- The class table has the types of these declarations. -/
def KnownClasses (decls : List ClassDecl) (ts : TypeSystem) : Prop :=
  ∀ c ∈ decls, ∀ t, ts.classes[c.name.text]? = some t → ClassTypeOf c t

/-- A state of the first pass. -/
structure InFirstPass (decls : List ClassDecl) (defines : NameMap Str) (s : VState) : Prop where
  pass : s.firstPass = true
  defines : s.typeSystem.defines = defines
  known : KnownClasses decls s.typeSystem

theorem firstPass_invariant (hd : DistinctClasses decls) (defines : NameMap Str) :
    PassInvariant decls (InFirstPass decls defines) fun _ ↦ True where
  plain h hs := by
    obtain ⟨hclasses, hdefines⟩ := tables_of_plain h
    refine ⟨h.firstPass_eq.trans hs.pass, hdefines.trans hs.defines, fun c hc t ht ↦ ?_⟩
    rw [hclasses] at ht
    exact hs.known c hc t ht
  declare {s c} hc hs := by
    apply (getClassFromCode_spec c.name c.parent c.members).mono
    rintro type _ ⟨fields, ts, rfl, hlink⟩
    simp only [announceClass, post_bind, post_inFirstPass, post_ite, post_modify, post_get,
      post_emit]
    refine ⟨fun _ ↦ ?_, fun hs' ↦ absurd hs.pass (by simpa using hs')⟩
    rw [if_pos hs.pass] at hlink
    obtain ⟨hframe, hlookup, ⟨t₀, ht₀, htype⟩, -⟩ := linkClass_spec hlink
    rw [TypeSystem.registerClass, NameMap.lookup_insert, if_pos rfl] at ht₀
    have hof : ClassTypeOf c type := by
      rw [htype, ← Option.some.inj ht₀]
      exact ⟨rfl, rfl⟩
    refine ⟨⟨hs.pass, ?_, fun c' hc' t ht ↦ ?_⟩, hof, trivial⟩
    · change ts.defines = _
      rw [hframe]
      exact hs.defines
    · change ts.classes[_]? = _ at ht
      rw [hlookup] at ht
      split at ht
      next hname =>
        cases ht
        rwa [hd.eq_of_name hc' hc hname]
      next hname =>
        rw [TypeSystem.registerClass, NameMap.lookup_insert, if_neg hname] at ht
        exact hs.known c' hc' t ht
  register _ _ hs := ⟨hs.pass, hs.defines, hs.known⟩
  define _ hs := ⟨hs.pass, hs.defines, hs.known⟩

/-- A state of the second pass, after a first pass that ended in `s₁`. -/
structure InSecondPass (s₁ s : VState) : Prop where
  second : SecondPass s₁.typeSystem s
  recorded : Recorded s
  registered : s.registered = s₁.registered
  parents : ∀ C, s.typeSystem.parentOf C = s₁.typeSystem.parentOf C
  defines : s.typeSystem.defines = s₁.typeSystem.defines

theorem ClassTypeOf.hasParent_iff (h : ClassTypeOf c t) :
    (if t.hasParent then some t.parentClass else none) = c.parent.map Ident.text := by
  rw [Ty.hasParent, h.parentClass]
  cases hp : c.parent with
  | none => rfl
  | some P =>
    have hne : P.text ≠ [] := fun h ↦ by
      have hvalid := P.valid
      rw [h] at hvalid
      cases hvalid
    simp [hne]

/-- The second pass links a class as the first one did. -/
theorem secondPass_linked (hs : InSecondPass s₁ s)
    (hknown : ∀ t, s₁.typeSystem.classes[c.name.text]? = some t → ClassTypeOf c t)
    {fields : List (Str × Ty)} {type : Ty}
    (hlink : linkClass s.typeSystem c.name.text (c.parent.map Ident.text) fields =
      .ok (ts, type)) : ClassTypeOf c type ∧ c.name.text ∈ s₁.typeSystem.classes ∧
      (∀ C, ts.parentOf C = s₁.typeSystem.parentOf C) ∧
      ts.defines = s₁.typeSystem.defines := by
  obtain ⟨hframe, hlookup, ⟨t₀, ht₀, htype⟩, -⟩ := linkClass_spec hlink
  have hshape := hs.second.shapes.classes c.name.text
  rw [ht₀] at hshape
  obtain ⟨t₁, ht₁, hshape⟩ : ∃ t₁, s₁.typeSystem.classes[c.name.text]? = some t₁ ∧
      t₁.shape = t₀.shape := by
    cases ht₁ : s₁.typeSystem.classes[c.name.text]? with
    | none => simp [ht₁] at hshape
    | some t₁ => exact ⟨t₁, rfl, by simpa [ht₁] using hshape⟩
  have hof₁ := hknown t₁ ht₁
  have hparent : (if t₀.hasParent then some t₀.parentClass else none) =
      c.parent.map Ident.text := by
    rw [← TypeSystem.parentOf_of_class ht₀, hs.parents, TypeSystem.parentOf_of_class ht₁,
      hof₁.hasParent_iff]
  have hof : ClassTypeOf c type := by
    refine ⟨?_, ?_⟩
    · rw [htype]
      exact hshape.symm.trans hof₁.shape
    · rw [htype]
      cases hp : c.parent with
      | some P => rfl
      | none =>
        rw [hp] at hparent
        cases hpt : t₀.hasParent with
        | true => simp [hpt] at hparent
        | false => simpa [Ty.hasParent] using hpt
  refine ⟨hof, TypeSystem.mem_classes_of_getElem? ht₁, fun C ↦ ?_, ?_⟩
  · rw [← hs.parents]
    by_cases hC : C = c.name.text
    · have htype' : ts.classes[C]? = some type := by rw [hlookup, if_pos hC]
      rw [TypeSystem.parentOf_of_class htype', hof.hasParent_iff, ← hparent, hC,
        TypeSystem.parentOf_of_class ht₀]
    · simp only [TypeSystem.parentOf, hlookup, if_neg hC]
  · rw [hframe, ← hs.defines]

theorem secondPass_invariant (hknown : KnownClasses decls s₁.typeSystem) :
    PassInvariant decls (InSecondPass s₁) fun c ↦ c.name.text ∈ s₁.typeSystem.classes where
  plain {s s'} h hs := by
    obtain ⟨hclasses, hdefines⟩ := tables_of_plain h
    refine ⟨secondPass_of_steps h hs.second, ?_, h.record_eq.2.1.trans hs.registered, fun C ↦ ?_,
      hdefines.trans hs.defines⟩
    · exact (h.invariant (fun _ _ _ hstep hrec ↦ hrec.step hstep) hs.recorded).1
    · simp only [TypeSystem.parentOf, hclasses]
      exact hs.parents C
  declare {s c} hc hs := by
    apply (getClassFromCode_spec c.name c.parent c.members).mono
    rintro type _ ⟨fields, ts, rfl, hlink⟩
    simp only [announceClass, post_bind, post_inFirstPass, post_ite, post_modify, post_get,
      post_emit]
    refine ⟨fun hs' ↦ absurd hs.second.pass (by simpa using hs'), fun _ ↦ ?_⟩
    rw [if_neg (by simp [hs.second.pass])] at hlink
    obtain ⟨hof, hmem, hparents, hdefines⟩ := secondPass_linked hs (hknown c hc) hlink
    have hstep : VisitStep true s { s with typeSystem := ts } :=
      .relinkClass s rfl hs.second.pass hlink
    have hsecond := hs.second.step hstep
    have hrecorded := (hs.recorded.step hstep).step
      (.write _ (classStruct ts c.name.text type) : VisitStep true _ _)
    exact ⟨⟨⟨hsecond.pass, hsecond.shapes⟩, hrecorded, hs.registered, hparents, hdefines⟩, hof, hmem⟩
  register _ hpass hs := by simp [hs.second.pass] at hpass
  define {s} f hs :=
    ⟨⟨hs.second.pass, hs.second.shapes⟩,
      hs.recorded.step (.defineMethod s rfl f hs.second.pass : VisitStep true _ _), hs.registered,
      hs.parents, hs.defines⟩

/-- What a translation has built when it ends. -/
structure BothPasses (gen : CCodeGenerator) (p : Program) (s : VState)
    (sites sites' : List (ClassDecl × ClassMember)) (met : List ClassDecl) (new : List MethodEntry) :
    Prop where
  first : List.Forall₂ (Built (InFirstPass (classDeclsIn true p.statements)
    (afterFirstPass gen p).typeSystem.defines)) sites (afterFirstPass gen p).registered
  first_met : met.Sublist (classDeclsIn true p.statements)
  first_holds : Holds (met.map whole) sites
  first_classes : (afterFirstPass gen p).classNames = met.map (·.name.text)
  known : KnownClasses (classDeclsIn true p.statements) (afterFirstPass gen p).typeSystem
  second : List.Forall₂ (Built (InSecondPass (afterFirstPass gen p))) sites' new
  second_met : (classDeclsIn false p.statements).Sublist (classDeclsIn true p.statements)
  second_holds : Holds ((classDeclsIn false p.statements).map whole) sites'
  second_classes : ∀ c ∈ classDeclsIn false p.statements,
    c.name.text ∈ (afterFirstPass gen p).typeSystem.classes
  defined : s.defined = new.map (·.method)

/-- The first pass builds headers of all classes it meets. -/
theorem firstPassProgram_builds (hd : DistinctClasses (classDeclsIn true p.statements))
    (h : (firstPassProgram gen p).run {} = .ok ((), s)) :
    ∃ (met : List ClassDecl) (sites : List (ClassDecl × ClassMember)),
      met.Sublist (classDeclsIn true p.statements) ∧ Holds (met.map whole) sites ∧
      List.Forall₂ (Built (InFirstPass (classDeclsIn true p.statements) s.typeSystem.defines)) sites
        s.registered ∧ s.classNames = met.map (·.name.text) ∧
      KnownClasses (classDeclsIn true p.statements) s.typeSystem := by
  have hpost : Post (firstPassProgram gen p) {} fun _ s ↦ ∃ defines s₀,
      s₀.classNames = [] ∧ s₀.registered = [] ∧ s₀.firstPass = true ∧
      Builds (InFirstPass (classDeclsIn true p.statements) defines) (fun _ ↦ True) []
        (classDeclsIn true p.statements) (classDeclsIn false p.statements) s₀ s := by
    simp only [firstPassProgram, post_bind, post_emit, post_modify]
    apply (visitDirectives_frame p.directives).mono
    rintro _ _ ⟨text, defines, rfl⟩
    refine Post.mono (visitTopLevel_builds (firstPass_invariant hd defines) hd p.statements
      (List.Sublist.refl _) ?_) ?_
    · exact ⟨rfl, rfl, fun c _ t ht ↦ by simp at ht⟩
    · intro _ s hbuilds
      exact ⟨defines, _, rfl, rfl, rfl, hbuilds⟩
  obtain ⟨defines, s₀, hclasses, hregistered, hpass, hinv, met, sites, new, hmet, -, -, hholds,
    hbuilt, hadds⟩ := hpost.of_run _ _ h
  have hnew : s.registered = new := by simpa [hregistered] using hadds.registered hpass
  rw [hnew, hinv.defines]
  refine ⟨met, sites, hmet, hholds, hbuilt, ?_, hinv.known⟩
  simpa [hclasses] using hadds.classNames hpass

/-- Both passes build the headers of the methods of the classes they meet. -/
theorem translate_builds (h : translate gen p = .ok s)
    (hd : DistinctClasses (classDeclsIn true p.statements)) :
    ∃ sites sites' met new, BothPasses gen p s sites sites' met new := by
  obtain ⟨hfirst, s₁, htables, hsecond⟩ := translate_eq_ok h
  obtain ⟨text, rfl⟩ := emitVTables_frame.of_run _ _ htables
  obtain ⟨met, sites, hmet, hholds, hbuilt, hclasses, hknown⟩ := firstPassProgram_builds hd hfirst
  obtain ⟨hrecorded, -⟩ := firstPass_recorded hfirst
  have hpost : Post (secondPassProgram gen p) { afterFirstPass gen p with
      output := (afterFirstPass gen p).output ++ text } fun _ s' ↦
        ∃ s₀, s₀.firstPass = false ∧ s₀.defined = [] ∧ Builds (InSecondPass (afterFirstPass gen p))
          (fun c ↦ c.name.text ∈ (afterFirstPass gen p).typeSystem.classes) []
          (classDeclsIn true p.statements) (classDeclsIn false p.statements) s₀ s' := by
    simp only [secondPassProgram, post_bind, post_modify, post_emit, post_get]
    have hinv := secondPass_invariant hknown
    refine Post.mono (visitTopLevel_builds hinv hd p.statements (List.Sublist.refl _) ?_) ?_
    · exact ⟨⟨rfl, .refl _⟩, ⟨hrecorded.classes_iff, hrecorded.identifier,
        hrecorded.parent_declared, hrecorded.methods, hrecorded.method_name,
        hrecorded.method_class⟩, rfl, fun _ ↦ rfl, rfl⟩
    · intro _ s₂ h₂
      refine ⟨_, ?_, ?_, h₂.plain_after hinv ((((Steps.refl s₂).write _).write _).write _)⟩
      · rfl
      · have hnone := afterFirstPass_defined hfirst
        exact hnone
  obtain ⟨s₀, hpass, hdefined, hinv, met', sites', new, hmet', houter, hK, hholds', hbuilt', hadds⟩ :=
    hpost.of_run _ _ hsecond
  obtain rfl := houter hpass
  exact ⟨sites, sites', met, new, hbuilt, hmet, hholds, hclasses, hknown, hbuilt', hmet', hholds',
    hK, by simpa [hdefined] using hadds.defined hpass⟩

/-! ### Agreement -/

private theorem forall₂_filter {α β : Type} {R : α → β → Prop} {p : α → Bool} {q : β → Bool}
    {l : List α} {l' : List β} (h : List.Forall₂ R l l') (hpq : ∀ a b, R a b → p a = q b) :
    List.Forall₂ R (l.filter p) (l'.filter q) := by
  induction h with
  | nil => exact .nil
  | @cons a b l l' hab _ ih =>
    rw [List.filter_cons, List.filter_cons, hpq a b hab]
    split
    · exact .cons hab ih
    · exact ih

private theorem forall₂_exists_of_mem {α β : Type} {R : α → β → Prop} {l : List α} {l' : List β}
    {b : β} (h : List.Forall₂ R l l') (hb : b ∈ l') : ∃ a ∈ l, R a b := by
  induction h with
  | nil => cases hb
  | cons hab _ ih =>
    rcases List.mem_cons.mp hb with rfl | hb
    · exact ⟨_, List.mem_cons_self, hab⟩
    · obtain ⟨a, ha, hR⟩ := ih hb
      exact ⟨a, List.mem_cons_of_mem _ ha, hR⟩

private theorem forall₂_iff_of_common {α β γ : Type} {R : α → β → Prop} {R' : α → γ → Prop}
    {S : β → γ → Prop} {P : β → Prop} {l : List α} {l₁ : List β} {l₂ : List γ}
    (h : List.Forall₂ R l l₁) (h' : List.Forall₂ R' l l₂)
    (hP : ∀ a ∈ l, ∀ b ∈ l₁, ∀ c, R a b → R' a c → (S b c ↔ P b)) :
    List.Forall₂ S l₁ l₂ ↔ ∀ b ∈ l₁, P b := by
  induction h generalizing l₂ with
  | nil =>
    cases h'
    simp
  | cons hab _ ih =>
    cases h' with
    | cons hac h' =>
      rw [List.forall₂_cons, List.forall_mem_cons,
        hP _ List.mem_cons_self _ List.mem_cons_self _ hab hac,
        ih h' fun a ha b hb ↦ hP a (List.mem_cons_of_mem _ ha) b (List.mem_cons_of_mem _ hb)]

/-- By the order of the declarations a method is virtual exactly if the first pass finds it so. -/
theorem virtualByDecl_iff (h : Recorded s) (hv : FlaggedInOrder s) {earlier later : List MethodEntry}
    (hsplit : s.registered = earlier ++ e :: later) :
    VirtualByDecl s.typeSystem earlier e ↔ e.method.isVirtual = true := by
  constructor
  · intro hdecl
    induction hdecl generalizing later with
    | marked hmarked => exact (hv _ _ _ hsplit).mpr (.inl hmarked)
    | @overrides before after z e hz hname hup ih =>
      have hzsplit : s.registered = before ++ z :: (after ++ e :: later) := by simpa using hsplit
      refine (hv _ _ _ hsplit).mpr (.inr ⟨z, by simp, ih hzsplit, ?_, hup⟩)
      rwa [h.method_name z (by simp [hzsplit])]
  · induction hlen : earlier.length using Nat.strongRecOn generalizing earlier e later with
    | _ n ih =>
      intro hvirtual
      rcases (hv _ _ _ hsplit).mp hvirtual with hmarked | ⟨z, hz, hzvirtual, hname, hup⟩
      · exact .marked hmarked
      · obtain ⟨before, after, rfl⟩ := List.append_of_mem hz
        have hzsplit : s.registered = before ++ z :: (after ++ e :: later) := by simpa using hsplit
        rw [h.method_name z (by simp [hzsplit])] at hname
        exact .overrides (ih before.length (by simp [← hlen]) hzsplit rfl hzvirtual) hname hup

/-- The second pass finds every virtual method above the class. -/
theorem Built.second_virtual (h : Built (InSecondPass s₁) site e)
    (hparent : s₁.typeSystem.parentOf site.1.name.text = site.1.parent.map Ident.text) :
    e.method.isVirtual = true ↔ e.saysVirtual = true ∨
      Overridden s₁.typeSystem s₁.registered e.className e.methodName := by
  cases h with
  | @method c _ _ _ _ _ s _ _ _ _ hI hclass _ hvirtual _ =>
    have hC : s.typeSystem.parentOf c.name.text = _ :=
      (hI.parents _).trans (hparent.trans hclass.hasParent_iff.symm)
    have hparents : s.typeSystem.parentOf = s₁.typeSystem.parentOf := funext hI.parents
    rw [methodIsVirtual_iff hI.recorded hC hvirtual]
    unfold Overridden
    rw [hI.registered, hparents]

/-- Two headers from one method are of the same class, name and text. -/
theorem Built.same_site (h : Built I site e) (h' : Built I' site e') :
    e'.className = e.className ∧ e'.methodName = e.methodName ∧ e'.saysVirtual = e.saysVirtual := by
  cases h
  cases h'
  exact ⟨rfl, rfl, rfl⟩

theorem Built.exists_state (h : Built I site e) : ∃ s, I s ∧ e.types = s.typeSystem := by
  cases h with
  | method hI => exact ⟨_, hI, rfl⟩

section

variable {p : Program} {sites sites' : List (ClassDecl × ClassMember)} {met : List ClassDecl}
  {new : List MethodEntry}

namespace BothPasses

/-- A class of the second pass is one of the first. -/
theorem met_of_outer (hd : DistinctClasses (classDeclsIn true p.statements))
    (hrecorded : Recorded (afterFirstPass gen p)) (h : BothPasses gen p s sites sites' met new)
    (hc : c ∈ classDeclsIn false p.statements) : c ∈ met := by
  have hname := (hrecorded.classes_iff _).mp (h.second_classes c hc)
  rw [h.first_classes] at hname
  obtain ⟨c', hc', heq⟩ := List.mem_map.mp hname
  rwa [← hd.eq_of_name (h.first_met.subset hc') (h.second_met.subset hc) heq]

theorem parentOf_eq (h : BothPasses gen p s sites sites' met new)
    (hc : c ∈ classDeclsIn false p.statements) :
    (afterFirstPass gen p).typeSystem.parentOf c.name.text = c.parent.map Ident.text := by
  obtain ⟨t, ht⟩ := TypeSystem.exists_class_of_mem (h.second_classes c hc)
  rw [TypeSystem.parentOf_of_class ht, (h.known c (h.second_met.subset hc) t ht).hasParent_iff]

/-- The headers of one class, from the same methods in both passes. -/
theorem paired (hd : DistinctClasses (classDeclsIn true p.statements))
    (hrecorded : Recorded (afterFirstPass gen p)) (h : BothPasses gen p s sites sites' met new)
    (hc : c ∈ classDeclsIn false p.statements) :
    List.Forall₂ (Built (InFirstPass (classDeclsIn true p.statements)
      (afterFirstPass gen p).typeSystem.defines)) (methodsOf c c.members)
      ((afterFirstPass gen p).registered.filter (·.className = c.name.text)) ∧
    List.Forall₂ (Built (InSecondPass (afterFirstPass gen p))) (methodsOf c c.members)
      (new.filter (·.className = c.name.text)) := by
  constructor
  · have hsites : sitesOf c.name.text sites = methodsOf c c.members :=
      h.first_holds.complete _ (List.mem_map_of_mem (h.met_of_outer hd hrecorded hc))
    rw [← hsites]
    exact forall₂_filter h.first fun site e hbuilt ↦ by simp [hbuilt.className_eq]
  · have hsites : sitesOf c.name.text sites' = methodsOf c c.members :=
      h.second_holds.complete _ (List.mem_map_of_mem hc)
    rw [← hsites]
    exact forall₂_filter h.second fun site e hbuilt ↦ by simp [hbuilt.className_eq]

/-- The headers of one class agree exactly if each of its methods that overrides a virtual one is
virtual from the first pass on. -/
theorem agree_iff (hd : DistinctClasses (classDeclsIn true p.statements))
    (hrecorded : Recorded (afterFirstPass gen p)) (hflags : FlaggedInOrder (afterFirstPass gen p))
    (htypes : FixedTypeNames (afterFirstPass gen p)) (h : BothPasses gen p s sites sites' met new)
    (hc : c ∈ classDeclsIn false p.statements) :
    List.Forall₂ SameHeader ((afterFirstPass gen p).typeSystem.getClassMethods c.name.text)
        ((new.filter (·.className = c.name.text)).map (·.method)) ↔
      ∀ e ∈ (afterFirstPass gen p).registered, e.className = c.name.text →
        Overridden (afterFirstPass gen p).typeSystem (afterFirstPass gen p).registered e.className
          e.methodName → e.method.isVirtual = true := by
  obtain ⟨hfirst, hsecond⟩ := h.paired hd hrecorded hc
  rw [hrecorded.methods, List.forall₂_map_left_iff, List.forall₂_map_right_iff]
  rw [forall₂_iff_of_common (P := fun e ↦ Overridden (afterFirstPass gen p).typeSystem
    (afterFirstPass gen p).registered e.className e.methodName → e.method.isVirtual = true)
    hfirst hsecond]
  · simp only [List.mem_filter, decide_eq_true_eq, and_imp]
  · intro site hsite e he e' hbuilt hbuilt'
    have he := (List.mem_filter.mp he).1
    obtain ⟨earlier, later, hsplit⟩ := List.append_of_mem he
    obtain ⟨s₀, hs₀, hts₀⟩ := hbuilt.exists_state
    obtain ⟨s₂, hs₂, hts₂⟩ := hbuilt'.exists_state
    obtain ⟨hclass, hname, hsays⟩ := hbuilt.same_site hbuilt'
    have hpreserves : e.types.Preserves e'.types := by
      rw [hts₂]
      exact (htypes e he).trans hs₂.second.shapes.preserves
    have hdefines : e'.types.defines = e.types.defines := by
      rw [hts₂, hts₀, hs₂.defines, hs₀.defines]
    have hparent : (afterFirstPass gen p).typeSystem.parentOf site.1.name.text =
        site.1.parent.map Ident.text := by
      rw [class_of_mem_methodsOf hsite]
      exact h.parentOf_eq hc
    have hfirst := hflags earlier e later hsplit
    have hsecond := hbuilt'.second_virtual hparent
    rw [hclass, hname, hsays] at hsecond
    rw [hbuilt.sameHeader_iff hbuilt' hpreserves hdefines, Bool.eq_iff_iff, hsecond]
    constructor
    · exact fun hsame hover ↦ hsame.mpr (.inr hover)
    · refine fun hover ↦ ⟨fun hvirtual ↦ ?_, fun hsays ↦ hsays.elim (hfirst.mpr ∘ .inl) hover⟩
      refine (hfirst.mp hvirtual).imp_right fun ⟨z, hz, hrest⟩ ↦ ⟨z, ?_, hrest⟩
      rw [hsplit]
      exact List.mem_append_left _ hz

end BothPasses

end

/-- Overrides come in order exactly if no method becomes virtual after its registration. -/
theorem overridesInOrder_iff (h : Recorded s) (hv : FlaggedInOrder s) :
    OverridesInOrder p s ↔ ∀ c ∈ classDeclsIn false p.statements, ∀ e ∈ s.registered,
      e.className = c.name.text →
      Overridden s.typeSystem s.registered e.className e.methodName → e.method.isVirtual = true := by
  constructor
  · intro horder c hc e he hname hover
    obtain ⟨earlier, later, hsplit⟩ := List.append_of_mem he
    obtain ⟨z, hz, hvirtual, hbase, hup⟩ := hover
    obtain ⟨before, after, hzsplit⟩ := List.append_of_mem hz
    rw [h.method_name z hz] at hbase
    exact (virtualByDecl_iff h hv hsplit).mp (horder earlier e later hsplit ⟨c, hc, hname.symm⟩
      before z after hzsplit ((virtualByDecl_iff h hv hzsplit).mpr hvirtual) hbase hup)
  · rintro hover earlier e later hsplit ⟨c, hc, hname⟩ before z after hzsplit hz hbase hup
    have hzmem : z ∈ s.registered := by simp [hzsplit]
    rw [← h.method_name z hzmem] at hbase
    refine (virtualByDecl_iff h hv hsplit).mpr (hover c hc e (by simp [hsplit]) hname.symm ?_)
    exact ⟨z, hzmem, (virtualByDecl_iff h hv hzsplit).mp hz, hbase, hup⟩

/-- For distinct class names and type names that stay what they are, the passes agree on every
method exactly if each method that overrides a virtual one is virtual by what is declared
before it. -/
theorem passes_agree_iff {p : Program} (h : translate gen p = .ok s)
    (hd : DistinctClasses (classDeclsIn true p.statements))
    (htypes : FixedTypeNames (afterFirstPass gen p)) :
    PassesAgree (afterFirstPass gen p) s.defined ↔ OverridesInOrder p (afterFirstPass gen p) := by
  obtain ⟨sites, sites', met, new, hboth⟩ := translate_builds h hd
  obtain ⟨hrecorded, hflags⟩ := firstPass_recorded (translate_eq_ok h).1
  have hv := hflags (by rw [hboth.first_classes]; exact (hboth.first_met.map _).nodup hd)
  rw [overridesInOrder_iff hrecorded hv]
  have hdefined : ∀ C, s.defined.filter (fun f ↦ receiverClass f = some C) =
      (new.filter (·.className = C)).map (·.method) := by
    intro C
    rw [hboth.defined, List.filter_map]
    refine congrArg _ (List.filter_congr fun e he ↦ ?_)
    obtain ⟨site, -, hbuilt⟩ := forall₂_exists_of_mem hboth.second he
    simp [hbuilt.receiverClass_eq]
  constructor
  · intro hagree c hc
    rw [← hboth.agree_iff hd hrecorded hv htypes hc, ← hdefined]
    by_cases hne : s.defined.filter (fun f ↦ receiverClass f = some c.name.text) = []
    · -- A class without definitions has no methods.
      obtain ⟨hfirst, hsecond⟩ := hboth.paired hd hrecorded hc
      rw [hdefined, List.map_eq_nil_iff] at hne
      rw [hne, List.forall₂_nil_right_iff] at hsecond
      rw [hsecond, List.forall₂_nil_left_iff] at hfirst
      rw [hdefined, hne, hrecorded.methods, hfirst]
      exact .nil
    · exact hagree _ hne
  · intro hover C hne
    rw [hdefined] at hne ⊢
    obtain ⟨e, he⟩ := List.exists_mem_of_ne_nil _ (mt List.map_eq_nil_iff.mpr hne)
    obtain ⟨he, hname⟩ := List.mem_filter.mp he
    rw [decide_eq_true_eq] at hname
    obtain ⟨site, hsite, hbuilt⟩ := forall₂_exists_of_mem hboth.second he
    obtain ⟨w, hw, hwname⟩ := hboth.second_holds.owned site hsite
    obtain ⟨c, hc, rfl⟩ := List.mem_map.mp hw
    obtain rfl : c.name.text = C := by
      rw [← hname, hbuilt.className_eq]
      exact hwname
    exact (hboth.agree_iff hd hrecorded hv htypes hc).mpr (hover c hc)

private theorem fixedTypeNames_of_classes
    (h : s.registered.all (fun e ↦ e.types.keepsClasses s.typeSystem) = true) : FixedTypeNames s :=
  fun e he ↦ .of_keepsClasses (List.all_eq_true.mp h e he)

/-- An override declared after the method it overrides gets one header in both passes. -/
theorem passes_agree_iff_overriding : ∃ s, translate ⟨true⟩ overriding = .ok s ∧
    PassesAgree (afterFirstPass ⟨true⟩ overriding) s.defined := by
  obtain ⟨s, hs⟩ := translate_of_isOk ⟨true⟩ overriding (by decide +kernel)
  have hBA : (afterFirstPass ⟨true⟩ overriding).typeSystem.parentOf "B" = some "A".toList := by
    decide +kernel
  obtain ⟨x, y, hr, hx, hxm, hxs, hy, hym, hys⟩ := registered_of_two
    (s := afterFirstPass ⟨true⟩ overriding) (C := "A") (D := "B") (m := "m") (n := "m") (b := true)
    (c := false) (by decide +kernel)
  refine ⟨s, hs, (passes_agree_iff hs (by decide +kernel)
    (fixedTypeNames_of_classes (by decide +kernel))).mpr ?_⟩
  intro earlier e later hsplit _ before z after _ _ _ _
  rw [hr] at hsplit
  match earlier, hsplit with
  | [], hsplit =>
    cases hsplit
    exact .marked hxs
  | [w], hsplit =>
    cases hsplit
    have hname : baseName (x.className ++ "_" ++ x.methodName) = y.methodName := by
      rw [hx, hxm, hym]
      decide +kernel
    have hup : TransGen (Follows (afterFirstPass ⟨true⟩ overriding).typeSystem.parentOf)
        y.className x.className := by
      rw [hx, hy]
      exact .single hBA
    have hbefore : VirtualByDecl (afterFirstPass ⟨true⟩ overriding).typeSystem [] x := .marked hxs
    exact .overrides hbefore hname hup
  | w :: w' :: earlier, hsplit => simp at hsplit

private theorem flags_of_sameHeader {fs gs : List Function} (h : List.Forall₂ SameHeader fs gs) :
    fs.map (·.isVirtual) = gs.map (·.isVirtual) := by
  induction h with
  | nil => rfl
  | cons hfg _ ih => rw [List.map_cons, List.map_cons, hfg.isVirtual, ih]

/-- A method that is registered before the virtual one it overrides is registered as plain and
defined as virtual. -/
theorem nestedOverride_passes_disagree : ∃ s, translate ⟨true⟩ nestedOverride = .ok s ∧
    DistinctClasses (classDeclsIn true nestedOverride.statements) ∧
    Acyclic (afterFirstPass ⟨true⟩ nestedOverride).typeSystem.parentOf ∧
    FixedTypeNames (afterFirstPass ⟨true⟩ nestedOverride) ∧
    ¬ PassesAgree (afterFirstPass ⟨true⟩ nestedOverride) s.defined := by
  obtain ⟨s, hs⟩ := translate_of_isOk ⟨true⟩ nestedOverride (by decide +kernel)
  have hregistered : ((afterFirstPass ⟨true⟩ nestedOverride).typeSystem.getClassMethods "B").map
      (·.isVirtual) = [false] := by
    decide +kernel
  have hdefined : (translate ⟨true⟩ nestedOverride).toOption.map (fun s ↦
      (s.defined.filter fun f ↦ receiverClass f = some "B".toList).map (·.isVirtual)) =
        some [true] := by
    decide +kernel
  rw [hs] at hdefined
  replace hdefined : (s.defined.filter fun f ↦ receiverClass f = some "B".toList).map
      (·.isVirtual) = [true] := Option.some.inj hdefined
  refine ⟨s, hs, by decide +kernel,
    (TypeSystem.Hierarchy.of_parentsFirst ["A".toList, "B".toList] (by decide +kernel)).acyclic,
    fixedTypeNames_of_classes (by decide +kernel), fun hagree ↦ ?_⟩
  have hne : (s.defined.filter fun f ↦ receiverClass f = some "B".toList) ≠ [] := by
    intro hnil
    rw [hnil] at hdefined
    cases hdefined
  have hflags := flags_of_sameHeader (hagree "B" hne)
  rw [hregistered, hdefined] at hflags
  cases hflags

end JBLang.Classes
