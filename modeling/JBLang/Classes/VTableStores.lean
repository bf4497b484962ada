import JBLang.Classes.VTableLayout

/-!
# The vtable pointer of a created object

What the code of a constructor stores into the vtable pointers of the object, statement by
statement, and what a creation leaves there. A creation without arguments calls no constructor.
-/

namespace JBLang.Classes

open JBLang.Base JBLang.Types JBLang.Codegen JBLang.Ast

/-! ### Code of constructors -/

/-- A statement of a constructor. -/
inductive ConstructorStep where
  /-- The constructor of another class on the embedded parent, with its text. -/
  | parentCall (className text : Str)
  | storeVTable (path : VTablePath) (className : Str)
  /-- The block that the source has for the constructor. -/
  | body (text : Str)

/-- The text of a statement. -/
def ConstructorStep.text : ConstructorStep → Str
  | .parentCall _ text => text
  | .storeVTable path className => "    " ++ path.fromThis ++ " = &" ++ className ++ "_vtable;\n"
  | .body text => text

/-- The text of statements. -/
def stepsText (steps : List ConstructorStep) : Str := (steps.map ConstructorStep.text).flatten

/-- The statements of the constructor of a class with virtual methods. -/
def constructorSteps (className : Str) (classType : Ty) (call : Option (Str × Str)) (body : Str) :
    List ConstructorStep :=
  (call.toList.map fun c ↦ .parentCall c.1 c.2) ++
    [.storeVTable (VTablePath.ofType classType) className, .body body]

/-! ### Executions -/

/-- The class whose vtable was stored last in the struct that some steps to `parent` lead to. -/
abbrev Slots := Nat → Option Str

/-- The steps to `parent` on the way. -/
def VTablePath.depth : VTablePath → Nat
  | .own => 0
  | .viaParent => 1

/-- An execution of statements of a constructor on the struct at a depth of the object. `code` has
the constructors of the program, and `bodies` what their blocks may do. -/
inductive Executes (code : Str → Option (List ConstructorStep)) (bodies : Str → Slots → Slots → Prop) :
    Nat → List ConstructorStep → Slots → Slots → Prop
  | nil {depth : Nat} {σ : Slots} : Executes code bodies depth [] σ σ
  | parentCall {depth : Nat} {P text : Str} {called steps : List ConstructorStep} {σ σ₁ σ₂ : Slots}
    (hcode : code P = some called) (hcall : Executes code bodies (depth + 1) called σ σ₁)
    (hrest : Executes code bodies depth steps σ₁ σ₂) :
    Executes code bodies depth (.parentCall P text :: steps) σ σ₂
  | storeVTable {depth : Nat} {path : VTablePath} {C : Str} {steps : List ConstructorStep}
    {σ σ' : Slots}
    (hrest : Executes code bodies depth steps
      (Function.update σ (depth + VTablePath.depth path) (some C)) σ') :
    Executes code bodies depth (.storeVTable path C :: steps) σ σ'
  | body {depth : Nat} {text : Str} {steps : List ConstructorStep} {σ σ₁ σ₂ : Slots}
    (hbody : bodies text σ σ₁) (hrest : Executes code bodies depth steps σ₁ σ₂) :
    Executes code bodies depth (.body text :: steps) σ σ₂

/-- The two ways to create an object. -/
inductive CreationForm where
  /-- `new C` -/
  | plain
  /-- `new C(args)` -/
  | construct
deriving DecidableEq

/-- An execution of a creation, from what happens to be in the memory. -/
inductive Creates (code : Str → Option (List ConstructorStep)) (bodies : Str → Slots → Slots → Prop)
    (C : Str) : CreationForm → Slots → Slots → Prop
  | plain {σ : Slots} : Creates code bodies C .plain σ σ
  | construct {steps : List ConstructorStep} {σ σ' : Slots} (hcode : code C = some steps)
    (h : Executes code bodies 0 steps σ σ') : Creates code bodies C .construct σ σ'

/-- The object is one of the class, its vtable pointer is where the constructor stores it, and it
points to the vtable of the class after every creation. -/
structure CarriesVTable (ts : TypeSystem) (code : Str → Option (List ConstructorStep))
    (bodies : Str → Slots → Slots → Prop) (C : Str) (t : Ty) (form : CreationForm) : Prop where
  allocated : ts.resolveType C = .ok t
  path : ∃ owner, vtableOwner ts C (VTablePath.ofType t).members = some owner
  stored : ∀ σ σ', Creates code bodies C form σ σ' →
    σ' (VTablePath.depth (VTablePath.ofType t)) = some C

section Executions

variable {code : Str → Option (List ConstructorStep)} {bodies : Str → Slots → Slots → Prop}
  {depth : Nat} {steps rest : List ConstructorStep} {σ σ' : Slots}

/-- What comes last counts. -/
theorem Executes.exists_rest (h : Executes code bodies depth (steps ++ rest) σ σ') :
    ∃ σ₁, Executes code bodies depth rest σ₁ σ' := by
  induction steps generalizing σ with
  | nil => exact ⟨σ, h⟩
  | cons step steps ih =>
    cases h with
    | parentCall _ _ hrest => exact ih hrest
    | storeVTable hrest => exact ih hrest
    | body _ hrest => exact ih hrest

/-- The store of a class's own constructor is the last one. -/
theorem Executes.stored {C body : Str} {t : Ty} {call : Option (Str × Str)}
    (hbodies : ∀ text σ σ', bodies text σ σ' → σ' = σ)
    (h : Executes code bodies depth (constructorSteps C t call body) σ σ') :
    σ' (depth + VTablePath.depth (VTablePath.ofType t)) = some C := by
  obtain ⟨σ₁, hrest⟩ := h.exists_rest
  cases hrest with
  | storeVTable hrest =>
    cases hrest with
    | body hbody hrest =>
      cases hrest
      rw [hbodies _ _ _ hbody, Function.update_self]

end Executions

/-! ### What the visitor writes -/

section Texts

variable {gen : CCodeGenerator} {s : VState} {C : Str} {t : Ty}

/-- The code of a call of a parent's constructor: that of the arguments, and the call on the
embedded parent. -/
def IsParentCall (className text : Str) : Prop :=
  ∃ written indent args, text = written ++ (indent ++
    generateFunctionCall (className ++ "_" ++ className) ("&(this->parent)" :: args) ++ ";\n")

/-- What a constructor writes for the call of its parent's one. -/
theorem parentCall_text (call : Option (Ident × List Expr)) :
    Post (parentConstructorCall gen call) s fun text s' ↦ s'.typeSystem = s.typeSystem ∧
      ∃ code : Option (Str × Str), code.map Prod.fst = call.map (·.1.text) ∧
        s'.output ++ text = s.output ++ (code.toList.map Prod.snd).flatten ∧
        ∀ c ∈ code, IsParentCall c.1 c.2 := by
  cases call with
  | none => exact post_pure.mpr ⟨rfl, none, rfl, rfl, nofun⟩
  | some call =>
    obtain ⟨P, args⟩ := call
    unfold parentConstructorCall
    dsimp only
    split
    · rw [post_bind]
      exact post_throw.mpr trivial
    · rw [post_bind]
      apply (visitArgs_frame args s).mono
      rintro argTexts s₁ ⟨⟨written, n, rfl⟩, -⟩
      rw [post_bind, post_indentLevel, post_pure]
      let line := s.symbolTable.getIndentLevel ++ generateFunctionCall
        (P.text ++ "_" ++ P.text) ("&(this->parent)" :: argTexts) ++ (";\n" : Str)
      refine ⟨rfl, some (P.text, written ++ line), rfl, ?_, ?_⟩
      · rw [Option.toList_some, List.map_singleton, List.flatten_singleton]
        exact List.append_assoc _ _ _
      · rintro _ ⟨⟩
        exact ⟨written, _, argTexts, rfl⟩

variable (h : s.typeSystem.Hierarchy) (ht : s.typeSystem.classes[C]? = some t)
  (hv : ∃ D, Relation.ReflTransGen (Follows s.typeSystem.parentOf) C D ∧
    s.typeSystem.hasVirtualMethods D = true)

include h ht hv

/-- A virtual method on the chain is collected. -/
theorem exists_virtuals : ∃ methods,
    s.typeSystem.getAllVirtualMethods C = .ok methods ∧ methods.isEmpty = false := by
  obtain ⟨l, hl, -⟩ := h.exists_chain C
  refine ⟨_, h.getAllVirtualMethods_eq (TypeSystem.mem_classes_of_getElem? ht) hl, ?_⟩
  obtain ⟨D, hD, hvirtual⟩ := hv
  rw [← Bool.not_eq_true, List.isEmpty_iff]
  exact TypeSystem.virtualsOn_ne_nil_iff.mpr ⟨D, hl.mem_iff.mpr hD, hvirtual⟩

/-- The text of a constructor is its header and its statements. -/
theorem constructor_text (hs : s.firstPass = false) (name : Ident) (params : List Declarator)
    (call : Option (Ident × List Expr)) (body : List Stmt) :
    Post (visitMember gen C t (.constructor name params call body)) s fun _ s' ↦
      ∃ constructor code blockText, constructor.name = C ++ "_" ++ C ∧
        code.map Prod.fst = call.map (·.1.text) ∧ (∀ c ∈ code, IsParentCall c.1 c.2) ∧
        s'.output = s.output ++ (generateFunctionDecl constructor ++ " \x7b\n" ++
          stepsText (constructorSteps C t code blockText)) := by
  obtain ⟨methods, hmethods, hne⟩ := exists_virtuals h ht hv
  rw [visitMember, post_bind]
  apply (memberParams_frame t params).mono
  rintro ps s₀ ⟨hsame, -⟩
  rw [hsame]
  dsimp only
  rw [post_bind]
  refine firstPassOnly_of_second hs ?_
  rw [post_bind, post_setCurrentFunc, post_bind]
  refine secondPassOnly_of_second hs ?_
  rw [constructorPrologue, post_bind, post_emit, post_bind]
  apply (parentCall_text call).mono
  rintro callText s₁ ⟨htypes, code, hnames, hout, hcalls⟩
  rw [post_bind, post_emit, storeVTable, post_bind, post_askTypes]
  intro allVirtuals hall
  have hall' : s.typeSystem.getAllVirtualMethods C = .ok allVirtuals := by
    rw [← hall]
    exact congrArg (fun ts : TypeSystem ↦ ts.getAllVirtualMethods C) htypes.symm
  rw [hmethods] at hall'
  cases hall'
  rw [hne, if_neg Bool.false_ne_true, post_emit, post_bind]
  apply (inBlock_steps (b := true) fun s₂ _ ↦ visitStmts_steps body s₂).mono
  intro _ s₃ hsteps
  obtain ⟨blockText, hblock⟩ := hsteps.output_grows
  rw [post_bind]
  have hpost : ∀ tail, Post (setCurrentFunc none) { s₃ with output := s₃.output ++ tail }
      fun _ s' ↦ ∃ constructor code blockText, constructor.name = C ++ "_" ++ C ∧
        code.map Prod.fst = call.map (·.1.text) ∧ (∀ c ∈ code, IsParentCall c.1 c.2) ∧
        s'.output = s.output ++ (generateFunctionDecl constructor ++ " \x7b\n" ++
          stepsText (constructorSteps C t code blockText)) := by
    intro tail
    refine post_setCurrentFunc.mpr ⟨{ name := C ++ "_" ++ C, params := ps }, code,
      blockText ++ tail, rfl, hnames, hcalls, ?_⟩
    dsimp only at hblock hout ⊢
    rw [← hblock, hout]
    simp only [stepsText, constructorSteps, ConstructorStep.text, List.map_append, List.map_map,
      List.flatten_append, List.map_cons, List.map_nil, List.flatten_cons, List.flatten_nil,
      List.append_nil, List.append_assoc]
    rfl
  rw [post_secondPassOnly]
  refine ⟨fun _ ↦ ?_, fun _ ↦ post_emit.mpr (hpost _)⟩
  have hnil := hpost []
  rwa [List.append_nil] at hnil

omit h ht hv

/-- The text of a creation without arguments is an allocation, and nothing is written. -/
theorem new_text (spec : TypeSpec) : Post (visitExpr gen (.new spec)) s fun text s' ↦
    s' = s ∧ ∃ type, resolveTypeText s.typeSystem spec.getText = .ok type ∧
      text = generateAlloc type := by
  rw [visitExpr, resolveTypeFromContext, post_bind, post_askTypes]
  intro type htype
  exact post_pure.mpr ⟨rfl, type, htype, rfl⟩

/-- A creation with arguments allocates an object and calls its class's constructor on it. -/
theorem newWithConstructor_text (hs : s.firstPass = false) (name : Ident) (args : List Expr) :
    Post (visitExpr gen (.newWithConstructor name args)) s fun temp s' ↦
      ∃ constructor classType argCode argTexts indent,
        s.typeSystem.getClassConstructor name.text = some constructor ∧
        s.typeSystem.resolveType name.text = .ok classType ∧
        s'.output = s.output ++ (indent ++ generateVarDecl temp classType.setPointer
            (" = " ++ generateAlloc classType) ++ argCode ++
          (indent ++ generateFunctionCall constructor.name (temp :: argTexts) ++ ";\n")) := by
  rw [visitExpr, post_bind, post_inFirstPass, hs]
  simp only [Bool.false_eq_true, if_false]
  rw [post_bind, post_get]
  cases hcons : s.typeSystem.getClassConstructor name.text with
  | none => exact post_throw.mpr trivial
  | some constructor =>
    simp only [freshTemp, post_bind, post_get, post_modify, post_pure, post_indentLevel,
      post_askTypes, post_emit]
    intro classType htype
    apply (visitArgs_frame args _).mono
    rintro argTexts s₁ ⟨⟨argCode, n, rfl⟩, -⟩
    refine ⟨constructor, classType, argCode, argTexts, s.symbolTable.getIndentLevel, rfl, htype, ?_⟩
    simp only [List.append_assoc]

end Texts

/-! ### Created objects -/

/-- A constructor of a class with virtual methods calls at most a parent's one, stores the class's
vtable and runs its block; a creation with arguments calls it and one without does not. If the
blocks leave the vtable pointers alone, the object of a creation carries its class's vtable exactly
if the creation is one with arguments, no other type hides the class, and the vtable pointer is in
the struct of the class or of its parent. -/
theorem created_vtable_iff (gen : CCodeGenerator) {s : VState} {C : Ident} {t : Ty}
    (hs : s.firstPass = false) (h : s.typeSystem.Hierarchy)
    (ht : s.typeSystem.classes[C.text]? = some t)
    (hv : ∃ D, Relation.ReflTransGen (Follows s.typeSystem.parentOf) C.text D ∧
      s.typeSystem.hasVirtualMethods D = true) :
    (∀ name params call body,
      Post (visitMember gen C.text t (.constructor name params call body)) s fun _ s' ↦
        ∃ constructor code blockText, constructor.name = C.text ++ "_" ++ C.text ∧
          code.map Prod.fst = call.map (·.1.text) ∧ (∀ c ∈ code, IsParentCall c.1 c.2) ∧
          s'.output = s.output ++ (generateFunctionDecl constructor ++ " \x7b\n" ++
            stepsText (constructorSteps C.text t code blockText))) ∧
      (∀ spec, Post (visitExpr gen (.new spec)) s fun text s' ↦ s' = s ∧
        ∃ type, resolveTypeText s.typeSystem spec.getText = .ok type ∧ text = generateAlloc type) ∧
      (∀ args, Post (visitExpr gen (.newWithConstructor C args)) s fun temp s' ↦
        ∃ constructor classType argCode argTexts indent,
          s.typeSystem.getClassConstructor C.text = some constructor ∧
          s.typeSystem.resolveType C.text = .ok classType ∧
          s'.output = s.output ++ (indent ++ generateVarDecl temp classType.setPointer
              (" = " ++ generateAlloc classType) ++ argCode ++
            (indent ++ generateFunctionCall constructor.name (temp :: argTexts) ++ ";\n"))) ∧
      ∀ code call body form, code C.text = some (constructorSteps C.text t call body) →
        ((∀ bodies : Str → Slots → Slots → Prop, (∀ text σ σ', bodies text σ σ' → σ' = σ) →
            CarriesVTable s.typeSystem code bodies C.text t form) ↔
          form = .construct ∧ s.typeSystem.resolveType C.text = .ok t ∧
            VTableNearby s.typeSystem t) := by
  refine ⟨constructor_text h ht hv hs, new_text, newWithConstructor_text hs C,
    fun code call body form hcode ↦ ⟨fun hall ↦ ?_, ?_⟩⟩
  · have hcarries := hall (fun _ σ σ' ↦ σ' = σ) fun _ _ _ ↦ id
    refine ⟨?_, hcarries.allocated, (vtableOwner_ofType h ht hv).mp hcarries.path⟩
    cases form with
    | construct => rfl
    | plain => cases hcarries.stored (fun _ ↦ none) _ .plain
  · rintro ⟨rfl, hallocated, hnear⟩ bodies hbodies
    refine ⟨hallocated, (vtableOwner_ofType h ht hv).mpr hnear, fun σ σ' hcreates ↦ ?_⟩
    cases hcreates with
    | construct hcode' hexec =>
      rw [hcode] at hcode'
      cases hcode'
      have hstored := hexec.stored hbodies
      rwa [Nat.zero_add] at hstored

private def baseA : Ident := ⟨"A".toList, isIdentifier_A⟩

private def derivedB : Ident := ⟨"B".toList, isIdentifier_B⟩

private def furtherC : Ident := ⟨"C".toList, isIdentifier_C⟩

private def slotM : Ident := ⟨"m".toList, isIdentifier_m⟩

/-- `class A { virtual void m() {} A() {} } class B : A { B() {} } class C : B { C() {} }` -/
def constructed : Program where
  directives := []
  statements := [.classDecl baseA none [.method true .void slotM [] [], .constructor baseA [] none []],
    .classDecl derivedB (some baseA) [.constructor derivedB [] none []],
    .classDecl furtherC (some derivedB) [.constructor furtherC [] none []]]

/-- The beginning of the second pass. -/
def secondPassOf (p : Program) : VState := { afterFirstPass ⟨true⟩ p with firstPass := false }

theorem types_secondPassOf (p : Program) : (secondPassOf p).typeSystem = typesOf p := rfl

private theorem constructed_hierarchy : (typesOf constructed).Hierarchy :=
  .of_parentsFirst ["A".toList, "B".toList, "C".toList] (by decide +kernel)

private theorem constructed_virtual : (typesOf constructed).hasVirtualMethods "A" = true := by
  decide +kernel

private theorem constructed_link : (typesOf constructed).parentOf "B" = some "A".toList := by
  decide +kernel

private theorem constructed_class {C : Str} (h : ((typesOf constructed).classes[C]?).isSome = true) :
    (typesOf constructed).classes[C]? = some (typeOf constructed C) := by
  obtain ⟨t, ht⟩ := Option.isSome_iff_exists.mp h
  rw [typeOf, ht]
  rfl

/-- The constructor of `B` with an empty block, and no other one. -/
private def derivedCode (C : Str) : Option (List ConstructorStep) :=
  if C = derivedB.text then
    some (constructorSteps derivedB.text (typeOf constructed derivedB.text) none "")
  else none

/-- `new B()` of `constructed` carries the vtable of `B`. -/
theorem created_vtable_iff_derived :
    CarriesVTable (typesOf constructed) derivedCode (fun _ σ σ' ↦ σ' = σ) derivedB.text
        (typeOf constructed derivedB.text) .construct ∧
      ∃ σ', Creates derivedCode (fun _ σ σ' ↦ σ' = σ) derivedB.text .construct (fun _ ↦ none) σ' := by
  have hB := constructed_class (C := derivedB.text) (by decide +kernel)
  have hA := constructed_class (C := baseA.text) (by decide +kernel)
  have hp : (typeOf constructed derivedB.text).hasParent = true := by decide +kernel
  have hparent : (typeOf constructed derivedB.text).parentClass = baseA.text := by decide +kernel
  have hv : ∃ D, Relation.ReflTransGen (Follows (secondPassOf constructed).typeSystem.parentOf)
      derivedB.text D ∧ (secondPassOf constructed).typeSystem.hasVirtualMethods D = true := by
    rw [types_secondPassOf]
    exact ⟨"A".toList, .single constructed_link, constructed_virtual⟩
  have hiff := (created_vtable_iff ⟨true⟩ (C := derivedB) (s := secondPassOf constructed) rfl
    (types_secondPassOf constructed ▸ constructed_hierarchy)
    (types_secondPassOf constructed ▸ hB) hv).2.2.2 derivedCode none "" .construct (if_pos rfl)
  rw [types_secondPassOf] at hiff
  refine ⟨hiff.mpr ⟨rfl, ?_, ?_⟩ _ fun _ _ _ ↦ id, ?_⟩
  · have htypedef : ((typesOf constructed).typedefs[derivedB.text]?).isNone = true := by
      decide +kernel
    have hstruct : ((typesOf constructed).structs[derivedB.text]?).isNone = true := by
      decide +kernel
    rw [TypeSystem.resolveType_plain _ (by decide) (by decide), TypeSystem.resolveBase,
      Option.isNone_iff_eq_none.mp htypedef, Option.isNone_iff_eq_none.mp hstruct, hB]
    rfl
  · rw [VTableNearby, if_pos hp, hparent]
    exact ⟨by decide +kernel, _, hA, by decide +kernel, constructed_virtual, by decide +kernel⟩
  · exact ⟨_, .construct (if_pos rfl) (.storeVTable (.body rfl .nil))⟩

/-- `new A` of `constructed` is accepted and calls no constructor, and the constructor of `C`
stores to a member that the struct of `B` does not have. -/
theorem plain_creation_without_vtable :
    ((visitExpr ⟨true⟩ (.new (.named none baseA))).run (secondPassOf constructed)).toOption.map
        Prod.fst = some ("runtime_alloc(sizeof(struct A))" : Str) ∧
      (∀ code bodies t, ¬CarriesVTable (typesOf constructed) code bodies baseA.text t .plain) ∧
      ((visitExpr ⟨true⟩ (.newWithConstructor furtherC [])).run (secondPassOf constructed)).toOption.map
        Prod.fst = some ("temp_0" : Str) ∧
      vtableOwner (typesOf constructed) furtherC.text
        (VTablePath.ofType (typeOf constructed furtherC.text)).members = none := by
  refine ⟨by decide +kernel, fun code bodies t hcarries ↦ ?_, by decide +kernel, by decide +kernel⟩
  cases hcarries.stored (fun _ ↦ none) _ .plain

end JBLang.Classes
