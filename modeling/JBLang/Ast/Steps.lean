import JBLang.Ast.ExprFrame
import Mathlib.Logic.Relation

/-!
# What the visit of a statement changes

The visits of statements change the visitor's members only in the ways listed by `VisitStep`.
What holds before every visit and is kept by each of these steps holds along both passes.
-/

namespace JBLang.Ast

open JBLang.Base JBLang.Types JBLang.Codegen Relation

/-- The part of `getClassFromCode` behind the registration: the parent link and the fields. -/
def linkClass (ts : TypeSystem) (name : Str) (parent : Option Str) (fields : List (Str × Ty)) :
    Except VisitError (TypeSystem × Ty) :=
  match parent with
  | none => ts.setClassMembers name fields
  | some parent => do
    let ts ← ts.setClassParent name parent
    ts.setClassMembers name fields

/-- The class is declared, and with this type unless a class of its name is declared again. -/
def DeclaredAs (s : VState) (className : Str) (classType : Ty) : Prop :=
  className ∈ s.classNames ∧
    (s.classNames.Nodup → s.typeSystem.classes[className]? = some classType)

/-- A single change of the visitor's members; those of class declarations are made where
`withClasses` allows them. -/
inductive VisitStep (withClasses : Bool) : VState → VState → Prop
  | write (s : VState) (text : Str) : VisitStep withClasses s { s with output := s.output ++ text }
  | temp (s : VState) (n : Nat) : VisitStep withClasses s { s with tempVarCounter := n }
  | counting (s : VState) (c : Bool) : VisitStep withClasses s { s with addRefCounts := c }
  | symbols (s : VState) (st : SymbolTable) : VisitStep withClasses s { s with symbolTable := st }
  | registerStruct (s : VState) (name : Ident) (hs : s.firstPass = true) :
    VisitStep withClasses s { s with typeSystem := s.typeSystem.registerStruct name.text }
  | setStructMembers (s : VState) {name : Str} {members : List (Str × Ty)} {ts : TypeSystem}
    {type : Ty} (h : s.typeSystem.setStructMembers name members = .ok (ts, type)) :
    VisitStep withClasses s { s with typeSystem := ts }
  | registerTypeDef (s : VState) (name : Str) {type : Ty} (hs : s.firstPass = true)
    (h : (∃ text, resolveTypeText s.typeSystem text = .ok type) ∨
      ∃ structName : Str, s.typeSystem.structs[structName]? = some type) :
    VisitStep withClasses s { s with typeSystem := s.typeSystem.registerTypeDef name type }
  | registerFunction (s : VState) (f : Function) (hs : s.firstPass = true) :
    VisitStep withClasses s { s with typeSystem := s.typeSystem.registerFunction f }
  | registerConstructor (s : VState) (className : Str) (f : Function) (hs : s.firstPass = true) :
    VisitStep withClasses s { s with typeSystem := s.typeSystem.registerClassConstructor className f }
  | declareClass (s : VState) (hw : withClasses = true) {name : Ident} {parent : Option Str} {fields : List (Str × Ty)}
    {ts : TypeSystem} {type : Ty} (hs : s.firstPass = true)
    (h : linkClass (s.typeSystem.registerClass name.text) name.text parent fields = .ok (ts, type)) :
    VisitStep withClasses s { s with typeSystem := ts, classNames := s.classNames ++ [name.text] }
  | relinkClass (s : VState) (hw : withClasses = true) {name : Str} {parent : Option Str} {fields : List (Str × Ty)}
    {ts : TypeSystem} {type : Ty} (hs : s.firstPass = false)
    (h : linkClass s.typeSystem name parent fields = .ok (ts, type)) :
    VisitStep withClasses s { s with typeSystem := ts }
  | registerMethod (s : VState) (hw : withClasses = true) {entry : MethodEntry} {classType : Ty} {text : Str}
    (hs : s.firstPass = true) (hc : DeclaredAs s entry.className classType)
    (hname : entry.method.name = entry.className ++ "_" ++ entry.methodName)
    (hmarked : entry.saysVirtual = occursIn "virtual" text)
    (hv : methodIsVirtual s.typeSystem classType entry.methodName text =
      .ok entry.method.isVirtual) :
    VisitStep withClasses s { s with
      typeSystem := s.typeSystem.registerClassMethod entry.className entry.method
      registered := s.registered ++ [entry] }
  | defineMethod (s : VState) (hw : withClasses = true) (f : Function) (hs : s.firstPass = false) :
    VisitStep withClasses s { s with defined := s.defined ++ [f] }

/-- Any number of changes. -/
def Steps (withClasses : Bool) : VState → VState → Prop := ReflTransGen (VisitStep withClasses)

variable {gen : CCodeGenerator} {b : Bool} {s s' s'' : VState}

/-- No step changes the pass. -/
theorem VisitStep.firstPass_eq (h : VisitStep b s s') : s'.firstPass = s.firstPass := by
  cases h <;> rfl

namespace Steps

theorem refl (s : VState) : Steps b s s := ReflTransGen.refl

theorem single (h : VisitStep b s s') : Steps b s s' := ReflTransGen.single h

theorem trans (h : Steps b s s') (h' : Steps b s' s'') : Steps b s s'' := ReflTransGen.trans h h'

theorem tail (h : Steps b s s') (h' : VisitStep b s' s'') : Steps b s s'' := ReflTransGen.tail h h'

/-- What each step of a pass keeps holds after any number of them. -/
theorem invariant {P : VState → Prop} (h : Steps b s s')
    (hstep : ∀ s₁ s₂, s₁.firstPass = s.firstPass → VisitStep b s₁ s₂ → P s₁ → P s₂) (hP : P s) :
    P s' ∧ s'.firstPass = s.firstPass := by
  induction h with
  | refl => exact ⟨hP, rfl⟩
  | tail _ h ih => exact ⟨hstep _ _ ih.2 h ih.1, h.firstPass_eq.trans ih.2⟩

theorem firstPass_eq (h : Steps b s s') : s'.firstPass = s.firstPass :=
  (h.invariant (P := fun _ ↦ True) (fun _ _ _ _ _ ↦ trivial) trivial).2

/-- Plain changes are changes. -/
theorem of_plain (h : Steps false s s') : Steps b s s' := by
  refine ReflTransGen.mono (fun s₁ s₂ h₁ ↦ ?_) _ _ h
  cases h₁ with
  | declareClass hw | relinkClass hw | registerMethod hw | defineMethod hw => cases hw
  | write => exact .write ..
  | temp => exact .temp ..
  | counting => exact .counting ..
  | symbols => exact .symbols ..
  | registerStruct name hs => exact .registerStruct _ name hs
  | setStructMembers hm => exact .setStructMembers _ hm
  | registerTypeDef name hs ht => exact .registerTypeDef _ name hs ht
  | registerFunction f hs => exact .registerFunction _ f hs
  | registerConstructor C f hs => exact .registerConstructor _ C f hs

theorem write (h : Steps b s s') (text : Str) :
    Steps b s { s' with output := s'.output ++ text } := h.tail (.write s' text)

theorem symbols (h : Steps b s s') (st : SymbolTable) :
    Steps b s { s' with symbolTable := st } := h.tail (.symbols s' st)

theorem counting (h : Steps b s s') (c : Bool) :
    Steps b s { s' with addRefCounts := c } := h.tail (.counting s' c)

end Steps

theorem ExprFrame.steps (h : ExprFrame s s') : Steps b s s' := by
  obtain ⟨⟨text, n, rfl⟩, -⟩ := h
  exact ((Steps.refl s).write text).tail (.temp _ n)

/-- Without class declarations the record of the run stays as it is. -/
theorem Steps.record_eq (h : Steps false s s') :
    s'.classNames = s.classNames ∧ s'.registered = s.registered ∧ s'.defined = s.defined := by
  refine (h.invariant (P := fun s₁ ↦ s₁.classNames = s.classNames ∧
    s₁.registered = s.registered ∧ s₁.defined = s.defined) (fun s₁ s₂ _ hstep h₁ ↦ ?_)
    ⟨rfl, rfl, rfl⟩).1
  cases hstep with
  | declareClass hw | relinkClass hw | registerMethod hw | defineMethod hw => cases hw
  | _ => exact h₁

/-- Nothing that is written is taken back. -/
theorem Steps.output_grows (h : Steps b s s') : s.output <+: s'.output := by
  refine (h.invariant (P := fun s₁ ↦ s.output <+: s₁.output) (fun s₁ s₂ _ hstep h₁ ↦ ?_)
    (List.prefix_refl _)).1
  cases hstep with
  | write text => exact h₁.trans (List.prefix_append ..)
  | _ => exact h₁

/-! ### Changes of the class table -/

/-- What `linkClass` does to a class table. -/
structure Linked (ts : TypeSystem) (name : Str) (parent : Option Str) (fields : List (Str × Ty))
    (ts' : TypeSystem) (type : Ty) : Prop where
  frame : ts' = { ts with classes := ts'.classes }
  lookup : ∀ C : Str, ts'.classes[C]? = if C = name then some type else ts.classes[C]?
  type_eq : ∃ t, ts.classes[name]? = some t ∧
    type = { t with parentClass := parent.getD t.parentClass, structMembers := fields }
  parent_declared : ∀ P, parent = some P → P ∈ ts.classes

theorem linkClass_spec {ts ts' : TypeSystem} {name : Str} {parent : Option Str}
    {fields : List (Str × Ty)} {type : Ty} (h : linkClass ts name parent fields = .ok (ts', type)) :
    Linked ts name parent fields ts' type := by
  cases parent with
  | none =>
    obtain ⟨t, ht, rfl, rfl⟩ := TypeSystem.setClassMembers_eq_ok.mp h
    exact ⟨rfl, NameMap.lookup_insert _ _ _, ⟨t, ht, rfl⟩, nofun⟩
  | some P =>
    cases hp : ts.setClassParent name P with
    | error e =>
      rw [linkClass, hp] at h
      cases h
    | ok ts₁ =>
      rw [linkClass, hp] at h
      obtain ⟨t, ht, hP, rfl⟩ := TypeSystem.setClassParent_eq_ok.mp hp
      obtain ⟨t', ht', rfl, rfl⟩ := TypeSystem.setClassMembers_eq_ok.mp h
      obtain rfl : t.setParentClass P = t' := by
        simpa [NameMap.lookup_insert] using ht'
      refine ⟨rfl, fun C ↦ ?_, ⟨t, ht, rfl⟩, fun _ h ↦ Option.some.inj h ▸ hP⟩
      simp only [NameMap.lookup_insert]
      split <;> rfl

/-- In the first pass a declared class keeps its type, since only another declaration of its name
changes it. -/
theorem VisitStep.declaredAs {C : Str} {t : Ty} (h : VisitStep b s s') (hs : s.firstPass = true)
    (hc : DeclaredAs s C t) : DeclaredAs s' C t := by
  cases h with
  | setStructMembers h =>
    obtain ⟨_, _, _, rfl⟩ := TypeSystem.setStructMembers_eq_ok.mp h
    exact hc
  | relinkClass _ hs' h => simp [hs] at hs'
  | @declareClass _ name parent fields ts type _ h =>
    refine ⟨List.mem_append_left _ hc.1, fun hnodup ↦ ?_⟩
    have hne : C ≠ name.text := by
      rintro rfl
      simpa [hc.1] using (List.nodup_append.mp hnodup).2.2 _ hc.1 name.text
    have hold := hc.2 (List.nodup_append.mp hnodup).1
    rw [(linkClass_spec h).lookup, if_neg hne, TypeSystem.registerClass, NameMap.lookup_insert,
      if_neg hne, hold]
  | _ => exact hc

theorem Steps.declaredAs {C : Str} {t : Ty} (h : Steps b s s') (hs : s.firstPass = true)
    (hc : DeclaredAs s C t) : DeclaredAs s' C t :=
  (h.invariant (fun _ _ hs₁ h₁ ↦ h₁.declaredAs (hs₁.trans hs)) hc).1

/-! ### Parts of visits -/

theorem declaratorType_frame (d : Declarator) :
    Post (declaratorType d) s fun _ s' ↦ s' = s := by
  cases d with
  | plain t name =>
    simp only [declaratorType, post_bind, post_pure]
    exact resolveTypeFromContext_frame t
  | array t name sizes =>
    simp only [declaratorType, post_bind, post_askTypes, post_pure]
    apply (resolveTypeFromContext_frame t).mono
    rintro _ _ rfl _ _
    rfl

theorem declaratorTypes_frame (ds : List Declarator) :
    Post (declaratorTypes ds) s fun ps s' ↦ s' = s ∧ ps.length = ds.length := by
  induction ds with
  | nil => simp only [declaratorTypes, post_pure, List.length_nil, and_self]
  | cons d ds ih =>
    simp only [declaratorTypes, post_bind, post_pure]
    apply (declaratorType_frame d).mono
    rintro _ _ rfl
    apply ih.mono
    rintro ps _ ⟨rfl, hlen⟩
    exact ⟨rfl, by rw [List.length_cons, List.length_cons, hlen]⟩

theorem memberParams_frame (classType : Ty) (params : List Declarator) :
    Post (memberParams classType params) s fun ps s' ↦
      s' = s ∧ ps.tail.length = params.length := by
  simp only [memberParams, post_bind, post_pure]
  exact declaratorTypes_frame params

theorem getStructFromCode_steps (d : StructDecl) :
    Post (getStructFromCode d) s fun type s' ↦
      Steps b s s' ∧ s'.typeSystem.structs[d.name.text]? = some type := by
  have set_members : ∀ s₁, Steps b s s₁ → Post (do
      let members ← declaratorTypes d.members
      updateTypes (·.setStructMembers d.name.text members)) s₁ fun type s' ↦
        Steps b s s' ∧ s'.typeSystem.structs[d.name.text]? = some type := by
    intro s₁ h₁
    simp only [post_bind, post_updateTypes]
    apply (declaratorTypes_frame d.members).mono
    rintro members _ ⟨rfl, -⟩ ts type hts
    refine ⟨h₁.tail (.setStructMembers _ hts), ?_⟩
    obtain ⟨_, _, _, rfl⟩ := TypeSystem.setStructMembers_eq_ok.mp hts
    simp
  unfold getStructFromCode
  rw [post_bind, post_firstPassOnly, post_modifyTypes]
  exact ⟨fun hs ↦ set_members _ (.single (.registerStruct s _ hs)),
    fun _ ↦ set_members s (.refl s)⟩

/-- A class declaration links the class, registered anew in the first pass. -/
theorem getClassFromCode_spec (name : Ident) (parent : Option Ident) (members : List ClassMember) :
    Post (getClassFromCode name parent members) s fun type s' ↦ ∃ fields ts,
      s' = { s with typeSystem := ts } ∧
      linkClass (if s.firstPass then s.typeSystem.registerClass name.text else s.typeSystem)
        name.text (parent.map Ident.text) fields = .ok (ts, type) := by
  have link : ∀ s₁ : VState, Post (do
      setParent name parent
      let fields ← declaratorTypes (fieldDeclarators members)
      updateTypes (·.setClassMembers name.text fields)) s₁ fun type s' ↦ ∃ fields ts,
        s' = { s₁ with typeSystem := ts } ∧
        linkClass s₁.typeSystem name.text (parent.map Ident.text) fields = .ok (ts, type) := by
    intro s₁
    cases parent with
    | none =>
      simp only [setParent, post_bind, post_pure, post_updateTypes]
      apply (declaratorTypes_frame _).mono
      rintro fields _ ⟨rfl, -⟩ ts type hts
      exact ⟨fields, ts, rfl, hts⟩
    | some P =>
      simp only [setParent, post_bind, post_askTypes, post_modifyTypes, post_updateTypes]
      intro ts₁ hts₁
      apply (declaratorTypes_frame _).mono
      rintro fields _ ⟨rfl, -⟩ ts type hts
      refine ⟨fields, ts, rfl, ?_⟩
      rw [Option.map_some, linkClass, hts₁]
      exact hts
  unfold getClassFromCode
  rw [post_bind, post_firstPassOnly, post_modifyTypes]
  constructor
  · intro hs
    rw [if_pos hs]
    exact link { s with typeSystem := s.typeSystem.registerClass name.text }
  · intro hs
    rw [if_neg (by simp [hs])]
    exact link s

theorem visitVarDecl_steps (d : Declarator) (init : Option Expr) :
    Post (visitVarDecl gen d init) s fun _ s' ↦ Steps b s s' := by
  have declare : ∀ {s₁ : VState} (hs₁ : s₁.firstPass = false) (indent varName : Str) (varType : Ty),
      Post (declareVar gen indent varName varType init) s₁ fun _ s' ↦ ExprFrame s₁ s' := by
    intro s₁ hs₁ indent varName varType
    cases init with
    | none =>
      simp only [declareVar, post_emit]
      exact .of_second hs₁ _ _
    | some e =>
      simp only [declareVar, post_bind, post_lookupSymbol, post_emit]
      apply (visitExpr_frame e s₁).mono
      intro _ s₂ h₂
      apply (castTo_frame _ _ _).mono
      rintro _ _ rfl
      apply (emitIncRef_frame (h₂.firstPass_eq.trans hs₁) _ _ _).mono
      intro _ s₃ h₃
      have h₂₃ := h₂.trans h₃
      exact h₂₃.trans (.of_second (h₂₃.firstPass_eq.trans hs₁) _ _)
  have finish : ∀ {s₁ : VState} (_ : Steps b s s₁) (indent varName : Str) (varType : Ty),
      Post (do
        secondPassOnly (declareVar gen indent varName varType init)
        addSymbol varName varType) s₁ fun _ s' ↦ Steps b s s' := by
    intro s₁ h₁ indent varName varType
    simp only [post_bind, post_secondPassOnly, post_addSymbol]
    refine ⟨fun _ st _ ↦ h₁.symbols st, fun hs₁ ↦ ?_⟩
    apply (declare hs₁ indent varName varType).mono
    intro _ s₂ h₂ st _
    exact (h₁.trans h₂.steps).symbols st
  simp only [visitVarDecl, post_bind (m := indentLevel), post_indentLevel,
    post_bind (m := declaratorType _)]
  apply (declaratorType_frame d).mono
  rintro ⟨varName, varType⟩ _ rfl
  simp only [rememberGlobal, post_bind (m := get >>= _), post_bind (m := get), post_get]
  split
  · exact post_modifySymbols.mpr (finish ((Steps.refl _).symbols _) _ _ _)
  · exact post_pure.mpr (finish (.refl _) _ _ _)

theorem releaseScope_steps (indent : Str) :
    Post (releaseScope gen indent) s fun _ s' ↦ Steps b s s' := by
  simp only [releaseScope, post_bind, post_get, post_emit]
  exact (Steps.refl s).write _

theorem secondPassOnly_steps {m : VisitM Unit}
    (h : s.firstPass = false → Post m s fun _ s' ↦ Steps b s s') :
    Post (secondPassOnly m) s fun _ s' ↦ Steps b s s' :=
  post_secondPassOnly.mpr ⟨fun _ ↦ .refl s, h⟩

theorem firstPassOnly_steps {m : VisitM Unit}
    (h : s.firstPass = true → Post m s fun _ s' ↦ Steps b s s') :
    Post (firstPassOnly m) s fun _ s' ↦ Steps b s s' :=
  post_firstPassOnly.mpr ⟨h, fun _ ↦ .refl s⟩

/-- A block is its statements between plain changes. -/
theorem inBlock_around {statements : VisitM Unit} {Q : VState → Prop}
    (h : ∀ s₁, Steps false s s₁ →
      Post statements s₁ fun _ s₂ ↦ ∀ s', Steps false s₂ s' → Q s') :
    Post (inBlock gen statements) s fun _ s' ↦ Q s' := by
  simp only [inBlock, post_bind, post_modifySymbols, post_indentLevel]
  have h₁ := (Steps.refl (b := false) s).symbols s.symbolTable.enterScope
  apply (secondPassOnly_steps fun _ ↦ post_emit.mpr ((Steps.refl _).write _)).mono
  intro _ s₂ h₂
  apply (h s₂ (h₁.trans h₂)).mono
  intro _ s₃ h₃
  apply (secondPassOnly_steps fun _ ↦ releaseScope_steps _).mono
  intro _ s₄ h₄
  apply (secondPassOnly_steps fun _ ↦ post_emit.mpr ((Steps.refl _).write _)).mono
  intro _ s₆ h₆
  exact h₃ s₆ ((h₄.symbols s₄.symbolTable.exitScope).trans h₆)

theorem inBlock_steps {statements : VisitM Unit}
    (h : ∀ s₁, Steps b s s₁ → Post statements s₁ fun _ s' ↦ Steps b s₁ s') :
    Post (inBlock gen statements) s fun _ s' ↦ Steps b s s' := by
  apply inBlock_around
  intro s₁ h₁
  apply (h s₁ h₁.of_plain).mono
  intro _ s₂ h₂ s' h'
  exact (h₁.of_plain.trans h₂).trans h'.of_plain

theorem visitReturnStmt_steps (e : Option Expr) :
    Post (visitReturnStmt gen e) s fun _ s' ↦ Steps b s s' := by
  simp only [visitReturnStmt, post_bind, post_setAddRefCounts]
  have h₁ := (Steps.refl (b := b) s).counting false
  cases e with
  | none => exact post_throw.mpr trivial
  | some e =>
    apply (visitExpr_frame e _).mono
    intro _ s₂ h₂
    have h₃ := (h₁.trans h₂.steps).counting true
    apply (secondPassOnly_steps fun hs ↦ ?_).mono
    · intro _ s₄ h₄
      exact h₃.trans h₄
    · simp only [emitReturn, post_bind, post_indentLevel, post_lookupSymbol]
      apply (emitIncRef_frame hs _ _ _).mono
      intro _ s₄ h₄
      apply (releaseScope_steps _).mono
      intro _ s₅ h₅
      exact post_emit.mpr ((h₄.steps.trans h₅).write _)

theorem visitExprStmt_steps (e : Expr) : Post (visitExprStmt gen e) s fun _ s' ↦ Steps b s s' := by
  simp only [visitExprStmt, post_bind]
  apply (visitExpr_frame e s).mono
  intro _ s₁ h₁
  apply (secondPassOnly_steps fun _ ↦ ?_).mono
  · intro _ s₂ h₂
    exact h₁.steps.trans h₂
  · simp only [post_bind, post_indentLevel, post_emit]
    exact (Steps.refl s₁).write _

theorem visitCondition_steps (before : Str) (cond : Expr) (after : Str) :
    Post (visitCondition gen before cond after) s fun _ s' ↦ Steps b s s' := by
  simp only [visitCondition, post_bind, post_setAddRefCounts, post_emit]
  apply (visitExpr_frame cond _).mono
  intro _ s₁ h₁
  exact (((((Steps.refl s).counting false).write before).trans h₁.steps).write _).counting true

theorem visitForInit_steps (init : ForInit) :
    Post (visitForInit gen init) s fun _ s' ↦ Steps b s s' := by
  cases init with
  | none => exact post_pure.mpr (.refl s)
  | exprStmt e =>
    simp only [visitForInit, post_bind, post_emit]
    apply (visitExpr_frame e s).mono
    intro _ s₁ h₁
    exact h₁.steps.write _
  | varDecl d init =>
    cases init with
    | none =>
      simp only [visitForInit, post_bind, post_emit, post_addSymbol]
      apply (declaratorType_frame d).mono
      rintro _ _ rfl st _
      exact ((Steps.refl _).write _).symbols st
    | some e =>
      simp only [visitForInit, post_bind, post_emit, post_addSymbol]
      apply (declaratorType_frame d).mono
      rintro _ _ rfl
      apply (visitExpr_frame e _).mono
      intro _ s₁ h₁ st _
      exact ((((Steps.refl _).write _).trans h₁.steps).write _).symbols st

theorem visitForHead_steps (init : ForInit) (cond step : Option Expr) :
    Post (visitForHead gen init cond step) s fun _ s' ↦ Steps b s s' := by
  simp only [visitForHead, post_bind, post_indentLevel, post_emit]
  apply (visitForInit_steps (b := b) init).mono
  intro _ s₁ h₁
  have h₂ := (((Steps.refl (b := b) s).write _).trans h₁).write "; "
  have visit_cond : ∀ s₃, Post (visitForCond gen (cond.or step)) s₃ fun _ s' ↦ Steps b s₃ s' := by
    intro s₃
    cases cond.or step with
    | none => exact post_pure.mpr (.refl s₃)
    | some e => exact visitCondition_steps _ e _
  apply (visit_cond _).mono
  intro _ s₃ h₃
  have h₄ := (h₂.trans h₃).write "; "
  cases cond.bind fun _ ↦ step with
  | none => exact post_pure.mpr (h₄.write _)
  | some e =>
    simp only [visitForStep, post_bind, post_emit]
    apply (visitExpr_frame e _).mono
    intro _ s₅ h₅
    exact ((h₄.trans h₅.steps).write _).write _

theorem visitTypedefDecl_steps (body : TypedefBody) (name : Ident) :
    Post (visitTypedefDecl body name) s fun _ s' ↦ Steps b s s' := by
  have type_known : Post (typedefType body) s fun type s' ↦ Steps b s s' ∧
      ((∃ text, resolveTypeText s'.typeSystem text = .ok type) ∨
        ∃ structName : Str, s'.typeSystem.structs[structName]? = some type) := by
    cases body with
    | structDecl d =>
      apply (getStructFromCode_steps d).mono
      rintro type s₁ ⟨h₁, htype⟩
      exact ⟨h₁, .inr ⟨_, htype⟩⟩
    | typeSpec t =>
      simp only [typedefType, resolveTypeFromContext, post_askTypes]
      intro type htype
      exact ⟨.refl s, .inl ⟨_, htype⟩⟩
  simp only [visitTypedefDecl, post_bind, post_inFirstPass, post_ite, post_modifyTypes, post_emit]
  apply type_known.mono
  rintro type s₁ ⟨h₁, htype⟩
  exact ⟨fun hs ↦ h₁.tail (.registerTypeDef s₁ _ hs htype), fun _ ↦ h₁.write _⟩

theorem visitStructDecl_steps (d : StructDecl) :
    Post (visitStructDecl d) s fun _ s' ↦ Steps b s s' := by
  simp only [visitStructDecl, post_bind]
  apply (getStructFromCode_steps d).mono
  rintro _ s₁ ⟨h₁, -⟩
  apply (secondPassOnly_steps fun _ ↦ post_emit.mpr ((Steps.refl s₁).write _)).mono
  intro _ s₂ h₂
  exact h₁.trans h₂

/-- A class declaration before its members. -/
theorem classDecl_steps (name : Ident) (parent : Option Ident) (members : List ClassMember) :
    Post (getClassFromCode name parent members) s fun classType s₁ ↦
      Post (announceClass name.text classType) s₁ fun _ s' ↦
        Steps true s s' ∧ (s.firstPass = true → DeclaredAs s' name.text classType) := by
  simp only [announceClass, post_bind, post_inFirstPass, post_ite, post_modify, post_get, post_emit]
  apply (getClassFromCode_spec name parent members).mono
  rintro type _ ⟨fields, ts, rfl, hlink⟩
  constructor
  · intro hs
    rw [if_pos hs] at hlink
    refine ⟨.single (.declareClass s rfl hs hlink), fun _ ↦ ⟨by simp, fun _ ↦ ?_⟩⟩
    rw [(linkClass_spec hlink).lookup, if_pos rfl]
  · intro hs
    rw [if_neg hs] at hlink
    exact ⟨(Steps.single (.relinkClass s rfl (by simpa using hs) hlink)).write _, fun h ↦ absurd h hs⟩

theorem parentConstructorCall_frame (call : Option (Ident × List Expr)) :
    Post (parentConstructorCall gen call) s fun _ s' ↦ ExprFrame s s' := by
  cases call with
  | none => exact post_pure.mpr (.refl s)
  | some call =>
    simp only [parentConstructorCall]
    split
    · simp only [post_bind, post_throw]
    · simp only [post_bind, post_indentLevel, post_pure]
      exact visitArgs_frame _ s

theorem constructorPrologue_steps (className : Str) (classType : Ty) (constructor : Function)
    (call : Option (Ident × List Expr)) :
    Post (constructorPrologue gen className classType constructor call) s
      fun _ s' ↦ Steps b s s' := by
  simp only [constructorPrologue, storeVTable, post_bind, post_emit, post_askTypes]
  apply (parentConstructorCall_frame call).mono
  intro _ s₁ h₁ allVirtuals _
  have h₂ := (((Steps.refl (b := b) s).write _).trans h₁.steps).write
  split
  · exact post_pure.mpr (h₂ _)
  · exact post_emit.mpr ((h₂ _).write _)

/-! ### Statements -/

/-- A statement without statements in it. -/
def isLeaf : Stmt → Bool
  | .varDecl .. | .spawnStmt _ | .returnStmt _ | .exprStmt _ | .structDecl _ | .typedefDecl .. => true
  | _ => false

theorem visitLeaf_steps {stmt : Stmt} (h : isLeaf stmt = true) :
    Post (visitStmt gen stmt) s fun _ s' ↦ Steps b s s' := by
  cases stmt with
  | varDecl d init => simpa only [visitStmt] using visitVarDecl_steps d init
  | spawnStmt => simpa only [visitStmt, post_pure] using .refl s
  | returnStmt e => simpa only [visitStmt] using visitReturnStmt_steps e
  | exprStmt e => simpa only [visitStmt] using visitExprStmt_steps e
  | structDecl d => simpa only [visitStmt] using visitStructDecl_steps d
  | typedefDecl body name => simpa only [visitStmt] using visitTypedefDecl_steps body name
  | _ => cases h

/-- The statements inside of a statement that a pass visits, those of classes left out. -/
def innerStmts (firstPass : Bool) : Stmt → List Stmt
  | .block body => body
  | .functionDecl _ _ _ body => if firstPass then [] else body
  | .ifStmt _ body none | .whileStmt _ body => if firstPass then [] else [body]
  | .ifStmt _ thenBranch (some elseBranch) => if firstPass then [] else [thenBranch, elseBranch]
  | .forStmt _ _ _ body => if firstPass then [body] else []
  | _ => []

/-- The state in which a pass has recorded the header of a method. -/
def recordHeader (e : MethodEntry) (s : VState) : VState :=
  if s.firstPass then
    { s with
      typeSystem := s.typeSystem.registerClassMethod e.className e.method
      registered := s.registered ++ [e] }
  else { s with defined := s.defined ++ [e.method] }

/-- What a pass does over statements, `W`, and over members of a class, `V`: they are made of plain
changes, the declarations of classes and the headers of methods. -/
structure WalkRules (W : List Stmt → VState → VState → Prop)
    (V : Str → Ty → List ClassMember → VState → VState → Prop) : Prop where
  before : ∀ {stmts s s₁ s'}, Steps false s s₁ → W stmts s₁ s' → W stmts s s'
  after : ∀ {stmts s s₁ s'}, W stmts s s₁ → Steps false s₁ s' → W stmts s s'
  nil : ∀ s, W [] s s
  cons : ∀ {stmt stmts s s₁ s'}, W [stmt] s s₁ → W stmts s₁ s' → W (stmt :: stmts) s s'
  inner : ∀ {stmt s s'}, (∀ name parent members, stmt ≠ .classDecl name parent members) →
    W (innerStmts s.firstPass stmt) s s' → W [stmt] s s'
  declare : ∀ {name parent members t s s₁ s₂ s'},
    (getClassFromCode name parent members).run s = .ok (t, s₁) →
    (announceClass name.text t).run s₁ = .ok ((), s₂) → V name.text t members s₂ s' →
    W [.classDecl name parent members] s s'
  noMember : ∀ C t s, V C t [] s s
  members : ∀ {C t m ms s s₁ s'}, V C t [m] s s₁ → V C t ms s₁ s' → V C t (m :: ms) s s'
  field : ∀ C t d s, V C t [.field d] s s
  constructor : ∀ {C t name params call body s s'}, W body s s' →
    V C t [.constructor name params call body] s s'
  /-- The body of a virtual method is left out of the first pass. -/
  method : ∀ {C t virtualKeyword result name params body s s'} {returnType : Ty}
    {isVirtual : Bool} {ps : List (Str × Ty)},
    resolveTypeText s.typeSystem result.getText = .ok returnType →
    methodIsVirtual s.typeSystem t name.text
      (ClassMember.method virtualKeyword result name params body).getText = .ok isVirtual →
    (declaratorTypes params).run s = .ok (ps, s) →
    W (if s.firstPass && isVirtual then [] else body) (recordHeader ⟨C, name.text,
      occursIn "virtual" (ClassMember.method virtualKeyword result name params body).getText,
      { name := C ++ "_" ++ name.text, params := ("this", t.setPointer) :: ps, returnType, isVirtual },
      s.typeSystem⟩ s) s' →
    V C t [.method virtualKeyword result name params body] s s'

section

variable {W : List Stmt → VState → VState → Prop}
  {V : Str → Ty → List ClassMember → VState → VState → Prop}

/-- A statement whose inner statements a pass leaves out. -/
theorem WalkRules.skip (h : WalkRules W V) {stmt : Stmt}
    (hclass : ∀ name parent members, stmt ≠ .classDecl name parent members)
    (hinner : innerStmts s.firstPass stmt = []) (hsteps : Steps false s s') : W [stmt] s s' :=
  h.after (h.inner hclass (by rw [hinner]; exact h.nil s)) hsteps

private theorem WalkRules.inBlock (h : WalkRules W V) {stmts : List Stmt}
    (hbody : ∀ s, Post (visitStmts gen stmts) s fun _ s' ↦ W stmts s s') (s : VState) :
    Post (inBlock gen (visitStmts gen stmts)) s fun _ s' ↦ W stmts s s' := by
  apply inBlock_around
  intro s₁ h₁
  apply (hbody s₁).mono
  intro _ s₂ h₂ s' h'
  exact h.before h₁ (h.after h₂ h')

mutual

/-- The visit of a statement is made by the rules. -/
theorem visitStmt_walk (h : WalkRules W V) : ∀ (stmt : Stmt) (s : VState),
    Post (visitStmt gen stmt) s fun _ s' ↦ W [stmt] s s'
  | .functionDecl result name params body, s => by
    simp only [visitStmt, post_bind, post_setCurrentFunc]
    apply (declaratorTypes_frame params).mono
    rintro params _ ⟨rfl, -⟩
    apply (resolveTypeFromContext_frame result).mono
    rintro returnType s rfl
    apply (firstPassOnly_steps (b := false) fun hs ↦
      post_modifyTypes.mpr (.single (.registerFunction _ _ hs))).mono
    intro _ s₁ h₁
    have h₃ := h₁.symbols { s₁.symbolTable with
      currentFunc := some { name := name.text, params, returnType } }
    refine post_secondPassOnly.mpr ⟨fun hs₁ ↦ ?_, fun hs₁ ↦ ?_⟩
    · have hs := h₁.firstPass_eq.symm.trans hs₁
      exact h.skip nofun (by simp only [innerStmts, hs, if_true]) (h₃.symbols _)
    · simp only [post_bind, post_emit]
      apply (h.inBlock (visitStmts_walk h body) _).mono
      intro _ s₂ h₂
      have hs := h₁.firstPass_eq.symm.trans hs₁
      refine h.after (h.inner nofun ?_) ((Steps.refl s₂).symbols _)
      simp only [innerStmts, hs, Bool.false_eq_true, if_false]
      exact h.before (h₃.write _) h₂
  | .varDecl .., s | .spawnStmt _, s | .returnStmt _, s | .exprStmt _, s | .structDecl _, s
  | .typedefDecl .., s => by
    apply (visitLeaf_steps rfl).mono
    intro _ s' h'
    exact h.skip nofun rfl h'
  | .block body, s => by
    simp only [visitStmt]
    apply (h.inBlock (visitStmts_walk h body) s).mono
    intro _ s' h'
    exact h.inner nofun h'
  | .classDecl name parent members, s => by
    simp only [visitStmt, post_bind]
    apply Post.run_eq.mono
    intro classType s₁ h₁
    apply Post.run_eq.mono
    intro _ s₂ h₂
    apply (visitMembers_walk h name.text classType members s₂).mono
    intro _ s₃ h₃
    exact h.declare h₁ h₂ h₃
  | .ifStmt cond body none, s | .whileStmt cond body, s => by
    simp only [visitStmt]
    refine post_secondPassOnly.mpr ⟨fun hs ↦ ?_, fun hs ↦ ?_⟩
    · exact h.skip nofun (by simp only [innerStmts, hs, if_true]) (.refl s)
    simp only [post_bind, post_indentLevel, post_emit]
    apply (visitCondition_steps (b := false) _ cond _).mono
    intro _ s₁ h₁
    apply (visitStmt_walk h body s₁).mono
    intro _ s₂ h₂
    refine h.after (h.inner nofun ?_) ((Steps.refl s₂).write _)
    simp only [innerStmts, hs, Bool.false_eq_true, if_false]
    exact h.before h₁ h₂
  | .ifStmt cond thenBranch (some elseBranch), s => by
    simp only [visitStmt]
    refine post_secondPassOnly.mpr ⟨fun hs ↦ ?_, fun hs ↦ ?_⟩
    · exact h.skip nofun (by simp only [innerStmts, hs, if_true]) (.refl s)
    simp only [post_bind, post_indentLevel, post_emit]
    apply (visitCondition_steps (b := false) _ cond _).mono
    intro _ s₁ h₁
    apply (visitStmt_walk h thenBranch s₁).mono
    intro _ s₂ h₂
    apply (visitStmt_walk h elseBranch _).mono
    intro _ s₃ h₃
    refine h.after (h.inner nofun ?_) ((Steps.refl s₃).write _)
    simp only [innerStmts, hs, Bool.false_eq_true, if_false]
    exact h.cons (h.before h₁ h₂) (h.before (((Steps.refl s₂).write _).write _) h₃)
  | .forStmt init cond step body, s => by
    simp only [visitStmt]
    refine post_firstPassOnly.mpr ⟨fun hs ↦ ?_, fun hs ↦ ?_⟩
    · simp only [post_bind, post_indentLevel, post_emit]
      apply (visitForHead_steps (b := false) init cond step).mono
      intro _ s₁ h₁
      apply (visitStmt_walk h body _).mono
      intro _ s₂ h₂
      refine h.after (h.inner nofun ?_) ((Steps.refl s₂).write _)
      simp only [innerStmts, hs, if_true]
      exact h.before (h₁.write _) h₂
    · exact h.skip nofun (by simp only [innerStmts, hs, Bool.false_eq_true, if_false]) (.refl s)

theorem visitStmts_walk (h : WalkRules W V) : ∀ (stmts : List Stmt) (s : VState),
    Post (visitStmts gen stmts) s fun _ s' ↦ W stmts s s'
  | [], s => by
    simp only [visitStmts, post_pure]
    exact h.nil s
  | stmt :: stmts, s => by
    simp only [visitStmts, post_bind]
    apply (visitStmt_walk h stmt s).mono
    intro _ s₁ h₁
    apply (visitStmts_walk h stmts s₁).mono
    intro _ s₂ h₂
    exact h.cons h₁ h₂

theorem visitMember_walk (h : WalkRules W V) (className : Str) (classType : Ty) :
    ∀ (m : ClassMember) (s : VState),
      Post (visitMember gen className classType m) s fun _ s' ↦ V className classType [m] s s'
  | .field d, s => by
    simp only [visitMember, post_pure]
    exact h.field className classType d s
  | .constructor _ params parentCall body, s => by
    simp only [visitMember, post_bind, post_setCurrentFunc]
    apply (memberParams_frame classType params).mono
    rintro params s ⟨rfl, -⟩
    apply (firstPassOnly_steps (b := false) fun hs ↦
      post_modifyTypes.mpr (.single (.registerConstructor _ _ _ hs))).mono
    intro _ s₁ h₁
    apply (secondPassOnly_steps fun _ ↦ constructorPrologue_steps (b := false) _ _ _ _).mono
    intro _ s₂ h₂
    apply (h.inBlock (visitStmts_walk h body) s₂).mono
    intro _ s₃ h₃
    apply (secondPassOnly_steps fun _ ↦ post_emit.mpr ((Steps.refl (b := false) s₃).write _)).mono
    intro _ s₄ h₄
    exact h.constructor (h.after (h.before ((h₁.symbols _).trans h₂) h₃) (h₄.symbols _))
  | .method virtualKeyword result name params body, s => by
    simp only [visitMember, resolveTypeFromContext, memberParams, post_bind, post_askTypes,
      post_setCurrentFunc, post_pure]
    intro returnType hresult isVirtual hvirtual
    apply (Post.run_eq.and (declaratorTypes_frame params)).mono
    rintro ps s ⟨hparams, rfl, -⟩
    have hmethod := @WalkRules.method W V h className classType virtualKeyword result name params
      body s
    -- Either pass records the header before it comes to the body.
    have visit_body : ∀ s₁, s₁.firstPass = s.firstPass → Steps false (recordHeader ⟨className,
        name.text, occursIn "virtual" (ClassMember.method virtualKeyword result name params body).getText,
        { name := className ++ "_" ++ name.text, params := ("this", classType.setPointer) :: ps,
          returnType, isVirtual }, s.typeSystem⟩ s) s₁ →
      Post (methodBody className isVirtual (inBlock gen (visitStmts gen body))) s₁ fun _ s' ↦
        V className classType [.method virtualKeyword result name params body] s
          { s' with symbolTable := { s'.symbolTable with currentFunc := none } } := by
      intro s₁ hs₁ h₁
      cases isVirtual with
      | false =>
        apply (h.inBlock (visitStmts_walk h body) s₁).mono
        intro _ s₂ h₂
        refine hmethod hresult hvirtual hparams ?_
        rw [Bool.and_false, if_neg Bool.false_ne_true]
        exact h.after (h.before h₁ h₂) ((Steps.refl s₂).symbols _)
      | true =>
        refine post_secondPassOnly.mpr ⟨fun hs ↦ ?_, fun hs ↦ ?_⟩
        · refine hmethod hresult hvirtual hparams ?_
          rw [Bool.and_true, if_pos (hs₁.symm.trans hs)]
          exact h.after (h.nil _) (h₁.symbols _)
        · simp only [post_bind, post_emit]
          apply (h.inBlock (visitStmts_walk h body) _).mono
          intro _ s₂ h₂
          refine hmethod hresult hvirtual hparams ?_
          rw [Bool.and_true, if_neg (by rw [← hs₁, hs]; exact Bool.false_ne_true)]
          exact h.after (h.before (h₁.write _) h₂) (((Steps.refl s₂).write _).symbols _)
    cases hpass : s.firstPass with
    | true =>
      refine firstPassOnly_of_first hpass (post_modify.mpr (secondPassOnly_of_first hpass ?_))
      refine visit_body _ rfl ?_
      rw [recordHeader, if_pos hpass]
      exact (Steps.refl _).symbols _
    | false =>
      refine firstPassOnly_of_second hpass (secondPassOnly_of_second hpass ?_)
      simp only [defineMethod, post_bind, post_emit, post_modify]
      refine visit_body _ rfl ?_
      rw [recordHeader, if_neg (by simp [hpass])]
      exact ((Steps.refl _).symbols _).write _

theorem visitMembers_walk (h : WalkRules W V) (className : Str) (classType : Ty) :
    ∀ (ms : List ClassMember) (s : VState),
      Post (visitMembers gen className classType ms) s fun _ s' ↦ V className classType ms s s'
  | [], s => by
    simp only [visitMembers, post_pure]
    exact h.noMember className classType s
  | m :: ms, s => by
    simp only [visitMembers, post_bind]
    apply (visitMember_walk h className classType m s).mono
    intro _ s₁ h₁
    apply (visitMembers_walk h className classType ms s₁).mono
    intro _ s₂ h₂
    exact h.members h₁ h₂

end

theorem visitTopLevel_walk (h : WalkRules W V) (stmts : List Stmt) :
    Post (visitTopLevel gen stmts) s fun _ s' ↦ W stmts s s' := by
  induction stmts generalizing s with
  | nil =>
    simp only [visitTopLevel, post_pure]
    exact h.nil s
  | cons stmt stmts ih =>
    simp only [visitTopLevel, post_bind, post_emit]
    apply (visitStmt_walk h stmt s).mono
    intro _ s₁ h₁
    apply ih.mono
    intro _ s₂ h₂
    exact h.cons (h.after h₁ ((Steps.refl s₁).write _)) h₂

end

/-- A pass makes steps. In the first pass the class of the members is declared with the type they
are visited with. -/
theorem steps_walk : WalkRules (fun _ s s' ↦ Steps true s s')
    (fun C t _ s s' ↦ (s.firstPass = true → DeclaredAs s C t) → Steps true s s') where
  before h h' := h.of_plain.trans h'
  after h h' := h.trans h'.of_plain
  nil := .refl
  cons h h' := h.trans h'
  inner _ h := h
  declare h₁ h₂ h₃ := by
    obtain ⟨h, hc⟩ := ((classDecl_steps _ _ _).of_run _ _ h₁).of_run _ _ h₂
    exact h.trans (h₃ fun hs ↦ hc (h.firstPass_eq.symm.trans hs))
  noMember _ _ s _ := .refl s
  members h₁ h₂ hc := by
    have h := h₁ hc
    refine h.trans (h₂ fun hs ↦ ?_)
    have hs₁ := h.firstPass_eq.symm.trans hs
    exact h.declaredAs hs₁ (hc hs₁)
  field _ _ _ s _ := .refl s
  constructor h _ := h
  method _ hvirtual _ h hc := by
    refine Steps.trans (.single ?_) h
    unfold recordHeader
    split
    next hs => exact .registerMethod _ rfl hs (hc hs) rfl rfl hvirtual
    next hs => exact .defineMethod _ rfl _ (by simpa using hs)

/-- The visit of a statement makes steps. -/
theorem visitStmt_steps (stmt : Stmt) (s : VState) :
    Post (visitStmt gen stmt) s fun _ s' ↦ Steps true s s' :=
  visitStmt_walk steps_walk stmt s

theorem visitStmts_steps (stmts : List Stmt) (s : VState) :
    Post (visitStmts gen stmts) s fun _ s' ↦ Steps true s s' :=
  visitStmts_walk steps_walk stmts s

theorem visitMember_steps (className : Str) (classType : Ty) (m : ClassMember) (s : VState)
    (hc : s.firstPass = true → DeclaredAs s className classType) :
    Post (visitMember gen className classType m) s fun _ s' ↦ Steps true s s' :=
  (visitMember_walk steps_walk className classType m s).mono fun _ _ h ↦ h hc

/-! ### Passes -/

theorem visitTopLevel_steps (stmts : List Stmt) :
    Post (visitTopLevel gen stmts) s fun _ s' ↦ Steps true s s' :=
  visitTopLevel_walk steps_walk stmts

/-- Directives write and register definitions. -/
theorem visitDirectives_frame (ds : List Directive) :
    Post (visitDirectives ds) s fun _ s' ↦ ∃ text defines, s' = { s with
      output := s.output ++ text, typeSystem := { s.typeSystem with defines := defines } } := by
  induction ds generalizing s with
  | nil => exact post_pure.mpr ⟨[], s.typeSystem.defines, by simp⟩
  | cons d ds ih =>
    simp only [visitDirectives, post_bind, post_emit]
    cases d with
    | «include» file =>
      simp only [visitPreprocessorDirective, post_emit]
      apply ih.mono
      rintro _ _ ⟨text, defines, rfl⟩
      exact ⟨_, defines, by simp only [List.append_assoc]; rfl⟩
    | define name value =>
      simp only [visitPreprocessorDirective, post_bind, post_modifyTypes, post_emit]
      apply ih.mono
      rintro _ _ ⟨text, defines, rfl⟩
      exact ⟨_, defines, by simp only [List.append_assoc]; rfl⟩

/-- The first pass makes steps from a state in which nothing is declared. -/
theorem firstPassProgram_steps (p : Program) :
    Post (firstPassProgram gen p) {} fun _ s ↦ ∃ output defines,
      Steps true { output, typeSystem := { defines }, firstPass := true } s := by
  simp only [firstPassProgram, post_bind, post_emit, post_modify]
  apply (visitDirectives_frame p.directives).mono
  rintro _ _ ⟨text, defines, rfl⟩
  apply (visitTopLevel_steps p.statements).mono
  intro _ s h
  exact ⟨_, defines, h⟩

/-- The members of the visitor after the first pass, where it returns. -/
def afterFirstPass (gen : CCodeGenerator) (p : Program) : VState :=
  match (firstPassProgram gen p).run {} with
  | .ok (_, s) => s
  | .error _ => {}

theorem run_firstPassProgram {p : Program} (h : ((firstPassProgram gen p).run {}).isOk = true) :
    (firstPassProgram gen p).run {} = .ok ((), afterFirstPass gen p) := by
  unfold afterFirstPass
  split
  next heq => exact heq
  next heq =>
    rw [heq] at h
    cases h

/-- Between the passes only the output changes. -/
theorem emitVTables_frame :
    Post emitVTables s fun _ s' ↦ ∃ text, s' = { s with output := s.output ++ text } := by
  simp only [emitVTables, post_bind, post_askTypes, post_emit, post_get]
  intro vtableStruct _ prototypes _ instances _
  exact ⟨_, by simp only [List.append_assoc]; rfl⟩

/-- A translation is the first pass, the vtables and the second pass. -/
theorem translate_eq_ok {p : Program} (h : translate gen p = .ok s) :
    (firstPassProgram gen p).run {} = .ok ((), afterFirstPass gen p) ∧
      ∃ s₁, emitVTables.run (afterFirstPass gen p) = .ok ((), s₁) ∧
        (secondPassProgram gen p).run s₁ = .ok ((), s) := by
  have hrun : (visitProgram gen p).run {} = .ok ((), s) := by
    unfold translate at h
    cases hp : (visitProgram gen p).run {} with
    | error e =>
      rw [hp] at h
      cases h
    | ok r =>
      rw [hp] at h
      cases h
      rfl
  obtain ⟨⟨⟩, s₁, h₁, h⟩ := run_bind_eq_ok.mp hrun
  obtain ⟨⟨⟩, s₂, h₂, h₃⟩ := run_bind_eq_ok.mp h
  have hs₁ : (firstPassProgram gen p).run {} = .ok ((), afterFirstPass gen p) :=
    run_firstPassProgram (by rw [h₁]; rfl)
  obtain rfl : s₁ = afterFirstPass gen p := by
    rw [h₁] at hs₁
    cases hs₁
    rfl
  exact ⟨h₁, s₂, h₂, h₃⟩

theorem translate_of_isOk (gen : CCodeGenerator) (p : Program) (h : (translate gen p).isOk = true) :
    ∃ s, translate gen p = .ok s := by
  cases hs : translate gen p with
  | error e =>
    rw [hs] at h
    cases h
  | ok s => exact ⟨s, rfl⟩

end JBLang.Ast
