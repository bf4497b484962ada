import JBLang.Ast.Steps

/-!
# What the statements of a program contribute

Every statement is to be written once, in the second pass, inside the translation of the body it
stands in. `Contributes` says so along the visits of the second pass: by kind of statement, what
is written between the states before and after its visit.
-/

namespace JBLang.Ast

open JBLang.Base JBLang.Types JBLang.Codegen

namespace VState

/-- The state with a text written. -/
def wrote (s : VState) (text : Str) : VState := { s with output := s.output ++ text }

/-- The state in a function. -/
def inFunction (s : VState) (f : Function) : VState :=
  { s with symbolTable := { s.symbolTable with currentFunc := some f } }

/-- The state at the beginning of a block. -/
def inScope (s : VState) : VState :=
  { s with symbolTable := s.symbolTable.enterScope, output := s.output ++ generateScopeEntry }

/-- The indentation of what is written. -/
def indent (s : VState) : Str := s.symbolTable.getIndentLevel

end VState

/-! ### Contributions in the second pass -/

section Definitions

variable (gen : CCodeGenerator)

/-- A condition is written between a text and the beginning of a branch. -/
def Guard (before : Str) (cond : Expr) (s s' : VState) : Prop :=
  ∃ code s₁, (visitExpr gen cond).run { s with
      addRefCounts := false, output := s.output ++ before } = .ok (code, s₁) ∧
    s' = { s₁ with output := s₁.output ++ (code ++ ") \x7b\n"), addRefCounts := true }

/-- A block is written: between its braces what its statements write, by `statements`, and the
releases of its variables. -/
def BodyContributes (statements : VState → VState → Prop) (s s' : VState) : Prop :=
  ∃ s₁, statements s.inScope s₁ ∧
    s'.output = s₁.output ++
      releaseSymbols gen s.inScope.indent s₁.symbolTable.getCurrentScopeSymbols ++
      (s.inScope.indent ++ generateScopeExit)

/-- The constructor of a class, as it is registered. -/
def constructorFunction (className : Str) (params : List (Str × Ty)) : Function :=
  { name := className ++ "_" ++ className, params }

/-- A method of a class, as it is registered. -/
def methodFunction (className name : Str) (params : List (Str × Ty)) (returnType : Ty)
    (isVirtual : Bool) : Function :=
  { name := className ++ "_" ++ name, params, returnType, isVirtual }

mutual

/-- The visit of a statement in the second pass, from `s` to `s'`, writes the statement's own C
code, with that of the statements in it. Statements that start a thread are left aside. -/
def Contributes : Stmt → VState → VState → Prop
  | .functionDecl result name params body, s, s' => ∃ params' returnType s₁,
    (declaratorTypes params).run s = .ok (params', s) ∧
    (resolveTypeFromContext result).run s = .ok (returnType, s) ∧
    BodyContributes gen (InOrder body) ((s.inFunction { name := name.text, params := params', returnType }).wrote
      (generateFunctionDecl { name := name.text, params := params', returnType })) s₁ ∧
    s'.output = s₁.output
  | .varDecl d none, s, s' => ∃ name type, (declaratorType d).run s = .ok ((name, type), s) ∧
    s'.output = s.output ++ (s.indent ++ generateVarDecl name type "")
  | .varDecl d (some e), s, s' => ∃ name type code s₁ code' counting,
    (declaratorType d).run s = .ok ((name, type), s) ∧
    (visitExpr gen e).run s = .ok (code, s₁) ∧
    (castTo code (s₁.symbolTable.lookupSymbol code) type).run s₁ = .ok (code', s₁) ∧
    s'.output = s₁.output ++ counting ++ (s.indent ++ generateVarDecl name type (" = " ++ code'))
  | .spawnStmt _, _, _ => True
  | .returnStmt e, s, s' => ∃ code s₁ counting,
    (visitPresent gen e).run { s with addRefCounts := false } = .ok (code, s₁) ∧
    s'.output = s₁.output ++ counting ++ (s₁.indent ++ generateReturn code)
  | .exprStmt e, s, s' => ∃ code s₁, (visitExpr gen e).run s = .ok (code, s₁) ∧
    s'.output = s₁.output ++ (s₁.indent ++ code ++ ";\n")
  | .block body, s, s' => BodyContributes gen (InOrder body) s s'
  | .structDecl d, s, s' => ∃ type s₁, (getStructFromCode d).run s = .ok (type, s₁) ∧
    s'.output = s₁.output ++ generateStructDecl type.structName type
  | .classDecl name parent members, s, s' => ∃ classType s₁,
    (getClassFromCode name parent members).run s = .ok (classType, s₁) ∧
    MembersContribute name.text classType members
      (s₁.wrote (classStruct s₁.typeSystem name.text classType)) s'
  | .ifStmt cond thenBranch none, s, s' => ∃ s₁ s₂, Guard gen (s.indent ++ "if (") cond s s₁ ∧
    (visitStmt gen thenBranch).run s₁ = .ok ((), s₂) ∧ Contributes thenBranch s₁ s₂ ∧
    s'.output = s₂.output ++ "\x7d\n"
  | .ifStmt cond thenBranch (some elseBranch), s, s' => ∃ s₁ s₂ s₃,
    Guard gen (s.indent ++ "if (") cond s s₁ ∧
    (visitStmt gen thenBranch).run s₁ = .ok ((), s₂) ∧ Contributes thenBranch s₁ s₂ ∧
    (visitStmt gen elseBranch).run ((s₂.wrote "\x7d\n").wrote (s₂.indent ++ "else \x7b\n")) =
      .ok ((), s₃) ∧
    Contributes elseBranch ((s₂.wrote "\x7d\n").wrote (s₂.indent ++ "else \x7b\n")) s₃ ∧
    s'.output = s₃.output ++ "\x7d\n"
  | .whileStmt cond body, s, s' => ∃ s₁ s₂, Guard gen (s.indent ++ "while (") cond s s₁ ∧
    (visitStmt gen body).run s₁ = .ok ((), s₂) ∧ Contributes body s₁ s₂ ∧
    s'.output = s₂.output ++ "\x7d\n"
  | .forStmt init cond step body, s, s' => ∃ s₁ s₂,
    (visitForHead gen init cond step).run s = .ok ((), s₁) ∧
    (visitStmt gen body).run (s₁.wrote "\x7b\n") = .ok ((), s₂) ∧
    Contributes body (s₁.wrote "\x7b\n") s₂ ∧ s'.output = s₂.output ++ (s.indent ++ "\x7d\n")
  | .typedefDecl body name, s, s' => ∃ type s₁, (typedefType body).run s = .ok (type, s₁) ∧
    s'.output = s₁.output ++ generateTypeDef name.text type

/-- The statements of a list contribute one after the other. -/
def InOrder : List Stmt → VState → VState → Prop
  | [], s, s' => s' = s
  | stmt :: stmts, s, s' => ∃ s₁, (visitStmt gen stmt).run s = .ok ((), s₁) ∧
    Contributes stmt s s₁ ∧ InOrder stmts s₁ s'

/-- The bodies of constructors and methods contribute behind their headers. -/
def MemberContributes (className : Str) (classType : Ty) : ClassMember → VState → VState → Prop
  | .field _, _, _ => True
  | .constructor _ params parentCall body, s, s' => ∃ params' s₁ s₂,
    (memberParams classType params).run s = .ok (params', s) ∧
    (constructorPrologue gen className classType (constructorFunction className params')
      parentCall).run (s.inFunction (constructorFunction className params')) = .ok ((), s₁) ∧
    BodyContributes gen (InOrder body) s₁ s₂ ∧ s'.output = s₂.output ++ "\x7d\n\n"
  | .method virtualKeyword result name params body, s, s' => ∃ returnType isVirtual params' s₁ s₂,
    (resolveTypeFromContext result).run s = .ok (returnType, s) ∧
    methodIsVirtual s.typeSystem classType name.text
      (ClassMember.method virtualKeyword result name params body).getText = .ok isVirtual ∧
    (memberParams classType params).run s = .ok (params', s) ∧
    (defineMethod (methodFunction className name.text params' returnType isVirtual)).run
      (s.inFunction (methodFunction className name.text params' returnType isVirtual)) =
        .ok ((), s₁) ∧
    if isVirtual then
      BodyContributes gen (InOrder body) (s₁.wrote (" \x7b\n    struct " ++ className ++
        "* this = (struct " ++ className ++ "*)this_param;\n")) s₂ ∧
      s'.output = s₂.output ++ "\x7d\n\n"
    else BodyContributes gen (InOrder body) s₁ s₂ ∧ s'.output = s₂.output

/-- The members of a class contribute one after the other. -/
def MembersContribute (className : Str) (classType : Ty) :
    List ClassMember → VState → VState → Prop
  | [], s, s' => s' = s
  | m :: ms, s, s' => ∃ s₁, (visitMember gen className classType m).run s = .ok ((), s₁) ∧
    MemberContributes className classType m s s₁ ∧ MembersContribute className classType ms s₁ s'

end

end Definitions

/-! ### Programs without `for` -/

mutual

/-- A `for` statement stands somewhere in the statement. -/
def hasFor : Stmt → Bool
  | .forStmt .. => true
  | .functionDecl _ _ _ body => anyFor body
  | .block body => anyFor body
  | .classDecl _ _ members => membersHaveFor members
  | .ifStmt _ thenBranch none => hasFor thenBranch
  | .ifStmt _ thenBranch (some elseBranch) => hasFor thenBranch || hasFor elseBranch
  | .whileStmt _ body => hasFor body
  | .varDecl .. | .spawnStmt .. | .returnStmt .. | .exprStmt .. | .structDecl ..
  | .typedefDecl .. => false

/-- A `for` statement stands somewhere in the statements. -/
def anyFor : List Stmt → Bool
  | [] => false
  | stmt :: stmts => hasFor stmt || anyFor stmts

/-- A `for` statement stands in the body of a constructor or method. -/
def memberHasFor : ClassMember → Bool
  | .field _ => false
  | .constructor _ _ _ body => anyFor body
  | .method _ _ _ _ body => anyFor body

/-- A `for` statement stands in the body of one of the members. -/
def membersHaveFor : List ClassMember → Bool
  | [] => false
  | m :: ms => memberHasFor m || membersHaveFor ms

end

variable {gen : CCodeGenerator} {s s' s'' : VState}

/-! ### The first pass -/

/-- In the first pass nothing was written. -/
def Silent (s s' : VState) : Prop := s'.firstPass = true ∧ s'.output = s.output

theorem Silent.trans (h : Silent s s') (h' : Silent s' s'') : Silent s s'' :=
  ⟨h'.1, h'.2.trans h.2⟩

private theorem ExprFrame.silent (h : ExprFrame s s') (hs : s.firstPass = true) : Silent s s' := by
  rw [h.2 hs]
  exact ⟨hs, rfl⟩

variable {statements : VisitM Unit} {init : ForInit} {body : Stmt}

private theorem inBlock_silent (hs : s.firstPass = true)
    (h : ∀ s₁, s₁.firstPass = true → Post statements s₁ fun _ s' ↦ Silent s₁ s') :
    Post (inBlock gen statements) s fun _ s' ↦ Silent s s' := by
  simp only [inBlock, post_bind, post_modifySymbols, post_indentLevel]
  refine secondPassOnly_of_first hs (Post.mono (h _ hs) fun _ s₁ h₁ ↦ ?_)
  refine secondPassOnly_of_first h₁.1 (secondPassOnly_of_first h₁.1 ?_)
  exact h₁

private theorem visitVarDecl_silent (hs : s.firstPass = true) (d : Declarator)
    (init : Option Expr) : Post (visitVarDecl gen d init) s fun _ s' ↦ Silent s s' := by
  simp only [visitVarDecl, post_bind (m := indentLevel), post_indentLevel,
    post_bind (m := declaratorType _)]
  apply (declaratorType_frame d).mono
  rintro ⟨varName, varType⟩ s rfl
  simp only [rememberGlobal, post_bind, post_get]
  split
  · rw [post_modifySymbols]
    exact secondPassOnly_of_first hs (post_addSymbol.mpr fun _ _ ↦ ⟨hs, rfl⟩)
  · rw [post_pure]
    exact secondPassOnly_of_first hs (post_addSymbol.mpr fun _ _ ↦ ⟨hs, rfl⟩)

private theorem getStructFromCode_silent (hs : s.firstPass = true) (d : StructDecl) :
    Post (getStructFromCode d) s fun _ s' ↦ Silent s s' := by
  simp only [getStructFromCode, post_bind, post_updateTypes]
  refine firstPassOnly_of_first hs (post_modifyTypes.mpr ?_)
  apply (declaratorTypes_frame d.members).mono
  rintro _ _ ⟨rfl, -⟩ _ _ _
  exact ⟨hs, rfl⟩

mutual

/-- Without `for` the first pass writes nothing. -/
theorem visitStmt_silent : ∀ (stmt : Stmt) (s : VState), hasFor stmt = false →
    s.firstPass = true → Post (visitStmt gen stmt) s fun _ s' ↦ Silent s s'
  | .functionDecl result name params body, s, _, hs => by
    simp only [visitStmt, post_bind, post_setCurrentFunc]
    apply (declaratorTypes_frame params).mono
    rintro params s ⟨rfl, -⟩
    apply (resolveTypeFromContext_frame result).mono
    rintro returnType s rfl
    refine firstPassOnly_of_first hs (post_modifyTypes.mpr (secondPassOnly_of_first hs ?_))
    exact ⟨hs, rfl⟩
  | .varDecl d init, s, _, hs => by
    simp only [visitStmt]
    exact visitVarDecl_silent hs d init
  | .spawnStmt _, s, _, hs => by
    simp only [visitStmt, post_pure]
    exact ⟨hs, rfl⟩
  | .returnStmt none, s, _, hs => by
    simp only [visitStmt, visitReturnStmt, visitPresent, post_bind, post_setAddRefCounts, post_throw]
  | .returnStmt (some e), s, _, hs => by
    simp only [visitStmt, visitReturnStmt, visitPresent, post_bind, post_setAddRefCounts]
    apply (visitExpr_frame e _).mono
    intro _ s₁ h₁
    have hs₁ := h₁.silent hs
    exact secondPassOnly_of_first hs₁.1 hs₁
  | .exprStmt e, s, _, hs => by
    simp only [visitStmt, visitExprStmt, post_bind]
    apply (visitExpr_frame e s).mono
    intro _ s₁ h₁
    have hs₁ := h₁.silent hs
    exact secondPassOnly_of_first hs₁.1 hs₁
  | .block body, s, hfor, hs => by
    simp only [hasFor] at hfor
    simp only [visitStmt]
    exact inBlock_silent hs fun s₁ hs₁ ↦ visitStmts_silent body s₁ hfor hs₁
  | .structDecl d, s, _, hs => by
    simp only [visitStmt, visitStructDecl, post_bind]
    apply (getStructFromCode_silent hs d).mono
    intro _ s₁ h₁
    exact secondPassOnly_of_first h₁.1 h₁
  | .classDecl name parent members, s, hfor, hs => by
    simp only [hasFor] at hfor
    simp only [visitStmt, announceClass, post_bind, post_inFirstPass]
    apply (getClassFromCode_spec name parent members).mono
    rintro classType _ ⟨fields, ts, rfl, -⟩
    rw [if_pos hs, post_modify]
    exact visitMembers_silent name.text classType members _ hfor hs
  | .ifStmt _ _ none, s, _, hs | .ifStmt _ _ (some _), s, _, hs | .whileStmt .., s, _, hs => by
    simp only [visitStmt]
    exact secondPassOnly_of_first hs ⟨hs, rfl⟩
  | .forStmt .., s, hfor, _ => by
    simp only [hasFor, Bool.true_eq_false] at hfor
  | .typedefDecl body name, s, _, hs => by
    simp only [visitStmt, visitTypedefDecl, post_bind, post_inFirstPass]
    refine Post.mono (Q := fun _ s' ↦ Silent s s') ?_ ?_
    · cases body with
      | structDecl d => exact getStructFromCode_silent hs d
      | typeSpec t =>
        apply (resolveTypeFromContext_frame t).mono
        rintro _ _ rfl
        exact ⟨hs, rfl⟩
    · intro type s₁ h₁
      rw [if_pos h₁.1, post_modifyTypes]
      exact h₁

theorem visitStmts_silent : ∀ (stmts : List Stmt) (s : VState), anyFor stmts = false →
    s.firstPass = true → Post (visitStmts gen stmts) s fun _ s' ↦ Silent s s'
  | [], s, _, hs => by
    simp only [visitStmts, post_pure]
    exact ⟨hs, rfl⟩
  | stmt :: stmts, s, hfor, hs => by
    simp only [anyFor, Bool.or_eq_false_iff] at hfor
    simp only [visitStmts, post_bind]
    apply (visitStmt_silent stmt s hfor.1 hs).mono
    intro _ s₁ h₁
    apply (visitStmts_silent stmts s₁ hfor.2 h₁.1).mono
    intro _ s₂ h₂
    exact h₁.trans h₂

theorem visitMember_silent (className : Str) (classType : Ty) : ∀ (m : ClassMember) (s : VState),
    memberHasFor m = false → s.firstPass = true →
      Post (visitMember gen className classType m) s fun _ s' ↦ Silent s s'
  | .field _, s, _, hs => by
    simp only [visitMember, post_pure]
    exact ⟨hs, rfl⟩
  | .constructor _ params parentCall body, s, hfor, hs => by
    simp only [memberHasFor] at hfor
    simp only [visitMember, post_bind, post_setCurrentFunc]
    apply (memberParams_frame classType params).mono
    rintro params s ⟨rfl, -⟩
    refine firstPassOnly_of_first hs (post_modifyTypes.mpr (secondPassOnly_of_first hs ?_))
    refine Post.mono (inBlock_silent hs fun s₁ hs₁ ↦ visitStmts_silent body s₁ hfor hs₁) ?_
    intro _ s₁ h₁
    exact secondPassOnly_of_first h₁.1 h₁
  | .method virtualKeyword result name params body, s, hfor, hs => by
    simp only [memberHasFor] at hfor
    simp only [visitMember, post_bind, post_askTypes, post_setCurrentFunc]
    apply (resolveTypeFromContext_frame result).mono
    rintro returnType s rfl isVirtual _
    apply (memberParams_frame classType params).mono
    rintro params' s ⟨rfl, -⟩
    refine firstPassOnly_of_first hs (post_modify.mpr (secondPassOnly_of_first hs ?_))
    refine Post.mono (Q := fun _ s' ↦ Silent s s') ?_ fun _ _ h ↦ h
    cases isVirtual with
    | true => exact secondPassOnly_of_first hs ⟨hs, rfl⟩
    | false => exact inBlock_silent hs fun s₁ hs₁ ↦ visitStmts_silent body s₁ hfor hs₁

theorem visitMembers_silent (className : Str) (classType : Ty) : ∀ (ms : List ClassMember)
    (s : VState), membersHaveFor ms = false → s.firstPass = true →
      Post (visitMembers gen className classType ms) s fun _ s' ↦ Silent s s'
  | [], s, _, hs => by
    simp only [visitMembers, post_pure]
    exact ⟨hs, rfl⟩
  | m :: ms, s, hfor, hs => by
    simp only [membersHaveFor, Bool.or_eq_false_iff] at hfor
    simp only [visitMembers, post_bind]
    apply (visitMember_silent className classType m s hfor.1 hs).mono
    intro _ s₁ h₁
    apply (visitMembers_silent className classType ms s₁ hfor.2 h₁.1).mono
    intro _ s₂ h₂
    exact h₁.trans h₂

end

/-! ### The second pass -/

private theorem inBlock_contributes {P : VState → VState → Prop} (hs : s.firstPass = false)
    (h : Post statements s.inScope fun _ s₁ ↦ P s.inScope s₁ ∧ s₁.firstPass = false) :
    Post (inBlock gen statements) s fun _ s' ↦ BodyContributes gen P s s' := by
  simp only [inBlock, post_bind, post_modifySymbols, post_indentLevel]
  refine secondPassOnly_of_second hs (post_emit.mpr (Post.mono h ?_))
  rintro _ s₁ ⟨h₁, hs₁⟩
  refine secondPassOnly_of_second hs₁ ?_
  simp only [releaseScope, post_bind, post_get, post_emit]
  exact secondPassOnly_of_second hs₁ (post_emit.mpr ⟨s₁, h₁, rfl⟩)

private theorem visitCondition_guard (before : Str) (cond : Expr) :
    Post (visitCondition gen before cond ") \x7b\n") s fun _ s' ↦
      Guard gen before cond s s' ∧ s'.firstPass = s.firstPass := by
  simp only [visitCondition, post_bind, post_setAddRefCounts, post_emit]
  refine Post.mono (Post.run_eq.and (visitExpr_frame cond _)) ?_
  rintro code s₁ ⟨hrun, h₁⟩
  exact ⟨⟨code, s₁, hrun, rfl⟩, h₁.firstPass_eq⟩

private theorem visitVarDecl_contributes (hs : s.firstPass = false) (d : Declarator)
    (init : Option Expr) :
    Post (visitVarDecl gen d init) s fun _ s' ↦ Contributes gen (.varDecl d init) s s' := by
  simp only [visitVarDecl, rememberGlobal, post_bind, post_indentLevel, post_get]
  refine Post.mono (Post.run_eq.and (declaratorType_frame d)) ?_
  rintro ⟨name, type⟩ s ⟨hd, rfl⟩
  rw [if_neg (by simp [hs]), post_pure]
  refine secondPassOnly_of_second hs ?_
  cases init with
  | none =>
    simp only [declareVar, post_emit, post_addSymbol, Contributes]
    exact fun _ _ ↦ ⟨name, type, hd, rfl⟩
  | some e =>
    simp only [declareVar, post_bind, post_lookupSymbol, post_emit, post_addSymbol, Contributes]
    apply (Post.run_eq.and (visitExpr_frame e s)).mono
    rintro code s₁ ⟨he, h₁⟩
    apply (Post.run_eq.and (castTo_frame _ _ _)).mono
    rintro code' s₁ ⟨hcast, rfl⟩
    apply (emitIncRef_frame (h₁.firstPass_eq.trans hs) _ _ _).mono
    rintro _ _ ⟨⟨counting, _, rfl⟩, -⟩
    exact fun _ _ ↦ ⟨name, type, code, s₁, code', counting, hd, he, hcast, rfl⟩

private theorem visitReturnStmt_contributes (hs : s.firstPass = false) (e : Option Expr) :
    Post (visitReturnStmt gen e) s fun _ s' ↦ Contributes gen (.returnStmt e) s s' := by
  simp only [visitReturnStmt, post_bind, post_setAddRefCounts, Contributes]
  cases e with
  | none => exact post_throw.mpr trivial
  | some e =>
    refine Post.mono (Post.run_eq.and (visitExpr_frame e _)) ?_
    rintro code s₁ ⟨he, h₁⟩
    refine secondPassOnly_of_second (h₁.firstPass_eq.trans hs) ?_
    simp only [emitReturn, releaseScope, post_bind, post_indentLevel, post_lookupSymbol, post_get,
      post_emit]
    refine Post.mono (emitIncRef_frame ?_ _ _ _) ?_
    · exact h₁.firstPass_eq.trans hs
    · rintro _ _ ⟨⟨counting, _, rfl⟩, -⟩
      exact ⟨code, s₁, _, he, by rw [List.append_assoc s₁.output]; rfl⟩

mutual

/-- Without `for` every statement contributes in the second pass. -/
theorem visitStmt_contributes : ∀ (stmt : Stmt) (s : VState), hasFor stmt = false →
    s.firstPass = false → Post (visitStmt gen stmt) s fun _ s' ↦ Contributes gen stmt s s'
  | .functionDecl result name params body, s, hfor, hs => by
    simp only [hasFor] at hfor
    simp only [visitStmt, post_bind, post_setCurrentFunc, Contributes]
    refine Post.mono (Post.run_eq.and (declaratorTypes_frame params)) ?_
    rintro params' s ⟨hparams, rfl, -⟩
    refine Post.mono (Post.run_eq.and (resolveTypeFromContext_frame result)) ?_
    rintro returnType s ⟨hresult, rfl⟩
    refine firstPassOnly_of_second hs (secondPassOnly_of_second hs ?_)
    simp only [post_bind, post_emit]
    refine Post.mono (inBlock_contributes hs (visitStmts_contributes body _ hfor hs)) ?_
    intro _ s₁ h₁
    exact ⟨params', returnType, s₁, hparams, hresult, h₁, rfl⟩
  | .varDecl d init, s, _, hs => by
    simp only [visitStmt]
    exact visitVarDecl_contributes hs d init
  | .spawnStmt _, s, _, _ => by
    simp only [visitStmt, post_pure, Contributes]
  | .returnStmt e, s, _, hs => by
    simp only [visitStmt]
    exact visitReturnStmt_contributes hs e
  | .exprStmt e, s, _, hs => by
    simp only [visitStmt, visitExprStmt, post_bind, Contributes]
    refine Post.mono (Post.run_eq.and (visitExpr_frame e s)) ?_
    rintro code s₁ ⟨he, h₁⟩
    refine secondPassOnly_of_second (h₁.firstPass_eq.trans hs) ?_
    simp only [post_bind, post_indentLevel, post_emit]
    exact ⟨code, s₁, he, rfl⟩
  | .block body, s, hfor, hs => by
    simp only [hasFor] at hfor
    simp only [visitStmt, Contributes]
    exact inBlock_contributes hs (visitStmts_contributes body _ hfor hs)
  | .structDecl d, s, _, hs => by
    simp only [visitStmt, visitStructDecl, post_bind, Contributes]
    refine Post.mono (Post.run_eq.and (getStructFromCode_steps (b := false) d)) ?_
    rintro type s₁ ⟨hd, h₁, -⟩
    exact secondPassOnly_of_second (h₁.firstPass_eq.trans hs) (post_emit.mpr ⟨type, s₁, hd, rfl⟩)
  | .classDecl name parent members, s, hfor, hs => by
    simp only [hasFor] at hfor
    simp only [visitStmt, announceClass, post_bind, post_inFirstPass, Contributes]
    refine Post.mono (Post.run_eq.and (getClassFromCode_spec name parent members)) ?_
    rintro classType s₁ ⟨hclass, fields, ts, rfl, -⟩
    rw [if_neg (by simp [hs])]
    simp only [post_bind, post_get, post_emit]
    refine Post.mono (visitMembers_contribute name.text classType members _ hfor hs) ?_
    intro _ s₂ h₂
    exact ⟨classType, _, hclass, h₂.1⟩
  | .ifStmt cond body none, s, hfor, hs | .whileStmt cond body, s, hfor, hs => by
    simp only [hasFor] at hfor
    simp only [visitStmt, Contributes]
    refine secondPassOnly_of_second hs ?_
    simp only [post_bind, post_indentLevel, post_emit]
    apply (visitCondition_guard _ cond).mono
    rintro _ s₁ ⟨h₁, hs₁⟩
    apply (Post.run_eq.and (visitStmt_contributes body s₁ hfor (hs₁.trans hs))).mono
    rintro _ s₂ ⟨hrun, h₂⟩
    exact ⟨s₁, s₂, h₁, hrun, h₂, rfl⟩
  | .ifStmt cond thenBranch (some elseBranch), s, hfor, hs => by
    simp only [hasFor, Bool.or_eq_false_iff] at hfor
    simp only [visitStmt, Contributes]
    refine secondPassOnly_of_second hs ?_
    simp only [post_bind, post_indentLevel, post_emit]
    apply (visitCondition_guard _ cond).mono
    rintro _ s₁ ⟨h₁, hs₁⟩
    apply (Post.run_eq.and ((visitStmt_steps thenBranch s₁).and
      (visitStmt_contributes thenBranch s₁ hfor.1 (hs₁.trans hs)))).mono
    rintro _ s₂ ⟨hrun, hsteps, h₂⟩
    refine Post.mono (Post.run_eq.and (visitStmt_contributes elseBranch _ hfor.2 ?_)) ?_
    · exact hsteps.firstPass_eq.trans (hs₁.trans hs)
    · rintro _ s₃ ⟨hrun', h₃⟩
      exact ⟨s₁, s₂, s₃, h₁, hrun, h₂, hrun', h₃, rfl⟩
  | .forStmt .., s, hfor, _ => by
    simp only [hasFor, Bool.true_eq_false] at hfor
  | .typedefDecl body name, s, _, hs => by
    simp only [visitStmt, visitTypedefDecl, post_bind, post_inFirstPass, Contributes]
    refine Post.mono (Post.run_eq.and (R := fun _ s' ↦ s'.firstPass = false) ?_) ?_
    · cases body with
      | structDecl d =>
        apply (getStructFromCode_steps (b := false) d).mono
        rintro _ _ ⟨h₁, -⟩
        exact h₁.firstPass_eq.trans hs
      | typeSpec t =>
        apply (resolveTypeFromContext_frame t).mono
        rintro _ _ rfl
        exact hs
    · rintro type s₁ ⟨htype, hs₁⟩
      rw [if_neg (by simp [hs₁]), post_emit]
      exact ⟨type, s₁, htype, rfl⟩

theorem visitStmts_contributes : ∀ (stmts : List Stmt) (s : VState), anyFor stmts = false →
    s.firstPass = false →
      Post (visitStmts gen stmts) s fun _ s' ↦ InOrder gen stmts s s' ∧ s'.firstPass = false
  | [], s, _, hs => by
    simp only [visitStmts, post_pure, InOrder]
    exact ⟨trivial, hs⟩
  | stmt :: stmts, s, hfor, hs => by
    simp only [anyFor, Bool.or_eq_false_iff] at hfor
    simp only [visitStmts, post_bind, InOrder]
    apply (Post.run_eq.and ((visitStmt_steps stmt s).and
      (visitStmt_contributes stmt s hfor.1 hs))).mono
    rintro _ s₁ ⟨hrun, hsteps, h₁⟩
    apply (visitStmts_contributes stmts s₁ hfor.2 (hsteps.firstPass_eq.trans hs)).mono
    rintro _ s₂ ⟨h₂, hs₂⟩
    exact ⟨⟨s₁, hrun, h₁, h₂⟩, hs₂⟩

theorem visitMember_contributes (className : Str) (classType : Ty) : ∀ (m : ClassMember)
    (s : VState), memberHasFor m = false → s.firstPass = false →
      Post (visitMember gen className classType m) s fun _ s' ↦
        MemberContributes gen className classType m s s'
  | .field _, s, _, _ => by
    simp only [visitMember, post_pure, MemberContributes]
  | .constructor _ params parentCall body, s, hfor, hs => by
    simp only [memberHasFor] at hfor
    simp only [visitMember, post_bind, post_setCurrentFunc, MemberContributes]
    refine Post.mono (Post.run_eq.and (memberParams_frame classType params)) ?_
    rintro params' s ⟨hparams, rfl, -⟩
    refine firstPassOnly_of_second hs (secondPassOnly_of_second hs ?_)
    refine Post.mono (Post.run_eq.and (constructorPrologue_steps (b := false) _ _ _ _)) ?_
    rintro _ s₁ ⟨hrun, h₁⟩
    have hs₁ := h₁.firstPass_eq.trans hs
    apply ((inBlock_contributes hs₁ (visitStmts_contributes body _ hfor hs₁)).and
      (inBlock_steps (b := true) fun s₂ _ ↦ visitStmts_steps body s₂)).mono
    rintro _ s₂ ⟨h₂, hsteps⟩
    refine secondPassOnly_of_second (hsteps.firstPass_eq.trans hs₁) (post_emit.mpr ?_)
    exact ⟨params', s₁, s₂, hparams, hrun, h₂, rfl⟩
  | .method virtualKeyword result name params body, s, hfor, hs => by
    simp only [memberHasFor] at hfor
    simp only [visitMember, post_bind, post_askTypes, post_setCurrentFunc, MemberContributes]
    refine Post.mono (Post.run_eq.and (resolveTypeFromContext_frame result)) ?_
    rintro returnType s ⟨hresult, rfl⟩ isVirtual hvirtual
    refine Post.mono (Post.run_eq.and (memberParams_frame classType params)) ?_
    rintro params' s ⟨hparams, rfl, -⟩
    refine firstPassOnly_of_second hs (secondPassOnly_of_second hs ?_)
    refine Post.mono (Post.run_eq.and (R := fun _ s' ↦ s'.firstPass = false) ?_) ?_
    · simp only [defineMethod, post_bind, post_emit, post_modify]
      exact hs
    rintro _ s₁ ⟨hdefine, hs₁⟩
    cases isVirtual with
    | true =>
      refine secondPassOnly_of_second hs₁ ?_
      simp only [post_bind, post_emit]
      refine Post.mono (inBlock_contributes hs₁ (visitStmts_contributes body _ hfor hs₁)) ?_
      intro _ s₂ h₂
      exact ⟨returnType, true, params', s₁, s₂, hresult, hvirtual, hparams, hdefine, h₂, rfl⟩
    | false =>
      refine Post.mono (inBlock_contributes hs₁ (visitStmts_contributes body _ hfor hs₁)) ?_
      intro _ s₂ h₂
      exact ⟨returnType, false, params', s₁, s₂, hresult, hvirtual, hparams, hdefine, h₂, rfl⟩

theorem visitMembers_contribute (className : Str) (classType : Ty) : ∀ (ms : List ClassMember)
    (s : VState), membersHaveFor ms = false → s.firstPass = false →
      Post (visitMembers gen className classType ms) s fun _ s' ↦
        MembersContribute gen className classType ms s s' ∧ s'.firstPass = false
  | [], s, _, hs => by
    simp only [visitMembers, post_pure, MembersContribute]
    exact ⟨trivial, hs⟩
  | m :: ms, s, hfor, hs => by
    simp only [membersHaveFor, Bool.or_eq_false_iff] at hfor
    simp only [visitMembers, post_bind, MembersContribute]
    apply (Post.run_eq.and ((visitMember_steps className classType m s
      fun h ↦ by simp [hs] at h).and
        (visitMember_contributes className classType m s hfor.1 hs))).mono
    rintro _ s₁ ⟨hrun, hsteps, h₁⟩
    apply (visitMembers_contribute className classType ms s₁ hfor.2
      (hsteps.firstPass_eq.trans hs)).mono
    rintro _ s₂ ⟨h₂, hs₂⟩
    exact ⟨⟨s₁, hrun, h₁, h₂⟩, hs₂⟩

end

/-! ### A lost statement -/

private theorem Guard.firstPass_eq {before : Str} {cond : Expr} (h : Guard gen before cond s s') :
    s'.firstPass = s.firstPass := by
  obtain ⟨code, s₁, hrun, rfl⟩ := h
  exact ((visitExpr_frame cond _).of_run _ _ hrun).firstPass_eq

private theorem visitStmt_firstPass {stmt : Stmt} (h : (visitStmt gen stmt).run s = .ok ((), s'))
    (hs : s.firstPass = false) : s'.firstPass = false :=
  ((visitStmt_steps stmt s).of_run _ _ h).firstPass_eq.trans hs

/-- In the second pass a `for` statement writes nothing. -/
private theorem visitForStmt_second {cond step : Option Expr} (hs : s.firstPass = false) :
    Post (visitStmt gen (.forStmt init cond step body)) s fun _ s' ↦ s' = s := by
  simp only [visitStmt]
  exact firstPassOnly_of_second hs rfl

/-- A `for` statement would write at least its closing brace. -/
private theorem not_contributes_for {cond step : Option Expr} :
    ¬ Contributes gen (.forStmt init cond step body) s s := by
  simp only [Contributes]
  rintro ⟨s₁, s₂, hhead, hbody, -, hout⟩
  have h₁ := ((visitForHead_steps (b := true) init cond step).of_run _ _ hhead).output_grows.length_le
  have h₂ := ((visitStmt_steps body _).of_run _ _ hbody).output_grows.length_le
  have hlen := congrArg List.length hout
  simp only [VState.wrote, List.length_append] at h₂ hlen
  have hbrace : ("\x7d\n".toList).length = 2 := by decide +kernel
  omega

mutual

/-- A statement that contributes has no `for` in it. -/
theorem hasFor_of_contributes : ∀ (stmt : Stmt) {s s' : VState},
    (visitStmt gen stmt).run s = .ok ((), s') → Contributes gen stmt s s' → s.firstPass = false →
      hasFor stmt = false
  | .functionDecl result name params body, s, s', _, h, hs => by
    simp only [Contributes] at h
    obtain ⟨params', returnType, s₁, -, -, ⟨s₂, h₂, -⟩, -⟩ := h
    simp only [hasFor]
    exact anyFor_of_inOrder body h₂ hs
  | .block body, s, s', _, h, hs => by
    simp only [Contributes] at h
    obtain ⟨s₁, h₁, -⟩ := h
    simp only [hasFor]
    exact anyFor_of_inOrder body h₁ hs
  | .classDecl name parent members, s, s', _, h, hs => by
    simp only [Contributes] at h
    obtain ⟨classType, s₁, hclass, hmembers⟩ := h
    obtain ⟨fields, ts, rfl, -⟩ := (getClassFromCode_spec name parent members).of_run _ _ hclass
    simp only [hasFor]
    exact membersHaveFor_of_contribute members hmembers hs
  | .ifStmt cond body none, s, s', _, h, hs | .whileStmt cond body, s, s', _, h, hs => by
    simp only [Contributes] at h
    obtain ⟨s₁, s₂, hguard, hrun, h₁, -⟩ := h
    simp only [hasFor]
    exact hasFor_of_contributes body hrun h₁ (hguard.firstPass_eq.trans hs)
  | .ifStmt cond thenBranch (some elseBranch), s, s', _, h, hs => by
    simp only [Contributes] at h
    obtain ⟨s₁, s₂, s₃, hguard, hrun, h₁, hrun', h₂, -⟩ := h
    have hs₁ := hguard.firstPass_eq.trans hs
    have hs₂ : s₂.firstPass = false := visitStmt_firstPass hrun hs₁
    simp only [hasFor, Bool.or_eq_false_iff]
    exact ⟨hasFor_of_contributes thenBranch hrun h₁ hs₁,
      hasFor_of_contributes elseBranch hrun' h₂ hs₂⟩
  | .forStmt init cond step body, s, s', hrun, h, hs => by
    rw [(visitForStmt_second hs).of_run _ _ hrun] at h
    exact absurd h not_contributes_for
  | .varDecl .., _, _, _, _, _ | .spawnStmt _, _, _, _, _, _ | .returnStmt _, _, _, _, _, _
  | .exprStmt _, _, _, _, _, _ | .structDecl _, _, _, _, _, _ | .typedefDecl .., _, _, _, _, _ => by
    simp only [hasFor]

theorem anyFor_of_inOrder : ∀ (stmts : List Stmt) {s s' : VState}, InOrder gen stmts s s' →
    s.firstPass = false → anyFor stmts = false
  | [], _, _, _, _ => by
    simp only [anyFor]
  | stmt :: stmts, s, s', h, hs => by
    simp only [InOrder] at h
    obtain ⟨s₁, hrun, h₁, h₂⟩ := h
    simp only [anyFor, Bool.or_eq_false_iff]
    exact ⟨hasFor_of_contributes stmt hrun h₁ hs,
      anyFor_of_inOrder stmts h₂ (visitStmt_firstPass hrun hs)⟩

theorem memberHasFor_of_contributes {className : Str} {classType : Ty} : ∀ (m : ClassMember)
    {s s' : VState}, MemberContributes gen className classType m s s' → s.firstPass = false →
      memberHasFor m = false
  | .field _, _, _, _, _ => by
    simp only [memberHasFor]
  | .constructor _ params parentCall body, s, s', h, hs => by
    simp only [MemberContributes] at h
    obtain ⟨params', s₁, s₂, -, hrun, ⟨s₃, h₃, -⟩, -⟩ := h
    have hs₁ := ((constructorPrologue_steps (b := true) _ _ _ _).of_run _ _ hrun).firstPass_eq
    simp only [memberHasFor]
    exact anyFor_of_inOrder body h₃ (hs₁.trans hs)
  | .method virtualKeyword result name params body, s, s', h, hs => by
    simp only [MemberContributes] at h
    obtain ⟨returnType, isVirtual, params', s₁, s₂, -, -, -, hdefine, h⟩ := h
    have hs₁ : s₁.firstPass = false := by
      cases hdefine
      exact hs
    simp only [memberHasFor]
    cases isVirtual with
    | true =>
      obtain ⟨⟨s₃, h₃, -⟩, -⟩ := h
      exact anyFor_of_inOrder body h₃ hs₁
    | false =>
      obtain ⟨⟨s₃, h₃, -⟩, -⟩ := h
      exact anyFor_of_inOrder body h₃ hs₁

theorem membersHaveFor_of_contribute {className : Str} {classType : Ty} : ∀ (ms : List ClassMember)
    {s s' : VState}, MembersContribute gen className classType ms s s' → s.firstPass = false →
      membersHaveFor ms = false
  | [], _, _, _, _ => by
    simp only [membersHaveFor]
  | m :: ms, s, s', h, hs => by
    simp only [MembersContribute] at h
    obtain ⟨s₁, hrun, h₁, h₂⟩ := h
    have hs₁ := ((visitMember_steps className classType m s fun h ↦ by simp [hs] at h).of_run _ _
      hrun).firstPass_eq
    simp only [membersHaveFor, Bool.or_eq_false_iff]
    exact ⟨memberHasFor_of_contributes m h₁ hs,
      membersHaveFor_of_contribute ms h₂ (hs₁.trans hs)⟩

end

/-! ### Programs -/

/-- What `visitProgram` does before the first pass over the statements. -/
def openFirstPass (p : Program) : VisitM Unit := do
  emit "#include \"runtime.h\"\n"
  visitDirectives p.directives
  modify fun s ↦ { s with firstPass := true }

/-- The first pass over the statements of a program, from where it starts. -/
theorem firstPassProgram_run {p : Program}
    (h : (firstPassProgram gen p).run {} = .ok ((), s)) :
    ∃ s₀, (openFirstPass p).run {} = .ok ((), s₀) ∧ s₀.firstPass = true ∧
      (visitTopLevel gen p.statements).run s₀ = .ok ((), s) := by
  have hsplit : firstPassProgram gen p =
      openFirstPass p >>= fun _ ↦ visitTopLevel gen p.statements := by
    simp only [firstPassProgram, openFirstPass, bind_assoc]
  rw [hsplit] at h
  obtain ⟨⟨⟩, s₀, h₀, h₁⟩ := run_bind_eq_ok.mp h
  have hpass : Post (openFirstPass p) {} fun _ s ↦ s.firstPass = true := by
    simp only [openFirstPass, post_bind, post_emit, post_modify]
    exact Post.mono Post.run_eq fun _ _ _ ↦ trivial
  exact ⟨s₀, h₀, hpass.of_run _ _ h₀, h₁⟩

private def nameI : Ident := ⟨"i".toList, by decide +kernel⟩

private def three : IntegerToken := ⟨"3".toList, isInteger_3⟩

private def counts : Expr := .compare (.ident nameI) .lt (.primaryLiteral (.integer three))

end JBLang.Ast
