import JBLang.Ast.Quiet
import JBLang.Ast.Steps
import Mathlib.Data.List.Forall2

/-!
# Balanced scopes

The visit of a statement returns to the scope it started in. That scope has gained the symbols of
the declarations that stand in the statement outside its blocks, and the scopes below it are as
they were.
-/

namespace JBLang.Ast

open JBLang.Base JBLang.Types JBLang.Codegen

variable {gen : CCodeGenerator} {α β : Type} {s s' s'' : VState}

/-! ### Declarations outside blocks -/

/-- A declaration, and whether it stands in the head of a loop. -/
structure OuterDecl where
  declarator : Declarator
  inLoopHead : Bool

/-- The symbol of a declaration. -/
structure DeclaredVar where
  name : Str
  type : Ty
  inLoopHead : Bool

/-- The symbol has the name and, at some point of the run, the type of the declaration. -/
structure Declares (d : OuterDecl) (v : DeclaredVar) : Prop where
  inLoopHead : v.inLoopHead = d.inLoopHead
  resolved : ∃ s, (declaratorType d.declarator).run s = .ok ((v.name, v.type), s)

/-- The declaration in the head of a loop. -/
def headDecls : ForInit → List OuterDecl
  | .varDecl d _ => [⟨d, true⟩]
  | .exprStmt _ | .none => []

/-- The declarations of a statement outside its blocks that a pass visits: bodies of `if` and
`while` are visited in the second pass, loops with `for` in the first one. -/
def outerDecls (firstPass : Bool) : Stmt → List OuterDecl
  | .varDecl d _ => [⟨d, false⟩]
  | .ifStmt _ thenBranch none => if firstPass then [] else outerDecls firstPass thenBranch
  | .ifStmt _ thenBranch (some elseBranch) =>
    if firstPass then [] else outerDecls firstPass thenBranch ++ outerDecls firstPass elseBranch
  | .whileStmt _ body => if firstPass then [] else outerDecls firstPass body
  | .forStmt init _ _ body => if firstPass then headDecls init ++ outerDecls firstPass body else []
  | .functionDecl .. | .spawnStmt _ | .returnStmt _ | .exprStmt _ | .block _ | .structDecl _
  | .classDecl .. | .typedefDecl .. => []

/-- The declarations of the statements of a list outside their blocks. -/
def outerDeclsOf (firstPass : Bool) : List Stmt → List OuterDecl
  | [] => []
  | stmt :: stmts => outerDecls firstPass stmt ++ outerDeclsOf firstPass stmts

/-- `addSymbol` on a scope. -/
def addVar (scope : NameMap Variable) (v : DeclaredVar) : NameMap Variable :=
  scope.insert v.name { name := v.name, type := v.type }

/-- Scopes after the declarations: the innermost one has them. -/
def declareAll (vars : List DeclaredVar) : List (NameMap Variable) → List (NameMap Variable)
  | [] => []
  | scope :: scopes => vars.foldl addVar scope :: scopes

/-- The pointers among declared variables that `visitVarDecl` remembers in the global scope. -/
def remembered (vars : List DeclaredVar) : List (Str × Ty) :=
  (vars.filter fun v ↦ !v.inLoopHead && v.type.isPointer).map fun v ↦ (v.name, v.type)

/-- The scopes have gained the symbols of the declarations and nothing else, and pointers are
remembered as globals in the first pass in the global scope only. -/
structure KeepsScopes (decls : List OuterDecl) (s s' : VState) : Prop where
  firstPass : s'.firstPass = s.firstPass
  declared : ∃ vars, List.Forall₂ Declares decls vars ∧
    s'.symbolTable.scopes = declareAll vars s.symbolTable.scopes ∧
    s'.symbolTable.globalVars = s.symbolTable.globalVars ++
      if s.firstPass && s.symbolTable.isGlobalScope then remembered vars else []

theorem declareAll_length (vars : List DeclaredVar) (scopes : List (NameMap Variable)) :
    (declareAll vars scopes).length = scopes.length := by
  cases scopes <;> rfl

theorem declareAll_append (vars vars' : List DeclaredVar) (scopes : List (NameMap Variable)) :
    declareAll (vars ++ vars') scopes = declareAll vars' (declareAll vars scopes) := by
  cases scopes with
  | nil => rfl
  | cons scope scopes => rw [declareAll, List.foldl_append]; rfl

theorem remembered_append (vars vars' : List DeclaredVar) :
    remembered (vars ++ vars') = remembered vars ++ remembered vars' := by
  rw [remembered, List.filter_append, List.map_append]
  rfl

namespace KeepsScopes

variable {decls decls' : List OuterDecl}

theorem of_table (hpass : s'.firstPass = s.firstPass)
    (hscopes : s'.symbolTable.scopes = s.symbolTable.scopes)
    (hglobals : s'.symbolTable.globalVars = s.symbolTable.globalVars) : KeepsScopes [] s s' := by
  refine ⟨hpass, [], .nil, ?_, ?_⟩
  · rw [hscopes]
    cases s.symbolTable.scopes <;> rfl
  · rw [hglobals]
    split <;> exact (List.append_nil _).symm

theorem of_same (h : SameScopes s s') : KeepsScopes [] s s' :=
  of_table h.firstPass (by rw [h.symbolTable]) (by rw [h.symbolTable])

theorem length_eq (h : KeepsScopes decls s s') :
    s'.symbolTable.scopes.length = s.symbolTable.scopes.length := by
  obtain ⟨vars, -, hscopes, -⟩ := h.declared
  rw [hscopes, declareAll_length]

theorem nonempty (h : KeepsScopes decls s s') (hs : s.symbolTable.scopes ≠ []) :
    s'.symbolTable.scopes ≠ [] := by
  rw [← List.length_pos_iff] at hs ⊢
  rwa [h.length_eq]

theorem isGlobalScope_eq (h : KeepsScopes decls s s') :
    s'.symbolTable.isGlobalScope = s.symbolTable.isGlobalScope := by
  rw [SymbolTable.isGlobalScope, h.length_eq]
  rfl

theorem trans (h : KeepsScopes decls s s') (h' : KeepsScopes decls' s' s'') :
    KeepsScopes (decls ++ decls') s s'' := by
  obtain ⟨vars, hvars, hscopes, hglobals⟩ := h.declared
  obtain ⟨vars', hvars', hscopes', hglobals'⟩ := h'.declared
  refine ⟨h'.firstPass.trans h.firstPass, vars ++ vars', List.rel_append hvars hvars', ?_, ?_⟩
  · rw [hscopes', hscopes, declareAll_append]
  · rw [hglobals', hglobals, h.firstPass, h.isGlobalScope_eq, List.append_assoc]
    split
    · rw [remembered_append]
    · rfl

end KeepsScopes

/-! ### Sequences of visits -/

/-- The visit keeps the scopes but for the declarations, and reports no missing scope. -/
def Visits (m : VisitM α) (decls : List OuterDecl) (s : VState) : Prop :=
  Outcome m s (fun _ s' ↦ KeepsScopes decls s s') (· ≠ missingScope)

variable {m : VisitM α} {f : α → VisitM β} {decls decls' : List OuterDecl}

theorem Quiet.visits (hm : Quiet m) (s : VState) : Visits m [] s :=
  (hm s).mono fun _ _ _ h ↦ .of_same h

theorem Visits.bind (hm : Visits m decls s)
    (hf : ∀ a s₁, KeepsScopes decls s s₁ → Visits (f a) decls' s₁) :
    Visits (m >>= f) (decls ++ decls') s := by
  refine outcome_bind.mpr (hm.mono fun a s₁ _ h₁ ↦ ?_)
  exact (hf a s₁ h₁).mono fun _ s₂ _ h₂ ↦ h₁.trans h₂

theorem Visits.then_quiet (hm : Visits m decls s) (hf : ∀ a, Quiet (f a)) :
    Visits (m >>= f) decls s := by
  have h := hm.bind fun a s₁ _ ↦ (hf a).visits s₁
  rwa [List.append_nil] at h

theorem Quiet.then_visits (hm : Quiet m) (hf : ∀ a s₁, SameScopes s s₁ → Visits (f a) decls s₁) :
    Visits (m >>= f) decls s := by
  refine outcome_bind.mpr ((hm s).mono fun a s₁ _ h₁ ↦ ?_)
  exact (hf a s₁ h₁).mono fun _ s₂ _ h₂ ↦ (KeepsScopes.of_same h₁).trans h₂

theorem visits_setCurrentFunc (func : Option Function) : Visits (setCurrentFunc func) [] s :=
  outcome_modify.mpr (.of_table rfl rfl rfl)

theorem visits_secondPassOnly {m : VisitM Unit} (h : s.firstPass = false → Visits m decls s) :
    Visits (secondPassOnly m) (if s.firstPass then [] else decls) s := by
  refine outcome_bind.mpr ?_
  change Outcome (if s.firstPass = true then pure () else m) s _ _
  cases hs : s.firstPass with
  | true => exact .of_same (.refl s)
  | false => exact h hs

theorem visits_secondPassOnly_nil {m : VisitM Unit} (h : s.firstPass = false → Visits m [] s) :
    Visits (secondPassOnly m) [] s := by
  have hvisit := visits_secondPassOnly h
  rwa [ite_self] at hvisit

theorem visits_firstPassOnly {m : VisitM Unit} (h : s.firstPass = true → Visits m decls s) :
    Visits (firstPassOnly m) (if s.firstPass then decls else []) s := by
  refine outcome_bind.mpr ?_
  change Outcome (if s.firstPass = true then m else pure ()) s _ _
  cases hs : s.firstPass with
  | true => exact h hs
  | false => exact .of_same (.refl s)

/-- Inside a scope that is entered and left again the global scope is out of sight, and what is
declared there is gone afterwards. -/
theorem KeepsScopes.of_inner {s₁ s₂ : VState} (hs : s.symbolTable.scopes ≠ [])
    (h₁ : SameScopes { s with symbolTable := s.symbolTable.enterScope } s₁)
    (h₂ : KeepsScopes decls s₁ s₂) :
    KeepsScopes [] s { s₂ with symbolTable := s₂.symbolTable.exitScope } := by
  obtain ⟨vars, -, hscopes, hglobals⟩ := h₂.declared
  rw [h₁.symbolTable] at hscopes hglobals
  have hinner : s.symbolTable.enterScope.isGlobalScope = false := by
    have hlen := List.length_pos_iff.mpr hs
    simp only [SymbolTable.isGlobalScope, SymbolTable.enterScope, List.length_cons, beq_eq_false_iff_ne]
    omega
  refine .of_table (h₂.firstPass.trans h₁.firstPass) ?_ ?_
  · change s₂.symbolTable.scopes.tail = _
    rw [hscopes]
    rfl
  · rw [hinner, Bool.and_false, if_neg (by simp), List.append_nil] at hglobals
    exact hglobals

/-- A block leaves no symbol behind. -/
theorem visits_inBlock {statements : VisitM Unit} (hs : s.symbolTable.scopes ≠ [])
    (h : ∀ s₁, s₁.symbolTable.scopes ≠ [] → ∃ decls, Visits statements decls s₁) :
    Visits (inBlock gen statements) [] s := by
  unfold inBlock
  simp only [Visits, outcome_bind, modifySymbols, outcome_modify]
  refine (quiet_secondPassOnly (R := SameScopes) (quiet_emit _) _).mono fun _ s₁ _ h₁ ↦ ?_
  refine (quiet_indentLevel (R := SameScopes) s₁).mono fun indent s₂ _ h₂ ↦ ?_
  have h₁₂ := SameScopes.trans _ _ _ h₁ h₂
  have hs₂ : s₂.symbolTable.scopes ≠ [] := by
    rw [h₁₂.symbolTable]
    exact List.cons_ne_nil _ _
  obtain ⟨decls, hdecls⟩ := h s₂ hs₂
  refine hdecls.mono fun _ s₃ _ h₃ ↦ ?_
  have hrelease : Quiet (releaseScope gen indent) := quiet_bind quiet_get fun _ ↦ quiet_emit _
  refine (quiet_secondPassOnly (R := SameScopes) hrelease s₃).mono fun _ s₄ _ h₄ ↦ ?_
  refine (quiet_secondPassOnly (R := SameScopes) (quiet_emit _) _).mono fun _ s₅ _ h₅ ↦ ?_
  have h₃₄ := h₃.trans (.of_same h₄)
  exact (KeepsScopes.of_inner hs h₁₂ h₃₄).trans (.of_same h₅)

/-! ### Declarations -/

theorem visits_declaratorType (d : Declarator) :
    Outcome (declaratorType d) s
      (fun p s' ↦ s' = s ∧ ∀ b, Declares ⟨d, b⟩ ⟨p.1, p.2, b⟩) (· ≠ missingScope) := by
  refine (quiet_declaratorType (R := SameScopes) d s).mono fun p s₁ hrun _ ↦ ?_
  obtain rfl := (declaratorType_frame d).of_run _ _ hrun
  exact ⟨rfl, fun b ↦ ⟨rfl, s₁, hrun⟩⟩

/-- A symbol is added to the innermost scope. -/
theorem visits_addSymbol {name : Str} {type : Ty} (hs : s.symbolTable.scopes ≠ [])
    {Q : Unit → VState → Prop}
    (hQ : ∀ st : SymbolTable, st.globalVars = s.symbolTable.globalVars →
      (∀ b, st.scopes = declareAll [⟨name, type, b⟩] s.symbolTable.scopes) →
      Q () { s with symbolTable := st }) :
    Outcome (addSymbol name type) s Q (· ≠ missingScope) := by
  cases hscopes : s.symbolTable.scopes with
  | nil => exact absurd hscopes hs
  | cons scope scopes =>
    simp only [addSymbol, SymbolTable.addSymbol, hscopes, outcome_bind, outcome_get, outcome_lift,
      outcome_set]
    constructor
    · rintro st ⟨⟩
      exact hQ _ rfl fun _ ↦ by rw [hscopes]; rfl
    · rintro e ⟨⟩

theorem quiet_declareVar (indent varName : Str) (varType : Ty) (init : Option Expr) :
    Quiet (declareVar gen indent varName varType init) := by
  cases init with
  | none => exact quiet_emit _
  | some e =>
    exact quiet_bind (quiet_visitExpr e) fun _ ↦ quiet_bind (quiet_lookupSymbol _) fun _ ↦
      quiet_bind (quiet_castTo _ _ _) fun _ ↦ quiet_bind (quiet_lookupSymbol _) fun _ ↦
        quiet_bind (quiet_emitIncRef _ _ _) fun _ ↦ quiet_emit _

theorem visits_visitVarDecl (d : Declarator) (init : Option Expr)
    (hs : s.symbolTable.scopes ≠ []) : Visits (visitVarDecl gen d init) [⟨d, false⟩] s := by
  simp only [visitVarDecl, Visits, outcome_bind]
  refine (quiet_indentLevel (R := SameScopes) s).mono fun indent _ _ h₁ ↦ ?_
  refine (visits_declaratorType d).mono ?_
  rintro ⟨varName, varType⟩ s₁ - ⟨rfl, hdecl⟩
  -- The global is remembered before the symbol is added, so its scope is the one before.
  have hremember : Outcome (rememberGlobal varName varType) s₁ (fun _ s₂ ↦
      s₂.firstPass = s₁.firstPass ∧ s₂.symbolTable.scopes = s₁.symbolTable.scopes ∧
      s₂.symbolTable.globalVars = s₁.symbolTable.globalVars ++
        if s₁.firstPass && s₁.symbolTable.isGlobalScope then
          remembered [⟨varName, varType, false⟩] else []) (· ≠ missingScope) := by
    simp only [rememberGlobal, outcome_bind, outcome_get]
    cases hf : s₁.firstPass <;> cases hg : s₁.symbolTable.isGlobalScope <;>
      cases hp : varType.isPointer <;>
      simp [remembered, modifySymbols, hp, hf]
  refine hremember.mono ?_
  rintro _ s₂ - ⟨hpass₂, hscopes₂, hglobals₂⟩
  refine (quiet_secondPassOnly (R := SameScopes) (quiet_declareVar _ _ _ _) s₂).mono fun _ s₃ _ h₃ ↦ ?_
  refine visits_addSymbol ?_ fun st hglobals hscopes ↦ ?_
  · rw [h₃.symbolTable, hscopes₂, h₁.symbolTable]
    exact hs
  · refine ⟨h₃.firstPass.trans (hpass₂.trans h₁.firstPass), [⟨varName, varType, false⟩],
      .cons (hdecl false) .nil, ?_, ?_⟩
    · change st.scopes = _
      rw [hscopes false, h₃.symbolTable, hscopes₂, h₁.symbolTable]
    · change st.globalVars = _
      rw [hglobals, h₃.symbolTable, hglobals₂, h₁.symbolTable, h₁.firstPass]

theorem quiet_visitCondition (before : Str) (cond : Expr) (after : Str) :
    Quiet (visitCondition gen before cond after) :=
  quiet_bind (quiet_setAddRefCounts _) fun _ ↦ quiet_bind (quiet_emit _) fun _ ↦
    quiet_bind (quiet_visitExpr cond) fun _ ↦ quiet_bind (quiet_emit _) fun _ ↦
      quiet_setAddRefCounts _

/-- The symbol of a loop's head is never remembered as a global. -/
theorem visits_visitForInit (init : ForInit) (hs : s.symbolTable.scopes ≠ []) :
    Visits (visitForInit gen init) (headDecls init) s := by
  have hadd : ∀ {s₁ : VState} {varName : Str} {varType : Ty} {d : Declarator}, SameScopes s s₁ →
      (∀ b, Declares ⟨d, b⟩ ⟨varName, varType, b⟩) →
      Outcome (addSymbol varName varType) s₁ (fun _ s' ↦ KeepsScopes [⟨d, true⟩] s s')
        (· ≠ missingScope) := by
    intro s₁ varName varType d h₁ hdecl
    refine visits_addSymbol (by rw [h₁.symbolTable]; exact hs) fun st hglobals hscopes ↦ ?_
    refine ⟨h₁.firstPass, [⟨varName, varType, true⟩], .cons (hdecl true) .nil, ?_, ?_⟩
    · change st.scopes = _
      rw [hscopes true, h₁.symbolTable]
    · change st.globalVars = _
      rw [hglobals, h₁.symbolTable]
      split <;> exact (List.append_nil _).symm
  cases init with
  | none => exact Quiet.visits (quiet_pure ()) s
  | exprStmt e =>
    have hquiet : Quiet (visitForInit gen (.exprStmt e)) :=
      quiet_bind (quiet_visitExpr e) fun _ ↦ quiet_emit _
    exact hquiet.visits s
  | varDecl d init =>
    cases init with
    | none =>
      simp only [visitForInit, Visits, outcome_bind]
      refine (visits_declaratorType d).mono ?_
      rintro ⟨varName, varType⟩ _ - ⟨rfl, hdecl⟩
      exact (quiet_emit (R := SameScopes) _ _).mono fun _ s₁ _ h₁ ↦ hadd h₁ hdecl
    | some e =>
      simp only [visitForInit, Visits, outcome_bind]
      refine (visits_declaratorType d).mono ?_
      rintro ⟨varName, varType⟩ _ - ⟨rfl, hdecl⟩
      refine (quiet_emit (R := SameScopes) _ _).mono fun _ s₁ _ h₁ ↦ ?_
      refine (quiet_visitExpr (R := SameScopes) e s₁).mono fun _ s₂ _ h₂ ↦ ?_
      refine (quiet_emit (R := SameScopes) _ _).mono fun _ s₃ _ h₃ ↦ ?_
      exact hadd (.trans _ _ _ (.trans _ _ _ h₁ h₂) h₃) hdecl

theorem visits_visitForHead (init : ForInit) (cond step : Option Expr)
    (hs : s.symbolTable.scopes ≠ []) :
    Visits (visitForHead gen init cond step) (headDecls init) s := by
  have hcond : Quiet (visitForCond gen (cond.or step)) := by
    cases cond.or step with
    | none => exact quiet_pure _
    | some e => exact quiet_visitCondition _ _ _
  have hstep : Quiet (visitForStep gen (cond.bind fun _ ↦ step)) := by
    cases cond.bind fun _ ↦ step with
    | none => exact quiet_pure _
    | some e => exact quiet_bind (quiet_visitExpr e) fun _ ↦ quiet_emit _
  unfold visitForHead
  refine Quiet.then_visits quiet_indentLevel fun indent s₁ h₁ ↦ ?_
  refine Quiet.then_visits (quiet_emit _) fun _ s₂ h₂ ↦ ?_
  refine (visits_visitForInit init ?_).then_quiet fun _ ↦ quiet_bind (quiet_emit _) fun _ ↦
    quiet_bind hcond fun _ ↦ quiet_bind (quiet_emit _) fun _ ↦ quiet_bind hstep fun _ ↦ quiet_emit _
  rw [h₂.symbolTable, h₁.symbolTable]
  exact hs

theorem quiet_visitReturnStmt (e : Option Expr) : Quiet (visitReturnStmt gen e) := by
  have hpresent : Quiet (visitPresent gen e) := by
    cases e with
    | none => exact quiet_throw (by rintro ⟨⟩)
    | some e => exact quiet_visitExpr e
  have hrelease : ∀ indent, Quiet (releaseScope gen indent) := fun _ ↦
    quiet_bind quiet_get fun _ ↦ quiet_emit _
  exact quiet_bind (quiet_setAddRefCounts _) fun _ ↦ quiet_bind hpresent fun _ ↦
    quiet_bind (quiet_setAddRefCounts _) fun _ ↦ quiet_secondPassOnly
      (quiet_bind quiet_indentLevel fun _ ↦ quiet_bind (quiet_lookupSymbol _) fun _ ↦
        quiet_bind (quiet_emitIncRef _ _ _) fun _ ↦ quiet_bind (hrelease _) fun _ ↦ quiet_emit _)

theorem quiet_visitExprStmt (e : Expr) : Quiet (visitExprStmt gen e) :=
  quiet_bind (quiet_visitExpr e) fun _ ↦ quiet_secondPassOnly
    (quiet_bind quiet_indentLevel fun _ ↦ quiet_emit _)

theorem quiet_constructorPrologue (className : Str) (classType : Ty) (constructor : Function)
    (call : Option (Ident × List Expr)) :
    Quiet (constructorPrologue gen className classType constructor call) := by
  have hcall : Quiet (parentConstructorCall gen call) := by
    cases call with
    | none => exact quiet_pure _
    | some call =>
      unfold parentConstructorCall
      simp only
      split
      · exact quiet_throw (by rintro ⟨⟩)
      · exact quiet_bind (quiet_visitArgs _) fun _ ↦ quiet_bind quiet_indentLevel fun _ ↦
          quiet_pure _
  exact quiet_bind (quiet_emit _) fun _ ↦ quiet_bind hcall fun _ ↦
    quiet_bind (quiet_emit _) fun _ ↦ quiet_storeVTable _ _

theorem visits_methodBody {body : VisitM Unit} (className : Str) (isVirtual : Bool)
    (h : ∀ s₁, SameScopes s s₁ → Visits body [] s₁) :
    Visits (methodBody className isVirtual body) [] s := by
  cases isVirtual with
  | false => exact h s (.refl s)
  | true =>
    exact visits_secondPassOnly_nil fun _ ↦ Quiet.then_visits (quiet_emit _) fun _ s₁ h₁ ↦
      (h s₁ h₁).then_quiet fun _ ↦ quiet_emit _

/-! ### Statements -/

mutual

/-- The visit of a statement keeps the scopes but for its declarations outside blocks. -/
theorem visitStmt_scopes : ∀ (stmt : Stmt) (s : VState), s.symbolTable.scopes ≠ [] →
    Visits (visitStmt gen stmt) (outerDecls s.firstPass stmt) s
  | .functionDecl result name params body, s, hs => by
    unfold visitStmt outerDecls
    refine Quiet.then_visits (quiet_declaratorTypes params) fun params s₁ h₁ ↦ ?_
    refine Quiet.then_visits (quiet_resolveTypeFromContext result) fun returnType s₂ h₂ ↦ ?_
    refine Quiet.then_visits (quiet_firstPassOnly (quiet_modifyTypes _)) fun _ s₃ h₃ ↦ ?_
    have hbody : ∀ {s₄ : VState}, s₄.symbolTable.scopes ≠ [] → Visits (secondPassOnly do
        emit (generateFunctionDecl { name := name.text, params, returnType })
        inBlock gen (visitStmts gen body)) [] s₄ := by
      intro s₄ hs₄
      refine visits_secondPassOnly_nil fun _ ↦ Quiet.then_visits (quiet_emit _) fun _ s₅ h₅ ↦ ?_
      exact visits_inBlock (h₅.nonempty hs₄) fun s₆ hs₆ ↦ ⟨_, visitStmts_scopes body s₆ hs₆⟩
    refine (visits_setCurrentFunc _).bind fun _ s₄ h₄ ↦ ?_
    have hs₄ := h₄.nonempty (h₃.nonempty (h₂.nonempty (h₁.nonempty hs)))
    exact (hbody hs₄).bind fun _ s₅ _ ↦ visits_setCurrentFunc none
  | .varDecl d init, s, hs => by
    unfold visitStmt outerDecls
    exact visits_visitVarDecl d init hs
  | .spawnStmt _, s, _ => by
    unfold visitStmt outerDecls
    exact Quiet.visits (quiet_pure ()) s
  | .returnStmt e, s, _ => by
    unfold visitStmt outerDecls
    exact Quiet.visits (quiet_visitReturnStmt e) s
  | .exprStmt e, s, _ => by
    unfold visitStmt outerDecls
    exact Quiet.visits (quiet_visitExprStmt e) s
  | .block body, s, hs => by
    unfold visitStmt outerDecls
    exact visits_inBlock hs fun s₁ hs₁ ↦ ⟨_, visitStmts_scopes body s₁ hs₁⟩
  | .structDecl d, s, _ => by
    unfold visitStmt outerDecls
    exact Quiet.visits (quiet_visitStructDecl d) s
  | .classDecl name parent members, s, hs => by
    unfold visitStmt outerDecls
    refine Quiet.then_visits (quiet_getClassFromCode name parent members) fun classType s₁ h₁ ↦ ?_
    refine Quiet.then_visits (quiet_announceClass name.text classType) fun _ s₂ h₂ ↦ ?_
    exact visitMembers_scopes name.text classType members s₂ (h₂.nonempty (h₁.nonempty hs))
  | .ifStmt cond body none, s, hs | .whileStmt cond body, s, hs => by
    unfold visitStmt outerDecls
    refine visits_secondPassOnly fun _ ↦ ?_
    refine Quiet.then_visits quiet_indentLevel fun _ s₁ h₁ ↦ ?_
    refine Quiet.then_visits (quiet_visitCondition _ cond _) fun _ s₂ h₂ ↦ ?_
    have h₁₂ := SameScopes.trans _ _ _ h₁ h₂
    rw [← h₁₂.firstPass]
    exact (visitStmt_scopes body s₂ (h₁₂.nonempty hs)).then_quiet fun _ ↦ quiet_emit _
  | .ifStmt cond thenBranch (some elseBranch), s, hs => by
    unfold visitStmt outerDecls
    refine visits_secondPassOnly fun _ ↦ ?_
    refine Quiet.then_visits quiet_indentLevel fun _ s₁ h₁ ↦ ?_
    refine Quiet.then_visits (quiet_visitCondition _ cond _) fun _ s₂ h₂ ↦ ?_
    have h₁₂ := SameScopes.trans _ _ _ h₁ h₂
    rw [← h₁₂.firstPass]
    refine (visitStmt_scopes thenBranch s₂ (h₁₂.nonempty hs)).bind fun _ s₃ h₃ ↦ ?_
    refine Quiet.then_visits (quiet_emit _) fun _ s₄ h₄ ↦ ?_
    refine Quiet.then_visits quiet_indentLevel fun _ s₅ h₅ ↦ ?_
    refine Quiet.then_visits (quiet_emit _) fun _ s₆ h₆ ↦ ?_
    have h₄₆ := SameScopes.trans _ _ _ (.trans _ _ _ h₄ h₅) h₆
    rw [← h₃.firstPass, ← h₄₆.firstPass]
    exact (visitStmt_scopes elseBranch s₆ (h₄₆.nonempty (h₃.nonempty (h₁₂.nonempty hs)))).then_quiet
      fun _ ↦ quiet_emit _
  | .forStmt init cond step body, s, hs => by
    unfold visitStmt outerDecls
    refine visits_firstPassOnly fun _ ↦ ?_
    refine Quiet.then_visits quiet_indentLevel fun _ s₁ h₁ ↦ ?_
    refine (visits_visitForHead init cond step (h₁.nonempty hs)).bind fun _ s₂ h₂ ↦ ?_
    refine Quiet.then_visits (quiet_emit _) fun _ s₃ h₃ ↦ ?_
    rw [← h₁.firstPass, ← h₂.firstPass, ← h₃.firstPass]
    exact (visitStmt_scopes body s₃ (h₃.nonempty (h₂.nonempty (h₁.nonempty hs)))).then_quiet
      fun _ ↦ quiet_emit _
  | .typedefDecl body name, s, _ => by
    unfold visitStmt outerDecls
    exact Quiet.visits (quiet_visitTypedefDecl body name) s

theorem visitStmts_scopes : ∀ (stmts : List Stmt) (s : VState), s.symbolTable.scopes ≠ [] →
    Visits (visitStmts gen stmts) (outerDeclsOf s.firstPass stmts) s
  | [], s, _ => by
    unfold visitStmts outerDeclsOf
    exact Quiet.visits (quiet_pure ()) s
  | stmt :: stmts, s, hs => by
    unfold visitStmts outerDeclsOf
    refine (visitStmt_scopes stmt s hs).bind fun _ s₁ h₁ ↦ ?_
    rw [← h₁.firstPass]
    exact visitStmts_scopes stmts s₁ (h₁.nonempty hs)

theorem visitMember_scopes (className : Str) (classType : Ty) : ∀ (m : ClassMember) (s : VState),
    s.symbolTable.scopes ≠ [] → Visits (visitMember gen className classType m) [] s
  | .field _, s, _ => by
    unfold visitMember
    exact Quiet.visits (quiet_pure ()) s
  | .constructor _ params parentCall body, s, hs => by
    unfold visitMember
    refine Quiet.then_visits (quiet_memberParams classType params) fun params s₁ h₁ ↦ ?_
    refine Quiet.then_visits (quiet_firstPassOnly (quiet_modifyTypes _)) fun _ s₂ h₂ ↦ ?_
    refine (visits_setCurrentFunc _).bind fun _ s₃ h₃ ↦ ?_
    refine Quiet.then_visits (quiet_secondPassOnly (quiet_constructorPrologue _ _ _ _))
      fun _ s₄ h₄ ↦ ?_
    have hs₄ := h₄.nonempty (h₃.nonempty (h₂.nonempty (h₁.nonempty hs)))
    refine (visits_inBlock hs₄ fun s₅ hs₅ ↦ ⟨_, visitStmts_scopes body s₅ hs₅⟩).bind
      fun _ s₅ _ ↦ ?_
    exact Quiet.then_visits (quiet_secondPassOnly (quiet_emit _))
      fun _ _ _ ↦ visits_setCurrentFunc none
  | .method virtualKeyword result name params body, s, hs => by
    unfold visitMember
    refine Quiet.then_visits (quiet_resolveTypeFromContext result) fun returnType s₁ h₁ ↦ ?_
    refine Quiet.then_visits (quiet_methodIsVirtual classType name.text _) fun isVirtual s₂ h₂ ↦ ?_
    refine Quiet.then_visits (quiet_memberParams classType params) fun params' s₃ h₃ ↦ ?_
    refine Quiet.then_visits (quiet_firstPassOnly (quiet_registerMethod _ _ _ _)) fun _ s₄ h₄ ↦ ?_
    refine (visits_setCurrentFunc _).bind fun _ s₅ h₅ ↦ ?_
    refine Quiet.then_visits (quiet_secondPassOnly (quiet_defineMethod _)) fun _ s₆ h₆ ↦ ?_
    have hs₆ := h₆.nonempty (h₅.nonempty (h₄.nonempty (h₃.nonempty (h₂.nonempty (h₁.nonempty hs)))))
    refine (visits_methodBody className isVirtual fun s₇ h₇ ↦ ?_).bind
      fun _ _ _ ↦ visits_setCurrentFunc none
    exact visits_inBlock (h₇.nonempty hs₆) fun s₈ hs₈ ↦ ⟨_, visitStmts_scopes body s₈ hs₈⟩

theorem visitMembers_scopes (className : Str) (classType : Ty) : ∀ (ms : List ClassMember)
    (s : VState), s.symbolTable.scopes ≠ [] → Visits (visitMembers gen className classType ms) [] s
  | [], s, _ => by
    unfold visitMembers
    exact Quiet.visits (quiet_pure ()) s
  | m :: ms, s, hs => by
    unfold visitMembers
    refine (visitMember_scopes className classType m s hs).bind fun _ s₁ h₁ ↦ ?_
    exact visitMembers_scopes className classType ms s₁ (h₁.nonempty hs)

end

/-! ### Programs -/

theorem visitTopLevel_scopes (stmts : List Stmt) (hs : s.symbolTable.scopes ≠ []) :
    Visits (visitTopLevel gen stmts) (outerDeclsOf s.firstPass stmts) s := by
  induction stmts generalizing s with
  | nil => exact Quiet.visits (quiet_pure ()) s
  | cons stmt stmts ih =>
    unfold visitTopLevel outerDeclsOf
    refine (visitStmt_scopes stmt s hs).bind fun _ s₁ h₁ ↦ ?_
    refine Quiet.then_visits (quiet_emit _) fun _ s₂ h₂ ↦ ?_
    rw [← h₁.firstPass, ← h₂.firstPass]
    exact ih (h₂.nonempty (h₁.nonempty hs))

/-- Both passes over a program start and end in the global scope. -/
theorem visitProgram_scopes (p : Program) :
    Outcome (visitProgram gen p) {} (fun _ s ↦ s.symbolTable.scopes.length = 1 ∧
      ∃ vars, List.Forall₂ Declares (outerDeclsOf true p.statements) vars ∧
        s.symbolTable.globalVars = remembered vars) (· ≠ missingScope) := by
  simp only [visitProgram, firstPassProgram, secondPassProgram, outcome_bind, outcome_modify]
  refine (quiet_emit (R := SameScopes) _ _).mono fun _ s₁ _ h₁ ↦ ?_
  refine (quiet_visitDirectives p.directives s₁).mono fun _ s₂ _ h₂ ↦ ?_
  have hstart : s₂.symbolTable = {} := h₂.symbolTable.trans h₁.symbolTable
  have hs₂ : s₂.symbolTable.scopes ≠ [] := by
    rw [hstart]
    exact List.cons_ne_nil _ _
  refine (visitTopLevel_scopes (s := { s₂ with firstPass := true }) p.statements hs₂).mono
    fun _ s₃ _ h₃ ↦ ?_
  refine (quiet_emitVTables (R := SameScopes) s₃).mono fun _ s₄ _ h₄ ↦ ?_
  refine (visitTopLevel_scopes (s := { s₄ with firstPass := false }) p.statements
    (h₄.nonempty (h₃.nonempty hs₂))).mono fun _ s₅ _ h₅ ↦ ?_
  refine (quiet_emit (R := SameScopes) _ s₅).mono fun _ s₆ _ h₆ ↦ outcome_get.mpr ?_
  refine (quiet_emit (R := SameScopes) _ s₆).mono fun _ s₇ _ h₇ ↦ ?_
  refine (quiet_emit (R := SameScopes) _ s₇).mono fun _ s₈ _ h₈ ↦ ?_
  have hlast : s₈.symbolTable = s₅.symbolTable :=
    h₈.symbolTable.trans (h₇.symbolTable.trans h₆.symbolTable)
  obtain ⟨vars, hvars, -, hglobals⟩ := h₃.declared
  obtain ⟨_, -, -, hglobals₅⟩ := h₅.declared
  rw [hlast]
  refine ⟨?_, vars, hvars, ?_⟩
  · calc s₅.symbolTable.scopes.length
        = s₄.symbolTable.scopes.length := h₅.length_eq
      _ = s₃.symbolTable.scopes.length := by rw [h₄.symbolTable]
      _ = s₂.symbolTable.scopes.length := h₃.length_eq
      _ = 1 := by rw [hstart]; rfl
  · calc s₅.symbolTable.globalVars
        = s₄.symbolTable.globalVars := hglobals₅.trans (List.append_nil _)
      _ = s₃.symbolTable.globalVars := by rw [h₄.symbolTable]
      _ = remembered vars := by
        rw [hglobals, hstart]
        rfl

/-- The visit of a statement is balanced. -/
structure BalancedVisit (stmt : Stmt) (s s' : VState) : Prop where
  depth : s'.symbolTable.scopes.length = s.symbolTable.scopes.length
  below : s'.symbolTable.scopes.tail = s.symbolTable.scopes.tail
  /-- The innermost scope has gained the symbols of the declarations outside blocks; in the first
  pass in the global scope the pointers among those of variable declarations are remembered. -/
  top : ∃ vars, List.Forall₂ Declares (outerDecls s.firstPass stmt) vars ∧
    s'.symbolTable.scopes.head? = s.symbolTable.scopes.head?.map (vars.foldl addVar) ∧
    s'.symbolTable.globalVars = s.symbolTable.globalVars ++
      if s.firstPass && s.symbolTable.isGlobalScope then remembered vars else []
  indentation : s'.symbolTable.getIndentLevel = s.symbolTable.getIndentLevel

theorem KeepsScopes.balanced {stmt : Stmt} (h : KeepsScopes (outerDecls s.firstPass stmt) s s') :
    BalancedVisit stmt s s' := by
  obtain ⟨vars, hvars, hscopes, hglobals⟩ := h.declared
  refine ⟨h.length_eq, ?_, ⟨vars, hvars, ?_, hglobals⟩, ?_⟩
  · rw [hscopes]
    cases s.symbolTable.scopes <;> rfl
  · rw [hscopes]
    cases s.symbolTable.scopes <;> rfl
  · rw [SymbolTable.getIndentLevel, h.length_eq]
    rfl

/-- Scopes are balanced: in either pass the visit of a statement returns to the scope it started
in, or fails for another reason than a missing scope. Statements at top level are visited in the
global scope and those of a block are not, and a translation remembers the pointers among the
declarations at top level. -/
theorem scopes_balanced (gen : CCodeGenerator) :
    (∀ (stmt : Stmt) (s : VState), s.symbolTable.scopes ≠ [] →
      Outcome (visitStmt gen stmt) s (fun _ s' ↦ BalancedVisit stmt s s') (· ≠ missingScope)) ∧
    (∀ (stmts : List Stmt) (s s' : VState), s.symbolTable.isGlobalScope = true →
      (visitTopLevel gen stmts).run s = .ok ((), s') → s'.symbolTable.isGlobalScope = true) ∧
    (∀ (stmts : List Stmt) (s s' : VState), s.symbolTable.scopes ≠ [] →
      (visitStmts gen stmts).run { s with symbolTable := s.symbolTable.enterScope } = .ok ((), s') →
        s'.symbolTable.scopes ≠ [] ∧ s'.symbolTable.isGlobalScope = false) ∧
    ∀ p : Program, translate gen p ≠ .error missingScope ∧
      ∀ s, translate gen p = .ok s → s.symbolTable.scopes.length = 1 ∧
        ∃ vars, List.Forall₂ Declares (outerDeclsOf true p.statements) vars ∧
          s.symbolTable.globalVars = remembered vars := by
  refine ⟨fun stmt s hs ↦ ?_, fun stmts s s' hs hrun ↦ ?_, fun stmts s s' hs hrun ↦ ?_,
    fun p ↦ ⟨fun hmissing ↦ ?_, fun s hs ↦ ?_⟩⟩
  · exact (visitStmt_scopes stmt s hs).mono fun _ _ _ h ↦ h.balanced
  · have hne : s.symbolTable.scopes ≠ [] := by
      intro hnil
      simp [SymbolTable.isGlobalScope, hnil] at hs
    rw [← hs]
    exact ((visitTopLevel_scopes stmts hne).of_run hrun).isGlobalScope_eq
  · have h := (visitStmts_scopes stmts { s with symbolTable := s.symbolTable.enterScope }
      (List.cons_ne_nil _ _)).of_run hrun
    refine ⟨h.nonempty (List.cons_ne_nil _ _), h.isGlobalScope_eq.trans ?_⟩
    have hlen := List.length_pos_iff.mpr hs
    simp only [SymbolTable.isGlobalScope, SymbolTable.enterScope, List.length_cons,
      beq_eq_false_iff_ne]
    omega
  · exact (outcome_translate (visitProgram_scopes p)).2 _ hmissing rfl
  · exact (outcome_translate (visitProgram_scopes p)).1 s hs

private def counterX : Ident := ⟨"x".toList, isIdentifier_x⟩

/-- `while (true) int x;` -/
def unbracedDecl : Stmt := .whileStmt (.literal .true) (.varDecl (.plain .int counterX) none)

/-- The body of a loop without braces is declared in the scope around it. -/
theorem scopes_balanced_unbracedDecl :
    ∃ s, (visitStmt ⟨true⟩ unbracedDecl).run {} = .ok ((), s) ∧ BalancedVisit unbracedDecl {} s ∧
      (s.symbolTable.lookupSymbol "x").isSome = true := by
  have hfacts : (((visitStmt ⟨true⟩ unbracedDecl).run {}).toOption.map fun r ↦
      (r.2.symbolTable.lookupSymbol "x").isSome) = some true := by decide +kernel
  cases hrun : (visitStmt ⟨true⟩ unbracedDecl).run {} with
  | error e =>
    rw [hrun] at hfacts
    cases hfacts
  | ok r =>
    rw [hrun] at hfacts
    exact ⟨r.2, rfl, ((scopes_balanced ⟨true⟩).1 unbracedDecl {} (List.cons_ne_nil _ _)).of_run hrun,
      Option.some.inj hfacts⟩

end JBLang.Ast
