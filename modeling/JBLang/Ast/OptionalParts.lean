import JBLang.Ast.Scopes

/-!
# Optional parts of the grammar

Which visits need a part that the grammar makes optional. A `return` needs its expression, a
struct initializer its list and a call of the parent's constructor its arguments; every other
absent part is stepped over. What is visited depends on the pass.
-/

namespace JBLang.Ast

open JBLang.Base JBLang.Types JBLang.Codegen

variable {gen : CCodeGenerator} {α β : Type} {first : Bool}

/-! ### Parts that are there -/

mutual

/-- The visit of an expression finds every part it needs. Calls, assignments and what follows
`->` are left out in the first pass, and the values of an initializer list in both. -/
def exprComplete (first : Bool) : Expr → Bool
  | .paren e | .member e _ | .addressOf e | .dereference e | .postIncrement e | .postDecrement e
  | .preIncrement e | .preDecrement e => exprComplete first e
  | .ident _ | .primaryLiteral _ | .literal _ | .var _ | .new _ => true
  | .mulDiv l _ r | .addSub l _ r | .compare l _ r | .arrayAccess l r =>
    exprComplete first l && exprComplete first r
  | .assign l r => first || (exprComplete first l && exprComplete first r)
  | .funcCall _ args | .newWithConstructor _ args => first || argsComplete first args
  | .pointerMember e _ => first || exprComplete first e
  | .methodCall e _ args => first || (exprComplete first e && argsComplete first args)
  | .structInit inits _ => !inits.isEmpty

/-- The same for the expressions of a list. -/
def argsComplete (first : Bool) : List Expr → Bool
  | [] => true
  | e :: es => exprComplete first e && argsComplete first es

end

/-- The same for a clause or an initializer that may be absent. -/
def clauseComplete (first : Bool) : Option Expr → Bool
  | none => true
  | some e => exprComplete first e

/-- The same for the first clause of a loop. -/
def initComplete (first : Bool) : ForInit → Bool
  | .varDecl _ init => clauseComplete first init
  | .exprStmt e => exprComplete first e
  | .none => true

/-- The same for a call of the parent's constructor: it has an argument. -/
def parentCallComplete (first : Bool) : Option (Ident × List Expr) → Bool
  | none => true
  | some (_, args) => !args.isEmpty && argsComplete first args

mutual

/-- The visit of a statement finds every part it needs. Whether the body of a method is visited
in the first pass depends on the classes around it; `methods` says whether it counts. -/
def stmtComplete (first methods : Bool) : Stmt → Bool
  | .functionDecl _ _ _ body => first || stmtsComplete first methods body
  | .varDecl _ init => first || clauseComplete first init
  | .spawnStmt _ | .structDecl _ | .typedefDecl .. => true
  | .returnStmt none => false
  | .returnStmt (some e) | .exprStmt e => exprComplete first e
  | .block body => stmtsComplete first methods body
  | .classDecl _ _ members => membersComplete first methods members
  | .ifStmt cond thenBranch none =>
    first || (exprComplete first cond && stmtComplete first methods thenBranch)
  | .ifStmt cond thenBranch (some elseBranch) =>
    first || (exprComplete first cond &&
      (stmtComplete first methods thenBranch && stmtComplete first methods elseBranch))
  | .whileStmt cond body => first || (exprComplete first cond && stmtComplete first methods body)
  | .forStmt init cond step body =>
    !first || ((initComplete first init && (clauseComplete first cond && clauseComplete first step)) &&
      stmtComplete first methods body)

/-- The same for the statements of a list. -/
def stmtsComplete (first methods : Bool) : List Stmt → Bool
  | [] => true
  | s :: ss => stmtComplete first methods s && stmtsComplete first methods ss

/-- The same for a member of a class. -/
def memberComplete (first methods : Bool) : ClassMember → Bool
  | .field _ => true
  | .method _ _ _ _ body => (first && !methods) || stmtsComplete first methods body
  | .constructor _ _ parentCall body =>
    (first || parentCallComplete first parentCall) && stmtsComplete first methods body

/-- The same for the members of a class. -/
def membersComplete (first methods : Bool) : List ClassMember → Bool
  | [] => true
  | m :: ms => memberComplete first methods m && membersComplete first methods ms

end

/-- Both passes over a program find every part they need. -/
def Program.complete (methods : Bool) (p : Program) : Bool :=
  stmtsComplete true methods p.statements && stmtsComplete false methods p.statements

/-! ### Visits of one pass -/

/-- A computation of one pass. If it returns, what it needed was there; if there was enough, it
visits no absent part. -/
def Covers (first enough needed : Bool) (m : VisitM α) : Prop :=
  ∀ s, s.firstPass = first → Outcome m s (fun _ s' ↦ s'.firstPass = first ∧ needed = true)
    fun e ↦ enough = true → e ≠ .nullAccess

/-- The computation leaves the scopes alone and visits no absent part. -/
abbrev Plain (m : VisitM α) : Prop := Keeps SameScopes (· ≠ .nullAccess) m

variable {m : VisitM α} {f : α → VisitM β} {c c' d d' : Bool}

theorem Covers.mono (hm : Covers first c d m) (hc : c' = true → c = true)
    (hd : d = true → d' = true) : Covers first c' d' m :=
  fun s hs ↦ (hm s hs).imp (fun _ _ h ↦ ⟨h.1, hd h.2⟩) fun _ h henough ↦ h (hc henough)

theorem covers_of_plain (hm : Plain m) : Covers first true true m :=
  fun s hs ↦ (hm s).imp (fun _ _ h ↦ ⟨h.firstPass.trans hs, rfl⟩) fun _ h _ ↦ h

theorem Covers.bind (hm : Covers first c d m) (hf : ∀ a, Covers first c' d' (f a)) :
    Covers first (c && c') (d && d') (m >>= f) := by
  intro s hs
  rw [outcome_bind]
  refine (hm s hs).imp (fun a s₁ h₁ ↦ ?_) fun e h henough ↦ h (Bool.and_eq_true_iff.mp henough).1
  exact (hf a s₁ h₁.1).imp
    (fun _ _ h₂ ↦ ⟨h₂.1, Bool.and_eq_true_iff.mpr ⟨h₁.2, h₂.2⟩⟩)
    fun _ h henough ↦ h (Bool.and_eq_true_iff.mp henough).2

/-- What follows needs nothing. -/
theorem Covers.then_free (hm : Covers first c d m) (hf : ∀ a, Covers first true true (f a)) :
    Covers first c d (m >>= f) := by
  have h := hm.bind hf
  rwa [Bool.and_true, Bool.and_true] at h

theorem Covers.then_plain (hm : Covers first c d m) (hf : ∀ a, Plain (f a)) :
    Covers first c d (m >>= f) :=
  hm.then_free fun a ↦ covers_of_plain (hf a)

theorem Covers.after_plain (hm : Plain m) (hf : ∀ a, Covers first c d (f a)) :
    Covers first c d (m >>= f) :=
  (covers_of_plain hm).bind hf

/-- What is left out in the first pass. -/
theorem covers_unlessFirst {a : α} (hm : first = false → Covers first c d m) :
    Covers first (first || c) (first || d)
      (inFirstPass >>= fun b ↦ if b then pure a else m) := by
  intro s hs
  change Outcome (if s.firstPass = true then pure a else m) s _ _
  cases hfirst : first with
  | true =>
    rw [if_pos (hs.trans hfirst)]
    exact ⟨hs.trans hfirst, rfl⟩
  | false =>
    rw [if_neg (by simp [hs.trans hfirst])]
    subst hfirst
    exact hm rfl s hs

theorem covers_secondPassOnly {m : VisitM Unit} (hm : first = false → Covers first c d m) :
    Covers first (first || c) (first || d) (secondPassOnly m) :=
  covers_unlessFirst hm

theorem covers_firstPassOnly {m : VisitM Unit} (hm : first = true → Covers first c d m) :
    Covers first (!first || c) (!first || d) (firstPassOnly m) := by
  intro s hs
  change Outcome (if s.firstPass = true then m else pure ()) s _ _
  cases hfirst : first with
  | false =>
    rw [if_neg (by simp [hs.trans hfirst])]
    exact ⟨hs.trans hfirst, rfl⟩
  | true =>
    rw [if_pos (hs.trans hfirst)]
    subst hfirst
    exact hm rfl s hs

theorem covers_modifySymbols (f : SymbolTable → SymbolTable) :
    Covers first true true (modifySymbols f) := fun _ hs ↦ outcome_modify.mpr ⟨hs, rfl⟩

theorem covers_addSymbol (name : Str) (type : Ty) :
    Covers first true true (addSymbol name type) := by
  intro s hs
  simp only [addSymbol, outcome_bind, outcome_get, outcome_lift, outcome_set]
  refine ⟨fun st _ ↦ ⟨hs, trivial⟩, fun e he _ hnull ↦ ?_⟩
  subst hnull
  unfold SymbolTable.addSymbol at he
  split at he <;> cases he

/-! ### Expressions -/

mutual

/-- The visit of an expression needs the parts that `exprComplete` names, and no other. -/
theorem visitExpr_covers : ∀ e : Expr,
    Covers first (exprComplete first e) (exprComplete first e) (visitExpr gen e)
  | .paren e | .member e _ | .addressOf e | .dereference e | .postIncrement e | .postDecrement e
  | .preIncrement e | .preDecrement e => by
    unfold visitExpr exprComplete
    exact (visitExpr_covers e).then_plain fun _ ↦ quiet_pure _
  | .ident _ | .primaryLiteral _ | .literal _ => by
    unfold visitExpr exprComplete
    exact covers_of_plain (quiet_pure _)
  | .var _ => by
    unfold visitExpr exprComplete
    exact covers_of_plain (quiet_throw nofun)
  | .new t => by
    unfold visitExpr exprComplete
    exact covers_of_plain (quiet_bind (quiet_resolveTypeFromContext t) fun _ ↦ quiet_pure _)
  | .mulDiv l _ r | .addSub l _ r | .compare l _ r | .arrayAccess l r => by
    unfold visitExpr exprComplete
    exact (visitExpr_covers l).bind fun _ ↦ (visitExpr_covers r).then_plain fun _ ↦ quiet_pure _
  | .funcCall name args => by
    unfold visitExpr exprComplete
    refine covers_unlessFirst fun _ ↦ .after_plain quiet_indentLevel fun indent ↦ ?_
    have hreleases : Covers first (argsComplete first args) true
        (whenCounting (visitReleasedArgs gen indent args)) := by
      refine .after_plain quiet_get fun s ↦ ?_
      split
      · exact (visitReleasedArgs_covers indent args).mono id fun _ ↦ rfl
      · exact (covers_of_plain (quiet_pure _)).mono (fun _ ↦ rfl) id
    have h := (visitCallArgs_covers indent args).bind fun r ↦
      hreleases.then_plain (f := fun releases ↦ pure (indent ++ generateFunctionCall name.text r.1 ++
        (if r.2 then (";\n" : Str) else "") ++ releases)) fun _ ↦ quiet_pure _
    rwa [Bool.and_self, Bool.and_true] at h
  | .assign left right => by
    unfold visitExpr exprComplete
    exact covers_unlessFirst fun _ ↦ (visitExpr_covers left).bind fun _ ↦
      (visitExpr_covers right).then_plain fun _ ↦ quiet_assignCode _ _
  | .newWithConstructor name args => by
    unfold visitExpr exprComplete
    refine covers_unlessFirst fun _ ↦ .after_plain quiet_get fun s ↦ ?_
    have htemp : Plain freshTemp := quiet_bind quiet_get fun _ ↦
      quiet_bind (quiet_modify fun _ ↦ ⟨rfl, rfl⟩) fun _ ↦ quiet_pure _
    split
    · exact fun _ _ ↦ outcome_throw.mpr fun _ ↦ nofun
    · exact .after_plain htemp fun _ ↦ .after_plain quiet_indentLevel fun _ ↦
        .after_plain (quiet_askTypes fun ts ↦ resolveType_answers ts _) fun _ ↦
          .after_plain (quiet_emit _) fun _ ↦ (visitArgs_covers args).then_plain fun _ ↦
            quiet_bind (quiet_emit _) fun _ ↦ quiet_pure _
  | .pointerMember e name => by
    unfold visitExpr exprComplete
    exact covers_unlessFirst fun _ ↦ (visitExpr_covers e).then_plain fun _ ↦
      quiet_bind quiet_get fun _ ↦ quiet_pure _
  | .methodCall e name args => by
    unfold visitExpr exprComplete
    refine covers_unlessFirst fun _ ↦ (visitExpr_covers e).bind fun _ ↦ ?_
    exact .after_plain (quiet_receiverClass _) fun _ ↦
      .after_plain (quiet_askTypes fun ts ↦ findMethod_answers ts _ _) fun _ ↦
        (visitArgs_covers args).then_plain fun _ ↦ quiet_methodCallCode _ _ _ _ _ _
  | .structInit inits _ => by
    unfold visitExpr exprComplete
    have hinits : Plain (visitInitializerList gen inits) :=
      quiet_unlessFirst (quiet_bind quiet_indentLevel fun _ ↦ quiet_initializerLines _ inits)
    cases inits with
    | nil => exact fun _ _ ↦ outcome_throw.mpr nofun
    | cons i is =>
      exact covers_of_plain (quiet_bind hinits fun _ ↦ quiet_bind quiet_indentLevel fun _ ↦
        quiet_pure _)

theorem visitArgs_covers : ∀ es : List Expr,
    Covers first (argsComplete first es) (argsComplete first es) (visitArgs gen es)
  | [] => by
    unfold visitArgs argsComplete
    exact covers_of_plain (quiet_pure _)
  | e :: es => by
    unfold visitArgs argsComplete
    exact (visitExpr_covers e).bind fun _ ↦ (visitArgs_covers es).then_plain fun _ ↦ quiet_pure _

theorem visitCallArgs_covers (indent : Str) : ∀ es : List Expr,
    Covers first (argsComplete first es) (argsComplete first es) (visitCallArgs gen indent es)
  | [] => by
    unfold visitCallArgs argsComplete
    exact covers_of_plain (quiet_pure _)
  | e :: es => by
    unfold visitCallArgs argsComplete
    exact (visitExpr_covers e).bind fun _ ↦ .after_plain (quiet_countArg _ _) fun _ ↦
      (visitCallArgs_covers indent es).then_plain fun _ ↦ quiet_pure _

theorem visitReleasedArgs_covers (indent : Str) : ∀ es : List Expr,
    Covers first (argsComplete first es) (argsComplete first es) (visitReleasedArgs gen indent es)
  | [] => by
    unfold visitReleasedArgs argsComplete
    exact covers_of_plain (quiet_pure _)
  | e :: es => by
    unfold visitReleasedArgs argsComplete
    exact (visitExpr_covers e).bind fun _ ↦ .after_plain (quiet_releaseText _ _) fun _ ↦
      (visitReleasedArgs_covers indent es).then_plain fun _ ↦ quiet_pure _

end

/-! ### Statements -/

theorem covers_setCurrentFunc (func : Option Function) :
    Covers first true true (setCurrentFunc func) := covers_modifySymbols _

theorem visitVarDecl_covers (decl : Declarator) (init : Option Expr) :
    Covers first (first || clauseComplete first init) (first || clauseComplete first init)
      (visitVarDecl gen decl init) := by
  have hinit : ∀ indent varName varType, Covers first (clauseComplete first init)
      (clauseComplete first init) (declareVar gen indent varName varType init) := by
    intro indent varName varType
    cases init with
    | none => exact covers_of_plain (quiet_emit _)
    | some e =>
      exact (visitExpr_covers e).then_plain fun _ ↦ quiet_bind (quiet_lookupSymbol _) fun _ ↦
        quiet_bind (quiet_castTo _ _ _) fun _ ↦ quiet_bind (quiet_lookupSymbol _) fun _ ↦
          quiet_bind (quiet_emitIncRef _ _ _) fun _ ↦ quiet_emit _
  have hremember : ∀ varName varType, Covers first true true (rememberGlobal varName varType) := by
    intro varName varType s hs
    simp only [rememberGlobal, outcome_bind, outcome_get]
    split <;> exact ⟨hs, trivial⟩
  exact .after_plain quiet_indentLevel fun indent ↦ .after_plain (quiet_declaratorType decl)
    fun r ↦ (hremember _ _).bind fun _ ↦
      (covers_secondPassOnly fun _ ↦ hinit indent r.1 r.2).then_free fun _ ↦
        covers_addSymbol r.1 r.2

theorem visitReturnStmt_covers (e : Expr) :
    Covers first (exprComplete first e) (exprComplete first e) (visitReturnStmt gen (some e)) := by
  have hrelease : ∀ indent, Plain (releaseScope gen indent) := fun _ ↦
    quiet_bind quiet_get fun _ ↦ quiet_emit _
  exact .after_plain (quiet_setAddRefCounts _) fun _ ↦ (visitExpr_covers e).then_plain fun _ ↦
    quiet_bind (quiet_setAddRefCounts _) fun _ ↦ quiet_secondPassOnly
      (quiet_bind quiet_indentLevel fun _ ↦ quiet_bind (quiet_lookupSymbol _) fun _ ↦
        quiet_bind (quiet_emitIncRef _ _ _) fun _ ↦ quiet_bind (hrelease _) fun _ ↦ quiet_emit _)

theorem visitCondition_covers (before : Str) (cond : Expr) (after : Str) :
    Covers first (exprComplete first cond) (exprComplete first cond)
      (visitCondition gen before cond after) :=
  .after_plain (quiet_setAddRefCounts _) fun _ ↦ .after_plain (quiet_emit _) fun _ ↦
    (visitExpr_covers cond).then_plain fun _ ↦ quiet_bind (quiet_emit _) fun _ ↦
      quiet_setAddRefCounts _

theorem visitForInit_covers (init : ForInit) :
    Covers first (initComplete first init) (initComplete first init) (visitForInit gen init) := by
  cases init with
  | none => exact covers_of_plain (quiet_pure _)
  | exprStmt e => exact (visitExpr_covers e).then_plain fun _ ↦ quiet_emit _
  | varDecl decl init =>
    cases init with
    | none =>
      exact .after_plain (quiet_declaratorType decl) fun r ↦ .after_plain (quiet_emit _) fun _ ↦
        covers_addSymbol r.1 r.2
    | some e =>
      exact .after_plain (quiet_declaratorType decl) fun r ↦ .after_plain (quiet_emit _) fun _ ↦
        (visitExpr_covers e).then_free fun _ ↦ .after_plain (quiet_emit _) fun _ ↦
          covers_addSymbol r.1 r.2

/-- Both clauses of a loop's head are visited, a step without a condition in its place. -/
theorem visitForHead_covers (init : ForInit) (cond step : Option Expr) :
    Covers first
      (initComplete first init && (clauseComplete first cond && clauseComplete first step))
      (initComplete first init && (clauseComplete first cond && clauseComplete first step))
      (visitForHead gen init cond step) := by
  have hcond : ∀ e, Covers first (clauseComplete first e) (clauseComplete first e)
      (visitForCond gen e) := by
    intro e
    cases e with
    | none => exact covers_of_plain (quiet_pure _)
    | some e => exact visitCondition_covers _ _ _
  have hstep : ∀ e, Covers first (clauseComplete first e) (clauseComplete first e)
      (visitForStep gen e) := by
    intro e
    cases e with
    | none => exact covers_of_plain (quiet_pure _)
    | some e => exact (visitExpr_covers e).then_plain fun _ ↦ quiet_emit _
  have hclauses : (clauseComplete first cond && clauseComplete first step) =
      (clauseComplete first (cond.or step) &&
        clauseComplete first (cond.bind fun _ ↦ step)) := by
    cases cond with
    | none => exact (Bool.and_true _).symm
    | some e => rfl
  rw [hclauses]
  exact .after_plain quiet_indentLevel fun _ ↦ .after_plain (quiet_emit _) fun _ ↦
    (visitForInit_covers init).bind fun _ ↦ .after_plain (quiet_emit _) fun _ ↦
      (hcond _).bind fun _ ↦ .after_plain (quiet_emit _) fun _ ↦
        (hstep _).then_plain fun _ ↦ quiet_emit _

theorem constructorPrologue_covers (className : Str) (classType : Ty) (constructor : Function)
    (call : Option (Ident × List Expr)) :
    Covers first (parentCallComplete first call) (parentCallComplete first call)
      (constructorPrologue gen className classType constructor call) := by
  have hcall : Covers first (parentCallComplete first call) (parentCallComplete first call)
      (parentConstructorCall gen call) := by
    cases call with
    | none => exact covers_of_plain (quiet_pure _)
    | some call =>
      obtain ⟨name, args⟩ := call
      cases args with
      | nil => exact fun _ _ ↦ outcome_throw.mpr nofun
      | cons e es =>
        exact (visitArgs_covers (e :: es)).then_plain fun _ ↦ quiet_bind quiet_indentLevel fun _ ↦
          quiet_pure _
  exact .after_plain (quiet_emit _) fun _ ↦ hcall.then_plain fun _ ↦
    quiet_bind (quiet_emit _) fun _ ↦ quiet_storeVTable _ _

theorem inBlock_covers {statements : VisitM Unit} (h : Covers first c d statements) :
    Covers first c d (inBlock gen statements) := by
  have hrelease : ∀ indent, Plain (releaseScope gen indent) := fun _ ↦
    quiet_bind quiet_get fun _ ↦ quiet_emit _
  exact (covers_modifySymbols _).bind fun _ ↦
    .after_plain (quiet_secondPassOnly (quiet_emit _)) fun _ ↦
      .after_plain quiet_indentLevel fun indent ↦ h.then_free fun _ ↦
        .after_plain (quiet_secondPassOnly (hrelease indent)) fun _ ↦
          (covers_modifySymbols _).then_plain fun _ ↦ quiet_secondPassOnly (quiet_emit _)

/-- The body of a method is visited in the second pass, and in the first one unless the method is
virtual. -/
theorem methodBody_covers {body : VisitM Unit} (className : Str) (isVirtual : Bool)
    (h : Covers first c d body) :
    Covers first c (first || d) (methodBody className isVirtual body) := by
  cases isVirtual with
  | false => exact h.mono id fun hd ↦ by rw [hd, Bool.or_true]
  | true =>
    have hbody : Covers first (first || c) (first || d) _ := covers_secondPassOnly fun _ ↦
      .after_plain (quiet_emit (" \x7b\n    struct " ++ className ++ "* this = (struct " ++
        className ++ "*)this_param;\n")) fun _ ↦ h.then_plain fun _ ↦ quiet_emit "\x7d\n\n"
    exact hbody.mono (fun hc ↦ by rw [hc, Bool.or_true]) id

mutual

/-- The visit of a statement needs the parts that `stmtComplete` names, and no other; bodies of
methods count in the first pass only for what is enough. -/
theorem visitStmt_covers : ∀ stmt : Stmt,
    Covers first (stmtComplete first true stmt) (stmtComplete first false stmt) (visitStmt gen stmt)
  | .functionDecl result name params body => by
    unfold visitStmt stmtComplete
    exact .after_plain (quiet_declaratorTypes params) fun _ ↦
      .after_plain (quiet_resolveTypeFromContext result) fun _ ↦
        .after_plain (quiet_firstPassOnly (quiet_modifyTypes _)) fun _ ↦
          (covers_setCurrentFunc _).bind fun _ ↦
            (covers_secondPassOnly fun _ ↦ .after_plain (quiet_emit _) fun _ ↦
              inBlock_covers (visitStmts_covers body)).then_free fun _ ↦ covers_setCurrentFunc none
  | .varDecl decl init => by
    unfold visitStmt stmtComplete
    exact visitVarDecl_covers decl init
  | .spawnStmt _ => by
    unfold visitStmt stmtComplete
    exact covers_of_plain (quiet_pure _)
  | .returnStmt none => by
    unfold visitStmt stmtComplete
    exact fun _ _ ↦ nofun
  | .returnStmt (some e) => by
    unfold visitStmt stmtComplete
    exact visitReturnStmt_covers e
  | .exprStmt e => by
    unfold visitStmt stmtComplete
    exact (visitExpr_covers e).then_plain fun _ ↦ quiet_secondPassOnly
      (quiet_bind quiet_indentLevel fun _ ↦ quiet_emit _)
  | .block body => by
    unfold visitStmt stmtComplete
    exact inBlock_covers (visitStmts_covers body)
  | .structDecl decl => by
    unfold visitStmt stmtComplete
    exact covers_of_plain (quiet_visitStructDecl decl)
  | .classDecl name parent members => by
    unfold visitStmt stmtComplete
    exact .after_plain (quiet_getClassFromCode name parent members) fun classType ↦
      .after_plain (quiet_announceClass name.text classType) fun _ ↦
        visitMembers_covers name.text classType members
  | .ifStmt cond body none | .whileStmt cond body => by
    unfold visitStmt stmtComplete
    exact covers_secondPassOnly fun _ ↦ .after_plain quiet_indentLevel fun _ ↦
      (visitCondition_covers _ cond _).bind fun _ ↦
        (visitStmt_covers body).then_plain fun _ ↦ quiet_emit _
  | .ifStmt cond thenBranch (some elseBranch) => by
    unfold visitStmt stmtComplete
    exact covers_secondPassOnly fun _ ↦ .after_plain quiet_indentLevel fun _ ↦
      (visitCondition_covers _ cond _).bind fun _ ↦ (visitStmt_covers thenBranch).bind fun _ ↦
        .after_plain (quiet_emit _) fun _ ↦ .after_plain quiet_indentLevel fun _ ↦
          .after_plain (quiet_emit _) fun _ ↦
            (visitStmt_covers elseBranch).then_plain fun _ ↦ quiet_emit _
  | .forStmt init cond step body => by
    unfold visitStmt stmtComplete
    exact covers_firstPassOnly fun _ ↦ .after_plain quiet_indentLevel fun _ ↦
      (visitForHead_covers init cond step).bind fun _ ↦ .after_plain (quiet_emit _) fun _ ↦
        (visitStmt_covers body).then_plain fun _ ↦ quiet_emit _
  | .typedefDecl body name => by
    unfold visitStmt stmtComplete
    exact covers_of_plain (quiet_visitTypedefDecl body name)

theorem visitStmts_covers : ∀ stmts : List Stmt,
    Covers first (stmtsComplete first true stmts) (stmtsComplete first false stmts)
      (visitStmts gen stmts)
  | [] => by
    unfold visitStmts stmtsComplete
    exact covers_of_plain (quiet_pure _)
  | stmt :: stmts => by
    unfold visitStmts stmtsComplete
    exact (visitStmt_covers stmt).bind fun _ ↦ visitStmts_covers stmts

theorem visitMember_covers (className : Str) (classType : Ty) : ∀ member : ClassMember,
    Covers first (memberComplete first true member) (memberComplete first false member)
      (visitMember gen className classType member)
  | .field _ => by
    unfold visitMember memberComplete
    exact covers_of_plain (quiet_pure _)
  | .constructor _ params parentCall body => by
    unfold visitMember memberComplete
    exact .after_plain (quiet_memberParams classType params) fun _ ↦
      .after_plain (quiet_firstPassOnly (quiet_modifyTypes _)) fun _ ↦
        (covers_setCurrentFunc _).bind fun _ ↦
          (covers_secondPassOnly fun _ ↦ constructorPrologue_covers _ _ _ _).bind fun _ ↦
            (inBlock_covers (visitStmts_covers body)).then_free fun _ ↦
              .after_plain (quiet_secondPassOnly (quiet_emit _)) fun _ ↦ covers_setCurrentFunc none
  | .method virtualKeyword result name params body => by
    unfold visitMember memberComplete
    rw [Bool.not_true, Bool.and_false, Bool.false_or, Bool.not_false, Bool.and_true]
    exact .after_plain (quiet_resolveTypeFromContext result) fun _ ↦
      .after_plain (quiet_methodIsVirtual classType name.text _) fun isVirtual ↦
        .after_plain (quiet_memberParams classType params) fun _ ↦
          .after_plain (quiet_firstPassOnly (quiet_registerMethod _ _ _ _)) fun _ ↦
            (covers_setCurrentFunc _).bind fun _ ↦
              .after_plain (quiet_secondPassOnly (quiet_defineMethod _)) fun _ ↦
                (methodBody_covers className isVirtual
                  (inBlock_covers (visitStmts_covers body))).then_free
                  fun _ ↦ covers_setCurrentFunc none

theorem visitMembers_covers (className : Str) (classType : Ty) : ∀ members : List ClassMember,
    Covers first (membersComplete first true members) (membersComplete first false members)
      (visitMembers gen className classType members)
  | [] => by
    unfold visitMembers membersComplete
    exact covers_of_plain (quiet_pure _)
  | member :: members => by
    unfold visitMembers membersComplete
    exact (visitMember_covers className classType member).bind fun _ ↦
      visitMembers_covers className classType members

end

/-! ### Programs -/

end JBLang.Ast
