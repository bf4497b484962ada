import JBLang.Ast.Lookup
import JBLang.Base.Scoping
import JBLang.Emitted.Pieces

/-!
# Temporaries among the names of a program

Where the emitted C opens and closes scopes, declares the variables, parameters and functions of
the program and the temporaries of `visitNewWithConstructorExpr`, and uses names of the program.
-/

namespace JBLang.Emitted

open JBLang.Base JBLang.Types JBLang.Codegen JBLang.Ast

/-- What happens to the names in scope in the emitted C. -/
abbrev Event := ScopeEvent Str

/-! ### Expressions -/

mutual

/-- The functions that the text of an expression calls. The arguments of a constructor stand in a
statement before it, unless the text is copied from the source. -/
def calledIn (copied : Bool) : Expr → List Str
  | .paren e | .member e _ | .pointerMember e _ | .addressOf e | .dereference e
  | .postIncrement e | .postDecrement e | .preIncrement e | .preDecrement e => calledIn copied e
  | .ident _ | .primaryLiteral _ | .literal _ | .var _ | .new _ => []
  | .funcCall name args => name.text :: calledInArgs copied args
  | .mulDiv left _ right | .addSub left _ right | .compare left _ right | .assign left right
  | .arrayAccess left right => calledIn copied left ++ calledIn copied right
  | .newWithConstructor _ args => if copied then calledInArgs copied args else []
  | .methodCall e _ args => calledIn copied e ++ calledInArgs copied args
  | .structInit inits _ => calledInInits inits

/-- The functions that the arguments of a call call. -/
def calledInArgs (copied : Bool) : List Expr → List Str
  | [] => []
  | e :: es => calledIn copied e ++ calledInArgs copied es

/-- The functions in a list of initialisers, which are copied. -/
def calledInInits : List Initializer → List Str
  | [] => []
  | .mk _ value :: is => calledIn true value ++ calledInInits is

end

/-- The uses in the text of an expression. -/
def usesIn (e : Expr) : List Event := (namesIn false e ++ calledIn false e).map .use

/-- The uses in the texts of arguments. -/
def usesInArgs (es : List Expr) : List Event :=
  (namesInArgs false es ++ calledInArgs false es).map .use

mutual

/-- What is written for an expression before the statement, with `n` temporaries so far: the
temporaries and the calls of constructors with the uses in their arguments. -/
def hoisted (σ : Site) : Nat → Expr → List Event
  | n, .paren e | n, .member e _ | n, .pointerMember e _ | n, .addressOf e | n, .dereference e
  | n, .postIncrement e | n, .postDecrement e | n, .preIncrement e | n, .preDecrement e =>
    hoisted σ n e
  | _, .ident _ | _, .primaryLiteral _ | _, .literal _ | _, .var _ | _, .new _
  | _, .structInit .. => []
  | n, .mulDiv l _ r | n, .addSub l _ r | n, .compare l _ r | n, .assign l r
  | n, .arrayAccess l r => hoisted σ n l ++ hoisted σ (n + temps σ l) r
  -- The arguments of a call are visited again for their releases.
  | n, .funcCall _ args => hoistedArgs σ n args ++
    if σ.counting then hoistedArgs σ (n + argsTemps σ args) args else []
  | n, .newWithConstructor _ args =>
    .introduce (tempName n) :: hoistedArgs σ (n + 1) args ++ usesInArgs args
  | n, .methodCall e _ args => hoisted σ n e ++ hoistedArgs σ (n + temps σ e) args

/-- What is written for arguments before the statement. -/
def hoistedArgs (σ : Site) : Nat → List Expr → List Event
  | _, [] => []
  | n, e :: es => hoisted σ n e ++ hoistedArgs σ (n + temps σ e) es

end

/-- The expression of a statement that is visited in a state. -/
def exprEvents (e : Expr) (s : VState) : List Event :=
  hoisted s.site s.tempVarCounter e ++ usesIn e

/-- An expression that is visited without reference counting. -/
def uncountedEvents (e : Expr) (s : VState) : List Event :=
  exprEvents e { s with addRefCounts := false }

/-! ### Statements -/

/-- The name that a declarator declares. -/
def declaredName : Declarator → Str
  | .plain _ name | .array _ name _ => name.text

/-- The state after a part of the visit, where it returns. -/
def stateAfter {α : Type} (m : VisitM α) (s : VState) : VState :=
  match m.run s with
  | .ok (_, s) => s
  | .error _ => s

/-- Events between braces. -/
def braced (evs : List Event) : List Event := .enter :: evs ++ [.leave]

/-- The arguments for the constructor of the parent class. -/
def parentCallEvents : Option (Ident × List Expr) → VState → List Event
  | none, _ => []
  | some (_, args), s => hoistedArgs s.site s.tempVarCounter args ++ usesInArgs args

/-- The parameters of a function in the emitted C. -/
def paramEvents (func : Function) : List Event := (cParams func).map fun p ↦ .declare p.1

variable (gen : CCodeGenerator)

/-- The visit of an `if` or `while` up to its body. -/
def openBraces (keyword : Str) (cond : Expr) : VisitM Unit := do
  visitCondition gen ((← indentLevel) ++ keyword) cond ") \x7b\n"

/-- The visit of an `if` between its bodies. -/
def openElse : VisitM Unit := do
  emit "\x7d\n"
  emit ((← indentLevel) ++ "else \x7b\n")

mutual

/-- A statement that is visited in the second pass. The parameters of a function and the outermost
declarations of its body share a scope in C. -/
def stmtEvents : Stmt → VState → List Event
  | .varDecl d none, _ => [.declare (declaredName d)]
  | .varDecl d (some e), s =>
    hoisted s.site s.tempVarCounter e ++ .declare (declaredName d) :: usesIn e
  | .returnStmt none, _ => []
  | .returnStmt (some e), s => uncountedEvents e s
  | .exprStmt e, s => exprEvents e s
  | .block body, s => braced (stmtsEvents body (stateAfter openBlock s))
  | .ifStmt cond thenBranch none, s => uncountedEvents cond s ++
    braced (stmtEvents thenBranch (stateAfter (openBraces gen "if (" cond) s))
  | .ifStmt cond thenBranch (some elseBranch), s =>
    let s₁ := stateAfter (openBraces gen "if (" cond) s
    let s₂ := stateAfter (visitStmt gen thenBranch) s₁
    uncountedEvents cond s ++ braced (stmtEvents thenBranch s₁) ++
      braced (stmtEvents elseBranch (stateAfter openElse s₂))
  | .whileStmt cond body, s => uncountedEvents cond s ++
    braced (stmtEvents body (stateAfter (openBraces gen "while (" cond) s))
  | .functionDecl result name params body, s =>
    match (openFunction result name params).run s with
    | .ok (func, s₁) => .declare name.text ::
      braced (paramEvents func ++ stmtsEvents body (stateAfter openBlock s₁))
    | .error _ => []
  | .classDecl name parent members, s =>
    match (getClassFromCode name parent members).run s with
    | .ok (classType, s₁) => membersEvents name.text classType members
      (stateAfter (announceClass name.text classType) s₁)
    | .error _ => []
  -- The second pass skips loops with `for`.
  | .spawnStmt _, _ | .structDecl _, _ | .forStmt .., _ | .typedefDecl .., _ => []

/-- The statements of a list, in order. -/
def stmtsEvents : List Stmt → VState → List Event
  | [], _ => []
  | stmt :: stmts, s => stmtEvents stmt s ++ stmtsEvents stmts (stateAfter (visitStmt gen stmt) s)

/-- A member of a class. The body of a constructor or of a virtual method stands in braces inside
the function. -/
def memberEvents (className : Str) (classType : Ty) : ClassMember → VState → List Event
  | .field _, _ => []
  | .constructor _ params parentCall body, s =>
    match (openConstructor className classType params).run s with
    | .ok (constructor, s₁) =>
      let s₂ := stateAfter (constructorPrologue gen className classType constructor parentCall) s₁
      braced (paramEvents constructor ++ parentCallEvents parentCall s₁ ++
        braced (stmtsEvents body (stateAfter openBlock s₂)))
    | .error _ => []
  | .method virtualKeyword result name params body, s =>
    match (openMethod className classType virtualKeyword result name params body).run s with
    | .ok (method, s₁) =>
      let inside := stmtsEvents body (stateAfter openBlock s₁)
      braced (paramEvents method ++ if method.isVirtual then braced inside else inside)
    | .error _ => []

/-- The members of a class, in order. -/
def membersEvents (className : Str) (classType : Ty) : List ClassMember → VState → List Event
  | [], _ => []
  | m :: ms, s => memberEvents className classType m s ++
    membersEvents className classType ms (stateAfter (visitMember gen className classType m) s)

end

/-- The variable in the head of a loop. -/
def headNames : ForInit → List Str
  | .varDecl d _ => [declaredName d]
  | .exprStmt _ | .none => []

mutual

/-- The names of the variables, parameters and functions of a statement. -/
def stmtNames : Stmt → List Str
  | .functionDecl _ name params body => name.text :: params.map declaredName ++ stmtsNames body
  | .varDecl d _ => [declaredName d]
  | .block body => stmtsNames body
  | .classDecl _ _ members => membersNames members
  | .ifStmt _ thenBranch none => stmtNames thenBranch
  | .ifStmt _ thenBranch (some elseBranch) => stmtNames thenBranch ++ stmtNames elseBranch
  | .whileStmt _ body => stmtNames body
  | .forStmt init _ _ body => headNames init ++ stmtNames body
  | .spawnStmt _ | .returnStmt _ | .exprStmt _ | .structDecl _ | .typedefDecl .. => []

/-- The names of the statements of a list. -/
def stmtsNames : List Stmt → List Str
  | [] => []
  | stmt :: stmts => stmtNames stmt ++ stmtsNames stmts

/-- The names of the parameters and variables of a member. -/
def memberNames : ClassMember → List Str
  | .field _ => []
  | .method _ _ _ params body | .constructor _ params _ body =>
    params.map declaredName ++ stmtsNames body

/-- The names of the members of a class. -/
def membersNames : List ClassMember → List Str
  | [] => []
  | m :: ms => memberNames m ++ membersNames ms

end

/-- The names that are introduced. -/
def introduced (evs : List Event) : List Str :=
  evs.filterMap fun
    | .introduce x => some x
    | _ => none

/-- The temporaries that are declared. -/
def declaredTemps (ps : List Piece) : List Str :=
  ps.filterMap fun
    | .declare _ temp _ => some temp
    | _ => none

theorem introduced_append (evs evs' : List Event) :
    introduced (evs ++ evs') = introduced evs ++ introduced evs' := List.filterMap_append

theorem introduced_uses (names : List Str) : introduced (names.map .use) = [] := by
  induction names with
  | nil => rfl
  | cons name names ih => exact ih

theorem declaredTemps_append (ps ps' : List Piece) :
    declaredTemps (ps ++ ps') = declaredTemps ps ++ declaredTemps ps' := List.filterMap_append

theorem declaredTemps_under (i : Nat) (ps : List Piece) :
    declaredTemps (ps.map (Piece.under i)) = declaredTemps ps := by
  induction ps with
  | nil => rfl
  | cons p ps ih =>
    cases p with
    | declare place temp type => exact congrArg (temp :: ·) ih
    | construct | assign | count => exact ih

theorem declaredTemps_count (text : Str) (ps : List Piece) :
    declaredTemps (.count text :: ps) = declaredTemps ps := rfl

mutual

/-- The temporaries of an expression are those that its visit declares. -/
theorem introduced_hoisted (σ : Setting) : ∀ (e : Expr) (n : Nat),
    introduced (hoisted σ.site n e) = declaredTemps (σ.piecesOf n e)
  | .paren e, n | .member e _, n | .pointerMember e _, n | .addressOf e, n | .dereference e, n
  | .postIncrement e, n | .postDecrement e, n | .preIncrement e, n | .preDecrement e, n => by
    rw [hoisted, Setting.piecesOf, declaredTemps_under]
    exact introduced_hoisted σ e n
  | .ident _, n | .primaryLiteral _, n | .literal _, n | .var _, n | .new _, n
  | .structInit .., n => by
    rw [hoisted, Setting.piecesOf]
    rfl
  | .mulDiv l _ r, n | .addSub l _ r, n | .compare l _ r, n | .arrayAccess l r, n => by
    rw [hoisted, Setting.piecesOf, introduced_append, declaredTemps_append, declaredTemps_under,
      declaredTemps_under, introduced_hoisted σ l, introduced_hoisted σ r]
  | .assign l r, n => by
    rw [hoisted, Setting.piecesOf, introduced_append, declaredTemps_append, declaredTemps_append,
      declaredTemps_under, declaredTemps_under, introduced_hoisted σ l, introduced_hoisted σ r]
    exact (List.append_nil _).symm
  | .funcCall _ args, n => by
    rw [hoisted, Setting.piecesOf, introduced_append, declaredTemps_append,
      introduced_hoistedArgs_counted σ args n 0]
    congr 1
    change introduced (if σ.counting then _ else []) = _
    split
    · exact introduced_hoistedArgs σ args _ 0
    · rfl
  | .newWithConstructor name args, n => by
    rw [hoisted, Setting.piecesOf]
    refine congrArg (tempName n :: ·) ?_
    change introduced (hoistedArgs σ.site (n + 1) args ++ usesInArgs args) =
      declaredTemps (σ.argPieces (n + 1) 0 args ++ _)
    rw [introduced_append, usesInArgs, introduced_uses, declaredTemps_append,
      introduced_hoistedArgs σ args (n + 1) 0]
    rfl
  | .methodCall e _ args, n => by
    rw [hoisted, Setting.piecesOf, introduced_append, declaredTemps_append, declaredTemps_under,
      introduced_hoisted σ e, introduced_hoistedArgs σ args _ 1]

theorem introduced_hoistedArgs (σ : Setting) : ∀ (es : List Expr) (n i : Nat),
    introduced (hoistedArgs σ.site n es) = declaredTemps (σ.argPieces n i es)
  | [], n, i => by
    rw [hoistedArgs, Setting.argPieces]
    rfl
  | e :: es, n, i => by
    rw [hoistedArgs, Setting.argPieces, introduced_append, declaredTemps_append,
      declaredTemps_under, introduced_hoisted σ e, introduced_hoistedArgs σ es _ (i + 1)]

theorem introduced_hoistedArgs_counted (σ : Setting) : ∀ (es : List Expr) (n i : Nat),
    introduced (hoistedArgs σ.site n es) = declaredTemps (σ.countedPieces n i es)
  | [], n, i => by
    rw [hoistedArgs, Setting.countedPieces]
    rfl
  | e :: es, n, i => by
    rw [hoistedArgs, Setting.countedPieces, introduced_append, declaredTemps_append,
      declaredTemps_under, introduced_hoisted σ e, Setting.argPiece, declaredTemps_count,
      introduced_hoistedArgs_counted σ es _ (i + 1)]

end

/-! ### Which names are declared -/

/-- The declarations among the events are of some names or of receivers, and temporaries have
their names. -/
def Fits (names : List Str) : Event → Prop
  | .declare x => x ∈ names ∨ x = "this" ∨ x = "this_param"
  | .introduce x => ∃ k, x = tempName k
  | .enter | .leave | .use _ => True

/-- All events fit. -/
def AllFit (names : List Str) (evs : List Event) : Prop := ∀ ev ∈ evs, Fits names ev

variable {names names' : List Str} {evs evs' : List Event}

theorem AllFit.append (h : AllFit names evs) (h' : AllFit names evs') :
    AllFit names (evs ++ evs') := by
  intro ev hev
  rcases List.mem_append.mp hev with hev | hev
  · exact h ev hev
  · exact h' ev hev

theorem AllFit.cons {ev : Event} (hev : Fits names ev) (h : AllFit names evs) :
    AllFit names (ev :: evs) := by
  intro ev' hev'
  rcases List.mem_cons.mp hev' with rfl | hev'
  · exact hev
  · exact h ev' hev'

theorem allFit_nil : AllFit names [] := nofun

theorem AllFit.braced (h : AllFit names evs) : AllFit names (braced evs) :=
  .append (.cons trivial h) (.cons trivial allFit_nil)

theorem allFit_uses (xs : List Str) : AllFit names (xs.map .use) := by
  intro ev hev
  obtain ⟨x, -, rfl⟩ := List.mem_map.mp hev
  trivial

theorem AllFit.mono (h : AllFit names evs) (hsub : names ⊆ names') : AllFit names' evs := by
  intro ev hev
  have hfits := h ev hev
  cases ev with
  | declare x => exact hfits.imp_left fun hx ↦ hsub hx
  | introduce x => exact hfits
  | enter | leave | use => trivial

mutual

theorem allFit_hoisted (σ : Site) : ∀ (e : Expr) (n : Nat), AllFit names (hoisted σ n e)
  | .paren e, n | .member e _, n | .pointerMember e _, n | .addressOf e, n | .dereference e, n
  | .postIncrement e, n | .postDecrement e, n | .preIncrement e, n | .preDecrement e, n => by
    rw [hoisted]
    exact allFit_hoisted σ e n
  | .ident _, n | .primaryLiteral _, n | .literal _, n | .var _, n | .new _, n
  | .structInit .., n => by
    rw [hoisted]
    exact allFit_nil
  | .mulDiv l _ r, n | .addSub l _ r, n | .compare l _ r, n | .assign l r, n
  | .arrayAccess l r, n => by
    rw [hoisted]
    exact (allFit_hoisted σ l n).append (allFit_hoisted σ r _)
  | .funcCall _ args, n => by
    rw [hoisted]
    refine (allFit_hoistedArgs σ args n).append ?_
    split
    · exact allFit_hoistedArgs σ args _
    · exact allFit_nil
  | .newWithConstructor _ args, n => by
    rw [hoisted]
    exact .append (.cons ⟨n, rfl⟩ (allFit_hoistedArgs σ args _)) (allFit_uses _)
  | .methodCall e _ args, n => by
    rw [hoisted]
    exact (allFit_hoisted σ e n).append (allFit_hoistedArgs σ args _)

theorem allFit_hoistedArgs (σ : Site) : ∀ (es : List Expr) (n : Nat),
    AllFit names (hoistedArgs σ n es)
  | [], n => by
    rw [hoistedArgs]
    exact allFit_nil
  | e :: es, n => by
    rw [hoistedArgs]
    exact (allFit_hoisted σ e n).append (allFit_hoistedArgs σ es _)

end

theorem allFit_exprEvents (e : Expr) (s : VState) : AllFit names (exprEvents e s) :=
  (allFit_hoisted _ e _).append (allFit_uses _)

theorem allFit_parentCall (call : Option (Ident × List Expr)) (s : VState) :
    AllFit names (parentCallEvents call s) := by
  cases call with
  | none => exact allFit_nil
  | some call => exact (allFit_hoistedArgs _ call.2 _).append (allFit_uses _)

/-! ### Parameters -/

variable {gen : CCodeGenerator} {s : VState}

theorem declaratorType_name (d : Declarator) :
    Post (declaratorType d) s fun p _ ↦ p.1 = declaredName d := by
  cases d with
  | plain t name =>
    unfold declaratorType
    rw [post_bind]
    exact ⟨fun _ _ _ ↦ post_pure.mpr rfl⟩
  | array t name sizes =>
    unfold declaratorType
    rw [post_bind]
    refine ⟨fun _ _ _ ↦ ?_⟩
    rw [post_bind]
    exact ⟨fun _ _ _ ↦ post_pure.mpr rfl⟩

theorem declaratorTypes_names (ds : List Declarator) : ∀ {s : VState},
    Post (declaratorTypes ds) s fun ps _ ↦ ps.map Prod.fst = ds.map declaredName := by
  induction ds with
  | nil => exact post_pure.mpr rfl
  | cons d ds ih =>
    intro s
    unfold declaratorTypes
    rw [post_bind]
    apply (declaratorType_name d).mono
    intro p s₁ hp
    rw [post_bind]
    apply ih.mono
    intro ps s₂ hps
    rw [post_pure, List.map_cons, List.map_cons, hp, hps]

/-- The parameters of a function are those of its declaration and its receiver. -/
def ParamsOf (params : List Declarator) (func : Function) : Prop :=
  ∀ p ∈ func.params, p.1 ∈ params.map declaredName ∨ p.1 = "this"

theorem paramsOf_openFunction (result : TypeSpec) (name : Ident) (params : List Declarator) :
    Post (openFunction result name params) s fun func _ ↦ ParamsOf params func := by
  unfold openFunction
  rw [post_bind]
  apply (declaratorTypes_names params).mono
  intro ps s₁ hps
  rw [post_bind]
  refine ⟨fun returnType s₂ _ ↦ ?_⟩
  refine post_bind.mpr (post_setCurrentFunc.mpr (post_bind.mpr (post_emit.mpr (post_pure.mpr ?_))))
  intro p hp
  refine .inl ?_
  rw [← hps]
  exact List.mem_map_of_mem hp

/-- The receiver and the parameters of a member. -/
theorem paramsOf_memberParams (classType : Ty) (params : List Declarator) :
    Post (memberParams classType params) s fun ps _ ↦
      ∀ p ∈ ps, p.1 ∈ params.map declaredName ∨ p.1 = "this" := by
  unfold memberParams
  rw [post_bind]
  apply (declaratorTypes_names params).mono
  intro ps s₁ hps
  rw [post_pure]
  intro p hp
  rcases List.mem_cons.mp hp with rfl | hp
  · exact .inr rfl
  · refine .inl ?_
    rw [← hps]
    exact List.mem_map_of_mem hp

theorem paramsOf_openConstructor (className : Str) (classType : Ty) (params : List Declarator) :
    Post (openConstructor className classType params) s fun func _ ↦ ParamsOf params func := by
  unfold openConstructor
  rw [post_bind]
  apply (paramsOf_memberParams classType params).mono
  intro ps s₁ hps
  exact post_bind.mpr (post_setCurrentFunc.mpr (post_pure.mpr hps))

theorem paramsOf_openMethod (className : Str) (classType : Ty) (virtualKeyword : Bool)
    (result : TypeSpec) (name : Ident) (params : List Declarator) (body : List Stmt) :
    Post (openMethod className classType virtualKeyword result name params body) s
      fun func _ ↦ ParamsOf params func := by
  unfold openMethod
  rw [post_bind]
  refine ⟨fun returnType s₁ _ ↦ ?_⟩
  rw [post_bind]
  refine ⟨fun isVirtual s₂ _ ↦ ?_⟩
  rw [post_bind]
  apply (paramsOf_memberParams classType params).mono
  intro ps s₃ hps
  refine post_bind.mpr (post_setCurrentFunc.mpr (post_bind.mpr ⟨fun _ s₄ _ ↦ ?_⟩))
  split
  · exact post_bind.mpr (post_emit.mpr (post_pure.mpr hps))
  · exact post_pure.mpr hps

theorem ParamsOf.allFit {params : List Declarator} {func : Function} (h : ParamsOf params func) :
    AllFit (params.map declaredName) (paramEvents func) := by
  intro ev hev
  obtain ⟨p, hp, rfl⟩ := List.mem_map.mp hev
  have hparam : ∀ p ∈ func.params, Fits (params.map declaredName) (.declare p.1) := fun p hp ↦
    (h p hp).imp_right .inl
  unfold cParams at hp
  split at hp
  · rcases List.mem_append.mp hp with hp | hp
    · exact hparam p (List.mem_of_head? (Option.mem_toList.mp hp))
    · rcases List.mem_cons.mp hp with rfl | hp
      · exact .inr (.inr rfl)
      · exact hparam p (List.mem_of_mem_tail hp)
  · exact hparam p hp

/-! ### Statements fit -/

mutual

theorem allFit_stmtEvents : ∀ (stmt : Stmt) (s : VState),
    AllFit (stmtNames stmt) (stmtEvents gen stmt s)
  | .varDecl d none, s => by
    rw [stmtNames, stmtEvents]
    exact .cons (.inl List.mem_cons_self) allFit_nil
  | .varDecl d (some e), s => by
    rw [stmtNames, stmtEvents]
    exact (allFit_hoisted _ e _).append (.cons (.inl List.mem_cons_self) (allFit_uses _))
  | .returnStmt none, s => by
    rw [stmtEvents]
    exact allFit_nil
  | .returnStmt (some e), s => by
    rw [stmtEvents]
    exact allFit_exprEvents e _
  | .exprStmt e, s => by
    rw [stmtEvents]
    exact allFit_exprEvents e s
  | .block body, s => by
    rw [stmtNames, stmtEvents]
    exact (allFit_stmtsEvents body _).braced
  | .ifStmt cond body none, s | .whileStmt cond body, s => by
    rw [stmtNames, stmtEvents]
    exact (allFit_exprEvents cond _).append (allFit_stmtEvents body _).braced
  | .ifStmt cond thenBranch (some elseBranch), s => by
    rw [stmtNames, stmtEvents]
    refine ((allFit_exprEvents cond _).append ?_).append ?_
    · exact (allFit_stmtEvents thenBranch _).braced.mono (List.subset_append_left _ _)
    · exact (allFit_stmtEvents elseBranch _).braced.mono (List.subset_append_right _ _)
  | .functionDecl result name params body, s => by
    rw [stmtNames, stmtEvents]
    split
    · next func s₁ hopen =>
      have hparams := (paramsOf_openFunction result name params).of_run _ _ hopen
      refine .cons (.inl List.mem_cons_self) (AllFit.braced (.append ?_ ?_))
      · refine hparams.allFit.mono ?_
        exact List.subset_cons_of_subset _ (List.subset_append_left _ _)
      · refine (allFit_stmtsEvents body _).mono ?_
        exact List.subset_cons_of_subset _ (List.subset_append_right _ _)
    · exact allFit_nil
  | .classDecl name parent members, s => by
    rw [stmtNames, stmtEvents]
    split
    · exact allFit_membersEvents _ _ members _
    · exact allFit_nil
  | .spawnStmt _, s | .structDecl _, s | .forStmt .., s | .typedefDecl .., s => by
    rw [stmtEvents]
    exact allFit_nil

theorem allFit_stmtsEvents : ∀ (stmts : List Stmt) (s : VState),
    AllFit (stmtsNames stmts) (stmtsEvents gen stmts s)
  | [], s => by
    rw [stmtsEvents]
    exact allFit_nil
  | stmt :: stmts, s => by
    rw [stmtsNames, stmtsEvents]
    exact .append ((allFit_stmtEvents stmt s).mono (List.subset_append_left _ _))
      ((allFit_stmtsEvents stmts _).mono (List.subset_append_right _ _))

theorem allFit_memberEvents (className : Str) (classType : Ty) : ∀ (m : ClassMember) (s : VState),
    AllFit (memberNames m) (memberEvents gen className classType m s)
  | .field _, s => by
    rw [memberEvents]
    exact allFit_nil
  | .constructor name params parentCall body, s => by
    rw [memberNames, memberEvents]
    split
    · next func s₁ hopen =>
      have hparams := (paramsOf_openConstructor className classType params).of_run _ _ hopen
      refine AllFit.braced (.append (.append ?_ (allFit_parentCall parentCall _)) ?_)
      · exact hparams.allFit.mono (List.subset_append_left _ _)
      · exact (allFit_stmtsEvents body _).braced.mono (List.subset_append_right _ _)
    · exact allFit_nil
  | .method virtualKeyword result name params body, s => by
    rw [memberNames, memberEvents]
    split
    · next func s₁ hopen =>
      have hparams := (paramsOf_openMethod _ _ _ _ _ params _).of_run _ _ hopen
      have hbody : AllFit (params.map declaredName ++ stmtsNames body)
          (stmtsEvents gen body (stateAfter openBlock s₁)) :=
        (allFit_stmtsEvents body _).mono (List.subset_append_right _ _)
      refine AllFit.braced (.append (hparams.allFit.mono (List.subset_append_left _ _)) ?_)
      split
      · exact hbody.braced
      · exact hbody
    · exact allFit_nil

theorem allFit_membersEvents (className : Str) (classType : Ty) : ∀ (ms : List ClassMember)
    (s : VState), AllFit (membersNames ms) (membersEvents gen className classType ms s)
  | [], s => by
    rw [membersEvents]
    exact allFit_nil
  | m :: ms, s => by
    rw [membersNames, membersEvents]
    exact .append ((allFit_memberEvents className classType m s).mono (List.subset_append_left _ _))
      ((allFit_membersEvents className classType ms _).mono (List.subset_append_right _ _))

end

private def classC : Ident := ⟨"C".toList, isIdentifier_C⟩

private def mainName : Ident := ⟨"main".toList, isIdentifier_main⟩

/-- Objects of class `C` can be created in the state. -/
private structure Creates (s : VState) : Prop where
  second : s.firstPass = false
  constructor : ∃ func, s.typeSystem.getClassConstructor classC.text = some func
  resolved : ∃ type, s.typeSystem.resolveType classC.text = .ok type

private theorem Creates.moved (h : Creates s) (text : Str) (n : Nat) : Creates (moved s text n) :=
  ⟨h.second, h.constructor, h.resolved⟩

/-- The function with a variable and creations. -/
private def mainFunc (s : VState) : Function :=
  { name := mainName.text, returnType := typeOf s.typeSystem .void }

/-- The state behind the header of the function. -/
private def header (s : VState) : VState :=
  wrote (withTable s { s.symbolTable with currentFunc := some (mainFunc s) })
    (generateFunctionDecl (mainFunc s))

/-- The state in which the body of the function is visited. -/
private def opened (s : VState) : VState := stateAfter openBlock (header s)

end JBLang.Emitted
