import JBLang.Ast.GlobalRoots

/-!
# Symbol lookup and the scopes of the emitted C

The second pass opens a scope where it visits a block. The emitted C has more braces, those around
the bodies of `if` and `while`, and declarations that are no symbols: parameters, temporaries, and
a variable inside its own initialiser. A scan of a program keeps both views in one list of
bindings, the innermost first, and notes each use of a variable name.
-/

namespace JBLang.Ast

open JBLang.Base JBLang.Types JBLang.Codegen

/-! ### Bindings -/

/-- Who has a declaration in view. -/
inductive Seen where
  | byBoth
  | byTable
  | byC
deriving DecidableEq

namespace Seen

/-- The declaration is in scope in the emitted C. -/
def inC : Seen → Bool
  | byBoth | byC => true
  | byTable => false

/-- The declaration is in a scope of the symbol table. -/
def inTable : Seen → Bool
  | byBoth | byTable => true
  | byC => false

end Seen

/-- A declaration of a name. -/
structure Binding where
  name : Str
  var : Variable
  seen : Seen

/-- The declaration of a variable with a type. -/
def binding (seen : Seen) (var : Str × Ty) : Binding :=
  { name := var.1, var := { name := var.1, type := var.2 }, seen }

/-- The declaration that a name refers to in the emitted C. -/
def cLookup (bs : List Binding) (name : Str) : Option Variable :=
  (bs.find? fun b ↦ b.seen.inC && b.name = name).map (·.var)

/-- The innermost declaration of a name in the scopes of the symbol table. -/
def tableLookup (bs : List Binding) (name : Str) : Option Variable :=
  (bs.find? fun b ↦ b.seen.inTable && b.name = name).map (·.var)

/-- What is left of a declaration behind the braces around it, if they open no scope. -/
def leaveBraces (b : Binding) : Option Binding :=
  if b.seen.inTable then some { b with seen := .byTable } else none

/-- The bindings behind a closing brace; `outer` of them stand before the opening one. -/
def closeBraces (outer : Nat) (bs : List Binding) : List Binding :=
  (bs.take (bs.length - outer)).filterMap leaveBraces ++ bs.drop (bs.length - outer)

/-! ### Uses -/

/-- A use of a variable name in the second pass: the declarations around it and the symbol table
of the visit. -/
structure Use where
  name : Str
  bindings : List Binding
  table : SymbolTable

/-- The parameter of the current function that has a name. -/
def currentParam (st : SymbolTable) (name : Str) : Option Variable :=
  st.currentFunc.bind fun func ↦
    (func.params.find? (·.1 = name)).map fun p ↦ { name := name, type := p.2 }

namespace Use

/-- Where the name refers to a declaration in the emitted C, the symbol table returns it. -/
def Agrees (u : Use) : Prop :=
  ∀ v, cLookup u.bindings u.name = some v → u.table.lookupSymbol u.name = some v

end Use

/-! ### The scan of a program -/

mutual

/-- The variable names in the text of an expression. The arguments of a constructor stand in a
statement before it, unless the text is copied from the source. -/
def namesIn (copied : Bool) : Expr → List Str
  | .paren e | .member e _ | .pointerMember e _ | .addressOf e | .dereference e
  | .postIncrement e | .postDecrement e | .preIncrement e | .preDecrement e => namesIn copied e
  | .ident name => [name.text]
  | .primaryLiteral _ | .literal _ | .var _ | .new _ => []
  | .funcCall _ args => namesInArgs copied args
  | .mulDiv left _ right | .addSub left _ right | .compare left _ right | .assign left right
  | .arrayAccess left right => namesIn copied left ++ namesIn copied right
  | .newWithConstructor _ args => if copied then namesInArgs copied args else []
  | .methodCall e _ args => namesIn copied e ++ namesInArgs copied args
  | .structInit inits _ => namesInInits inits

/-- The variable names in the arguments of a call. -/
def namesInArgs (copied : Bool) : List Expr → List Str
  | [] => []
  | e :: es => namesIn copied e ++ namesInArgs copied es

/-- The variable names in a list of initialisers, which are copied. -/
def namesInInits : List Initializer → List Str
  | [] => []
  | .mk _ value :: is => namesIn true value ++ namesInInits is

end

/-- A point of the scan: the uses so far, the declarations around it, and the state of the
visit. -/
structure Scan where
  uses : List Use
  bindings : List Binding
  state : VState

namespace Scan

variable {α : Type}

/-- The scan goes on where a part of the visit ends. -/
def after (c : Scan) (m : VisitM α) : Scan :=
  match m.run c.state with
  | .ok (_, s) => { c with state := s }
  | .error _ => c

/-- Note the uses of some names. -/
def use (c : Scan) (names : List Str) : Scan :=
  { c with uses := c.uses ++ names.map fun name ↦ ⟨name, c.bindings, c.state.symbolTable⟩ }

/-- Add declarations. -/
def declare (c : Scan) (seen : Seen) (vars : List (Str × Ty)) : Scan :=
  { c with bindings := vars.map (binding seen) ++ c.bindings }

/-- The next temporary, which is a pointer to an object of a class. -/
def takeTemp (c : Scan) (className : Str) : Scan :=
  match c.state.typeSystem.resolveType className with
  | .ok classType =>
    let tempVar : Str := "temp_" ++ decimal c.state.tempVarCounter
    { c.declare .byC [(tempVar, classType.setPointer)] with
      state := { c.state with tempVarCounter := c.state.tempVarCounter + 1 } }
  | .error _ => c

end Scan

mutual

/-- What the visit of an expression writes before the statement it stands in: the temporaries,
and the calls of constructors with the uses in their arguments. -/
def hoist : Expr → Scan → Scan
  | .paren e, c | .member e _, c | .pointerMember e _, c | .addressOf e, c | .dereference e, c
  | .postIncrement e, c | .postDecrement e, c | .preIncrement e, c | .preDecrement e, c => hoist e c
  | .ident _, c | .primaryLiteral _, c | .literal _, c | .var _, c | .new _, c
  | .structInit _ _, c => c
  -- Arguments are visited again for their releases.
  | .funcCall _ args, c =>
    if c.state.addRefCounts then hoistArgs args (hoistArgs args c) else hoistArgs args c
  | .mulDiv left _ right, c | .addSub left _ right, c | .compare left _ right, c
  | .assign left right, c | .arrayAccess left right, c => hoist right (hoist left c)
  | .newWithConstructor name args, c =>
    (hoistArgs args (c.takeTemp name.text)).use (namesInArgs false args)
  | .methodCall e _ args, c => hoistArgs args (hoist e c)

/-- The same for arguments. -/
def hoistArgs : List Expr → Scan → Scan
  | [], c => c
  | e :: es, c => hoistArgs es (hoist e c)

end

variable (gen : CCodeGenerator)

/-- The parameters of a function in the emitted C. A virtual method has its receiver as a local
variable. -/
def cParams (func : Function) : List (Str × Ty) :=
  if func.isVirtual then
    func.params.head?.toList ++ ("this_param".toList, { base := .void, isPointer := true }) ::
      func.params.tail
  else func.params

/-- The beginning of `inBlock`. -/
def openBlock : VisitM Unit := do
  modifySymbols (·.enterScope)
  secondPassOnly (emit generateScopeEntry)

/-- The visit of a function up to its body. -/
def openFunction (result : TypeSpec) (name : Ident) (params : List Declarator) :
    VisitM Function := do
  let params ← declaratorTypes params
  let returnType ← resolveTypeFromContext result
  let func : Function := { name := name.text, params, returnType }
  setCurrentFunc func
  emit (generateFunctionDecl func)
  return func

/-- The visit of a constructor up to its prologue. -/
def openConstructor (className : Str) (classType : Ty) (params : List Declarator) :
    VisitM Function := do
  let params ← memberParams classType params
  let constructor : Function := { name := className ++ "_" ++ className, params }
  setCurrentFunc constructor
  return constructor

/-- The visit of a method up to its body. -/
def openMethod (className : Str) (classType : Ty) (virtualKeyword : Bool) (result : TypeSpec)
    (name : Ident) (params : List Declarator) (body : List Stmt) : VisitM Function := do
  let returnType ← resolveTypeFromContext result
  let methodText := (ClassMember.method virtualKeyword result name params body).getText
  let isVirtual ← askTypes fun ts ↦ methodIsVirtual ts classType name.text methodText
  let params ← memberParams classType params
  let method : Function := { name := className ++ "_" ++ name.text, params, returnType, isVirtual }
  setCurrentFunc method
  defineMethod method
  if isVirtual then
    emit (" \x7b\n    struct " ++ className ++ "* this = (struct " ++ className ++ "*)this_param;\n")
    return method
  else return method

/-- The uses in an expression: those written before the statement, and those in its text. -/
def scanExpr (e : Expr) (c : Scan) : Scan := (hoist e c).use (namesIn false e)

/-- The uses in an expression that is visited without reference counting. -/
def scanUncounted (e : Expr) (c : Scan) : Scan := scanExpr e (c.after (setAddRefCounts false))

/-- The scan of a condition up to the opening brace behind it. -/
def scanCondition (keyword : Str) (cond : Expr) (c : Scan) : Scan :=
  { scanUncounted cond c with
    state := (c.after do visitCondition gen ((← indentLevel) ++ keyword) cond ") \x7b\n").state }

/-- The arguments for the constructor of the parent class. -/
def scanParentCall : Option (Ident × List Expr) → Scan → Scan
  | none, c => c
  | some (_, args), c => (hoistArgs args c).use (namesInArgs false args)

/-- The scan inside a function that a part of the visit opens. -/
def inFunction (c : Scan) (m : VisitM Function) (body : Function → Scan → Scan) : List Use :=
  match m.run c.state with
  | .ok (func, s) => (body func ({ c with state := s }.declare .byC (cParams func))).uses
  | .error _ => c.uses

mutual

/-- The scan of a statement in the second pass. It ends in the state in which the visit ends. -/
def scanStmt : Stmt → Scan → Scan
  | .varDecl d none, c =>
    { c.declare .byBoth (declaredIn d c.state) with
      state := (c.after (visitVarDecl gen d none)).state }
  | .varDecl d (some e), c =>
    let c₁ := hoist e c
    -- In its own initialiser the variable is in scope in C but no symbol yet.
    let c₂ := { c₁.declare .byC (declaredIn d c.state) with
      state := c.state }.use (namesIn false e)
    { c₁.declare .byBoth (declaredIn d c.state) with
      uses := c₂.uses
      state := (c.after (visitVarDecl gen d (some e))).state }
  | .returnStmt none, c => c
  | .returnStmt (some e), c =>
    { scanUncounted e c with state := (c.after (visitReturnStmt gen (some e))).state }
  | .exprStmt e, c => { scanExpr e c with state := (c.after (visitExprStmt gen e)).state }
  | .block body, c =>
    { c with
      uses := (scanStmts body (c.after openBlock)).uses
      state := (c.after (visitStmt gen (.block body))).state }
  | .ifStmt cond thenBranch none, c =>
    let c₁ := scanCondition gen "if (" cond c
    let c₂ := scanStmt thenBranch c₁
    { uses := c₂.uses
      bindings := closeBraces c₁.bindings.length c₂.bindings
      state := (c.after (visitStmt gen (.ifStmt cond thenBranch none))).state }
  | .ifStmt cond thenBranch (some elseBranch), c =>
    let c₁ := scanCondition gen "if (" cond c
    let c₂ := scanStmt thenBranch c₁
    let c₃ := { c₂ with bindings := closeBraces c₁.bindings.length c₂.bindings }.after do
      emit "\x7d\n"
      emit ((← indentLevel) ++ "else \x7b\n")
    let c₄ := scanStmt elseBranch c₃
    { uses := c₄.uses
      bindings := closeBraces c₃.bindings.length c₄.bindings
      state := (c.after (visitStmt gen (.ifStmt cond thenBranch (some elseBranch)))).state }
  | .whileStmt cond body, c =>
    let c₁ := scanCondition gen "while (" cond c
    let c₂ := scanStmt body c₁
    { uses := c₂.uses
      bindings := closeBraces c₁.bindings.length c₂.bindings
      state := (c.after (visitStmt gen (.whileStmt cond body))).state }
  | .functionDecl result name params body, c =>
    { c with
      uses := inFunction c (openFunction result name params) fun _ c ↦
        scanStmts body (c.after openBlock)
      state := (c.after (visitStmt gen (.functionDecl result name params body))).state }
  | .classDecl name parent members, c =>
    match (getClassFromCode name parent members).run c.state with
    | .ok (classType, s) =>
      scanMembers name.text classType members
        ({ c with state := s }.after (announceClass name.text classType))
    | .error _ => c
  -- The second pass skips loops with `for`.
  | .spawnStmt e, c => c.after (visitStmt gen (.spawnStmt e))
  | .structDecl d, c => c.after (visitStmt gen (.structDecl d))
  | .forStmt init cond step body, c => c.after (visitStmt gen (.forStmt init cond step body))
  | .typedefDecl body name, c => c.after (visitStmt gen (.typedefDecl body name))

/-- The statements of a list, in order. -/
def scanStmts : List Stmt → Scan → Scan
  | [], c => c
  | s :: ss, c => scanStmts ss (scanStmt s c)

/-- The scan of a member of a class. -/
def scanMember (className : Str) (classType : Ty) : ClassMember → Scan → Scan
  | .field _, c => c
  | .constructor name params parentCall body, c =>
    { c with
      uses := inFunction c (openConstructor className classType params) fun constructor c ↦
        let c₁ := scanParentCall parentCall c
        scanStmts body ({ c₁ with
          state := (c.after (constructorPrologue gen className classType constructor
            parentCall)).state }.after openBlock)
      state := (c.after (visitMember gen className classType
        (.constructor name params parentCall body))).state }
  | .method virtualKeyword result name params body, c =>
    { c with
      uses := inFunction c (openMethod className classType virtualKeyword result name params body)
        fun _ c ↦ scanStmts body (c.after openBlock)
      state := (c.after (visitMember gen className classType
        (.method virtualKeyword result name params body))).state }

/-- The members of a class, in order. -/
def scanMembers (className : Str) (classType : Ty) : List ClassMember → Scan → Scan
  | [], c => c
  | m :: ms, c => scanMembers className classType ms (scanMember className classType m c)

end

/-- The scopes have for each name the innermost declaration in the view of the symbol table. -/
def Matches (bs : List Binding) (st : SymbolTable) : Prop :=
  ∀ name, SymbolTable.findInScopes name st.scopes = tableLookup bs name

variable {bs : List Binding} {st st' : SymbolTable} {name : Str}

theorem tableLookup_cons (b : Binding) : tableLookup (b :: bs) name =
    if b.seen.inTable = true ∧ b.name = name then some b.var else tableLookup bs name := by
  by_cases h : b.seen.inTable = true ∧ b.name = name
  · rw [tableLookup, List.find?_cons_of_pos (by simpa using h), if_pos h]
    rfl
  · rw [tableLookup, List.find?_cons_of_neg (by simpa using h), if_neg h]
    rfl

/-- Declarations that are no symbols are out of view. -/
theorem tableLookup_byC (vars : List (Str × Ty)) :
    tableLookup (vars.map (binding .byC) ++ bs) name = tableLookup bs name := by
  induction vars with
  | nil => rfl
  | cons var vars ih =>
    rw [List.map_cons, List.cons_append, tableLookup_cons, if_neg (by simp [binding, Seen.inTable]),
      ih]

/-- Braces that open no scope keep the view. -/
theorem tableLookup_closeBraces (outer : Nat) :
    tableLookup (closeBraces outer bs) name = tableLookup bs name := by
  have hleave : ∀ inner outside : List Binding,
      tableLookup (inner.filterMap leaveBraces ++ outside) name =
        tableLookup (inner ++ outside) name := by
    intro inner outside
    induction inner with
    | nil => rfl
    | cons b inner ih =>
      obtain ⟨x, var, seen⟩ := b
      cases seen <;>
        simp [leaveBraces, Seen.inTable, tableLookup_cons, ih]
  rw [closeBraces, hleave, List.take_append_drop]

theorem Matches.of_scopes (h : Matches bs st) (hscopes : st'.scopes = st.scopes) :
    Matches bs st' := by
  intro name
  rw [hscopes]
  exact h name

theorem Matches.enterScope (h : Matches bs st) : Matches bs st.enterScope := by
  intro name
  have hempty : (∅ : NameMap Variable)[name]? = none := Std.TreeMap.getElem?_emptyc
  rw [SymbolTable.enterScope, SymbolTable.findInScopes, hempty]
  exact h name

/-- A new symbol is the innermost declaration. -/
theorem Matches.addSymbol {var : Str × Ty} (h : Matches bs st)
    (hst : st.addSymbol var.1 var.2 = .ok st') : Matches (binding .byBoth var :: bs) st' := by
  intro name
  have hname := h name
  unfold SymbolTable.addSymbol at hst
  split at hst
  · cases hst
  · next scope scopes hscopes =>
    cases hst
    rw [hscopes, SymbolTable.findInScopes] at hname
    rw [tableLookup_cons, SymbolTable.findInScopes, Std.TreeMap.getElem?_insert]
    by_cases heq : var.1 = name
    · simp [binding, Seen.inTable, heq]
    · simpa [binding, heq] using hname

/-! ### The scan and the visit -/

variable {gen} {c c' : Scan} {s s' : VState} {α : Type}

namespace Scan

/-- A point of the second pass at which the view of the symbol table is right, as it was at all
uses before. -/
structure Sound (c : Scan) : Prop where
  second : c.state.firstPass = false
  nonempty : c.state.symbolTable.scopes ≠ []
  view : Matches c.bindings c.state.symbolTable
  uses : ∀ u ∈ c.uses, Matches u.bindings u.table

theorem after_of_run {m : VisitM α} {a : α} (h : m.run c.state = .ok (a, s)) :
    c.after m = { c with state := s } := by
  rw [after, h]

theorem Sound.use (h : c.Sound) (names : List Str) : (c.use names).Sound := by
  refine ⟨h.second, h.nonempty, h.view, fun u hu ↦ ?_⟩
  obtain hu | hu := List.mem_append.mp hu
  · exact h.uses u hu
  · obtain ⟨name, -, rfl⟩ := List.mem_map.mp hu
    exact h.view

theorem Sound.declareC (h : c.Sound) (vars : List (Str × Ty)) : (c.declare .byC vars).Sound :=
  ⟨h.second, h.nonempty, fun name ↦ (h.view name).trans (tableLookup_byC vars).symm, h.uses⟩

/-- The scan goes on in a state with the same scopes. -/
theorem Sound.move (h : c.Sound) (hs : KeepsScopes [] c.state s) :
    Sound { c with state := s } := by
  obtain ⟨vars, hvars, hscopes, -⟩ := hs.declared
  cases hvars
  have hsame : s.symbolTable.scopes = c.state.symbolTable.scopes := by
    rw [hscopes]
    cases c.state.symbolTable.scopes <;> rfl
  exact ⟨hs.firstPass.trans h.second, hs.nonempty h.nonempty, h.view.of_scopes hsame, h.uses⟩

theorem Sound.closeBraces (h : c.Sound) (outer : Nat) :
    Sound { c with bindings := Ast.closeBraces outer c.bindings } :=
  ⟨h.second, h.nonempty, fun name ↦ (h.view name).trans (tableLookup_closeBraces outer).symm,
    h.uses⟩

/-- What is hoisted leaves the symbol table as it is. -/
structure Hoists (c c' : Scan) : Prop where
  symbolTable : c'.state.symbolTable = c.state.symbolTable
  sound : c.Sound → c'.Sound

theorem Hoists.refl (c : Scan) : Hoists c c := ⟨rfl, id⟩

theorem Hoists.trans {c'' : Scan} (h : Hoists c c') (h' : Hoists c' c'') : Hoists c c'' :=
  ⟨h'.symbolTable.trans h.symbolTable, h'.sound ∘ h.sound⟩

theorem hoists_use (c : Scan) (names : List Str) : Hoists c (c.use names) := ⟨rfl, (·.use names)⟩

theorem hoists_takeTemp (c : Scan) (className : Str) : Hoists c (c.takeTemp className) := by
  unfold takeTemp
  split
  · exact ⟨rfl, fun h ↦ ⟨h.second, h.nonempty, (h.declareC _).view, h.uses⟩⟩
  · exact .refl c

end Scan

open Scan

mutual

theorem hoists_hoist : ∀ (e : Expr) (c : Scan), Hoists c (hoist e c)
  | .paren e, c | .member e _, c | .pointerMember e _, c | .addressOf e, c | .dereference e, c
  | .postIncrement e, c | .postDecrement e, c | .preIncrement e, c | .preDecrement e, c => by
    unfold hoist
    exact hoists_hoist e c
  | .ident _, c | .primaryLiteral _, c | .literal _, c | .var _, c | .new _, c
  | .structInit _ _, c => by
    unfold hoist
    exact .refl c
  | .funcCall _ args, c => by
    unfold hoist
    split
    · exact (hoists_hoistArgs args c).trans (hoists_hoistArgs args _)
    · exact hoists_hoistArgs args c
  | .mulDiv left _ right, c | .addSub left _ right, c | .compare left _ right, c
  | .assign left right, c | .arrayAccess left right, c => by
    unfold hoist
    exact (hoists_hoist left c).trans (hoists_hoist right _)
  | .newWithConstructor name args, c => by
    unfold hoist
    exact ((hoists_takeTemp c name.text).trans (hoists_hoistArgs args _)).trans (hoists_use _ _)
  | .methodCall e _ args, c => by
    unfold hoist
    exact (hoists_hoist e c).trans (hoists_hoistArgs args _)

theorem hoists_hoistArgs : ∀ (es : List Expr) (c : Scan), Hoists c (hoistArgs es c)
  | [], c => by
    unfold hoistArgs
    exact .refl c
  | e :: es, c => by
    unfold hoistArgs
    exact (hoists_hoist e c).trans (hoists_hoistArgs es _)

end

theorem hoists_scanExpr (e : Expr) (c : Scan) : Hoists c (scanExpr e c) :=
  (hoists_hoist e c).trans (hoists_use _ _)

theorem hoists_scanParentCall (call : Option (Ident × List Expr)) (c : Scan) :
    Hoists c (scanParentCall call c) := by
  cases call with
  | none => exact .refl c
  | some call => exact (hoists_hoistArgs call.2 c).trans (hoists_use _ _)

/-- After what is hoisted the scan goes on in a state with the scopes of before. -/
theorem Scan.Hoists.move (h : Hoists c c') (hc : c.Sound) (hs : KeepsScopes [] c.state s) :
    Sound { c' with state := s } := by
  have hsound := h.sound hc
  have hmoved := hc.move hs
  refine ⟨hmoved.second, hmoved.nonempty, ?_, hsound.uses⟩
  have hview : Matches c'.bindings c.state.symbolTable := by
    rw [← h.symbolTable]
    exact hsound.view
  intro name
  exact ((hmoved.view name).trans (hc.view name).symm).trans (hview name)

/-- The uses in an expression that is visited without counting, and the state behind it. -/
theorem scanUncounted_move (e : Expr) (hc : c.Sound) (hs : KeepsScopes [] c.state s) :
    Sound { scanUncounted e c with state := s } := by
  have hset : (setAddRefCounts false).run c.state =
    .ok ((), { c.state with addRefCounts := false }) := rfl
  unfold scanUncounted
  rw [after_of_run hset]
  have hkeeps : KeepsScopes [] c.state { c.state with addRefCounts := false } :=
    .of_same ⟨rfl, rfl⟩
  refine (hoists_scanExpr e _).move (hc.move hkeeps) ?_
  exact ⟨hs.firstPass, hs.declared⟩

theorem keeps_of_quiet {m : VisitM α} {a : α} (hm : Quiet m) (h : m.run s = .ok (a, s')) :
    KeepsScopes [] s s' :=
  (hm.visits s).of_run h

/-- A declaration adds its variable in the second pass. -/
theorem visitVarDecl_symbol (hs : s.firstPass = false) (d : Declarator) (init : Option Expr) :
    Post (visitVarDecl gen d init) s fun _ s' ↦ s'.firstPass = false ∧
      ∃ var, declaredIn d s = [var] ∧ s.symbolTable.addSymbol var.1 var.2 = .ok s'.symbolTable := by
  simp only [visitVarDecl, post_bind, post_indentLevel]
  apply (Post.run_eq.and (declaratorType_frame d)).mono
  rintro ⟨varName, varType⟩ s ⟨hrun, rfl⟩
  have hvar : declaredIn d s = [(varName, varType)] := by rw [declaredIn, hrun]
  simp only [rememberGlobal, post_bind, post_get, hs, Bool.and_false, Bool.false_eq_true, if_false,
    post_pure]
  refine secondPassOnly_of_second hs ⟨fun _ s₁ hdeclare ↦ ?_⟩
  have hsame := (quiet_declareVar _ _ _ _ s).of_run hdeclare
  refine post_addSymbol.mpr fun st hst ↦ ⟨hsame.firstPass.trans hs, _, hvar, ?_⟩
  rwa [hsame.symbolTable] at hst

/-- After a declaration the scan has its variable in both views. -/
theorem Scan.Sound.declared {init : Option Expr} {d : Declarator} (hc : c.Sound)
    (h : Hoists c c') (hrun : (visitVarDecl gen d init).run c.state = .ok ((), s)) :
    Sound { c'.declare .byBoth (declaredIn d c.state) with state := s } := by
  obtain ⟨hpass, var, hvar, hadd⟩ := (visitVarDecl_symbol hc.second d init).of_run _ _ hrun
  have hkeeps := (visits_visitVarDecl d init hc.nonempty).of_run hrun
  have hview : Matches c'.bindings c.state.symbolTable := by
    rw [← h.symbolTable]
    exact (h.sound hc).view
  refine ⟨hpass, hkeeps.nonempty hc.nonempty, ?_, (h.sound hc).uses⟩
  rw [hvar]
  exact hview.addSymbol hadd

/-! ### Bodies -/

theorem openBlock_run (hs : s.firstPass = false) : openBlock.run s =
    .ok ((), { s with
      symbolTable := s.symbolTable.enterScope, output := s.output ++ generateScopeEntry }) := by
  simp only [openBlock, secondPassOnly, inFirstPass, modifySymbols, emit, StateT.run_bind,
    StateT.run_modify, StateT.run_get, StateT.run_pure, pure_bind, hs]
  rfl

/-- The statements of a block are visited behind its opening brace. -/
theorem Scan.Sound.openBlock {statements : VisitM Unit} (hc : c.Sound)
    (hrun : (inBlock gen statements).run c.state = .ok ((), s)) :
    (c.after openBlock).Sound ∧
      ∃ s', statements.run (c.after Ast.openBlock).state = .ok ((), s') := by
  have hopen := openBlock_run hc.second
  rw [after_of_run hopen]
  refine ⟨⟨hc.second, List.cons_ne_nil _ _, hc.view.enterScope, hc.uses⟩, ?_⟩
  obtain ⟨_, s₁, hopen₁, hrest⟩ := run_bind_eq_ok.mp hrun
  obtain ⟨_, s₂, hopen₂, hrest⟩ := run_bind_eq_ok.mp hrest
  have hboth := (run_bind_eq_ok.mpr ⟨_, s₁, hopen₁, hopen₂⟩ : Ast.openBlock.run c.state = _)
  obtain ⟨_, s₃, ⟨⟩, hrest⟩ := run_bind_eq_ok.mp hrest
  obtain ⟨_, s₄, hbody, -⟩ := run_bind_eq_ok.mp hrest
  cases hopen.symm.trans hboth
  exact ⟨s₄, hbody⟩

theorem visits_openFunction (result : TypeSpec) (name : Ident) (params : List Declarator) :
    Visits (openFunction result name params) [] s :=
  Quiet.then_visits (quiet_declaratorTypes params) fun _ _ _ ↦
    Quiet.then_visits (quiet_resolveTypeFromContext result) fun _ _ _ ↦
      (visits_setCurrentFunc _).then_quiet fun _ ↦ quiet_bind (quiet_emit _) fun _ ↦ quiet_pure _

theorem visits_openConstructor (className : Str) (classType : Ty) (params : List Declarator) :
    Visits (openConstructor className classType params) [] s :=
  Quiet.then_visits (quiet_memberParams classType params) fun _ _ _ ↦
    (visits_setCurrentFunc _).then_quiet fun _ ↦ quiet_pure _

theorem visits_openMethod (className : Str) (classType : Ty) (virtualKeyword : Bool)
    (result : TypeSpec) (name : Ident) (params : List Declarator) (body : List Stmt) :
    Visits (openMethod className classType virtualKeyword result name params body) [] s := by
  refine Quiet.then_visits (quiet_resolveTypeFromContext result) fun _ _ _ ↦ ?_
  refine Quiet.then_visits (quiet_methodIsVirtual classType name.text _) fun isVirtual _ _ ↦ ?_
  refine Quiet.then_visits (quiet_memberParams classType params) fun _ _ _ ↦ ?_
  refine (visits_setCurrentFunc _).then_quiet fun _ ↦ quiet_bind (quiet_defineMethod _) fun _ ↦ ?_
  cases isVirtual with
  | false => exact quiet_pure _
  | true => exact quiet_bind (quiet_emit _) fun _ ↦ quiet_pure _

variable {params : List Declarator} {body : List Stmt} {className : Str} {classType : Ty}
  {p : Program} {b : Binding}

variable {result : TypeSpec} {uses : List Use} {keyword : Str} {stmt : Stmt} {cond : Expr}

/-- The visit of a function in the second pass goes through its opening to its body. -/
theorem functionDecl_run {name : Ident} (hs : s.firstPass = false) :
    Post (visitStmt gen (.functionDecl result name params body)) s fun _ _ ↦ ∃ func s₁ s₂,
      (openFunction result name params).run s = .ok (func, s₁) ∧
        (inBlock gen (visitStmts gen body)).run s₁ = .ok ((), s₂) := by
  simp only [visitStmt, post_bind]
  refine ⟨fun params' s₁ hparams ↦ ⟨fun returnType s₂ hresult ↦ ?_⟩⟩
  have hs₂ : s₂.firstPass = false := by
    rw [(Quiet.same (quiet_resolveTypeFromContext _) hresult).firstPass,
      (Quiet.same (quiet_declaratorTypes _) hparams).firstPass, hs]
  refine firstPassOnly_of_second hs₂ (post_setCurrentFunc.mpr ?_)
  refine secondPassOnly_of_second hs₂ (post_bind.mpr (post_emit.mpr ⟨fun _ s₃ hbody ↦ ?_⟩))
  refine post_setCurrentFunc.mpr ⟨{ name := name.text, params := params', returnType }, _, s₃, ?_,
    hbody⟩
  exact run_bind_eq_ok.mpr ⟨_, _, hparams, run_bind_eq_ok.mpr ⟨_, _, hresult, rfl⟩⟩

/-- The visit of a constructor goes through its opening and its prologue to its body. -/
theorem constructor_run {name : Ident} {parentCall : Option (Ident × List Expr)}
    (hs : s.firstPass = false) :
    Post (visitMember gen className classType (.constructor name params parentCall body)) s
      fun _ _ ↦ ∃ constructor s₁ s₂ s₃,
        (openConstructor className classType params).run s = .ok (constructor, s₁) ∧
          (constructorPrologue gen className classType constructor parentCall).run s₁ =
            .ok ((), s₂) ∧ (inBlock gen (visitStmts gen body)).run s₂ = .ok ((), s₃) := by
  simp only [visitMember, post_bind]
  refine ⟨fun params' s₁ hparams ↦ ?_⟩
  have hs₁ : s₁.firstPass = false := by
    rw [(Quiet.same (quiet_memberParams _ _) hparams).firstPass, hs]
  refine firstPassOnly_of_second hs₁ (post_setCurrentFunc.mpr ?_)
  refine secondPassOnly_of_second hs₁ ⟨fun _ s₂ hprologue ↦ ⟨fun _ s₃ hbody ↦ ?_⟩⟩
  have hmember : ∃ constructor s₁ s₂ s₃,
      (openConstructor className classType params).run s = .ok (constructor, s₁) ∧
        (constructorPrologue gen className classType constructor parentCall).run s₁ =
          .ok ((), s₂) ∧ (inBlock gen (visitStmts gen body)).run s₂ = .ok ((), s₃) :=
    ⟨_, _, s₂, s₃, run_bind_eq_ok.mpr ⟨_, _, hparams, rfl⟩, hprologue, hbody⟩
  exact ⟨fun _ _ _ ↦ post_setCurrentFunc.mpr hmember⟩

/-- The visit of a method goes through its opening to its body. -/
theorem method_run {virtualKeyword : Bool} {name : Ident} (hs : s.firstPass = false) :
    Post (visitMember gen className classType (.method virtualKeyword result name params body)) s
      fun _ _ ↦ ∃ method s₁ s₂,
        (openMethod className classType virtualKeyword result name params body).run s =
          .ok (method, s₁) ∧ (inBlock gen (visitStmts gen body)).run s₁ = .ok ((), s₂) := by
  simp only [visitMember, post_bind]
  refine ⟨fun returnType s₁ hresult ↦ ⟨fun isVirtual s₂ hvirtual ↦ ⟨fun params' s₃ hparams ↦ ?_⟩⟩⟩
  have hs₃ : s₃.firstPass = false := by
    rw [(Quiet.same (quiet_memberParams _ _) hparams).firstPass,
      (Quiet.same (quiet_methodIsVirtual _ _ _) hvirtual).firstPass,
      (Quiet.same (quiet_resolveTypeFromContext _) hresult).firstPass, hs]
  refine firstPassOnly_of_second hs₃ (post_setCurrentFunc.mpr ?_)
  refine secondPassOnly_of_second hs₃ ⟨fun _ s₄ hdefine ↦ ⟨fun _ s₅ hbody ↦ ?_⟩⟩
  have hs₄ : s₄.firstPass = false :=
    (Quiet.same (quiet_defineMethod _) hdefine).firstPass.trans hs₃
  refine post_setCurrentFunc.mpr ?_
  cases isVirtual with
  | false =>
    let method : Function := { name := className ++ "_" ++ name.text, params := params', returnType }
    refine ⟨method, s₄, s₅, ?_, hbody⟩
    exact run_bind_eq_ok.mpr ⟨_, _, hresult, run_bind_eq_ok.mpr ⟨_, _, hvirtual,
      run_bind_eq_ok.mpr ⟨_, _, hparams, run_bind_eq_ok.mpr ⟨(), _, rfl,
        run_bind_eq_ok.mpr ⟨(), _, hdefine, rfl⟩⟩⟩⟩⟩
  | true =>
    have hinner : Post (methodBody className true (inBlock gen (visitStmts gen body))) s₄
        fun _ _ ↦ ∃ s₂, (inBlock gen (visitStmts gen body)).run { s₄ with
          output := s₄.output ++ (" \x7b\n    struct " ++ className ++ "* this = (struct " ++
            className ++ "*)this_param;\n") } = .ok ((), s₂) := by
      refine secondPassOnly_of_second hs₄ (post_bind.mpr (post_emit.mpr (post_bind.mpr ?_)))
      exact ⟨fun _ s₂ hblock ↦ post_emit.mpr ⟨s₂, hblock⟩⟩
    obtain ⟨s₂, hblock⟩ := hinner.of_run _ _ hbody
    let method : Function :=
      { name := className ++ "_" ++ name.text, params := params', returnType, isVirtual := true }
    refine ⟨method, _, s₂, ?_, hblock⟩
    exact run_bind_eq_ok.mpr ⟨_, _, hresult, run_bind_eq_ok.mpr ⟨_, _, hvirtual,
      run_bind_eq_ok.mpr ⟨_, _, hparams, run_bind_eq_ok.mpr ⟨(), _, rfl,
        run_bind_eq_ok.mpr ⟨(), _, hdefine, rfl⟩⟩⟩⟩⟩

/-- Inside a function the scan has its parameters in the view of C. -/
theorem Scan.Sound.inFunction {m : VisitM Function} {func : Function}
    {body : Function → Scan → Scan} (hc : c.Sound) (hm : m.run c.state = .ok (func, s))
    (hs : KeepsScopes [] c.state s)
    (hbody : ∀ c₁ : Scan, c₁.Sound → c₁.state = s → (body func c₁).Sound) :
    ∀ u ∈ inFunction c m body, Matches u.bindings u.table := by
  unfold Ast.inFunction
  rw [hm]
  exact (hbody _ ((hc.move hs).declareC (cParams func)) rfl).uses

/-! ### Statements -/

/-- The scan has reached the state in which a visit ends, with the right view. -/
structure Reaches (c : Scan) (s : VState) : Prop where
  sound : c.Sound
  state : c.state = s

/-- Statements that declare nothing and use no name. -/
theorem reaches_after (hc : c.Sound) (hdecls : outerDecls c.state.firstPass stmt = [])
    (hrun : (visitStmt gen stmt).run c.state = .ok ((), s)) :
    Reaches (c.after (visitStmt gen stmt)) s := by
  have hkeeps := (visitStmt_scopes stmt c.state hc.nonempty).of_run hrun
  rw [hdecls] at hkeeps
  rw [after_of_run hrun]
  exact ⟨hc.move hkeeps, rfl⟩

/-- Statements whose declarations all stand in blocks: the uses are those of the scan inside. -/
theorem reaches_with (hc : c.Sound) (hdecls : outerDecls c.state.firstPass stmt = [])
    (hrun : (visitStmt gen stmt).run c.state = .ok ((), s))
    (huses : ∀ u ∈ uses, Matches u.bindings u.table) : Reaches { c with uses := uses, state := (c.after (visitStmt gen stmt)).state } s := by
  obtain ⟨hsound, hstate⟩ := reaches_after hc hdecls hrun
  rw [after_of_run hrun] at hsound ⊢
  exact ⟨⟨hsound.second, hsound.nonempty, hsound.view, huses⟩, rfl⟩

/-- A member of a class declares nothing outside. -/
theorem reaches_member {m : ClassMember}
    (hc : c.Sound) (hrun : (visitMember gen className classType m).run c.state = .ok ((), s))
    (huses : ∀ u ∈ uses, Matches u.bindings u.table) : Reaches { c with
      uses := uses
      state := (c.after (visitMember gen className classType m)).state } s := by
  have hsound := hc.move ((visitMember_scopes className classType m c.state hc.nonempty).of_run hrun)
  rw [after_of_run hrun]
  exact ⟨⟨hsound.second, hsound.nonempty, hsound.view, huses⟩, rfl⟩

/-- The scan of a condition reaches the opening brace behind it. -/
theorem reaches_scanCondition (hc : c.Sound)
    (hrun : (do visitCondition gen ((← indentLevel) ++ keyword) cond ") \x7b\n" :
      VisitM Unit).run c.state = .ok ((), s)) : Reaches (scanCondition gen keyword cond c) s := by
  have hkeeps : KeepsScopes [] c.state s :=
    keeps_of_quiet (quiet_bind quiet_indentLevel fun _ ↦ quiet_visitCondition _ _ _) hrun
  unfold scanCondition
  rw [after_of_run hrun]
  exact ⟨scanUncounted_move cond hc hkeeps, rfl⟩

/-- The visit of an `if` or `while` goes through the condition to the body. -/
theorem braces_run {body rest : VisitM Unit} (hs : s.firstPass = false) (hrun : (secondPassOnly do
      visitCondition gen ((← indentLevel) ++ keyword) cond ") \x7b\n"
      body
      rest).run s = .ok ((), s')) :
    ∃ s₁ s₂, (do visitCondition gen ((← indentLevel) ++ keyword) cond ") \x7b\n" :
      VisitM Unit).run s = .ok ((), s₁) ∧ body.run s₁ = .ok ((), s₂) ∧
        rest.run s₂ = .ok ((), s') := by
  have hpost : Post (secondPassOnly do
      visitCondition gen ((← indentLevel) ++ keyword) cond ") \x7b\n"
      body
      rest) s fun _ s' ↦ ∃ s₁ s₂,
        (do visitCondition gen ((← indentLevel) ++ keyword) cond ") \x7b\n" :
          VisitM Unit).run s = .ok ((), s₁) ∧ body.run s₁ = .ok ((), s₂) ∧
            rest.run s₂ = .ok ((), s') := by
    refine secondPassOnly_of_second hs ?_
    refine post_bind.mpr ⟨fun indent s₀ hindent ↦ post_bind.mpr ⟨fun _ s₁ hcond ↦ ?_⟩⟩
    refine post_bind.mpr ⟨fun _ s₂ hbody ↦ ⟨fun _ s₃ hrest ↦ ⟨s₁, s₂, ?_, hbody, hrest⟩⟩⟩
    exact run_bind_eq_ok.mpr ⟨indent, s₀, hindent, hcond⟩
  exact hpost.of_run _ _ hrun

/-- Behind the closing brace of a body. -/
theorem Reaches.closeBraces (h : Reaches c s) (outer : Nat) (hs : KeepsScopes [] s s') :
    Reaches { c with bindings := Ast.closeBraces outer c.bindings, state := s' } s' := by
  obtain ⟨hsound, rfl⟩ := h
  exact ⟨(hsound.move hs).closeBraces outer, rfl⟩

mutual

/-- The scan of a statement reaches the state in which its visit ends. -/
theorem scanStmt_reaches : ∀ (stmt : Stmt) (c : Scan) (s : VState), c.Sound →
    (visitStmt gen stmt).run c.state = .ok ((), s) → Reaches (scanStmt gen stmt c) s
  | .varDecl d none, c, s, hc, hrun => by
    unfold visitStmt at hrun
    unfold scanStmt
    rw [after_of_run hrun]
    exact ⟨hc.declared (.refl c) hrun, rfl⟩
  | .varDecl d (some e), c, s, hc, hrun => by
    unfold visitStmt at hrun
    have hhoist := hoists_hoist e c
    have hafter := hc.declared hhoist hrun
    -- The uses are those of a point at which only C has the variable.
    have hinner := (hhoist.move hc (.of_same (.refl c.state))).declareC (declaredIn d c.state)
    unfold scanStmt
    rw [after_of_run hrun]
    exact ⟨⟨hafter.second, hafter.nonempty, hafter.view, (hinner.use (namesIn false e)).uses⟩, rfl⟩
  | .returnStmt none, c, s, hc, hrun => by
    unfold visitStmt at hrun
    cases hrun
  | .returnStmt (some e), c, s, hc, hrun => by
    unfold visitStmt at hrun
    unfold scanStmt
    rw [after_of_run hrun]
    exact ⟨scanUncounted_move e hc (keeps_of_quiet (quiet_visitReturnStmt _) hrun), rfl⟩
  | .exprStmt e, c, s, hc, hrun => by
    unfold visitStmt at hrun
    unfold scanStmt
    rw [after_of_run hrun]
    exact ⟨(hoists_scanExpr e c).move hc (keeps_of_quiet (quiet_visitExprStmt e) hrun), rfl⟩
  | .block body, c, s, hc, hrun => by
    unfold scanStmt
    refine reaches_with hc (by unfold outerDecls; rfl) hrun ?_
    unfold visitStmt at hrun
    obtain ⟨hopen, s', hbody⟩ := hc.openBlock hrun
    exact (scanStmts_reaches body _ s' hopen hbody).sound.uses
  | .ifStmt cond thenBranch none, c, s, hc, hrun => by
    have hend : (c.after (visitStmt gen (.ifStmt cond thenBranch none))).state = s := by
      rw [after_of_run hrun]
    unfold scanStmt
    rw [hend]
    unfold visitStmt at hrun
    obtain ⟨s₁, s₂, hcond, hthen, hrest⟩ := braces_run hc.second hrun
    obtain ⟨hsound₁, rfl⟩ := reaches_scanCondition hc hcond
    refine (scanStmt_reaches thenBranch _ s₂ hsound₁ hthen).closeBraces _ ?_
    exact keeps_of_quiet (quiet_emit _) hrest
  | .ifStmt cond thenBranch (some elseBranch), c, s, hc, hrun => by
    have hend : (c.after (visitStmt gen (.ifStmt cond thenBranch (some elseBranch)))).state = s := by
      rw [after_of_run hrun]
    unfold scanStmt
    rw [hend]
    unfold visitStmt at hrun
    obtain ⟨s₁, s₂, hcond, hthen, hrest⟩ := braces_run hc.second hrun
    obtain ⟨hsound₁, rfl⟩ := reaches_scanCondition hc hcond
    obtain ⟨hsound₂, rfl⟩ := scanStmt_reaches thenBranch _ s₂ hsound₁ hthen
    obtain ⟨_, s₃, hclose, hrest⟩ := run_bind_eq_ok.mp hrest
    obtain ⟨indent, s₄, hindent, hrest⟩ := run_bind_eq_ok.mp hrest
    obtain ⟨_, s₅, hopen, hrest⟩ := run_bind_eq_ok.mp hrest
    obtain ⟨_, s₆, helse, hemit⟩ := run_bind_eq_ok.mp hrest
    have hbetween : (do
        emit "\x7d\n"
        emit ((← indentLevel) ++ "else \x7b\n") : VisitM Unit).run
          (scanStmt gen thenBranch (scanCondition gen "if (" cond c)).state = .ok ((), s₅) :=
      run_bind_eq_ok.mpr ⟨_, s₃, hclose, run_bind_eq_ok.mpr ⟨indent, s₄, hindent, hopen⟩⟩
    have hkeeps := keeps_of_quiet (quiet_bind (quiet_emit _) fun _ ↦
      quiet_bind quiet_indentLevel fun _ ↦ quiet_emit _) hbetween
    have hsound₃ := (hsound₂.closeBraces (scanCondition gen "if (" cond c).bindings.length).move hkeeps
    simp only [Scan.after, hbetween]
    refine (scanStmt_reaches elseBranch _ s₆ hsound₃ helse).closeBraces _ ?_
    exact keeps_of_quiet (quiet_emit _) hemit
  | .whileStmt cond body, c, s, hc, hrun => by
    have hend : (c.after (visitStmt gen (.whileStmt cond body))).state = s := by
      rw [after_of_run hrun]
    unfold scanStmt
    rw [hend]
    unfold visitStmt at hrun
    obtain ⟨s₁, s₂, hcond, hbody, hrest⟩ := braces_run hc.second hrun
    obtain ⟨hsound₁, rfl⟩ := reaches_scanCondition hc hcond
    refine (scanStmt_reaches body _ s₂ hsound₁ hbody).closeBraces _ ?_
    exact keeps_of_quiet (quiet_emit _) hrest
  | .functionDecl result name params body, c, s, hc, hrun => by
    unfold scanStmt
    refine reaches_with hc (by unfold outerDecls; rfl) hrun ?_
    obtain ⟨func, s₁, s₂, hopen, hblock⟩ := (functionDecl_run hc.second).of_run _ _ hrun
    refine hc.inFunction hopen ((visits_openFunction _ _ _).of_run hopen) fun c₁ hc₁ hstate ↦ ?_
    rw [← hstate] at hblock
    obtain ⟨hinner, s', hbody⟩ := hc₁.openBlock hblock
    exact (scanStmts_reaches body _ s' hinner hbody).sound
  | .classDecl name parent members, c, s, hc, hrun => by
    unfold visitStmt at hrun
    obtain ⟨classType, s₁, hclass, hrun⟩ := run_bind_eq_ok.mp hrun
    obtain ⟨_, s₂, hannounce, hmembers⟩ := run_bind_eq_ok.mp hrun
    unfold scanStmt
    rw [hclass]
    have hc₁ := hc.move (keeps_of_quiet (quiet_getClassFromCode _ _ _) hclass)
    have hannounce' : (announceClass name.text classType).run { c with state := s₁ }.state =
      .ok ((), s₂) := hannounce
    have hc₂ := hc₁.move (keeps_of_quiet (quiet_announceClass _ _) hannounce')
    simp only [after_of_run hannounce']
    exact scanMembers_reaches name.text classType members _ s hc₂ hmembers
  | .forStmt init cond step body, c, s, hc, hrun => by
    unfold scanStmt
    exact reaches_after hc (by unfold outerDecls; simp [hc.second]) hrun
  | .spawnStmt _, c, s, hc, hrun | .structDecl _, c, s, hc, hrun
  | .typedefDecl _ _, c, s, hc, hrun => by
    unfold scanStmt
    exact reaches_after hc (by unfold outerDecls; rfl) hrun

theorem scanStmts_reaches : ∀ (stmts : List Stmt) (c : Scan) (s : VState), c.Sound →
    (visitStmts gen stmts).run c.state = .ok ((), s) → Reaches (scanStmts gen stmts c) s
  | [], c, s, hc, hrun => by
    unfold visitStmts at hrun
    cases hrun
    unfold scanStmts
    exact ⟨hc, rfl⟩
  | stmt :: stmts, c, s, hc, hrun => by
    unfold visitStmts at hrun
    obtain ⟨_, s₁, hstmt, hrest⟩ := run_bind_eq_ok.mp hrun
    obtain ⟨hsound₁, rfl⟩ := scanStmt_reaches stmt c s₁ hc hstmt
    unfold scanStmts
    exact scanStmts_reaches stmts _ s hsound₁ hrest

theorem scanMember_reaches (className : Str) (classType : Ty) : ∀ (m : ClassMember) (c : Scan)
    (s : VState), c.Sound → (visitMember gen className classType m).run c.state = .ok ((), s) →
    Reaches (scanMember gen className classType m c) s
  | .field _, c, s, hc, hrun => by
    unfold visitMember at hrun
    cases hrun
    unfold scanMember
    exact ⟨hc, rfl⟩
  | .constructor name params parentCall body, c, s, hc, hrun => by
    unfold scanMember
    refine reaches_member hc hrun ?_
    obtain ⟨constructor, s₁, s₂, s₃, hopen, hprologue, hblock⟩ :=
      (constructor_run hc.second).of_run _ _ hrun
    refine hc.inFunction hopen ((visits_openConstructor _ _ _).of_run hopen) fun c₁ hc₁ hstate ↦ ?_
    rw [← hstate] at hprologue
    rw [after_of_run hprologue]
    have hkeeps := keeps_of_quiet (quiet_constructorPrologue _ _ _ _) hprologue
    have hc₂ := (hoists_scanParentCall parentCall c₁).move hc₁ hkeeps
    obtain ⟨hinner, s', hbody⟩ := hc₂.openBlock hblock
    exact (scanStmts_reaches body _ s' hinner hbody).sound
  | .method virtualKeyword result name params body, c, s, hc, hrun => by
    unfold scanMember
    refine reaches_member hc hrun ?_
    obtain ⟨method, s₁, s₂, hopen, hblock⟩ := (method_run hc.second).of_run _ _ hrun
    refine hc.inFunction hopen ((visits_openMethod ..).of_run hopen) fun c₁ hc₁ hstate ↦ ?_
    rw [← hstate] at hblock
    obtain ⟨hinner, s', hbody⟩ := hc₁.openBlock hblock
    exact (scanStmts_reaches body _ s' hinner hbody).sound

theorem scanMembers_reaches (className : Str) (classType : Ty) : ∀ (ms : List ClassMember)
    (c : Scan) (s : VState), c.Sound →
    (visitMembers gen className classType ms).run c.state = .ok ((), s) →
    Reaches (scanMembers gen className classType ms c) s
  | [], c, s, hc, hrun => by
    unfold visitMembers at hrun
    cases hrun
    unfold scanMembers
    exact ⟨hc, rfl⟩
  | m :: ms, c, s, hc, hrun => by
    unfold visitMembers at hrun
    obtain ⟨_, s₁, hmember, hrest⟩ := run_bind_eq_ok.mp hrun
    obtain ⟨hsound₁, rfl⟩ := scanMember_reaches className classType m c s₁ hc hmember
    unfold scanMembers
    exact scanMembers_reaches className classType ms _ s hsound₁ hrest

end

/-! ### Programs -/

/-- A lookup searches the scopes, those of the globals included, before the parameters. -/
theorem Matches.lookupSymbol (h : Matches bs st) (name : Str) :
    st.lookupSymbol name = (tableLookup bs name).or (currentParam st name) := by
  rw [SymbolTable.lookupSymbol, h name, currentParam]
  cases tableLookup bs name with
  | some v => rfl
  | none => cases st.currentFunc <;> rfl

end JBLang.Ast
