import JBLang.Ast.Visitor
import JBLang.Base.Postcondition
import JBLang.Emitted.Code

/-!
# Functions over pointer variables

The part of the source language in which pointers are declared, assigned, passed and returned, and
the code that the visitor writes for it in the second pass with reference counting.
-/

namespace JBLang.Emitted

open JBLang.Base JBLang.Types JBLang.Codegen JBLang.Ast

/-! ### The source -/

/-- Pointer expressions. A name is a variable or `NIL`. -/
inductive PExpr where
  | new (t : TypeSpec)
  | name (y : Ident)
  | string (s : StringToken)
  | addressOf (y : Ident)
  | call (f : Ident) (args : List Ident)

/-- Pointer statements. -/
inductive PStmt where
  | decl (t : TypeSpec) (x : Ident) (value : Option PExpr)
  | assign (x : Ident) (value : PExpr)
  | call (f : Ident) (args : List Ident)
  | ret (value : PExpr)
  | block (body : List PStmt)
  | ifThen (cond : Expr) (body : List PStmt)
  | ifElse (cond : Expr) (body otherwise : List PStmt)
  | loop (cond : Expr) (body : List PStmt)

/-- A function over pointers. -/
structure PFunction where
  result : TypeSpec
  name : Ident
  params : List (TypeSpec × Ident)
  body : List PStmt

theorem isIdentifier_nilName : isIdentifier nilName = true := by decide

/-- The parse tree of an expression. -/
def PExpr.toExpr : PExpr → Expr
  | .new t => .new t
  | .name y => .ident y
  | .string s => .primaryLiteral (.string s)
  | .addressOf y => .addressOf (.ident y)
  | .call f args => .funcCall f (args.map .ident)

mutual

/-- The parse tree of a statement. -/
def PStmt.toStmt : PStmt → Stmt
  | .decl t x value => .varDecl (.plain t x) (value.map PExpr.toExpr)
  | .assign x value => .exprStmt (.assign (.ident x) value.toExpr)
  | .call f args => .exprStmt (PExpr.call f args).toExpr
  | .ret value => .returnStmt (some value.toExpr)
  | .block body => .block (toStmts body)
  | .ifThen cond body => .ifStmt cond (.block (toStmts body)) none
  | .ifElse cond body otherwise =>
    .ifStmt cond (.block (toStmts body)) (some (.block (toStmts otherwise)))
  | .loop cond body => .whileStmt cond (.block (toStmts body))

/-- The parse trees of a list of statements. -/
def toStmts : List PStmt → List Stmt
  | [] => []
  | p :: ps => p.toStmt :: toStmts ps

end

/-- The parse tree of a function. -/
def PFunction.toStmt (f : PFunction) : Stmt :=
  .functionDecl f.result f.name (f.params.map fun p ↦ .plain p.1 p.2) (toStmts f.body)

/-! ### Conditions -/

/-- Expressions without effect: no calls, assignments or allocations. -/
def isPure : Expr → Bool
  | .ident _ | .primaryLiteral _ | .literal _ => true
  | .paren e | .member e _ | .pointerMember e _ | .addressOf e | .dereference e => isPure e
  | .mulDiv left _ right | .addSub left _ right | .compare left _ right
  | .arrayAccess left right => isPure left && isPure right
  | _ => false

variable (ts : TypeSystem) (st : SymbolTable)

/-- The text of an expression without effect. -/
def pureText : Expr → Str
  | .paren e => "(" ++ pureText e ++ ")"
  | .ident name => name.text
  | .primaryLiteral l | .literal l => l.getText
  | .member e name => pureText e ++ "." ++ name.text
  | .mulDiv left op right => pureText left ++ " " ++ op.getText ++ " " ++ pureText right
  | .addSub left op right => pureText left ++ " " ++ op.getText ++ " " ++ pureText right
  | .compare left op right => pureText left ++ " " ++ op.getText ++ " " ++ pureText right
  | .pointerMember e name =>
    memberAccess { symbolTable := st, typeSystem := ts } (pureText e) name.text
  | .addressOf e => "&" ++ pureText e
  | .dereference e => "*" ++ pureText e
  | .arrayAccess array index => pureText array ++ "[" ++ pureText index ++ "]"
  | _ => ""

/-! ### The code -/

/-- The type of a specifier that resolves. -/
def typeOf (t : TypeSpec) : Ty :=
  match resolveTypeText ts t.getText with
  | .ok type => type
  | .error _ => { base := .void }

/-- A variable as it is assigned to a variable of a type: an object of another class that is
compatible is cast. -/
def castName (y : Str) (target : Option Ty) : CValue :=
  match st.lookupSymbol y, target with
  | some var, some type =>
    match ts.isCompatible var.type type with
    | .ok true =>
      if var.type.isPointer && type.isPointer && var.type.isClass && type.isClass &&
        var.type.structName ≠ type.structName then .parent y else .var y
    | _ => .var y
  | _, _ => .var y

/-- The code of an expression that is assigned to a variable of a type. -/
def PExpr.compile (target : Option Ty) : PExpr → CValue
  | .new t => .alloc (typeOf ts t)
  | .name y => castName ts st y.text target
  | .string s => .address s.text
  | .addressOf y => .address ("&" ++ y.text)
  | .call f args => .call f.text (args.map (·.text))

/-- The variable of a name, if it is counted. -/
def countedName (y : Str) : Option Str := (pointerVar (st.lookupSymbol y)).map (·.name)

/-- The increment for a variable that is assigned or returned. -/
def ownRetains : CValue → List Line
  | .var y => (countedName st y).toList.map .inc
  | _ => []

/-- The arguments of a call that are counted. -/
def countedArgs : CValue → List Str
  | .call _ args => args.filterMap (countedName st)
  | _ => []

/-- The increments before a value is assigned. -/
def retains (value : CValue) : List Line := (countedArgs st value).map .inc ++ ownRetains st value

/-- The decrements behind a call. -/
def argReleases (value : CValue) : List Line :=
  match countedArgs st value with
  | [] => []
  | names => names.map .dec ++ [.empty]

/-- The decrements at the end of the innermost scope. -/
def releaseLines : List Line :=
  st.getCurrentScopeSymbols.filterMap fun p ↦
    if p.2.type.isPointer then some (.dec p.2.name) else none

/-- The symbol table behind a declaration. -/
def declareSymbol (x : Str) (type : Ty) : SymbolTable :=
  match st.scopes with
  | [] => st
  | scope :: scopes => { st with scopes := scope.insert x { name := x, type } :: scopes }

/-- The symbol table behind a statement. -/
def PStmt.after : PStmt → SymbolTable
  | .decl t x _ => declareSymbol st x.text (typeOf ts t)
  | _ => st

mutual

/-- The code of a statement. -/
def PStmt.compile (ts : TypeSystem) (st : SymbolTable) : PStmt → CStmt
  | .decl t x none => .lines [.declare (typeOf ts t) x.text none]
  | .decl t x (some value) =>
    let value := value.compile ts st (typeOf ts t)
    .lines (retains st value ++ .declare (typeOf ts t) x.text value :: argReleases st value)
  | .assign x value =>
    let value := value.compile ts st ((st.lookupSymbol x.text).map (·.type))
    .lines (retains st value ++ (countedName st x.text).toList.map .dec ++
      .assign x.text value :: argReleases st value)
  | .call f args =>
    let value : CValue := .call f.text (args.map (·.text))
    .lines (retains st value ++ .expr value :: argReleases st value)
  | .ret value =>
    let value := value.compile ts st none
    .ret (ownRetains st value ++ releaseLines st) value
  | .block body => .block (compileBody ts st.enterScope body)
  | .ifThen cond body => .branch (pureText ts st cond) (compileBody ts st.enterScope body)
  | .ifElse cond body otherwise => .branchElse (pureText ts st cond)
      (compileBody ts st.enterScope body) (compileBody ts st.enterScope otherwise)
  | .loop cond body => .loop (pureText ts st cond) (compileBody ts st.enterScope body)

/-- The code of the statements of a block and of its end. -/
def compileBody (ts : TypeSystem) (st : SymbolTable) : List PStmt → List CStmt
  | [] => [.lines (releaseLines st)]
  | p :: ps => p.compile ts st :: compileBody ts (p.after ts st) ps

end

/-! ### What can be translated -/

/-- The types of an expression resolve, and so does its cast. -/
def PExpr.Translates (target : Option Ty) : PExpr → Prop
  | .new t => ∃ type, resolveTypeText ts t.getText = .ok type
  | .name y => ∀ var type, st.lookupSymbol y.text = some var → target = some type →
    ∃ b, ts.isCompatible var.type type = .ok b
  | _ => True

mutual

/-- The types of a statement resolve, no variable has the name of the null pointer, and conditions
are without effect. -/
def PStmt.Translates (ts : TypeSystem) (st : SymbolTable) : PStmt → Prop
  | .decl t x value => x.text ≠ nilName ∧ (∃ type, resolveTypeText ts t.getText = .ok type) ∧
    ∀ e ∈ value, e.Translates ts st (some (typeOf ts t))
  | .assign x value => value.Translates ts st ((st.lookupSymbol x.text).map (·.type))
  | .call _ _ => True
  | .ret value => value.Translates ts st none
  | .block body => bodyTranslates ts st.enterScope body
  | .ifThen cond body | .loop cond body => isPure cond = true ∧ bodyTranslates ts st.enterScope body
  | .ifElse cond body otherwise => isPure cond = true ∧ bodyTranslates ts st.enterScope body ∧
    bodyTranslates ts st.enterScope otherwise

/-- The statements of a block can be translated. -/
def bodyTranslates (ts : TypeSystem) (st : SymbolTable) : List PStmt → Prop
  | [] => True
  | p :: ps => p.Translates ts st ∧ bodyTranslates ts (p.after ts st) ps

end

/-- A symbol table as declarations make it, with a scope and without `NIL`. -/
structure Tidy (st : SymbolTable) : Prop where
  scopes : st.scopes ≠ []
  symbols : ∀ name var, st.lookupSymbol name = some var →
    isIdentifier name = true ∧ name ≠ nilName ∧ var.fieldName = []

/-- A state of the second pass at the beginning of a statement. -/
structure Ready (s : VState) : Prop where
  pass : s.firstPass = false
  counts : s.addRefCounts = true
  table : Tidy s.symbolTable

/-! ### Runs of the visitor -/

/-- The state with more output. -/
def wrote (s : VState) (text : Str) : VState := { s with output := s.output ++ text }

/-- The state with another symbol table. -/
def withTable (s : VState) (st : SymbolTable) : VState := { s with symbolTable := st }

section Run

variable {α β : Type} {s s₁ : VState}

@[simp] theorem withTable_symbolTable (st : SymbolTable) : (withTable s st).symbolTable = st := rfl

@[simp] theorem withTable_typeSystem (st : SymbolTable) :
    (withTable s st).typeSystem = s.typeSystem := rfl

@[simp] theorem withTable_withTable (st st' : SymbolTable) :
    withTable (withTable s st) st' = withTable s st' := rfl

@[simp] theorem wrote_withTable (st : SymbolTable) (text : Str) :
    wrote (withTable s st) text = withTable (wrote s text) st := rfl

theorem withTable_self : withTable s s.symbolTable = s := rfl

theorem Ready.withTable (hs : Ready s) {st : SymbolTable} (h : Tidy st) : Ready (withTable s st) :=
  ⟨hs.pass, hs.counts, h⟩

theorem run_modifySymbols (f : SymbolTable → SymbolTable) :
    (modifySymbols f).run s = .ok ((), withTable s (f s.symbolTable)) := rfl

@[simp] theorem wrote_wrote (text text' : Str) :
    wrote (wrote s text) text' = wrote s (text ++ text') := by
  simp [wrote]

@[simp] theorem wrote_symbolTable (text : Str) : (wrote s text).symbolTable = s.symbolTable := rfl

@[simp] theorem wrote_typeSystem (text : Str) : (wrote s text).typeSystem = s.typeSystem := rfl

theorem wrote_nil : wrote s [] = s := by
  simp [wrote]

theorem Ready.wrote (hs : Ready s) (text : Str) : Ready (wrote s text) :=
  ⟨hs.pass, hs.counts, hs.table⟩

theorem run_bind_of_ok {m : VisitM α} {f : α → VisitM β} {a : α} (h : m.run s = .ok (a, s₁)) :
    (m >>= f).run s = (f a).run s₁ := by
  rw [StateT.run_bind, h]
  rfl

theorem run_emit (text : Str) : (emit text).run s = .ok ((), wrote s text) := rfl

theorem run_indentLevel :
    indentLevel.run s = .ok (indentation s.symbolTable.scopes.length, s) := rfl

theorem run_lookupSymbol (name : Str) :
    (lookupSymbol name).run s = .ok (s.symbolTable.lookupSymbol name, s) := rfl

theorem run_inFirstPass (hpass : s.firstPass = false) : inFirstPass.run s = .ok (false, s) := by
  rw [← hpass]
  rfl

theorem run_secondPassOnly (hpass : s.firstPass = false) (m : VisitM Unit) :
    (secondPassOnly m).run s = m.run s := by
  rw [secondPassOnly, run_bind_of_ok (run_inFirstPass hpass)]
  rfl

theorem run_get : (get : VisitM VState).run s = .ok (s, s) := rfl

theorem run_whenCounting (hs : Ready s) (m : VisitM Str) : (whenCounting m).run s = m.run s := by
  rw [whenCounting, run_bind_of_ok run_get, if_pos hs.counts]

end Run

/-! ### Symbols -/

variable {st : SymbolTable} {ts : TypeSystem}

theorem Tidy.lookup_eq_none (h : Tidy st) {text : Str} {c : Char} (hc : c ∈ text)
    (hstart : isIdentStart c = false) (hrest : isIdentRest c = false) :
    st.lookupSymbol text = none := by
  by_contra hsome
  obtain ⟨var, hvar⟩ := Option.ne_none_iff_exists'.mp hsome
  exact not_mem_identifier (h.symbols text var hvar).1 hstart hrest hc

theorem Tidy.enterScope (h : Tidy st) : Tidy st.enterScope := by
  refine ⟨nofun, fun name var hlookup ↦ h.symbols name var ?_⟩
  simpa [SymbolTable.lookupSymbol, SymbolTable.enterScope, SymbolTable.findInScopes] using hlookup

theorem lookupSymbol_declareSymbol (hscopes : st.scopes ≠ []) (x : Str) (type : Ty) (name : Str) :
    (declareSymbol st x type).lookupSymbol name =
      if name = x then some { name := x, type } else st.lookupSymbol name := by
  cases hst : st.scopes with
  | nil => exact absurd hst hscopes
  | cons scope scopes =>
    simp only [declareSymbol, hst, SymbolTable.lookupSymbol, SymbolTable.findInScopes,
      NameMap.lookup_insert]
    split_ifs <;> rfl

theorem Tidy.declareSymbol (h : Tidy st) (x : Ident) (hx : x.text ≠ nilName) (type : Ty) :
    Tidy (declareSymbol st x.text type) := by
  constructor
  · obtain ⟨scope, scopes, hst⟩ := List.exists_cons_of_ne_nil h.scopes
    simp [Emitted.declareSymbol, hst]
  · intro name var hlookup
    rw [lookupSymbol_declareSymbol h.scopes] at hlookup
    split_ifs at hlookup with hname
    · cases hlookup
      exact ⟨hname ▸ x.valid, hname ▸ hx, rfl⟩
    · exact h.symbols name var hlookup

/-! ### Expressions -/

section Expressions

variable {s : VState}

/-- The text of an expression without effect is that of the visit. -/
theorem visitExpr_pure (hpass : s.firstPass = false) : ∀ {e : Expr}, isPure e = true →
    (visitExpr ⟨true⟩ e).run s = .ok (pureText s.typeSystem s.symbolTable e, s)
  | .ident _, _ | .primaryLiteral _, _ | .literal _, _ => rfl
  | .paren e, h | .member e _, h | .addressOf e, h | .dereference e, h => by
    rw [visitExpr, run_bind_of_ok (visitExpr_pure hpass (e := e) h)]
    rfl
  | .pointerMember e _, h => by
    rw [visitExpr, run_bind_of_ok (run_inFirstPass hpass), if_neg (by simp),
      run_bind_of_ok (visitExpr_pure hpass (e := e) h)]
    rfl
  | .mulDiv left _ right, h | .addSub left _ right, h | .compare left _ right, h
  | .arrayAccess left right, h => by
    rw [isPure, Bool.and_eq_true] at h
    rw [visitExpr, run_bind_of_ok (visitExpr_pure hpass h.1), run_bind_of_ok (visitExpr_pure hpass h.2)]
    rfl

/-- The text of a value as the visit of a call returns it: with the releases of the arguments. -/
def rawText (st : SymbolTable) (level : Nat) (value : CValue) : Str :=
  value.text (indentation level) ++ match countedArgs st value with
    | [] => []
    | names => ";\n" ++ linesText level (names.map .dec)

theorem linesText_append (level : Nat) (ls ls' : List Line) :
    linesText level (ls ++ ls') = linesText level ls ++ linesText level ls' := by
  simp [linesText]

theorem linesText_cons (level : Nat) (l : Line) (ls : List Line) :
    linesText level (l :: ls) = l.text (indentation level) ++ linesText level ls := rfl

/-- Behind the text of a call the line ends, and the releases are lines of their own. -/
theorem rawText_append (level : Nat) (value : CValue) : rawText st level value ++ (";\n" : Str) =
    value.text (indentation level) ++ ";\n" ++ linesText level (argReleases st value) := by
  unfold rawText argReleases
  cases countedArgs st value with
  | nil => simp [linesText]
  | cons name names => simp [linesText, Line.text]

theorem linesText_declare (level : Nat) (type : Ty) (x : Str) (value : CValue) :
    linesText level (.declare type x value :: argReleases st value) =
      indentation level ++ generateVarDecl x type (" = " ++ rawText st level value) := by
  simp only [linesText_cons, Line.text, generateVarDecl, List.append_assoc, rawText_append]

theorem linesText_assign (level : Nat) (x : Str) (value : CValue) :
    linesText level (.assign x value :: argReleases st value) =
      indentation level ++ (x ++ " = " ++ rawText st level value) ++ ";\n" := by
  simp only [linesText_cons, Line.text, List.append_assoc, rawText_append]

theorem linesText_expr (level : Nat) (value : CValue) :
    linesText level (.expr value :: argReleases st value) =
      indentation level ++ rawText st level value ++ ";\n" := by
  simp only [linesText_cons, Line.text, List.append_assoc, rawText_append]

theorem run_emitIncRef (var : Option Variable) (level : Nat) :
    (emitIncRef ⟨true⟩ (indentation level) var "NULL").run s =
      .ok ((), wrote s (linesText level (((pointerVar var).map (·.name)).toList.map .inc))) := by
  unfold emitIncRef
  cases pointerVar var with
  | none => simp [linesText, wrote_nil]; rfl
  | some var =>
    rw [run_emit]
    simp [linesText, Line.text, CCodeGenerator.generateIncRef]

theorem generateDecRef_of_tidy {var : Variable} (h : var.fieldName = []) :
    (⟨true⟩ : CCodeGenerator).generateDecRef var =
      "runtime_dec_ref_count(" ++ var.name ++ ", " ++ "0" ++ ");\n" := by
  simp [CCodeGenerator.generateDecRef, h]

theorem run_emitDecRef (hs : Ready s) (x : Str) (level : Nat) :
    (emitDecRef ⟨true⟩ (indentation level) (s.symbolTable.lookupSymbol x)).run s =
      .ok ((), wrote s (linesText level ((countedName s.symbolTable x).toList.map .dec))) := by
  unfold emitDecRef countedName
  cases hvar : pointerVar (s.symbolTable.lookupSymbol x) with
  | none => simp [linesText, wrote_nil]; rfl
  | some var =>
    have hfield := (hs.table.symbols x var (Option.filter_eq_some_iff.mp hvar).1).2.2
    rw [run_emit, generateDecRef_of_tidy hfield]
    simp [linesText, Line.text]

theorem run_ident (x : Ident) : (visitExpr ⟨true⟩ (.ident x)).run s = .ok (x.text, s) := rfl

theorem run_countArg (hs : Ready s) (level : Nat) (y : Str) :
    (countArg ⟨true⟩ (indentation level) y).run s = .ok ((countedName s.symbolTable y).isSome,
      wrote s (linesText level ((countedName s.symbolTable y).toList.map .inc))) := by
  unfold countArg countedName
  rw [run_bind_of_ok (run_lookupSymbol y)]
  cases pointerVar (s.symbolTable.lookupSymbol y) with
  | none => simp [linesText, wrote_nil]; rfl
  | some var =>
    rw [run_bind_of_ok run_get, if_pos hs.counts, run_bind_of_ok (run_emit _)]
    simp [linesText, Line.text, CCodeGenerator.generateIncRef]
    rfl

variable {args : List Expr} {e : PExpr} {target : Option Ty}

/-- The first loop over the arguments of a call writes the increments. -/
theorem run_visitCallArgs (hs : Ready s) (level : Nat) (hargs : ∀ a ∈ args, isPure a = true) :
    (visitCallArgs ⟨true⟩ (indentation level) args).run s =
      let texts := args.map (pureText s.typeSystem s.symbolTable)
      let names := texts.filterMap (countedName s.symbolTable)
      .ok ((texts, !names.isEmpty), wrote s (linesText level (names.map .inc))) := by
  induction args generalizing s with
  | nil => simp [linesText, wrote_nil]; rfl
  | cons a args ih =>
    have ha := visitExpr_pure hs.pass (hargs a List.mem_cons_self)
    have ih := ih (hs.wrote (linesText level ((countedName s.symbolTable
      (pureText s.typeSystem s.symbolTable a)).toList.map .inc)))
      fun b hb ↦ hargs b (List.mem_cons_of_mem _ hb)
    rw [visitCallArgs, run_bind_of_ok ha, run_bind_of_ok (run_countArg hs level _),
      run_bind_of_ok ih, wrote_wrote, ← linesText_append, ← List.map_append]
    cases hname : countedName s.symbolTable (pureText s.typeSystem s.symbolTable a) with
    | none => simp [hname]; rfl
    | some name => simp [hname]; rfl

theorem run_releaseText (hs : Ready s) (level : Nat) (y : Str) :
    (releaseText ⟨true⟩ (indentation level) y).run s =
      .ok (linesText level ((countedName s.symbolTable y).toList.map .dec), s) := by
  unfold releaseText countedName
  rw [run_bind_of_ok (run_lookupSymbol y)]
  cases hvar : pointerVar (s.symbolTable.lookupSymbol y) with
  | none => rfl
  | some var =>
    have hfield := (hs.table.symbols y var (Option.filter_eq_some_iff.mp hvar).1).2.2
    simp only [generateDecRef_of_tidy hfield]
    simp [linesText, Line.text]
    rfl

/-- The second loop over the arguments of a call returns the decrements. -/
theorem run_visitReleasedArgs (hs : Ready s) (level : Nat) (hargs : ∀ a ∈ args, isPure a = true) :
    (visitReleasedArgs ⟨true⟩ (indentation level) args).run s =
      .ok (linesText level (((args.map (pureText s.typeSystem s.symbolTable)).filterMap
        (countedName s.symbolTable)).map .dec), s) := by
  induction args with
  | nil => rfl
  | cons a args ih =>
    have ha := visitExpr_pure hs.pass (hargs a List.mem_cons_self)
    have ih := ih fun b hb ↦ hargs b (List.mem_cons_of_mem _ hb)
    rw [visitReleasedArgs, run_bind_of_ok ha, run_bind_of_ok (run_releaseText hs level _),
      run_bind_of_ok ih]
    cases hname : countedName s.symbolTable (pureText s.typeSystem s.symbolTable a) with
    | none => simp [hname, linesText]; rfl
    | some name => simp [hname, linesText]; rfl

/-- The visit of a call writes the increments of the arguments. -/
theorem run_visitCall (hs : Ready s) (f : Ident) (hargs : ∀ a ∈ args, isPure a = true) :
    (visitExpr ⟨true⟩ (.funcCall f args)).run s =
      let value : CValue := .call f.text (args.map (pureText s.typeSystem s.symbolTable))
      let level := s.symbolTable.scopes.length
      .ok (rawText s.symbolTable level value,
        wrote s (linesText level ((countedArgs s.symbolTable value).map .inc))) := by
  have hwrote := hs.wrote (linesText s.symbolTable.scopes.length
    (((args.map (pureText s.typeSystem s.symbolTable)).filterMap
      (countedName s.symbolTable)).map .inc))
  have hrelease := run_visitReleasedArgs hwrote s.symbolTable.scopes.length hargs
  rw [← run_whenCounting hwrote] at hrelease
  rw [visitExpr, run_bind_of_ok (run_inFirstPass hs.pass), if_neg (by simp),
    run_bind_of_ok run_indentLevel, run_bind_of_ok (run_visitCallArgs hs _ hargs)]
  dsimp only
  rw [run_bind_of_ok hrelease]
  simp only [rawText, countedArgs, CValue.text, wrote_symbolTable, wrote_typeSystem]
  cases (args.map (pureText s.typeSystem s.symbolTable)).filterMap (countedName s.symbolTable) with
  | nil => simp [linesText]; rfl
  | cons name names => simp; rfl

theorem isPure_idents (args : List Ident) : ∀ a ∈ args.map Expr.ident, isPure a = true := by
  intro a ha
  obtain ⟨y, -, rfl⟩ := List.mem_map.mp ha
  rfl

theorem pureText_idents (args : List Ident) :
    (args.map .ident).map (pureText ts st) = args.map (·.text) := by
  rw [List.map_map]
  rfl

theorem run_resolveTypeFromContext {t : TypeSpec} {type : Ty}
    (h : resolveTypeText s.typeSystem t.getText = .ok type) :
    (resolveTypeFromContext t).run s = .ok (typeOf s.typeSystem t, s) := by
  rw [resolveTypeFromContext, askTypes, run_bind_of_ok run_get, typeOf, h]
  rfl

theorem castName_none (y : Str) : castName ts st y none = .var y := by
  unfold castName
  cases st.lookupSymbol y <;> rfl

theorem rawText_var (level : Nat) (y : Str) : rawText st level (.var y) = y := by
  simp [rawText, countedArgs, CValue.text]

/-- The visit of an expression writes the increments of the arguments. -/
theorem run_visitExpr (hs : Ready s) (he : e.Translates s.typeSystem s.symbolTable target) :
    (visitExpr ⟨true⟩ e.toExpr).run s =
      let value := e.compile s.typeSystem s.symbolTable none
      let level := s.symbolTable.scopes.length
      .ok (rawText s.symbolTable level value,
        wrote s (linesText level ((countedArgs s.symbolTable value).map .inc))) := by
  cases e with
  | new t =>
    obtain ⟨type, ht⟩ := he
    rw [PExpr.toExpr, visitExpr, run_bind_of_ok (run_resolveTypeFromContext ht)]
    simp [PExpr.compile, rawText, countedArgs, CValue.text, linesText, wrote_nil]
    rfl
  | name y =>
    simp only [PExpr.compile, castName_none, rawText_var]
    simp [countedArgs, linesText, wrote_nil]
    rfl
  | string t =>
    simp [PExpr.compile, rawText, countedArgs, CValue.text, linesText, wrote_nil]
    rfl
  | addressOf y =>
    simp [PExpr.compile, rawText, countedArgs, CValue.text, linesText, wrote_nil]
    rfl
  | call f args =>
    have hcall := run_visitCall hs f (isPure_idents args)
    rw [pureText_idents] at hcall
    exact hcall

theorem run_visitCallArgs_uncounted (hcounts : s.addRefCounts = false) (indent : Str)
    (args : List Ident) : (visitCallArgs ⟨true⟩ indent (args.map .ident)).run s =
      .ok ((args.map (·.text), false), s) := by
  have hcount : ∀ y, (countArg ⟨true⟩ indent y).run s = .ok (false, s) := by
    intro y
    unfold countArg
    rw [run_bind_of_ok (run_lookupSymbol y)]
    cases pointerVar (s.symbolTable.lookupSymbol y) with
    | none => rfl
    | some var =>
      rw [run_bind_of_ok run_get, if_neg (by simp [hcounts])]
      rfl
  induction args with
  | nil => rfl
  | cons a args ih =>
    rw [List.map_cons, visitCallArgs, run_bind_of_ok (run_ident a), run_bind_of_ok (hcount _),
      run_bind_of_ok ih]
    rfl

/-- The visit of an expression without reference counting returns its text. -/
theorem run_visitExpr_uncounted (hpass : s.firstPass = false) (hcounts : s.addRefCounts = false)
    (he : e.Translates s.typeSystem s.symbolTable target) : (visitExpr ⟨true⟩ e.toExpr).run s =
      .ok ((e.compile s.typeSystem s.symbolTable none).text
        (indentation s.symbolTable.scopes.length), s) := by
  cases e with
  | new t =>
    obtain ⟨type, ht⟩ := he
    rw [PExpr.toExpr, visitExpr, run_bind_of_ok (run_resolveTypeFromContext ht)]
    rfl
  | name y =>
    rw [PExpr.compile, castName_none]
    rfl
  | string t => rfl
  | addressOf y => rfl
  | call f args =>
    rw [PExpr.toExpr, visitExpr, run_bind_of_ok (run_inFirstPass hpass), if_neg (by simp),
      run_bind_of_ok run_indentLevel,
      run_bind_of_ok (run_visitCallArgs_uncounted hcounts _ args)]
    have hnone : (whenCounting (visitReleasedArgs ⟨true⟩
        (indentation s.symbolTable.scopes.length) (args.map .ident))).run s = .ok ([], s) := by
      rw [whenCounting, run_bind_of_ok run_get, if_neg (by simp [hcounts])]
      rfl
    rw [run_bind_of_ok hnone]
    simp [PExpr.compile, CValue.text]
    rfl

theorem castName_cases (ts : TypeSystem) (st : SymbolTable) (y : Str) (target : Option Ty) :
    castName ts st y target = .var y ∨ castName ts st y target = .parent y := by
  unfold castName
  split
  · split
    · split
      · exact .inr rfl
      · exact .inl rfl
    · exact .inl rfl
  · exact .inl rfl

theorem countedArgs_compile (e : PExpr) (target : Option Ty) :
    countedArgs st (e.compile ts st target) = countedArgs st (e.compile ts st none) := by
  cases e with
  | name y =>
    rw [PExpr.compile, PExpr.compile, castName_none]
    rcases castName_cases ts st y.text target with hcast | hcast
    · rw [hcast]
    · rw [hcast]
      rfl
  | _ => rfl

/-- The text of a value is a symbol only if the value is a variable. -/
theorem lookup_rawText (h : Tidy st) (e : PExpr) (target : Option Ty) (level : Nat) :
    st.lookupSymbol (rawText st level (e.compile ts st target)) =
      match e.compile ts st target with
      | .var y => st.lookupSymbol y
      | _ => none := by
  have hnone : ∀ {c : Char} (value : CValue), c ∈ value.text (indentation level) →
      isIdentStart c = false → isIdentRest c = false →
      st.lookupSymbol (rawText st level value) = none := by
    intro c value hc hstart hrest
    exact h.lookup_eq_none (by simp [rawText, hc]) hstart hrest
  have hparen : isIdentStart '(' = false ∧ isIdentRest '(' = false := by decide
  cases e with
  | new t =>
    have hmem : '(' ∈ (CValue.alloc (typeOf ts t)).text (indentation level) :=
      List.mem_append_left _ (List.mem_append_left _ (by decide))
    exact hnone _ hmem hparen.1 hparen.2
  | name y =>
    rcases castName_cases ts st y.text target with hcast | hcast
    · simp only [PExpr.compile, hcast, rawText_var]
    · have hmem : '(' ∈ (CValue.parent y.text).text (indentation level) := by simp [CValue.text]
      simp only [PExpr.compile, hcast]
      exact hnone _ hmem hparen.1 hparen.2
  | string t =>
    have hmem : '"' ∈ (CValue.address t.text).text (indentation level) := by
      simp [CValue.text, StringToken.text]
    exact hnone _ hmem (by decide) (by decide)
  | addressOf y =>
    have hmem : '&' ∈ (CValue.address ("&" ++ y.text)).text (indentation level) := by
      simp [CValue.text]
    exact hnone _ hmem (by decide) (by decide)
  | call f args =>
    have hmem : '(' ∈ (CValue.call f.text (args.map (·.text))).text (indentation level) := by
      simp [CValue.text, generateFunctionCall]
    exact hnone _ hmem hparen.1 hparen.2

theorem lookup_text (h : Tidy st) (e : PExpr) (target : Option Ty) (level : Nat) :
    st.lookupSymbol ((e.compile ts st target).text (indentation level)) =
      match e.compile ts st target with
      | .var y => st.lookupSymbol y
      | _ => none := by
  cases e with
  | call f args =>
    have hmem : '(' ∈ (CValue.call f.text (args.map (·.text))).text (indentation level) := by
      simp [CValue.text, generateFunctionCall]
    exact h.lookup_eq_none hmem (by decide) (by decide)
  | name y =>
    rw [← lookup_rawText h (.name y) target level, PExpr.compile]
    rcases castName_cases ts st y.text target with hcast | hcast <;> simp [hcast, rawText, countedArgs]
  | _ =>
    rw [← lookup_rawText h _ target level]
    simp [PExpr.compile, rawText, countedArgs]

theorem generateCast_eq (st : SymbolTable) (level : Nat) (y : Str) (src dst : Ty) :
    generateCast y src dst = rawText st level
      (if src.isPointer && dst.isPointer && src.isClass && dst.isClass &&
        src.structName ≠ dst.structName then .parent y else .var y) := by
  unfold generateCast
  cases src.isPointer && dst.isPointer && src.isClass && dst.isClass with
  | false => simp [rawText_var]
  | true =>
    by_cases hname : src.structName = dst.structName
    · simp [hname, rawText_var]
    · simp [hname, rawText, countedArgs, CValue.text]

/-- The visitor's cast is that of the code. -/
theorem run_castTo (hs : Ready s) {type : Ty}
    (he : e.Translates s.typeSystem s.symbolTable (some type)) (level : Nat) :
    let raw := rawText s.symbolTable level (e.compile s.typeSystem s.symbolTable none)
    (castTo raw (s.symbolTable.lookupSymbol raw) type).run s =
      .ok (rawText s.symbolTable level (e.compile s.typeSystem s.symbolTable (some type)), s) := by
  dsimp only
  rw [lookup_rawText hs.table]
  cases e with
  | new t => rfl
  | string t => rfl
  | addressOf y => rfl
  | call f args => rfl
  | name y =>
    simp only [PExpr.compile, castName_none, rawText_var]
    cases hvar : s.symbolTable.lookupSymbol y.text with
    | none =>
      simp only [castName, hvar, rawText_var]
      rfl
    | some var =>
      obtain ⟨b, hb⟩ := he var type hvar rfl
      have hask : (askTypes (·.isCompatible var.type type)).run s = .ok (b, s) := by
        rw [askTypes, run_bind_of_ok run_get, hb]
        rfl
      rw [castTo, run_bind_of_ok hask]
      simp only [castName, hvar, hb]
      cases b with
      | false =>
        simp only [rawText_var]
        rfl
      | true =>
        simp only [if_true]
        rw [generateCast_eq s.symbolTable level]
        rfl

end Expressions

/-! ### Statements -/

section Statements

variable {s : VState}

theorem run_emitOwn (hs : Ready s) (e : PExpr) (target : Option Ty) (level : Nat) :
    let value := e.compile s.typeSystem s.symbolTable target
    (emitIncRef ⟨true⟩ (indentation level)
        (s.symbolTable.lookupSymbol (rawText s.symbolTable level value)) "NULL").run s =
      .ok ((), wrote s (linesText level (ownRetains s.symbolTable value))) := by
  dsimp only
  rw [run_emitIncRef, lookup_rawText hs.table]
  cases e.compile s.typeSystem s.symbolTable target <;> rfl

variable {ps : List PStmt} {e : PExpr}

/-- A declaration writes the increments, the declaration and the decrements. -/
theorem run_declareVar (hs : Ready s) {type : Ty}
    (he : e.Translates s.typeSystem s.symbolTable (some type)) (x : Str) :
    let value := e.compile s.typeSystem s.symbolTable (some type)
    let level := s.symbolTable.scopes.length
    (declareVar ⟨true⟩ (indentation level) x type (some e.toExpr)).run s =
      .ok ((), wrote s (linesText level (retains s.symbolTable value ++
        .declare type x value :: argReleases s.symbolTable value))) := by
  dsimp only
  have hs₁ := hs.wrote (linesText s.symbolTable.scopes.length ((countedArgs s.symbolTable
    (e.compile s.typeSystem s.symbolTable none)).map .inc))
  have hcast := run_castTo hs₁ he s.symbolTable.scopes.length
  have hown := run_emitOwn hs₁ e (some type) s.symbolTable.scopes.length
  simp only [wrote_symbolTable, wrote_typeSystem] at hcast hown
  rw [declareVar, run_bind_of_ok (run_visitExpr hs he), run_bind_of_ok (run_lookupSymbol _),
    wrote_symbolTable, run_bind_of_ok hcast, run_bind_of_ok (run_lookupSymbol _),
    wrote_symbolTable, run_bind_of_ok hown, run_emit]
  rw [← countedArgs_compile e (some type), retains, linesText_append, linesText_append,
    linesText_declare, wrote_wrote, wrote_wrote, List.append_assoc]

theorem run_castAssigned (hs : Ready s) (x : Str)
    (he : e.Translates s.typeSystem s.symbolTable ((s.symbolTable.lookupSymbol x).map (·.type)))
    (level : Nat) : (castAssigned x (rawText s.symbolTable level
        (e.compile s.typeSystem s.symbolTable none))).run s =
      .ok (rawText s.symbolTable level (e.compile s.typeSystem s.symbolTable
        ((s.symbolTable.lookupSymbol x).map (·.type))), s) := by
  rw [castAssigned, run_bind_of_ok (run_lookupSymbol x)]
  cases hvar : s.symbolTable.lookupSymbol x with
  | none => rfl
  | some var =>
    rw [hvar] at he
    rw [run_bind_of_ok (run_lookupSymbol _)]
    exact run_castTo hs he level

/-- A bare variable on the left takes a reference without owner. -/
theorem run_retainAssigned (hs : Ready s) (x : Ident) (e : PExpr) (target : Option Ty) :
    let value := e.compile s.typeSystem s.symbolTable target
    let level := s.symbolTable.scopes.length
    (retainAssigned ⟨true⟩ x.text (rawText s.symbolTable level value)).run s =
      .ok ((), wrote s (linesText level (ownRetains s.symbolTable value))) := by
  dsimp only
  have harrow : beforeFirst "->" x.text = none :=
    beforeFirst_of_not_mem (not_mem_identifier x.valid (by decide) (by decide)) _
  rw [← run_emitOwn hs, retainAssigned, run_bind_of_ok (run_lookupSymbol _), emitIncRef]
  cases pointerVar (s.symbolTable.lookupSymbol (rawText s.symbolTable
    s.symbolTable.scopes.length (e.compile s.typeSystem s.symbolTable target))) with
  | none => rfl
  | some var =>
    rw [harrow]
    rfl

/-- An assignment writes the increments and the decrement, and returns the text of the line. -/
theorem run_assign (hs : Ready s) {x : Ident} (he : e.Translates s.typeSystem s.symbolTable
      ((s.symbolTable.lookupSymbol x.text).map (·.type))) :
    let value := e.compile s.typeSystem s.symbolTable
      ((s.symbolTable.lookupSymbol x.text).map (·.type))
    let level := s.symbolTable.scopes.length
    (visitExpr ⟨true⟩ (.assign (.ident x) e.toExpr)).run s =
      .ok (x.text ++ " = " ++ rawText s.symbolTable level value,
        wrote s (linesText level (retains s.symbolTable value ++
          (countedName s.symbolTable x.text).toList.map .dec))) := by
  dsimp only
  have hs₁ := hs.wrote (linesText s.symbolTable.scopes.length ((countedArgs s.symbolTable
    (e.compile s.typeSystem s.symbolTable none)).map .inc))
  have hcast := run_castAssigned hs₁ x.text he s.symbolTable.scopes.length
  have hretain := run_retainAssigned hs₁ x e ((s.symbolTable.lookupSymbol x.text).map (·.type))
  simp only [wrote_symbolTable, wrote_typeSystem] at hcast hretain
  have hs₂ := hs₁.wrote (linesText s.symbolTable.scopes.length (ownRetains s.symbolTable
    (e.compile s.typeSystem s.symbolTable ((s.symbolTable.lookupSymbol x.text).map (·.type)))))
  have hdec := run_emitDecRef hs₂ x.text s.symbolTable.scopes.length
  simp only [wrote_symbolTable] at hdec
  rw [visitExpr, run_bind_of_ok (run_inFirstPass hs.pass), if_neg (by simp),
    run_bind_of_ok (run_ident x), run_bind_of_ok (run_visitExpr hs he), assignCode,
    run_bind_of_ok hcast, run_bind_of_ok hretain, run_bind_of_ok run_indentLevel,
    run_bind_of_ok (run_lookupSymbol _)]
  simp only [wrote_symbolTable]
  rw [run_bind_of_ok hdec, ← countedArgs_compile e
    ((s.symbolTable.lookupSymbol x.text).map (·.type)), retains, linesText_append, linesText_append,
    wrote_wrote, wrote_wrote]
  simp only [List.append_assoc]
  rfl

theorem run_visitExprStmt (hs : Ready s) {e : Expr} {code text : Str}
    (h : (visitExpr ⟨true⟩ e).run s = .ok (code, wrote s text)) :
    (visitExprStmt ⟨true⟩ e).run s = .ok ((), wrote s
      (text ++ (indentation s.symbolTable.scopes.length ++ code ++ ";\n"))) := by
  rw [visitExprStmt, run_bind_of_ok h, run_secondPassOnly (hs.wrote text).pass,
    run_bind_of_ok run_indentLevel, run_emit, wrote_wrote]
  rfl

theorem releaseSymbols_eq (level : Nat) (symbols : List (Str × Variable))
    (h : ∀ p ∈ symbols, p.2.fieldName = []) :
    releaseSymbols ⟨true⟩ (indentation level) symbols = linesText level (symbols.filterMap fun p ↦
      if p.2.type.isPointer then some (.dec p.2.name) else none) := by
  induction symbols with
  | nil => rfl
  | cons p symbols ih =>
    have ih := ih fun q hq ↦ h q (List.mem_cons_of_mem _ hq)
    have hfield := h p List.mem_cons_self
    rw [releaseSymbols, ih]
    cases hp : p.2.type.isPointer with
    | false => simp [hp]
    | true => simp [hp, linesText, Line.text, generateDecRef_of_tidy hfield]

theorem run_releaseScope (hs : Ready s) (level : Nat) :
    (releaseScope ⟨true⟩ (indentation level)).run s =
      .ok ((), wrote s (linesText level (releaseLines s.symbolTable))) := by
  have hfields : ∀ p ∈ s.symbolTable.getCurrentScopeSymbols, p.2.fieldName = [] := by
    intro p hp
    obtain ⟨scope, scopes, hscopes⟩ := List.exists_cons_of_ne_nil hs.table.scopes
    rw [SymbolTable.getCurrentScopeSymbols, hscopes] at hp
    have hget := Std.TreeMap.mem_toList_iff_getElem?_eq_some.mp hp
    refine (hs.table.symbols p.1 p.2 ?_).2.2
    simp [SymbolTable.lookupSymbol, hscopes, SymbolTable.findInScopes, hget]
  rw [releaseScope, run_bind_of_ok run_get, run_emit, releaseSymbols_eq level _ hfields]
  rfl

theorem run_emitReturn (hs : Ready s) (e : PExpr) :
    let value := e.compile s.typeSystem s.symbolTable none
    let level := s.symbolTable.scopes.length
    (emitReturn ⟨true⟩ (value.text (indentation level))).run s =
      .ok ((), wrote s (linesText level (ownRetains s.symbolTable value ++
        releaseLines s.symbolTable) ++
          (indentation level ++ generateReturn (value.text (indentation level))))) := by
  dsimp only
  rw [emitReturn, run_bind_of_ok run_indentLevel, run_bind_of_ok (run_lookupSymbol _),
    lookup_text hs.table, run_bind_of_ok (run_emitIncRef _ _),
    run_bind_of_ok (run_releaseScope (hs.wrote _) _), run_emit]
  simp only [wrote_wrote, wrote_symbolTable, linesText_append, List.append_assoc]
  cases e.compile s.typeSystem s.symbolTable none <;> rfl

theorem run_setAddRefCounts (b : Bool) :
    (setAddRefCounts b).run s = .ok ((), { s with addRefCounts := b }) := rfl

theorem Ready.counting (hs : Ready s) : { s with addRefCounts := true } = s := by
  rw [← hs.counts]

theorem run_visitReturnStmt (hs : Ready s) (he : e.Translates s.typeSystem s.symbolTable none) :
    let value := e.compile s.typeSystem s.symbolTable none
    (visitReturnStmt ⟨true⟩ (some e.toExpr)).run s =
      .ok ((), wrote s ((CStmt.ret (ownRetains s.symbolTable value ++
        releaseLines s.symbolTable) value).render s.symbolTable.scopes.length)) := by
  dsimp only
  have hvisit := run_visitExpr_uncounted (s := { s with addRefCounts := false }) hs.pass rfl he
  rw [visitReturnStmt, run_bind_of_ok (run_setAddRefCounts false), visitPresent,
    run_bind_of_ok hvisit, run_bind_of_ok (run_setAddRefCounts true), hs.counting,
    run_secondPassOnly hs.pass]
  exact run_emitReturn hs e

theorem run_visitCondition (hs : Ready s) {cond : Expr} (hpure : isPure cond = true)
    (before after : Str) :
    (visitCondition ⟨true⟩ before cond after).run s =
      .ok ((), wrote s (before ++ (pureText s.typeSystem s.symbolTable cond ++ after))) := by
  have hvisit := visitExpr_pure (s := wrote { s with addRefCounts := false } before) hs.pass hpure
  rw [visitCondition, run_bind_of_ok (run_setAddRefCounts false), run_bind_of_ok (run_emit before),
    run_bind_of_ok hvisit, run_bind_of_ok (run_emit _), run_setAddRefCounts]
  have hwrote := (hs.wrote (before ++ (pureText s.typeSystem s.symbolTable cond ++ after))).counting
  rw [wrote_wrote]
  exact congrArg (fun s ↦ Except.ok ((), s)) hwrote

/-- The symbol table behind some statements. -/
def afterAll (ts : TypeSystem) : SymbolTable → List PStmt → SymbolTable
  | st, [] => st
  | st, p :: ps => afterAll ts (p.after ts st) ps

theorem exitScope_after (p : PStmt) : (p.after ts st).exitScope = st.exitScope := by
  cases p with
  | decl t x value =>
    unfold PStmt.after declareSymbol
    cases hst : st.scopes <;> simp [SymbolTable.exitScope, hst]
  | _ => rfl

theorem exitScope_afterAll (ps : List PStmt) : (afterAll ts st ps).exitScope = st.exitScope := by
  induction ps generalizing st with
  | nil => rfl
  | cons p ps ih => rw [afterAll, ih, exitScope_after]

theorem length_scopes_after (p : PStmt) : (p.after ts st).scopes.length = st.scopes.length := by
  cases p with
  | decl t x value =>
    unfold PStmt.after declareSymbol
    cases hst : st.scopes <;> simp [hst]
  | _ => rfl

theorem Tidy.after (h : Tidy st) {p : PStmt} (hp : p.Translates ts st) : Tidy (p.after ts st) := by
  cases p with
  | decl t x value =>
    rw [PStmt.Translates] at hp
    exact h.declareSymbol x hp.1 _
  | _ => exact h

theorem Tidy.afterAll (h : Tidy st) (hps : bodyTranslates ts st ps) : Tidy (afterAll ts st ps) := by
  induction ps generalizing st with
  | nil => exact h
  | cons p ps ih =>
    rw [bodyTranslates] at hps
    exact ih (h.after hps.1) hps.2

/-- The visits of a block's statements write some text, which the releases complete. -/
def VisitsBody (s : VState) (ps : List PStmt) : Prop :=
  ∃ text, (visitStmts ⟨true⟩ (toStmts ps)).run s =
      .ok ((), withTable (wrote s text) (afterAll s.typeSystem s.symbolTable ps)) ∧
    renderAll s.symbolTable.scopes.length (compileBody s.typeSystem s.symbolTable ps) =
      text ++ linesText s.symbolTable.scopes.length
        (releaseLines (afterAll s.typeSystem s.symbolTable ps))

theorem length_enterScope : st.enterScope.scopes.length = st.scopes.length + 1 := rfl

/-- The statements between braces, in a scope of their own. -/
theorem run_inBlock (hs : Ready s) (hps : bodyTranslates s.typeSystem s.symbolTable.enterScope ps)
    (h : ∀ s : VState, Ready s → bodyTranslates s.typeSystem s.symbolTable ps → VisitsBody s ps) :
    (inBlock ⟨true⟩ (visitStmts ⟨true⟩ (toStmts ps))).run s =
      .ok ((), wrote s (inBraces (s.symbolTable.scopes.length + 1)
        (renderAll (s.symbolTable.scopes.length + 1)
          (compileBody s.typeSystem s.symbolTable.enterScope ps)))) := by
  have hentered := hs.withTable hs.table.enterScope
  obtain ⟨text, hrun, htext⟩ := h _ (hentered.wrote generateScopeEntry) hps
  have hend := (hentered.wrote (generateScopeEntry ++ text)).withTable
    (hs.table.enterScope.afterAll hps)
  simp only [wrote_withTable, withTable_withTable, withTable_symbolTable, withTable_typeSystem,
    wrote_typeSystem, wrote_wrote] at hrun htext hend
  have hexit : (afterAll s.typeSystem s.symbolTable.enterScope ps).exitScope = s.symbolTable := by
    rw [exitScope_afterAll]
    rfl
  have hrelease := run_releaseScope hend (s.symbolTable.scopes.length + 1)
  simp only [wrote_withTable, withTable_symbolTable, wrote_wrote] at hrelease
  rw [inBlock, run_bind_of_ok (run_modifySymbols _),
    run_bind_of_ok ((run_secondPassOnly hentered.pass _).trans (run_emit _)),
    run_bind_of_ok run_indentLevel, wrote_withTable, run_bind_of_ok hrun, withTable_symbolTable,
    length_enterScope, run_bind_of_ok ((run_secondPassOnly hend.pass _).trans hrelease),
    run_bind_of_ok (run_modifySymbols _), withTable_symbolTable, hexit, withTable_withTable,
    run_secondPassOnly ((hs.wrote _).withTable hs.table).pass, run_emit, wrote_withTable,
    wrote_wrote, inBraces]
  rw [length_enterScope] at htext
  rw [htext, ← List.append_assoc generateScopeEntry]
  rfl

/-- The same behind more output. -/
theorem run_inBlock_wrote (hs : Ready s)
    (hps : bodyTranslates s.typeSystem s.symbolTable.enterScope ps)
    (h : ∀ s : VState, Ready s → bodyTranslates s.typeSystem s.symbolTable ps → VisitsBody s ps)
    (before : Str) : (inBlock ⟨true⟩ (visitStmts ⟨true⟩ (toStmts ps))).run (wrote s before) =
      .ok ((), wrote (wrote s before) (inBraces (s.symbolTable.scopes.length + 1)
        (renderAll (s.symbolTable.scopes.length + 1)
          (compileBody s.typeSystem s.symbolTable.enterScope ps)))) :=
  run_inBlock (hs.wrote before) hps h

theorem run_declaratorType {t : TypeSpec} {type : Ty}
    (h : resolveTypeText s.typeSystem t.getText = .ok type) (x : Ident) :
    (declaratorType (.plain t x)).run s = .ok ((x.text, typeOf s.typeSystem t), s) := by
  rw [declaratorType, run_bind_of_ok (run_resolveTypeFromContext h)]
  rfl

theorem run_rememberGlobal (hs : Ready s) (x : Str) (type : Ty) :
    (rememberGlobal x type).run s = .ok ((), s) := by
  rw [rememberGlobal, run_bind_of_ok run_get, if_neg (by simp [hs.pass])]
  rfl

theorem run_addSymbol (hs : Ready s) (x : Str) (type : Ty) :
    (addSymbol x type).run s = .ok ((), withTable s (declareSymbol s.symbolTable x type)) := by
  obtain ⟨scope, scopes, hscopes⟩ := List.exists_cons_of_ne_nil hs.table.scopes
  rw [addSymbol, run_bind_of_ok run_get, SymbolTable.addSymbol, hscopes, declareSymbol, hscopes]
  rfl

/-- A declaration is written, and its variable becomes a symbol. -/
theorem run_visitVarDecl (hs : Ready s) {t : TypeSpec} {x : Ident} {value : Option PExpr}
    (h : (PStmt.decl t x value).Translates s.typeSystem s.symbolTable) :
    (visitVarDecl ⟨true⟩ (.plain t x) (value.map PExpr.toExpr)).run s =
      .ok ((), withTable (wrote s (((PStmt.decl t x value).compile s.typeSystem
        s.symbolTable).render s.symbolTable.scopes.length))
        (declareSymbol s.symbolTable x.text (typeOf s.typeSystem t))) := by
  rw [PStmt.Translates] at h
  obtain ⟨-, ⟨type, htype⟩, hvalue⟩ := h
  have hdeclare : (declareVar ⟨true⟩ (indentation s.symbolTable.scopes.length) x.text
      (typeOf s.typeSystem t) (value.map PExpr.toExpr)).run s = .ok ((), wrote s
        (((PStmt.decl t x value).compile s.typeSystem s.symbolTable).render
          s.symbolTable.scopes.length)) := by
    cases value with
    | none =>
      rw [PStmt.compile, CStmt.render, Option.map_none, declareVar, run_emit]
      simp [linesText, Line.text]
    | some e =>
      rw [PStmt.compile, CStmt.render]
      exact run_declareVar hs (hvalue e rfl) x.text
  rw [visitVarDecl, run_bind_of_ok run_indentLevel, run_bind_of_ok (run_declaratorType htype x),
    run_bind_of_ok (run_rememberGlobal hs _ _),
    run_bind_of_ok ((run_secondPassOnly hs.pass _).trans hdeclare), run_addSymbol (hs.wrote _)]
  rfl

/-- A condition with the block that depends on it. -/
theorem run_guarded (hs : Ready s) {cond : Expr} (hpure : isPure cond = true) (keyword : Str)
    {m : VisitM Unit} {text : Str}
    (hm : ∀ before, m.run (wrote s before) = .ok ((), wrote (wrote s before) text)) :
    (do
      visitCondition ⟨true⟩ ((← indentLevel) ++ keyword) cond ") \x7b\n"
      m
      emit "\x7d\n" : VisitM Unit).run s =
      .ok ((), wrote s ((indentation s.symbolTable.scopes.length ++ keyword) ++
        (pureText s.typeSystem s.symbolTable cond ++ ") \x7b\n") ++ text ++ "\x7d\n")) := by
  rw [run_bind_of_ok run_indentLevel, run_bind_of_ok (run_visitCondition hs hpure _ _),
    run_bind_of_ok (hm _), run_emit]
  simp only [wrote_wrote, List.append_assoc]

mutual

/-- What the visitor writes for a statement is the text of its code. -/
theorem run_visitStmt : ∀ (p : PStmt) {s : VState}, Ready s →
    p.Translates s.typeSystem s.symbolTable → (visitStmt ⟨true⟩ p.toStmt).run s =
      .ok ((), withTable
        (wrote s ((p.compile s.typeSystem s.symbolTable).render s.symbolTable.scopes.length))
        (p.after s.typeSystem s.symbolTable))
  | .decl t x value, s, hs, h => by
    rw [PStmt.toStmt, visitStmt, run_visitVarDecl hs h]
    rfl
  | .assign x value, s, hs, h => by
    rw [PStmt.Translates] at h
    rw [PStmt.toStmt, visitStmt, run_visitExprStmt hs (run_assign hs h), ← linesText_assign,
      ← linesText_append]
    rfl
  | .call f args, s, hs, _ => by
    have htrans : (PExpr.call f args).Translates s.typeSystem s.symbolTable none := trivial
    rw [PStmt.toStmt, visitStmt, run_visitExprStmt hs (run_visitExpr hs htrans), ← linesText_expr,
      ← linesText_append, PStmt.compile, CStmt.render, retains]
    simp only [ownRetains, List.append_nil]
    rfl
  | .ret value, s, hs, h => by
    rw [PStmt.toStmt, visitStmt, run_visitReturnStmt hs h]
    rfl
  | .block body, s, hs, h => by
    rw [PStmt.toStmt, visitStmt, run_inBlock hs h fun s hs ↦ run_visitStmts body hs]
    rfl
  | .ifThen cond body, s, hs, h => by
    rw [PStmt.Translates] at h
    have hbody := run_inBlock_wrote hs h.2 fun s hs ↦ run_visitStmts body hs
    rw [PStmt.toStmt, visitStmt, run_secondPassOnly hs.pass, visitStmt, run_guarded hs h.1 _ hbody]
    rfl
  | .ifElse cond body otherwise, s, hs, h => by
    rw [PStmt.Translates] at h
    have hbody := run_inBlock_wrote hs h.2.1 fun s hs ↦ run_visitStmts body hs
    have hother := run_inBlock_wrote hs h.2.2 fun s hs ↦ run_visitStmts otherwise hs
    rw [PStmt.toStmt, visitStmt, run_secondPassOnly hs.pass, visitStmt, visitStmt,
      run_bind_of_ok run_indentLevel, run_bind_of_ok (run_visitCondition hs h.1 _ _),
      run_bind_of_ok (hbody _), run_bind_of_ok (run_emit _), run_bind_of_ok run_indentLevel,
      run_bind_of_ok (run_emit _)]
    simp only [wrote_wrote, wrote_symbolTable]
    rw [run_bind_of_ok (hother _), run_emit]
    simp only [wrote_wrote, PStmt.compile, CStmt.render, List.append_assoc]
    rfl
  | .loop cond body, s, hs, h => by
    rw [PStmt.Translates] at h
    have hbody := run_inBlock_wrote hs h.2 fun s hs ↦ run_visitStmts body hs
    rw [PStmt.toStmt, visitStmt, run_secondPassOnly hs.pass, visitStmt, run_guarded hs h.1 _ hbody]
    rfl

/-- What the visitor writes for a list of statements is the text of their code. -/
theorem run_visitStmts : ∀ (ps : List PStmt) {s : VState}, Ready s →
    bodyTranslates s.typeSystem s.symbolTable ps → VisitsBody s ps
  | [], s, hs, _ => ⟨[], by simp [toStmts, wrote_nil, afterAll, withTable_self]; rfl, by
    simp [compileBody, renderAll, CStmt.render, afterAll]⟩
  | p :: ps, s, hs, h => by
    rw [bodyTranslates] at h
    have hp := run_visitStmt p hs h.1
    obtain ⟨text, hrun, htext⟩ := run_visitStmts ps ((hs.wrote ((p.compile s.typeSystem
      s.symbolTable).render s.symbolTable.scopes.length)).withTable (hs.table.after h.1)) h.2
    simp only [withTable_symbolTable, withTable_typeSystem, wrote_typeSystem, wrote_withTable,
      wrote_wrote, withTable_withTable, length_scopes_after] at hrun htext
    refine ⟨(p.compile s.typeSystem s.symbolTable).render s.symbolTable.scopes.length ++ text,
      ?_, ?_⟩
    · rw [toStmts, visitStmts, run_bind_of_ok hp, hrun]
      rfl
    · rw [compileBody, renderAll, htext, List.append_assoc]
      rfl

end

end Statements

end JBLang.Emitted
