import JBLang.Ast.CallTexts
import JBLang.Emitted.Assignments

/-!
# What is written for an expression

The visit of an expression in the second pass as a function of the tables and of the number of
temporaries so far: the text that it returns, and the pieces that it writes before the statement,
each with the place in the expression that it is written for.
-/

namespace JBLang.Emitted

open JBLang.Base JBLang.Types JBLang.Codegen JBLang.Ast

/-- What the visit of an expression depends on besides the expression and the temporaries. -/
structure Setting where
  gen : CCodeGenerator
  types : TypeSystem
  symbols : SymbolTable
  counting : Bool

/-- A place in an expression: the numbers of the children on the way to it. -/
abbrev Place := List Nat

/-- A piece of the output, written while an expression is visited. -/
inductive Piece where
  /-- The declaration of the temporary for a creation. -/
  | declare (place : Place) (temp : Str) (type : Ty)
  /-- The call of the constructor for a creation. -/
  | construct (place : Place) (constructor temp : Str) (args : List Str)
  /-- The reference counts of an assignment. -/
  | assign (place : Place) (text : Str)
  /-- The reference count of an argument or of an initializer list. -/
  | count (text : Str)

namespace Piece

/-- The text of a piece. -/
def text (indent : Str) : Piece → Str
  | .declare _ temp type =>
    indent ++ generateVarDecl temp type.setPointer (" = " ++ generateAlloc type)
  | .construct _ constructor temp args =>
    indent ++ generateFunctionCall constructor (temp :: args) ++ ";\n"
  | .assign _ text | .count text => text

/-- A piece of the `i`th child. -/
def under (i : Nat) : Piece → Piece
  | .declare place temp type => .declare (i :: place) temp type
  | .construct place constructor temp args => .construct (i :: place) constructor temp args
  | .assign place text => .assign (i :: place) text
  | .count text => .count text

theorem text_under (indent : Str) (i : Nat) (p : Piece) :
    (p.under i).text indent = p.text indent := by
  cases p <;> rfl

end Piece

/-- The text of some pieces. -/
def piecesText (indent : Str) (ps : List Piece) : Str := (ps.map (Piece.text indent)).flatten

theorem piecesText_append (indent : Str) (ps qs : List Piece) :
    piecesText indent (ps ++ qs) = piecesText indent ps ++ piecesText indent qs := by
  simp [piecesText]

theorem piecesText_cons (indent : Str) (p : Piece) (ps : List Piece) :
    piecesText indent (p :: ps) = p.text indent ++ piecesText indent ps := rfl

theorem piecesText_nil (indent : Str) : piecesText indent [] = [] := rfl

theorem piecesText_under (indent : Str) (i : Nat) (ps : List Piece) :
    piecesText indent (ps.map (Piece.under i)) = piecesText indent ps := by
  simp only [piecesText, List.map_map, Function.comp_def, Piece.text_under]

namespace Setting

variable (σ : Setting)

def indent : Str := σ.symbols.getIndentLevel

/-- The pointer variable that a text is. -/
def pointer (text : Str) : Option Variable := pointerVar (σ.symbols.lookupSymbol text)

/-- What the number of temporaries depends on. -/
def site : Site where
  isPointer text := (σ.pointer text).isSome
  firstPass := false
  counting := σ.counting

/-- The increment for an assigned variable. -/
def retainText (left right : Str) : Str :=
  match σ.pointer right with
  | none => ""
  | some assignedFrom => match beforeFirst "->" left with
    | some pre => match σ.pointer pre with
      | some assignedTo => σ.indent ++ σ.gen.generateIncRef assignedFrom assignedTo.name
      | none => ""
    | none => σ.indent ++ σ.gen.generateIncRef assignedFrom "NULL"

/-- The decrement of a variable, if the text is a pointer variable. -/
def releaseText (text : Str) : Str :=
  match σ.pointer text with
  | some var => σ.indent ++ σ.gen.generateDecRef var
  | none => ""

/-- The increment of a variable, if the text is a pointer variable. -/
def incText (text : Str) : Str :=
  match σ.pointer text with
  | some var => σ.indent ++ σ.gen.generateIncRef var "NULL"
  | none => ""

/-- The reference counts of an assignment. -/
def assignText (left right : Str) : Str :=
  σ.retainText left (castText σ.types σ.symbols left right) ++ σ.releaseText left

/-- The reference counts of an initializer list. -/
def initCounts : List Initializer → Str
  | [] => ""
  | .mk _ value :: is => σ.incText value.getText ++ initCounts is

/-- The class of a creation. -/
def classOf (name : Str) : Ty :=
  match σ.types.resolveType name with
  | .ok type => type
  | .error _ => { base := .void }

/-- The name of the constructor of a class. -/
def constructorOf (name : Str) : Str := ((σ.types.getClassConstructor name).map (·.name)).getD []

/-- The text of a call of a method that the class `currentClass` declares. -/
def foundMethodText (objExpr methodName className currentClass : Str) (method : Function)
    (args : List Str) : Str :=
  if method.isVirtual then
    (VTablePath.ofType (σ.classOf className)).fromObject objExpr ++ "->" ++ methodName ++ "(" ++
      objExpr ++ (args.map fun arg ↦ (", " : Str) ++ arg).flatten ++ ")"
  else
    generateFunctionCall method.name ((if currentClass ≠ className then
      "&((" ++ objExpr ++ ")->parent)" else objExpr) :: args)

/-- The text of a method call. -/
def methodText (objExpr methodName : Str) (args : List Str) : Str :=
  match σ.symbols.lookupSymbol objExpr with
  | none => ""
  | some objVar => match findMethod σ.types objVar.type.structName methodName with
    | .error _ => ""
    | .ok (currentClass, method) =>
      σ.foundMethodText objExpr methodName objVar.type.structName currentClass method args

/-- The text of a call with its arguments, and with those of the second visit. -/
def callText (name : Str) (args again : List Str) : Str :=
  σ.indent ++ generateFunctionCall name args ++
    (if σ.counting && args.any (fun arg ↦ (σ.pointer arg).isSome) then (";\n" : Str) else "") ++
    (if σ.counting then (again.map σ.releaseText).flatten else "")

/-- The reference count of an argument of a call. -/
def argPiece (arg : Str) : Piece := .count (if σ.counting then σ.incText arg else "")

mutual

/-- The text of an expression that is visited after `n` temporaries were taken. -/
def codeOf : Nat → Expr → Str
  | n, .paren e => "(" ++ codeOf n e ++ ")"
  | _, .ident name => name.text
  | _, .primaryLiteral l | _, .literal l => l.getText
  | n, .member e name => codeOf n e ++ "." ++ name.text
  | n, .funcCall name args =>
    σ.callText name.text (codesOf n args) (codesOf (n + argsTemps σ.site args) args)
  | n, .mulDiv l op r => codeOf n l ++ " " ++ op.getText ++ " " ++ codeOf (n + temps σ.site l) r
  | n, .addSub l op r => codeOf n l ++ " " ++ op.getText ++ " " ++ codeOf (n + temps σ.site l) r
  | n, .compare l op r => codeOf n l ++ " " ++ op.getText ++ " " ++ codeOf (n + temps σ.site l) r
  | n, .assign l r => codeOf n l ++ " = " ++
    castText σ.types σ.symbols (codeOf n l) (codeOf (n + temps σ.site l) r)
  | _, .var _ => ""
  | _, .new t => generateAlloc (typeOf σ.types t)
  | n, .newWithConstructor .. => tempName n
  | n, .pointerMember e name =>
    memberAccess { symbolTable := σ.symbols, typeSystem := σ.types } (codeOf n e) name.text
  | n, .addressOf e => "&" ++ codeOf n e
  | n, .dereference e => "*" ++ codeOf n e
  | n, .arrayAccess l r => codeOf n l ++ "[" ++ codeOf (n + temps σ.site l) r ++ "]"
  | n, .methodCall e name args =>
    σ.methodText (codeOf n e) name.text (codesOf (n + temps σ.site e) args)
  | _, .structInit inits _ => "\x7b\n" ++ initCode σ.indent inits ++ σ.indent ++ "\x7d"
  | n, .postIncrement e => codeOf n e ++ "++"
  | n, .postDecrement e => codeOf n e ++ "--"
  | n, .preIncrement e => "++" ++ codeOf n e
  | n, .preDecrement e => "--" ++ codeOf n e

/-- The texts of the expressions of a list. -/
def codesOf : Nat → List Expr → List Str
  | _, [] => []
  | n, e :: es => codeOf n e :: codesOf (n + temps σ.site e) es

end

mutual

/-- What is written for an expression that is visited after `n` temporaries were taken. -/
def piecesOf : Nat → Expr → List Piece
  | n, .paren e | n, .member e _ | n, .pointerMember e _ | n, .addressOf e | n, .dereference e
  | n, .postIncrement e | n, .postDecrement e | n, .preIncrement e | n, .preDecrement e =>
    (piecesOf n e).map (Piece.under 0)
  | _, .ident _ | _, .primaryLiteral _ | _, .literal _ | _, .var _ | _, .new _ => []
  | n, .mulDiv l _ r | n, .addSub l _ r | n, .compare l _ r | n, .arrayAccess l r =>
    (piecesOf n l).map (Piece.under 0) ++ (piecesOf (n + temps σ.site l) r).map (Piece.under 1)
  | n, .assign l r =>
    (piecesOf n l).map (Piece.under 0) ++ (piecesOf (n + temps σ.site l) r).map (Piece.under 1) ++
      [.assign [] (σ.assignText (σ.codeOf n l) (σ.codeOf (n + temps σ.site l) r))]
  -- The arguments of a call are visited again for their releases.
  | n, .funcCall _ args => countedPieces n 0 args ++
    if σ.counting then argPieces (n + argsTemps σ.site args) 0 args else []
  | n, .newWithConstructor name args =>
    .declare [] (tempName n) (σ.classOf name.text) :: argPieces (n + 1) 0 args ++
      [.construct [] (σ.constructorOf name.text) (tempName n) (σ.codesOf (n + 1) args)]
  | n, .methodCall e _ args =>
    (piecesOf n e).map (Piece.under 0) ++ argPieces (n + temps σ.site e) 1 args
  -- The values of initializers are copied, not visited.
  | _, .structInit inits _ => [.count (σ.initCounts inits)]

/-- What is written for the arguments of a list, the first of them the `i`th child. -/
def argPieces : Nat → Nat → List Expr → List Piece
  | _, _, [] => []
  | n, i, e :: es => (piecesOf n e).map (Piece.under i) ++ argPieces (n + temps σ.site e) (i + 1) es

/-- The same with the reference counts of the arguments. -/
def countedPieces : Nat → Nat → List Expr → List Piece
  | _, _, [] => []
  | n, i, e :: es => (piecesOf n e).map (Piece.under i) ++ σ.argPiece (σ.codeOf n e) ::
    countedPieces (n + temps σ.site e) (i + 1) es

end

theorem temps_assign (l r : Expr) :
    temps σ.site (.assign l r) = temps σ.site l + temps σ.site r := by
  rw [temps]
  rfl

theorem temps_funcCall (name : Ident) (args : List Expr) : temps σ.site (.funcCall name args) =
    argsTemps σ.site args + if σ.counting then argsTemps σ.site args else 0 := by
  rw [temps]
  rfl

theorem temps_newWithConstructor (name : Ident) (args : List Expr) :
    temps σ.site (.newWithConstructor name args) = 1 + argsTemps σ.site args := by
  rw [temps]
  rfl

theorem temps_pointerMember (e : Expr) (name : Ident) :
    temps σ.site (.pointerMember e name) = temps σ.site e := by
  rw [temps]
  rfl

theorem temps_methodCall (e : Expr) (name : Ident) (args : List Expr) :
    temps σ.site (.methodCall e name args) = temps σ.site e + argsTemps σ.site args := by
  rw [temps]
  rfl

end Setting

/-! ### Visits -/

/-- The setting of a state. -/
def settingOf (gen : CCodeGenerator) (s : VState) : Setting :=
  ⟨gen, s.typeSystem, s.symbolTable, s.addRefCounts⟩

/-- The state after a text is written and temporaries are taken. -/
def moved (s : VState) (text : Str) (n : Nat) : VState :=
  { s with output := s.output ++ text, tempVarCounter := n }

variable {gen : CCodeGenerator} {s : VState}

theorem moved_moved (text text' : Str) (n n' : Nat) :
    moved (moved s text n) text' n' = moved s (text ++ text') n' := by
  simp [moved]

@[simp] theorem settingOf_moved (text : Str) (n : Nat) :
    settingOf gen (moved s text n) = settingOf gen s := rfl

@[simp] theorem moved_symbolTable (text : Str) (n : Nat) :
    (moved s text n).symbolTable = s.symbolTable := rfl

@[simp] theorem moved_typeSystem (text : Str) (n : Nat) :
    (moved s text n).typeSystem = s.typeSystem := rfl

@[simp] theorem moved_addRefCounts (text : Str) (n : Nat) :
    (moved s text n).addRefCounts = s.addRefCounts := rfl

@[simp] theorem moved_tempVarCounter (text : Str) (n : Nat) :
    (moved s text n).tempVarCounter = n := rfl

theorem moved_nil : moved s [] s.tempVarCounter = s := by
  simp [moved]

theorem wrote_eq_moved (text : Str) : wrote s text = moved s text s.tempVarCounter := rfl

theorem run_emitIncRef_text (text : Str) :
    (emitIncRef gen s.symbolTable.getIndentLevel (s.symbolTable.lookupSymbol text) "NULL").run s =
      .ok ((), wrote s ((settingOf gen s).incText text)) := by
  unfold emitIncRef Setting.incText
  rw [show pointerVar (s.symbolTable.lookupSymbol text) = (settingOf gen s).pointer text from rfl]
  cases (settingOf gen s).pointer text with
  | none =>
    change Except.ok ((), s) = .ok ((), wrote s [])
    rw [wrote_nil]
  | some var => rfl

theorem emitIncRef_piece (text : Str) :
    Post (emitIncRef gen s.symbolTable.getIndentLevel (s.symbolTable.lookupSymbol text) "NULL") s
      fun _ s' ↦ s' = wrote s ((settingOf gen s).incText text) :=
  .of_ok (run_emitIncRef_text text) rfl

theorem emitDecRef_piece (text : Str) :
    Post (emitDecRef gen s.symbolTable.getIndentLevel (s.symbolTable.lookupSymbol text)) s
      fun _ s' ↦ s' = wrote s ((settingOf gen s).releaseText text) := by
  unfold emitDecRef Setting.releaseText
  change Post (match (settingOf gen s).pointer text with
    | some var => emit _
    | none => pure ()) s _
  cases (settingOf gen s).pointer text with
  | none => exact post_pure.mpr moved_nil.symm
  | some var => exact post_emit.mpr rfl

theorem retainAssigned_piece (left right : Str) :
    Post (retainAssigned gen left right) s
      fun _ s' ↦ s' = wrote s ((settingOf gen s).retainText left right) := by
  unfold retainAssigned Setting.retainText
  rw [post_bind, post_lookupSymbol]
  change Post (match (settingOf gen s).pointer right with
    | none => pure ()
    | some assignedFrom => _) s _
  cases (settingOf gen s).pointer right with
  | none => exact post_pure.mpr moved_nil.symm
  | some assignedFrom =>
    dsimp only
    cases beforeFirst "->" left with
    | none =>
      dsimp only
      rw [post_bind, post_indentLevel]
      exact post_emit.mpr rfl
    | some pre =>
      dsimp only
      rw [post_bind, post_lookupSymbol]
      change Post (match (settingOf gen s).pointer pre with
        | some assignedTo => _
        | none => pure ()) s _
      cases (settingOf gen s).pointer pre with
      | none => exact post_pure.mpr moved_nil.symm
      | some assignedTo =>
        dsimp only
        rw [post_bind, post_indentLevel]
        exact post_emit.mpr rfl

theorem assignCode_piece (left right : Str) :
    Post (assignCode gen left right) s fun code s' ↦
      code = left ++ " = " ++ castText s.typeSystem s.symbolTable left right ∧
        s' = wrote s ((settingOf gen s).assignText left right) := by
  unfold assignCode
  rw [post_bind]
  apply (post_castAssigned left right).mono
  rintro _ _ ⟨rfl, rfl⟩
  rw [post_bind]
  apply (retainAssigned_piece _ _).mono
  rintro _ _ rfl
  rw [post_bind, post_indentLevel, post_bind, post_lookupSymbol, post_bind]
  apply (emitDecRef_piece left).mono
  rintro _ _ rfl
  rw [post_pure]
  refine ⟨rfl, ?_⟩
  rw [wrote_eq_moved, wrote_eq_moved, wrote_eq_moved, moved_moved]
  rfl

theorem countArg_piece (arg : Str) :
    Post (countArg gen s.symbolTable.getIndentLevel arg) s fun b s' ↦
      b = (s.addRefCounts && ((settingOf gen s).pointer arg).isSome) ∧
        s' = wrote s (if s.addRefCounts then (settingOf gen s).incText arg else "") := by
  unfold countArg Setting.incText
  rw [post_bind, post_lookupSymbol]
  change Post (match (settingOf gen s).pointer arg with
    | none => pure false
    | some assignedFrom => _) s _
  cases (settingOf gen s).pointer arg with
  | none =>
    refine post_pure.mpr ⟨(Bool.and_false _).symm, ?_⟩
    rw [ite_self]
    exact moved_nil.symm
  | some assignedFrom =>
    dsimp only
    rw [post_bind, post_get]
    cases hcounting : s.addRefCounts with
    | false =>
      rw [if_neg Bool.false_ne_true, if_neg Bool.false_ne_true]
      exact post_pure.mpr ⟨rfl, moved_nil.symm⟩
    | true =>
      rw [if_pos rfl, if_pos rfl, post_bind, post_emit, post_pure]
      exact ⟨rfl, rfl⟩

theorem releaseText_piece (gen : CCodeGenerator) (arg : Str) :
    Post (Ast.releaseText gen s.symbolTable.getIndentLevel arg) s fun text s' ↦
      text = (settingOf gen s).releaseText arg ∧ s' = s := by
  unfold Ast.releaseText Setting.releaseText
  rw [post_bind, post_lookupSymbol]
  change Post (match (settingOf gen s).pointer arg with
    | some assignedFrom => _
    | none => _) s _
  cases (settingOf gen s).pointer arg with
  | none => exact post_pure.mpr ⟨rfl, rfl⟩
  | some assignedFrom => exact post_pure.mpr ⟨rfl, rfl⟩

theorem run_initializerLines (is : List Initializer) : ∀ s : VState,
    (initializerLines gen s.symbolTable.getIndentLevel is).run s =
      .ok (initCode s.symbolTable.getIndentLevel is,
        wrote s ((settingOf gen s).initCounts is)) := by
  induction is with
  | nil =>
    intro s
    change Except.ok ([], s) = .ok ([], wrote s [])
    rw [wrote_nil]
  | cons i is ih =>
    intro s
    obtain ⟨name, value⟩ := i
    have hrest : (initializerLines gen s.symbolTable.getIndentLevel is).run
        (wrote s ((settingOf gen s).incText value.getText)) =
          .ok (initCode s.symbolTable.getIndentLevel is,
            wrote (wrote s ((settingOf gen s).incText value.getText))
              ((settingOf gen s).initCounts is)) :=
      ih (wrote s _)
    rw [initializerLines, run_bind_of_ok (run_lookupSymbol value.getText),
      run_bind_of_ok (run_emitIncRef_text value.getText), run_bind_of_ok hrest,
      Setting.initCounts, initCode, wrote_wrote]
    rfl

theorem initializerLines_piece (is : List Initializer) :
    Post (initializerLines gen s.symbolTable.getIndentLevel is) s fun code s' ↦
      code = initCode s.symbolTable.getIndentLevel is ∧
        s' = wrote s ((settingOf gen s).initCounts is) :=
  .of_ok (run_initializerLines is s) ⟨rfl, rfl⟩

theorem freshTemp_piece :
    Post freshTemp s fun temp s' ↦
      temp = tempName s.tempVarCounter ∧ s' = moved s [] (s.tempVarCounter + 1) := by
  unfold freshTemp
  rw [post_bind, post_get, post_bind, post_modify, post_pure]
  refine ⟨rfl, ?_⟩
  simp [moved]

theorem resolveTypeFromContext_piece (t : TypeSpec) :
    Post (resolveTypeFromContext t) s fun type s' ↦ type = typeOf s.typeSystem t ∧ s' = s := by
  unfold resolveTypeFromContext
  rw [post_askTypes]
  intro type htype
  refine ⟨?_, rfl⟩
  rw [typeOf, htype]

theorem receiverClass_piece (objExpr : Str) :
    Post (receiverClass objExpr) s fun className s' ↦ s' = s ∧
      ∃ var, s.symbolTable.lookupSymbol objExpr = some var ∧ var.type.structName = className := by
  unfold receiverClass
  rw [post_bind, post_lookupSymbol]
  cases s.symbolTable.lookupSymbol objExpr with
  | none => exact post_throw.mpr trivial
  | some var =>
    dsimp only
    split
    · exact post_pure.mpr ⟨rfl, var, rfl, rfl⟩
    · exact post_throw.mpr trivial

/-- A method call, with the object and the arguments visited. -/
theorem methodCallCode_piece (gen : CCodeGenerator) {objExpr methodName currentClass : Str}
    {method : Function} {var : Variable} (hvar : s.symbolTable.lookupSymbol objExpr = some var)
    (hmethod : findMethod s.typeSystem var.type.structName methodName = .ok (currentClass, method))
    (args : List Str) :
    Post (methodCallCode objExpr methodName var.type.structName currentClass method args) s
      fun code s' ↦ code = (settingOf gen s).methodText objExpr methodName args ∧ s' = s := by
  have htext : (settingOf gen s).methodText objExpr methodName args =
      (settingOf gen s).foundMethodText objExpr methodName var.type.structName currentClass method
        args := by
    unfold Setting.methodText settingOf
    dsimp only
    rw [hvar]
    dsimp only
    rw [hmethod]
  rw [htext]
  unfold methodCallCode Setting.foundMethodText
  split
  · rw [post_bind, post_askTypes]
    intro type htype
    rw [post_pure]
    refine ⟨?_, rfl⟩
    have hclass : (settingOf gen s).classOf var.type.structName = type := by
      unfold Setting.classOf settingOf
      dsimp only
      rw [htype]
    rw [hclass]
  · exact post_pure.mpr ⟨rfl, rfl⟩

/-- What the visit of an expression returns and does. -/
def Gives (gen : CCodeGenerator) (s : VState) (e : Expr) (code : Str) (s' : VState) : Prop :=
  code = (settingOf gen s).codeOf s.tempVarCounter e ∧
    s' = moved s (piecesText s.symbolTable.getIndentLevel
      ((settingOf gen s).piecesOf s.tempVarCounter e))
      (s.tempVarCounter + temps (settingOf gen s).site e)

/-- What the visit of arguments returns and does, where `ps` is written for them. -/
def GivesArgs (gen : CCodeGenerator) (s : VState) (es : List Expr) (ps : List Piece)
    (codes : List Str) (s' : VState) : Prop :=
  codes = (settingOf gen s).codesOf s.tempVarCounter es ∧
    s' = moved s (piecesText s.symbolTable.getIndentLevel ps)
      (s.tempVarCounter + argsTemps (settingOf gen s).site es)

/-- A visit that passes on to one operand. -/
theorem gives_unary {e e' : Expr} {code code' : Str} {s' : VState} (h : Gives gen s e code s')
    (hcode : code' = (settingOf gen s).codeOf s.tempVarCounter e')
    (hpieces : (settingOf gen s).piecesOf s.tempVarCounter e' =
      ((settingOf gen s).piecesOf s.tempVarCounter e).map (Piece.under 0))
    (htemps : temps (settingOf gen s).site e' = temps (settingOf gen s).site e) :
    Gives gen s e' code' s' := by
  refine ⟨hcode, ?_⟩
  rw [h.2, hpieces, piecesText_under, htemps]

/-- A visit of two operands. -/
theorem gives_binary {l r e : Expr} {left right code : Str} {s₁ s₂ : VState}
    (hl : Gives gen s l left s₁) (hr : Gives gen s₁ r right s₂)
    (hcode : code = (settingOf gen s).codeOf s.tempVarCounter e)
    (hpieces : (settingOf gen s).piecesOf s.tempVarCounter e =
      ((settingOf gen s).piecesOf s.tempVarCounter l).map (Piece.under 0) ++
        ((settingOf gen s).piecesOf (s.tempVarCounter + temps (settingOf gen s).site l) r).map
          (Piece.under 1))
    (htemps : temps (settingOf gen s).site e =
      temps (settingOf gen s).site l + temps (settingOf gen s).site r) : Gives gen s e code s₂ := by
  refine ⟨hcode, ?_⟩
  obtain ⟨-, rfl⟩ := hl
  obtain ⟨-, rfl⟩ := hr
  rw [moved_moved, hpieces, piecesText_append, piecesText_under, piecesText_under, htemps,
    ← Nat.add_assoc]
  rfl

mutual

/-- The visit of an expression in the second pass returns `codeOf` and writes `piecesOf`. -/
theorem visitExpr_gives : ∀ (e : Expr) (s : VState), s.firstPass = false →
    Post (visitExpr gen e) s (Gives gen s e)
  | .paren e, s, hs | .member e _, s, hs | .addressOf e, s, hs | .dereference e, s, hs
  | .postIncrement e, s, hs | .postDecrement e, s, hs | .preIncrement e, s, hs
  | .preDecrement e, s, hs => by
    simp only [visitExpr, post_bind, post_pure]
    apply (visitExpr_gives e s hs).mono
    intro code s' h
    refine gives_unary h ?_ (by rw [Setting.piecesOf]) (by rw [temps])
    rw [h.1, Setting.codeOf]
  | .ident _, s, _ | .primaryLiteral _, s, _ | .literal _, s, _ => by
    simp only [visitExpr, post_pure]
    refine ⟨by rw [Setting.codeOf], ?_⟩
    rw [Setting.piecesOf, temps]
    exact moved_nil.symm
  | .var _, s, _ => by
    simp only [visitExpr]
    exact post_throw.mpr trivial
  | .new t, s, _ => by
    simp only [visitExpr, post_bind, post_pure]
    apply (resolveTypeFromContext_piece t).mono
    rintro _ _ ⟨rfl, rfl⟩
    refine ⟨by rw [Setting.codeOf]; rfl, ?_⟩
    rw [Setting.piecesOf, temps]
    exact moved_nil.symm
  | .mulDiv l _ r, s, hs | .addSub l _ r, s, hs | .compare l _ r, s, hs
  | .arrayAccess l r, s, hs => by
    simp only [visitExpr, post_bind, post_pure]
    apply (visitExpr_gives l s hs).mono
    intro left s₁ hl
    have hs₁ : s₁.firstPass = false := by rw [hl.2]; exact hs
    apply (visitExpr_gives r s₁ hs₁).mono
    intro right s₂ hr
    refine gives_binary hl hr ?_ (by rw [Setting.piecesOf]) (by rw [temps])
    rw [hr.1, hl.1, hl.2, Setting.codeOf]
    rfl
  | .assign l r, s, hs => by
    unfold visitExpr
    rw [post_bind, post_inFirstPass, hs, if_neg Bool.false_ne_true, post_bind]
    apply (visitExpr_gives l s hs).mono
    rintro _ _ ⟨rfl, rfl⟩
    rw [post_bind]
    apply (visitExpr_gives r (moved s _ _) hs).mono
    rintro _ _ ⟨rfl, rfl⟩
    apply (assignCode_piece _ _).mono
    rintro _ _ ⟨rfl, rfl⟩
    refine ⟨by rw [Setting.codeOf]; rfl, ?_⟩
    simp only [wrote_eq_moved, moved_moved, settingOf_moved, moved_symbolTable,
      moved_tempVarCounter, Setting.piecesOf, piecesText_append, piecesText_under,
      piecesText_cons, piecesText_nil, Piece.text, Setting.temps_assign, List.append_nil,
      List.append_assoc, Nat.add_assoc]
  | .funcCall name args, s, hs => by
    unfold visitExpr
    rw [post_bind, post_inFirstPass, hs, if_neg Bool.false_ne_true, post_bind, post_indentLevel,
      post_bind]
    apply (visitCallArgs_gives args 0 s hs).mono
    rintro ⟨codes, pointerArgs⟩ _ ⟨⟨hcodes, rfl⟩, hpointer⟩
    dsimp only at hcodes hpointer ⊢
    subst hcodes
    subst hpointer
    unfold whenCounting
    rw [post_bind, post_bind, post_get, moved_addRefCounts]
    cases hcounting : s.addRefCounts with
    | false =>
      rw [if_neg Bool.false_ne_true, post_pure, post_pure]
      have hset : (settingOf gen s).counting = false := hcounting
      refine ⟨?_, ?_⟩
      · rw [Setting.codeOf, Setting.callText, hset]
        rfl
      · rw [Setting.piecesOf, Setting.temps_funcCall, hset]
        simp
    | true =>
      rw [if_pos rfl]
      have hset : (settingOf gen s).counting = true := hcounting
      apply (visitReleasedArgs_gives args 0 (moved s _ _) hs).mono
      rintro _ _ ⟨rfl, rfl⟩
      rw [post_pure]
      refine ⟨?_, ?_⟩
      · rw [Setting.codeOf, Setting.callText, hset]
        rfl
      · simp only [moved_moved, settingOf_moved, moved_symbolTable, moved_tempVarCounter,
          Setting.piecesOf, Setting.temps_funcCall, hset, if_true, piecesText_append, Nat.add_assoc]
  | .newWithConstructor name args, s, hs => by
    unfold visitExpr
    rw [post_bind, post_inFirstPass, hs, if_neg Bool.false_ne_true, post_bind, post_get]
    cases hconstructor : s.typeSystem.getClassConstructor name.text with
    | none => exact post_throw.mpr trivial
    | some constructor =>
      dsimp only
      rw [post_bind]
      apply freshTemp_piece.mono
      rintro _ _ ⟨rfl, rfl⟩
      rw [post_bind, post_indentLevel, post_bind, post_askTypes]
      intro classType hclassType
      rw [post_bind, post_emit, post_bind]
      apply (visitArgs_gives args 0 (wrote (moved s [] (s.tempVarCounter + 1)) _) hs).mono
      rintro _ _ ⟨rfl, rfl⟩
      rw [post_bind, post_emit, post_pure]
      refine ⟨by rw [Setting.codeOf], ?_⟩
      have hclass : (settingOf gen s).classOf name.text = classType := by
        have h : s.typeSystem.resolveType name.text = .ok classType := hclassType
        unfold Setting.classOf settingOf
        dsimp only
        rw [h]
      have hname : (settingOf gen s).constructorOf name.text = constructor.name := by
        unfold Setting.constructorOf settingOf
        dsimp only
        rw [hconstructor]
        rfl
      rw [Setting.piecesOf, Setting.temps_newWithConstructor, hclass, hname]
      change wrote (moved (wrote (moved s _ _) _) _ _) _ = _
      simp only [wrote_eq_moved, moved_moved, settingOf_moved, moved_symbolTable,
        moved_tempVarCounter, piecesText_append, piecesText_cons, piecesText_nil, Piece.text,
        List.nil_append, List.append_nil, List.append_assoc, Nat.add_assoc]
  | .pointerMember e name, s, hs => by
    unfold visitExpr
    rw [post_bind, post_inFirstPass, hs, if_neg Bool.false_ne_true, post_bind]
    apply (visitExpr_gives e s hs).mono
    intro base s' h
    rw [post_bind, post_get, post_pure]
    refine gives_unary h ?_ (by rw [Setting.piecesOf]) (Setting.temps_pointerMember ..)
    rw [h.1, h.2, Setting.codeOf]
    rfl
  | .methodCall e name args, s, hs => by
    unfold visitExpr
    rw [post_bind, post_inFirstPass, hs, if_neg Bool.false_ne_true, post_bind]
    apply (visitExpr_gives e s hs).mono
    rintro _ _ ⟨rfl, rfl⟩
    rw [post_bind]
    apply (receiverClass_piece _).mono
    rintro _ _ ⟨rfl, var, hvar, rfl⟩
    rw [post_bind, post_askTypes]
    rintro ⟨currentClass, method⟩ hmethod
    dsimp only
    rw [post_bind]
    apply (visitArgs_gives args 1 (moved s _ _) hs).mono
    rintro _ _ ⟨rfl, rfl⟩
    apply (methodCallCode_piece gen (s := moved (moved s _ _) _ _) hvar hmethod _).mono
    rintro _ _ ⟨rfl, rfl⟩
    refine ⟨by rw [Setting.codeOf]; rfl, ?_⟩
    simp only [moved_moved, settingOf_moved, moved_symbolTable, moved_tempVarCounter,
      Setting.piecesOf, piecesText_append, piecesText_under, Setting.temps_methodCall,
      Nat.add_assoc]
  | .structInit inits _, s, hs => by
    unfold visitExpr
    split
    · rw [post_bind]
      exact post_throw.mpr trivial
    · unfold visitInitializerList
      rw [post_bind, post_bind, post_inFirstPass, hs, if_neg Bool.false_ne_true, post_bind,
        post_indentLevel]
      apply (initializerLines_piece inits).mono
      rintro _ _ ⟨rfl, rfl⟩
      rw [post_bind, post_indentLevel, post_pure]
      refine ⟨by rw [Setting.codeOf]; rfl, ?_⟩
      rw [Setting.piecesOf, temps, wrote_eq_moved]
      simp only [piecesText, List.map_cons, List.map_nil, List.flatten_cons, List.flatten_nil,
        List.append_nil]
      rfl

theorem visitArgs_gives : ∀ (es : List Expr) (i : Nat) (s : VState), s.firstPass = false →
    Post (visitArgs gen es) s
      (GivesArgs gen s es ((settingOf gen s).argPieces s.tempVarCounter i es))
  | [], i, s, _ => by
    unfold visitArgs
    rw [post_pure]
    refine ⟨by rw [Setting.codesOf], ?_⟩
    rw [Setting.argPieces, argsTemps]
    exact moved_nil.symm
  | e :: es, i, s, hs => by
    unfold visitArgs
    rw [post_bind]
    apply (visitExpr_gives e s hs).mono
    rintro _ _ ⟨rfl, rfl⟩
    rw [post_bind]
    apply (visitArgs_gives es (i + 1) (moved s _ _) hs).mono
    rintro _ _ ⟨rfl, rfl⟩
    rw [post_pure]
    refine ⟨by rw [Setting.codesOf]; rfl, ?_⟩
    rw [moved_moved, Setting.argPieces, piecesText_append, piecesText_under, argsTemps,
      ← Nat.add_assoc]
    rfl

theorem visitCallArgs_gives : ∀ (es : List Expr) (i : Nat) (s : VState), s.firstPass = false →
    Post (visitCallArgs gen s.symbolTable.getIndentLevel es) s fun r s' ↦
      GivesArgs gen s es ((settingOf gen s).countedPieces s.tempVarCounter i es) r.1 s' ∧
        r.2 = (s.addRefCounts && r.1.any fun arg ↦ ((settingOf gen s).pointer arg).isSome)
  | [], i, s, _ => by
    unfold visitCallArgs
    rw [post_pure]
    refine ⟨⟨by rw [Setting.codesOf], ?_⟩, (Bool.and_false _).symm⟩
    rw [Setting.countedPieces, argsTemps]
    exact moved_nil.symm
  | e :: es, i, s, hs => by
    unfold visitCallArgs
    rw [post_bind]
    apply (visitExpr_gives e s hs).mono
    rintro _ _ ⟨rfl, rfl⟩
    rw [post_bind]
    apply (countArg_piece (s := moved s _ _) _).mono
    rintro _ _ ⟨rfl, rfl⟩
    rw [post_bind]
    apply (visitCallArgs_gives es (i + 1) (wrote (moved s _ _) _) hs).mono
    rintro ⟨codes, counted⟩ _ ⟨⟨hcodes, rfl⟩, hcounted⟩
    dsimp only at hcodes hcounted
    subst hcodes
    subst hcounted
    rw [post_pure]
    refine ⟨⟨by rw [Setting.codesOf]; rfl, ?_⟩, ?_⟩
    · simp only [wrote_eq_moved, moved_moved, settingOf_moved, moved_symbolTable,
        moved_addRefCounts, moved_tempVarCounter, Setting.countedPieces, Setting.argPiece,
        piecesText_append, piecesText_under, piecesText_cons, Piece.text, argsTemps,
        List.append_assoc, Nat.add_assoc]
      rfl
    · rw [List.any_cons, Bool.and_or_distrib_left]
      rfl

theorem visitReleasedArgs_gives : ∀ (es : List Expr) (i : Nat) (s : VState), s.firstPass = false →
    Post (visitReleasedArgs gen s.symbolTable.getIndentLevel es) s fun code s' ↦
      code = (((settingOf gen s).codesOf s.tempVarCounter es).map
        (settingOf gen s).releaseText).flatten ∧
      s' = moved s (piecesText s.symbolTable.getIndentLevel
        ((settingOf gen s).argPieces s.tempVarCounter i es))
        (s.tempVarCounter + argsTemps (settingOf gen s).site es)
  | [], i, s, _ => by
    unfold visitReleasedArgs
    rw [post_pure]
    refine ⟨by rw [Setting.codesOf]; rfl, ?_⟩
    rw [Setting.argPieces, argsTemps]
    exact moved_nil.symm
  | e :: es, i, s, hs => by
    unfold visitReleasedArgs
    rw [post_bind]
    apply (visitExpr_gives e s hs).mono
    rintro _ _ ⟨rfl, rfl⟩
    rw [post_bind]
    apply (releaseText_piece (s := moved s _ _) gen _).mono
    rintro _ _ ⟨rfl, rfl⟩
    rw [post_bind]
    apply (visitReleasedArgs_gives es (i + 1) (moved s _ _) hs).mono
    rintro _ _ ⟨rfl, rfl⟩
    rw [post_pure]
    refine ⟨by rw [Setting.codesOf]; rfl, ?_⟩
    rw [moved_moved, Setting.argPieces, piecesText_append, piecesText_under, argsTemps,
      ← Nat.add_assoc]
    rfl

end

end JBLang.Emitted
