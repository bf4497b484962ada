import JBLang.Ast.Operands
import JBLang.Emitted.Functions

/-!
# Assignments in expressions

What the visitor writes for an expression without calls, in the second pass with reference
counting: the lines that count come first, from the innermost assignments outwards, and the text
of the expression follows as a statement. Which variables are released depends on the parse tree
alone: on the assignments whose left side is a bare name.
-/

namespace JBLang.Emitted

open JBLang.Base JBLang.Types JBLang.Codegen JBLang.Ast

/-! ### Text and lines -/

/-- Expressions without calls of functions, methods and constructors. -/
def isCallFree : Expr → Bool
  | .ident _ | .primaryLiteral _ | .literal _ | .new _ | .structInit .. => true
  | .paren e | .member e _ | .pointerMember e _ | .addressOf e | .dereference e
  | .postIncrement e | .postDecrement e | .preIncrement e | .preDecrement e => isCallFree e
  | .mulDiv left _ right | .addSub left _ right | .compare left _ right | .assign left right
  | .arrayAccess left right => isCallFree left && isCallFree right
  | .funcCall .. | .methodCall .. | .newWithConstructor .. | .var _ => false

section

variable (ts : TypeSystem) (st : SymbolTable)

/-- The right side of an assignment, cast to the type of the left side. -/
def castText (left right : Str) : Str :=
  match st.lookupSymbol left, st.lookupSymbol right with
  | some leftVar, some rightVar =>
    match ts.isCompatible rightVar.type leftVar.type with
    | .ok true => generateCast right rightVar.type leftVar.type
    | _ => right
  | _, _ => right

/-- The increment for an assigned variable. -/
def retainLines (left right : Str) : List Line :=
  match pointerVar (st.lookupSymbol right) with
  | none => []
  | some assignedFrom => match beforeFirst "->" left with
    | some pre => (pointerVar (st.lookupSymbol pre)).toList.map fun assignedTo ↦
        .incFor assignedFrom.name assignedTo.name
    | none => [.inc assignedFrom.name]

/-- The lines of an assignment. -/
def assignLines (left right : Str) : List Line :=
  retainLines st left right ++ (countedName st left).toList.map .dec

/-- The lines of an initializer list. -/
def initLines : List Initializer → List Line
  | [] => []
  | .mk _ value :: is => (countedName st value.getText).toList.map .inc ++ initLines is

/-- The text of an initializer list. -/
def initCode (indent : Str) : List Initializer → Str
  | [] => ""
  | .mk name value :: is =>
    indent ++ "." ++ name.text ++ " = " ++ value.getText ++ ",\n" ++ initCode indent is

/-- The text of an expression without calls. -/
def exprText : Expr → Str
  | .paren e => "(" ++ exprText e ++ ")"
  | .ident name => name.text
  | .primaryLiteral l | .literal l => l.getText
  | .member e name => exprText e ++ "." ++ name.text
  | .mulDiv left op right => exprText left ++ " " ++ op.getText ++ " " ++ exprText right
  | .addSub left op right => exprText left ++ " " ++ op.getText ++ " " ++ exprText right
  | .compare left op right => exprText left ++ " " ++ op.getText ++ " " ++ exprText right
  | .assign left right =>
    exprText left ++ " = " ++ castText ts st (exprText left) (exprText right)
  | .new t => generateAlloc (typeOf ts t)
  | .pointerMember e name =>
    memberAccess { symbolTable := st, typeSystem := ts } (exprText e) name.text
  | .addressOf e => "&" ++ exprText e
  | .dereference e => "*" ++ exprText e
  | .arrayAccess array index => exprText array ++ "[" ++ exprText index ++ "]"
  | .structInit inits _ =>
    "\x7b\n" ++ initCode (indentation st.scopes.length) inits ++
      indentation st.scopes.length ++ "\x7d"
  | .postIncrement e => exprText e ++ "++"
  | .postDecrement e => exprText e ++ "--"
  | .preIncrement e => "++" ++ exprText e
  | .preDecrement e => "--" ++ exprText e
  | .funcCall .. | .methodCall .. | .newWithConstructor .. | .var _ => ""

/-- The lines that count the references of an expression without calls. -/
def countLines : Expr → List Line
  | .assign left right => countLines left ++ countLines right ++
      assignLines st (exprText ts st left) (castText ts st (exprText ts st left) (exprText ts st right))
  | .structInit inits _ => initLines st inits
  | .paren e | .member e _ | .pointerMember e _ | .addressOf e | .dereference e
  | .postIncrement e | .postDecrement e | .preIncrement e | .preDecrement e => countLines e
  | .mulDiv left _ right | .addSub left _ right | .compare left _ right
  | .arrayAccess left right => countLines left ++ countLines right
  | .ident _ | .primaryLiteral _ | .literal _ | .new _ | .funcCall .. | .methodCall ..
  | .newWithConstructor .. | .var _ => []

/-- The lines of an expression statement without calls. -/
def effectLines (e : Expr) : List Line := countLines ts st e ++ [.effect (exprText ts st e)]

end

/-! ### Runs of the visitor -/

variable {s : VState}

/-- What a visit returns, and the lines that it writes. -/
def Writes (s : VState) (text : Str) (ls : List Line) (text' : Str) (s' : VState) : Prop :=
  text' = text ∧ s' = wrote s (linesText s.symbolTable.scopes.length ls)

theorem named_wrote (hs : Named s) (text : Str) : Named (wrote s text) := ⟨hs.types, hs.symbols⟩

theorem wrote_linesText (level : Nat) (ls ls' : List Line) :
    wrote (wrote s (linesText level ls)) (linesText level ls') = wrote s (linesText level (ls ++ ls')) := by
  rw [wrote_wrote, linesText_append]

theorem writes_nil (s : VState) (text : Str) : Writes s text [] text s := ⟨rfl, wrote_nil.symm⟩

theorem post_emitIncRef (var : Option Variable) :
    Post (emitIncRef ⟨true⟩ (indentation s.symbolTable.scopes.length) var "NULL") s fun _ s' ↦
      s' = wrote s (linesText s.symbolTable.scopes.length
        (((pointerVar var).map (·.name)).toList.map .inc)) :=
  ⟨fun _ _ h ↦ by rw [run_emitIncRef] at h; cases h; rfl⟩

theorem lookupSymbol_field (hs : Named s) {name : Str} {var : Variable}
    (h : s.symbolTable.lookupSymbol name = some var) : var.name = name ∧ var.fieldName = [] := by
  rw [(hs.symbols.lookupSymbol h).2]
  exact ⟨rfl, rfl⟩

theorem post_emitDecRef (hs : Named s) (name : Str) :
    Post (emitDecRef ⟨true⟩ (indentation s.symbolTable.scopes.length)
      (s.symbolTable.lookupSymbol name)) s fun _ s' ↦
      s' = wrote s (linesText s.symbolTable.scopes.length
        ((countedName s.symbolTable name).toList.map .dec)) := by
  unfold emitDecRef countedName
  cases hvar : pointerVar (s.symbolTable.lookupSymbol name) with
  | none => exact post_pure.mpr wrote_nil.symm
  | some var =>
    have hlookup := (Option.filter_eq_some_iff.mp hvar).1
    rw [post_emit, generateDecRef_of_tidy (lookupSymbol_field hs hlookup).2]
    simp [linesText, Line.text, wrote]

theorem post_initializerLines (is : List Initializer) : ∀ {s : VState},
    Post (initializerLines ⟨true⟩ (indentation s.symbolTable.scopes.length) is) s
      (Writes s (initCode (indentation s.symbolTable.scopes.length) is)
        (initLines s.symbolTable is)) := by
  induction is with
  | nil => exact fun {s} ↦ post_pure.mpr (writes_nil s _)
  | cons i is ih =>
    intro s
    obtain ⟨name, value⟩ := i
    simp only [initializerLines, post_bind, post_lookupSymbol]
    refine (post_emitIncRef _).mono fun _ s₁ hs₁ ↦ ?_
    subst hs₁
    apply (ih (s := wrote s _)).mono
    rintro code s₂ ⟨rfl, rfl⟩
    rw [post_pure]
    refine ⟨rfl, ?_⟩
    rw [wrote_symbolTable, wrote_linesText]
    rfl

theorem post_castAssigned (left right : Str) :
    Post (castAssigned left right) s fun text s' ↦
      text = castText s.typeSystem s.symbolTable left right ∧ s' = s := by
  simp only [castAssigned, castText, post_bind, post_lookupSymbol]
  cases hleft : s.symbolTable.lookupSymbol left with
  | none => exact post_pure.mpr ⟨rfl, rfl⟩
  | some leftVar =>
    simp only [castTo, post_bind, post_lookupSymbol]
    cases hright : s.symbolTable.lookupSymbol right with
    | none => exact post_pure.mpr ⟨rfl, rfl⟩
    | some rightVar =>
      simp only [post_bind, post_askTypes]
      intro b hb
      simp only [hb]
      cases b with
      | false => simp
      | true => simp

theorem post_retainAssigned (left right : Str) :
    Post (retainAssigned ⟨true⟩ left right) s fun _ s' ↦
      s' = wrote s (linesText s.symbolTable.scopes.length (retainLines s.symbolTable left right)) := by
  simp only [retainAssigned, retainLines, post_bind, post_lookupSymbol]
  cases pointerVar (s.symbolTable.lookupSymbol right) with
  | none => exact post_pure.mpr wrote_nil.symm
  | some assignedFrom =>
    simp only
    cases beforeFirst "->" left with
    | none =>
      simp only [post_bind, post_indentLevel, post_emit]
      simp [linesText, Line.text, wrote, CCodeGenerator.generateIncRef, SymbolTable.getIndentLevel,
        indentation]
    | some pre =>
      simp only [post_bind, post_lookupSymbol]
      cases pointerVar (s.symbolTable.lookupSymbol pre) with
      | none => exact post_pure.mpr wrote_nil.symm
      | some assignedTo =>
        simp only [post_bind, post_indentLevel, post_emit]
        simp [linesText, Line.text, wrote, CCodeGenerator.generateIncRef,
          SymbolTable.getIndentLevel, indentation]

theorem post_assignCode (hs : Named s) (left right : Str) :
    Post (assignCode ⟨true⟩ left right) s
      (Writes s (left ++ " = " ++ castText s.typeSystem s.symbolTable left right)
        (assignLines s.symbolTable left (castText s.typeSystem s.symbolTable left right))) := by
  simp only [assignCode, post_bind]
  refine (post_castAssigned left right).mono fun text s₁ ⟨htext, hs₁⟩ ↦ ?_
  subst htext hs₁
  refine (post_retainAssigned left _).mono fun _ s₂ hs₂ ↦ ?_
  subst hs₂
  simp only [post_indentLevel, post_lookupSymbol, wrote_symbolTable]
  refine (post_emitDecRef (named_wrote hs _) left).mono fun _ s₃ hs₃ ↦ ?_
  subst hs₃
  rw [post_pure]
  refine ⟨rfl, ?_⟩
  rw [wrote_symbolTable, wrote_linesText]
  rfl

variable {st : SymbolTable} {text : Str}

/-- A visit around another one adds to the text. -/
theorem post_around {m : VisitM Str} {ls : List Line} (h : Post m s (Writes s text ls))
    (f : Str → Str) : Post (do let code ← m; return f code) s (Writes s (f text) ls) := by
  simp only [post_bind, post_pure]
  apply h.mono
  rintro code s₁ ⟨rfl, hs₁⟩
  exact ⟨rfl, hs₁⟩

/-- Two visits one after the other. -/
theorem post_both {m m' : VisitM Str} {text' : Str} {ls ls' : List Line}
    (h : Post m s (Writes s text ls)) (h' : ∀ s₁, s₁ = wrote s (linesText s.symbolTable.scopes.length ls) →
      Post m' s₁ (Writes s₁ text' ls')) (f : Str → Str → Str) :
    Post (do let code ← m; let code' ← m'; return f code code') s
      (Writes s (f text text') (ls ++ ls')) := by
  simp only [post_bind, post_pure]
  apply h.mono
  rintro code s₁ ⟨rfl, rfl⟩
  apply (h' _ rfl).mono
  rintro code' s₂ ⟨rfl, rfl⟩
  exact ⟨rfl, wrote_linesText _ ls ls'⟩

/-- What a visit of an expression without calls returns and writes. -/
theorem visitExpr_callFree : ∀ (e : Expr) {s : VState}, Named s → s.firstPass = false →
    isCallFree e = true → Post (visitExpr ⟨true⟩ e) s
      (Writes s (exprText s.typeSystem s.symbolTable e) (countLines s.typeSystem s.symbolTable e))
  | .ident _, s, _, _, _ | .primaryLiteral _, s, _, _, _ | .literal _, s, _, _, _ => by
    rw [visitExpr, exprText, countLines]
    exact post_pure.mpr (writes_nil s _)
  | .new t, s, _, _, _ => by
    rw [visitExpr, exprText, countLines]
    simp only [resolveTypeFromContext, post_bind, post_askTypes, post_pure]
    intro type htype
    rw [typeOf, htype]
    exact writes_nil s _
  | .structInit is _, s, hs, hpass, _ => by
    rw [visitExpr, exprText, countLines]
    simp only [post_bind, post_ite, post_throw, post_pure, post_indentLevel]
    refine ⟨fun _ ↦ trivial, fun _ ↦ ?_⟩
    simp only [visitInitializerList, post_bind, post_inFirstPass, hpass, Bool.false_eq_true,
      if_false, post_indentLevel]
    apply (post_initializerLines is).mono
    rintro code s₁ ⟨rfl, rfl⟩
    exact ⟨rfl, rfl⟩
  | .paren e, s, hs, hpass, h | .member e _, s, hs, hpass, h | .addressOf e, s, hs, hpass, h
  | .dereference e, s, hs, hpass, h | .postIncrement e, s, hs, hpass, h
  | .postDecrement e, s, hs, hpass, h | .preIncrement e, s, hs, hpass, h
  | .preDecrement e, s, hs, hpass, h => by
    rw [visitExpr, exprText, countLines]
    exact post_around (visitExpr_callFree e hs hpass h) _
  | .pointerMember e name, s, hs, hpass, h => by
    rw [visitExpr, exprText, countLines]
    simp only [post_bind, post_inFirstPass, hpass, Bool.false_eq_true, if_false, post_get,
      post_pure]
    apply (visitExpr_callFree e hs hpass h).mono
    rintro code s₁ ⟨rfl, rfl⟩
    exact ⟨rfl, rfl⟩
  | .mulDiv left _ right, s, hs, hpass, h | .addSub left _ right, s, hs, hpass, h
  | .compare left _ right, s, hs, hpass, h | .arrayAccess left right, s, hs, hpass, h => by
    rw [isCallFree, Bool.and_eq_true] at h
    rw [visitExpr, exprText, countLines]
    refine post_both (visitExpr_callFree left hs hpass h.1) (fun s₁ hs₁ ↦ ?_) _
    subst hs₁
    exact visitExpr_callFree right (named_wrote hs _) hpass h.2
  | .assign left right, s, hs, hpass, h => by
    rw [isCallFree, Bool.and_eq_true] at h
    rw [visitExpr, exprText, countLines]
    simp only [post_bind, post_inFirstPass, hpass, Bool.false_eq_true, if_false]
    apply (visitExpr_callFree left hs hpass h.1).mono
    rintro code s₁ ⟨rfl, rfl⟩
    apply (visitExpr_callFree right (named_wrote hs _) hpass h.2).mono
    rintro code s₂ ⟨rfl, rfl⟩
    apply (post_assignCode (named_wrote (named_wrote hs _) _) _ _).mono
    rintro code s₃ ⟨rfl, rfl⟩
    refine ⟨rfl, ?_⟩
    simp only [wrote_symbolTable, wrote_typeSystem, wrote_linesText]

/-- The lines of an expression statement without calls. -/
theorem visitExprStmt_callFree {e : Expr} (hs : Named s) (hpass : s.firstPass = false)
    (h : isCallFree e = true) :
    Post (visitExprStmt ⟨true⟩ e) s fun _ s' ↦ s' = wrote s
      (linesText s.symbolTable.scopes.length (effectLines s.typeSystem s.symbolTable e)) := by
  simp only [visitExprStmt, post_bind, post_secondPassOnly, post_indentLevel, post_emit]
  apply (visitExpr_callFree e hs hpass h).mono
  rintro code s₁ ⟨rfl, rfl⟩
  refine ⟨fun hfirst ↦ ?_, fun _ ↦ ?_⟩
  · rw [show (wrote s _).firstPass = s.firstPass from rfl, hpass] at hfirst
    cases hfirst
  · rw [effectLines, linesText_append]
    simp [wrote, linesText, Line.text, SymbolTable.getIndentLevel, indentation]

/-! ### Released variables -/

/-- The expression is a name. -/
def isName (p : Ident) : Expr → Bool
  | .ident q => q = p
  | _ => false

/-- An assignment that is visited has the bare name on its left side. The values of an initializer
list are not visited. -/
def assignsName (p : Ident) : Expr → Bool
  | .assign left right => isName p left || assignsName p left || assignsName p right
  | .paren e | .member e _ | .pointerMember e _ | .addressOf e | .dereference e
  | .postIncrement e | .postDecrement e | .preIncrement e | .preDecrement e
  | .methodCall e _ _ => assignsName p e
  | .mulDiv left _ right | .addSub left _ right | .compare left _ right
  | .arrayAccess left right => assignsName p left || assignsName p right
  | .ident _ | .primaryLiteral _ | .literal _ | .new _ | .structInit .. | .funcCall ..
  | .newWithConstructor .. | .var _ => false

variable {e : Expr} {p : Ident} {rest : List Token} {n : Nat}

theorem isName_iff : isName p e = true ↔ e = .ident p := by
  cases e <;> simp [isName]

/-- The text of an expression without calls is a name only where the expression is. -/
theorem exprText_eq_identifier (ts : TypeSystem) (st : SymbolTable)
    (hfree : isCallFree e = true) (htext : isIdentifier (exprText ts st e) = true) :
    ∃ q, e = .ident q := by
  have hno : ∀ {c : Char} {text : Str}, isIdentifier text = true → isIdentRest c = false →
      c ∉ text := fun h hc hmem ↦ by
    rw [not_identifier_of_mem hmem hc] at h
    cases h
  cases e with
  | ident q => exact ⟨q, rfl⟩
  | primaryLiteral l | literal l =>
    rw [exprText, literal_not_identifier] at htext
    cases htext
  | pointerMember e name =>
    rw [exprText, memberAccess_not_identifier] at htext
    cases htext
  | paren e => exact absurd (by simp [exprText]) (hno (c := '(') htext (by decide))
  | member e name => exact absurd (by simp [exprText]) (hno (c := '.') htext (by decide))
  | mulDiv l op r | addSub l op r | compare l op r | assign l r =>
    exact absurd (by simp [exprText]) (hno (c := ' ') htext (by decide))
  | new t =>
    have hmem : '(' ∈ generateAlloc (typeOf ts t) :=
      List.mem_append_left _ (List.mem_append_left _ (by decide))
    rw [exprText] at htext
    exact absurd hmem (hno htext (by decide))
  | addressOf e => exact absurd (by simp [exprText]) (hno (c := '&') htext (by decide))
  | dereference e => exact absurd (by simp [exprText]) (hno (c := '*') htext (by decide))
  | arrayAccess a i => exact absurd (by simp [exprText]) (hno (c := '[') htext (by decide))
  | structInit is c => exact absurd (by simp [exprText]) (hno (c := '\x7b') htext (by decide))
  | postIncrement e | preIncrement e =>
    exact absurd (by simp [exprText]) (hno (c := '+') htext (by decide))
  | postDecrement e | preDecrement e =>
    exact absurd (by simp [exprText]) (hno (c := '-') htext (by decide))
  | funcCall | methodCall | newWithConstructor | var => cases hfree

theorem countedName_eq_some (h : NamedTable st) {name : Str}
    (hname : countedName st text = some name) : name = text ∧ isIdentifier text = true := by
  obtain ⟨var, hvar, rfl⟩ := Option.map_eq_some_iff.mp hname
  obtain ⟨hparam, heq⟩ := h.lookupSymbol (Option.filter_eq_some_iff.mp hvar).1
  rw [heq]
  exact ⟨rfl, hparam.name⟩

theorem countedName_of_isSome (h : NamedTable st) {y : Str}
    (hsome : (countedName st y).isSome) : countedName st y = some y := by
  obtain ⟨name, hname⟩ := Option.isSome_iff_exists.mp hsome
  rw [hname, (countedName_eq_some h hname).1]

/-- An assignment releases the variable that is its left side, and nothing else. -/
theorem dec_mem_assignLines {ts : TypeSystem} (h : NamedTable st) {left : Expr}
    (hfree : isCallFree left = true) (right : Str) (p : Ident) :
    Line.dec p.text ∈ assignLines st (exprText ts st left) right ↔
      (countedName st p.text).isSome = true ∧ isName p left = true := by
  have hretain : ∀ name, Line.dec name ∉ retainLines st (exprText ts st left) right := by
    intro name
    unfold retainLines
    split
    · simp
    · split <;> simp
  rw [assignLines, List.mem_append, or_iff_right (hretain _), isName_iff]
  simp only [List.mem_map, Option.mem_toList, Line.dec.injEq, exists_eq_right]
  constructor
  · intro hcounted
    obtain ⟨htext, hident⟩ := countedName_eq_some h hcounted
    obtain ⟨q, rfl⟩ := exprText_eq_identifier ts st hfree hident
    rw [exprText] at htext hcounted
    have hq : q = p := by
      cases q
      cases p
      cases htext
      rfl
    subst hq
    exact ⟨by rw [hcounted]; rfl, rfl⟩
  · rintro ⟨hsome, rfl⟩
    rw [exprText]
    obtain ⟨name, hname⟩ := Option.isSome_iff_exists.mp hsome
    rw [hname, (countedName_eq_some h hname).1]

/-- A pointer variable is released if and only if it is the left side of an assignment. -/
theorem dec_mem_countLines {ts : TypeSystem} (h : NamedTable st) (p : Ident) :
    ∀ {e : Expr}, isCallFree e = true → (Line.dec p.text ∈ countLines ts st e ↔
      (countedName st p.text).isSome = true ∧ assignsName p e = true)
  | .assign left right, hfree => by
    rw [isCallFree, Bool.and_eq_true] at hfree
    rw [countLines, List.mem_append, List.mem_append, dec_mem_countLines h p hfree.1,
      dec_mem_countLines h p hfree.2, dec_mem_assignLines h hfree.1, assignsName]
    simp only [Bool.or_eq_true]
    tauto
  | .structInit is _, _ => by
    have hinits : ∀ is : List Initializer, Line.dec p.text ∉ initLines st is := by
      intro is
      induction is with
      | nil => simp [initLines]
      | cons i is ih =>
        obtain ⟨name, value⟩ := i
        simp [initLines, ih]
    simp [countLines, assignsName, hinits is]
  | .paren e, hfree | .member e _, hfree | .pointerMember e _, hfree | .addressOf e, hfree
  | .dereference e, hfree | .postIncrement e, hfree | .postDecrement e, hfree
  | .preIncrement e, hfree | .preDecrement e, hfree => by
    rw [countLines, assignsName]
    exact dec_mem_countLines h p hfree
  | .mulDiv left _ right, hfree | .addSub left _ right, hfree | .compare left _ right, hfree
  | .arrayAccess left right, hfree => by
    rw [isCallFree, Bool.and_eq_true] at hfree
    rw [countLines, List.mem_append, dec_mem_countLines h p hfree.1,
      dec_mem_countLines h p hfree.2, assignsName, Bool.or_eq_true]
    tauto
  | .ident _, _ | .primaryLiteral _, _ | .literal _, _ | .new _, _ => by
    simp [countLines, assignsName]

/-! ### Assignments that are read -/

variable {ts : List Token} {level : Nat} {expr : Nat → List Token → Option (Expr × List Token)}

theorem assignsName_apply {e' : Expr} {op : SuffixOp}
    (he : assignsName p e = true) (h : parseSuffix expr n e ts op = some (e', rest)) :
    assignsName p e' = true := by
  cases op with
  | member name | pointerMember name | postIncrement | postDecrement =>
    cases h
    rwa [assignsName]
  | binary op =>
    simp only [parseSuffix, bind_eq_read, pure_eq_read, Prod.exists] at h
    obtain ⟨right, ts₁, -, rfl, rfl⟩ := h
    cases op <;> simp [BinaryOp.apply, assignsName, he]
  | arrayAccess =>
    simp only [parseSuffix, bind_eq_read, pure_eq_read, Prod.exists] at h
    obtain ⟨index, ts₁, -, ts₂, -, rfl, rfl⟩ := h
    simp [assignsName, he]
  | methodCall name =>
    simp only [parseSuffix, bind_eq_read, pure_eq_read, Prod.exists] at h
    obtain ⟨args, ts₁, -, rfl, rfl⟩ := h
    rwa [assignsName]

/-- The loop keeps the assignments of what it starts with. -/
theorem assignsName_suffixes {e' : Expr} {m : Nat}
    (he : assignsName p e = true) (h : parseSuffixes expr n level m e ts = some (e', rest)) :
    assignsName p e' = true := by
  induction m generalizing e ts with
  | zero => cases h
  | succ m ih =>
    rw [parseSuffixes] at h
    split at h
    · cases h
      exact he
    · split at h
      · simp only [bind_eq_read, Prod.exists] at h
        obtain ⟨e₁, ts₁, he₁, hrest⟩ := h
        exact ih (assignsName_apply he he₁) hrest
      · cases h
        exact he

/-- A name before `=` is assigned where it is read at the level of `=` or below. -/
theorem assignsName_of_name (hlevel : level ≤ BinaryOp.assign.level)
    (h : parseExpr n level (.ident p :: .equal :: ts) = some (e, rest)) : assignsName p e = true := by
  cases n with
  | zero => cases h
  | succ n =>
    simp only [parseExpr, parseOperand, Option.bind_eq_bind, Option.bind_some] at h
    cases n with
    | zero => cases h
    | succ n =>
      rw [parseSuffixes] at h
      simp only [readSuffix, Token.binaryOp, Option.map_some] at h
      rw [if_pos (show level ≤ (SuffixOp.binary .assign).level from hlevel)] at h
      simp only [bind_eq_read, Prod.exists] at h
      obtain ⟨e₁, ts₁, he₁, hrest⟩ := h
      simp only [parseSuffix, bind_eq_read, pure_eq_read, Prod.exists] at he₁
      obtain ⟨right, ts₂, -, rfl, rfl⟩ := he₁
      exact assignsName_suffixes (by simp [BinaryOp.apply, assignsName, isName]) hrest

/-- Behind stars a name before `=` is assigned. -/
theorem assignsName_of_stars (k : Nat) (hlevel : k = 0 → level ≤ BinaryOp.assign.level)
    (h : parseExpr n level (List.replicate k .star ++ .ident p :: .equal :: ts) = some (e, rest)) :
    assignsName p e = true := by
  induction k generalizing n level e rest with
  | zero => exact assignsName_of_name (hlevel rfl) h
  | succ k ih =>
    cases n with
    | zero => cases h
    | succ n =>
      simp only [List.replicate_succ, List.cons_append, parseExpr, parseOperand, Token.literal,
        Token.unaryOp, Option.bind_eq_bind, Option.bind_some, Option.bind_eq_some_iff,
        Option.pure_def, Prod.exists] at h
      obtain ⟨e₁, ts₁, ⟨e₂, ts₂, he₂, heq⟩, hrest⟩ := h
      cases heq
      refine assignsName_suffixes ?_ hrest
      rw [UnaryOp.apply, assignsName]
      exact ih (fun _ ↦ by decide) he₂

/-- An assignment to a bare name is a name before `=` in the tokens, and not a member's. -/
theorem occurs_of_assignsName : ∀ {e : Expr}, assignsName p e = true → ∀ start,
    ∃ i right, Occurs start e i (.assign (.ident p) right)
  | .assign left right, h, start => by
    rw [assignsName, Bool.or_eq_true, Bool.or_eq_true] at h
    rcases h with (h | h) | h
    · rw [isName_iff] at h
      rw [h]
      exact ⟨start, right, .self start _⟩
    · obtain ⟨i, r, hi⟩ := occurs_of_assignsName h start
      exact ⟨i, r, .child (by simp [children]) hi⟩
    · obtain ⟨i, r, hi⟩ := occurs_of_assignsName h (start + left.tokens.length + 1)
      exact ⟨i, r, .child (by simp [children]) hi⟩
  | .paren e, h, start | .addressOf e, h, start | .dereference e, h, start
  | .preIncrement e, h, start | .preDecrement e, h, start => by
    obtain ⟨i, r, hi⟩ := occurs_of_assignsName (e := e) h (start + 1)
    exact ⟨i, r, .child (by simp [children]) hi⟩
  | .member e _, h, start | .pointerMember e _, h, start | .postIncrement e, h, start
  | .postDecrement e, h, start | .methodCall e _ _, h, start => by
    obtain ⟨i, r, hi⟩ := occurs_of_assignsName (e := e) h start
    exact ⟨i, r, .child (by simp [children]) hi⟩
  | .mulDiv left _ right, h, start | .addSub left _ right, h, start
  | .compare left _ right, h, start | .arrayAccess left right, h, start => by
    rw [assignsName, Bool.or_eq_true] at h
    rcases h with h | h
    · obtain ⟨i, r, hi⟩ := occurs_of_assignsName h start
      exact ⟨i, r, .child (by simp [children]) hi⟩
    · obtain ⟨i, r, hi⟩ := occurs_of_assignsName h (start + left.tokens.length + 1)
      exact ⟨i, r, .child (by simp [children]) hi⟩

/-- The place of an assignment to a bare name in the tokens: the name stands before `=` and is not
a member's. -/
theorem tokens_of_assignsName (hparse : parse ts = some e)
    (h : assignsName p e = true) : ∃ i, ts[i]? = some (.ident p) ∧ ts[i + 1]? = some .equal ∧
      ∀ j, i = j + 1 → ts[j]? ≠ some .dot ∧ ts[j]? ≠ some .arrow := by
  obtain ⟨i, right, hi⟩ := occurs_of_assignsName h 0
  rw [(parse_sound hparse).1]
  rcases hi.stands with ⟨rfl, post, hpost⟩ | ⟨pre, t, post, hpost, rfl, hdot, harrow⟩
  · refine ⟨0, ?_, ?_, fun j hj ↦ by omega⟩ <;> rw [hpost] <;> simp [Expr.tokens, BinaryOp.token]
  · refine ⟨pre.length + 1, ?_, ?_, fun j hj ↦ ?_⟩
    · rw [hpost]
      simp [Expr.tokens, BinaryOp.token]
    · have hsub : pre.length + 1 + 1 - pre.length = 2 := by omega
      rw [hpost, List.getElem?_append_right (by omega), hsub]
      simp [Expr.tokens, BinaryOp.token]
    · obtain rfl : j = pre.length := by omega
      rw [hpost]
      simp [hdot, harrow]

/-- The code for an expression statement without calls releases a variable if and only if it is a
pointer variable and the bare left side of an assignment in the parse tree. A write through `*p`
is always such a tree; in any other, the name stands directly before a `=` and is not a
member's. -/
theorem write_releases_iff (p : Ident) :
    (∀ (s : VState) (e : Expr), Named s → s.firstPass = false → isCallFree e = true → ∀ r s',
      (visitExprStmt ⟨true⟩ e).run s = .ok (r, s') →
      s' = wrote s (linesText s.symbolTable.scopes.length
        (effectLines s.typeSystem s.symbolTable e)) ∧
      (.dec p.text ∈ effectLines s.typeSystem s.symbolTable e ↔
        (countedName s.symbolTable p.text).isSome = true ∧ assignsName p e = true)) ∧
    (∀ stars rest e,
      parse (List.replicate (stars + 1) .star ++ .ident p :: .equal :: rest) = some e →
      assignsName p e = true) ∧
    ∀ ts e, parse ts = some e → assignsName p e = true →
      ∃ i, ts[i]? = some (.ident p) ∧ ts[i + 1]? = some .equal ∧
        ∀ j, i = j + 1 → ts[j]? ≠ some .dot ∧ ts[j]? ≠ some .arrow := by
  refine ⟨fun s e hs hpass hfree r s' hrun ↦ ?_, fun stars rest e hparse ↦ ?_,
    fun ts e hparse h ↦ tokens_of_assignsName hparse h⟩
  · refine ⟨(visitExprStmt_callFree hs hpass hfree).of_run r s' hrun, ?_⟩
    rw [effectLines, List.mem_append, dec_mem_countLines hs.symbols p hfree]
    simp
  · rw [parse] at hparse
    split at hparse
    · next hexpr =>
      cases hparse
      exact assignsName_of_stars (stars + 1) (by simp) hexpr
    · cases hparse

private def pointerP : Ident := ⟨"p".toList, isIdentifier_p⟩

private def oneToken : IntegerToken := ⟨"1".toList, isInteger_1⟩

private def oneLiteral : Expr := .primaryLiteral (.integer oneToken)

/-- The second pass after `int* p;`. -/
def behindPointer : VState :=
  { firstPass := false
    symbolTable := declareSymbol {} pointerP.text { base := .int, isPointer := true } }

/-- `p[1] = 1` -/
def elementWrite : Expr := .assign (.arrayAccess (.ident pointerP) oneLiteral) oneLiteral

theorem write_releases_iff_element :
    ∃ s', (visitExprStmt ⟨true⟩ elementWrite).run behindPointer = .ok ((), s') ∧
      .dec pointerP.text ∉
        effectLines behindPointer.typeSystem behindPointer.symbolTable elementWrite := by
  have hnamed : Named behindPointer :=
    ⟨named_start.types, named_start.symbols.addSymbol
      (t := { base := .int, isPointer := true }) ⟨pointerP.valid, rfl, nofun⟩ rfl⟩
  obtain ⟨s', hrun⟩ : ∃ s', (visitExprStmt ⟨true⟩ elementWrite).run behindPointer = .ok ((), s') :=
    ⟨_, rfl⟩
  refine ⟨s', hrun, fun hmem ↦ ?_⟩
  have hreleases := (write_releases_iff pointerP).1 behindPointer elementWrite hnamed rfl rfl () s' hrun
  exact absurd (hreleases.2.mp hmem).2 (by decide +kernel)

/-- What a statement writes behind `int* p;`. -/
def outputBehindPointer (e : Expr) : Option Str :=
  ((visitStmt ⟨true⟩ (.exprStmt e)).run behindPointer).toOption.map fun r ↦ r.2.output

/-- `*p = 1` is read as a dereference of the assignment, and `p` is released before it. -/
theorem pointeeWrite_releases :
    parse [.star, .ident pointerP, .equal, .integer oneToken] =
        some (.dereference (.assign (.ident pointerP) oneLiteral)) ∧
      outputBehindPointer (.dereference (.assign (.ident pointerP) oneLiteral)) =
        some ("    runtime_dec_ref_count(p, 0);\n    *p = 1;\n" : Str) := by
  refine ⟨rfl, ?_⟩
  decide +kernel

end JBLang.Emitted
