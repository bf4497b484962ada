import JBLang.Ast.Contributions
import JBLang.Emitted.Pieces

/-!
# Where the statements for an expression are written

The visit of an expression writes statements of its own: the temporaries of creations and the
reference counts. They are to stand before the statement that the expression is part of, and for
the condition of a loop also where the condition is evaluated again. The visits of `if` and
`while` have begun their statement when they visit the condition.
-/

namespace JBLang.Emitted

open JBLang.Base JBLang.Types JBLang.Codegen JBLang.Ast

/-! ### Expressions that write statements -/

namespace Setting

variable (σ : Setting)

/-- An assignment increments a count: its right side is a pointer variable, and its left side is
no path or begins with one. -/
def retains (left right : Str) : Bool :=
  (σ.pointer right).isSome && (beforeFirst "->" left).all fun pre ↦ (σ.pointer pre).isSome

/-- An assignment writes counts. -/
def countsAssign (left right : Str) : Bool :=
  σ.gen.useRefCounts &&
    (σ.retains left (castText σ.types σ.symbols left right) || (σ.pointer left).isSome)

/-- A text is a pointer variable whose count is written. -/
def countsText (text : Str) : Bool := σ.gen.useRefCounts && (σ.pointer text).isSome

mutual

/-- The visit of an expression writes statements: there is a creation in it, or an assignment, an
initializer list or a counted argument whose counts are written. -/
def hoists : Nat → Expr → Bool
  | n, .paren e | n, .member e _ | n, .pointerMember e _ | n, .addressOf e | n, .dereference e
  | n, .postIncrement e | n, .postDecrement e | n, .preIncrement e | n, .preDecrement e =>
    hoists n e
  | _, .ident _ | _, .primaryLiteral _ | _, .literal _ | _, .var _ | _, .new _ => false
  | n, .mulDiv l _ r | n, .addSub l _ r | n, .compare l _ r | n, .arrayAccess l r =>
    hoists n l || hoists (n + temps σ.site l) r
  | n, .assign l r => hoists n l || hoists (n + temps σ.site l) r ||
    σ.countsAssign (σ.codeOf n l) (σ.codeOf (n + temps σ.site l) r)
  | n, .funcCall _ args => argsHoist n args ||
    σ.counting && ((σ.codesOf n args).any σ.countsText ||
      argsHoist (n + argsTemps σ.site args) args)
  | _, .newWithConstructor .. => true
  | n, .methodCall e _ args => hoists n e || argsHoist (n + temps σ.site e) args
  | _, .structInit inits _ => inits.any fun | .mk _ value => σ.countsText value.getText

/-- The visit of one of the expressions writes statements. -/
def argsHoist : Nat → List Expr → Bool
  | _, [] => false
  | n, e :: es => hoists n e || argsHoist (n + temps σ.site e) es

end

end Setting

/-! ### Line ends -/

theorem newline_mem_append {s t : Str} : '\n' ∈ s ++ t ↔ '\n' ∈ s ∨ '\n' ∈ t := List.mem_append

/-- A line behind an indentation. -/
theorem newline_mem_line {indent text : Str} (h : '\n' ∉ indent) :
    '\n' ∈ indent ++ text ↔ '\n' ∈ text := by
  rw [newline_mem_append, or_iff_right h]

theorem newline_mem_end (text : Str) : '\n' ∈ text ++ ");\n".toList :=
  List.mem_append_right _ (by decide)

theorem newline_mem_generateIncRef (gen : CCodeGenerator) (var : Variable) (other : Str) :
    '\n' ∈ gen.generateIncRef var other ↔ gen.useRefCounts = true := by
  unfold CCodeGenerator.generateIncRef
  cases gen.useRefCounts with
  | false => simp
  | true => exact iff_of_true (newline_mem_end _) rfl

theorem newline_mem_generateDecRef (gen : CCodeGenerator) (var : Variable) :
    '\n' ∈ gen.generateDecRef var ↔ gen.useRefCounts = true := by
  unfold CCodeGenerator.generateDecRef
  cases gen.useRefCounts with
  | false => simp
  | true => exact iff_of_true (newline_mem_end _) rfl

theorem newline_mem_generateVarDecl (name : Str) (type : Ty) (initializer : Str) :
    '\n' ∈ generateVarDecl name type initializer :=
  List.mem_append_right _ (by decide)

namespace Setting

variable (σ : Setting)

theorem newline_not_mem_indent : '\n' ∉ σ.indent := by
  intro h
  cases List.eq_of_mem_replicate h

theorem newline_mem_incText (text : Str) : '\n' ∈ σ.incText text ↔ σ.countsText text = true := by
  unfold incText countsText
  cases σ.pointer text with
  | none => simp
  | some var =>
    dsimp only
    rw [newline_mem_line σ.newline_not_mem_indent, newline_mem_generateIncRef, Option.isSome_some,
      Bool.and_true]

theorem newline_mem_releaseText (text : Str) :
    '\n' ∈ σ.releaseText text ↔ σ.countsText text = true := by
  unfold releaseText countsText
  cases σ.pointer text with
  | none => simp
  | some var =>
    dsimp only
    rw [newline_mem_line σ.newline_not_mem_indent, newline_mem_generateDecRef, Option.isSome_some,
      Bool.and_true]

theorem newline_mem_retainText (left right : Str) :
    '\n' ∈ σ.retainText left right ↔ (σ.gen.useRefCounts && σ.retains left right) = true := by
  unfold retainText retains
  cases σ.pointer right with
  | none => simp
  | some assignedFrom =>
    rw [Option.isSome_some, Bool.true_and]
    cases beforeFirst "->" left with
    | none =>
      dsimp only
      rw [newline_mem_line σ.newline_not_mem_indent, newline_mem_generateIncRef, Option.all_none,
        Bool.and_true]
    | some pre =>
      dsimp only [Option.all_some]
      cases σ.pointer pre with
      | none => simp
      | some assignedTo =>
        dsimp only
        rw [newline_mem_line σ.newline_not_mem_indent, newline_mem_generateIncRef,
          Option.isSome_some, Bool.and_true]

theorem newline_mem_assignText (left right : Str) :
    '\n' ∈ σ.assignText left right ↔ σ.countsAssign left right = true := by
  rw [assignText, newline_mem_append, newline_mem_retainText, newline_mem_releaseText, countsText,
    countsAssign, Bool.and_or_distrib_left, Bool.or_eq_true]

theorem newline_mem_initCounts (inits : List Initializer) : '\n' ∈ σ.initCounts inits ↔
    (inits.any fun | .mk _ value => σ.countsText value.getText) = true := by
  induction inits with
  | nil => simp [initCounts]
  | cons i inits ih =>
    obtain ⟨name, value⟩ := i
    rw [initCounts, newline_mem_append, newline_mem_incText, ih, List.any_cons, Bool.or_eq_true]

theorem newline_mem_argPiece (arg : Str) : '\n' ∈ (σ.argPiece arg).text σ.indent ↔
    (σ.counting && σ.countsText arg) = true := by
  change '\n' ∈ (if σ.counting then σ.incText arg else "".toList) ↔ _
  cases σ.counting with
  | false => simp
  | true => exact σ.newline_mem_incText arg

mutual

/-- Statements are written for an expression where `hoists` says so. -/
theorem newline_mem_piecesOf : ∀ (n : Nat) (e : Expr),
    '\n' ∈ piecesText σ.indent (σ.piecesOf n e) ↔ σ.hoists n e = true
  | n, .paren e | n, .member e _ | n, .pointerMember e _ | n, .addressOf e | n, .dereference e
  | n, .postIncrement e | n, .postDecrement e | n, .preIncrement e | n, .preDecrement e => by
    rw [piecesOf, piecesText_under, hoists]
    exact newline_mem_piecesOf n e
  | _, .ident _ | _, .primaryLiteral _ | _, .literal _ | _, .var _ | _, .new _ => by
    rw [piecesOf, hoists]
    simp [piecesText_nil]
  | n, .mulDiv l _ r | n, .addSub l _ r | n, .compare l _ r | n, .arrayAccess l r => by
    rw [piecesOf, piecesText_append, piecesText_under, piecesText_under, newline_mem_append, hoists,
      newline_mem_piecesOf n l, newline_mem_piecesOf _ r, Bool.or_eq_true]
  | n, .assign l r => by
    rw [piecesOf, piecesText_append, piecesText_append, piecesText_under, piecesText_under,
      newline_mem_append, newline_mem_append, hoists, newline_mem_piecesOf n l,
      newline_mem_piecesOf _ r, Bool.or_eq_true, Bool.or_eq_true, piecesText_cons, piecesText_nil,
      List.append_nil, Piece.text, newline_mem_assignText]
  | n, .funcCall _ args => by
    rw [piecesOf, piecesText_append, newline_mem_append, newline_mem_countedPieces n 0 args, hoists]
    cases σ.counting with
    | false => simp [piecesText_nil]
    | true =>
      rw [if_pos rfl, newline_mem_argPieces _ 0 args]
      simp only [Bool.true_and, Bool.or_eq_true, or_assoc]
  | n, .newWithConstructor name args => by
    rw [piecesOf, hoists]
    refine iff_of_true ?_ rfl
    rw [List.cons_append, piecesText_cons, newline_mem_append]
    exact .inl (List.mem_append_right _ (newline_mem_generateVarDecl ..))
  | n, .methodCall e _ args => by
    rw [piecesOf, piecesText_append, piecesText_under, newline_mem_append, hoists,
      newline_mem_piecesOf n e, newline_mem_argPieces _ 1 args, Bool.or_eq_true]
  | _, .structInit inits _ => by
    rw [piecesOf, hoists, piecesText_cons, piecesText_nil, List.append_nil, Piece.text,
      newline_mem_initCounts]

theorem newline_mem_argPieces : ∀ (n i : Nat) (es : List Expr),
    '\n' ∈ piecesText σ.indent (σ.argPieces n i es) ↔ σ.argsHoist n es = true
  | _, _, [] => by
    rw [argPieces, argsHoist]
    simp [piecesText_nil]
  | n, i, e :: es => by
    rw [argPieces, piecesText_append, piecesText_under, newline_mem_append, argsHoist,
      newline_mem_piecesOf n e, newline_mem_argPieces _ _ es, Bool.or_eq_true]

theorem newline_mem_countedPieces : ∀ (n i : Nat) (es : List Expr),
    '\n' ∈ piecesText σ.indent (σ.countedPieces n i es) ↔
      (σ.argsHoist n es || σ.counting && (σ.codesOf n es).any σ.countsText) = true
  | _, _, [] => by
    rw [countedPieces, argsHoist, codesOf]
    simp [piecesText_nil]
  | n, i, e :: es => by
    rw [countedPieces, piecesText_append, piecesText_under, newline_mem_append, piecesText_cons,
      newline_mem_append, argsHoist, newline_mem_piecesOf n e, newline_mem_argPiece,
      newline_mem_countedPieces _ _ es, codesOf, List.any_cons, Bool.and_or_distrib_left]
    simp only [Bool.or_eq_true]
    grind

end

end Setting

/-! ### Statements -/

/-- What the visit of an expression depends on in a statement that sets the counting. -/
def settingWith (gen : CCodeGenerator) (s : VState) (counting : Bool) : Setting :=
  ⟨gen, s.typeSystem, s.symbolTable, counting⟩

/-- `e` is the expression of the statement `stmt`. It is visited with reference counts or without,
and the statement begins with the text `opening`. -/
inductive HasExpr (s : VState) : (stmt : Stmt) → (counting : Bool) → (e : Expr) →
    (opening : Str) → Prop
  | exprStmt (e : Expr) : HasExpr s (.exprStmt e) s.addRefCounts e s.indent
  | varDecl {d : Declarator} {name : Str} {type : Ty} (e : Expr)
    (hd : (declaratorType d).run s = .ok ((name, type), s)) :
    HasExpr s (.varDecl d (some e)) s.addRefCounts e (s.indent ++ outputVariable type name ++ " = ")
  | returnStmt (e : Expr) : HasExpr s (.returnStmt (some e)) false e (s.indent ++ "return ")
  | ifStmt (cond : Expr) (thenBranch : Stmt) (elseBranch : Option Stmt) :
    HasExpr s (.ifStmt cond thenBranch elseBranch) false cond (s.indent ++ "if (")
  | whileStmt (cond : Expr) (body : Stmt) :
    HasExpr s (.whileStmt cond body) false cond (s.indent ++ "while (")

/-- The expression of the statement is a condition. -/
def isConditional : Stmt → Bool
  | .ifStmt .. | .whileStmt .. => true
  | _ => false

def isLoop : Stmt → Bool
  | .whileStmt .. => true
  | _ => false

theorem isLoop_of_not_conditional {stmt : Stmt} (h : isConditional stmt = false) :
    isLoop stmt = false := by
  cases stmt with
  | whileStmt => cases h
  | _ => rfl

/-- The text is a sequence of counts, the statement's own ones. -/
def IsCounts (gen : CCodeGenerator) (indent text : Str) : Prop :=
  ∃ lines : List Str, text = lines.flatten ∧
    ∀ line ∈ lines, ∃ var, line = indent ++ gen.generateIncRef var "NULL" ∨
      line = indent ++ gen.generateDecRef var

/-- If there are statements in what is written for the expression of a statement, it stands before
the statement, with at most the statement's own counts in between. In a loop it stands at the end
of the body as well, where the condition is evaluated again. -/
def HoistedBefore (gen : CCodeGenerator) (stmt : Stmt) (hoisted opening : Str)
    (s s' : VState) : Prop :=
  '\n' ∈ hoisted → ∃ own rest, IsCounts gen s.indent own ∧
    s'.output = s.output ++ hoisted ++ own ++ opening ++ rest ∧
    (isLoop stmt = true → ∃ body, rest = body ++ hoisted ++ "\x7d\n")

namespace IsCounts

variable {gen : CCodeGenerator} {indent t u : Str}

theorem nil : IsCounts gen indent [] := ⟨[], rfl, by simp⟩

theorem inc (var : Variable) : IsCounts gen indent (indent ++ gen.generateIncRef var "NULL") := by
  refine ⟨[_], List.flatten_singleton.symm, fun line hline ↦ ?_⟩
  rw [List.mem_singleton.mp hline]
  exact ⟨var, .inl rfl⟩

theorem dec (var : Variable) : IsCounts gen indent (indent ++ gen.generateDecRef var) := by
  refine ⟨[_], List.flatten_singleton.symm, fun line hline ↦ ?_⟩
  rw [List.mem_singleton.mp hline]
  exact ⟨var, .inr rfl⟩

theorem append (ht : IsCounts gen indent t) (hu : IsCounts gen indent u) :
    IsCounts gen indent (t ++ u) := by
  obtain ⟨ts, rfl, hts⟩ := ht
  obtain ⟨us, rfl, hus⟩ := hu
  refine ⟨ts ++ us, List.flatten_append.symm, fun line hline ↦ ?_⟩
  exact (List.mem_append.mp hline).elim (hts line) (hus line)

theorem incText (σ : Setting) (text : Str) : IsCounts σ.gen σ.indent (σ.incText text) := by
  unfold Setting.incText
  cases σ.pointer text with
  | none => exact nil
  | some var => exact inc var

theorem releaseSymbols (symbols : List (Str × Variable)) :
    IsCounts gen indent (releaseSymbols gen indent symbols) := by
  induction symbols with
  | nil => exact nil
  | cons symbol symbols ih =>
    obtain ⟨name, var⟩ := symbol
    unfold Ast.releaseSymbols
    refine append ?_ ih
    split
    · exact dec var
    · exact nil

end IsCounts

variable {gen : CCodeGenerator} {s s' : VState}

/-- What is written for the expression of a statement. -/
def hoistedFor (gen : CCodeGenerator) (s : VState) (counting : Bool) (e : Expr) : Str :=
  piecesText s.indent ((settingWith gen s counting).piecesOf s.tempVarCounter e)

/-- The statements that are no conditional ones are written behind what their expression writes. -/
def WrittenBehind (gen : CCodeGenerator) (hoisted opening : Str) (s s' : VState) : Prop :=
  ∃ own rest, IsCounts gen s.indent own ∧
    s'.output = s.output ++ hoisted ++ own ++ opening ++ rest

theorem visitExprStmt_behind (hs : s.firstPass = false) (e : Expr) :
    Post (visitExprStmt gen e) s fun _ s' ↦
      WrittenBehind gen (hoistedFor gen s s.addRefCounts e) s.indent s s' := by
  unfold visitExprStmt
  rw [post_bind]
  apply (visitExpr_gives e s hs).mono
  rintro code _ ⟨-, rfl⟩
  refine secondPassOnly_of_second hs ?_
  rw [post_bind, post_indentLevel, post_emit]
  refine ⟨[], code ++ ";\n", .nil, ?_⟩
  rw [List.append_nil, List.append_assoc _ s.indent, ← List.append_assoc s.indent]
  rfl

theorem visitVarDecl_behind (hs : s.firstPass = false) {d : Declarator} {name : Str} {type : Ty}
    (hd : (declaratorType d).run s = .ok ((name, type), s)) (e : Expr) :
    Post (visitVarDecl gen d (some e)) s fun _ s' ↦
      WrittenBehind gen (hoistedFor gen s s.addRefCounts e)
        (s.indent ++ outputVariable type name ++ " = ") s s' := by
  unfold visitVarDecl
  rw [post_bind, post_indentLevel, post_bind]
  refine ⟨fun _ _ hd' ↦ ?_⟩
  obtain ⟨rfl, rfl⟩ : (name, type) = _ ∧ s = _ := by
    rw [hd] at hd'
    exact Prod.mk.inj (Except.ok.inj hd')
  dsimp only
  unfold rememberGlobal
  rw [post_bind, post_bind, post_get, if_neg (by simp [hs]), post_pure, post_bind]
  refine secondPassOnly_of_second hs ?_
  unfold declareVar
  rw [post_bind]
  apply (visitExpr_gives e s hs).mono
  rintro code _ ⟨-, rfl⟩
  rw [post_bind, post_lookupSymbol, post_bind]
  apply (castTo_frame code _ type).mono
  rintro code' _ rfl
  rw [post_bind, post_lookupSymbol, post_bind]
  apply (emitIncRef_piece (s := moved s _ _) code').mono
  rintro _ _ rfl
  rw [post_emit, post_addSymbol]
  intro st _
  refine ⟨_, code' ++ ";\n", IsCounts.incText (settingOf gen s) code', ?_⟩
  simp only [wrote_eq_moved, moved_moved, settingOf_moved, generateVarDecl]
  simp only [moved, hoistedFor, List.append_assoc]
  rfl

theorem visitReturnStmt_behind (hs : s.firstPass = false) (e : Expr) :
    Post (visitReturnStmt gen (some e)) s fun _ s' ↦
      WrittenBehind gen (hoistedFor gen s false e) (s.indent ++ "return ") s s' := by
  unfold visitReturnStmt visitPresent
  rw [post_bind, post_setAddRefCounts, post_bind]
  apply (visitExpr_gives e { s with addRefCounts := false } hs).mono
  rintro code _ ⟨-, rfl⟩
  rw [post_bind, post_setAddRefCounts]
  refine secondPassOnly_of_second hs ?_
  unfold emitReturn releaseScope
  rw [post_bind, post_indentLevel, post_bind, post_lookupSymbol, post_bind]
  apply (emitIncRef_piece code).mono
  rintro _ _ rfl
  rw [post_bind, post_bind, post_get, post_emit, post_emit]
  refine ⟨_, code ++ ";\n", (IsCounts.incText (settingOf gen s) code).append
    (.releaseSymbols s.symbolTable.getCurrentScopeSymbols), ?_⟩
  have regroup : ∀ o h i r d t c z : Str,
      o ++ h ++ i ++ r ++ (d ++ (t ++ c ++ z)) = o ++ h ++ (i ++ r) ++ (d ++ t) ++ (c ++ z) := by
    simp only [List.append_assoc, implies_true]
  exact regroup ..

/-- A condition is written behind the beginning of its statement. -/
theorem visitCondition_inside (hs : s.firstPass = false) (opening : Str) (cond : Expr)
    (after : Str) :
    Post (visitCondition gen opening cond after) s fun _ s' ↦
      s.output ++ (opening ++ hoistedFor gen s false cond) <+: s'.output := by
  unfold visitCondition
  rw [post_bind, post_setAddRefCounts, post_bind, post_emit, post_bind]
  apply (visitExpr_gives cond { s with addRefCounts := false, output := s.output ++ opening } hs).mono
  rintro code _ ⟨-, rfl⟩
  rw [post_bind, post_emit, post_setAddRefCounts]
  exact ⟨code ++ after, by rw [← List.append_assoc s.output]; rfl⟩

variable {stmt : Stmt} {counting : Bool} {e : Expr} {opening : Str}

/-- A statement whose expression is no condition. -/
theorem HasExpr.writtenBehind (h : HasExpr s stmt counting e opening) (hs : s.firstPass = false)
    (hstmt : isConditional stmt = false) : Post (visitStmt gen stmt) s fun _ s' ↦
      WrittenBehind gen (hoistedFor gen s counting e) opening s s' := by
  cases h with
  | exprStmt e =>
    unfold visitStmt
    exact visitExprStmt_behind hs e
  | varDecl e hd =>
    unfold visitStmt
    exact visitVarDecl_behind hs hd e
  | returnStmt e =>
    unfold visitStmt
    exact visitReturnStmt_behind hs e
  | ifStmt | whileStmt => cases hstmt

/-- A statement whose expression is a condition. -/
theorem HasExpr.writtenInside (h : HasExpr s stmt counting e opening) (hs : s.firstPass = false)
    (hstmt : isConditional stmt = true) : Post (visitStmt gen stmt) s fun _ s' ↦
      s.output ++ (opening ++ hoistedFor gen s counting e) <+: s'.output := by
  have hbody : ∀ {s₁ : VState} (body : Stmt), Post (visitStmt gen body) s₁ fun _ s₂ ↦
      s₁.output <+: s₂.output := fun {s₁} body ↦
    (visitStmt_steps body s₁).mono fun _ _ hsteps ↦ hsteps.output_grows
  cases h with
  | exprStmt | varDecl | returnStmt => cases hstmt
  | ifStmt _ thenBranch elseBranch =>
    cases elseBranch with
    | none =>
      unfold visitStmt
      refine secondPassOnly_of_second hs ?_
      rw [post_bind, post_indentLevel, post_bind]
      apply (visitCondition_inside hs _ e _).mono
      intro _ s₁ h₁
      rw [post_bind]
      apply (hbody thenBranch).mono
      intro _ s₂ h₂
      rw [post_emit]
      exact (h₁.trans h₂).trans (List.prefix_append ..)
    | some elseBranch =>
      unfold visitStmt
      refine secondPassOnly_of_second hs ?_
      rw [post_bind, post_indentLevel, post_bind]
      apply (visitCondition_inside hs _ e _).mono
      intro _ s₁ h₁
      rw [post_bind]
      apply (hbody thenBranch).mono
      intro _ s₂ h₂
      rw [post_bind, post_emit, post_bind, post_indentLevel, post_bind, post_emit, post_bind]
      apply (hbody elseBranch).mono
      intro _ s₃ h₃
      rw [post_emit]
      refine ((h₁.trans h₂).trans ?_).trans (h₃.trans (List.prefix_append ..))
      exact (List.prefix_append ..).trans (List.prefix_append ..)
  | whileStmt _ body =>
    unfold visitStmt
    refine secondPassOnly_of_second hs ?_
    rw [post_bind, post_indentLevel, post_bind]
    apply (visitCondition_inside hs _ e _).mono
    intro _ s₁ h₁
    rw [post_bind]
    apply (hbody body).mono
    intro _ s₂ h₂
    rw [post_emit]
    exact (h₁.trans h₂).trans (List.prefix_append ..)

/-- The beginning of a conditional statement is on one line. -/
theorem HasExpr.opening_line
    (h : HasExpr s stmt counting e opening) (hstmt : isConditional stmt = true) :
    '\n' ∉ opening ∧ opening ≠ [] := by
  have hindent : '\n' ∉ s.indent := (settingOf ⟨false⟩ s).newline_not_mem_indent
  cases h with
  | exprStmt | varDecl | returnStmt => cases hstmt
  | ifStmt | whileStmt =>
    refine ⟨fun hmem ↦ ?_, List.append_ne_nil_of_right_ne_nil _ (by decide)⟩
    exact absurd ((newline_mem_line hindent).mp hmem) (by decide)

/-- What is written behind another text on its first line is not written before it. -/
theorem not_shifted {h o a b : Str} (hh : '\n' ∈ h) (ho : '\n' ∉ o) (hne : o ≠ []) :
    h ++ a ≠ o ++ (h ++ b) := by
  intro heq
  have hfirst := congrArg (List.idxOf '\n') heq
  rw [List.idxOf_append_of_mem hh, List.idxOf_append_of_notMem ho,
    List.idxOf_append_of_mem hh] at hfirst
  have hlen := List.length_pos_of_ne_nil hne
  omega

/-- Whether a statement ends in the text of an expression. -/
theorem hasTerminator_iff (hs : s.firstPass = false) (hnamed : Named s)
    {output code : Str} {s₁ : VState} (hrun : (visitExpr gen e).run
      { s with addRefCounts := counting, output := output } = .ok (code, s₁)) :
    hasTerminator code = false ↔
      endsStatement gen (settingWith gen s counting).site s.tempVarCounter e = false := by
  have hsite : VState.site { s with addRefCounts := counting, output := output } =
      (settingWith gen s counting).site := by
    unfold VState.site
    rw [hs]
    rfl
  have htold := (visitExpr_told e { s with addRefCounts := counting, output := output }
    ⟨hnamed.types, hnamed.symbols⟩).of_run code s₁ hrun
  rw [htold.ends.terminator, hsite]

/-- In the second pass, what is written for the expression of a statement stands before the
statement, and for a loop also at the end of its body, exactly if the expression is no condition
or has nothing to write. The text that the statement has for the expression is not ended in the
middle, by the releases for a call, exactly if no call in it has a counted argument. -/
theorem hoistedBefore_iff {stmt : Stmt} {counting : Bool} {e : Expr} {opening : Str}
    (hs : s.firstPass = false) (h : HasExpr s stmt counting e opening)
    (hrun : (visitStmt gen stmt).run s = .ok ((), s')) :
    (HoistedBefore gen stmt (hoistedFor gen s counting e) opening s s' ↔
      (isConditional stmt = true →
        (settingWith gen s counting).hoists s.tempVarCounter e = false)) ∧
    (Named s → ∀ output code s₁, (visitExpr gen e).run
        { s with addRefCounts := counting, output := output } = .ok (code, s₁) →
      (hasTerminator code = false ↔
        endsStatement gen (settingWith gen s counting).site s.tempVarCounter e = false)) := by
  refine ⟨?_, fun hnamed output code s₁ he ↦ hasTerminator_iff hs hnamed he⟩
  have hhoists : '\n' ∈ hoistedFor gen s counting e ↔
      (settingWith gen s counting).hoists s.tempVarCounter e = true :=
    (settingWith gen s counting).newline_mem_piecesOf s.tempVarCounter e
  cases hstmt : isConditional stmt with
  | false =>
    obtain ⟨own, rest, hown, hout⟩ := (h.writtenBehind hs hstmt).of_run _ _ hrun
    refine iff_of_true (fun _ ↦ ⟨own, rest, hown, hout, ?_⟩) nofun
    rw [isLoop_of_not_conditional hstmt]
    exact nofun
  | true =>
    rw [imp_iff_right rfl, ← Bool.not_eq_true, ← hhoists]
    refine ⟨fun hbefore hmem ↦ ?_, fun hnone hmem ↦ absurd hmem hnone⟩
    obtain ⟨own, rest, -, hout, -⟩ := hbefore hmem
    obtain ⟨rest', hinside⟩ := (h.writtenInside hs hstmt).of_run _ _ hrun
    obtain ⟨hline, hne⟩ := h.opening_line hstmt
    rw [hout] at hinside
    simp only [List.append_assoc, List.append_cancel_left_eq] at hinside
    exact not_shifted hmem hline hne hinside.symm

private def hoistedP : Ident := ⟨"p".toList, isIdentifier_p⟩

private def hoistedQ : Ident := ⟨"q".toList, isIdentifier_q⟩

/-- `p = q` -/
def assignPQ : Expr := .assign (.ident hoistedP) (.ident hoistedQ)

/-- `while (p = q) \{ }` -/
def loopPQ : Stmt := .whileStmt assignPQ (.block [])

/-- The state behind the declarations `int* p; int* q;`. -/
def behindPQ : VState :=
  (((visitStmts ⟨true⟩ [.varDecl (.plain (.pointer .int) hoistedP) none,
    .varDecl (.plain (.pointer .int) hoistedQ) none]).run {}).toOption.map Prod.snd).getD {}

/-- The state behind a statement from there. -/
def behindStmt (stmt : Stmt) : VState :=
  (((visitStmt ⟨true⟩ stmt).run behindPQ).toOption.map Prod.snd).getD {}

theorem run_behindStmt (h : (((visitStmt ⟨true⟩ stmt).run behindPQ).toOption).isSome = true) :
    (visitStmt ⟨true⟩ stmt).run behindPQ = .ok ((), behindStmt stmt) := by
  unfold behindStmt
  cases hrun : (visitStmt ⟨true⟩ stmt).run behindPQ with
  | error e =>
    rw [hrun] at h
    cases h
  | ok r => rfl

theorem hoistedBefore_iff_assignPQ :
    '\n' ∈ hoistedFor ⟨true⟩ behindPQ behindPQ.addRefCounts assignPQ ∧
      HoistedBefore ⟨true⟩ (.exprStmt assignPQ)
        (hoistedFor ⟨true⟩ behindPQ behindPQ.addRefCounts assignPQ) behindPQ.indent behindPQ
        (behindStmt (.exprStmt assignPQ)) :=
  ⟨by decide +kernel, (hoistedBefore_iff (by decide +kernel) (.exprStmt assignPQ)
    (run_behindStmt (by decide +kernel))).1.mpr nofun⟩

/-- The counts of the assignment stand in the parentheses of the loop, and are not executed when
its condition is evaluated again. -/
theorem loopPQ_hoisted_inside :
    (visitStmt ⟨true⟩ loopPQ).run behindPQ = .ok ((), behindStmt loopPQ) ∧
      (behindStmt loopPQ).output = behindPQ.output ++
        ("    while (    runtime_inc_ref_count(q, NULL);\n" ++
          "    runtime_dec_ref_count(p, 0);\np = q) \x7b\n\x7b\n        \x7d\n\x7d\n").toList ∧
      ¬ HoistedBefore ⟨true⟩ loopPQ (hoistedFor ⟨true⟩ behindPQ false assignPQ)
        (behindPQ.indent ++ "while (") behindPQ (behindStmt loopPQ) := by
  refine ⟨run_behindStmt (by decide +kernel), by decide +kernel, fun h ↦ ?_⟩
  have hmem : '\n' ∈ hoistedFor ⟨true⟩ behindPQ false assignPQ := by decide +kernel
  obtain ⟨own, rest, -, hbefore, -⟩ := h hmem
  have hinside : (behindStmt loopPQ).output = behindPQ.output ++
      ((behindPQ.indent ++ "while (".toList) ++ (hoistedFor ⟨true⟩ behindPQ false assignPQ ++
        "p = q) \x7b\n\x7b\n        \x7d\n\x7d\n".toList)) := by decide +kernel
  rw [hinside, List.append_assoc _ own, List.append_assoc _ (own ++ _), List.append_assoc,
    List.append_assoc] at hbefore
  have hshifted := (List.append_cancel_left hbefore).symm
  obtain ⟨hline, hne⟩ := (HasExpr.whileStmt (s := behindPQ) assignPQ (.block [])).opening_line rfl
  exact not_shifted hmem hline hne hshifted

end JBLang.Emitted
