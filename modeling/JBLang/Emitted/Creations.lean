import JBLang.Emitted.Hoisting
import Mathlib.Algebra.Group.Nat.Units
import Mathlib.Algebra.Group.Units.Basic

/-!
# How often the pieces of an expression are written

A part of an expression is written as often as it is visited: the arguments of a function call
twice where references are counted, the values of initializers never, and everything else once.
-/

namespace JBLang.Emitted

open JBLang.Base JBLang.Types JBLang.Codegen JBLang.Ast

/-! ### Places in expressions -/

/-- The value of an initializer. -/
def initValue : Initializer → Expr
  | .mk _ value => value

/-- The expressions in an expression, as `Place` numbers them. -/
def exprParts : Expr → List Expr
  | .paren e | .member e _ | .pointerMember e _ | .addressOf e | .dereference e
  | .postIncrement e | .postDecrement e | .preIncrement e | .preDecrement e => [e]
  | .ident _ | .primaryLiteral _ | .literal _ | .var _ | .new _ => []
  | .mulDiv l _ r | .addSub l _ r | .compare l _ r | .assign l r | .arrayAccess l r => [l, r]
  | .funcCall _ args | .newWithConstructor _ args => args
  | .methodCall e _ args => e :: args
  | .structInit inits _ => inits.map initValue

/-- The expression at a place. -/
def exprAt : Place → Expr → Option Expr
  | [], e => some e
  | i :: p, e => (exprParts e)[i]?.bind (exprAt p)

/-- A piece without its place, where that is `p`. -/
def Piece.at (p : Place) : Piece → Option Piece
  | .declare place temp type => if place = p then some (.declare [] temp type) else none
  | .construct place constructor temp args =>
    if place = p then some (.construct [] constructor temp args) else none
  | .assign place text => if place = p then some (.assign [] text) else none
  | .count _ => none

/-- The pieces that are written for a place. -/
def piecesAt (p : Place) (ps : List Piece) : List Piece := ps.filterMap (Piece.at p)

theorem piecesAt_append (p : Place) (ps qs : List Piece) :
    piecesAt p (ps ++ qs) = piecesAt p ps ++ piecesAt p qs := List.filterMap_append

theorem piecesAt_count (p : Place) (text : Str) (ps : List Piece) :
    piecesAt p (.count text :: ps) = piecesAt p ps := rfl

theorem at_under (i j : Nat) (p : Place) (piece : Piece) :
    (piece.under j).at (i :: p) = if i = j then piece.at p else none := by
  cases piece with
  | declare | construct | assign =>
    simp only [Piece.under, Piece.at, List.cons.injEq]
    grind
  | count => exact (ite_self none).symm

theorem at_nil_under (j : Nat) (piece : Piece) : (piece.under j).at [] = none := by
  cases piece <;> rfl

theorem piecesAt_under (i : Nat) (p : Place) (ps : List Piece) :
    piecesAt (i :: p) (ps.map (Piece.under i)) = piecesAt p ps := by
  simp only [piecesAt, List.filterMap_map, Function.comp_def, at_under, if_true]

theorem piecesAt_under_of_ne {i j : Nat} (h : i ≠ j) (p : Place) (ps : List Piece) :
    piecesAt (i :: p) (ps.map (Piece.under j)) = [] := by
  simp only [piecesAt, List.filterMap_map, Function.comp_def, at_under, if_neg h]
  exact List.filterMap_eq_nil_iff.mpr fun _ _ ↦ rfl

theorem piecesAt_nil_under (j : Nat) (ps : List Piece) :
    piecesAt [] (ps.map (Piece.under j)) = [] := by
  simp only [piecesAt, List.filterMap_map, Function.comp_def, at_nil_under]
  exact List.filterMap_eq_nil_iff.mpr fun _ _ ↦ rfl

/-! ### Visits -/

namespace Setting

variable (σ : Setting)

/-- How many temporaries were taken where the visits of the children begin. -/
def starts (n : Nat) : Expr → List Nat
  | .funcCall _ args => n :: if σ.counting then [n + argsTemps σ.site args] else []
  | .newWithConstructor .. => [n + 1]
  | .structInit .. => []
  | _ => [n]

/-- How many temporaries were taken at each visit of the expression at a place. -/
def visitsAt : Place → Nat → Expr → List Nat
  | [], n, _ => [n]
  | i :: p, n, e => match (exprParts e)[i]? with
    | none => []
    | some c => (σ.starts n e).flatMap fun m ↦
      visitsAt p (m + argsTemps σ.site ((exprParts e).take i)) c

/-- What is written for arguments beginning with the `j`th child says nothing about earlier
ones. -/
theorem piecesAt_argPieces_of_lt {i j : Nat} (h : i < j) (p : Place) : ∀ (es : List Expr) (n : Nat),
    piecesAt (i :: p) (σ.argPieces n j es) = [] := by
  intro es
  induction es generalizing j with
  | nil =>
    intro n
    rw [argPieces]
    rfl
  | cons e es ih =>
    intro n
    rw [argPieces, piecesAt_append, piecesAt_under_of_ne (Nat.ne_of_lt h), ih (Nat.lt_succ_of_lt h)]
    rfl

theorem piecesAt_argPieces {c : Expr} (p : Place) : ∀ {es : List Expr} {i : Nat} (j n : Nat),
    es[i]? = some c → piecesAt ((j + i) :: p) (σ.argPieces n j es) =
      piecesAt p (σ.piecesOf (n + argsTemps σ.site (es.take i)) c) := by
  intro es
  induction es with
  | nil => exact fun _ _ h ↦ by cases h
  | cons e es ih =>
    intro i j n h
    rw [argPieces, piecesAt_append]
    cases i with
    | zero =>
      cases h
      rw [Nat.add_zero, piecesAt_under, piecesAt_argPieces_of_lt σ (Nat.lt_succ_self j),
        List.append_nil]
      rfl
    | succ i =>
      have hj : j + (i + 1) = j + 1 + i := by omega
      rw [hj, piecesAt_under_of_ne (by omega), List.nil_append, ih (j + 1) _ h, List.take_succ_cons,
        argsTemps, Nat.add_assoc]

theorem piecesAt_nil_argPieces : ∀ (es : List Expr) (n j : Nat),
    piecesAt [] (σ.argPieces n j es) = [] := by
  intro es
  induction es with
  | nil =>
    intro n j
    rw [argPieces]
    rfl
  | cons e es ih =>
    intro n j
    rw [argPieces, piecesAt_append, piecesAt_nil_under, ih]
    rfl

/-- The counts of arguments belong to no place. -/
theorem piecesAt_countedPieces (p : Place) : ∀ (es : List Expr) (n j : Nat),
    piecesAt p (σ.countedPieces n j es) = piecesAt p (σ.argPieces n j es) := by
  intro es
  induction es with
  | nil =>
    intro n j
    rw [countedPieces, argPieces]
  | cons e es ih =>
    intro n j
    rw [countedPieces, argPieces, piecesAt_append, piecesAt_append, argPiece, piecesAt_count, ih]

/-- What is written for a place in a child is written in the visits of the children. -/
theorem piecesAt_children (i : Nat) (p : Place) (n : Nat) (e : Expr) :
    piecesAt (i :: p) (σ.piecesOf n e) =
      (σ.starts n e).flatMap fun m ↦ piecesAt (i :: p) (σ.argPieces m 0 (exprParts e)) := by
  cases e with
  | paren e | member e | pointerMember e | addressOf e | dereference e | postIncrement e
  | postDecrement e | preIncrement e | preDecrement e =>
    simp only [piecesOf, starts, exprParts, argPieces, List.append_nil, List.flatMap_singleton]
  | ident | primaryLiteral | literal | var | new =>
    simp only [piecesOf, starts, exprParts, argPieces, List.flatMap_singleton]
  | mulDiv l _ r | addSub l _ r | compare l _ r | arrayAccess l r =>
    simp only [piecesOf, starts, exprParts, argPieces, List.append_nil, List.flatMap_singleton]
  | assign l r =>
    simp only [piecesOf, starts, exprParts, argPieces, List.append_nil, List.flatMap_singleton,
      piecesAt_append]
    exact List.append_nil _
  | funcCall name args =>
    simp only [piecesOf, starts, exprParts, piecesAt_append, piecesAt_countedPieces]
    cases σ.counting with
    | false => rfl
    | true => exact congrArg _ (List.append_nil _).symm
  | newWithConstructor name args =>
    simp only [piecesOf, starts, exprParts, List.flatMap_singleton, piecesAt_append]
    exact List.append_nil _
  | methodCall e name args =>
    simp only [piecesOf, starts, exprParts, argPieces, List.flatMap_singleton]
  | structInit inits =>
    simp only [piecesOf, starts]
    rfl

/-- For a place is written what each visit of its expression writes for itself. -/
theorem piecesAt_piecesOf {sub : Expr} : ∀ (p : Place) (n : Nat) (e : Expr),
    exprAt p e = some sub → piecesAt p (σ.piecesOf n e) =
      (σ.visitsAt p n e).flatMap fun m ↦ piecesAt [] (σ.piecesOf m sub) := by
  intro p
  induction p with
  | nil =>
    intro n e h
    cases h
    exact (List.append_nil _).symm
  | cons i p ih =>
    intro n e h
    obtain ⟨c, hc, hsub⟩ := Option.bind_eq_some_iff.mp h
    have hstart : ∀ m, piecesAt (i :: p) (σ.argPieces m 0 (exprParts e)) =
        (σ.visitsAt p (m + argsTemps σ.site ((exprParts e).take i)) c).flatMap fun m ↦
          piecesAt [] (σ.piecesOf m sub) := by
      intro m
      have hargs := σ.piecesAt_argPieces p 0 m hc
      rw [Nat.zero_add] at hargs
      rw [hargs, ih _ c hsub]
    rw [piecesAt_children, visitsAt, hc]
    simp only [hstart, List.flatMap_assoc]

end Setting

/-! ### The number of visits -/

/-- How often the visit of an expression visits its parts. -/
def copies (counting : Bool) : Expr → Nat
  | .funcCall .. => if counting then 2 else 1
  | .structInit .. => 0
  | _ => 1

/-- How often the expression at a place is visited. -/
def multiplicity (counting : Bool) : Place → Expr → Nat
  | [], _ => 1
  | i :: p, e => match (exprParts e)[i]? with
    | none => 0
    | some c => copies counting e * multiplicity counting p c

/-- The expression is a call that is visited with reference counts, or an initializer list. -/
def repeatsParts (counting : Bool) : Expr → Bool
  | .funcCall .. => counting
  | .structInit .. => true
  | _ => false

/-- The place is in no argument of a call that is visited with reference counts, and in no
initializer list. -/
def isDirect (counting : Bool) : Place → Expr → Bool
  | [], _ => true
  | i :: p, e => !repeatsParts counting e && (exprParts e)[i]?.any (isDirect counting p)

theorem copies_eq_one (counting : Bool) (e : Expr) :
    copies counting e = 1 ↔ repeatsParts counting e = false := by
  cases e with
  | funcCall => cases counting <;> simp [copies, repeatsParts]
  | structInit => simp [copies, repeatsParts]
  | _ => exact iff_of_true rfl rfl

theorem multiplicity_eq_one (counting : Bool) : ∀ (p : Place) (e : Expr),
    multiplicity counting p e = 1 ↔ isDirect counting p e = true := by
  intro p
  induction p with
  | nil => exact fun _ ↦ iff_of_true rfl rfl
  | cons i p ih =>
    intro e
    rw [multiplicity, isDirect]
    cases (exprParts e)[i]? with
    | none => simp
    | some c =>
      dsimp only
      rw [mul_eq_one, copies_eq_one, ih, Option.any_some, Bool.and_eq_true,
        Bool.not_eq_true']

namespace Setting

variable (σ : Setting)

theorem length_starts (n : Nat) (e : Expr) : (σ.starts n e).length = copies σ.counting e := by
  cases e with
  | funcCall =>
    rw [starts, copies]
    cases σ.counting <;> rfl
  | _ => rfl

theorem length_visitsAt : ∀ (p : Place) (n : Nat) (e : Expr),
    (σ.visitsAt p n e).length = multiplicity σ.counting p e := by
  intro p
  induction p with
  | nil => exact fun _ _ ↦ rfl
  | cons i p ih =>
    intro n e
    rw [visitsAt, multiplicity]
    cases (exprParts e)[i]? with
    | none => rfl
    | some c =>
      dsimp only
      rw [List.length_flatMap, ← length_starts σ n e]
      simp only [ih, List.map_const', List.sum_replicate_nat]

/-- The texts that the visits of the expression at a place return. -/
def textsAt (p : Place) (n : Nat) (e : Expr) : List Str :=
  match exprAt p e with
  | none => []
  | some sub => (σ.visitsAt p n e).map fun m ↦ σ.codeOf m sub

theorem piecesAt_new (n : Nat) (name : Ident) (args : List Expr) :
    piecesAt [] (σ.piecesOf n (.newWithConstructor name args)) =
      [.declare [] (tempName n) (σ.classOf name.text),
        .construct [] (σ.constructorOf name.text) (tempName n) (σ.codesOf (n + 1) args)] := by
  rw [piecesOf, piecesAt_append]
  exact congrArg (fun ps ↦ .declare [] (tempName n) (σ.classOf name.text) :: ps ++ _)
    (σ.piecesAt_nil_argPieces args (n + 1) 0)

theorem piecesAt_assign (n : Nat) (l r : Expr) : piecesAt [] (σ.piecesOf n (.assign l r)) =
    [.assign [] (σ.assignText (σ.codeOf n l) (σ.codeOf (n + temps σ.site l) r))] := by
  rw [piecesOf, piecesAt_append, piecesAt_append, piecesAt_nil_under, piecesAt_nil_under]
  rfl

end Setting

/-! ### What holds expressions -/

/-- The expressions in the first clause of a loop. -/
def headExprs : ForInit → List Expr
  | .varDecl _ init => init.toList
  | .exprStmt e => [e]
  | .none => []

/-- The arguments for the constructor of the parent class. -/
def parentCallExprs : Option (Ident × List Expr) → List Expr
  | none => []
  | some (_, args) => args

mutual

/-- The expressions in a statement and in the statements in it. -/
def stmtExprs : Stmt → List Expr
  | .functionDecl _ _ _ body | .block body => stmtsExprs body
  | .varDecl _ init => init.toList
  | .spawnStmt e | .exprStmt e => [e]
  | .returnStmt e => e.toList
  | .structDecl _ | .typedefDecl .. => []
  | .classDecl _ _ members => membersExprs members
  | .ifStmt cond thenBranch none => cond :: stmtExprs thenBranch
  | .ifStmt cond thenBranch (some elseBranch) =>
    cond :: stmtExprs thenBranch ++ stmtExprs elseBranch
  | .whileStmt cond body => cond :: stmtExprs body
  | .forStmt init cond step body =>
    headExprs init ++ cond.toList ++ step.toList ++ stmtExprs body

/-- The expressions in the statements of a list. -/
def stmtsExprs : List Stmt → List Expr
  | [] => []
  | stmt :: stmts => stmtExprs stmt ++ stmtsExprs stmts

/-- The expressions in a member of a class. -/
def memberExprs : ClassMember → List Expr
  | .field _ => []
  | .method _ _ _ _ body => stmtsExprs body
  | .constructor _ _ parentCall body => parentCallExprs parentCall ++ stmtsExprs body

/-- The expressions in the members of a class. -/
def membersExprs : List ClassMember → List Expr
  | [] => []
  | m :: ms => memberExprs m ++ membersExprs ms

end

/-- What holds expressions: a statement, or the call of the parent's constructor before the body
of a constructor. -/
inductive ExprHolder where
  | stmt (stmt : Stmt)
  | parentCall (call : Option (Ident × List Expr))

namespace ExprHolder

/-- The expressions of a statement itself; those of the statements in it are theirs. A loop with
`for` is not visited in the second pass, so that all expressions in it are its own. -/
def exprs : ExprHolder → List Expr
  | .stmt (.exprStmt e) | .stmt (.spawnStmt e) | .stmt (.ifStmt e _ _)
  | .stmt (.whileStmt e _) => [e]
  | .stmt (.varDecl _ init) => init.toList
  | .stmt (.returnStmt e) => e.toList
  | .stmt (.forStmt init cond step body) => stmtExprs (.forStmt init cond step body)
  | .stmt (.functionDecl ..) | .stmt (.block _) | .stmt (.structDecl _) | .stmt (.classDecl ..)
  | .stmt (.typedefDecl ..) => []
  | .parentCall call => parentCallExprs call

/-- Whether the second pass visits the expressions with reference counts, if it visits them. -/
def counting (s : VState) : ExprHolder → Option Bool
  | .stmt (.exprStmt _) | .stmt (.varDecl ..) | .parentCall _ => some s.addRefCounts
  | .stmt (.returnStmt _) | .stmt (.ifStmt ..) | .stmt (.whileStmt ..) => some false
  | .stmt (.spawnStmt _) | .stmt (.forStmt ..) | .stmt (.functionDecl ..) | .stmt (.block _)
  | .stmt (.structDecl _) | .stmt (.classDecl ..) | .stmt (.typedefDecl ..) => none

/-- The visit. -/
def visit (gen : CCodeGenerator) : ExprHolder → VisitM Unit
  | .stmt st => visitStmt gen st
  | .parentCall call => do
    let text ← parentConstructorCall gen call
    emit text

variable (gen : CCodeGenerator) (s : VState) (h : ExprHolder)

/-- What is written for the expressions in the second pass. -/
def pieces : List Piece :=
  match h.counting s with
  | some counting => (settingWith gen s counting).argPieces s.tempVarCounter 0 h.exprs
  | none => []

/-- The texts that the visits of the expression at a place in the `i`th expression return. -/
def texts (i : Nat) (p : Place) : List Str :=
  match h.counting s, h.exprs[i]? with
  | some counting, some e =>
    let σ := settingWith gen s counting
    σ.textsAt p (s.tempVarCounter + argsTemps σ.site (h.exprs.take i)) e
  | _, _ => []

/-- The place is visited, and is in no argument of a call that is visited with reference counts
and in no initializer list. -/
def directAt (i : Nat) (p : Place) : Bool :=
  match h.counting s, h.exprs[i]? with
  | some counting, some e => isDirect counting p e
  | _, _ => false

/-- For the creation at a place one temporary is declared and given to one constructor, and it is
the text of the creation. -/
def CreatedOnce (i : Nat) (p : Place) : Prop :=
  ∃ temp type constructor args,
    piecesAt (i :: p) (h.pieces gen s) =
      [.declare [] temp type, .construct [] constructor temp args] ∧
    h.texts gen s i p = [temp]

/-- For the assignment at a place the reference counts are written once, if there are any. -/
def CountedOnce (i : Nat) (p : Place) (counts : Bool) : Prop :=
  ((piecesAt (i :: p) (h.pieces gen s)).filter fun piece ↦ '\n' ∈ piece.text s.indent).length =
    if counts then 1 else 0

/-- The assignment of `r` to `l` has counts to write or not, whatever temporaries were taken. -/
def Counts (l r : Expr) (counts : Bool) : Prop :=
  ∀ counting n, h.counting s = some counting →
    let σ := settingWith gen s counting
    σ.countsAssign (σ.codeOf n l) (σ.codeOf (n + temps σ.site l) r) = counts

variable {gen s h} {i : Nat} {p : Place} {e sub : Expr}

theorem piecesAt_pieces {counting : Bool} (hcounting : h.counting s = some counting)
    (he : h.exprs[i]? = some e) (hsub : exprAt p e = some sub) :
    piecesAt (i :: p) (h.pieces gen s) = ((settingWith gen s counting).visitsAt p
      (s.tempVarCounter + argsTemps (settingWith gen s counting).site (h.exprs.take i)) e).flatMap
        fun m ↦ piecesAt [] ((settingWith gen s counting).piecesOf m sub) := by
  have hargs := (settingWith gen s counting).piecesAt_argPieces p 0 s.tempVarCounter he
  rw [Nat.zero_add] at hargs
  rw [pieces, hcounting]
  dsimp only
  rw [hargs, Setting.piecesAt_piecesOf _ p _ e hsub]

theorem visits_once_iff (gen : CCodeGenerator) (s : VState) (counting : Bool) (n : Nat) :
    ((settingWith gen s counting).visitsAt p n e).length = 1 ↔ isDirect counting p e = true := by
  rw [Setting.length_visitsAt]
  exact multiplicity_eq_one counting p e

theorem pieces_of_skipped (hcounting : h.counting s = none) : h.pieces gen s = [] := by
  rw [pieces, hcounting]

/-- A creation is written once exactly if its place is direct. -/
theorem createdOnce_iff {name : Ident} {args : List Expr} (he : h.exprs[i]? = some e)
    (hsub : exprAt p e = some (.newWithConstructor name args)) :
    h.CreatedOnce gen s i p ↔ h.directAt s i p = true := by
  unfold CreatedOnce directAt texts
  rw [he]
  cases hcounting : h.counting s with
  | none =>
    refine iff_of_false ?_ Bool.false_ne_true
    rintro ⟨_, _, _, _, -, htexts⟩
    cases htexts
  | some counting =>
    dsimp only
    rw [piecesAt_pieces hcounting he hsub, Setting.textsAt, hsub]
    dsimp only
    rw [← visits_once_iff gen s]
    constructor
    · rintro ⟨temp, -, -, -, -, htexts⟩
      have hlength := congrArg List.length htexts
      rwa [List.length_map] at hlength
    · intro hlength
      obtain ⟨m, hm⟩ := List.length_eq_one_iff.mp hlength
      rw [hm, List.flatMap_singleton, Setting.piecesAt_new, List.map_singleton, Setting.codeOf]
      exact ⟨tempName m, _, _, _, rfl, rfl⟩

/-- The counts of an assignment are written once exactly if its place is direct or there are
none. -/
theorem countedOnce_iff {l r : Expr} {counts : Bool} (he : h.exprs[i]? = some e)
    (hsub : exprAt p e = some (.assign l r)) (hcounts : h.Counts gen s l r counts) :
    h.CountedOnce gen s i p counts ↔ (counts = true → h.directAt s i p = true) := by
  unfold CountedOnce directAt
  rw [he]
  cases hcounting : h.counting s with
  | none =>
    rw [pieces_of_skipped hcounting]
    cases counts <;> simp [piecesAt]
  | some counting =>
    dsimp only
    have hwrites : ∀ m, (piecesAt [] ((settingWith gen s counting).piecesOf m (.assign l r))).filter
        (fun piece ↦ '\n' ∈ piece.text s.indent) = if counts then
          piecesAt [] ((settingWith gen s counting).piecesOf m (.assign l r)) else [] := by
      intro m
      have hline := (settingWith gen s counting).newline_mem_assignText
        ((settingWith gen s counting).codeOf m l) ((settingWith gen s counting).codeOf
          (m + temps (settingWith gen s counting).site l) r)
      rw [hcounts counting m hcounting] at hline
      rw [Setting.piecesAt_assign, List.filter_singleton, Piece.text]
      simp only [hline, Bool.decide_eq_true, Bool.cond_eq_ite]
    rw [piecesAt_pieces hcounting he hsub, List.filter_flatMap]
    simp only [hwrites]
    cases counts with
    | false => simp
    | true =>
      rw [imp_iff_right rfl]
      simp only [if_true, Setting.piecesAt_assign, List.length_flatMap, List.length_singleton,
        List.map_const', List.sum_replicate_nat, Nat.mul_one]
      exact visits_once_iff gen s counting _

/-! ### The output -/

/-- The pieces of one expression. -/
theorem piecesText_single (σ : Setting) (indent : Str) (n : Nat) (e : Expr) :
    piecesText indent (σ.argPieces n 0 [e]) = piecesText indent (σ.piecesOf n e) := by
  rw [Setting.argPieces, Setting.argPieces, List.append_nil, piecesText_under]

theorem writes_of_hasExpr {stmt : Stmt} {counting : Bool} {opening : Str} {s' : VState}
    (hs : s.firstPass = false) (h : HasExpr s stmt counting e opening)
    (hrun : (visitStmt gen stmt).run s = .ok ((), s')) : ∃ before behind,
      s'.output = s.output ++ before ++ hoistedFor gen s counting e ++ behind := by
  cases hstmt : isConditional stmt with
  | false =>
    obtain ⟨own, rest, -, hout⟩ := (h.writtenBehind hs hstmt).of_run _ _ hrun
    refine ⟨[], own ++ opening ++ rest, ?_⟩
    rw [hout]
    simp only [List.append_assoc, List.append_nil]
  | true =>
    obtain ⟨rest, hout⟩ := (h.writtenInside hs hstmt).of_run _ _ hrun
    refine ⟨opening, rest, ?_⟩
    rw [← hout]
    simp only [List.append_assoc]

theorem pieces_of_no_exprs (hexprs : h.exprs = []) : h.pieces gen s = [] := by
  unfold pieces
  cases h.counting s with
  | none => rfl
  | some counting =>
    dsimp only
    rw [hexprs, Setting.argPieces]

theorem writes_parentCall (hs : s.firstPass = false) (call : Option (Ident × List Expr)) :
    Post ((parentCall call).visit gen) s fun _ s' ↦ ∃ behind,
      s'.output = s.output ++ piecesText s.indent ((parentCall call).pieces gen s) ++ behind := by
  unfold visit
  rw [post_bind]
  cases call with
  | none =>
    refine post_pure.mpr (post_emit.mpr ⟨[], ?_⟩)
    rw [pieces_of_no_exprs rfl, piecesText_nil, List.append_nil]
    rfl
  | some call =>
    obtain ⟨parentName, args⟩ := call
    unfold parentConstructorCall
    dsimp only
    split
    · rw [post_bind]
      exact post_throw.mpr trivial
    · rw [post_bind]
      apply (visitArgs_gives args 0 s hs).mono
      rintro _ _ ⟨rfl, rfl⟩
      rw [post_bind, post_indentLevel, post_pure, post_emit]
      exact ⟨_, rfl⟩

/-- What is written for the expressions stands in the output. -/
theorem writes_pieces {s' : VState} (hs : s.firstPass = false)
    (hrun : (h.visit gen).run s = .ok ((), s')) : ∃ before behind,
      s'.output = s.output ++ before ++ piecesText s.indent (h.pieces gen s) ++ behind := by
  cases h with
  | parentCall call =>
    obtain ⟨behind, hout⟩ := (writes_parentCall hs call).of_run _ _ hrun
    exact ⟨[], behind, by rw [hout, List.append_nil]⟩
  | stmt st =>
    have hgrows : s.output <+: s'.output := ((visitStmt_steps st s).of_run _ _ hrun).output_grows
    have hnone : (stmt st).pieces gen s = [] → ∃ before behind, s'.output =
        s.output ++ before ++ piecesText s.indent ((stmt st).pieces gen s) ++ behind := by
      intro hpieces
      obtain ⟨rest, hrest⟩ := hgrows
      refine ⟨[], rest, ?_⟩
      rw [hpieces, piecesText_nil, List.append_nil, List.append_nil, hrest]
    have hown : ∀ {counted e opening}, HasExpr s st counted e opening →
        (stmt st).pieces gen s =
          (settingWith gen s counted).argPieces s.tempVarCounter 0 [e] → ∃ before behind, s'.output =
        s.output ++ before ++ piecesText s.indent ((stmt st).pieces gen s) ++ behind := by
      intro counted e opening hexpr hpieces
      rw [hpieces, piecesText_single]
      exact writes_of_hasExpr hs hexpr hrun
    cases st with
    | exprStmt e => exact hown (.exprStmt e) rfl
    | varDecl d init =>
      cases init with
      | none => exact hnone (pieces_of_no_exprs rfl)
      | some e =>
        have hrun' : (visitVarDecl gen d (some e)).run s = .ok ((), s') := by
          rw [visit, visitStmt] at hrun
          exact hrun
        obtain ⟨_, _, ⟨⟩, hrun'⟩ := run_bind_eq_ok.mp hrun'
        obtain ⟨⟨name, type⟩, s₁, hd, -⟩ := run_bind_eq_ok.mp hrun'
        obtain rfl := (declaratorType_frame d).of_run _ _ hd
        exact hown (.varDecl e hd) rfl
    | returnStmt e =>
      cases e with
      | none => exact hnone (pieces_of_no_exprs rfl)
      | some e => exact hown (.returnStmt e) rfl
    | ifStmt cond thenBranch elseBranch => exact hown (.ifStmt cond thenBranch elseBranch) rfl
    | whileStmt cond body => exact hown (.whileStmt cond body) rfl
    | spawnStmt | forStmt | functionDecl | block | structDecl | classDecl | typedefDecl =>
      exact hnone rfl

end ExprHolder

variable {gen : CCodeGenerator} {s s' : VState}

/-- In the second pass, each creation in a statement is written once, by one temporary that is its
text, exactly if it is in no argument of a call that is visited with reference counts, in no
initializer list and in no statement that the pass skips. So are the reference counts of an
assignment that has any. -/
theorem emitted_once_iff {h : ExprHolder} (hs : s.firstPass = false)
    (hrun : (h.visit gen).run s = .ok ((), s')) :
    (∃ before behind,
      s'.output = s.output ++ before ++ piecesText s.indent (h.pieces gen s) ++ behind) ∧
    ∀ i e p, h.exprs[i]? = some e →
      (∀ name args, exprAt p e = some (.newWithConstructor name args) →
        (h.CreatedOnce gen s i p ↔ h.directAt s i p = true)) ∧
      ∀ l r counts, exprAt p e = some (.assign l r) → h.Counts gen s l r counts →
        (h.CountedOnce gen s i p counts ↔ (counts = true → h.directAt s i p = true)) :=
  ⟨ExprHolder.writes_pieces hs hrun, fun _ _ _ he ↦
    ⟨fun _ _ hsub ↦ ExprHolder.createdOnce_iff he hsub,
      fun _ _ _ hsub hcounts ↦ ExprHolder.countedOnce_iff he hsub hcounts⟩⟩

private def createdC : Ident := ⟨"C".toList, isIdentifier_C⟩

private def calledG : Ident := ⟨"g".toList, isIdentifier_g⟩

private def createdP : Ident := ⟨"p".toList, isIdentifier_p⟩

private def createdQ : Ident := ⟨"q".toList, isIdentifier_q⟩

/-- The state in the second pass behind `class C { C() {} }`, `int* p;` and `int* q;`. -/
def behindClass : VState :=
  { (((visitStmts ⟨true⟩ [.classDecl createdC none [.constructor createdC [] none []],
      .varDecl (.plain (.pointer .int) createdP) none,
      .varDecl (.plain (.pointer .int) createdQ) none]).run { firstPass := true }).toOption.map
        Prod.snd).getD {} with firstPass := false }

/-- `new C()` -/
private def newC : Expr := .newWithConstructor createdC []

/-- `g(new C());` -/
def creationInCall : Stmt := .exprStmt (.funcCall calledG [newC])

/-- `g(p = q);` -/
def assignmentInCall : Stmt :=
  .exprStmt (.funcCall calledG [.assign (.ident createdP) (.ident createdQ)])

/-- The state behind a statement from there. -/
private def behindCreation (stmt : Stmt) : VState :=
  (((visitStmt ⟨true⟩ stmt).run behindClass).toOption.map Prod.snd).getD {}

private theorem run_behindCreation (stmt : Stmt)
    (h : ((visitStmt ⟨true⟩ stmt).run behindClass).toOption.isSome = true) :
    (visitStmt ⟨true⟩ stmt).run behindClass = .ok ((), behindCreation stmt) := by
  unfold behindCreation
  cases hrun : (visitStmt ⟨true⟩ stmt).run behindClass with
  | error e =>
    rw [hrun] at h
    cases h
  | ok r => rfl

theorem emitted_once_iff_newC : ∃ s', (visitStmt ⟨true⟩ (.exprStmt newC)).run behindClass =
    .ok ((), s') ∧ (ExprHolder.stmt (.exprStmt newC)).CreatedOnce ⟨true⟩ behindClass 0 [] := by
  have hrun := run_behindCreation (.exprStmt newC) (by decide +kernel)
  exact ⟨_, hrun, ((((emitted_once_iff (h := .stmt (.exprStmt newC)) rfl hrun).2 0 newC [] rfl).1
    createdC []) rfl).mpr rfl⟩

/-- The argument of a call is visited again for its release: the second object is created for
nothing, and the counts of the assignment are written twice. -/
theorem call_repeats :
    (∃ s', (visitStmt ⟨true⟩ creationInCall).run behindClass = .ok ((), s') ∧
      s'.output = ("    struct C* temp_0 = runtime_alloc(sizeof(struct C));\n" ++
        "    C_C(temp_0);\n    struct C* temp_1 = runtime_alloc(sizeof(struct C));\n" ++
        "    C_C(temp_1);\n        g(temp_0);\n").toList ∧
      ¬ (ExprHolder.stmt creationInCall).CreatedOnce ⟨true⟩ behindClass 0 [0]) ∧
    ∃ s', (visitStmt ⟨true⟩ assignmentInCall).run behindClass = .ok ((), s') ∧
      s'.output = ("    runtime_inc_ref_count(q, NULL);\n    runtime_dec_ref_count(p, 0);\n" ++
        "    runtime_inc_ref_count(q, NULL);\n    runtime_dec_ref_count(p, 0);\n" ++
        "        g(p = q);\n").toList ∧
      ¬ (ExprHolder.stmt assignmentInCall).CountedOnce ⟨true⟩ behindClass 0 [0] true := by
  refine ⟨⟨_, run_behindCreation _ (by decide +kernel), by decide +kernel, ?_⟩,
    _, run_behindCreation _ (by decide +kernel), by decide +kernel, ?_⟩
  · rintro ⟨temp, _, _, _, -, htexts⟩
    have htwo : ((ExprHolder.stmt creationInCall).texts ⟨true⟩ behindClass 0 [0]).length = 2 := by
      decide +kernel
    rw [htexts] at htwo
    cases htwo
  · unfold ExprHolder.CountedOnce
    decide +kernel

end JBLang.Emitted
