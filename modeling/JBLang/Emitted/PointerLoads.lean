import Mathlib.Data.List.TakeWhile
import JBLang.Emitted.Assignments
import JBLang.Emitted.Executions

/-!
# Pointers that are read from memory

Expressions that read a pointer: a variable or something in parentheses, with stars before and
members and elements behind it. `=` binds tighter than `->` and `[`, so that an assignment of such
an expression is read as a member or element of the assignment. The code that is written for
declarations and assignments of this kind, and when it counts the reference that it takes.
-/

namespace JBLang.Emitted

open JBLang.Base JBLang.Types JBLang.Codegen JBLang.Ast JBLang.Runtime

/-! ### The source -/

/-- An index: an expression without effect that is read as it is grouped. -/
structure IndexExpr where
  expr : Expr
  isPure : isPure expr = true
  fits : fits 0 expr = true
  closed : closed expr = true

/-- What follows an operand. -/
inductive LoadPart where
  | dot (field : Ident)
  | arrow (field : Ident)
  | index (i : IndexExpr)

/-- An expression that reads a pointer, as C groups it: the parts bind tighter than the stars. -/
inductive Load where
  | name (stars : Nat) (y : Ident) (parts : List LoadPart)
  | inParens (stars : Nat) (inner : Load) (parts : List LoadPart)

namespace LoadPart

/-- The tokens of a part. -/
def tokens : LoadPart → List Token
  | .dot field => [.dot, .ident field]
  | .arrow field => [.arrow, .ident field]
  | .index i => .leftBracket :: (i.expr.tokens ++ [.rightBracket])

/-- The tree with a part behind it. -/
def apply (e : Expr) : LoadPart → Expr
  | .dot field => .member e field
  | .arrow field => .pointerMember e field
  | .index i => .arrayAccess e i.expr

/-- The level of a part. -/
def level : LoadPart → Nat
  | .dot _ => precedence 2
  | .arrow _ => precedence 12
  | .index _ => precedence 15

/-- `.`, which binds tighter than `=`. -/
def isDot : LoadPart → Bool
  | .dot _ => true
  | _ => false

/-- `.` and `->`, which bind tighter than a star. -/
def isMember : LoadPart → Bool
  | .index _ => false
  | _ => true

end LoadPart

/-- The tokens of some parts. -/
def partTokens (parts : List LoadPart) : List Token := (parts.map LoadPart.tokens).flatten

/-- The tree with parts behind it. -/
def applyParts (e : Expr) (parts : List LoadPart) : Expr := parts.foldl LoadPart.apply e

/-- The tree with stars before it. -/
def addStars (e : Expr) : Nat → Expr
  | 0 => e
  | n + 1 => .dereference (addStars e n)

/-- The parse tree of an operand with stars before and parts behind it: a star takes the members
and leaves the rest from the first index on. -/
def grouped (stars : Nat) (head : Expr) (parts : List LoadPart) : Expr :=
  applyParts (addStars (applyParts head (parts.takeWhile LoadPart.isMember)) stars)
    (parts.dropWhile LoadPart.isMember)

/-- The parts that belong to the right side of an assignment. -/
def joins (stars : Nat) : LoadPart → Bool := if stars = 0 then LoadPart.isDot else LoadPart.isMember

/-- The right side of the assignment of an operand with stars and parts. -/
def rightSide (stars : Nat) (head : Expr) (parts : List LoadPart) : Expr :=
  addStars (applyParts head (parts.takeWhile (joins stars))) stars

/-- The parse tree of an assignment of an operand with stars and parts. -/
def assigned (x : Ident) (stars : Nat) (head : Expr) (parts : List LoadPart) : Expr :=
  applyParts (.assign (.ident x) (rightSide stars head parts)) (parts.dropWhile (joins stars))

namespace Load

/-- The tokens of a load. -/
def tokens : Load → List Token
  | .name stars y parts => List.replicate stars .star ++ .ident y :: partTokens parts
  | .inParens stars inner parts =>
    List.replicate stars .star ++ .leftParen :: (inner.tokens ++ .rightParen :: partTokens parts)

/-- The parse tree of a load. -/
def tree : Load → Expr
  | .name stars y parts => grouped stars (.ident y) parts
  | .inParens stars inner parts => grouped stars (.paren inner.tree) parts

/-- The number of stars. -/
def stars : Load → Nat
  | .name stars _ _ | .inParens stars _ _ => stars

/-- The operand without stars and parts. -/
def head : Load → Expr
  | .name _ y _ => .ident y
  | .inParens _ inner _ => .paren inner.tree

/-- The parts behind the operand. -/
def parts : Load → List LoadPart
  | .name _ _ parts | .inParens _ _ parts => parts

/-- The parse tree of the assignment of a load to a variable. -/
def assignTree (x : Ident) (e : Load) : Expr := assigned x e.stars e.head e.parts

end Load

/-! ### Parsing -/

theorem partTokens_append (parts parts' : List LoadPart) :
    partTokens (parts ++ parts') = partTokens parts ++ partTokens parts' := by
  simp [partTokens]

theorem tokens_applyParts (e : Expr) (parts : List LoadPart) :
    (applyParts e parts).tokens = e.tokens ++ partTokens parts := by
  induction parts generalizing e with
  | nil => simp [applyParts, partTokens]
  | cons part parts ih =>
    have hpart : (part.apply e).tokens = e.tokens ++ part.tokens := by
      cases part <;> simp [LoadPart.apply, LoadPart.tokens, Expr.tokens]
    have := ih (part.apply e)
    rw [hpart, List.append_assoc] at this
    exact this

theorem tokens_addStars (e : Expr) (n : Nat) :
    (addStars e n).tokens = List.replicate n .star ++ e.tokens := by
  induction n with
  | zero => rfl
  | succ n ih => rw [addStars, Expr.tokens, ih, List.replicate_succ, List.cons_append]

theorem tokens_grouped (stars : Nat) (head : Expr) (parts : List LoadPart) :
    (grouped stars head parts).tokens =
      List.replicate stars .star ++ (head.tokens ++ partTokens parts) := by
  rw [grouped, tokens_applyParts, tokens_addStars, tokens_applyParts, List.append_assoc,
    List.append_assoc, ← partTokens_append, List.takeWhile_append_dropWhile]

theorem tokens_assigned (x : Ident) (stars : Nat) (head : Expr) (parts : List LoadPart) :
    (assigned x stars head parts).tokens =
      .ident x :: .equal :: (List.replicate stars .star ++ (head.tokens ++ partTokens parts)) := by
  rw [assigned, tokens_applyParts, Expr.tokens, rightSide, tokens_addStars, tokens_applyParts,
    Expr.tokens, BinaryOp.token]
  simp only [List.nil_append, List.cons_append, List.append_assoc]
  rw [← partTokens_append, List.takeWhile_append_dropWhile]

theorem Load.tokens_tree : ∀ e : Load, e.tree.tokens = e.tokens
  | .name stars y parts => by
    rw [tree, tokens_grouped, tokens, Expr.tokens]
    rfl
  | .inParens stars inner parts => by
    rw [tree, tokens_grouped, tokens, Expr.tokens, tokens_tree inner]
    simp

theorem Load.tokens_head (e : Load) :
    List.replicate e.stars .star ++ (e.head.tokens ++ partTokens e.parts) = e.tokens := by
  cases e with
  | name stars y parts =>
    rw [Load.stars, head, Load.parts, tokens, Expr.tokens]
    rfl
  | inParens stars inner parts =>
    rw [Load.stars, head, Load.parts, tokens, Expr.tokens, tokens_tree]
    simp

variable {e : Expr} {part : LoadPart} {parts : List LoadPart}

theorem fits_applyParts {level : Nat} (he : fits level e = true)
    (hparts : ∀ part ∈ parts, level ≤ part.level) : fits level (applyParts e parts) = true := by
  induction parts generalizing e with
  | nil => exact he
  | cons part parts ih =>
    refine ih ?_ fun part' hmem ↦ hparts part' (List.mem_cons_of_mem _ hmem)
    have hpart := hparts part List.mem_cons_self
    cases part with
    | dot field | arrow field =>
      rw [LoadPart.level] at hpart
      simp [LoadPart.apply, fits, hpart, he]
    | index i =>
      rw [LoadPart.level] at hpart
      simp [LoadPart.apply, fits, hpart, he, i.fits]

theorem openLevel_apply (e : Expr) (part : LoadPart) : (part.apply e).openLevel = precedence 1 := by
  cases part <;> rfl

theorem openLevel_applyParts (e : Expr) (he : e.openLevel = precedence 1) (parts : List LoadPart) :
    (applyParts e parts).openLevel = precedence 1 := by
  induction parts generalizing e with
  | nil => exact he
  | cons part parts ih => exact ih _ (openLevel_apply e part)

theorem closed_applyParts (he : closed e = true)
    (hparts : ∀ part ∈ parts.head?, part.level < e.openLevel) : closed (applyParts e parts) = true := by
  induction parts generalizing e with
  | nil => exact he
  | cons part parts ih =>
    have hpart := hparts part rfl
    refine ih ?_ fun part' _ ↦ ?_
    · cases part with
      | dot field | arrow field =>
        rw [LoadPart.level] at hpart
        simp [LoadPart.apply, closed, hpart, he]
      | index i =>
        rw [LoadPart.level] at hpart
        simp [LoadPart.apply, closed, hpart, he, i.closed]
    · rw [openLevel_apply]
      cases part' <;> simp [LoadPart.level, precedence]

theorem fits_addStars (he : fits (precedence 14) e = true) (n level : Nat) :
    fits level (addStars e (n + 1)) = true := by
  induction n generalizing level with
  | zero => simpa [addStars, fits] using he
  | succ n ih =>
    rw [addStars, fits]
    exact ih _

theorem closed_addStars (he : closed e = true) (n : Nat) : closed (addStars e n) = true := by
  induction n with
  | zero => exact he
  | succ n ih => rwa [addStars, closed]

theorem openLevel_addStars (he : e.openLevel = precedence 1) (n : Nat) :
    (addStars e (n + 1)).openLevel = precedence 14 := by
  induction n with
  | zero =>
    rw [addStars, addStars, Expr.openLevel, he]
    decide
  | succ n ih =>
    rw [addStars, Expr.openLevel, ih]
    decide

/-- An operand that takes no operator. -/
structure Atom (e : Expr) : Prop where
  fits : ∀ level, fits level e = true
  closed : closed e = true
  openLevel : e.openLevel = precedence 1

theorem level_of_isDot (h : part.isDot = true) : part.level = precedence 2 := by
  cases part with
  | dot field => rfl
  | arrow field | index i => cases h

theorem level_of_isMember (h : part.isMember = true) : precedence 14 ≤ part.level := by
  cases part with
  | dot field | arrow field => simp [LoadPart.level, precedence]
  | index i => cases h

theorem level_of_not_isMember (h : part.isMember = false) : part.level = precedence 15 := by
  cases part with
  | dot field | arrow field => cases h
  | index i => rfl

theorem level_of_not_isDot (h : part.isDot = false) : part.level < precedence 7 + 1 := by
  cases part with
  | dot field => cases h
  | arrow field | index i => simp [LoadPart.level, precedence]

theorem head?_dropWhile {α : Type} {p : α → Bool} {l : List α} {a : α}
    (h : a ∈ (l.dropWhile p).head?) : p a = false := by
  induction l with
  | nil => cases h
  | cons b l ih =>
    rw [List.dropWhile_cons] at h
    split at h
    · exact ih h
    · next hb =>
      cases h
      simpa using hb

theorem Atom.grouped {head : Expr} (h : Atom head) (stars : Nat) (parts : List LoadPart) :
    Ast.fits 0 (grouped stars head parts) = true ∧ Ast.closed (grouped stars head parts) = true := by
  have hopen := openLevel_applyParts head h.openLevel (parts.takeWhile LoadPart.isMember)
  have hclosed : Ast.closed (applyParts head (parts.takeWhile LoadPart.isMember)) = true := by
    refine closed_applyParts h.closed fun part _ ↦ ?_
    rw [h.openLevel]
    cases part <;> simp [LoadPart.level, precedence]
  have hfits : Ast.fits (precedence 14) (applyParts head (parts.takeWhile LoadPart.isMember)) = true :=
    fits_applyParts (h.fits _) fun part hmem ↦ level_of_isMember (List.mem_takeWhile_imp hmem)
  constructor
  · refine fits_applyParts ?_ fun _ _ ↦ Nat.zero_le _
    cases stars with
    | zero => exact fits_applyParts (h.fits 0) fun _ _ ↦ Nat.zero_le _
    | succ n => exact fits_addStars hfits n 0
  · refine closed_applyParts (closed_addStars hclosed stars) fun part hpart ↦ ?_
    rw [level_of_not_isMember (head?_dropWhile hpart)]
    cases stars with
    | zero =>
      rw [addStars, hopen]
      decide
    | succ n =>
      rw [openLevel_addStars hopen]
      decide

theorem Atom.assigned {head : Expr} (h : Atom head) (x : Ident) (stars : Nat)
    (parts : List LoadPart) : Ast.fits 0 (assigned x stars head parts) = true ∧
      Ast.closed (assigned x stars head parts) = true := by
  have hopen := openLevel_applyParts head h.openLevel (parts.takeWhile (joins stars))
  have hclosed : Ast.closed (applyParts head (parts.takeWhile (joins stars))) = true := by
    refine closed_applyParts h.closed fun part _ ↦ ?_
    rw [h.openLevel]
    cases part <;> simp [LoadPart.level, precedence]
  constructor
  · refine fits_applyParts ?_ fun _ _ ↦ Nat.zero_le _
    rw [Ast.fits, Bool.and_eq_true, Bool.and_eq_true]
    refine ⟨⟨by decide, rfl⟩, ?_⟩
    cases stars with
    | zero =>
      refine fits_applyParts (h.fits _) fun part hmem ↦ ?_
      rw [level_of_isDot (List.mem_takeWhile_imp hmem)]
      decide
    | succ n =>
      refine fits_addStars (fits_applyParts (h.fits _) fun part hmem ↦ ?_) n _
      exact level_of_isMember (List.mem_takeWhile_imp hmem)
  · refine closed_applyParts ?_ fun part hpart ↦ ?_
    · rw [Ast.closed, Bool.and_eq_true, Bool.and_eq_true]
      exact ⟨⟨rfl, rfl⟩, closed_addStars hclosed stars⟩
    · have hjoins := head?_dropWhile hpart
      rw [Expr.openLevel, rightSide]
      cases stars with
      | zero =>
        rw [addStars, hopen]
        exact Nat.lt_of_lt_of_le (level_of_not_isDot hjoins) (by decide)
      | succ n =>
        rw [openLevel_addStars hopen, level_of_not_isMember hjoins]
        decide

theorem Load.atom_head : ∀ e : Load, Atom e.head
  | .name _ y _ => ⟨fun _ ↦ rfl, rfl, rfl⟩
  | .inParens _ inner _ => by
    have hinner : Ast.fits 0 inner.tree = true ∧ Ast.closed inner.tree = true := by
      have h := (atom_head inner).grouped inner.stars inner.parts
      cases inner <;> exact h
    exact ⟨fun _ ↦ by rw [head, Ast.fits, hinner.1], by rw [head, Ast.closed, hinner.2], rfl⟩

theorem Load.tree_eq (e : Load) : e.tree = grouped e.stars e.head e.parts := by
  cases e <;> rfl

/-- A load is read as its tree. -/
theorem Load.parse_tree (e : Load) : parse e.tokens = some e.tree := by
  have h := e.atom_head.grouped e.stars e.parts
  rw [← e.tree_eq] at h
  rw [← e.tokens_tree]
  exact parse_complete h.1 h.2

/-- An assignment of a load is read with the members and elements outside of it. -/
theorem Load.parse_assignTree (x : Ident) (e : Load) :
    parse (.ident x :: .equal :: e.tokens) = some (e.assignTree x) := by
  have h := e.atom_head.assigned x e.stars e.parts
  rw [← e.tokens_head, ← tokens_assigned]
  exact parse_complete h.1 h.2

/-! ### The code -/

section

variable (ts : TypeSystem) (st : SymbolTable)

/-- The step of a part. -/
def LoadPart.step : LoadPart → Part
  | .dot field => .dot field.text
  | .arrow field => .arrow field.text
  | .index i => .index (exprText ts st i.expr)

/-- A path with more steps. -/
def Path.steps (path : Path) (parts : List Part) : Path := parts.foldl .select path

/-- What a load denotes. -/
def Load.path : Load → Path
  | .name stars y parts =>
    ((Path.var y.text).steps (parts.map (LoadPart.step ts st))).steps (List.replicate stars .star)
  | .inParens stars inner parts =>
    (inner.path.steps (parts.map (LoadPart.step ts st))).steps (List.replicate stars .star)

/-- The name of a load that is a bare variable. -/
def Load.bare : Load → Option Ident
  | .name 0 y [] => some y
  | _ => none

/-- The variable that stands alone on the right side of the assignment that is read. -/
def Load.assignedName : Load → Option Ident
  | .name 0 y parts => if parts.head?.any LoadPart.isDot then none else some y
  | _ => none

/-- The value of a declared or assigned load. -/
def Load.value (e : Load) (target : Option Ty) (text : Str) : CValue :=
  match e.bare with
  | some y => castName ts st y.text target
  | none => .load text (e.path ts st)

/-- The code of a declaration with a load. -/
def loadDeclaration (t : TypeSpec) (x : Ident) (e : Load) : List Line :=
  let value := e.value ts st (some (typeOf ts t)) (exprText ts st e.tree)
  ownRetains st value ++ [.declare (typeOf ts t) x.text value]

/-- The text behind the `=` of an assignment of a load. -/
def Load.assignedText (x : Ident) (e : Load) : Str :=
  (exprText ts st (e.assignTree x)).drop (x.text.length + 3)

/-- The code of an assignment of a load. -/
def loadAssignment (x : Ident) (e : Load) : List Line :=
  let target := (st.lookupSymbol x.text).map (·.type)
  (e.assignedName.elim [] fun y ↦ ownRetains st (castName ts st y.text target)) ++
    (countedName st x.text).toList.map .dec ++
    [.assign x.text (e.value ts st target (e.assignedText ts st x))]

end

/-! ### Texts of trees -/

variable {ts : TypeSystem} {st : SymbolTable}

theorem isCallFree_of_isPure : ∀ {e : Expr}, isPure e = true → isCallFree e = true
  | .ident _, _ | .primaryLiteral _, _ | .literal _, _ => rfl
  | .paren e, h | .member e _, h | .pointerMember e _, h | .addressOf e, h | .dereference e, h => by
    rw [isCallFree]
    exact isCallFree_of_isPure (e := e) h
  | .mulDiv left _ right, h | .addSub left _ right, h | .compare left _ right, h
  | .arrayAccess left right, h => by
    rw [isPure, Bool.and_eq_true] at h
    rw [isCallFree, isCallFree_of_isPure h.1, isCallFree_of_isPure h.2]
    rfl

theorem countLines_of_isPure : ∀ {e : Expr}, isPure e = true → countLines ts st e = []
  | .ident _, _ | .primaryLiteral _, _ | .literal _, _ => rfl
  | .paren e, h | .member e _, h | .pointerMember e _, h | .addressOf e, h | .dereference e, h => by
    rw [countLines]
    exact countLines_of_isPure (e := e) h
  | .mulDiv left _ right, h | .addSub left _ right, h | .compare left _ right, h
  | .arrayAccess left right, h => by
    rw [isPure, Bool.and_eq_true] at h
    rw [countLines, countLines_of_isPure h.1, countLines_of_isPure h.2]
    rfl

theorem isPure_applyParts (he : isPure e = true) (parts : List LoadPart) :
    isPure (applyParts e parts) = true := by
  induction parts generalizing e with
  | nil => exact he
  | cons part parts ih =>
    refine ih ?_
    cases part with
    | dot field | arrow field => rwa [LoadPart.apply, isPure]
    | index i => rw [LoadPart.apply, isPure, he, i.isPure]; rfl

theorem isPure_addStars (he : isPure e = true) (n : Nat) : isPure (addStars e n) = true := by
  induction n with
  | zero => exact he
  | succ n ih => rwa [addStars, isPure]

theorem Load.isPure_head : ∀ e : Load, isPure e.head = true
  | .name _ _ _ => rfl
  | .inParens _ inner _ => by
    rw [head, isPure, inner.tree_eq]
    exact isPure_applyParts (isPure_addStars (isPure_applyParts inner.isPure_head _) _) _

theorem Load.isPure_tree (e : Load) : isPure e.tree = true := by
  rw [e.tree_eq]
  exact isPure_applyParts (isPure_addStars (isPure_applyParts e.isPure_head _) _) _

theorem Load.isPure_rightSide (e : Load) : isPure (rightSide e.stars e.head e.parts) = true :=
  isPure_addStars (isPure_applyParts e.isPure_head _) _

theorem isCallFree_applyParts (he : isCallFree e = true) (parts : List LoadPart) :
    isCallFree (applyParts e parts) = true := by
  induction parts generalizing e with
  | nil => exact he
  | cons part parts ih =>
    refine ih ?_
    cases part with
    | dot field | arrow field => rwa [LoadPart.apply, isCallFree]
    | index i => rw [LoadPart.apply, isCallFree, he, isCallFree_of_isPure i.isPure]; rfl

theorem countLines_applyParts (e : Expr) (parts : List LoadPart) :
    countLines ts st (applyParts e parts) = countLines ts st e := by
  induction parts generalizing e with
  | nil => rfl
  | cons part parts ih =>
    have hpart : countLines ts st (part.apply e) = countLines ts st e := by
      cases part with
      | dot field | arrow field => rw [LoadPart.apply, countLines]
      | index i => rw [LoadPart.apply, countLines, countLines_of_isPure i.isPure, List.append_nil]
    rw [← hpart]
    exact ih (part.apply e)

/-- A part is printed behind a text that is no name. -/
def LoadPart.text (ts : TypeSystem) (st : SymbolTable) : LoadPart → Str
  | .dot field => "." ++ field.text
  | .arrow field => "->" ++ field.text
  | .index i => "[" ++ exprText ts st i.expr ++ "]"

theorem exprText_apply (h : NamedTable st)
    (he : isIdentifier (exprText ts st e) = false) (part : LoadPart) :
    exprText ts st (part.apply e) = exprText ts st e ++ part.text ts st := by
  cases part with
  | dot field | index i => simp [LoadPart.apply, LoadPart.text, exprText]
  | arrow field =>
    rw [LoadPart.apply, exprText, memberAccess_of_not_identifier h he, LoadPart.text,
      List.append_assoc]

theorem apply_not_identifier (hfree : isCallFree e = true) (part : LoadPart) :
    isIdentifier (exprText ts st (part.apply e)) = false := by
  have hpart : isCallFree (part.apply e) = true := isCallFree_applyParts hfree [part]
  by_contra hname
  obtain ⟨q, hq⟩ := exprText_eq_identifier ts st hpart (by simpa using hname)
  cases part <;> cases hq

/-- Parts behind a text that is no name are printed one after the other. -/
theorem exprText_applyParts (h : NamedTable st)
    (he : isIdentifier (exprText ts st e) = false) (hfree : isCallFree e = true)
    (parts : List LoadPart) : exprText ts st (applyParts e parts) =
      exprText ts st e ++ (parts.map (LoadPart.text ts st)).flatten := by
  induction parts generalizing e with
  | nil => simp [applyParts]
  | cons part parts ih =>
    have hpart : isCallFree (part.apply e) = true := isCallFree_applyParts hfree [part]
    rw [List.map_cons, List.flatten_cons, ← List.append_assoc, ← exprText_apply h he]
    exact ih (apply_not_identifier hfree part) hpart

/-! ### Runs of the visitor -/

theorem castText_eq (x y indent : Str) :
    castText ts st x y = (castName ts st y ((st.lookupSymbol x).map (·.type))).text indent := by
  unfold castText castName
  cases st.lookupSymbol x with
  | none => cases st.lookupSymbol y <;> rfl
  | some leftVar =>
    cases st.lookupSymbol y with
    | none => rfl
    | some rightVar =>
      simp only [Option.map_some]
      rcases ts.isCompatible rightVar.type leftVar.type with _ | _ | _
      · rfl
      · rfl
      · simp only
        rw [generateCast_eq st 0, rawText]
        split <;> simp [countedArgs, CValue.text]

theorem castText_of_not_identifier (h : NamedTable st) (x : Str) {text : Str}
    (htext : isIdentifier text = false) : castText ts st x text = text := by
  rw [castText, h.lookup_none htext]
  cases st.lookupSymbol x <;> rfl

theorem retainLines_of_not_identifier (h : NamedTable st) (x : Str) {text : Str}
    (htext : isIdentifier text = false) : retainLines st x text = [] := by
  rw [retainLines, h.lookup_none htext]
  rfl

theorem retainLines_castName (h : NamedTable st) (x : Ident) (y : Ident) (indent : Str)
    (target : Option Ty) :
    retainLines st x.text ((castName ts st y.text target).text indent) =
      ownRetains st (castName ts st y.text target) := by
  have harrow : beforeFirst "->" x.text = none :=
    beforeFirst_of_not_mem (not_mem_identifier x.valid (by decide) (by decide)) _
  rcases castName_cases ts st y.text target with hcast | hcast
  · rw [hcast, CValue.text, ownRetains, retainLines, countedName, harrow]
    cases pointerVar (st.lookupSymbol y.text) <;> rfl
  · rw [hcast, retainLines_of_not_identifier h]
    · rfl
    · exact not_identifier_of_mem (c := '&') (by simp [CValue.text]) (by decide)

theorem applyParts_eq_ident {q : Ident}
    (h : applyParts e parts = .ident q) : parts = [] ∧ e = .ident q := by
  induction parts generalizing e with
  | nil => exact ⟨rfl, h⟩
  | cons part parts ih =>
    have hpart := (ih h).2
    cases part <;> cases hpart

/-- A right side is a bare variable only where the load has no star, and no `.` behind it. -/
theorem Load.rightSide_eq_ident {e : Load} {q : Ident}
    (h : rightSide e.stars e.head e.parts = .ident q) : e.assignedName = some q := by
  have hstars : e.stars = 0 := by
    cases hstars : e.stars with
    | zero => rfl
    | succ n =>
      rw [rightSide, hstars] at h
      cases h
  rw [rightSide, hstars] at h
  obtain ⟨hparts, hhead⟩ := applyParts_eq_ident h
  obtain ⟨stars, y, parts⟩ | ⟨stars, inner, parts⟩ := e
  · cases hhead
    cases hstars
    cases parts with
    | nil => rfl
    | cons part parts =>
      cases part with
      | dot field => cases hparts
      | arrow field | index i => rfl
  · cases hhead

theorem Load.rightSide_of_assignedName {e : Load} {y : Ident} (h : e.assignedName = some y) :
    rightSide e.stars e.head e.parts = .ident y := by
  obtain ⟨stars, z, parts⟩ | ⟨stars, inner, parts⟩ := e
  · cases stars with
    | zero =>
      rcases parts with _ | ⟨_ | _ | _, parts⟩ <;> cases h <;> rfl
    | succ n => cases h
  · cases h

theorem Load.rightSide_not_identifier {e : Load} (h : e.assignedName = none) :
    isIdentifier (exprText ts st (rightSide e.stars e.head e.parts)) = false := by
  by_contra hname
  obtain ⟨q, hq⟩ := exprText_eq_identifier ts st (isCallFree_of_isPure e.isPure_rightSide)
    (by simpa using hname)
  rw [e.rightSide_eq_ident hq] at h
  cases h

/-- The lines that an assignment of a load counts with. -/
theorem Load.countLines_assignTree (h : NamedTable st) (x : Ident) (e : Load) :
    countLines ts st (e.assignTree x) =
      (e.assignedName.elim [] fun y ↦
        ownRetains st (castName ts st y.text ((st.lookupSymbol x.text).map (·.type)))) ++
        (countedName st x.text).toList.map .dec := by
  rw [assignTree, assigned, countLines_applyParts, countLines, countLines_of_isPure rfl,
    countLines_of_isPure e.isPure_rightSide, exprText, assignLines]
  cases hname : e.assignedName with
  | none =>
    have hright : isIdentifier (exprText ts st (rightSide e.stars e.head e.parts)) = false :=
      e.rightSide_not_identifier hname
    rw [castText_of_not_identifier h _ hright, retainLines_of_not_identifier h _ hright]
    rfl
  | some y =>
    rw [e.rightSide_of_assignedName hname, exprText, castText_eq _ _ [], retainLines_castName h]
    rfl

/-- An assignment of a load is printed behind the variable and `=`. -/
theorem Load.exprText_assignTree (h : NamedTable st) (x : Ident) (e : Load) :
    exprText ts st (e.assignTree x) = x.text ++ " = " ++ e.assignedText ts st x := by
  have hprinted : ∃ text, exprText ts st (e.assignTree x) = x.text ++ " = " ++ text := by
    have hassign : isCallFree (.assign (.ident x) (rightSide e.stars e.head e.parts)) = true := by
      rw [isCallFree, isCallFree_of_isPure e.isPure_rightSide]
      rfl
    have hname : isIdentifier (exprText ts st
        (.assign (.ident x) (rightSide e.stars e.head e.parts))) = false :=
      not_identifier_of_mem (c := ' ') (by simp [exprText]) (by decide)
    rw [assignTree, assigned, exprText_applyParts h hname hassign, exprText, exprText,
      List.append_assoc]
    exact ⟨_, rfl⟩
  obtain ⟨text, htext⟩ := hprinted
  rw [assignedText, htext]
  simp

theorem Load.eq_of_bare {e : Load} {y : Ident} (h : e.bare = some y) : e = .name 0 y [] := by
  obtain ⟨_ | stars, z, _ | ⟨part, parts⟩⟩ | ⟨stars, inner, parts⟩ := e <;> cases h
  rfl

/-- The text of the value is that of the assignment. -/
theorem Load.text_value (x : Ident) (e : Load) (indent : Str) :
    (e.value ts st ((st.lookupSymbol x.text).map (·.type)) (e.assignedText ts st x)).text indent =
      e.assignedText ts st x := by
  rw [value]
  cases hbare : e.bare with
  | none => rfl
  | some y =>
    rw [e.eq_of_bare hbare, ← castText_eq]
    simp [assignedText, assignTree, assigned, applyParts, rightSide, addStars, Load.parts, Load.head,
      Load.stars, exprText]

/-- An assignment of a load writes its lines. -/
theorem visit_loadAssignment {s : VState} (hs : Named s) (hpass : s.firstPass = false) (x : Ident)
    (e : Load) :
    Post (visitStmt ⟨true⟩ (.exprStmt (e.assignTree x))) s fun _ s' ↦ s' = wrote s
      (linesText s.symbolTable.scopes.length
        (loadAssignment s.typeSystem s.symbolTable x e)) := by
  have hfree : isCallFree (e.assignTree x) = true := by
    refine isCallFree_applyParts ?_ _
    rw [isCallFree, isCallFree_of_isPure e.isPure_rightSide]
    rfl
  rw [visitStmt]
  refine (visitExprStmt_callFree hs hpass hfree).mono fun _ s' hs' ↦ ?_
  rw [hs', effectLines, e.countLines_assignTree hs.symbols, e.exprText_assignTree hs.symbols,
    loadAssignment, linesText_append, linesText_append _ _ [.assign _ _]]
  simp only [linesText_cons, Line.text, e.text_value]

theorem Load.bare_of_tree {e : Load} {q : Ident} (h : e.tree = .ident q) : e.bare = some q := by
  rw [e.tree_eq, grouped] at h
  obtain ⟨hrest, hstars⟩ := applyParts_eq_ident h
  have hzero : e.stars = 0 := by
    cases hzero : e.stars with
    | zero => rfl
    | succ n =>
      rw [hzero] at hstars
      cases hstars
  rw [hzero] at hstars
  obtain ⟨hmembers, hhead⟩ := applyParts_eq_ident hstars
  have hparts : e.parts = [] := by
    rw [← List.takeWhile_append_dropWhile (p := LoadPart.isMember) (l := e.parts), hmembers, hrest]
    rfl
  obtain ⟨stars, y, parts⟩ | ⟨stars, inner, parts⟩ := e
  · cases hhead
    cases hzero
    cases hparts
    rfl
  · cases hhead

theorem Load.tree_not_identifier {e : Load} (h : e.bare = none) :
    isIdentifier (exprText ts st e.tree) = false := by
  by_contra hname
  obtain ⟨q, hq⟩ := exprText_eq_identifier ts st (isCallFree_of_isPure e.isPure_tree)
    (by simpa using hname)
  rw [e.bare_of_tree hq] at h
  cases h

section

variable {s : VState}

theorem post_castTo (y : Str) (type : Ty) (indent : Str) :
    Post (castTo y (s.symbolTable.lookupSymbol y) type) s fun text s' ↦
      text = (castName s.typeSystem s.symbolTable y (some type)).text indent ∧ s' = s := by
  unfold castName
  cases hvar : s.symbolTable.lookupSymbol y with
  | none => exact post_pure.mpr ⟨rfl, rfl⟩
  | some var =>
    simp only [castTo, post_bind, post_askTypes]
    intro b hb
    simp only [hb]
    cases b with
    | false => exact post_pure.mpr ⟨rfl, rfl⟩
    | true =>
      simp only [if_true]
      rw [post_pure, generateCast_eq s.symbolTable 0, rawText]
      split <;> simp [countedArgs, CValue.text]

theorem ownRetains_castName (h : NamedTable st) (y indent : Str) (target : Option Ty) :
    ownRetains st (castName ts st y target) =
      (countedName st ((castName ts st y target).text indent)).toList.map .inc := by
  rcases castName_cases ts st y target with hcast | hcast
  · rw [hcast]
    rfl
  · have hnone : countedName st ((CValue.parent y).text indent) = none := by
      rw [countedName, h.lookup_none (not_identifier_of_mem (c := '&') (by simp [CValue.text])
        (by decide))]
      rfl
    rw [hcast, hnone]
    rfl

/-- A declaration with an initializer without effect. -/
theorem post_declareVar (hs : Named s) (hpass : s.firstPass = false)
    (he : isPure e = true) (x : Str) (type : Ty) :
    let value := castName s.typeSystem s.symbolTable (exprText s.typeSystem s.symbolTable e) type
    let level := s.symbolTable.scopes.length
    Post (declareVar ⟨true⟩ (indentation level) x type (some e)) s fun _ s' ↦
      s' = wrote s (linesText level
        (ownRetains s.symbolTable value ++ [.declare type x (some value)])) := by
  dsimp only
  simp only [declareVar, post_bind, post_lookupSymbol]
  refine (visitExpr_callFree e hs hpass (isCallFree_of_isPure he)).mono fun raw s₁ ⟨hraw, hs₁⟩ ↦ ?_
  rw [countLines_of_isPure he] at hs₁
  obtain rfl : s = s₁ := (hs₁.trans wrote_nil).symm
  subst hraw
  refine (post_castTo _ type (indentation s.symbolTable.scopes.length)).mono
    fun text s₂ ⟨htext, hs₂⟩ ↦ ?_
  rw [htext, hs₂]
  refine (post_emitIncRef _).mono fun _ s₃ hs₃ ↦ ?_
  subst hs₃
  rw [post_emit, ownRetains_castName hs.symbols _ (indentation s.symbolTable.scopes.length),
    linesText_append, ← wrote_wrote]
  simp [linesText, Line.text, wrote, countedName]

theorem linesText_loadDeclaration (h : NamedTable st) (level : Nat) (t : TypeSpec) (x : Ident)
    (e : Load) :
    let value := castName ts st (exprText ts st e.tree) (typeOf ts t)
    linesText level (ownRetains st value ++ [.declare (typeOf ts t) x.text (some value)]) =
      linesText level (loadDeclaration ts st t x e) := by
  dsimp only
  rw [loadDeclaration, Load.value]
  cases hbare : e.bare with
  | some y =>
    rw [e.eq_of_bare hbare]
    rfl
  | none =>
    have hname : isIdentifier (exprText ts st e.tree) = false := e.tree_not_identifier hbare
    have hcast : castName ts st (exprText ts st e.tree) (typeOf ts t) =
        .var (exprText ts st e.tree) := by
      unfold castName
      rw [h.lookup_none hname]
    rw [hcast, ownRetains, countedName, h.lookup_none hname]
    rfl

/-- A declaration with a load writes its lines, and its variable becomes a symbol. -/
theorem visit_loadDeclaration (hs : Named s) (hready : Ready s) {t : TypeSpec}
    {type : Ty} (htype : resolveTypeText s.typeSystem t.getText = .ok type) (x : Ident) (e : Load) :
    Post (visitStmt ⟨true⟩ (.varDecl (.plain t x) (some e.tree))) s fun _ s' ↦ s' = withTable
      (wrote s (linesText s.symbolTable.scopes.length
        (loadDeclaration s.typeSystem s.symbolTable t x e)))
      (declareSymbol s.symbolTable x.text (typeOf s.typeSystem t)) := by
  have hvisit := post_declareVar hs hready.pass e.isPure_tree x.text (typeOf s.typeSystem t)
  rw [visitStmt, visitVarDecl]
  constructor
  intro _ s' hrun
  rw [run_bind_of_ok run_indentLevel, run_bind_of_ok (run_declaratorType htype x),
    run_bind_of_ok (run_rememberGlobal hready _ _)] at hrun
  obtain ⟨_, s₁, hdeclare, hadd⟩ := run_bind_eq_ok.mp hrun
  rw [run_secondPassOnly hready.pass] at hdeclare
  have hs₁ := hvisit.of_run _ _ hdeclare
  subst hs₁
  rw [run_addSymbol (hready.wrote _)] at hadd
  cases hadd
  rw [wrote_symbolTable, ← linesText_loadDeclaration hs.symbols]

end

end JBLang.Emitted
