import JBLang.Ast.Lexing
import JBLang.Ast.Quiet

/-!
# Texts of expressions without classes

In a program without classes the visit of an expression of names, literals and operators returns
the tokens of the expression, with a blank on each side of a binary operator. The lexer gives the
same tokens back.
-/

namespace JBLang.Ast

open JBLang.Base JBLang.Types JBLang.Codegen

/-- Expressions of literals, names, parentheses, members and operators. `visitVarExpr` has no
place here: a name is a `primary` for the parser. -/
def isPlain : Expr → Bool
  | .ident _ | .primaryLiteral _ | .literal _ => true
  | .paren e | .member e _ | .pointerMember e _ | .addressOf e | .dereference e
  | .postIncrement e | .postDecrement e | .preIncrement e | .preDecrement e => isPlain e
  | .mulDiv left _ right | .addSub left _ right | .compare left _ right | .assign left right
  | .arrayAccess left right => isPlain left && isPlain right
  | _ => false

/-- The text of an expression with blanks around its binary operators. -/
def spacedText : Expr → Str
  | .paren e => "(" ++ spacedText e ++ ")"
  | .member e name => spacedText e ++ "." ++ name.text
  | .pointerMember e name => spacedText e ++ "->" ++ name.text
  | .addressOf e => "&" ++ spacedText e
  | .dereference e => "*" ++ spacedText e
  | .postIncrement e => spacedText e ++ "++"
  | .postDecrement e => spacedText e ++ "--"
  | .preIncrement e => "++" ++ spacedText e
  | .preDecrement e => "--" ++ spacedText e
  | .mulDiv left op right => spacedText left ++ " " ++ op.getText ++ " " ++ spacedText right
  | .addSub left op right => spacedText left ++ " " ++ op.getText ++ " " ++ spacedText right
  | .compare left op right => spacedText left ++ " " ++ op.getText ++ " " ++ spacedText right
  | .assign left right => spacedText left ++ " = " ++ spacedText right
  | .arrayAccess array index => spacedText array ++ "[" ++ spacedText index ++ "]"
  | e => e.getText

/-! ### Tokens of the text -/

variable {u v : Str} {us vs : List Token} {t : Token}

/-- The text is made of these tokens, in front of any text that does not continue the last of
them. -/
structure Printed (text : Str) (tokens : List Token) : Prop where
  calm : ∀ {rest : Str}, Calm rest → Calm (text ++ rest)
  lexes : ∀ {rest : Str} {ts : List (TokenKind × Str)}, EndsWord rest → Calm rest →
    lexer.Lexes rest ts → lexer.Lexes (text ++ rest) (tokens.map Token.lexeme ++ ts)

/-- A text that continues no word before it. -/
def Apart (text : Str) : Prop := ∀ rest, EndsWord (text ++ rest)

theorem apart_cons {c : Char} (hc : isIdentRest c = false) (s : Str) : Apart (c :: s) := by
  rintro rest d ⟨⟩
  exact hc

theorem Printed.append (h : Printed u us) (h' : Printed v vs) (hv : Apart v) :
    Printed (u ++ v) (us ++ vs) where
  calm hrest := by
    rw [List.append_assoc]
    exact h.calm (h'.calm hrest)
  lexes hrest hcalm hlexes := by
    rw [List.append_assoc, List.map_append, List.append_assoc]
    exact h.lexes (hv _) (h'.calm hcalm) (h'.lexes hrest hcalm hlexes)

/-- A token that is read alike before every text. -/
structure IsMark (t : Token) : Prop where
  symbol : isSymbol t.text = true
  quoted : t.lexeme.1 = .quoted
  line : '\n' ∉ t.text

theorem IsMark.before (ht : IsMark t) (h : Printed v vs) : Printed (t.text ++ v) (t :: vs) where
  calm hrest := by
    rw [List.append_assoc]
    exact (h.calm hrest).append ht.line
  lexes hrest hcalm hlexes := by
    rw [List.append_assoc, List.map_cons, List.cons_append]
    exact lexes_symbol ht.symbol ht.quoted (h.lexes hrest hcalm hlexes)

/-- The tokens of a text. -/
theorem Printed.lex (h : Printed u us) : lexer.lex u = some (us.map Token.lexeme) := by
  have hlexes : lexer.Lexes (u ++ []) (us.map Token.lexeme ++ []) := h.lexes nofun calm_nil .nil
  rw [List.append_nil, List.append_nil] at hlexes
  exact Lexer.lex_of_lexes hlexes

theorem printed_nil : Printed [] [] := ⟨fun h ↦ h, fun _ _ h ↦ h⟩

theorem IsMark.printed (ht : IsMark t) : Printed t.text [t] := by
  simpa using ht.before printed_nil

/-- The marks of expressions. -/
theorem isMark_of_mem (ht : t ∈ [Token.leftParen, .rightParen, .leftBracket, .rightBracket, .dot,
    .arrow, .ampersand, .star, .plusPlus, .minusMinus]) : IsMark t := by
  have hall : ∀ t ∈ [Token.leftParen, .rightParen, .leftBracket, .rightBracket, .dot, .arrow,
      .ampersand, .star, .plusPlus, .minusMinus],
      isSymbol t.text = true ∧ t.lexeme.1 = .quoted ∧ '\n' ∉ t.text := by decide +kernel
  obtain ⟨hsymbol, hquoted, hline⟩ := hall t ht
  exact ⟨hsymbol, hquoted, hline⟩

theorem startsWord_of_identRest {c : Char} (hc : isIdentRest c = true) (s : Str) :
    StartsWord (c :: s) := by
  refine ⟨c, s, rfl, Bool.eq_false_iff.mpr fun hspace ↦ ?_⟩
  rcases starts_identRest (k := .ws) hc hspace with h | h | h <;> cases h

theorem startsWord_ident (name : Ident) : StartsWord name.text := by
  obtain ⟨text, valid⟩ := name
  cases text with
  | nil => cases valid
  | cons c w =>
    simp only [isIdentifier, Bool.and_eq_true] at valid
    exact startsWord_of_identRest (isIdentRest_of_start valid.1.1) w

theorem printed_ident (name : Ident) : Printed name.text [.ident name] where
  calm h := h.append (not_mem_identifier name.valid (by decide) (by decide))
  lexes hrest _ h := lexes_ident name hrest h

theorem startsWord_literal (l : Literal) : StartsWord l.getText := by
  cases l with
  | integer n =>
    obtain ⟨text, valid⟩ := n
    cases text with
    | nil => cases valid
    | cons c w =>
      simp only [List.isEmpty_cons, Bool.not_false, Bool.true_and, List.all_cons,
        Bool.and_eq_true] at valid
      exact startsWord_of_identRest (by simp [isIdentRest, Char.isAlphanum, valid.1]) w
  | string s => exact ⟨'"', s.body ++ ['"'], rfl, by decide⟩
  | true => exact ⟨'t', "rue", rfl, by decide⟩
  | false => exact ⟨'f', "alse", rfl, by decide⟩

theorem printed_literal (l : Literal) : Printed l.getText [l.token] where
  calm h := by
    cases l with
    | integer n =>
      refine h.append fun hmem ↦ ?_
      have hvalid := n.valid
      simp only [Bool.and_eq_true, List.all_eq_true] at hvalid
      exact absurd (hvalid.2 _ hmem) (by decide)
    | string s => exact calm_quote _
    | true => exact h.append (by decide)
    | false => exact h.append (by decide)
  lexes hrest _ h := lexes_literal l hrest h

/-- A name behind an operator. -/
theorem Printed.member (h : Printed u us) (ht : IsMark t) (hapart : Apart t.text) (name : Ident) :
    Printed (u ++ t.text ++ name.text) (us ++ [t, .ident name]) := by
  rw [List.append_assoc]
  refine h.append (ht.before (printed_ident name)) fun rest ↦ ?_
  rw [List.append_assoc]
  exact hapart _

theorem printed_binary (op : BinaryOp) (h : Printed v vs) (hv : StartsWord v) :
    Printed (' ' :: (op.token.text ++ ' ' :: v)) (op.token :: vs) where
  calm hrest := by
    have hline : '\n' ∉ op.token.text := by
      rcases op with (_ | _) | (_ | _) | (_ | _ | _ | _ | _ | _) | _ <;> decide
    have htext : ' ' :: (op.token.text ++ ' ' :: v) = (" " ++ op.token.text ++ " ") ++ v := by simp
    rw [htext, List.append_assoc]
    exact (h.calm hrest).append (by simp [hline])
  lexes hrest hcalm hlexes := by
    rw [List.cons_append, List.append_assoc, List.cons_append, List.map_cons, List.cons_append]
    exact lexes_operator op (hv.append _) (h.calm hcalm) (h.lexes hrest hcalm hlexes)

theorem Printed.operator (h : Printed u us) (op : BinaryOp) (h' : Printed v vs) (hv : StartsWord v) :
    Printed (u ++ " " ++ op.token.text ++ " " ++ v) (us ++ op.token :: vs) := by
  have htext : u ++ " " ++ op.token.text ++ " " ++ v =
      u ++ ' ' :: (op.token.text ++ ' ' :: v) := by simp
  rw [htext]
  exact h.append (printed_binary op h' hv) (apart_cons (by decide) _)

theorem token_text_mulDiv (op : MulDivOp) : (BinaryOp.mulDiv op).token.text = op.getText := by
  cases op <;> rfl

theorem token_text_addSub (op : AddSubOp) : (BinaryOp.addSub op).token.text = op.getText := by
  cases op <;> rfl

theorem token_text_compare (op : CompareOp) : (BinaryOp.compare op).token.text = op.getText := by
  cases op <;> rfl

theorem startsWord_spacedText : ∀ {e : Expr}, isPlain e = true → StartsWord (spacedText e)
  | .ident name, _ => startsWord_ident name
  | .primaryLiteral l, _ | .literal l, _ => startsWord_literal l
  | .paren e, _ => ⟨'(', spacedText e ++ ")", rfl, by decide⟩
  | .addressOf e, _ => ⟨'&', spacedText e, rfl, by decide⟩
  | .dereference e, _ => ⟨'*', spacedText e, rfl, by decide⟩
  | .preIncrement e, _ => ⟨'+', '+' :: spacedText e, rfl, by decide⟩
  | .preDecrement e, _ => ⟨'-', '-' :: spacedText e, rfl, by decide⟩
  | .member e _, h | .pointerMember e _, h => 
    ((startsWord_spacedText (e := e) h).append _).append _
  | .postIncrement e, h | .postDecrement e, h => (startsWord_spacedText (e := e) h).append _
  | .mulDiv left _ right, h | .addSub left _ right, h | .compare left _ right, h =>
    ((((startsWord_spacedText (Bool.and_eq_true_iff.mp h).1).append _).append _).append _).append _
  | .assign left right, h =>
    ((startsWord_spacedText (Bool.and_eq_true_iff.mp h).1).append _).append _
  | .arrayAccess left right, h =>
    (((startsWord_spacedText (Bool.and_eq_true_iff.mp h).1).append _).append _).append _

/-- The text with blanks has the tokens of the expression. -/
theorem printed_spacedText : ∀ {e : Expr}, isPlain e = true → Printed (spacedText e) e.tokens
  | .ident name, _ => printed_ident name
  | .primaryLiteral l, _ | .literal l, _ => printed_literal l
  | .paren e, h =>
    (isMark_of_mem (t := .leftParen) (by simp)).before ((printed_spacedText (e := e) h).append
      (isMark_of_mem (t := .rightParen) (by simp)).printed (apart_cons (by decide) _))
  | .addressOf e, h =>
    (isMark_of_mem (t := .ampersand) (by simp)).before (printed_spacedText (e := e) h)
  | .dereference e, h =>
    (isMark_of_mem (t := .star) (by simp)).before (printed_spacedText (e := e) h)
  | .preIncrement e, h =>
    (isMark_of_mem (t := .plusPlus) (by simp)).before (printed_spacedText (e := e) h)
  | .preDecrement e, h =>
    (isMark_of_mem (t := .minusMinus) (by simp)).before (printed_spacedText (e := e) h)
  | .member e name, h =>
    (printed_spacedText (e := e) h).member (isMark_of_mem (t := .dot) (by simp))
      (apart_cons (by decide) _) name
  | .pointerMember e name, h =>
    (printed_spacedText (e := e) h).member (isMark_of_mem (t := .arrow) (by simp))
      (apart_cons (by decide) _) name
  | .postIncrement e, h =>
    (printed_spacedText (e := e) h).append (isMark_of_mem (t := .plusPlus) (by simp)).printed
      (apart_cons (by decide) _)
  | .postDecrement e, h =>
    (printed_spacedText (e := e) h).append (isMark_of_mem (t := .minusMinus) (by simp)).printed
      (apart_cons (by decide) _)
  | .mulDiv left op right, h => by
    obtain ⟨hl, hr⟩ := Bool.and_eq_true_iff.mp h
    rw [spacedText, ← token_text_mulDiv]
    exact (printed_spacedText hl).operator _ (printed_spacedText hr) (startsWord_spacedText hr)
  | .addSub left op right, h => by
    obtain ⟨hl, hr⟩ := Bool.and_eq_true_iff.mp h
    rw [spacedText, ← token_text_addSub]
    exact (printed_spacedText hl).operator _ (printed_spacedText hr) (startsWord_spacedText hr)
  | .compare left op right, h => by
    obtain ⟨hl, hr⟩ := Bool.and_eq_true_iff.mp h
    rw [spacedText, ← token_text_compare]
    exact (printed_spacedText hl).operator _ (printed_spacedText hr) (startsWord_spacedText hr)
  | .assign left right, h => by
    obtain ⟨hl, hr⟩ := Bool.and_eq_true_iff.mp h
    have hoperator := (printed_spacedText hl).operator .assign (printed_spacedText hr)
      (startsWord_spacedText hr)
    rw [List.append_assoc (spacedText left), List.append_assoc (spacedText left)] at hoperator
    exact hoperator
  | .arrayAccess array index, h => by
    obtain ⟨ha, hi⟩ := Bool.and_eq_true_iff.mp h
    have hindex := (isMark_of_mem (t := .leftBracket) (by simp)).before
      ((printed_spacedText hi).append (isMark_of_mem (t := .rightBracket) (by simp)).printed
        (apart_cons (by decide) _))
    rw [spacedText, List.append_assoc, List.append_assoc]
    exact (printed_spacedText ha).append hindex (apart_cons (by decide) _)

/-! ### Visits without classes -/

/-- No type is a class, and no class is declared. -/
def noClasses : Traits := ⟨fun t ↦ t.isClass = false, anything, false⟩

theorem noClasses_lawful : noClasses.Lawful where
  builtin _ _ _ hclass := beq_eq_false_iff_ne.mpr hclass
  struct _ := rfl
  setPointer h := h
  setArray _ _ h := h
  setStructMembers _ h := h
  «class» := nofun
  setParentClass := nofun
  mangled := nofun

variable {s : VState} {gen : CCodeGenerator}

theorem holds_frame {T : Traits} {s' : VState} (h : T.Holds s) (hframe : ExprFrame s s') :
    T.Holds s' := by
  obtain ⟨⟨text, n, rfl⟩, -⟩ := hframe
  exact ⟨h.types, h.symbols⟩

theorem memberAccess_plain (h : noClasses.Holds s) (base name : Str) :
    memberAccess s base name = base ++ "->" ++ name := by
  have hthis : thisFieldAccess s base name = none := by
    simp only [thisFieldAccess, Option.bind_eq_bind]
    split
    · simp only [Option.bind_eq_none_iff]
      intro func _ className _ classType htype
      have hclass := h.types.resolveType noClasses_lawful (eq_ok_of_toOption htype)
      rw [show classType.isClass = false from hclass, if_neg Bool.false_ne_true]
    · rfl
  have hobject : objectMemberAccess s base name = none := by
    simp only [objectMemberAccess, Option.bind_eq_bind, Option.bind_eq_none_iff]
    intro baseVar hvar
    have hclass := (h.symbols.lookupSymbol hvar).1.type
    rw [show baseVar.type.isClass = false from hclass, if_neg Bool.false_ne_true]
    rfl
  unfold memberAccess
  rw [hthis, hobject]

theorem run_castTo_plain {code : Str} {fromVar : Option Variable} {toType : Ty}
    (hfrom : ∀ var, fromVar = some var → var.type.isClass = false) :
    (castTo code fromVar toType).run s = .ok (code, s) := by
  cases fromVar with
  | none => rfl
  | some var =>
    have hclass := hfrom var rfl
    have hcast : generateCast code var.type toType = code := by simp [generateCast, hclass]
    have hcompatible : ∃ b, s.typeSystem.isCompatible var.type toType = .ok b := by
      unfold TypeSystem.isCompatible
      split
      · exact ⟨true, rfl⟩
      · simp [hclass, pure, Except.pure]
    obtain ⟨b, hb⟩ := hcompatible
    refine run_bind_eq_ok.mpr ⟨b, s, ?_, ?_⟩
    · simp [askTypes, hb]
    · cases b with
      | true =>
        rw [if_pos rfl, hcast]
        rfl
      | false => rfl

theorem run_assignCode_plain (gen : CCodeGenerator) (h : noClasses.Holds s) (left right : Str) :
    ∃ s', (assignCode gen left right).run s = .ok (left ++ " = " ++ right, s') := by
  have hcast : (castAssigned left right).run s = .ok (right, s) := by
    refine run_bind_eq_ok.mpr ⟨s.symbolTable.lookupSymbol left, s, rfl, ?_⟩
    cases s.symbolTable.lookupSymbol left with
    | none => rfl
    | some leftVar =>
      exact run_bind_eq_ok.mpr ⟨_, s, rfl,
        run_castTo_plain fun var hvar ↦ (h.symbols.lookupSymbol hvar).1.type⟩
  have hretains : Keeps SameScopes (fun _ ↦ False) (retainAssigned gen left right) :=
    quiet_retainAssigned left right
  obtain ⟨_, s₁, hretain, -⟩ := (hretains s).exists_run
  have hreleases : Keeps SameScopes (fun _ ↦ False) (emitDecRef gen
      s₁.symbolTable.getIndentLevel (s₁.symbolTable.lookupSymbol left)) := quiet_emitDecRef _ _
  obtain ⟨_, s₂, hrelease, -⟩ := (hreleases s₁).exists_run
  exact ⟨s₂, run_bind_eq_ok.mpr ⟨right, s, hcast, run_bind_eq_ok.mpr ⟨(), s₁, hretain,
    run_bind_eq_ok.mpr ⟨_, s₁, rfl, run_bind_eq_ok.mpr ⟨_, s₁, rfl,
      run_bind_eq_ok.mpr ⟨(), s₂, hrelease, rfl⟩⟩⟩⟩⟩⟩

/-- The visit of an expression without classes returns its text. -/
theorem run_visitExpr_plain (gen : CCodeGenerator) : ∀ {e : Expr} {s : VState}, isPlain e = true → noClasses.Holds s →
    s.firstPass = false → ∃ s', (visitExpr gen e).run s = .ok (spacedText e, s')
  | .ident _, s, _, _, _ | .primaryLiteral _, s, _, _, _ | .literal _, s, _, _, _ => ⟨s, rfl⟩
  | .paren e, s, he, h, hs | .member e _, s, he, h, hs | .addressOf e, s, he, h, hs
  | .dereference e, s, he, h, hs | .postIncrement e, s, he, h, hs
  | .postDecrement e, s, he, h, hs | .preIncrement e, s, he, h, hs
  | .preDecrement e, s, he, h, hs => by
    obtain ⟨s₁, hrun⟩ := run_visitExpr_plain gen (e := e) he h hs
    rw [visitExpr]
    exact ⟨s₁, run_bind_eq_ok.mpr ⟨_, s₁, hrun, rfl⟩⟩
  | .pointerMember e name, s, he, h, hs => by
    obtain ⟨s₁, hrun⟩ := run_visitExpr_plain gen (e := e) he h hs
    have h₁ := holds_frame h ((visitExpr_frame e s).of_run _ _ hrun)
    rw [visitExpr]
    refine ⟨s₁, run_bind_eq_ok.mpr ⟨false, s, by rw [← hs]; rfl, ?_⟩⟩
    rw [if_neg Bool.false_ne_true]
    refine run_bind_eq_ok.mpr ⟨_, s₁, hrun, run_bind_eq_ok.mpr ⟨s₁, s₁, rfl, ?_⟩⟩
    rw [memberAccess_plain h₁]
    rfl
  | .mulDiv left _ right, s, he, h, hs | .addSub left _ right, s, he, h, hs
  | .compare left _ right, s, he, h, hs | .arrayAccess left right, s, he, h, hs => by
    obtain ⟨hl, hr⟩ := Bool.and_eq_true_iff.mp he
    obtain ⟨s₁, hrun₁⟩ := run_visitExpr_plain gen hl h hs
    have hframe := (visitExpr_frame left s).of_run _ _ hrun₁
    obtain ⟨s₂, hrun₂⟩ := run_visitExpr_plain gen hr (holds_frame h hframe) (hframe.firstPass_eq.trans hs)
    rw [visitExpr]
    exact ⟨s₂, run_bind_eq_ok.mpr ⟨_, s₁, hrun₁, run_bind_eq_ok.mpr ⟨_, s₂, hrun₂, rfl⟩⟩⟩
  | .assign left right, s, he, h, hs => by
    obtain ⟨hl, hr⟩ := Bool.and_eq_true_iff.mp he
    obtain ⟨s₁, hrun₁⟩ := run_visitExpr_plain gen hl h hs
    have hframe₁ := (visitExpr_frame left s).of_run _ _ hrun₁
    obtain ⟨s₂, hrun₂⟩ := run_visitExpr_plain gen hr (holds_frame h hframe₁) (hframe₁.firstPass_eq.trans hs)
    have hframe₂ := hframe₁.trans ((visitExpr_frame right s₁).of_run _ _ hrun₂)
    obtain ⟨s₃, hrun₃⟩ := run_assignCode_plain gen (holds_frame h hframe₂)
      (spacedText left) (spacedText right)
    rw [visitExpr]
    refine ⟨s₃, run_bind_eq_ok.mpr ⟨false, s, by rw [← hs]; rfl, ?_⟩⟩
    rw [if_neg Bool.false_ne_true]
    exact run_bind_eq_ok.mpr ⟨_, s₁, hrun₁, run_bind_eq_ok.mpr ⟨_, s₂, hrun₂, hrun₃⟩⟩

theorem gives_visitDirectives {T : Traits} (ds : List Directive) :
    T.Gives anything (visitDirectives ds) := by
  have hdirective : ∀ d, T.Gives anything (visitPreprocessorDirective d) := by
    intro d
    cases d with
    | «include» file => exact Traits.gives_emit _
    | define name value =>
      refine (Traits.gives_modifyTypes fun ts hts ↦ ?_).bind fun _ _ ↦ Traits.gives_emit _
      exact ⟨hts.typedefs, hts.structs, hts.classes, hts.methods⟩
  induction ds with
  | nil => exact Traits.gives_pure trivial
  | cons d ds ih => exact (hdirective d).bind fun _ _ ↦ (Traits.gives_emit _).bind fun _ _ ↦ ih

/-- A program without classes begins without types or variables of classes, its directives and
statements keep it so, and in the second pass the text of an expression has the tokens of the
expression for the lexer. -/
theorem plain_tokens (gen : CCodeGenerator) :
    noClasses.Holds {} ∧
      (∀ ds : List Directive, noClasses.Gives anything (visitDirectives ds)) ∧
      (∀ stmt : Stmt, declaresClass stmt = false → noClasses.Gives anything (visitStmt gen stmt)) ∧
      ∀ (e : Expr) (s : VState), isPlain e = true → noClasses.Holds s → s.firstPass = false →
        ∃ text s', (visitExpr gen e).run s = .ok (text, s') ∧
          lexer.lex text = some (e.tokens.map Token.lexeme) := by
  refine ⟨Traits.holds_start, gives_visitDirectives, fun stmt hstmt ↦ ?_, fun e s he h hs ↦ ?_⟩
  · exact Traits.gives_visitStmt noClasses_lawful stmt fun _ ↦ hstmt
  · obtain ⟨s', hrun⟩ := run_visitExpr_plain gen he h hs
    exact ⟨_, s', hrun, (printed_spacedText he).lex⟩

private def plainP : Ident := ⟨"p".toList, isIdentifier_p⟩

private def plainN : Ident := ⟨"n".toList, isIdentifier_n⟩

/-- `&p = --n--` -/
private def plainExpr : Expr :=
  .assign (.addressOf (.ident plainP)) (.preDecrement (.postDecrement (.ident plainN)))

/-- The expression `&p = --n--`. -/
theorem plain_tokens_decrements :
    ∃ text s', (visitExpr ⟨true⟩ plainExpr).run { firstPass := false } = .ok (text, s') ∧
      lexer.lex text = some ([Token.ampersand, .ident plainP, .equal, .minusMinus, .ident plainN,
        .minusMinus].map Token.lexeme) := by
  have hstart : noClasses.Holds { firstPass := false } :=
    ⟨Traits.holds_start.types, Traits.holds_start.symbols⟩
  exact (plain_tokens ⟨true⟩).2.2.2 plainExpr { firstPass := false } (by decide) hstart rfl

end JBLang.Ast
