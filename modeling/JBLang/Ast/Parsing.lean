import Mathlib.Data.List.Basic
import JBLang.Ast.Grammar

/-!
# Parsing of expressions

Model of the rule `expression` of `grammar/JBLang.g4:107–129` as ANTLR reads a left-recursive
rule: of its 21 alternatives an earlier one binds tighter, a binary operator groups to the left
and its right operand is read at the level above its own, the operand of a prefix operator at
the operator's own level, and everything between brackets at level 0. The loop takes operators
as long as their level allows.

The stars after the type of a `new` belong to the type as far as the rest can still be read: one
star is left as an operator where an operand follows that nothing else joins.
-/

namespace JBLang.Ast

open JBLang.Base

/-- The tokens that expressions are made of. -/
inductive Token where
  | ident (name : Ident)
  | integer (n : IntegerToken)
  | string (s : StringToken)
  | trueLiteral
  | falseLiteral
  | new
  | void
  | int
  | bool
  | stringType
  | struct
  | «class»
  | leftParen
  | rightParen
  | leftBracket
  | rightBracket
  | leftBrace
  | rightBrace
  | dot
  | comma
  | arrow
  | ampersand
  | star
  | slash
  | plus
  | minus
  | equalEqual
  | notEqual
  | less
  | greater
  | lessEqual
  | greaterEqual
  | equal
  | plusPlus
  | minusMinus
deriving DecidableEq

/-- Level of an alternative of `expression`, counted from 1. -/
def precedence (alternative : Nat) : Nat := 22 - alternative

/-! ### Operators -/

/-- The operators with an operand on both sides. -/
inductive BinaryOp where
  | mulDiv (op : MulDivOp)
  | addSub (op : AddSubOp)
  | compare (op : CompareOp)
  | assign
deriving DecidableEq

namespace BinaryOp

/-- The operator's token. -/
def token : BinaryOp → Token
  | .mulDiv .mul => .star
  | .mulDiv .div => .slash
  | .addSub .add => .plus
  | .addSub .sub => .minus
  | .compare .eq => .equalEqual
  | .compare .ne => .notEqual
  | .compare .lt => .less
  | .compare .gt => .greater
  | .compare .le => .lessEqual
  | .compare .ge => .greaterEqual
  | .assign => .equal

/-- The operator's level. -/
def level : BinaryOp → Nat
  | .mulDiv _ => precedence 4
  | .addSub _ => precedence 5
  | .compare _ => precedence 6
  | .assign => precedence 7

/-- The tree of the operator with its operands. -/
def apply (left : Expr) : BinaryOp → Expr → Expr
  | .mulDiv op, right => .mulDiv left op right
  | .addSub op, right => .addSub left op right
  | .compare op, right => .compare left op right
  | .assign, right => .assign left right

end BinaryOp

/-- The binary operator that a token can be. -/
def Token.binaryOp : Token → Option BinaryOp
  | .star => some (.mulDiv .mul)
  | .slash => some (.mulDiv .div)
  | .plus => some (.addSub .add)
  | .minus => some (.addSub .sub)
  | .equalEqual => some (.compare .eq)
  | .notEqual => some (.compare .ne)
  | .less => some (.compare .lt)
  | .greater => some (.compare .gt)
  | .lessEqual => some (.compare .le)
  | .greaterEqual => some (.compare .ge)
  | .equal => some .assign
  | _ => none

theorem Token.binaryOp_eq_some {t : Token} {op : BinaryOp} :
    t.binaryOp = some op ↔ t = op.token := by
  constructor
  · intro h
    cases t <;> simp only [Token.binaryOp, Option.some.injEq, reduceCtorEq] at h <;>
      subst h <;> rfl
  · rintro rfl
    rcases op with (_ | _) | (_ | _) | (_ | _ | _ | _ | _ | _) | _ <;> rfl

/-- The operators before their operand. -/
inductive UnaryOp where
  | addressOf
  | dereference
  | preIncrement
  | preDecrement
deriving DecidableEq

namespace UnaryOp

/-- The operator's token. -/
def token : UnaryOp → Token
  | .addressOf => .ampersand
  | .dereference => .star
  | .preIncrement => .plusPlus
  | .preDecrement => .minusMinus

/-- The operator's level. -/
def level : UnaryOp → Nat
  | .addressOf => precedence 13
  | .dereference => precedence 14
  | .preIncrement => precedence 20
  | .preDecrement => precedence 21

/-- The tree of the operator with its operand. -/
def apply : UnaryOp → Expr → Expr
  | .addressOf, e => .addressOf e
  | .dereference, e => .dereference e
  | .preIncrement, e => .preIncrement e
  | .preDecrement, e => .preDecrement e

end UnaryOp

/-- The prefix operator that a token can be. -/
def Token.unaryOp : Token → Option UnaryOp
  | .ampersand => some .addressOf
  | .star => some .dereference
  | .plusPlus => some .preIncrement
  | .minusMinus => some .preDecrement
  | _ => none

theorem Token.unaryOp_eq_some {t : Token} {op : UnaryOp} :
    t.unaryOp = some op ↔ t = op.token := by
  constructor
  · intro h
    cases t <;> simp only [Token.unaryOp, Option.some.injEq, reduceCtorEq] at h <;>
      subst h <;> rfl
  · rintro rfl
    cases op <;> rfl

/-- The literal that a token can be. -/
def Token.literal : Token → Option Literal
  | .integer n => some (.integer n)
  | .string s => some (.string s)
  | .trueLiteral => some .true
  | .falseLiteral => some .false
  | _ => none

/-- The token of a literal. -/
def Literal.token : Literal → Token
  | .integer n => .integer n
  | .string s => .string s
  | .true => .trueLiteral
  | .false => .falseLiteral

theorem Token.literal_eq_some {t : Token} {l : Literal} :
    t.literal = some l ↔ t = l.token := by
  constructor
  · intro h
    cases t <;> simp only [Token.literal, Option.some.injEq, reduceCtorEq] at h <;>
      subst h <;> rfl
  · rintro rfl
    cases l <;> rfl

/-- What can follow a finished operand: an operator with the tokens that are always the same. -/
inductive SuffixOp where
  | member (name : Ident)
  | binary (op : BinaryOp)
  | pointerMember (name : Ident)
  | arrayAccess
  | methodCall (name : Ident)
  | postIncrement
  | postDecrement

/-- The operator's level. -/
def SuffixOp.level : SuffixOp → Nat
  | .member _ => precedence 2
  | .binary op => op.level
  | .pointerMember _ => precedence 12
  | .arrayAccess => precedence 15
  | .methodCall _ => precedence 16
  | .postIncrement => precedence 18
  | .postDecrement => precedence 19

/-- The fixed tokens of the operator. -/
def SuffixOp.tokens : SuffixOp → List Token
  | .member name => [.dot, .ident name]
  | .binary op => [op.token]
  | .pointerMember name => [.arrow, .ident name]
  | .arrayAccess => [.leftBracket]
  | .methodCall name => [.arrow, .ident name, .leftParen]
  | .postIncrement => [.plusPlus]
  | .postDecrement => [.minusMinus]

/-- The operator at the front of some tokens. `->` with a name and a parenthesis is a call. -/
def readSuffix : List Token → Option (SuffixOp × List Token)
  | .dot :: .ident name :: ts => some (.member name, ts)
  | .arrow :: .ident name :: .leftParen :: ts => some (.methodCall name, ts)
  | .arrow :: .ident name :: ts => some (.pointerMember name, ts)
  | .leftBracket :: ts => some (.arrayAccess, ts)
  | .plusPlus :: ts => some (.postIncrement, ts)
  | .minusMinus :: ts => some (.postDecrement, ts)
  | t :: ts => t.binaryOp.map fun op ↦ (.binary op, ts)
  | [] => none

variable {ts rest : List Token} {n : Nat} {e : Expr}

theorem readSuffix_eq_some {op : SuffixOp}
    (h : readSuffix ts = some (op, rest)) : ts = op.tokens ++ rest := by
  fun_cases readSuffix ts <;> simp only [readSuffix, Option.some.injEq, Prod.mk.injEq, reduceCtorEq,
    Option.map_eq_some_iff] at h
  case case7 =>
    obtain ⟨b, hb, rfl, rfl⟩ := h
    rw [Token.binaryOp_eq_some.mp hb]
    rfl
  all_goals obtain ⟨rfl, rfl⟩ := h; rfl

/-! ### Types of `new` -/

/-- The tokens of a type. -/
def TypeSpec.tokens : TypeSpec → List Token
  | .void => [.void]
  | .int => [.int]
  | .bool => [.bool]
  | .string => [.stringType]
  | .named none name => [.ident name]
  | .named (some .struct) name => [.struct, .ident name]
  | .named (some .class) name => [.class, .ident name]
  | .pointer t => t.tokens ++ [.star]

/-- Some pointers to a type. -/
def TypeSpec.addPointers (t : TypeSpec) : Nat → TypeSpec
  | 0 => t
  | n + 1 => .pointer (t.addPointers n)

theorem TypeSpec.tokens_addPointers (t : TypeSpec) (n : Nat) :
    (t.addPointers n).tokens = t.tokens ++ List.replicate n .star := by
  induction n with
  | zero => simp [addPointers]
  | succ n ih => rw [addPointers, tokens, ih, List.append_assoc, List.replicate_succ']

/-- Whether an operand can start with a token. -/
def Token.startsOperand : Token → Bool
  | .ident _ | .new | .leftParen | .leftBrace => true
  | t => t.literal.isSome || t.unaryOp.isSome

/-- A token that can stand before an operand and after one. -/
def Token.isSign (t : Token) : Bool := t = .star || t = .plusPlus || t = .minusMinus

/-- How many stars some tokens start with. -/
def leadingStars : List Token → Nat
  | .star :: ts => leadingStars ts + 1
  | _ => 0

/-- How many of the leading stars belong to the type before them. -/
def typeStars (ts : List Token) : Nat :=
  let signs := (ts.drop (leadingStars ts)).takeWhile Token.isSign
  match (ts.drop (leadingStars ts + signs.length)).head? with
  | none => leadingStars ts
  | some t =>
    if t.startsOperand && !signs.contains .star then leadingStars ts - 1 else leadingStars ts

/-- The type without its stars. -/
def parseTypeName : List Token → Option (TypeSpec × List Token)
  | .void :: ts => some (.void, ts)
  | .int :: ts => some (.int, ts)
  | .bool :: ts => some (.bool, ts)
  | .stringType :: ts => some (.string, ts)
  | .ident name :: ts => some (.named none name, ts)
  | .struct :: .ident name :: ts => some (.named (some .struct) name, ts)
  | .class :: .ident name :: ts => some (.named (some .class) name, ts)
  | _ => none

/-- `typeSpec` after `new`. -/
def parseTypeSpec (ts : List Token) : Option (TypeSpec × List Token) := do
  let (t, ts) ← parseTypeName ts
  return (t.addPointers (typeStars ts), ts.drop (typeStars ts))

private theorem replicate_drop (h : n ≤ leadingStars ts) :
    List.replicate n .star ++ ts.drop n = ts := by
  induction n generalizing ts with
  | zero => simp
  | succ n ih =>
    fun_cases leadingStars ts with
    | case1 ts =>
      rw [leadingStars] at h
      rw [List.replicate_succ, List.drop_succ_cons, List.cons_append, ih (by omega)]
    | case2 _ hne =>
      rw [leadingStars] at h
      · omega
      · exact hne

private theorem typeStars_le (ts : List Token) : typeStars ts ≤ leadingStars ts := by
  simp only [typeStars]
  split
  · exact Nat.le_refl _
  · split <;> omega

theorem bind_eq_read {α β : Type} {m : Option α} {f : α → Option β} {b : β} :
    (m >>= f) = some b ↔ ∃ a, m = some a ∧ f a = some b := Option.bind_eq_some_iff

theorem pure_eq_read {α β : Type} {a a' : α} {ts ts' : β} :
    (pure (a, ts) : Option (α × β)) = some (a', ts') ↔ a = a' ∧ ts = ts' := by
  simp

theorem parseTypeSpec_sound {t : TypeSpec}
    (h : parseTypeSpec ts = some (t, rest)) : ts = t.tokens ++ rest := by
  have hname : ∀ {ts rest t}, parseTypeName ts = some (t, rest) → ts = t.tokens ++ rest := by
    intro ts rest t h
    fun_cases parseTypeName ts <;>
      simp only [parseTypeName, Option.some.injEq, Prod.mk.injEq, reduceCtorEq] at h <;>
      · obtain ⟨rfl, rfl⟩ := h
        rfl
  simp only [parseTypeSpec, bind_eq_read, pure_eq_read, Prod.exists] at h
  obtain ⟨base, ts', hbase, rfl, rfl⟩ := h
  rw [hname hbase, TypeSpec.tokens_addPointers, List.append_assoc,
    replicate_drop (typeStars_le ts')]

/-! ### The rule `expression` -/

/-- Go past one token. -/
def expect (t : Token) : List Token → Option (List Token)
  | u :: ts => if u = t then some ts else none
  | [] => none

theorem expect_eq_some {t : Token} : expect t ts = some rest ↔ ts = t :: rest := by
  cases ts with
  | nil => simp [expect]
  | cons u ts =>
    simp only [expect, List.cons.injEq]
    split <;> simp_all

section

variable (expr : Nat → List Token → Option (Expr × List Token))

/-- The arguments after the first, to the closing parenthesis. -/
def parseMoreArgs : Nat → List Token → Option (List Expr × List Token)
  | 0, _ => none
  | n + 1, .comma :: ts => do
    let (e, ts) ← expr 0 ts
    let (es, ts) ← parseMoreArgs n ts
    return (e :: es, ts)
  | _ + 1, ts => do
    let ts ← expect .rightParen ts
    return ([], ts)

/-- `argumentList?` and the closing parenthesis. -/
def parseArgs (n : Nat) : List Token → Option (List Expr × List Token)
  | .rightParen :: ts => some ([], ts)
  | ts => do
    let (e, ts) ← expr 0 ts
    let (es, ts) ← parseMoreArgs expr n ts
    return (e :: es, ts)

/-- `initializerList` and the closing brace, with whether a comma stands before it. -/
def parseInits : Nat → List Token → Option (List Initializer × Bool × List Token)
  | n + 1, .dot :: .ident name :: .equal :: ts => do
    let (value, ts) ← expr 0 ts
    match ts with
    | .rightBrace :: ts => return ([.mk name value], false, ts)
    | .comma :: .rightBrace :: ts => return ([.mk name value], true, ts)
    | .comma :: ts => do
      let (inits, comma, ts) ← parseInits n ts
      return (.mk name value :: inits, comma, ts)
    | _ => none
  | _, _ => none

/-- The alternatives that do not start with an expression. -/
def parseOperand (n : Nat) : List Token → Option (Expr × List Token)
  | .leftParen :: ts => do
    let (e, ts) ← expr 0 ts
    let ts ← expect .rightParen ts
    return (.paren e, ts)
  | .ident name :: .leftParen :: ts => do
    let (args, ts) ← parseArgs expr n ts
    return (.funcCall name args, ts)
  | .ident name :: ts => some (.ident name, ts)
  | .new :: .ident name :: .leftParen :: ts => do
    let (args, ts) ← parseArgs expr n ts
    return (.newWithConstructor name args, ts)
  | .new :: ts => do
    let (t, ts) ← parseTypeSpec ts
    return (.new t, ts)
  | .leftBrace :: .rightBrace :: ts => some (.structInit [] false, ts)
  | .leftBrace :: ts => do
    let (inits, comma, ts) ← parseInits expr n ts
    return (.structInit inits comma, ts)
  | t :: ts => match t.literal with
    | some l => some (.primaryLiteral l, ts)
    | none => do
      let op ← t.unaryOp
      let (e, ts) ← expr op.level ts
      return (op.apply e, ts)
  | [] => none

/-- The rest of an alternative that starts with an expression. -/
def parseSuffix (n : Nat) (e : Expr) (ts : List Token) : SuffixOp → Option (Expr × List Token)
  | .member name => some (.member e name, ts)
  | .binary op => do
    let (right, ts) ← expr (op.level + 1) ts
    return (op.apply e right, ts)
  | .pointerMember name => some (.pointerMember e name, ts)
  | .arrayAccess => do
    let (index, ts) ← expr 0 ts
    let ts ← expect .rightBracket ts
    return (.arrayAccess e index, ts)
  | .methodCall name => do
    let (args, ts) ← parseArgs expr n ts
    return (.methodCall e name args, ts)
  | .postIncrement => some (.postIncrement e, ts)
  | .postDecrement => some (.postDecrement e, ts)

/-- The loop over the operators after an operand. -/
def parseSuffixes (n level : Nat) : Nat → Expr → List Token → Option (Expr × List Token)
  | 0, _, _ => none
  | m + 1, e, ts => match readSuffix ts with
    | none => some (e, ts)
    | some (op, rest) =>
      if level ≤ op.level then do
        let (e, ts) ← parseSuffix expr n e rest op
        parseSuffixes n level m e ts
      else some (e, ts)

end

/-- `expression` at a level, with a bound on the depth of the tree. -/
def parseExpr : Nat → Nat → List Token → Option (Expr × List Token)
  | 0, _, _ => none
  | n + 1, level, ts => do
    let (e, ts) ← parseOperand (parseExpr n) n ts
    parseSuffixes (parseExpr n) n level n e ts

/-- The tree of an expression that takes all the tokens. -/
def parse (ts : List Token) : Option Expr :=
  match parseExpr (ts.length + 1) 0 ts with
  | some (e, []) => some e
  | _ => none

/-! ### Tokens and levels of a tree -/

mutual

/-- The tokens of an expression. -/
def Expr.tokens : Expr → List Token
  | .paren e => .leftParen :: (e.tokens ++ [.rightParen])
  | .ident name | .var name => [.ident name]
  | .primaryLiteral l | .literal l => [l.token]
  | .member e name => e.tokens ++ [.dot, .ident name]
  | .funcCall name args => .ident name :: .leftParen :: (argTokens args ++ [.rightParen])
  | .mulDiv left op right => left.tokens ++ (BinaryOp.mulDiv op).token :: right.tokens
  | .addSub left op right => left.tokens ++ (BinaryOp.addSub op).token :: right.tokens
  | .compare left op right => left.tokens ++ (BinaryOp.compare op).token :: right.tokens
  | .assign left right => left.tokens ++ BinaryOp.assign.token :: right.tokens
  | .new t => .new :: t.tokens
  | .newWithConstructor name args =>
    .new :: .ident name :: .leftParen :: (argTokens args ++ [.rightParen])
  | .pointerMember e name => e.tokens ++ [.arrow, .ident name]
  | .addressOf e => .ampersand :: e.tokens
  | .dereference e => .star :: e.tokens
  | .arrayAccess array index =>
    array.tokens ++ .leftBracket :: (index.tokens ++ [.rightBracket])
  | .methodCall e name args =>
    e.tokens ++ .arrow :: .ident name :: .leftParen :: (argTokens args ++ [.rightParen])
  | .structInit inits trailingComma =>
    .leftBrace :: (initTokens inits ++ if trailingComma then [.comma, .rightBrace] else [.rightBrace])
  | .postIncrement e => e.tokens ++ [.plusPlus]
  | .postDecrement e => e.tokens ++ [.minusMinus]
  | .preIncrement e => .plusPlus :: e.tokens
  | .preDecrement e => .minusMinus :: e.tokens

/-- The tokens of an argument list. -/
def argTokens : List Expr → List Token
  | [] => []
  | e :: es => e.tokens ++ moreArgTokens es

/-- The tokens of the arguments after the first. -/
def moreArgTokens : List Expr → List Token
  | [] => []
  | e :: es => .comma :: (e.tokens ++ moreArgTokens es)

/-- The tokens of an initializer list. -/
def initTokens : List Initializer → List Token
  | [] => []
  | i :: is => i.tokens ++ moreInitTokens is

/-- The tokens of the initializers after the first. -/
def moreInitTokens : List Initializer → List Token
  | [] => []
  | i :: is => .comma :: (i.tokens ++ moreInitTokens is)

/-- The tokens of an initializer. -/
def Initializer.tokens : Initializer → List Token
  | .mk name value => .dot :: .ident name :: .equal :: value.tokens

end

mutual

/-- Whether every operator of a tree is allowed at the level it is read at. -/
def fits (level : Nat) : Expr → Bool
  | .paren e => fits 0 e
  | .ident _ | .primaryLiteral _ | .new _ => true
  | .var _ | .literal _ => false
  | .member e _ => level ≤ precedence 2 && fits level e
  | .funcCall _ args | .newWithConstructor _ args => argsFit args
  | .mulDiv left _ right =>
    level ≤ precedence 4 && fits level left && fits (precedence 4 + 1) right
  | .addSub left _ right =>
    level ≤ precedence 5 && fits level left && fits (precedence 5 + 1) right
  | .compare left _ right =>
    level ≤ precedence 6 && fits level left && fits (precedence 6 + 1) right
  | .assign left right => level ≤ precedence 7 && fits level left && fits (precedence 7 + 1) right
  | .pointerMember e _ => level ≤ precedence 12 && fits level e
  | .addressOf e => fits (precedence 13) e
  | .dereference e => fits (precedence 14) e
  | .arrayAccess array index => level ≤ precedence 15 && fits level array && fits 0 index
  | .methodCall e _ args => level ≤ precedence 16 && fits level e && argsFit args
  | .structInit inits trailingComma => (!inits.isEmpty || !trailingComma) && initsFit inits
  | .postIncrement e => level ≤ precedence 18 && fits level e
  | .postDecrement e => level ≤ precedence 19 && fits level e
  | .preIncrement e => fits (precedence 20) e
  | .preDecrement e => fits (precedence 21) e

/-- `fits` for an argument list. -/
def argsFit : List Expr → Bool
  | [] => true
  | e :: es => fits 0 e && argsFit es

/-- `fits` for an initializer list. -/
def initsFit : List Initializer → Bool
  | [] => true
  | .mk _ value :: is => fits 0 value && initsFit is

end

theorem BinaryOp.tokens_apply (op : BinaryOp) (left right : Expr) :
    (op.apply left right).tokens = left.tokens ++ op.token :: right.tokens := by
  cases op <;> rw [BinaryOp.apply, Expr.tokens]

theorem BinaryOp.fits_apply (op : BinaryOp) (level : Nat) (left right : Expr) :
    fits level (op.apply left right) =
      (level ≤ op.level && fits level left && fits (op.level + 1) right) := by
  cases op <;> rw [BinaryOp.apply, fits, BinaryOp.level]

theorem UnaryOp.tokens_apply (op : UnaryOp) (e : Expr) :
    (op.apply e).tokens = op.token :: e.tokens := by
  cases op <;> rw [UnaryOp.apply, Expr.tokens, UnaryOp.token]

theorem UnaryOp.fits_apply (op : UnaryOp) (level : Nat) (e : Expr) :
    fits level (op.apply e) = fits op.level e := by
  cases op <;> rw [UnaryOp.apply, fits, UnaryOp.level]

/-! ### What is read is what stands there -/

/-- A parser of expressions that returns trees of what it took, grouped for its level. -/
def ReadsWhatStands (expr : Nat → List Token → Option (Expr × List Token)) : Prop :=
  ∀ {level ts e rest}, expr level ts = some (e, rest) →
    ts = e.tokens ++ rest ∧ fits level e = true

section

variable {expr : Nat → List Token → Option (Expr × List Token)}

private theorem parseMoreArgs_sound (hexpr : ReadsWhatStands expr)
    {es : List Expr} (h : parseMoreArgs expr n ts = some (es, rest)) :
    ts = moreArgTokens es ++ .rightParen :: rest ∧ argsFit es = true := by
  fun_induction parseMoreArgs expr n ts generalizing es with
  | case1 => contradiction
  | case2 n ts ih =>
    simp only [bind_eq_read, pure_eq_read, Prod.exists] at h
    obtain ⟨e, ts₁, he, es₁, ts₂, hes, rfl, rfl⟩ := h
    obtain ⟨rfl, hfits⟩ := hexpr he
    obtain ⟨rfl, hall⟩ := ih _ hes
    rw [moreArgTokens, argsFit, hfits, hall]
    exact ⟨by simp, rfl⟩
  | case3 n ts hne =>
    simp only [bind_eq_read, pure_eq_read, expect_eq_some] at h
    obtain ⟨ts₁, rfl, rfl, rfl⟩ := h
    exact ⟨rfl, rfl⟩

private theorem parseArgs_sound (hexpr : ReadsWhatStands expr)
    {es : List Expr} (h : parseArgs expr n ts = some (es, rest)) :
    ts = argTokens es ++ .rightParen :: rest ∧ argsFit es = true := by
  fun_cases parseArgs expr n ts with
  | case1 ts =>
    simp only [parseArgs, Option.some.injEq, Prod.mk.injEq] at h
    obtain ⟨rfl, rfl⟩ := h
    exact ⟨rfl, rfl⟩
  | case2 ts hne =>
    simp only [parseArgs, bind_eq_read, pure_eq_read, Prod.exists] at h
    obtain ⟨e, ts₁, he, es₁, ts₂, hes, rfl, rfl⟩ := h
    obtain ⟨rfl, hfits⟩ := hexpr he
    obtain ⟨rfl, hall⟩ := parseMoreArgs_sound hexpr hes
    rw [argTokens, argsFit, hfits, hall]
    exact ⟨by simp, rfl⟩

/-- The end of an initializer list. -/
def closing (comma : Bool) : List Token :=
  if comma then [.comma, .rightBrace] else [.rightBrace]

theorem initTokens_cons_cons (i j : Initializer) (is : List Initializer) :
    initTokens (i :: j :: is) = i.tokens ++ .comma :: initTokens (j :: is) := by
  simp only [initTokens, moreInitTokens]

private theorem parseInits_sound (hexpr : ReadsWhatStands expr)
    {is : List Initializer} {comma : Bool} (h : parseInits expr n ts = some (is, comma, rest)) :
    ts = initTokens is ++ closing comma ++ rest ∧ is ≠ [] ∧ initsFit is = true := by
  fun_induction parseInits expr n ts generalizing is with
  | case1 n name ts ih =>
    simp only [bind_eq_read, Prod.exists] at h
    obtain ⟨value, ts₁, hvalue, h⟩ := h
    obtain ⟨rfl, hfits⟩ := hexpr hvalue
    split at h
    · simp only [Option.pure_def, Option.some.injEq, Prod.mk.injEq] at h
      obtain ⟨rfl, rfl, rfl⟩ := h
      exact ⟨by simp [initTokens, moreInitTokens, Initializer.tokens, closing], by simp,
        by simp [initsFit, hfits]⟩
    · simp only [Option.pure_def, Option.some.injEq, Prod.mk.injEq] at h
      obtain ⟨rfl, rfl, rfl⟩ := h
      exact ⟨by simp [initTokens, moreInitTokens, Initializer.tokens, closing], by simp,
        by simp [initsFit, hfits]⟩
    · simp only [bind_eq_read, Prod.exists, Option.pure_def, Option.some.injEq,
        Prod.mk.injEq] at h
      obtain ⟨is₁, comma₁, ts₂, his, rfl, rfl, rfl⟩ := h
      obtain ⟨rfl, hne, hall⟩ := ih _ his
      obtain ⟨j, is₂, rfl⟩ := List.exists_cons_of_ne_nil hne
      refine ⟨?_, by simp, by rw [initsFit, hfits, hall]; rfl⟩
      rw [initTokens_cons_cons]
      simp [Initializer.tokens]
    · cases h
  | case2 => cases h

private theorem parseOperand_sound (hexpr : ReadsWhatStands expr)
    (h : parseOperand expr n ts = some (e, rest)) :
    ts = e.tokens ++ rest ∧ ∀ level, fits level e = true := by
  fun_cases parseOperand expr n ts with
  | case1 ts =>
    simp only [parseOperand, bind_eq_read, pure_eq_read, Prod.exists, expect_eq_some] at h
    obtain ⟨e₁, ts₁, he, ts₂, rfl, rfl, rfl⟩ := h
    obtain ⟨rfl, hfits⟩ := hexpr he
    exact ⟨by simp [Expr.tokens], fun _ ↦ by rw [fits, hfits]⟩
  | case2 name ts =>
    simp only [parseOperand, bind_eq_read, pure_eq_read, Prod.exists] at h
    obtain ⟨args, ts₁, hargs, rfl, rfl⟩ := h
    obtain ⟨rfl, hall⟩ := parseArgs_sound hexpr hargs
    exact ⟨by simp [Expr.tokens], fun _ ↦ by rw [fits, hall]⟩
  | case3 name ts hne =>
    simp only [parseOperand, Option.some.injEq, Prod.mk.injEq] at h
    obtain ⟨rfl, rfl⟩ := h
    exact ⟨rfl, fun _ ↦ by rw [fits]⟩
  | case4 name ts =>
    simp only [parseOperand, bind_eq_read, pure_eq_read, Prod.exists] at h
    obtain ⟨args, ts₁, hargs, rfl, rfl⟩ := h
    obtain ⟨rfl, hall⟩ := parseArgs_sound hexpr hargs
    exact ⟨by simp [Expr.tokens], fun _ ↦ by rw [fits, hall]⟩
  | case5 ts hne =>
    simp only [parseOperand, bind_eq_read, pure_eq_read, Prod.exists] at h
    obtain ⟨t, ts₁, ht, rfl, rfl⟩ := h
    exact ⟨by rw [parseTypeSpec_sound ht, Expr.tokens]; rfl, fun _ ↦ by rw [fits]⟩
  | case6 ts =>
    simp only [parseOperand, Option.some.injEq, Prod.mk.injEq] at h
    obtain ⟨rfl, rfl⟩ := h
    exact ⟨rfl, fun _ ↦ rfl⟩
  | case7 ts hne =>
    simp only [parseOperand, bind_eq_read, pure_eq_read, Prod.exists] at h
    obtain ⟨is, comma, ts₁, his, rfl, rfl⟩ := h
    obtain ⟨rfl, hne, hall⟩ := parseInits_sound hexpr his
    refine ⟨by rw [Expr.tokens, closing]; simp, fun _ ↦ ?_⟩
    rw [fits, hall]
    simp [hne]
  | case8 t ts _ _ _ _ _ _ _ l hl =>
    simp only [parseOperand, hl, Option.some.injEq, Prod.mk.injEq] at h
    obtain ⟨rfl, rfl⟩ := h
    rw [Token.literal_eq_some.mp hl]
    exact ⟨rfl, fun _ ↦ by rw [fits]⟩
  | case9 t ts _ _ _ _ _ _ _ hl =>
    simp only [parseOperand, hl, bind_eq_read, pure_eq_read, Prod.exists] at h
    obtain ⟨op, hop, e₁, ts₁, he, rfl, rfl⟩ := h
    obtain ⟨rfl, hfits⟩ := hexpr he
    rw [Token.unaryOp_eq_some.mp hop, op.tokens_apply]
    exact ⟨rfl, fun _ ↦ by rw [op.fits_apply, hfits]⟩
  | case10 => cases h

private theorem parseSuffix_sound (hexpr : ReadsWhatStands expr) {level : Nat}
    {e' : Expr} {op : SuffixOp} (hlevel : level ≤ op.level) (hfits : fits level e = true)
    (h : parseSuffix expr n e ts op = some (e', rest)) :
    e.tokens ++ op.tokens ++ ts = e'.tokens ++ rest ∧ fits level e' = true := by
  cases op with
  | member name | pointerMember name | postIncrement | postDecrement =>
    simp only [parseSuffix, Option.some.injEq, Prod.mk.injEq] at h
    obtain ⟨rfl, rfl⟩ := h
    rw [SuffixOp.level] at hlevel
    exact ⟨by simp [Expr.tokens, SuffixOp.tokens], by simp [fits, hlevel, hfits]⟩
  | binary op =>
    simp only [parseSuffix, bind_eq_read, pure_eq_read, Prod.exists] at h
    obtain ⟨right, ts₁, hright, rfl, rfl⟩ := h
    obtain ⟨rfl, hfitsRight⟩ := hexpr hright
    rw [SuffixOp.level] at hlevel
    rw [op.tokens_apply, op.fits_apply, SuffixOp.tokens]
    exact ⟨by simp, by simp [hlevel, hfits, hfitsRight]⟩
  | arrayAccess =>
    simp only [parseSuffix, bind_eq_read, pure_eq_read, Prod.exists, expect_eq_some] at h
    obtain ⟨index, ts₁, hindex, ts₂, rfl, rfl, rfl⟩ := h
    obtain ⟨rfl, hfitsIndex⟩ := hexpr hindex
    rw [SuffixOp.level] at hlevel
    exact ⟨by simp [Expr.tokens, SuffixOp.tokens], by simp [fits, hlevel, hfits, hfitsIndex]⟩
  | methodCall name =>
    simp only [parseSuffix, bind_eq_read, pure_eq_read, Prod.exists] at h
    obtain ⟨args, ts₁, hargs, rfl, rfl⟩ := h
    obtain ⟨rfl, hall⟩ := parseArgs_sound hexpr hargs
    rw [SuffixOp.level] at hlevel
    exact ⟨by simp [Expr.tokens, SuffixOp.tokens], by simp [fits, hlevel, hfits, hall]⟩

private theorem parseSuffixes_sound (hexpr : ReadsWhatStands expr) {level m : Nat}
    {e' : Expr} (hfits : fits level e = true)
    (h : parseSuffixes expr n level m e ts = some (e', rest)) :
    e.tokens ++ ts = e'.tokens ++ rest ∧ fits level e' = true := by
  induction m generalizing e ts with
  | zero => cases h
  | succ m ih =>
    rw [parseSuffixes] at h
    split at h
    · simp only [Option.some.injEq, Prod.mk.injEq] at h
      obtain ⟨rfl, rfl⟩ := h
      exact ⟨rfl, hfits⟩
    next op ts₁ hop =>
      split at h
      next hlevel =>
        simp only [bind_eq_read, Prod.exists] at h
        obtain ⟨e₁, ts₂, he₁, hrest⟩ := h
        obtain ⟨htokens, hfits₁⟩ := parseSuffix_sound hexpr hlevel hfits he₁
        obtain ⟨htokens', hfits'⟩ := ih hfits₁ hrest
        rw [readSuffix_eq_some hop, ← List.append_assoc, htokens]
        exact ⟨htokens', hfits'⟩
      next =>
        simp only [Option.some.injEq, Prod.mk.injEq] at h
        obtain ⟨rfl, rfl⟩ := h
        exact ⟨rfl, hfits⟩

end

/-- An expression is read from its own tokens, each operator at its level. -/
theorem parseExpr_sound (n : Nat) : ReadsWhatStands (parseExpr n) := by
  induction n with
  | zero =>
    intro level ts e rest h
    cases h
  | succ n ih =>
    intro level ts e rest h
    simp only [parseExpr, bind_eq_read, Prod.exists] at h
    obtain ⟨e₁, ts₁, hoperand, hrest⟩ := h
    obtain ⟨rfl, hfits⟩ := parseOperand_sound ih hoperand
    exact parseSuffixes_sound ih (hfits level) hrest

/-- The tree is one of the tokens, and each of its operators stands at its level. -/
theorem parse_sound (h : parse ts = some e) : ts = e.tokens ∧ fits 0 e = true := by
  rw [parse] at h
  split at h
  next hparse =>
    obtain ⟨htokens, hfits⟩ := parseExpr_sound _ hparse
    cases h
    exact ⟨by rw [htokens, List.append_nil], hfits⟩
  next => cases h

end JBLang.Ast
