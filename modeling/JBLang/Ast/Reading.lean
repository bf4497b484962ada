import JBLang.Ast.Parsing

/-!
# Trees that are read from their own tokens

The converse of `parse_sound`: a tree is found from its tokens if each operator stands at its
level and no operator would be taken by an operand at the end of what stands before it. One
rule for each alternative of `expression` says how the loop comes to the tree.
-/

namespace JBLang.Ast

open JBLang.Base

/-- The level that an operator after a tree must reach to be taken by an operand at its end. -/
def Expr.openLevel : Expr → Nat
  | .mulDiv _ _ right => min (precedence 4 + 1) right.openLevel
  | .addSub _ _ right => min (precedence 5 + 1) right.openLevel
  | .compare _ _ right => min (precedence 6 + 1) right.openLevel
  | .assign _ right => min (precedence 7 + 1) right.openLevel
  | .addressOf e => min (precedence 13) e.openLevel
  | .dereference e => min (precedence 14) e.openLevel
  | .preIncrement e => min (precedence 20) e.openLevel
  | .preDecrement e => min (precedence 21) e.openLevel
  | _ => precedence 1

mutual

/-- Whether no operator of a tree would be taken by an operand at the end of what it is applied
to. Left out are `new` with a type, whose stars mean what the tokens after them decide, and the
alternatives that `primary` comes before. -/
def closed : Expr → Bool
  | .paren e | .addressOf e | .dereference e | .preIncrement e | .preDecrement e => closed e
  | .ident _ | .primaryLiteral _ => true
  | .var _ | .literal _ | .new _ => false
  | .member e _ => precedence 2 < e.openLevel && closed e
  | .funcCall _ args | .newWithConstructor _ args => argsClosed args
  | .mulDiv left _ right => precedence 4 < left.openLevel && closed left && closed right
  | .addSub left _ right => precedence 5 < left.openLevel && closed left && closed right
  | .compare left _ right => precedence 6 < left.openLevel && closed left && closed right
  | .assign left right => precedence 7 < left.openLevel && closed left && closed right
  | .pointerMember e _ => precedence 12 < e.openLevel && closed e
  | .arrayAccess array index => precedence 15 < array.openLevel && closed array && closed index
  | .methodCall e _ args => precedence 16 < e.openLevel && closed e && argsClosed args
  | .structInit inits _ => initsClosed inits
  | .postIncrement e => precedence 18 < e.openLevel && closed e
  | .postDecrement e => precedence 19 < e.openLevel && closed e

/-- `closed` for an argument list. -/
def argsClosed : List Expr → Bool
  | [] => true
  | e :: es => closed e && argsClosed es

/-- `closed` for an initializer list. -/
def initsClosed : List Initializer → Bool
  | [] => true
  | .mk _ value :: is => closed value && initsClosed is

end

/-- How many operators follow the first operand of a tree. -/
def Expr.suffixCount : Expr → Nat
  | .member e _ | .mulDiv e _ _ | .addSub e _ _ | .compare e _ _ | .assign e _
  | .pointerMember e _ | .arrayAccess e _ | .methodCall e _ _ | .postIncrement e
  | .postDecrement e => e.suffixCount + 1
  | _ => 0

theorem BinaryOp.openLevel_apply (op : BinaryOp) (left right : Expr) :
    (op.apply left right).openLevel = min (op.level + 1) right.openLevel := by
  cases op <;> rw [BinaryOp.apply, Expr.openLevel, BinaryOp.level]

theorem BinaryOp.suffixCount_apply (op : BinaryOp) (left right : Expr) :
    (op.apply left right).suffixCount = left.suffixCount + 1 := by
  cases op <;> rw [BinaryOp.apply, Expr.suffixCount]

theorem UnaryOp.openLevel_apply (op : UnaryOp) (e : Expr) :
    (op.apply e).openLevel = min op.level e.openLevel := by
  cases op <;> rw [UnaryOp.apply, Expr.openLevel, UnaryOp.level]

theorem UnaryOp.suffixCount_apply (op : UnaryOp) (e : Expr) :
    (op.apply e).suffixCount = 0 := by
  cases op <;> rfl

/-- An expression has a token before its operators. -/
theorem Expr.suffixCount_lt (e : Expr) : e.suffixCount < e.tokens.length := by
  fun_induction Expr.suffixCount e
  case case11 e _ _ _ _ _ _ _ _ _ _ => cases e <;> simp_all [Expr.tokens]
  all_goals
    simp only [Expr.tokens, List.length_append, List.length_cons, List.length_nil]
    omega

/-- The loop at a level stops in front of some tokens. -/
structure Stops (level : Nat) (rest : List Token) : Prop where
  paren : rest.head? ≠ some .leftParen
  below : ∀ {op ts}, readSuffix rest = some (op, ts) → op.level < level

variable {level n m : Nat} {e : Expr} {rest ts : List Token} {args : List Expr}

theorem Stops.mono {level' : Nat} (h : Stops level rest)
    (hle : level ≤ level') : Stops level' rest :=
  ⟨h.paren, fun hop ↦ Nat.lt_of_lt_of_le (h.below hop) hle⟩

/-- Nothing is taken in front of a token that is no operator. -/
theorem Stops.of_none (hparen : rest.head? ≠ some .leftParen)
    (h : readSuffix rest = none) : Stops level rest :=
  ⟨hparen, fun hop ↦ by rw [h] at hop; cases hop⟩

theorem Stops.of_readSuffix {op : SuffixOp}
    (h : readSuffix rest = some (op, ts)) (hlevel : op.level < level) : Stops level rest := by
  constructor
  · rw [readSuffix_eq_some h]
    rcases op with _ | ((_ | _) | (_ | _) | (_ | _ | _ | _ | _ | _) | _) | _ | _ | _ | _ | _ <;>
      simp [SuffixOp.tokens, BinaryOp.token]
  · intro op' ts' h'
    rw [h] at h'
    cases h'
    exact hlevel

theorem stops_rightParen (level : Nat) (ts : List Token) : Stops level (.rightParen :: ts) :=
  .of_none (by simp) rfl

theorem stops_rightBracket (level : Nat) (ts : List Token) :
    Stops level (.rightBracket :: ts) :=
  .of_none (by simp) rfl

theorem stops_rightBrace (level : Nat) (ts : List Token) : Stops level (.rightBrace :: ts) :=
  .of_none (by simp) rfl

theorem stops_comma (level : Nat) (ts : List Token) : Stops level (.comma :: ts) :=
  .of_none (by simp) rfl

theorem stops_nil (level : Nat) : Stops level [] :=
  .of_none (by simp) rfl

theorem readSuffix_binary (op : BinaryOp) (ts : List Token) :
    readSuffix (op.token :: ts) = some (.binary op, ts) := by
  rcases op with (_ | _) | (_ | _) | (_ | _ | _ | _ | _ | _) | _ <;> rfl

/-- The loop comes to the tree `e` after its tokens. -/
structure Reads (e : Expr) : Prop where
  loop : ∀ {n level : Nat} (m : Nat) {rest : List Token}, fits level e = true →
    e.tokens.length ≤ n → Stops e.openLevel rest →
    ((parseOperand (parseExpr n) n (e.tokens ++ rest)).bind fun r ↦
      parseSuffixes (parseExpr n) n level (m + e.suffixCount) r.1 r.2) =
    parseSuffixes (parseExpr n) n level m e rest

variable {expr : Nat → List Token → Option (Expr × List Token)}

theorem parseSuffixes_stop
    (h : Stops level rest) : parseSuffixes expr n level (m + 1) e rest = some (e, rest) := by
  rw [parseSuffixes]
  split
  · rfl
  next op ts hop => rw [if_neg (by have := h.below hop; omega)]

theorem parseSuffixes_step {e' : Expr} {rest' : List Token} {op : SuffixOp}
    (hop : readSuffix ts = some (op, rest)) (hlevel : level ≤ op.level)
    (h : parseSuffix expr n e rest op = some (e', rest')) :
    parseSuffixes expr n level (m + 1) e ts = parseSuffixes expr n level m e' rest' := by
  rw [parseSuffixes, hop]
  simp only [if_pos hlevel, h, Option.bind_eq_bind, Option.bind_some]

/-- A tree that the loop comes to is read where the loop stops after it. -/
theorem Reads.parseExpr_eq (h : Reads e)
    (hfits : fits level e = true) (hn : e.tokens.length ≤ n) (hopen : Stops e.openLevel rest)
    (hstop : Stops level rest) : parseExpr (n + 1) level (e.tokens ++ rest) = some (e, rest) := by
  have hlt := e.suffixCount_lt
  obtain ⟨m, hm⟩ : ∃ m, n = m + 1 + e.suffixCount := ⟨n - 1 - e.suffixCount, by omega⟩
  have hread := h.loop (m + 1) hfits hn hopen
  rw [← hm, parseSuffixes_stop hstop] at hread
  exact hread

/-- A tree is read between brackets. -/
theorem Reads.parseExpr_closed (h : Reads e)
    (hfits : fits 0 e = true) (hn : e.tokens.length < n) (hstop : ∀ level, Stops level rest) :
    parseExpr n 0 (e.tokens ++ rest) = some (e, rest) := by
  obtain ⟨k, rfl⟩ : ∃ k, n = k + 1 := ⟨n - 1, by omega⟩
  exact h.parseExpr_eq hfits (by omega) (hstop _) (hstop _)

/-- A tree with no operator after its first operand is read where that operand is. -/
theorem Reads.of_operand (hcount : e.suffixCount = 0)
    (h : ∀ {n level : Nat} {rest : List Token}, fits level e = true →
      e.tokens.length ≤ n → Stops e.openLevel rest →
      parseOperand (parseExpr n) n (e.tokens ++ rest) = some (e, rest)) : Reads e := by
  constructor
  intro n level m rest hfits hn hopen
  rw [h hfits hn hopen, hcount]
  rfl

/-- A tree that an operator ends is read where its operand is and the operator after it. -/
theorem Reads.of_suffix {e' : Expr} (hcount : e'.suffixCount = e.suffixCount + 1) (h : Reads e)
    (htokens : e'.tokens = e.tokens ++ ts)
    (hstep : ∀ {n level : Nat} {rest : List Token}, fits level e' = true →
      e'.tokens.length ≤ n → Stops e'.openLevel rest → fits level e = true ∧
        ∃ op rest', readSuffix (ts ++ rest) = some (op, rest') ∧ level ≤ op.level ∧
          op.level < e.openLevel ∧ parseSuffix (parseExpr n) n e rest' op = some (e', rest)) :
    Reads e' := by
  constructor
  intro n level m rest hfits hn hopen
  obtain ⟨hfits₁, op, rest', hop, hlevel, hbelow, hparse⟩ := hstep hfits hn hopen
  rw [htokens, List.length_append] at hn
  rw [htokens, List.append_assoc, hcount, ← Nat.add_assoc, Nat.add_right_comm,
    h.loop _ hfits₁ (by omega) (.of_readSuffix hop hbelow), parseSuffixes_step hop hlevel hparse]

theorem reads_ident (name : Ident) : Reads (.ident name) := by
  refine Reads.of_operand rfl fun {n _ rest} _ _ hopen ↦ ?_
  rw [Expr.tokens]
  cases rest with
  | nil => rfl
  | cons t ts =>
    have ht : t ≠ .leftParen := by simpa using hopen.paren
    cases t <;> first | rfl | exact absurd rfl ht

theorem reads_literal (l : Literal) : Reads (.primaryLiteral l) := by
  refine Reads.of_operand rfl fun {n _ rest} _ _ _ ↦ ?_
  cases l <;> rfl

theorem reads_paren (h : Reads e) : Reads (.paren e) := by
  refine Reads.of_operand rfl fun {n _ rest} hfits hn _ ↦ ?_
  rw [fits] at hfits
  simp only [Expr.tokens, List.length_cons, List.length_append, List.length_nil] at hn
  rw [Expr.tokens, List.cons_append, List.append_assoc, List.singleton_append, parseOperand,
    h.parseExpr_closed hfits (by omega) fun level ↦ stops_rightParen level rest]
  rfl

theorem reads_unary (op : UnaryOp) (h : Reads e) : Reads (op.apply e) := by
  refine Reads.of_operand (op.suffixCount_apply e) fun {n _ rest} hfits hn hopen ↦ ?_
  rw [op.fits_apply] at hfits
  rw [op.tokens_apply] at hn
  rw [op.openLevel_apply] at hopen
  rw [List.length_cons] at hn
  obtain ⟨k, rfl⟩ : ∃ k, n = k + 1 := ⟨n - 1, by omega⟩
  have hparse := h.parseExpr_eq hfits (n := k) (by omega) (hopen.mono (Nat.min_le_right ..))
    (hopen.mono (Nat.min_le_left ..))
  rw [op.tokens_apply, List.cons_append]
  cases op <;>
    simp only [UnaryOp.token, UnaryOp.level] at hparse ⊢ <;>
    simp only [parseOperand, Token.literal, Token.unaryOp, UnaryOp.level, hparse,
      Option.bind_eq_bind, Option.bind_some, Option.pure_def]

theorem reads_binary {left right : Expr} (op : BinaryOp) (hbelow : op.level < left.openLevel)
    (hleft : Reads left) (hright : Reads right) : Reads (op.apply left right) := by
  refine hleft.of_suffix (op.suffixCount_apply left right) (op.tokens_apply left right)
    fun {n level rest} hfits hn hopen ↦ ?_
  rw [op.fits_apply, Bool.and_eq_true, Bool.and_eq_true, decide_eq_true_eq] at hfits
  rw [op.tokens_apply, List.length_append, List.length_cons] at hn
  rw [op.openLevel_apply] at hopen
  have hlt := left.suffixCount_lt
  obtain ⟨k, rfl⟩ : ∃ k, n = k + 1 := ⟨n - 1, by omega⟩
  refine ⟨hfits.1.2, .binary op, right.tokens ++ rest, ?_, hfits.1.1, hbelow, ?_⟩
  · exact readSuffix_binary op _
  · rw [parseSuffix, hright.parseExpr_eq hfits.2 (by omega) (hopen.mono (Nat.min_le_right ..))
      (hopen.mono (Nat.min_le_left ..))]
    rfl

theorem reads_member (name : Ident) (hbelow : precedence 2 < e.openLevel)
    (h : Reads e) : Reads (.member e name) := by
  refine h.of_suffix rfl (by rw [Expr.tokens]) fun {n level rest} hfits _ _ ↦ ?_
  rw [fits, Bool.and_eq_true, decide_eq_true_eq] at hfits
  exact ⟨hfits.2, .member name, rest, rfl, hfits.1, hbelow, rfl⟩

theorem reads_pointerMember (name : Ident) (hbelow : precedence 12 < e.openLevel)
    (h : Reads e) : Reads (.pointerMember e name) := by
  refine h.of_suffix rfl (by rw [Expr.tokens]) fun {n level rest} hfits _ hopen ↦ ?_
  rw [fits, Bool.and_eq_true, decide_eq_true_eq] at hfits
  refine ⟨hfits.2, .pointerMember name, rest, ?_, hfits.1, hbelow, rfl⟩
  cases rest with
  | nil => rfl
  | cons t ts =>
    have ht : t ≠ .leftParen := by simpa using hopen.paren
    cases t <;> first | rfl | exact absurd rfl ht

theorem reads_postIncrement (hbelow : precedence 18 < e.openLevel) (h : Reads e) :
    Reads (.postIncrement e) := by
  refine h.of_suffix rfl (by rw [Expr.tokens]) fun {n level rest} hfits _ _ ↦ ?_
  rw [fits, Bool.and_eq_true, decide_eq_true_eq] at hfits
  exact ⟨hfits.2, .postIncrement, rest, rfl, hfits.1, hbelow, rfl⟩

theorem reads_postDecrement (hbelow : precedence 19 < e.openLevel) (h : Reads e) :
    Reads (.postDecrement e) := by
  refine h.of_suffix rfl (by rw [Expr.tokens]) fun {n level rest} hfits _ _ ↦ ?_
  rw [fits, Bool.and_eq_true, decide_eq_true_eq] at hfits
  exact ⟨hfits.2, .postDecrement, rest, rfl, hfits.1, hbelow, rfl⟩

theorem reads_arrayAccess {array index : Expr} (hbelow : precedence 15 < array.openLevel)
    (harray : Reads array) (hindex : Reads index) : Reads (.arrayAccess array index) := by
  refine harray.of_suffix rfl (by rw [Expr.tokens]) fun {n level rest} hfits hn _ ↦ ?_
  rw [fits, Bool.and_eq_true, Bool.and_eq_true, decide_eq_true_eq] at hfits
  simp only [Expr.tokens, List.length_append, List.length_cons] at hn
  refine ⟨hfits.1.2, .arrayAccess, index.tokens ++ .rightBracket :: rest, ?_, hfits.1.1, hbelow, ?_⟩
  · simp [readSuffix]
  · rw [parseSuffix, hindex.parseExpr_closed hfits.2 (by omega) fun l ↦ stops_rightBracket l rest]
    rfl

/-- An expression starts like an operand. -/
theorem Expr.tokens_eq_cons (e : Expr) :
    ∃ t ts, e.tokens = t :: ts ∧ t.startsOperand = true := by
  fun_induction Expr.suffixCount e
  case case11 e _ _ _ _ _ _ _ _ _ _ =>
    cases e
    case primaryLiteral | literal =>
      rename_i l _ _ _ _ _ _ _ _ _ _
      cases l <;> exact ⟨_, _, rfl, rfl⟩
    all_goals first | exact ⟨_, _, by rw [Expr.tokens], rfl⟩ | simp_all
  all_goals
    rename_i ih
    obtain ⟨t, ts, htokens, ht⟩ := ih
    rw [Expr.tokens, htokens]
    exact ⟨t, _, rfl, ht⟩

private theorem stops_moreArgTokens (level : Nat) (es : List Expr) (rest : List Token) :
    Stops level (moreArgTokens es ++ .rightParen :: rest) := by
  cases es with
  | nil => exact stops_rightParen level rest
  | cons e es => exact stops_comma level _

private theorem length_le_moreArgTokens (es : List Expr) :
    es.length ≤ (moreArgTokens es).length := by
  induction es with
  | nil => exact Nat.le_refl _
  | cons e es ih =>
    simp only [moreArgTokens, List.length_cons, List.length_append]
    omega

theorem parseMoreArgs_eq {es : List Expr} (hes : ∀ e ∈ es, Reads e) (hfit : argsFit es = true)
    (hm : es.length < m) (hn : (moreArgTokens es).length ≤ n) (rest : List Token) :
    parseMoreArgs (parseExpr n) m (moreArgTokens es ++ .rightParen :: rest) = some (es, rest) := by
  induction es generalizing m with
  | nil =>
    obtain ⟨k, rfl⟩ : ∃ k, m = k + 1 := ⟨m - 1, by simp only [List.length_nil] at hm; omega⟩
    rfl
  | cons e es ih =>
    rw [argsFit, Bool.and_eq_true] at hfit
    simp only [moreArgTokens, List.length_cons, List.length_append] at hm hn
    obtain ⟨k, rfl⟩ : ∃ k, m = k + 1 := ⟨m - 1, by omega⟩
    rw [moreArgTokens, List.cons_append, List.append_assoc, parseMoreArgs,
      (hes e (by simp)).parseExpr_closed hfit.1 (by omega) fun level ↦
        stops_moreArgTokens level es rest]
    simp only [Option.bind_eq_bind, Option.bind_some]
    rw [ih (fun e' he' ↦ hes e' (by simp [he'])) hfit.2 (by omega) (by omega)]
    rfl

theorem parseArgs_eq {es : List Expr} (hes : ∀ e ∈ es, Reads e) (hfit : argsFit es = true)
    (hn : (argTokens es).length < n) (rest : List Token) :
    parseArgs (parseExpr n) n (argTokens es ++ .rightParen :: rest) = some (es, rest) := by
  cases es with
  | nil => rfl
  | cons e es =>
    rw [argsFit, Bool.and_eq_true] at hfit
    have hlength := length_le_moreArgTokens es
    have he := (hes e (by simp)).parseExpr_closed hfit.1 (n := n)
      (by simp only [argTokens, List.length_append] at hn; omega)
      fun level ↦ stops_moreArgTokens level es rest
    have hmore := parseMoreArgs_eq (fun e' he' ↦ hes e' (by simp [he'])) hfit.2 (n := n) (m := n)
      (by
        have := e.suffixCount_lt
        simp only [argTokens, List.length_append] at hn
        omega)
      (by simp only [argTokens, List.length_append] at hn; omega) rest
    obtain ⟨t, ts, htokens, ht⟩ := e.tokens_eq_cons
    rw [argTokens, List.append_assoc]
    rw [htokens] at he ⊢
    rw [parseArgs]
    · rw [he]
      simp only [Option.bind_eq_bind, Option.bind_some]
      rw [hmore]
      rfl
    · intro ts' hts
      rw [List.cons_append, List.cons.injEq] at hts
      rw [hts.1] at ht
      cases ht

/-- A call of a function or of a constructor, which differ in the first words. -/
theorem reads_call (name : Ident) (h : ∀ e ∈ args, Reads e) :
    Reads (.funcCall name args) ∧ Reads (.newWithConstructor name args) := by
  constructor
  all_goals
    refine Reads.of_operand rfl fun {n _ rest} hfits hn _ ↦ ?_
    rw [fits] at hfits
    simp only [Expr.tokens, List.length_cons, List.length_append, List.length_nil] at hn
    simp only [Expr.tokens, List.cons_append, List.append_assoc, List.nil_append, parseOperand]
    rw [parseArgs_eq h hfits (by omega)]
    rfl

theorem reads_methodCall (name : Ident)
    (hbelow : precedence 16 < e.openLevel) (h : Reads e) (hargs : ∀ e ∈ args, Reads e) :
    Reads (.methodCall e name args) := by
  refine h.of_suffix rfl (by rw [Expr.tokens]) fun {n level rest} hfits hn _ ↦ ?_
  rw [fits, Bool.and_eq_true, Bool.and_eq_true, decide_eq_true_eq] at hfits
  simp only [Expr.tokens, List.length_append, List.length_cons] at hn
  refine ⟨hfits.1.2, .methodCall name, argTokens args ++ .rightParen :: rest, ?_, hfits.1.1,
    hbelow, ?_⟩
  · simp [readSuffix]
  · rw [parseSuffix, parseArgs_eq hargs hfits.2 (by omega)]
    rfl

private theorem length_le_initTokens (is : List Initializer) :
    is.length ≤ (initTokens is).length := by
  have hmore : ∀ is : List Initializer, is.length ≤ (moreInitTokens is).length := by
    intro is
    induction is with
    | nil => exact Nat.le_refl _
    | cons i is ih =>
      simp only [moreInitTokens, List.length_cons, List.length_append]
      omega
  cases is with
  | nil => exact Nat.le_refl _
  | cons i is =>
    obtain ⟨name, value⟩ := i
    have := hmore is
    simp only [initTokens, Initializer.tokens, List.length_cons, List.length_append]
    omega

private theorem stops_closing (comma : Bool) (rest : List Token) (level : Nat) :
    Stops level (closing comma ++ rest) := by
  cases comma with
  | false => exact stops_rightBrace level rest
  | true => exact stops_comma level (.rightBrace :: rest)

private theorem parseInits_eq {is : List Initializer}
    (his : ∀ name value, .mk name value ∈ is → Reads value) (hne : is ≠ [])
    (hfit : initsFit is = true) (hm : is.length ≤ m) (hn : (initTokens is).length ≤ n)
    (comma : Bool) (rest : List Token) :
    parseInits (parseExpr n) m (initTokens is ++ (closing comma ++ rest)) =
      some (is, comma, rest) := by
  induction is generalizing m with
  | nil => exact absurd rfl hne
  | cons i is ih =>
    obtain ⟨name, value⟩ := i
    rw [initsFit, Bool.and_eq_true] at hfit
    obtain ⟨k, rfl⟩ : ∃ k, m = k + 1 := ⟨m - 1, by simp only [List.length_cons] at hm; omega⟩
    have hvalue := his name value (by simp)
    cases is with
    | nil =>
      simp only [initTokens, moreInitTokens, Initializer.tokens, List.length_append,
        List.length_cons, List.length_nil] at hn
      simp only [initTokens, moreInitTokens, Initializer.tokens, List.append_nil, List.cons_append]
      rw [parseInits, hvalue.parseExpr_closed hfit.1 (by omega) (stops_closing comma rest)]
      cases comma <;> rfl
    | cons j is =>
      rw [initTokens_cons_cons] at hn ⊢
      simp only [Initializer.tokens, List.length_append, List.length_cons] at hm hn
      simp only [Initializer.tokens, List.cons_append, List.append_assoc]
      have hrest := ih (fun name value h ↦ his name value (by simp [h])) (by simp) hfit.2 (m := k)
        (by simp only [List.length_cons]; omega) (by omega)
      rw [parseInits, hvalue.parseExpr_closed hfit.1 (by omega) fun l ↦ stops_comma l _]
      obtain ⟨name', value'⟩ := j
      simp only [initTokens, Initializer.tokens, List.cons_append] at hrest ⊢
      simp only [Option.bind_eq_bind, Option.bind_some, hrest]
      rfl

theorem reads_structInit {inits : List Initializer} (trailingComma : Bool)
    (h : ∀ name value, .mk name value ∈ inits → Reads value) :
    Reads (.structInit inits trailingComma) := by
  refine Reads.of_operand rfl fun {n _ rest} hfits hn _ ↦ ?_
  rw [fits, Bool.and_eq_true] at hfits
  rw [Expr.tokens] at hn ⊢
  cases inits with
  | nil =>
    cases trailingComma with
    | false => rfl
    | true => simp at hfits
  | cons i is =>
    simp only [List.length_cons, List.length_append] at hn
    have hparse := parseInits_eq h (by simp) hfits.2 (n := n) (m := n)
      (by
        have := length_le_initTokens (i :: is)
        omega)
      (by omega) trailingComma rest
    obtain ⟨name, value⟩ := i
    rw [closing] at hparse
    rw [List.cons_append, List.append_assoc]
    simp only [initTokens, Initializer.tokens, List.cons_append] at hparse ⊢
    simp only [parseOperand, hparse, Option.bind_eq_bind, Option.bind_some, Option.pure_def]

mutual

/-- The loop comes to every closed tree. -/
theorem reads_of_closed : (e : Expr) → closed e = true → Reads e
  | .paren e, h => reads_paren (reads_of_closed e (by rwa [closed] at h))
  | .ident name, _ => reads_ident name
  | .primaryLiteral l, _ => reads_literal l
  | .var _, h | .literal _, h | .new _, h => by rw [closed] at h; cases h
  | .member e name, h => by
    simp only [closed, Bool.and_eq_true, decide_eq_true_eq] at h
    exact reads_member name h.1 (reads_of_closed e h.2)
  | .funcCall name args, h => by
    rw [closed] at h
    exact (reads_call name (argsRead_of_closed args h)).1
  | .mulDiv left op right, h => by
    simp only [closed, Bool.and_eq_true, decide_eq_true_eq] at h
    exact reads_binary (.mulDiv op) h.1.1 (reads_of_closed left h.1.2) (reads_of_closed right h.2)
  | .addSub left op right, h => by
    simp only [closed, Bool.and_eq_true, decide_eq_true_eq] at h
    exact reads_binary (.addSub op) h.1.1 (reads_of_closed left h.1.2) (reads_of_closed right h.2)
  | .compare left op right, h => by
    simp only [closed, Bool.and_eq_true, decide_eq_true_eq] at h
    exact reads_binary (.compare op) h.1.1 (reads_of_closed left h.1.2) (reads_of_closed right h.2)
  | .assign left right, h => by
    simp only [closed, Bool.and_eq_true, decide_eq_true_eq] at h
    exact reads_binary .assign h.1.1 (reads_of_closed left h.1.2) (reads_of_closed right h.2)
  | .newWithConstructor name args, h => by
    rw [closed] at h
    exact (reads_call name (argsRead_of_closed args h)).2
  | .pointerMember e name, h => by
    simp only [closed, Bool.and_eq_true, decide_eq_true_eq] at h
    exact reads_pointerMember name h.1 (reads_of_closed e h.2)
  | .addressOf e, h => reads_unary .addressOf (reads_of_closed e (by rwa [closed] at h))
  | .dereference e, h => reads_unary .dereference (reads_of_closed e (by rwa [closed] at h))
  | .arrayAccess array index, h => by
    simp only [closed, Bool.and_eq_true, decide_eq_true_eq] at h
    exact reads_arrayAccess h.1.1 (reads_of_closed array h.1.2) (reads_of_closed index h.2)
  | .methodCall e name args, h => by
    simp only [closed, Bool.and_eq_true, decide_eq_true_eq] at h
    exact reads_methodCall name h.1.1 (reads_of_closed e h.1.2) (argsRead_of_closed args h.2)
  | .structInit inits comma, h => by
    rw [closed] at h
    exact reads_structInit comma (initsRead_of_closed inits h)
  | .postIncrement e, h => by
    simp only [closed, Bool.and_eq_true, decide_eq_true_eq] at h
    exact reads_postIncrement h.1 (reads_of_closed e h.2)
  | .postDecrement e, h => by
    simp only [closed, Bool.and_eq_true, decide_eq_true_eq] at h
    exact reads_postDecrement h.1 (reads_of_closed e h.2)
  | .preIncrement e, h => reads_unary .preIncrement (reads_of_closed e (by rwa [closed] at h))
  | .preDecrement e, h => reads_unary .preDecrement (reads_of_closed e (by rwa [closed] at h))

theorem argsRead_of_closed : (es : List Expr) → argsClosed es = true → ∀ e ∈ es, Reads e
  | [], _, _, hmem => by cases hmem
  | e :: es, h, e', hmem => by
    rw [argsClosed, Bool.and_eq_true] at h
    rcases List.mem_cons.mp hmem with heq | hmem
    · rw [heq]
      exact reads_of_closed e h.1
    · exact argsRead_of_closed es h.2 e' hmem

theorem initsRead_of_closed : (is : List Initializer) → initsClosed is = true →
    ∀ name value, Initializer.mk name value ∈ is → Reads value
  | [], _, _, _, hmem => by cases hmem
  | .mk name value :: is, h, name', value', hmem => by
    rw [initsClosed, Bool.and_eq_true] at h
    rcases List.mem_cons.mp hmem with heq | hmem
    · cases heq
      exact reads_of_closed value h.1
    · exact initsRead_of_closed is h.2 name' value' hmem

end

/-- A tree is found again from its tokens if each of its operators stands at its level and none
is taken by an operand before it. -/
theorem parse_complete (hfits : fits 0 e = true) (hclosed : closed e = true) :
    parse e.tokens = some e := by
  have h := (reads_of_closed e hclosed).parseExpr_eq hfits (Nat.le_refl _) (stops_nil _) (stops_nil 0)
  rw [List.append_nil] at h
  rw [parse, h]

end JBLang.Ast
