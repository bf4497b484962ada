import JBLang.Ast.Reading
import JBLang.Ast.Names

/-!
# Where the operands of an expression stand

Each subtree of a parse tree takes an interval of the tokens; the intervals of two subtrees are
nested or apart. From this and the levels of `JBLang.Ast.Parsing`: the base that a `->` is read
with, where it follows an operand of a binary operator.
-/

namespace JBLang.Ast

open JBLang.Base JBLang.Types JBLang.Codegen

/-! ### Subtrees with their places -/

/-- The arguments of a list that starts at a token. -/
def argChildren (start : Nat) : List Expr → List (Nat × Expr)
  | [] => []
  | e :: es => (start, e) :: argChildren (start + e.tokens.length + 1) es

/-- The values of an initializer list that starts at a token. -/
def initChildren (start : Nat) : List Initializer → List (Nat × Expr)
  | [] => []
  | .mk _ value :: is =>
    (start + 3, value) :: initChildren (start + 3 + value.tokens.length + 1) is

/-- The parts of an expression with the tokens they start at. -/
def children (start : Nat) : Expr → List (Nat × Expr)
  | .paren e | .addressOf e | .dereference e | .preIncrement e | .preDecrement e => [(start + 1, e)]
  | .ident _ | .primaryLiteral _ | .var _ | .literal _ | .new _ => []
  | .member e _ | .pointerMember e _ | .postIncrement e | .postDecrement e => [(start, e)]
  | .funcCall _ args => argChildren (start + 2) args
  | .mulDiv left _ right | .addSub left _ right | .compare left _ right | .assign left right
  | .arrayAccess left right => [(start, left), (start + left.tokens.length + 1, right)]
  | .newWithConstructor _ args => argChildren (start + 3) args
  | .methodCall e _ args => (start, e) :: argChildren (start + e.tokens.length + 3) args
  | .structInit inits _ => initChildren (start + 1) inits

/-- The expression `e'` stands at a token in the expression `e` that starts at another. -/
inductive Occurs : Nat → Expr → Nat → Expr → Prop
  | self (start : Nat) (e : Expr) : Occurs start e start e
  | child {start : Nat} {e : Expr} {start₁ : Nat} {e₁ : Expr} {start' : Nat} {e' : Expr} :
    (start₁, e₁) ∈ children start e → Occurs start₁ e₁ start' e' → Occurs start e start' e'

/-- Parts that stand one after the other between two tokens. -/
def PartsInOrder (first last : Nat) : List (Nat × Expr) → Prop
  | [] => first ≤ last
  | (start, e) :: es => first ≤ start ∧ PartsInOrder (start + e.tokens.length) last es

section

variable {first last start s s' s₁ s₂ level : Nat} {e e' e₁ e₂ c a base left right : Expr}
  {ts ts' : List Token}

variable {es : List (Nat × Expr)} {op : BinaryOp} {is : List Initializer}

theorem PartsInOrder.mono {first' last' : Nat}
    (h : PartsInOrder first last es) (hfirst : first' ≤ first) (hlast : last ≤ last') :
    PartsInOrder first' last' es := by
  induction es generalizing first first' with
  | nil =>
    simp only [PartsInOrder] at h ⊢
    omega
  | cons e es ih => exact ⟨Nat.le_trans hfirst h.1, ih h.2 (Nat.le_refl _)⟩

theorem PartsInOrder.le (h : PartsInOrder first last es) : first ≤ last := by
  induction es generalizing first with
  | nil => exact h
  | cons c es ih =>
    have hs := h.1
    have hle := ih h.2
    omega

theorem PartsInOrder.bounds (h : PartsInOrder first last es)
    (hmem : (start, e) ∈ es) : first ≤ start ∧ start + e.tokens.length ≤ last := by
  induction es generalizing first with
  | nil => cases hmem
  | cons c es ih =>
    obtain ⟨s, c⟩ := c
    rcases List.mem_cons.mp hmem with heq | hmem
    · cases heq
      exact ⟨h.1, h.2.le⟩
    · have hs := h.1
      obtain ⟨hstart, hend⟩ := ih h.2 hmem
      exact ⟨by omega, hend⟩

/-- Two of the parts are the same or do not overlap. -/
theorem PartsInOrder.apart (h : PartsInOrder first last es)
    (h₁ : (s₁, e₁) ∈ es) (h₂ : (s₂, e₂) ∈ es) :
    (s₁, e₁) = (s₂, e₂) ∨ s₁ + e₁.tokens.length ≤ s₂ ∨ s₂ + e₂.tokens.length ≤ s₁ := by
  induction es generalizing first with
  | nil => cases h₁
  | cons c es ih =>
    obtain ⟨s, c⟩ := c
    rcases List.mem_cons.mp h₁ with heq₁ | hmem₁ <;> rcases List.mem_cons.mp h₂ with heq₂ | hmem₂
    · exact .inl (heq₁.trans heq₂.symm)
    · cases heq₁
      exact .inr (.inl (h.2.bounds hmem₂).1)
    · cases heq₂
      exact .inr (.inr (h.2.bounds hmem₁).1)
    · exact ih h.2 hmem₁ hmem₂

private theorem inOrder_moreArgs (start : Nat) (es : List Expr) :
    PartsInOrder start (start + (moreArgTokens es).length) (argChildren (start + 1) es) := by
  induction es generalizing start with
  | nil => simp [PartsInOrder, argChildren]
  | cons e es ih =>
    refine ⟨by omega, ?_⟩
    rw [moreArgTokens, List.length_cons, List.length_append]
    exact (ih _).mono (Nat.le_refl _) (by omega)

private theorem inOrder_args (start : Nat) (es : List Expr) :
    PartsInOrder start (start + (argTokens es).length) (argChildren start es) := by
  cases es with
  | nil => simp [PartsInOrder, argChildren]
  | cons e es =>
    refine ⟨Nat.le_refl _, ?_⟩
    rw [argTokens, List.length_append]
    exact (inOrder_moreArgs _ es).mono (Nat.le_refl _) (by omega)

private theorem inOrder_moreInits (start : Nat) (is : List Initializer) :
    PartsInOrder start (start + (moreInitTokens is).length) (initChildren (start + 1) is) := by
  induction is generalizing start with
  | nil => simp [PartsInOrder, initChildren]
  | cons i is ih =>
    obtain ⟨name, value⟩ := i
    refine ⟨by omega, ?_⟩
    rw [moreInitTokens, Initializer.tokens]
    simp only [List.length_cons, List.length_append, List.cons_append]
    exact (ih _).mono (Nat.le_refl _) (by omega)

private theorem inOrder_inits (start : Nat) (is : List Initializer) :
    PartsInOrder start (start + (initTokens is).length) (initChildren start is) := by
  cases is with
  | nil => simp [PartsInOrder, initChildren]
  | cons i is =>
    obtain ⟨name, value⟩ := i
    refine ⟨by omega, ?_⟩
    rw [initTokens, Initializer.tokens]
    simp only [List.length_cons, List.length_append, List.cons_append]
    exact (inOrder_moreInits _ is).mono (Nat.le_refl _) (by omega)

/-- The parts of an expression stand one after the other in its tokens. -/
theorem inOrder_children (start : Nat) (e : Expr) :
    PartsInOrder start (start + e.tokens.length) (children start e) := by
  cases e with
  | funcCall name args | newWithConstructor name args =>
    rw [children, Expr.tokens]
    simp only [List.length_cons, List.length_append, List.length_nil]
    exact (inOrder_args _ args).mono (by omega) (by omega)
  | methodCall e name args =>
    rw [children, Expr.tokens]
    simp only [List.length_cons, List.length_append, List.length_nil]
    exact ⟨Nat.le_refl _, (inOrder_args _ args).mono (by omega) (by omega)⟩
  | structInit inits comma =>
    rw [children, Expr.tokens]
    simp only [List.length_cons, List.length_append]
    exact (inOrder_inits _ inits).mono (by omega) (by omega)
  | _ =>
    simp only [children, Expr.tokens, PartsInOrder, List.length_cons, List.length_append,
      List.length_nil]
    omega

/-- A part stands inside the whole. -/
theorem Occurs.bounds {start' : Nat} (h : Occurs start e start' e') :
    start ≤ start' ∧ start' + e'.tokens.length ≤ start + e.tokens.length := by
  induction h with
  | self => exact ⟨Nat.le_refl _, Nat.le_refl _⟩
  | child hmem _ ih =>
    have := (inOrder_children _ _).bounds hmem
    omega

theorem Occurs.trans (h : Occurs s e s₁ e₁) (h₁ : Occurs s₁ e₁ s₂ e₂) : Occurs s e s₂ e₂ := by
  induction h with
  | self => exact h₁
  | child hmem _ ih => exact .child hmem (ih h₁)

/-- Two parts of an expression are nested or do not overlap. -/
theorem Occurs.nested (h₁ : Occurs start e s₁ e₁) (h₂ : Occurs start e s₂ e₂) :
    s₁ + e₁.tokens.length ≤ s₂ ∨ s₂ + e₂.tokens.length ≤ s₁ ∨ Occurs s₁ e₁ s₂ e₂ ∨
    Occurs s₂ e₂ s₁ e₁ := by
  induction h₁ with
  | self => exact .inr (.inr (.inl h₂))
  | child hmem₁ hrest₁ ih =>
    cases h₂ with
    | self => exact .inr (.inr (.inr (.child hmem₁ hrest₁)))
    | child hmem₂ hrest₂ =>
      have hb₁ := hrest₁.bounds
      have hb₂ := hrest₂.bounds
      rcases (inOrder_children _ _).apart hmem₁ hmem₂ with heq | hle | hle
      · cases heq
        exact ih hrest₂
      · exact .inl (by omega)
      · exact .inr (.inl (by omega))

/-! ### Tokens and levels of the parts -/

theorem BinaryOp.token_ne (op : BinaryOp) : op.token ≠ .dot ∧ op.token ≠ .arrow := by
  rcases op with (_ | _) | (_ | _) | (_ | _ | _ | _ | _ | _) | _ <;> simp [BinaryOp.token]

/-- The tokens of a part are some of those of the whole. -/
def TokensAt (start : Nat) (ts : List Token) (start' : Nat) (ts' : List Token) : Prop :=
  ∃ pre post, ts = pre ++ ts' ++ post ∧ start' = start + pre.length

theorem TokensAt.trans {ts₁ ts₂ : List Token} (h : TokensAt s ts s₁ ts₁)
    (h₁ : TokensAt s₁ ts₁ s₂ ts₂) : TokensAt s ts s₂ ts₂ := by
  obtain ⟨pre, post, rfl, rfl⟩ := h
  obtain ⟨pre₁, post₁, rfl, rfl⟩ := h₁
  exact ⟨pre ++ pre₁, post₁ ++ post, by simp, by simp [Nat.add_assoc]⟩

/-- The token at a place of a part is the one at that place of the whole. -/
theorem TokensAt.getElem? (h : TokensAt s ts s' ts') {i : Nat}
    (hi : i < ts'.length) : ts[s' - s + i]? = ts'[i]? := by
  obtain ⟨pre, post, rfl, rfl⟩ := h
  rw [Nat.add_sub_cancel_left, List.append_assoc, List.getElem?_append_right (by omega),
    Nat.add_sub_cancel_left, List.getElem?_append_left hi]

/-- The tokens of a part behind a token that is not before a member's name. -/
def StandsBehind (start : Nat) (ts : List Token) (start' : Nat) (ts' : List Token) : Prop :=
  ∃ pre t post, ts = pre ++ t :: (ts' ++ post) ∧ start' = start + pre.length + 1 ∧
    t ≠ .dot ∧ t ≠ .arrow

theorem StandsBehind.between (h : StandsBehind s₁ ts s' ts')
    (pre post : List Token) (hs : s₁ = s + pre.length) :
    StandsBehind s (pre ++ ts ++ post) s' ts' := by
  obtain ⟨pre₁, t, post₁, rfl, rfl, ht⟩ := h
  exact ⟨pre ++ pre₁, t, post₁ ++ post, by simp, by simp [hs, Nat.add_assoc], ht⟩

theorem StandsBehind.tokensAt (h : StandsBehind s ts s' ts') : TokensAt s ts s' ts' := by
  obtain ⟨pre, t, post, rfl, rfl, -⟩ := h
  exact ⟨pre ++ [t], post, by simp, by simp [Nat.add_assoc]⟩

private theorem standsBehind_args {es : List Expr}
    (h : (s, c) ∈ argChildren (start + 1) es) {t : Token} (ht : t ≠ .dot ∧ t ≠ .arrow) :
    StandsBehind start (t :: argTokens es) s c.tokens := by
  induction es generalizing start t with
  | nil => cases h
  | cons e es ih =>
    rcases List.mem_cons.mp h with heq | hmem
    · cases heq
      exact ⟨[], t, moreArgTokens es, by rw [argTokens]; rfl, rfl, ht⟩
    · cases es with
      | nil => cases hmem
      | cons e' es =>
        have hrest := (ih hmem (t := .comma) (by simp)).between (s := start) (t :: e.tokens) []
          (by rw [List.length_cons]; omega)
        rw [List.append_nil] at hrest
        exact hrest

private theorem standsBehind_inits
    (h : (s, c) ∈ initChildren start is) : StandsBehind start (initTokens is) s c.tokens := by
  induction is generalizing start with
  | nil => cases h
  | cons i is ih =>
    obtain ⟨name, value⟩ := i
    rcases List.mem_cons.mp h with heq | hmem
    · cases heq
      exact ⟨[.dot, .ident name], .equal, moreInitTokens is,
        by rw [initTokens, Initializer.tokens]; rfl, rfl, by simp⟩
    · cases is with
      | nil => cases hmem
      | cons i' is =>
        have hrest := (ih hmem).between (s := start)
          ((Initializer.mk name value).tokens ++ [.comma]) []
          (by simp only [Initializer.tokens, List.length_append, List.length_cons, List.length_nil]; omega)
        rw [initTokens_cons_cons]
        simpa only [List.append_assoc, List.singleton_append, List.append_nil] using hrest

/-- A part stands at the start of the whole or behind a token that is not before a member's
name. -/
theorem stands_children (h : (s, c) ∈ children start e) :
    (s = start ∧ ∃ post, e.tokens = c.tokens ++ post) ∨ StandsBehind start e.tokens s c.tokens := by
  cases e with
  | funcCall name args =>
    have hargs := (standsBehind_args h (t := .leftParen) (by simp)).between (s := start)
      [.ident name] [.rightParen] rfl
    exact .inr (by simpa [Expr.tokens] using hargs)
  | newWithConstructor name args =>
    have hargs := (standsBehind_args h (t := .leftParen) (by simp)).between (s := start)
      [.new, .ident name] [.rightParen] rfl
    exact .inr (by simpa [Expr.tokens] using hargs)
  | methodCall e name args =>
    rcases List.mem_cons.mp h with heq | hmem
    · cases heq
      exact .inl ⟨rfl, _, by rw [Expr.tokens]⟩
    · have hargs := (standsBehind_args hmem (t := .leftParen) (by simp)).between (s := start)
        (e.tokens ++ [.arrow, .ident name]) [.rightParen] (by simp; omega)
      rw [Expr.tokens]
      exact .inr (by simpa only [List.append_assoc, List.cons_append, List.nil_append] using hargs)
  | structInit inits comma =>
    have hinits := (standsBehind_inits h).between (s := start) [.leftBrace]
      (if comma then [.comma, .rightBrace] else [.rightBrace]) rfl
    exact .inr (by simpa [Expr.tokens] using hinits)
  | paren e =>
    simp only [children, List.mem_singleton, Prod.mk.injEq] at h
    obtain ⟨rfl, rfl⟩ := h
    exact .inr ⟨[], .leftParen, [.rightParen], by rw [Expr.tokens]; rfl, rfl, by simp⟩
  | addressOf e | dereference e | preIncrement e | preDecrement e =>
    simp only [children, List.mem_singleton, Prod.mk.injEq] at h
    obtain ⟨rfl, rfl⟩ := h
    exact .inr ⟨[], _, [], by rw [Expr.tokens, List.append_nil]; rfl, rfl, by simp⟩
  | member e name | pointerMember e name | postIncrement e | postDecrement e =>
    simp only [children, List.mem_singleton, Prod.mk.injEq] at h
    obtain ⟨rfl, rfl⟩ := h
    exact .inl ⟨rfl, _, by rw [Expr.tokens]⟩
  | mulDiv left op right | addSub left op right | compare left op right | assign left right =>
    simp only [children, List.mem_cons, List.not_mem_nil, or_false, Prod.mk.injEq] at h
    rcases h with ⟨rfl, rfl⟩ | ⟨rfl, rfl⟩
    · exact .inl ⟨rfl, _, by rw [Expr.tokens]⟩
    · exact .inr ⟨left.tokens, _, [], by rw [Expr.tokens, List.append_nil], rfl,
        BinaryOp.token_ne _⟩
  | arrayAccess array index =>
    simp only [children, List.mem_cons, List.not_mem_nil, or_false, Prod.mk.injEq] at h
    rcases h with ⟨rfl, rfl⟩ | ⟨rfl, rfl⟩
    · exact .inl ⟨rfl, _, by rw [Expr.tokens]⟩
    · exact .inr ⟨array.tokens, .leftBracket, [.rightBracket], by rw [Expr.tokens], rfl, by simp⟩
  | _ => cases h

theorem tokensAt_children (h : (s, c) ∈ children start e) : TokensAt start e.tokens s c.tokens := by
  rcases stands_children h with ⟨rfl, post, hpost⟩ | hbehind
  · exact ⟨[], post, hpost, rfl⟩
  · exact hbehind.tokensAt

/-- An expression in another one stands at its start or behind a token that is not before a
member's name. -/
theorem Occurs.stands (h : Occurs start e s e') :
    (s = start ∧ ∃ post, e.tokens = e'.tokens ++ post) ∨ StandsBehind start e.tokens s e'.tokens := by
  induction h with
  | self => exact .inl ⟨rfl, [], by simp⟩
  | child hmem _ ih =>
    rcases ih with ⟨rfl, post, hpost⟩ | hbehind
    · rcases stands_children hmem with ⟨rfl, post₁, hpost₁⟩ | ⟨pre, t, post₁, hpost₁, hs, ht⟩
      · exact .inl ⟨rfl, post ++ post₁, by rw [hpost₁, hpost, List.append_assoc]⟩
      · exact .inr ⟨pre, t, post ++ post₁, by rw [hpost₁, hpost, List.append_assoc], hs, ht⟩
    · obtain ⟨pre, post, hpost, hs⟩ := tokensAt_children hmem
      rw [hpost]
      exact .inr (hbehind.between pre post hs)

theorem Occurs.tokensAt (h : Occurs start e s e') : TokensAt start e.tokens s e'.tokens := by
  induction h with
  | self => exact ⟨[], [], by simp, rfl⟩
  | child hmem _ ih => exact (tokensAt_children hmem).trans ih

private theorem fits_args {es : List Expr}
    (h : (s, c) ∈ argChildren start es) (hfit : argsFit es = true) : start ≤ s ∧ fits 0 c = true := by
  induction es generalizing start with
  | nil => cases h
  | cons e es ih =>
    rw [argsFit, Bool.and_eq_true] at hfit
    rcases List.mem_cons.mp h with heq | h
    · cases heq
      exact ⟨Nat.le_refl _, hfit.1⟩
    · obtain ⟨hle, hc⟩ := ih h hfit.2
      exact ⟨by omega, hc⟩

private theorem fits_inits (h : (s, c) ∈ initChildren start is) (hfit : initsFit is = true) :
    start ≤ s ∧ fits 0 c = true := by
  induction is generalizing start with
  | nil => cases h
  | cons i is ih =>
    obtain ⟨name, value⟩ := i
    rw [initsFit, Bool.and_eq_true] at hfit
    rcases List.mem_cons.mp h with heq | h
    · cases heq
      exact ⟨by omega, hfit.1⟩
    · obtain ⟨hle, hc⟩ := ih h hfit.2
      exact ⟨by omega, hc⟩

/-- A part at the start of an expression is read at the level of the whole. -/
theorem fits_children (h : (s, c) ∈ children start e) (hfits : fits level e = true) :
    ∃ level', fits level' c = true ∧ (s = start → level' = level) := by
  cases e with
  | funcCall name args =>
    rw [fits] at hfits
    obtain ⟨hle, hc⟩ := fits_args h hfits
    exact ⟨0, hc, fun heq ↦ by omega⟩
  | newWithConstructor name args =>
    rw [fits] at hfits
    obtain ⟨hle, hc⟩ := fits_args h hfits
    exact ⟨0, hc, fun heq ↦ by omega⟩
  | methodCall e name args =>
    rw [fits, Bool.and_eq_true, Bool.and_eq_true] at hfits
    rcases List.mem_cons.mp h with heq | h
    · cases heq
      exact ⟨level, hfits.1.2, fun _ ↦ rfl⟩
    · obtain ⟨hle, hc⟩ := fits_args h hfits.2
      exact ⟨0, hc, fun heq ↦ by omega⟩
  | structInit inits comma =>
    rw [fits, Bool.and_eq_true] at hfits
    obtain ⟨hle, hc⟩ := fits_inits h hfits.2
    exact ⟨0, hc, fun heq ↦ by omega⟩
  | paren e | addressOf e | dereference e | preIncrement e | preDecrement e =>
    simp only [children, List.mem_singleton, Prod.mk.injEq] at h
    obtain ⟨rfl, rfl⟩ := h
    rw [fits] at hfits
    exact ⟨_, hfits, fun heq ↦ by omega⟩
  | member e name | pointerMember e name | postIncrement e | postDecrement e =>
    simp only [children, List.mem_singleton, Prod.mk.injEq] at h
    obtain ⟨rfl, rfl⟩ := h
    rw [fits, Bool.and_eq_true] at hfits
    exact ⟨level, hfits.2, fun _ ↦ rfl⟩
  | mulDiv left op right | addSub left op right | compare left op right | assign left right
  | arrayAccess left right =>
    simp only [children, List.mem_cons, List.not_mem_nil, or_false, Prod.mk.injEq] at h
    rw [fits, Bool.and_eq_true, Bool.and_eq_true] at hfits
    rcases h with ⟨rfl, rfl⟩ | ⟨rfl, rfl⟩
    · exact ⟨level, hfits.1.2, fun _ ↦ rfl⟩
    · exact ⟨_, hfits.2, fun heq ↦ by omega⟩
  | _ => cases h

theorem Occurs.fits (h : Occurs start e s e') (hfits : fits level e = true) :
    ∃ level', Ast.fits level' e' = true ∧ (s = start → level' = level) := by
  induction h generalizing level with
  | self => exact ⟨level, hfits, fun _ ↦ rfl⟩
  | child hmem hrest ih =>
    obtain ⟨level₁, hfits₁, heq₁⟩ := fits_children hmem hfits
    obtain ⟨level₂, hfits₂, heq₂⟩ := ih hfits₁
    refine ⟨level₂, hfits₂, fun heq ↦ ?_⟩
    have hstart := ((inOrder_children _ _).bounds hmem).1
    have hend := hrest.bounds.1
    rw [heq₂ (by omega), heq₁ (by omega)]

/-! ### Bases of `->` -/

/-- The base of a `->`. -/
def Expr.receiver : Expr → Option Expr
  | .pointerMember e _ | .methodCall e _ _ => some e
  | _ => none

/-- A binary operator stands directly before a token. -/
def IsOperand (e : Expr) (i : Nat) : Prop :=
  ∃ s op left right, Occurs 0 e s (BinaryOp.apply left op right) ∧ i = s + left.tokens.length + 1

/-- The tree `a` of the `->` that is a token, and its base. -/
def ArrowAt (e : Expr) (i : Nat) (a base : Expr) : Prop :=
  ∃ s, Occurs 0 e s a ∧ a.receiver = some base ∧ i = s + base.tokens.length

theorem BinaryOp.children_apply (op : BinaryOp) (start : Nat) (left right : Expr) :
    children start (op.apply left right) =
      [(start, left), (start + left.tokens.length + 1, right)] := by
  cases op <;> rw [BinaryOp.apply, children]

theorem Expr.length_pos (e : Expr) : 0 < e.tokens.length :=
  Nat.lt_of_le_of_lt (Nat.zero_le _) e.suffixCount_lt

/-- A `->` is taken by an operand at its level only. -/
theorem le_of_fits_receiver (hfits : fits level a = true)
    (h : a.receiver = some base) : level ≤ precedence 12 := by
  cases a with
  | pointerMember e name =>
    rw [fits, Bool.and_eq_true, decide_eq_true_eq] at hfits
    exact hfits.1
  | methodCall e name args =>
    rw [fits, Bool.and_eq_true, Bool.and_eq_true, decide_eq_true_eq] at hfits
    exact Nat.le_trans hfits.1.1 (by decide)
  | _ => cases h

theorem length_receiver (h : a.receiver = some base) : base.tokens.length + 2 ≤ a.tokens.length := by
  cases a <;> simp only [Expr.receiver, Option.some.injEq, reduceCtorEq] at h <;>
    subst h <;>
    simp only [Expr.tokens, List.length_append, List.length_cons, List.length_nil] <;>
    omega

theorem children_receiver (h : a.receiver = some base) (hmem : (s, c) ∈ children start a) :
    (s = start ∧ c = base) ∨ start + base.tokens.length + 3 ≤ s := by
  cases a with
  | pointerMember e name =>
    cases h
    simp only [children, List.mem_singleton, Prod.mk.injEq] at hmem
    exact .inl hmem
  | methodCall e name args =>
    cases h
    rcases List.mem_cons.mp hmem with heq | hmem
    · cases heq
      exact .inl ⟨rfl, rfl⟩
    · exact .inr ((inOrder_args _ args).bounds hmem).1
  | _ => cases h

theorem occurs_receiver (h : a.receiver = some base) (start : Nat) : Occurs start a start base := by
  cases a with
  | pointerMember e name | methodCall e name =>
    cases h
    exact .child (by simp [children]) (.self start base)
  | _ => cases h

/-- No `->` is read with an operand of a binary operator as its left end. -/
theorem not_arrow_of_operand
    (hfits : fits level e = true) (hop : Occurs 0 e s (op.apply left right))
    (ha : Occurs 0 e s' a) (hbase : a.receiver = some base) : s' ≠ s + left.tokens.length + 1 := by
  intro hs'
  have hleft := left.length_pos
  have hright := right.length_pos
  have hlength := congrArg List.length (op.tokens_apply left right)
  simp only [List.length_append, List.length_cons] at hlength
  have hpos := a.length_pos
  rcases hop.nested ha with hle | hle | hin | hin
  · omega
  · omega
  · obtain ⟨level', hfits', -⟩ := hop.fits hfits
    rw [op.fits_apply, Bool.and_eq_true] at hfits'
    cases hin with
    | self => omega
    | child hmem hrest =>
      have hb := hrest.bounds
      rw [op.children_apply] at hmem
      simp only [List.mem_cons, List.not_mem_nil, or_false, Prod.mk.injEq] at hmem
      rcases hmem with ⟨rfl, rfl⟩ | ⟨rfl, rfl⟩
      · omega
      · obtain ⟨level'', hfits'', heq⟩ := hrest.fits hfits'.2
        have hlevel := le_of_fits_receiver hfits'' hbase
        rw [heq hs'] at hlevel
        cases op <;> simp [BinaryOp.level, precedence] at hlevel
  · have := hin.bounds
    omega

/-- The `->` behind a parenthesis and one token has that token as its base. -/
theorem arrow_of_paren {x : Expr} {i : Nat} (hparen : Occurs 0 e i (.paren x))
    (ha : Occurs 0 e s a) (hbase : a.receiver = some base) (hi : i + 2 = s + base.tokens.length) :
    s = i + 1 := by
  have hx := x.length_pos
  have hpos := base.length_pos
  have hlength : (Expr.paren x).tokens.length = x.tokens.length + 2 := by simp [Expr.tokens]
  have hbehind := length_receiver hbase
  rcases hparen.nested ha with hle | hle | hin | hin
  · omega
  · omega
  · cases hin with
    | self => cases hbase
    | child hmem hrest =>
      have hb := hrest.bounds
      simp only [children, List.mem_singleton, Prod.mk.injEq] at hmem
      omega
  · cases hin with
    | self => cases hbase
    | child hmem hrest =>
      have hb := hrest.bounds
      rcases children_receiver hbase hmem with ⟨rfl, rfl⟩ | hle
      · omega
      · omega

/-- An expression that starts with a parenthesis starts with an expression in parentheses. -/
theorem paren_of_leftParen (h : e.tokens = .leftParen :: ts)
    (start : Nat) : ∃ x, Occurs start e start (.paren x) := by
  fun_induction Expr.suffixCount e generalizing ts
  case case11 e _ _ _ _ _ _ _ _ _ _ =>
    cases e
    case paren => exact ⟨_, .self start _⟩
    case primaryLiteral | literal =>
      rename_i l _ _ _ _ _ _ _ _ _ _
      cases l <;> cases h
    all_goals first | (rw [Expr.tokens] at h; cases h) | simp_all
  all_goals
    rename_i ih
    rw [Expr.tokens] at h
    obtain ⟨t, ts', htokens, -⟩ := Expr.tokens_eq_cons _
    rw [htokens, List.cons_append] at h
    cases h
    obtain ⟨x, hx⟩ := ih htokens
    exact ⟨x, .child (by simp [children]) hx⟩

/-- Only a name is a name's token. -/
theorem eq_ident_of_tokens {p : Ident} (hfits : fits level e = true)
    (h : e.tokens = [.ident p]) : e = .ident p := by
  have hlength := congrArg List.length h
  cases e
  case ident => simpa [Expr.tokens] using h
  case var => cases hfits
  case primaryLiteral l | literal l => cases l <;> cases h
  all_goals first
    | (rw [Expr.tokens] at h; cases h)
    | (simp only [Expr.tokens, List.length_cons, List.length_append, List.length_nil] at hlength
       have := Expr.length_pos ‹Expr›
       omega)

/-- The base that ends with the operand of a binary operator, if it is not the operand alone:
another operator. -/
theorem base_of_operand (h : Occurs s base s' (op.apply left right))
    (hend : s + base.tokens.length = s' + left.tokens.length + 2) :
    (∃ l op r, base = BinaryOp.apply l op r) ∨ ∃ op x, base = UnaryOp.apply op x := by
  have hright := right.length_pos
  have hlength := congrArg List.length (op.tokens_apply left right)
  simp only [List.length_append, List.length_cons] at hlength
  cases h with
  | self => exact .inl ⟨left, op, right, rfl⟩
  | child hmem hrest =>
    have hb := hrest.bounds
    have hin := (inOrder_children _ _).bounds hmem
    cases base with
    | mulDiv l op r => exact .inl ⟨l, .mulDiv op, r, rfl⟩
    | addSub l op r => exact .inl ⟨l, .addSub op, r, rfl⟩
    | compare l op r => exact .inl ⟨l, .compare op, r, rfl⟩
    | assign l r => exact .inl ⟨l, .assign, r, rfl⟩
    | addressOf x => exact .inr ⟨.addressOf, x, rfl⟩
    | dereference x => exact .inr ⟨.dereference, x, rfl⟩
    | preIncrement x => exact .inr ⟨.preIncrement, x, rfl⟩
    | preDecrement x => exact .inr ⟨.preDecrement, x, rfl⟩
    | paren x | member x name | pointerMember x name | postIncrement x | postDecrement x =>
      simp only [children, List.mem_singleton, Prod.mk.injEq] at hmem
      obtain ⟨rfl, rfl⟩ := hmem
      simp only [Expr.tokens, List.length_cons, List.length_append, List.length_nil] at hend
      omega
    | arrayAccess array index =>
      simp only [children, List.mem_cons, List.not_mem_nil, or_false, Prod.mk.injEq] at hmem
      simp only [Expr.tokens, List.length_cons, List.length_append, List.length_nil] at hend
      rcases hmem with ⟨rfl, rfl⟩ | ⟨rfl, rfl⟩ <;> omega
    | funcCall name args | newWithConstructor name args =>
      have := (inOrder_args _ args).bounds hmem
      simp only [Expr.tokens, List.length_cons, List.length_append, List.length_nil] at hend
      omega
    | methodCall x name args =>
      simp only [Expr.tokens, List.length_cons, List.length_append, List.length_nil] at hend
      rcases List.mem_cons.mp hmem with heq | hmem
      · cases heq
        omega
      · have := (inOrder_args _ args).bounds hmem
        omega
    | structInit inits comma =>
      have := (inOrder_inits _ inits).bounds hmem
      simp only [Expr.tokens, List.length_cons, List.length_append] at hend
      split at hend <;> simp only [List.length_cons, List.length_nil] at hend <;> omega
    | _ => cases hmem

/-- The base of the `->` behind an operand of one token: an operator with its operands. -/
theorem base_of_arrow (hfits : fits level e = true) (hop : Occurs 0 e s (op.apply left right))
    (ha : Occurs 0 e s' a) (hbase : a.receiver = some base)
    (hend : s + left.tokens.length + 2 = s' + base.tokens.length) :
    (∃ l op r, base = BinaryOp.apply l op r) ∨ ∃ op x, base = UnaryOp.apply op x := by
  have hpos := base.length_pos
  have hright := right.length_pos
  have hlength := congrArg List.length (op.tokens_apply left right)
  simp only [List.length_append, List.length_cons] at hlength
  have hstart := not_arrow_of_operand hfits hop ha hbase
  rcases hop.nested (ha.trans (occurs_receiver hbase s')) with hle | hle | hin | hin
  · omega
  · omega
  · cases hin with
    | self => exact .inl ⟨left, op, right, rfl⟩
    | child hmem hrest =>
      have hb := hrest.bounds
      rw [op.children_apply] at hmem
      simp only [List.mem_cons, List.not_mem_nil, or_false, Prod.mk.injEq] at hmem
      rcases hmem with ⟨rfl, rfl⟩ | ⟨rfl, rfl⟩ <;> omega
  · exact base_of_operand hin (by omega)

end

/-! ### Their translation -/

variable {gen : CCodeGenerator} {s : VState}

private theorem not_identifier_of_blank {left right : Str} {op : Str} :
    isIdentifier (left ++ " " ++ op ++ " " ++ right) = false :=
  not_identifier_of_mem (c := ' ') (by simp) (by decide)

theorem assignCode_text (left right : Str) :
    Post (assignCode gen left right) s fun text _ ↦ isIdentifier text = false := by
  simp only [assignCode, post_bind, post_pure]
  refine Post.run_eq.mono fun right' s₁ _ ↦ Post.run_eq.mono fun _ s₂ _ ↦
    Post.run_eq.mono fun _ s₃ _ ↦ Post.run_eq.mono fun _ s₄ _ ↦ Post.run_eq.mono fun _ _ _ ↦ ?_
  exact not_identifier_of_mem (c := '=') (by simp) (by decide)

/-- The text of an operator with its operands is no name. -/
theorem visit_operator_text {e : Expr}
    (h : (∃ l op r, e = BinaryOp.apply l op r) ∨ ∃ op x, e = UnaryOp.apply op x)
    (hs : s.firstPass = false) :
    Post (visitExpr gen e) s fun text _ ↦ isIdentifier text = false := by
  rcases h with ⟨l, op, r, rfl⟩ | ⟨op, x, rfl⟩
  · cases op with
    | mulDiv op | addSub op | compare op =>
      simp only [BinaryOp.apply, visitExpr, post_bind, post_pure]
      exact Post.run_eq.mono fun _ _ _ ↦ Post.run_eq.mono fun _ _ _ ↦ not_identifier_of_blank
    | assign =>
      simp only [BinaryOp.apply, visitExpr, post_bind, post_inFirstPass, hs, Bool.false_eq_true,
        if_false]
      exact Post.run_eq.mono fun _ _ _ ↦ Post.run_eq.mono fun _ _ _ ↦ assignCode_text _ _
  · cases op with
    | addressOf | dereference | preIncrement | preDecrement =>
      simp only [UnaryOp.apply, visitExpr, post_bind, post_pure]
      exact Post.run_eq.mono fun _ _ _ ↦ not_identifier_of_mem List.mem_cons_self (by decide)

/-- A member of something that is no variable is printed as it is. -/
theorem memberAccess_of_not_identifier {base : Str} (hs : NamedTable s.symbolTable)
    (hbase : isIdentifier base = false) (name : Str) :
    memberAccess s base name = base ++ "->" ++ name := by
  have hthis : base ≠ ['t', 'h', 'i', 's'] := by
    rintro rfl
    exact absurd hbase (by decide +kernel)
  have hlookup := hs.lookup_none hbase
  simp [memberAccess, thisFieldAccess, objectMemberAccess, hthis, hlookup]

/-- There is no call of a method of something that is no variable. -/
theorem receiverClass_of_not_identifier {base : Str} (hs : Named s)
    (hbase : isIdentifier base = false) (Q : Str → VState → Prop) :
    Post (receiverClass base) s Q := by
  simp only [receiverClass, post_bind, post_lookupSymbol, hs.symbols.lookup_none hbase, post_throw]

/-- Where the base of a `->` is an operator with its operands, a method call is not translated
and a field not resolved. -/
theorem visit_arrow_of_operator {a base : Expr} (hbase : a.receiver = some base)
    (h : (∃ l op r, base = BinaryOp.apply l op r) ∨ ∃ op x, base = UnaryOp.apply op x)
    (hs : Named s) (hsecond : s.firstPass = false) :
    Post (visitExpr gen a) s fun text _ ↦
      ∃ baseText name, a = .pointerMember base name ∧ text = baseText ++ "->" ++ name.text := by
  have hword : Post (visitExpr gen base) s fun text _ ↦ isIdentifier text = false :=
    visit_operator_text h hsecond
  have htext := hword.and (visitExpr_frame base s)
  cases a with
  | pointerMember e name =>
    cases hbase
    simp only [visitExpr, post_bind, post_inFirstPass, hsecond, Bool.false_eq_true, if_false,
      post_get, post_pure]
    apply htext.mono
    rintro text s₁ ⟨hword, ⟨_, _, rfl⟩, -⟩
    refine ⟨text, name, rfl, ?_⟩
    exact memberAccess_of_not_identifier hs.symbols hword _
  | methodCall e name args =>
    cases hbase
    simp only [visitExpr, post_bind, post_inFirstPass, hsecond, Bool.false_eq_true, if_false]
    apply htext.mono
    rintro text s₁ ⟨hword, ⟨_, _, rfl⟩, -⟩
    refine receiverClass_of_not_identifier ?_ hword _
    exact ⟨hs.types, hs.symbols⟩
  | _ => cases hbase

/-! ### Operands of binary operators -/

/-- The `->` behind the name that a binary operator stands before: its base is that name if and
only if the operand is in parentheses. Otherwise a call of a method on it is never translated
and a field is not resolved in the class. -/
theorem operand_receiver_iff {ts : List Token} {e : Expr} (hparse : parse ts = some e) {i j : Nat}
    {p : Ident} {a base : Expr} (hoperand : IsOperand e i)
    (hj : j = i ∨ j = i + 1 ∧ ts[i]? = some .leftParen) (hp : ts[j]? = some (.ident p))
    (harrow : ArrowAt e (j + 1) a base) :
    (base = .ident p ↔ ts[i]? = some .leftParen) ∧
      (ts[i]? ≠ some .leftParen → ∀ gen s, Named s → s.firstPass = false → ∀ text s',
        (visitExpr gen a).run s = .ok (text, s') →
        ∃ baseText name, a = .pointerMember base name ∧ text = baseText ++ "->" ++ name.text) := by
  obtain ⟨htokens, hfits⟩ := parse_sound hparse
  obtain ⟨s₁, op, left, right, hop, hi⟩ := hoperand
  obtain ⟨s₂, ha, hbase, hs₂⟩ := harrow
  rcases hj with hj | ⟨hj, hparen⟩
  · have hne : ts[i]? ≠ some .leftParen := by
      rw [← hj, hp]
      simp
    have hoperator := base_of_arrow hfits hop ha hbase (by omega)
    constructor
    · refine iff_of_false ?_ hne
      rintro rfl
      rcases hoperator with ⟨_, op, _, h⟩ | ⟨op, _, h⟩ <;> cases op <;> cases h
    · intro _ gen s hs hsecond text s' hrun
      exact (visit_arrow_of_operator hbase hoperator hs hsecond).of_run text s' hrun
  · refine ⟨iff_of_true ?_ hparen, fun hne ↦ absurd hparen hne⟩
    have hright : TokensAt 0 ts i right.tokens := by
      rw [htokens]
      refine hop.tokensAt.trans ?_
      rw [hi]
      exact tokensAt_children (by rw [op.children_apply]; simp)
    obtain ⟨x, hx⟩ : ∃ x, Occurs i right i (.paren x) := by
      obtain ⟨t, ts', hts, -⟩ := right.tokens_eq_cons
      have hget := hright.getElem? (i := 0) right.length_pos
      rw [Nat.sub_zero, Nat.add_zero, hparen, hts] at hget
      cases hget
      exact paren_of_leftParen hts i
    have hx' : Occurs 0 e i (.paren x) :=
      hop.trans (.child (by rw [op.children_apply, ← hi]; simp) hx)
    have hstart := arrow_of_paren hx' ha hbase (by omega)
    have hbase' := ha.trans (occurs_receiver hbase s₂)
    obtain ⟨level, hfitsBase, -⟩ := hbase'.fits hfits
    refine eq_ident_of_tokens hfitsBase ?_
    have hlength : base.tokens.length = 1 := by omega
    have hget := hbase'.tokensAt.getElem? (i := 0) base.length_pos
    obtain ⟨t, ht⟩ := List.length_eq_one_iff.mp hlength
    rw [← htokens, Nat.sub_zero, Nat.add_zero, hstart, ← hj, hp, ht] at hget
    rw [ht]
    cases hget
    rfl

private def objectP : Ident := ⟨"p".toList, isIdentifier_p⟩

private def methodM : Ident := ⟨"m".toList, isIdentifier_m⟩

private def classA : Ident := ⟨"A".toList, isIdentifier_A⟩

private def number : IntegerToken := ⟨"1".toList, isInteger_1⟩

private def summand : Expr := .primaryLiteral (.integer number)

/-- `1 + (p->m())` -/
def parenSum : List Token :=
  [.integer number, .plus, .leftParen, .ident objectP, .arrow, .ident methodM, .leftParen,
    .rightParen, .rightParen]

theorem operand_receiver_iff_parenSum :
    parse parenSum = some (.addSub summand .add (.paren (.methodCall (.ident objectP) methodM []))) ∧
      (Expr.ident objectP = .ident objectP ↔ parenSum[2]? = some .leftParen) := by
  have hparse : parse parenSum =
      some (.addSub summand .add (.paren (.methodCall (.ident objectP) methodM []))) := rfl
  have hcall : Occurs 2 (.paren (.methodCall (.ident objectP) methodM [])) 3
      (.methodCall (.ident objectP) methodM []) :=
    .child (by simp [children]) (.self 3 _)
  refine ⟨hparse, (operand_receiver_iff (i := 2) (j := 3) (p := objectP) hparse
    ⟨0, .addSub .add, summand, _, .self 0 _, rfl⟩ (.inr ⟨rfl, rfl⟩) rfl
    ⟨3, .child (by simp [children, summand, Expr.tokens]) hcall, rfl, rfl⟩).1⟩

/-- `1 + p->m()` -/
def callSum : List Token :=
  [.integer number, .plus, .ident objectP, .arrow, .ident methodM, .leftParen, .rightParen]

/-- `class A { int m() { return 1; } }; void m(A* p) { int n = …; }` -/
def initializedWith (e : Expr) : Program :=
  ⟨[], [.classDecl classA none [.method false .int methodM [] [.returnStmt (some summand)]],
    .functionDecl .void methodM [.plain (.pointer (.named none classA)) objectP]
      [.varDecl (.plain .int ⟨"n".toList, isIdentifier_n⟩) (some e)]]⟩

/-- In `1 + p->m()` the method is called on the sum, which is not translated, as `p->m()` is. -/
theorem callSum_regrouped :
    parse callSum = some (.methodCall (.addSub summand .add (.ident objectP)) methodM []) ∧
      translate ⟨true⟩
          (initializedWith (.methodCall (.addSub summand .add (.ident objectP)) methodM [])) =
        .error (.compiler .nameError "Unknown object: 1 + p") ∧
      (translate ⟨true⟩ (initializedWith (.methodCall (.ident objectP) methodM []))).toOption.isSome =
        true := by
  refine ⟨rfl, eq_error_of_errorOf ?_, ?_⟩
  · decide +kernel
  · decide +kernel

end JBLang.Ast
