import JBLang.Ast.Quiet

/-!
# What the visit of an expression changes

The visit of an expression appends to the output and takes temporaries, and nothing else; in the
first pass it changes nothing.
-/

namespace JBLang.Ast

open JBLang.Base JBLang.Types JBLang.Codegen

variable {s s' s'' : VState} {gen : CCodeGenerator}

/-- Only the output has grown and temporaries were taken, in the second pass. -/
def ExprFrame (s s' : VState) : Prop :=
  (∃ text n, s' = { s with output := s.output ++ text, tempVarCounter := n }) ∧
    (s.firstPass = true → s' = s)

namespace ExprFrame

theorem refl (s : VState) : ExprFrame s s := ⟨⟨[], s.tempVarCounter, by simp⟩, fun _ ↦ rfl⟩

theorem trans (h : ExprFrame s s') (h' : ExprFrame s' s'') : ExprFrame s s'' := by
  obtain ⟨⟨text, n, rfl⟩, hf⟩ := h
  obtain ⟨⟨text', n', rfl⟩, hf'⟩ := h'
  refine ⟨⟨text ++ text', n', by simp⟩, fun hs ↦ ?_⟩
  rw [hf' hs, hf hs]

theorem firstPass_eq (h : ExprFrame s s') : s'.firstPass = s.firstPass := by
  obtain ⟨⟨_, _, rfl⟩, -⟩ := h
  rfl

/-- A change of output and temporaries in the second pass. -/
theorem of_second (h : s.firstPass = false) (text : Str) (n : Nat) :
    ExprFrame s { s with output := s.output ++ text, tempVarCounter := n } :=
  ⟨⟨text, n, rfl⟩, fun hs ↦ by simp [h] at hs⟩

end ExprFrame

/-- The output has grown and temporaries were taken. -/
def Grows (s s' : VState) : Prop :=
  ∃ text n, s' = { s with output := s.output ++ text, tempVarCounter := n }

instance : Growing Grows where
  refl s := ⟨[], s.tempVarCounter, by simp⟩
  trans := by
    rintro _ _ _ ⟨text, n, rfl⟩ ⟨text', n', rfl⟩
    exact ⟨text ++ text', n', by simp⟩
  grow _ text n := ⟨text, n, rfl⟩

/-- In the second pass growth is all there is to show. -/
theorem frame_of_grows {α : Type} {m : VisitM α} {E : VisitError → Prop} (hs : s.firstPass = false)
    (h : Keeps Grows E m) : Post m s fun _ s' ↦ ExprFrame s s' :=
  ⟨fun _ _ hrun ↦ ⟨(h s).of_run hrun, fun hfirst ↦ by simp [hs] at hfirst⟩⟩

/-! ### Parts of visits -/

theorem resolveTypeFromContext_frame (t : TypeSpec) :
    Post (resolveTypeFromContext t) s fun _ s' ↦ s' = s := by
  simp [resolveTypeFromContext]

theorem castTo_frame (code : Str) (fromVar : Option Variable) (toType : Ty) :
    Post (castTo code fromVar toType) s fun _ s' ↦ s' = s := by
  unfold castTo
  split
  · simp
  · simp only [post_bind, post_askTypes]
    intro b _
    cases b <;> simp

theorem receiverClass_frame (objExpr : Str) :
    Post (receiverClass objExpr) s fun _ s' ↦ s' = s := by
  simp only [receiverClass, post_bind, post_lookupSymbol]
  split
  · simp
  · split <;> simp

theorem emitIncRef_frame (hs : s.firstPass = false) (indent : Str) (var : Option Variable)
    (other : Str) : Post (emitIncRef gen indent var other) s fun _ s' ↦ ExprFrame s s' :=
  frame_of_grows (E := fun _ ↦ True) hs (quiet_emitIncRef indent var other)

/-! ### Expressions -/

/-- In the first pass the visit of an expression changes nothing. -/
theorem visitExpr_first (hs : s.firstPass = true) : ∀ e : Expr,
    Post (visitExpr gen e) s fun _ s' ↦ s' = s
  | .structInit inits _ => by
    simp only [visitExpr]
    split
    · simp only [post_bind, post_throw]
    · simp only [visitInitializerList, post_bind, post_inFirstPass, hs, if_true, post_pure,
        post_indentLevel]
  | .paren e | .member e _ | .addressOf e | .dereference e | .postIncrement e | .postDecrement e
  | .preIncrement e | .preDecrement e => by
    simp only [visitExpr, post_bind, post_pure]
    exact visitExpr_first hs e
  | .ident _ | .primaryLiteral _ | .literal _ | .var _ => by
    simp only [visitExpr, post_pure, post_throw]
  | .new t => by
    simp only [visitExpr, post_bind, post_pure]
    exact resolveTypeFromContext_frame t
  | .mulDiv l _ r | .addSub l _ r | .compare l _ r | .arrayAccess l r => by
    simp only [visitExpr, post_bind, post_pure]
    apply (visitExpr_first hs l).mono
    intro _ s₁ h₁
    rw [h₁]
    exact visitExpr_first hs r
  | .funcCall .. | .assign .. | .newWithConstructor .. | .pointerMember .. | .methodCall .. => by
    simp only [visitExpr, post_bind, post_inFirstPass, hs, if_true, post_pure]

/-- The visit of an expression changes no more than the output and the temporaries. -/
theorem visitExpr_frame (e : Expr) (s : VState) :
    Post (visitExpr gen e) s fun _ s' ↦ ExprFrame s s' := by
  cases hs : s.firstPass with
  | false => exact frame_of_grows hs (quiet_visitExpr e)
  | true =>
    apply (visitExpr_first hs e).mono
    rintro _ _ rfl
    exact .refl _

theorem visitArgs_frame (es : List Expr) (s : VState) :
    Post (visitArgs gen es) s fun _ s' ↦ ExprFrame s s' := by
  induction es generalizing s with
  | nil =>
    rw [visitArgs, post_pure]
    exact .refl s
  | cons e es ih =>
    simp only [visitArgs, post_bind, post_pure]
    apply (visitExpr_frame e s).mono
    intro _ s₁ h₁
    apply (ih s₁).mono
    intro _ s₂ h₂
    exact h₁.trans h₂

end JBLang.Ast
