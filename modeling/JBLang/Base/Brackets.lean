import JBLang.Base.Quoting

/-!
# Brackets in texts

Square brackets outside the string literals of a text. In a text whose brackets are paired, the
operands of an index expression can be told apart. The strict reading also refuses a blank outside
the literals.
-/

namespace JBLang.Base

/-- Reads a character: whether it stands behind an open string literal, and how many brackets are
open then. -/
def bracketStep (strict : Bool) (r : Bool × Nat) (c : Char) : Option (Bool × Nat) :=
  if c = '"' then some (!r.1, r.2)
  else if r.1 then some r
  else if c = '[' then some (r.1, r.2 + 1)
  else if c = ']' then if r.2 = 0 then none else some (r.1, r.2 - 1)
  else if c = ' ' ∧ strict then none
  else some r

/-- Reads a text. -/
def readBrackets (strict : Bool) (r : Bool × Nat) (s : Str) : Option (Bool × Nat) :=
  s.foldlM (bracketStep strict) r

theorem readBrackets_cons (strict : Bool) (r : Bool × Nat) (c : Char) (s : Str) :
    readBrackets strict r (c :: s) =
      (bracketStep strict r c).bind fun r ↦ readBrackets strict r s := List.foldlM_cons

theorem readBrackets_append (strict : Bool) (r : Bool × Nat) (s t : Str) :
    readBrackets strict r (s ++ t) =
      (readBrackets strict r s).bind fun r ↦ readBrackets strict r t := List.foldlM_append

/-- An enclosing bracket stays open. -/
theorem readBrackets_succ {strict : Bool} {r r' : Bool × Nat} {s : Str}
    (h : readBrackets strict r s = some r') :
    readBrackets strict (r.1, r.2 + 1) s = some (r'.1, r'.2 + 1) := by
  induction s generalizing r with
  | nil =>
    cases h
    rfl
  | cons c s ih =>
    rw [readBrackets_cons] at h ⊢
    obtain ⟨r₁, hstep, hrest⟩ := Option.bind_eq_some_iff.mp h
    have hstep' : bracketStep strict (r.1, r.2 + 1) c = some (r₁.1, r₁.2 + 1) := by
      unfold bracketStep at hstep ⊢
      grind
    rw [hstep', Option.bind_some]
    exact ih hrest

/-- What is accepted strictly is accepted. -/
theorem readBrackets_of_strict {r r' : Bool × Nat} {s : Str}
    (h : readBrackets true r s = some r') : readBrackets false r s = some r' := by
  induction s generalizing r with
  | nil => exact h
  | cons c s ih =>
    rw [readBrackets_cons] at h ⊢
    obtain ⟨r₁, hstep, hrest⟩ := Option.bind_eq_some_iff.mp h
    have hstep' : bracketStep false r c = some r₁ := by
      unfold bracketStep at hstep ⊢
      split_ifs at hstep ⊢ <;> simp_all
    rw [hstep', Option.bind_some]
    exact ih hrest

/-! ### Texts with paired brackets -/

/-- The text closes its string literals and its brackets, and no others. -/
def Neat (strict : Bool) (t : Str) : Prop :=
  ∀ depth, readBrackets strict (false, depth) t = some (false, depth)

variable {strict : Bool} {t u : Str}

theorem Neat.of_strict (h : Neat true t) : Neat false t :=
  fun depth ↦ readBrackets_of_strict (h depth)

theorem neat_nil : Neat strict [] := fun _ ↦ rfl

theorem Neat.append (ht : Neat strict t) (hu : Neat strict u) : Neat strict (t ++ u) := by
  intro depth
  rw [readBrackets_append, ht depth]
  exact hu depth

/-- A character that the reading passes over. -/
def isPlainChar (strict : Bool) (c : Char) : Bool :=
  c != '"' && c != '[' && c != ']' && !(strict && c == ' ')

theorem neat_plain (h : t.all (isPlainChar strict) = true) : Neat strict t := by
  intro depth
  induction t with
  | nil => rfl
  | cons c t ih =>
    rw [List.all_cons, Bool.and_eq_true] at h
    have hstep : bracketStep strict (false, depth) c = some (false, depth) := by
      have hc := h.1
      simp only [isPlainChar, Bool.and_eq_true, bne_iff_ne, Bool.not_eq_true', Bool.and_eq_false_iff,
        beq_eq_false_iff_ne] at hc
      obtain ⟨⟨⟨hquote, hopen⟩, hclose⟩, hblank⟩ := hc
      have hblank' : ¬ (c = ' ' ∧ strict = true) := by
        rintro ⟨rfl, rfl⟩
        simp at hblank
      rw [bracketStep, if_neg hquote, if_neg Bool.false_ne_true, if_neg hopen, if_neg hclose,
        if_neg hblank']
    rw [readBrackets_cons, hstep]
    exact ih h.2

/-- A plain text in front. -/
theorem Neat.before (sep : Str) (ht : Neat strict t)
    (hsep : sep.all (isPlainChar strict) = true := by decide) : Neat strict (sep ++ t) :=
  (neat_plain hsep).append ht

/-- A plain text behind. -/
theorem Neat.behind (ht : Neat strict t) (sep : Str)
    (hsep : sep.all (isPlainChar strict) = true := by decide) : Neat strict (t ++ sep) :=
  ht.append (neat_plain hsep)

/-- Two texts with a plain text between them. -/
theorem Neat.around (ht : Neat strict t) (sep : Str) (hu : Neat strict u)
    (hsep : sep.all (isPlainChar strict) = true := by decide) : Neat strict (t ++ sep ++ u) :=
  (ht.behind sep hsep).append hu

/-- A text in brackets. -/
theorem Neat.brackets (ht : Neat strict t) : Neat strict ("[" ++ t ++ "]") := by
  intro depth
  have hopen : readBrackets strict (false, depth) "[" = some (false, depth + 1) := rfl
  have hclose : readBrackets strict (false, depth + 1) "]" = some (false, depth) := rfl
  rw [readBrackets_append, readBrackets_append, hopen, Option.bind_some, ht (depth + 1)]
  exact hclose

/-- An index expression. -/
theorem Neat.index (ht : Neat strict t) (hu : Neat strict u) :
    Neat strict (t ++ "[" ++ u ++ "]") := by
  have h := ht.append hu.brackets
  rwa [← List.append_assoc, ← List.append_assoc] at h

/-- A string literal hides its brackets. -/
theorem neat_literal (h : '"' ∉ t) : Neat strict ('"' :: t ++ ['"']) := by
  intro depth
  have hbody : readBrackets strict (true, depth) t = some (true, depth) := by
    induction t with
    | nil => rfl
    | cons c t ih =>
      rw [List.mem_cons, not_or] at h
      have hstep : bracketStep strict (true, depth) c = some (true, depth) := by
        rw [bracketStep, if_neg (Ne.symm h.1), if_pos rfl]
      rw [readBrackets_cons, hstep]
      exact ih h.2
  have hopen : readBrackets strict (false, depth) ('"' :: t) = some (true, depth) := hbody
  rw [readBrackets_append, hopen]
  rfl

theorem neat_joinWith (sep : Str) {ts : List Str} (h : ∀ t ∈ ts, Neat strict t)
    (hsep : sep.all (isPlainChar strict) = true := by decide) : Neat strict (joinWith sep ts) := by
  induction ts with
  | nil => exact neat_nil
  | cons t ts ih =>
    have ht := h t List.mem_cons_self
    have hts : ∀ t ∈ ts, Neat strict t := fun t ht ↦ h t (List.mem_cons_of_mem _ ht)
    cases ts with
    | nil => exact ht
    | cons t' ts => exact ht.around sep (ih hts) hsep

theorem neat_flatten {ts : List Str} (h : ∀ t ∈ ts, Neat strict t) : Neat strict ts.flatten := by
  induction ts with
  | nil => exact neat_nil
  | cons t ts ih =>
    exact (h t List.mem_cons_self).append (ih fun t ht ↦ h t (List.mem_cons_of_mem _ ht))

/-- A blank behind closed literals is refused. -/
theorem Neat.not_blank (ht : Neat false t) (u : Str) : ¬ Neat true (t ++ ' ' :: u) := by
  intro h
  have hread := h 0
  rw [readBrackets_append] at hread
  obtain ⟨r, hr, hrest⟩ := Option.bind_eq_some_iff.mp hread
  have hends := readBrackets_of_strict hr
  rw [ht 0] at hends
  cases hends
  cases hrest

/-- The left operand of an index expression is not longer than that of another one with the same
text. -/
private theorem index_left_eq_of_append {a b a' b' k : Str} (hb : Neat false b)
    (ha : Neat false a) (ha' : Neat false a') (hk : a' = a ++ k)
    (htext : '[' :: (b ++ [']']) = k ++ '[' :: (b' ++ [']'])) : k = [] := by
  cases k with
  | nil => rfl
  | cons c k =>
    rw [List.cons_append, List.cons.injEq] at htext
    obtain ⟨rfl, htext⟩ := htext
    -- The rest `k` closes a bracket that the first `[` opened, so `b` would close it too.
    have hclosed : readBrackets false (false, 1) k = some (false, 0) := by
      have h := ha' 0
      rw [hk, readBrackets_append, ha 0] at h
      exact h
    have hsplit : b = k ++ '[' :: b' := by
      have h : b ++ [']'] = (k ++ '[' :: b') ++ [']'] := by simpa using htext
      exact List.append_cancel_right h
    have hread := hb 0
    rw [hsplit, readBrackets_append] at hread
    obtain ⟨r, hr, -⟩ := Option.bind_eq_some_iff.mp hread
    have hopen : (r.1, r.2 + 1) = (false, 0) := by
      have h := readBrackets_succ hr
      rw [hclosed] at h
      exact (Option.some.inj h).symm
    cases (Prod.mk.inj hopen).2

/-- The operands of an index expression can be read from its text. -/
theorem index_operands_eq {a b a' b' : Str} (ha : Neat false a) (hb : Neat false b)
    (ha' : Neat false a') (hb' : Neat false b')
    (h : a ++ "[" ++ b ++ "]" = a' ++ "[" ++ b' ++ "]") : a = a' ∧ b = b' := by
  have htext : a ++ '[' :: (b ++ [']']) = a' ++ '[' :: (b' ++ [']']) := by simpa using h
  have hleft : a = a' := by
    rcases List.append_eq_append_iff.mp htext with ⟨k, hk, hrest⟩ | ⟨k, hk, hrest⟩
    · rw [hk, index_left_eq_of_append hb ha ha' hk hrest, List.append_nil]
    · rw [hk, index_left_eq_of_append hb' ha' ha hk hrest, List.append_nil]
  refine ⟨hleft, ?_⟩
  rw [hleft] at htext
  have hrest := List.append_cancel_left htext
  rw [List.cons.injEq] at hrest
  exact List.append_cancel_right hrest.2

end JBLang.Base
