import JBLang.Base.Text

/-!
# Statement ends in texts

Where a `;` of a text stands outside the string literals in it. A text that closes its literals
can be read part by part.
-/

namespace JBLang.Base

/-- The characters outside string literals; `quoted` says whether the text begins in one. -/
def unquoted : Bool → Str → Str
  | _, [] => []
  | quoted, c :: s =>
    if c = '"' then unquoted (!quoted) s
    else if quoted then unquoted quoted s
    else c :: unquoted quoted s

/-- Whether the text ends in a string literal. -/
def endsQuoted : Bool → Str → Bool
  | quoted, [] => quoted
  | quoted, c :: s => endsQuoted (if c = '"' then !quoted else quoted) s

theorem endsQuoted_append (quoted : Bool) (s t : Str) :
    endsQuoted quoted (s ++ t) = endsQuoted (endsQuoted quoted s) t := by
  induction s generalizing quoted with
  | nil => rfl
  | cons c s ih => exact ih _

theorem unquoted_append (quoted : Bool) (s t : Str) :
    unquoted quoted (s ++ t) = unquoted quoted s ++ unquoted (endsQuoted quoted s) t := by
  induction s generalizing quoted with
  | nil => rfl
  | cons c s ih =>
    rw [List.cons_append, unquoted, unquoted, endsQuoted]
    split
    · exact ih _
    · split
      · exact ih _
      · rw [ih, List.cons_append]

variable {b : Bool} {s : Str}

/-- A text without quotes is outside of literals or in one as a whole. -/
theorem unquoted_of_not_mem (h : '"' ∉ s) (quoted : Bool) :
    unquoted quoted s = (if quoted then [] else s) ∧ endsQuoted quoted s = quoted := by
  induction s with
  | nil => cases quoted <;> exact ⟨rfl, rfl⟩
  | cons c s ih =>
    rw [List.mem_cons, not_or] at h
    rw [unquoted, endsQuoted, if_neg (Ne.symm h.1), if_neg (Ne.symm h.1)]
    obtain ⟨hchars, hends⟩ := ih h.2
    refine ⟨?_, hends⟩
    rw [hchars]
    cases quoted <;> rfl

/-- There is a `;` outside string literals. -/
def hasTerminator (s : Str) : Bool := (unquoted false s).contains ';'

/-- The text closes its string literals, and `b` says whether it has a `;` outside of them. -/
structure Ends (s : Str) (b : Bool) : Prop where
  closed : endsQuoted false s = false
  terminator : hasTerminator s = b

theorem Ends.append {t : Str} {c : Bool} (hs : Ends s b) (ht : Ends t c) : Ends (s ++ t) (b || c) := by
  refine ⟨?_, ?_⟩
  · rw [endsQuoted_append, hs.closed, ht.closed]
  · rw [← hs.terminator, ← ht.terminator, hasTerminator, unquoted_append, hs.closed]
    simp [hasTerminator, List.mem_append]

theorem ends_of_not_mem (hquote : '"' ∉ s) (hterm : ';' ∉ s) : Ends s false := by
  obtain ⟨hchars, hends⟩ := unquoted_of_not_mem hquote false
  refine ⟨hends, ?_⟩
  rw [hasTerminator, hchars]
  simpa using hterm

/-- A text without quotes and statement ends, as the fixed parts of a printed text are. -/
def isFixed (s : Str) : Bool := !s.contains '"' && !s.contains ';'

theorem ends_fixed (h : isFixed s = true) : Ends s false := by
  simp only [isFixed, Bool.and_eq_true, Bool.not_eq_true', List.contains_eq_mem,
    decide_eq_false_iff_not] at h
  exact ends_of_not_mem h.1 h.2

theorem ends_nil : Ends [] false := ends_fixed rfl

/-- A fixed text in front. -/
theorem Ends.before {t : Str} (sep : Str) (ht : Ends t b) (hsep : isFixed sep = true := by decide) : Ends (sep ++ t) b := by
  have h := (ends_fixed hsep).append ht
  rwa [Bool.false_or] at h

/-- A fixed text behind. -/
theorem Ends.behind {t : Str} (ht : Ends t b) (sep : Str) (hsep : isFixed sep = true := by decide) : Ends (t ++ sep) b := by
  have h := ht.append (ends_fixed hsep)
  rwa [Bool.or_false] at h

/-- Two texts with a fixed text between them. -/
theorem Ends.around {t u : Str} {c : Bool} (ht : Ends t b) (sep : Str) (hu : Ends u c)
    (hsep : isFixed sep = true := by decide) : Ends (t ++ sep ++ u) (b || c) :=
  (ht.behind sep hsep).append hu

/-- A string literal has no statement end. -/
theorem ends_literal (h : '"' ∉ s) : Ends ('"' :: s ++ ['"']) false := by
  obtain ⟨hchars, hends⟩ := unquoted_of_not_mem h true
  have hopen : endsQuoted false ('"' :: s) = true := hends
  have hinside : unquoted false ('"' :: s) = [] := hchars
  refine ⟨?_, ?_⟩
  · rw [endsQuoted_append, hopen]
    rfl
  · rw [hasTerminator, unquoted_append, hopen, hinside]
    rfl

/-- The same for a list of texts: whether one of them has a statement end. -/
def EndsAny : List Str → Bool → Prop
  | [], b => b = false
  | s :: ss, b => ∃ c d, Ends s c ∧ EndsAny ss d ∧ b = (c || d)

theorem EndsAny.joinWith {ss : List Str} (h : EndsAny ss b) (sep : Str) (hsep : isFixed sep = true := by decide) : Ends (joinWith sep ss) b := by
  induction ss generalizing b with
  | nil =>
    cases h
    exact ends_nil
  | cons s ss ih =>
    obtain ⟨c, d, hs, hss, rfl⟩ := h
    cases ss with
    | nil =>
      cases hss
      rw [Bool.or_false]
      exact hs
    | cons s' ss =>
      exact hs.around sep (ih hss) hsep

theorem EndsAny.flatten_map {ss : List Str} (h : EndsAny ss b) (sep : Str)
    (hsep : isFixed sep = true := by decide) : Ends (ss.map fun s ↦ sep ++ s).flatten b := by
  induction ss generalizing b with
  | nil =>
    cases h
    exact ends_nil
  | cons s ss ih =>
    obtain ⟨c, d, hs, hss, rfl⟩ := h
    exact (hs.before sep hsep).append (ih hss)

end JBLang.Base
