import Mathlib.Data.List.Nodup
import Mathlib.Logic.Function.Basic

/-!
# Doubly linked lists over a pointer memory

The links of the cells are two functions `next` and `prev`; a list is described by
the sequence of its cells. The laws cover insertion at the head and removal from
any position, done by rewriting the links of the neighbours only.
-/

namespace JBLang.Base

universe u

variable {α : Type u}

/-- The cells of `l` are chained by `next` and `prev`, and the first one points back
to `before`. -/
def Linked (next prev : α → Option α) : Option α → List α → Prop
  | _, [] => True
  | before, a :: l => prev a = before ∧ next a = l.head? ∧ Linked next prev (some a) l

/-- `head` is the first cell of a doubly linked list with the cells `l`, each once. -/
structure IsDList (next prev : α → Option α) (head : Option α) (l : List α) : Prop where
  head_eq : head = l.head?
  linked : Linked next prev none l
  nodup : l.Nodup

namespace Linked

variable {next prev next' prev' : α → Option α} {before : Option α} {l l₁ l₂ : List α} {x : α}

/-- Only the links of the listed cells matter. -/
theorem congr (hn : ∀ a ∈ l, next' a = next a) (hp : ∀ a ∈ l, prev' a = prev a)
    (h : Linked next prev before l) : Linked next' prev' before l := by
  induction l generalizing before with
  | nil => trivial
  | cons a l ih =>
    obtain ⟨h₁, h₂, h₃⟩ := h
    refine ⟨?_, ?_, ih ?_ ?_ h₃⟩
    · rw [hp a (by simp), h₁]
    · rw [hn a (by simp), h₂]
    · intro b hb
      exact hn b (by simp [hb])
    · intro b hb
      exact hp b (by simp [hb])

/-- The link forward of a cell in the middle is the cell after it. -/
theorem next_eq (h : Linked next prev before (l₁ ++ x :: l₂)) : next x = l₂.head? := by
  induction l₁ generalizing before with
  | nil => exact h.2.1
  | cons a l₁ ih => exact ih h.2.2

/-- The link back of a cell in the middle is the cell before it, or `before`. -/
theorem prev_eq (h : Linked next prev before (l₁ ++ x :: l₂)) :
    prev x = l₁.getLast?.or before := by
  induction l₁ generalizing before with
  | nil => exact h.1
  | cons a l₁ ih =>
    rw [ih h.2.2]
    cases l₁ with
    | nil => rfl
    | cons b l₁ =>
      rw [List.getLast?_cons_cons]
      cases hb : (b :: l₁).getLast? with
      | none => simp at hb
      | some c => rfl

/-- The links forward and back are mutually inverse along the list. -/
theorem next_iff_prev {a b : α} (h : Linked next prev none l)
    (ha : a ∈ l) (hb : b ∈ l) : next a = some b ↔ prev b = some a := by
  constructor
  · intro hn
    obtain ⟨l₁, l₂, rfl⟩ := List.append_of_mem ha
    rw [h.next_eq] at hn
    cases l₂ with
    | nil => cases hn
    | cons c l₂ =>
      obtain rfl : c = b := Option.some.inj hn
      have he : l₁ ++ a :: c :: l₂ = (l₁ ++ [a]) ++ c :: l₂ := by simp
      rw [he] at h
      simp [h.prev_eq]
  · intro hp
    obtain ⟨l₁, l₂, rfl⟩ := List.append_of_mem hb
    rw [h.prev_eq, Option.or_none] at hp
    obtain ⟨l₃, rfl⟩ : ∃ l₃, l₁ = l₃ ++ [a] := by
      have hl := List.dropLast_append_getLast? a hp
      exact ⟨l₁.dropLast, hl.symm⟩
    rw [List.append_assoc] at h
    exact h.next_eq

end Linked

section Update

variable [DecidableEq α]

/-- Link forward after `x` has been taken out: the cell before `x` skips it. -/
def unlinkNext (next prev : α → Option α) (x : α) : α → Option α :=
  match prev x with
  | some p => Function.update next p (next x)
  | none => next

/-- Link back after `x` has been taken out: the cell after `x` skips it. -/
def unlinkPrev (next prev : α → Option α) (x : α) : α → Option α :=
  match next x with
  | some n => Function.update prev n (prev x)
  | none => prev

variable {next prev : α → Option α} {before head : Option α} {l l₁ l₂ : List α} {x : α}

private theorem unlinkNext_of_ne {a : α} (h : prev x ≠ some a) :
    unlinkNext next prev x a = next a := by
  unfold unlinkNext
  cases hp : prev x with
  | none => rfl
  | some p => exact Function.update_of_ne (fun he ↦ h (by rw [hp, he])) _ _

private theorem unlinkPrev_of_ne {a : α} (h : next x ≠ some a) :
    unlinkPrev next prev x a = prev a := by
  unfold unlinkPrev
  cases hn : next x with
  | none => rfl
  | some n => exact Function.update_of_ne (fun he ↦ h (by rw [hn, he])) _ _

/-- Taking out a cell from any position chains the cells that remain. -/
theorem Linked.unlink (h : Linked next prev before (l₁ ++ x :: l₂))
    (hd : (l₁ ++ x :: l₂).Nodup) (hb : ∀ b, before = some b → b ∉ l₁ ++ x :: l₂) :
    Linked (unlinkNext next prev x) (unlinkPrev next prev x) before (l₁ ++ l₂) := by
  induction l₁ generalizing before with
  | nil =>
    obtain ⟨hp, hn, ht⟩ := h
    have hx : x ∉ l₂ := (List.nodup_cons.mp hd).1
    cases l₂ with
    | nil => trivial
    | cons c l₂ =>
      have hnc : unlinkPrev next prev x c = before := by
        have hc : next x = some c := hn
        simp [unlinkPrev, hc, hp]
      have hne (a : α) (ha : a ∈ c :: l₂) : prev x ≠ some a := by
        intro he
        exact hb a (hp ▸ he) (by simp at ha ⊢; tauto)
      refine ⟨hnc, ?_, ?_⟩
      · rw [unlinkNext_of_ne (hne c (by simp))]
        exact ht.2.1
      · apply ht.2.2.congr
        · intro a ha
          exact unlinkNext_of_ne (hne a (by simp [ha]))
        · intro a ha
          apply unlinkPrev_of_ne
          rw [hn]
          intro he
          obtain rfl : c = a := Option.some.inj he
          exact (List.nodup_cons.mp (List.nodup_cons.mp hd).2).1 ha
  | cons a l₁ ih =>
    obtain ⟨hp, hn, ht⟩ := h
    rw [List.cons_append, List.nodup_cons] at hd
    have hrec := ih ht hd.2 (by rintro b ⟨⟩; exact hd.1)
    have hnx : next x = l₂.head? := ht.next_eq
    have hpx : prev x = l₁.getLast?.or (some a) := ht.prev_eq
    refine ⟨?_, ?_, hrec⟩
    · rw [unlinkPrev_of_ne, hp]
      rw [hnx]
      intro he
      have hm : a ∈ l₂ := List.mem_of_mem_head? he
      exact hd.1 (by simp [hm])
    · cases l₁ with
      | nil =>
        have hpa : prev x = some a := hpx
        simp [unlinkNext, hpa, hnx]
      | cons c l₁ =>
        rw [unlinkNext_of_ne, hn]
        · rfl
        · rw [hpx]
          intro he
          cases hg : (c :: l₁).getLast? with
          | none => simp at hg
          | some d =>
            rw [hg] at he
            obtain rfl : d = a := Option.some.inj he
            exact hd.1 (List.mem_append_left _ (List.mem_of_getLast? hg))

/-- Taking out a cell from a whole list; the head moves on only if it was the head. -/
theorem IsDList.unlink (h : IsDList next prev head (l₁ ++ x :: l₂)) :
    IsDList (unlinkNext next prev x) (unlinkPrev next prev x)
      (if prev x = none then next x else head) (l₁ ++ l₂) := by
  have hp : prev x = l₁.getLast? := by rw [h.linked.prev_eq, Option.or_none]
  refine ⟨?_, h.linked.unlink h.nodup (by rintro b ⟨⟩), ?_⟩
  · rw [h.head_eq, h.linked.next_eq, hp]
    cases l₁ with
    | nil => simp
    | cons a l₁ => simp
  · exact h.nodup.sublist (List.Sublist.append_left (List.sublist_cons_self x l₂) l₁)

/-- Putting a new cell in front of a whole list. -/
theorem IsDList.cons (h : IsDList next prev head l) (hx : x ∉ l)
    {next' prev' : α → Option α} (hnx : next' x = head) (hpx : prev' x = none)
    (hn : ∀ a ∈ l, next' a = next a)
    (hp : ∀ a ∈ l, prev' a = if l.head? = some a then some x else prev a) :
    IsDList next' prev' (some x) (x :: l) := by
  refine ⟨rfl, ⟨hpx, by rw [hnx, h.head_eq], ?_⟩, List.nodup_cons.mpr ⟨hx, h.nodup⟩⟩
  cases l with
  | nil => trivial
  | cons c l =>
    obtain ⟨-, h₂, h₃⟩ := h.linked
    refine ⟨by rw [hp c (by simp)]; simp, by rw [hn c (by simp), h₂], ?_⟩
    apply h₃.congr
    · intro a ha
      exact hn a (by simp [ha])
    · intro a ha
      have hne : c ≠ a := by
        rintro rfl
        exact (List.nodup_cons.mp h.nodup).1 ha
      rw [hp a (by simp [ha])]
      simp [hne]

end Update
end JBLang.Base
