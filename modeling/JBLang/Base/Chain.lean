import Mathlib.Data.List.Perm.Subperm
import Mathlib.Logic.Relation

/-!
# Chains of a successor function

A partial successor function, such as a parent link, gives each element the chain of what
follows it. Without cycles and with finitely many links every chain ends, and a loop along the
links needs no more rounds than the chain has elements.
-/

namespace JBLang.Base

open Relation

variable {α : Type*} {next : α → Option α} {a b : α} {l : List α}

/-- `b` is the successor of `a`. -/
def Follows (next : α → Option α) (a b : α) : Prop := next a = some b

/-- Nothing comes after itself. -/
def Acyclic (next : α → Option α) : Prop := ∀ a, ¬ TransGen (Follows next) a a

/-- The chain of an element: itself and what follows, up to an element without successor. -/
inductive Chain (next : α → Option α) : α → List α → Prop
  | last {a : α} (h : next a = none) : Chain next a [a]
  | step {a b : α} {l : List α} (h : next a = some b) (hl : Chain next b l) : Chain next a (a :: l)

/-- A measure that decreases along the links excludes cycles. -/
theorem acyclic_of_rank (rank : α → Nat) (h : ∀ a b, next a = some b → rank b < rank a) :
    Acyclic next := by
  have decreases : ∀ {a b}, TransGen (Follows next) a b → rank b < rank a := by
    intro a b hab
    induction hab with
    | single hb => exact h _ _ hb
    | tail _ hc ih => exact Nat.lt_trans (h _ _ hc) ih
  intro a ha
  exact absurd (decreases ha) (Nat.lt_irrefl _)

theorem not_transGen_of_last (h : next a = none) : ¬ TransGen (Follows next) a b := by
  intro hab
  obtain ⟨c, hac, -⟩ := TransGen.head'_iff.mp hab
  rw [Follows, h] at hac
  cases hac

theorem transGen_iff_of_next {c : α} (h : next a = some b) :
    TransGen (Follows next) a c ↔ ReflTransGen (Follows next) b c := by
  rw [TransGen.head'_iff]
  constructor
  · rintro ⟨d, had, hdc⟩
    rw [Follows, h, Option.some.injEq] at had
    exact had ▸ hdc
  · exact fun hbc ↦ ⟨b, h, hbc⟩

/-- Links that stay in a set and are links of another function too. -/
theorem transGen_of_agree {next' : α → Option α} {S : α → Prop}
    (hS : ∀ a b, S a → next a = some b → next' a = some b ∧ S b)
    (h : TransGen (Follows next) a b) (ha : S a) : TransGen (Follows next') a b ∧ S b := by
  induction h with
  | single hb =>
    obtain ⟨hb, hSb⟩ := hS _ _ ha hb
    exact ⟨.single hb, hSb⟩
  | tail _ hc ih =>
    obtain ⟨hc, hSc⟩ := hS _ _ ih.2 hc
    exact ⟨ih.1.tail hc, hSc⟩

namespace Chain

/-- Induction along a chain, for a loop that makes enough rounds. -/
@[elab_as_elim]
theorem walk {motive : Nat → α → List α → Prop} {rounds : Nat} (h : Chain next a l)
    (hrounds : l.length ≤ rounds) (last : ∀ n a, next a = none → motive (n + 1) a [a])
    (step : ∀ n a b l, next a = some b → Chain next b l → motive n b l → motive (n + 1) a (a :: l)) :
    motive rounds a l := by
  induction h generalizing rounds with
  | @last a h =>
    obtain ⟨n, rfl⟩ := Nat.exists_eq_add_of_le' hrounds
    exact last n a h
  | @step a b l h hl ih =>
    obtain ⟨n, rfl⟩ : ∃ n, rounds = n + 1 := ⟨rounds - 1, by simp at hrounds; omega⟩
    exact step n a b l h hl (ih (by simpa using hrounds))

theorem mem_self (h : Chain next a l) : a ∈ l := by
  cases h <;> simp

/-- The members of a chain are what can be reached. -/
theorem mem_iff (h : Chain next a l) : b ∈ l ↔ ReflTransGen (Follows next) a b := by
  induction h with
  | last h =>
    rw [List.mem_singleton]
    constructor
    · rintro rfl
      exact .refl
    · intro hb
      rcases ReflTransGen.cases_head hb with rfl | ⟨c, hc, -⟩
      · rfl
      · rw [Follows, h] at hc
        cases hc
  | step h _ ih =>
    rw [List.mem_cons, ih]
    constructor
    · rintro (rfl | hb)
      · exact .refl
      · exact .head h hb
    · intro hb
      rcases ReflTransGen.cases_head hb with rfl | ⟨c, hc, hcb⟩
      · exact .inl rfl
      · rw [Follows, h, Option.some.injEq] at hc
        exact .inr (hc ▸ hcb)

/-- Behind the first member stands what comes after it. -/
theorem mem_tail_iff (h : Chain next a l) : b ∈ l.tail ↔ TransGen (Follows next) a b := by
  cases h with
  | last h => simpa using not_transGen_of_last h
  | step h hl => rw [List.tail_cons, hl.mem_iff, transGen_iff_of_next h]

theorem unique {l' : List α} (h : Chain next a l) (h' : Chain next a l') : l = l' := by
  induction h generalizing l' with
  | last h => cases h' with
    | last => rfl
    | step hs => rw [h] at hs; cases hs
  | step h _ ih => cases h' with
    | last hl => rw [h] at hl; cases hl
    | step hs hl =>
      rw [h, Option.some.injEq] at hs
      rw [ih (hs ▸ hl)]

/-- From each member on, a chain is that member's chain. -/
theorem of_mem (h : Chain next a l) (hb : b ∈ l) : ∃ before l', l = before ++ l' ∧ Chain next b l' := by
  induction h with
  | last h =>
    rw [List.mem_singleton.mp hb]
    exact ⟨[], _, rfl, .last h⟩
  | @step a c l h hl ih =>
    rcases List.mem_cons.mp hb with rfl | hb
    · exact ⟨[], _, rfl, .step h hl⟩
    · obtain ⟨before, l', rfl, hl'⟩ := ih hb
      exact ⟨a :: before, l', rfl, hl'⟩

/-- A chain has no repetition: the chain of a member that came twice would be longer than
itself. -/
theorem nodup (h : Chain next a l) : l.Nodup := by
  induction h with
  | last h => simp
  | @step a c l h hl ih =>
    refine List.nodup_cons.mpr ⟨fun ha ↦ ?_, ih⟩
    obtain ⟨before, l', rfl, hl'⟩ := hl.of_mem ha
    have hlen := congrArg List.length (unique (Chain.step h hl) hl')
    simp only [List.length_cons, List.length_append] at hlen
    omega

/-- Its end from a member on. -/
theorem suffix {before after : List α} (h : Chain next a l) (hl : l = before ++ b :: after) :
    Chain next b (b :: after) := by
  induction h generalizing before with
  | last h => cases before with
    | nil =>
      cases hl
      exact .last h
    | cons c before => simp at hl
  | step h h' ih => cases before with
    | nil =>
      cases hl
      exact .step h h'
    | cons c before => exact ih (List.cons.inj hl).2

/-- The members with a successor bound the length. -/
theorem length_le {dom : List α} (h : Chain next a l)
    (hdom : ∀ c ∈ l, ∀ b, next c = some b → c ∈ dom) : l.length ≤ dom.length + 1 := by
  have inner : ∀ {a l}, Chain next a l → (∀ c ∈ l, ∀ b, next c = some b → c ∈ dom) →
      ∀ c ∈ l.dropLast, c ∈ dom := by
    intro a l h
    induction h with
    | last h => simp
    | step h hl ih =>
      intro hdom c hc
      rw [List.forall_mem_cons] at hdom
      rw [List.dropLast_cons_of_ne_nil (List.ne_nil_of_mem hl.mem_self)] at hc
      rcases List.mem_cons.mp hc with rfl | hc
      · exact hdom.1 _ h
      · exact ih hdom.2 c hc
  have hnodup := h.nodup.sublist (List.dropLast_sublist l)
  have hle := (hnodup.subperm (inner h hdom)).length_le
  rw [List.length_dropLast] at hle
  omega

/-- A walk that ends is a chain. -/
theorem of_reflTransGen (h : ReflTransGen (Follows next) a b) (hb : next b = none) :
    ∃ l, Chain next a l := by
  induction h using ReflTransGen.head_induction_on with
  | refl => exact ⟨_, .last hb⟩
  | head hac _ ih =>
    obtain ⟨l, hl⟩ := ih
    exact ⟨_, .step hac hl⟩

/-- Without cycles and with finitely many links every element has a chain. -/
theorem exists_of_acyclic {dom : List α} (hac : Acyclic next)
    (hdom : ∀ a b, next a = some b → a ∈ dom) (a : α) : ∃ l, Chain next a l := by
  -- The elements passed so far are distinct members of `dom` from which the walk came here.
  suffices walk : ∀ (n : Nat) (seen : List α) (a : α), dom.length < seen.length + n →
      seen.Nodup → seen ⊆ dom → (∀ c ∈ seen, TransGen (Follows next) c a) →
      ∃ l, Chain next a l from
    walk (dom.length + 1) [] a (by simp) List.nodup_nil (List.nil_subset _) (by simp)
  intro n
  induction n with
  | zero =>
    intro seen a hlen hnodup hsub _
    have := (hnodup.subperm hsub).length_le
    omega
  | succ n ih =>
    intro seen a hlen hnodup hsub hseen
    cases h : next a with
    | none => exact ⟨_, .last h⟩
    | some b =>
      have hnew : a ∉ seen := fun ha ↦ hac a (hseen a ha)
      obtain ⟨l, hl⟩ := ih (a :: seen) b (by rw [List.length_cons]; omega)
        (List.nodup_cons.mpr ⟨hnew, hnodup⟩) (List.cons_subset.mpr ⟨hdom a b h, hsub⟩) (by
          intro c hc
          rcases List.mem_cons.mp hc with rfl | hc
          · exact .single h
          · exact (hseen c hc).tail h)
      exact ⟨_, .step h hl⟩

/-- What has a chain does not come after itself. -/
theorem not_transGen_self (h : Chain next a l) : ¬ TransGen (Follows next) a a := by
  rw [← h.mem_tail_iff]
  cases h with
  | last => simp
  | step hb hl => exact (List.nodup_cons.mp (Chain.step hb hl).nodup).1

/-- A chain on which the links are those of another function. -/
theorem congr {next' : α → Option α} (h : Chain next a l) (heq : ∀ c ∈ l, next' c = next c) :
    Chain next' a l := by
  induction h with
  | @last a ha => exact .last ((heq a (by simp)).trans ha)
  | @step a b l hb _ ih =>
    exact .step ((heq a (by simp)).trans hb) (ih fun c hc ↦ heq c (List.mem_cons_of_mem a hc))

end Chain

/-! ### Changing one link -/

/-- Every walk along the links ends. -/
def WalksEnd (next : α → Option α) : Prop := ∀ a, ∃ l, Chain next a l

theorem WalksEnd.acyclic (h : WalksEnd next) : Acyclic next := by
  intro a
  obtain ⟨l, hl⟩ := h a
  exact hl.not_transGen_self

variable {next' : α → Option α}

/-- With the link of one element changed every walk ends if it ends from there. -/
theorem WalksEnd.of_changed (h : WalksEnd next) (heq : ∀ c, c ≠ a → next' c = next c)
    (ha : ∃ l, Chain next' a l) : WalksEnd next' := by
  intro c
  obtain ⟨l, hl⟩ := h c
  induction hl with
  | @last c hc =>
    by_cases hca : c = a
    · exact hca ▸ ha
    · exact ⟨_, .last ((heq c hca).trans hc)⟩
  | @step c d l hd _ ih =>
    by_cases hca : c = a
    · exact hca ▸ ha
    · obtain ⟨l', hl'⟩ := ih
      exact ⟨_, .step ((heq c hca).trans hd) hl'⟩

/-- A new link from `a` to `b` keeps all walks finite exactly if no walk led from `b` to `a`. -/
theorem WalksEnd.link_iff (h : WalksEnd next) (heq : ∀ c, c ≠ a → next' c = next c)
    (ha : next' a = some b) : WalksEnd next' ↔ ¬ ReflTransGen (Follows next) b a := by
  constructor
  · intro h' hba
    -- Up to `a` the walk from `b` uses the old links, so the new link closes a circle.
    have hback : ∀ {c}, ReflTransGen (Follows next) c a → ReflTransGen (Follows next') c a := by
      intro c hc
      induction hc using ReflTransGen.head_induction_on with
      | refl => exact .refl
      | @head c d hcd _ ih =>
        by_cases hca : c = a
        · exact hca ▸ .refl
        · exact .head ((heq c hca).trans hcd) ih
    exact h'.acyclic a (.head' ha (hback hba))
  · intro hba
    obtain ⟨l, hl⟩ := h b
    refine h.of_changed heq ⟨a :: l, .step ha (hl.congr fun c hc ↦ heq c ?_)⟩
    rintro rfl
    exact hba (hl.mem_iff.mp hc)

end JBLang.Base
