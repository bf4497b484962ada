import Mathlib.Logic.Relation
import Mathlib.Data.Set.Insert

/-!
# Depth-first marking of a graph

Rules for a marking procedure that sets a flag on a node, then follows its edges,
and is run from several starting nodes one after the other. `gray` holds the nodes
whose edges are still being followed; it is empty between two top-level calls.
Nothing is assumed about the graph: cycles and self loops are allowed.
-/

namespace JBLang.Base

universe u

variable {α : Type u} {edge : α → α → Prop} {gray before middle after starts rest : Set α}

/-- Every edge out of a marked node that is not gray ends in a marked node. -/
def ClosedOutside (edge : α → α → Prop) (gray marked : Set α) : Prop :=
  ∀ a ∈ marked, a ∉ gray → ∀ b, edge a b → b ∈ marked

/-- What marking from `starts` does to the set of marked nodes while `gray` is open. -/
structure Marks (edge : α → α → Prop) (gray before starts after : Set α) : Prop where
  grows : before ⊆ after
  covers : starts ⊆ after
  sound : ∀ y ∈ after, y ∈ before ∨ ∃ x ∈ starts, Relation.ReflTransGen edge x y
  closes : ClosedOutside edge gray before → ClosedOutside edge gray after

namespace Marks

/-- Marking from nodes that are all marked already changes nothing. -/
theorem of_subset (h : starts ⊆ before) : Marks edge gray before starts before :=
  ⟨Set.Subset.rfl, h, fun _ hy ↦ .inl hy, id⟩

/-- Two marking runs, one after the other, mark from the union of their starts. -/
theorem trans (h₁ : Marks edge gray before starts middle)
    (h₂ : Marks edge gray middle rest after) :
    Marks edge gray before (starts ∪ rest) after := by
  refine ⟨h₁.grows.trans h₂.grows, ?_, ?_, fun hc ↦ h₂.closes (h₁.closes hc)⟩
  · exact Set.union_subset (h₁.covers.trans h₂.grows) h₂.covers
  · intro y hy
    rcases h₂.sound y hy with hm | ⟨x, hx, hr⟩
    · rcases h₁.sound y hm with hb | ⟨x, hx, hr⟩
      · exact .inl hb
      · exact .inr ⟨x, .inl hx, hr⟩
    · exact .inr ⟨x, .inr hx, hr⟩

/-- Setting the flag of `a` and then marking from its successors, with `a` gray,
marks from `a`. -/
theorem node {a : α} (hs : ∀ b, edge a b ↔ b ∈ starts)
    (h : Marks edge (insert a gray) (insert a before) starts after) :
    Marks edge gray before {a} after := by
  have ha : a ∈ after := h.grows (Set.mem_insert a before)
  refine ⟨(Set.subset_insert a before).trans h.grows, by simpa using ha, ?_, ?_⟩
  · intro y hy
    rcases h.sound y hy with hb | ⟨x, hx, hr⟩
    · rcases Set.mem_insert_iff.mp hb with rfl | hb
      · exact .inr ⟨y, rfl, .refl⟩
      · exact .inl hb
    · exact .inr ⟨a, rfl, .head ((hs x).mpr hx) hr⟩
  · intro hc
    -- the flag of `a` alone keeps the closure, because `a` is gray meanwhile
    have hi : ClosedOutside edge (insert a gray) (insert a before) := by
      intro x hx hg b hb
      rcases Set.mem_insert_iff.mp hx with rfl | hx
      · exact absurd (Set.mem_insert x gray) hg
      · exact .inr (hc x hx (fun hn ↦ hg (.inr hn)) b hb)
    intro x hx hg b hb
    by_cases he : x = a
    · subst he
      exact h.covers ((hs b).mp hb)
    · exact h.closes hi x hx (fun hn ↦ (Set.mem_insert_iff.mp hn).elim he hg) b hb

/-- Marking with nothing gray and nothing marked marks exactly the reachable nodes. -/
theorem eq_reachable (h : Marks edge ∅ ∅ starts after) (y : α) :
    y ∈ after ↔ ∃ x ∈ starts, Relation.ReflTransGen edge x y := by
  constructor
  · intro hy
    exact (h.sound y hy).resolve_left (Set.notMem_empty y)
  · rintro ⟨x, hx, hr⟩
    have hc : ClosedOutside edge ∅ after := h.closes (fun a ha ↦ absurd ha (Set.notMem_empty a))
    induction hr with
    | refl => exact h.covers hx
    | tail _ he ih => exact hc _ ih (Set.notMem_empty _) _ he

end Marks

/-- Reachable nodes are reached along reachable nodes: edges between others do not matter. -/
theorem reflTransGen_of_reachable {edge' : α → α → Prop} {x y : α} (hx : x ∈ starts)
    (hedge : ∀ a b, (∃ x ∈ starts, Relation.ReflTransGen edge x a) →
      (∃ x ∈ starts, Relation.ReflTransGen edge x b) → edge a b → edge' a b)
    (hr : Relation.ReflTransGen edge x y) : Relation.ReflTransGen edge' x y := by
  induction hr with
  | refl => exact .refl
  | tail hra hab ih => exact ih.tail (hedge _ _ ⟨x, hx, hra⟩ ⟨x, hx, hra.tail hab⟩ hab)

end JBLang.Base
