import JBLang.Base.Chain
import Mathlib.Algebra.BigOperators.Group.List.Basic
import Mathlib.Algebra.GroupWithZero.Nat
import Mathlib.Data.List.Count
import Mathlib.Data.List.Nodup
import Mathlib.Logic.Function.Basic

/-!
# Reference counts over an ownership graph

Blocks own lists of blocks, with repetition. `refs` counts the references that come from
outside: held by the program, or left over from a block whose release is under way. A state is
balanced when every live block is counted exactly and nothing refers to a dead one. The laws
cover one change of a count each; a release cascade is a sequence of `drop` and `retire`.
-/

namespace JBLang.Base

universe u

variable {α : Type u} [DecidableEq α]

/-- How often the live blocks own `b`. -/
def ownedTimes (live : List α) (owned : α → List α) (b : α) : Nat :=
  (live.map fun o ↦ (owned o).count b).sum

/-- Every live block is counted by its references, and nothing refers to a dead block. -/
structure Balanced (live : List α) (count : α → Int) (owned : α → List α) (refs : α → Nat) :
    Prop where
  nodup : live.Nodup
  count_eq : ∀ b ∈ live, count b = refs b + ownedTimes live owned b
  count_pos : ∀ b ∈ live, 0 < count b
  refs_dead : ∀ b ∉ live, refs b = 0
  owned_live : ∀ o ∈ live, ∀ b ∈ owned o, b ∈ live

section ownedTimes

variable {live : List α} {owned owned' : α → List α} {b o : α}

/-- Only what live blocks own counts. -/
theorem ownedTimes_congr (h : ∀ o ∈ live, owned' o = owned o) (b : α) :
    ownedTimes live owned' b = ownedTimes live owned b := by
  unfold ownedTimes
  congr 1
  apply List.map_congr_left
  intro o ho
  rw [h o ho]

/-- Taking one block out takes out what it owns. -/
theorem ownedTimes_erase (owned : α → List α) (h : o ∈ live) (b : α) :
    ownedTimes live owned b = (owned o).count b + ownedTimes (live.erase o) owned b := by
  have hp := (List.perm_cons_erase h).map fun o ↦ (owned o).count b
  unfold ownedTimes
  rw [hp.sum_eq, List.map_cons, List.sum_cons]

/-- A block that no live block owns. -/
theorem ownedTimes_eq_zero (h : ∀ o ∈ live, b ∉ owned o) : ownedTimes live owned b = 0 := by
  unfold ownedTimes
  rw [List.sum_eq_zero]
  intro n hn
  obtain ⟨o, ho, rfl⟩ := List.mem_map.mp hn
  exact List.count_eq_zero.mpr (h o ho)

/-- A block that is owned no times is in no live block's list. -/
theorem not_mem_of_ownedTimes_eq_zero (h : ownedTimes live owned b = 0) (ho : o ∈ live) :
    b ∉ owned o := by
  have he := ownedTimes_erase owned ho b
  apply List.count_eq_zero.mp
  omega

end ownedTimes

namespace Balanced

variable {live : List α} {count count' : α → Int} {owned owned' : α → List α}
  {refs refs' : α → Nat} {b o : α}

/-- Only the counts and lists of live blocks matter. -/
theorem congr (h : Balanced live count owned refs) (hc : ∀ b ∈ live, count' b = count b)
    (ho : ∀ o ∈ live, owned' o = owned o) (hr : ∀ b, refs' b = refs b) :
    Balanced live count' owned' refs' := by
  constructor
  · exact h.nodup
  · intro b hb
    rw [hc b hb, ownedTimes_congr ho, hr]
    exact h.count_eq b hb
  · intro b hb
    rw [hc b hb]
    exact h.count_pos b hb
  · intro b hb
    rw [hr]
    exact h.refs_dead b hb
  · intro o hol b hb
    rw [ho o hol] at hb
    exact h.owned_live o hol b hb

/-- The order of the live blocks does not matter. -/
theorem perm {live' : List α} (h : Balanced live count owned refs) (hp : live'.Perm live) :
    Balanced live' count owned refs := by
  have htimes (b : α) : ownedTimes live' owned b = ownedTimes live owned b :=
    (hp.map _).sum_eq
  constructor
  · exact hp.nodup_iff.mpr h.nodup
  · intro b hb
    rw [htimes]
    exact h.count_eq b (hp.mem_iff.mp hb)
  · intro b hb
    exact h.count_pos b (hp.mem_iff.mp hb)
  · intro b hb
    exact h.refs_dead b fun hm ↦ hb (hp.mem_iff.mpr hm)
  · intro o ho b hb
    exact hp.mem_iff.mpr (h.owned_live o (hp.mem_iff.mp ho) b hb)

/-- A block that is referred to from outside is live. -/
theorem mem_of_refs (h : Balanced live count owned refs) (hb : 0 < refs b) : b ∈ live := by
  by_contra hd
  have := h.refs_dead b hd
  omega

/-- A fresh block with one reference. -/
theorem alloc (h : Balanced live count owned refs) (hb : b ∉ live) :
    Balanced (b :: live) (Function.update count b 1) (Function.update owned b [])
      (Function.update refs b 1) := by
  have hne (x : α) (hx : x ∈ live) : x ≠ b := fun he ↦ hb (he ▸ hx)
  have hsame : ∀ o ∈ live, Function.update owned b [] o = owned o := by
    intro o ho
    rw [Function.update_of_ne (hne o ho)]
  have htimes (x : α) : ownedTimes (b :: live) (Function.update owned b []) x =
      ownedTimes live owned x := by
    have hmem : b ∈ b :: live := List.mem_cons_self
    have he := ownedTimes_erase (Function.update owned b []) hmem x
    simp only [Function.update_self, List.count_nil, List.erase_cons_head, Nat.zero_add] at he
    rw [he, ownedTimes_congr hsame]
  have hzero : ownedTimes live owned b = 0 :=
    ownedTimes_eq_zero fun o ho hm ↦ hb (h.owned_live o ho b hm)
  constructor
  · exact List.nodup_cons.mpr ⟨hb, h.nodup⟩
  · intro x hx
    rw [htimes]
    by_cases he : x = b
    · subst he
      simp [hzero]
    · rw [Function.update_of_ne he, Function.update_of_ne he]
      exact h.count_eq x ((List.mem_cons.mp hx).resolve_left he)
  · intro x hx
    by_cases he : x = b
    · subst he
      simp
    · rw [Function.update_of_ne he]
      exact h.count_pos x ((List.mem_cons.mp hx).resolve_left he)
  · intro x hx
    have he : x ≠ b := fun he ↦ hx (he ▸ List.mem_cons_self)
    rw [Function.update_of_ne he]
    exact h.refs_dead x fun hm ↦ hx (List.mem_cons_of_mem _ hm)
  · intro o ho x hx
    by_cases he : o = b
    · subst he
      simp at hx
    · have hol := (List.mem_cons.mp ho).resolve_left he
      rw [hsame o hol] at hx
      exact List.mem_cons_of_mem _ (h.owned_live o hol x hx)

/-- The count of a live block and its references from outside change by the same amount. -/
theorem adjust {c : Int} {r : Nat} (h : Balanced live count owned refs) (hb : b ∈ live)
    (hc : c - count b = r - refs b) (hp : 0 < c) :
    Balanced live (Function.update count b c) owned (Function.update refs b r) := by
  refine ⟨h.nodup, ?_, ?_, ?_, h.owned_live⟩
  · intro x hx
    have := h.count_eq x hx
    by_cases he : x = b
    · subst he
      simp only [Function.update_self]
      omega
    · simpa only [Function.update_of_ne he] using this
  · intro x hx
    by_cases he : x = b
    · subst he
      simpa only [Function.update_self] using hp
    · simpa only [Function.update_of_ne he] using h.count_pos x hx
  · intro x hx
    have he : x ≠ b := fun he ↦ hx (he ▸ hb)
    rw [Function.update_of_ne he]
    exact h.refs_dead x hx

/-- One more reference from outside to a live block. -/
theorem incr (h : Balanced live count owned refs) (hb : b ∈ live) :
    Balanced live (Function.update count b (count b + 1)) owned
      (Function.update refs b (refs b + 1)) := by
  have := h.count_pos b hb
  exact h.adjust hb (by omega) (by omega)

/-- A live block is owned once more by a live block. -/
theorem own (h : Balanced live count owned refs) (hb : b ∈ live) (ho : o ∈ live) :
    Balanced live (Function.update count b (count b + 1))
      (Function.update owned o (owned o ++ [b])) refs := by
  have htimes (x : α) : ownedTimes live (Function.update owned o (owned o ++ [b])) x =
      ownedTimes live owned x + if x = b then 1 else 0 := by
    have hrest : ∀ y ∈ live.erase o, Function.update owned o (owned o ++ [b]) y = owned y := by
      intro y hy
      have hne : y ≠ o := fun he ↦ h.nodup.not_mem_erase (he ▸ hy)
      rw [Function.update_of_ne hne]
    rw [ownedTimes_erase _ ho, ownedTimes_congr hrest, ownedTimes_erase owned ho]
    have hsingle : [b].count x = if x = b then 1 else 0 := by
      by_cases he : x = b
      · subst he
        simp
      · simp [he, Ne.symm he]
    rw [Function.update_self, List.count_append, hsingle]
    omega
  refine ⟨h.nodup, ?_, ?_, h.refs_dead, ?_⟩
  · intro x hx
    have := h.count_eq x hx
    rw [htimes]
    by_cases he : x = b
    · subst he
      simp only [Function.update_self, if_true]
      omega
    · simpa only [Function.update_of_ne he, if_neg he, Nat.add_zero] using this
  · intro x hx
    have := h.count_pos x hx
    by_cases he : x = b
    · subst he
      simp only [Function.update_self]
      omega
    · simpa only [Function.update_of_ne he] using this
  · intro y hy x hx
    by_cases he : y = o
    · subst he
      simp only [Function.update_self, List.mem_append, List.mem_singleton] at hx
      rcases hx with hx | rfl
      · exact h.owned_live y hy x hx
      · exact hb
    · rw [Function.update_of_ne he] at hx
      exact h.owned_live y hy x hx

/-- A reference goes, and it was not the last one. -/
theorem drop (h : Balanced live count owned refs) (hb : 0 < refs b) (hc : count b ≠ 1) :
    Balanced live (Function.update count b (count b - 1)) owned
      (Function.update refs b (refs b - 1)) := by
  have hlive := h.mem_of_refs hb
  have := h.count_pos b hlive
  exact h.adjust hlive (by omega) (by omega)

/-- The last reference goes: the block dies, and what it owned is left over to be released.
No live block owned it, itself included. -/
theorem retire (h : Balanced live count owned refs) (hb : 0 < refs b) (hc : count b = 1) :
    Balanced (live.erase b) count owned
      (fun x ↦ Function.update refs b (refs b - 1) x + (owned b).count x) := by
  have hlive := h.mem_of_refs hb
  have hcount := h.count_eq b hlive
  have hone : refs b = 1 := by omega
  have hzero : ownedTimes live owned b = 0 := by omega
  have hfree (o : α) (ho : o ∈ live) : b ∉ owned o := not_mem_of_ownedTimes_eq_zero hzero ho
  constructor
  · exact h.nodup.erase b
  · intro x hx
    obtain ⟨hne, hx⟩ := h.nodup.mem_erase_iff.mp hx
    have := h.count_eq x hx
    rw [ownedTimes_erase owned hlive] at this
    rw [Function.update_of_ne hne]
    omega
  · intro x hx
    exact h.count_pos x (List.mem_of_mem_erase hx)
  · intro x hx
    by_cases he : x = b
    · subst he
      simp only [Function.update_self, hone, List.count_eq_zero.mpr (hfree x hlive)]
    · have hd : x ∉ live := fun hm ↦ hx ((List.mem_erase_of_ne he).mpr hm)
      have hown : x ∉ owned b := fun hm ↦ hd (h.owned_live b hlive x hm)
      simp only [Function.update_of_ne he, h.refs_dead x hd, List.count_eq_zero.mpr hown]
  · intro o ho x hx
    have hol := List.mem_of_mem_erase ho
    have hne : x ≠ b := fun he ↦ hfree o hol (he ▸ hx)
    exact (List.mem_erase_of_ne hne).mpr (h.owned_live o hol x hx)

/-- Without references from outside every live block has a live owner. -/
theorem exists_owner (h : Balanced live count owned refs) (hb : b ∈ live) (hr : refs b = 0) :
    ∃ o ∈ live, b ∈ owned o := by
  by_contra hnone
  have hzero : ownedTimes live owned b = 0 :=
    ownedTimes_eq_zero fun o ho hm ↦ hnone ⟨o, ho, hm⟩
  have := h.count_eq b hb
  have := h.count_pos b hb
  omega

/-- Where ownership has no cycles and nothing is referred to from outside, nothing is live: from
owner to owner there would be no end. -/
theorem eq_nil_of_acyclic (h : Balanced live count owned refs) (hr : ∀ b, refs b = 0)
    (hac : ∀ b, ¬ Relation.TransGen (fun b o ↦ o ∈ live ∧ b ∈ owned o) b b) : live = [] := by
  -- One owner of each block.
  let owner : α → Option α := fun b ↦ live.find? fun o ↦ decide (b ∈ owned o)
  have howner : ∀ b o, owner b = some o → o ∈ live ∧ b ∈ owned o := fun b o ho ↦
    ⟨List.mem_of_find?_eq_some ho, by simpa using List.find?_some ho⟩
  have hacyclic : Acyclic owner := fun b hb ↦ hac b (Relation.TransGen.mono howner _ _ hb)
  have hends : ∀ {b l}, Chain owner b l → b ∉ live := by
    intro b l hl
    induction hl with
    | @last b hnone =>
      intro hb
      obtain ⟨o, ho, hm⟩ := h.exists_owner hb (hr b)
      exact List.find?_eq_none.mp hnone o ho (by simpa using hm)
    | @step b o l ho _ ih => exact fun _ ↦ ih (howner b o ho).1
  rw [List.eq_nil_iff_forall_not_mem]
  intro b hb
  obtain ⟨l, hl⟩ := Chain.exists_of_acyclic hacyclic
    (fun b o ho ↦ h.owned_live o (howner b o ho).1 b (howner b o ho).2) b
  exact hends hl hb

end Balanced

end JBLang.Base
