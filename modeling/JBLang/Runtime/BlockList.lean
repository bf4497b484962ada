import JBLang.Base.DList
import JBLang.Runtime.MarkSweep

/-!
# The allocation list of the mark-sweep allocator

Each pointer loop of `runtime/src/mark_sweep_allocator.c` is shown equal to a function
on the sequence of blocks that `allocation_list` holds. The equations need that the
blocks form a doubly linked list and are live; they are the only place where the
checked header accesses are opened.
-/

namespace JBLang.Runtime

open JBLang.Base

namespace MSState

/-- Link forward of a header. -/
def nextOf (s : MSState) (a : Nat) : Option Nat := (s.header a).next

/-- Link back of a header. -/
def prevOf (s : MSState) (a : Nat) : Option Nat := (s.header a).prev

/-- Flag of a header. -/
def markedOf (s : MSState) (a : Nat) : Bool := (s.header a).marked

/-- Size field of a header. -/
def sizeOf (s : MSState) (a : Nat) : Nat := (s.header a).size

/-- The state with other mark flags. -/
def setMarks (s : MSState) (m : Nat → Bool) : MSState :=
  { s with header := fun a ↦ { s.header a with marked := m a } }

/-- The state with one block taken off the list. -/
def unlinkBlock (s : MSState) (x : Nat) : MSState :=
  { s with
    allocationList := if s.prevOf x = none then s.nextOf x else s.allocationList
    header := fun a ↦ { s.header a with
      next := unlinkNext s.nextOf s.prevOf x a
      prev := unlinkPrev s.nextOf s.prevOf x a } }

/-- The state with one block given back to the C heap. -/
def dropBlock (s : MSState) (x : Nat) : MSState :=
  { s with live := s.live.erase x, events := s.events ++ [.free x] }

/-- What the sweep does to an unmarked block. -/
def sweepBlock (s : MSState) (x : Nat) : MSState :=
  ((s.setStats (s.stats.released (s.sizeOf x)).collected).unlinkBlock x).dropBlock x

/-- The sweep over a sequence of blocks. -/
def sweepBlocks (s : MSState) : List Nat → MSState
  | [] => s
  | a :: l => if s.markedOf a then s.sweepBlocks l else (s.sweepBlock a).sweepBlocks l

end MSState

/-- `allocation_list` is a doubly linked list with the live blocks `l`. -/
structure Listed (s : MSState) (l : List Nat) : Prop where
  dlist : IsDList s.nextOf s.prevOf s.allocationList l
  live : ∀ a ∈ l, a ∈ s.live

variable {s : MSState} {l l₁ l₂ : List Nat} {a x : Nat} {m m' : Nat → Bool}

/-- A live header is read. -/
theorem getHeader_live (h : a ∈ s.live) : s.getHeader a = .ok (s.header a) := if_pos h

/-- A live header is written. -/
theorem setHeader_live (h : a ∈ s.live) (hd : MSHeader) :
    s.setHeader a hd = .ok { s with header := Function.update s.header a hd } := if_pos h

/-- A live block is freed. -/
theorem free_live (h : a ∈ s.live) : s.free a = .ok (s.dropBlock a) := if_pos h

namespace Listed

/-- The list is no longer than the number of live blocks. -/
theorem length_le (h : Listed s l) : l.length ≤ s.live.length :=
  h.dlist.nodup.length_le_of_subset h.live

/-- Walks over the list stay below the bound. -/
theorem length_lt_bound (h : Listed s l) : l.length < s.bound :=
  Nat.lt_succ_of_le h.length_le

/-- The link forward of a listed block. -/
theorem next_eq (h : Listed s (l₁ ++ x :: l₂)) : (s.header x).next = l₂.head? :=
  h.dlist.linked.next_eq

/-- Flags and statistics do not belong to the list. -/
theorem of_links {s' : MSState} (h : Listed s l) (hn : ∀ a, s'.nextOf a = s.nextOf a)
    (hp : ∀ a, s'.prevOf a = s.prevOf a) (ha : s'.allocationList = s.allocationList)
    (hl : s'.live = s.live) : Listed s' l := by
  refine ⟨⟨ha ▸ h.dlist.head_eq, ?_, h.dlist.nodup⟩, fun a hm ↦ hl ▸ h.live a hm⟩
  exact h.dlist.linked.congr (fun a _ ↦ hn a) (fun a _ ↦ hp a)

/-- Other flags leave the list alone. -/
theorem setMarks (h : Listed s l) (m : Nat → Bool) : Listed (s.setMarks m) l :=
  h.of_links (fun _ ↦ rfl) (fun _ ↦ rfl) rfl rfl

/-- Other statistics leave the list alone. -/
theorem setStats (h : Listed s l) (st : AllocatorStats) : Listed (s.setStats st) l :=
  h.of_links (fun _ ↦ rfl) (fun _ ↦ rfl) rfl rfl

/-- A block taken off the list and freed leaves the other blocks listed. -/
theorem dropBlock (h : Listed s (l₁ ++ x :: l₂)) :
    Listed ((s.unlinkBlock x).dropBlock x) (l₁ ++ l₂) := by
  have hd := List.nodup_middle.mp h.dlist.nodup
  refine ⟨h.dlist.unlink, ?_⟩
  intro a ha
  have hx : a ≠ x := by
    rintro rfl
    exact (List.nodup_cons.mp hd).1 ha
  have hl : a ∈ s.live := h.live a (by simp at ha ⊢; tauto)
  exact (List.mem_erase_of_ne hx).mpr hl

/-- A swept block leaves the other blocks listed. -/
theorem sweepBlock (h : Listed s (l₁ ++ x :: l₂)) : Listed (s.sweepBlock x) (l₁ ++ l₂) :=
  (h.setStats _).dropBlock

end Listed

@[simp] theorem setMarks_setMarks (s : MSState) (m m' : Nat → Bool) :
    (s.setMarks m).setMarks m' = s.setMarks m' := rfl

@[simp] theorem markedOf_setMarks (s : MSState) (m : Nat → Bool) :
    (s.setMarks m).markedOf = m := rfl

/-- Storing a header with another flag is changing that flag. -/
theorem update_marked (s : MSState) (a : Nat) (b : Bool) :
    { s with header := Function.update s.header a { s.header a with marked := b } } =
      s.setMarks (Function.update s.markedOf a b) := by
  unfold MSState.setMarks
  congr 1
  funext y
  by_cases hy : y = a
  · subst hy
    simp
  · simp [hy, MSState.markedOf]

/-! ### Taking a block off the list -/

private theorem update_next (f : Nat → MSHeader) (p : Nat) (v : Option Nat) :
    Function.update f p { f p with next := v } =
      fun a ↦ { f a with next := Function.update (fun a ↦ (f a).next) p v a } := by
  funext y
  by_cases hp : y = p
  · subst hp
    simp
  · simp [hp]

private theorem update_prev (f : Nat → MSHeader) (n : Nat) (v : Option Nat) :
    Function.update f n { f n with prev := v } =
      fun a ↦ { f a with prev := Function.update (fun a ↦ (f a).prev) n v a } := by
  funext y
  by_cases hn : y = n
  · subst hn
    simp
  · simp [hn]

/-- `remove_allocation` takes a listed block off the list. -/
theorem removeAllocation_eq (h : Listed s (l₁ ++ x :: l₂)) :
    removeAllocation s x = .ok (s.unlinkBlock x) := by
  have hx : x ∈ s.live := h.live x (by simp)
  have hnx : (s.header x).next = l₂.head? := h.next_eq
  have hpx : (s.header x).prev = l₁.getLast? := by
    have hp := h.dlist.linked.prev_eq
    rwa [Option.or_none] at hp
  -- the neighbours are live, and the one before is not `x`, so that `x` is read unchanged
  have hp (p : Nat) (he : l₁.getLast? = some p) : p ∈ s.live ∧ x ≠ p := by
    have hm : p ∈ l₁ := List.mem_of_getLast? he
    refine ⟨h.live p (by simp [hm]), ?_⟩
    rintro rfl
    exact (List.nodup_cons.mp (List.nodup_middle.mp h.dlist.nodup)).1 (by simp [hm])
  have hn (n : Nat) (he : l₂.head? = some n) : n ∈ s.live :=
    h.live n (by simp [List.mem_of_mem_head? he])
  unfold removeAllocation MSState.unlinkBlock
  cases hpe : l₁.getLast? with
  | none =>
    rw [hpe] at hpx
    cases hne : l₂.head? with
    | none =>
      rw [hne] at hnx
      simp [MSState.getHeader, hx, hpx, hnx, pure, Except.pure, bind, Except.bind,
        MSState.prevOf, MSState.nextOf, unlinkNext, unlinkPrev]
    | some n =>
      rw [hne] at hnx
      simp [MSState.getHeader, MSState.setHeader, hx, hn n hne, hpx, hnx, pure, Except.pure,
        bind, Except.bind, update_prev, MSState.prevOf, MSState.nextOf, unlinkNext, unlinkPrev]
      rfl
  | some p =>
    rw [hpe] at hpx
    obtain ⟨hpl, hxp⟩ := hp p hpe
    cases hne : l₂.head? with
    | none =>
      rw [hne] at hnx
      simp [MSState.getHeader, MSState.setHeader, hx, hpl, hxp, hpx, hnx, pure, Except.pure,
        bind, Except.bind, update_next, MSState.prevOf, MSState.nextOf, unlinkNext, unlinkPrev]
      rfl
    | some n =>
      rw [hne] at hnx
      simp [MSState.getHeader, MSState.setHeader, hx, hpl, hxp, hn n hne, hpx, hnx, bind,
        Except.bind, update_next, MSState.prevOf, MSState.nextOf, unlinkNext, unlinkPrev]
      exact update_prev _ n (some p)

/-! ### Loops over the list -/

/-- The sweep loop is `sweepBlocks` on the blocks still ahead. -/
theorem sweepLoop_eq (passed : List Nat) (fuel : Nat) (hf : l.length ≤ fuel)
    (h : Listed s (passed ++ l)) :
    sweepLoop s fuel l.head? = .ok (s.sweepBlocks l) := by
  induction l generalizing s passed fuel with
  | nil => cases fuel <;> rfl
  | cons x l ih =>
    obtain ⟨fuel, rfl⟩ : ∃ k, fuel = k + 1 := ⟨fuel - 1, by simp at hf; omega⟩
    have hx : x ∈ s.live := h.live x (by simp)
    have hf' : l.length ≤ fuel := by simpa using hf
    have hcons : passed ++ x :: l = (passed ++ [x]) ++ l := by simp
    simp only [List.head?_cons, sweepLoop, getHeader_live hx, MSState.sweepBlocks, bind,
      Except.bind, h.next_eq]
    by_cases hm : s.markedOf x = true
    · rw [if_pos hm, if_pos (show (s.header x).marked = true from hm)]
      rw [hcons] at h
      exact ih _ fuel hf' h
    · rw [if_neg hm, if_neg (show ¬(s.header x).marked = true from hm)]
      have hs := h.setStats (s.stats.released (s.header x).size).collected
      have hl : x ∈ ((s.setStats (s.stats.released (s.header x).size).collected).unlinkBlock
        x).live := hx
      rw [removeAllocation_eq hs]
      simp only [free_live hl]
      exact ih _ fuel hf' h.sweepBlock

/-- Sweeping keeps flags. -/
theorem sweepBlock_markedOf (s : MSState) (x : Nat) : (s.sweepBlock x).markedOf = s.markedOf :=
  rfl

/-- Whatever freeing one unmarked block keeps, the whole sweep keeps. -/
theorem sweepBlocks_induct {P : MSState → List Nat → Prop} (passed : List Nat)
    (hstep : ∀ {s : MSState} {l₁ l₂ : List Nat} {x : Nat}, P s (l₁ ++ x :: l₂) →
      P (s.sweepBlock x) (l₁ ++ l₂)) (h : P s (passed ++ l)) :
    P (s.sweepBlocks l) (passed ++ l.filter s.markedOf) := by
  induction l generalizing s passed with
  | nil => exact h
  | cons x l ih =>
    unfold MSState.sweepBlocks
    split
    · next hm =>
      rw [List.filter_cons_of_pos hm]
      have hcons : passed ++ x :: l = (passed ++ [x]) ++ l := by simp
      rw [hcons] at h
      have hr := ih _ h
      rwa [List.append_assoc] at hr
    · next hm =>
      rw [List.filter_cons_of_neg hm]
      exact ih _ (hstep h)

/-- The sweep leaves the marked blocks listed, in their order. -/
theorem Listed.sweepBlocks (h : Listed s l) : Listed (s.sweepBlocks l) (l.filter s.markedOf) :=
  sweepBlocks_induct [] Listed.sweepBlock h

/-- The sweep frees the unmarked blocks, in the order of the list. -/
theorem sweepBlocks_events (s : MSState) (l : List Nat) :
    (s.sweepBlocks l).events =
      s.events ++ (l.filter (fun a ↦ !s.markedOf a)).map .free := by
  induction l generalizing s with
  | nil => simp [MSState.sweepBlocks]
  | cons x l ih =>
    unfold MSState.sweepBlocks
    split
    · next hm => rw [ih, List.filter_cons_of_neg (by simp [hm])]
    · next hm =>
      rw [ih, List.filter_cons_of_pos (by simp [hm]), sweepBlock_markedOf]
      simp [MSState.sweepBlock, MSState.dropBlock, MSState.unlinkBlock, MSState.setStats]

/-- Clearing the flags of the blocks ahead. -/
theorem clearMarks_eq (passed : List Nat) (fuel : Nat) (hf : l.length ≤ fuel)
    (h : Listed s (passed ++ l)) :
    clearMarks s fuel l.head? =
      .ok (s.setMarks (fun a ↦ if a ∈ l then false else s.markedOf a)) := by
  induction l generalizing s passed fuel with
  | nil => cases fuel <;> rfl
  | cons x l ih =>
    obtain ⟨fuel, rfl⟩ : ∃ k, fuel = k + 1 := ⟨fuel - 1, by simp at hf; omega⟩
    have hx : x ∈ s.live := h.live x (by simp)
    have hcons : passed ++ x :: l = (passed ++ [x]) ++ l := by simp
    simp only [List.head?_cons, clearMarks, getHeader_live hx, setHeader_live hx, bind,
      Except.bind]
    rw [update_marked, h.next_eq]
    rw [hcons] at h
    rw [ih _ fuel (by simpa using hf) (h.setMarks _)]
    rw [setMarks_setMarks, markedOf_setMarks]
    congr 2
    funext a
    by_cases ha : a = x
    · subst ha
      simp
    · simp [ha]

/-- A block holds `ptr` in its payload, as the code tests it. -/
def holdsPtr (s : MSState) (ptr : Nat) (a : Nat) : Bool :=
  decide (payloadStart a ≤ ptr ∧ ptr < payloadEnd a (s.header a))

/-- The header walk returns the first block ahead that holds the pointer. -/
theorem walkHeaders_eq (passed : List Nat) (ptr : Nat) (fuel : Nat) (hf : l.length ≤ fuel)
    (h : Listed s (passed ++ l)) :
    walkHeaders s ptr fuel l.head? = .ok (l.find? (holdsPtr s ptr)) := by
  induction l generalizing passed fuel with
  | nil => cases fuel <;> rfl
  | cons x l ih =>
    obtain ⟨fuel, rfl⟩ : ∃ k, fuel = k + 1 := ⟨fuel - 1, by simp at hf; omega⟩
    have hx : x ∈ s.live := h.live x (by simp)
    have hcons : passed ++ x :: l = (passed ++ [x]) ++ l := by simp
    simp only [List.head?_cons, walkHeaders, getHeader_live hx, bind, Except.bind, h.next_eq]
    split
    · next hp => rw [List.find?_cons_of_pos (by simpa [holdsPtr] using hp)]; rfl
    · next hp =>
      rw [List.find?_cons_of_neg (by simpa [holdsPtr] using hp)]
      rw [hcons] at h
      exact ih _ fuel (by simpa using hf) h

end JBLang.Runtime
