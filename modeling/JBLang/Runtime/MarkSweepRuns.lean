import Mathlib.Data.List.Perm.Basic
import Mathlib.Algebra.BigOperators.Group.List.Basic
import Mathlib.Algebra.GroupWithZero.Nat
import Mathlib.Order.Bounds.Defs
import JBLang.Base.Runs
import JBLang.Runtime.MarkPhase

/-!
# Runs of the mark-sweep allocator

Whole runs from `ms_init`: the allocation list stays a doubly linked list of exactly the
blocks held from the C heap, the statistics stay in step with it, and `ms_shutdown` gives
every block back once. What a collection marks plays no part here, so memory contents and
the placement of blocks are arbitrary.
-/

namespace JBLang.Runtime

open JBLang.Base

variable {s : MSState} {l l₁ l₂ : List Nat} {a x : Nat}

/-! ### Effect of the operations on the list -/

/-- The state with a new block of `total` bytes in front of the list. -/
def MSState.pushBlock (s : MSState) (a total : Nat) : MSState :=
  { s with
    allocationList := some a
    live := a :: s.live
    events := s.events ++ [HeapEvent.malloc a]
    header := fun y ↦
      if y = a then ⟨false, total, s.allocationList, none⟩
      else if s.allocationList = some y then { s.header y with prev := some a }
      else s.header y }

/-- What `ms_dealloc` does to a listed block. -/
def MSState.deallocBlock (s : MSState) (a : Nat) : MSState :=
  ((s.unlinkBlock a).setStats (s.stats.released (s.sizeOf a))).dropBlock a

/-- The part of `ms_alloc` that fills in and links a fresh block. -/
theorem addAllocation_fresh (h : Listed s l) (ha : a ∉ s.live) (total : Nat) :
    (do
      let s ← { s with live := a :: s.live, events := s.events ++ [HeapEvent.malloc a] }.setHeader
        a ⟨false, total, none, none⟩
      addAllocation s a) = .ok (s.pushBlock a total) := by
  have hal : a ∈ a :: s.live := by simp
  unfold addAllocation
  cases hf : s.allocationList with
  | none =>
    simp only [MSState.setHeader, MSState.getHeader, if_pos hal, bind, Except.bind, hf,
      Function.update_self, Function.update_idem, pure, Except.pure, MSState.pushBlock]
    congr 2
    funext y
    by_cases hy : y = a
    · subst hy
      simp
    · simp [hy]
  | some first =>
    have hfl : first ∈ s.live := by
      apply h.live
      apply List.mem_of_mem_head?
      rw [← h.dlist.head_eq, hf]
      rfl
    have hne : first ≠ a := fun he ↦ ha (he ▸ hfl)
    have hfl' : first ∈ a :: s.live := by simp [hfl]
    simp only [MSState.setHeader, MSState.getHeader, if_pos hal, if_pos hfl', bind, Except.bind,
      hf, Function.update_self, Function.update_idem, Function.update_of_ne hne, pure,
      Except.pure, MSState.pushBlock]
    congr 2
    funext y
    by_cases hy : y = first
    · subst hy
      simp [hne]
    · by_cases hya : y = a
      · subst hya
        simp [hy]
      · simp [hy, hya, Ne.symm hy]

/-- A fresh block is listed in front of the others. -/
theorem Listed.pushBlock (h : Listed s l) (ha : a ∉ s.live) (total : Nat) :
    Listed (s.pushBlock a total) (a :: l) := by
  have hal : a ∉ l := fun hm ↦ ha (h.live a hm)
  have hne (y : Nat) (hy : y ∈ l) : y ≠ a := fun he ↦ hal (he ▸ hy)
  constructor
  · apply h.dlist.cons hal
    · simp [MSState.pushBlock, MSState.nextOf]
    · simp [MSState.pushBlock, MSState.prevOf]
    · intro y hy
      simp only [MSState.pushBlock, MSState.nextOf, if_neg (hne y hy)]
      split <;> rfl
    · intro y hy
      simp only [MSState.pushBlock, MSState.prevOf, if_neg (hne y hy)]
      rw [h.dlist.head_eq]
      split <;> rfl
  · intro y hy
    rcases List.mem_cons.mp hy with rfl | hy
    · simp [MSState.pushBlock]
    · exact List.mem_cons_of_mem _ (h.live y hy)

/-- `ms_dealloc` of the payload pointer of a listed block. -/
theorem msDealloc_eq (h : Listed s (l₁ ++ x :: l₂)) (hr : x + msHeaderSize < sizeModulus) :
    msDealloc s (payloadStart x) = .ok (s.deallocBlock x) := by
  have hp : payloadStart x = x + msHeaderSize := addSize_eq hr
  have hs : subSize (payloadStart x) msHeaderSize = x := by
    rw [hp, subSize_eq hr (by omega)]
    omega
  have hne : payloadStart x ≠ 0 := by
    rw [hp]
    simp [msHeaderSize]
  have hl : x ∈ (s.unlinkBlock x).live := h.live x (by simp)
  have hd : x ∈ ((s.unlinkBlock x).setStats (s.stats.released (s.sizeOf x))).live := hl
  unfold msDealloc
  rw [if_neg hne]
  simp only [hs, bind, Except.bind, removeAllocation_eq h, getHeader_live hl]
  exact free_live hd

/-! ### Calls -/

/-- The calls a program makes between `ms_init` and `ms_shutdown`, with the answer of
`malloc` and what memory contains at the call. -/
inductive MSOp where
  | alloc (size : Nat) (granted : Option Nat) (c : Contents)
  | dealloc (ptr : Nat)
  | gc (c : Contents)
  | setGcThreshold (threshold : Nat)
  | registerRoot (ptr : Nat)

namespace MSOp

/-- Perform one call. -/
def perform (s : MSState) : MSOp → Except Fault MSState
  | .alloc size granted c => (msAlloc c s size granted).map Prod.fst
  | .dealloc ptr => msDealloc s ptr
  | .gc c => msGc c s
  | .setGcThreshold threshold => .ok (msSetGcThreshold s threshold)
  | .registerRoot ptr => msRegisterRoot s ptr

/-- `malloc` fails or grants a block that is not in use, with room for its header in the
address space; the program deallocates `NULL` or the payload pointer of a live block. -/
def Allowed (s : MSState) : MSOp → Prop
  | .alloc _ (some a) _ => a ∉ s.live ∧ a + msHeaderSize < sizeModulus
  | .dealloc ptr => ptr = 0 ∨ ∃ a ∈ s.live, ptr = payloadStart a
  | _ => True

/-- The call reaches no `size_t` wrap-around and registers fewer than `MAX_ROOTS` roots. -/
def Bounded (s : MSState) : MSOp → Prop
  | .alloc size (some _) _ => msHeaderSize + size < sizeModulus ∧
      s.stats.currentBytes + (msHeaderSize + size) < sizeModulus ∧
      s.stats.totalAllocations + 1 < sizeModulus
  | .registerRoot _ => s.roots.length < maxRoots
  | _ => True

instance (s : MSState) : (op : MSOp) → Decidable (op.Allowed s)
  | .alloc _ (some a) _ => inferInstanceAs (Decidable (a ∉ s.live ∧ a + msHeaderSize < sizeModulus))
  | .dealloc ptr => inferInstanceAs (Decidable (ptr = 0 ∨ ∃ a ∈ s.live, ptr = payloadStart a))
  | .alloc _ none _ | .gc _ | .setGcThreshold _ | .registerRoot _ => .isTrue trivial

instance (s : MSState) : (op : MSOp) → Decidable (op.Bounded s)
  | .alloc _ (some _) _ => inferInstanceAs (Decidable (_ ∧ _ ∧ _))
  | .registerRoot _ => inferInstanceAs (Decidable (s.roots.length < maxRoots))
  | .alloc _ none _ | .gc _ | .setGcThreshold _ | .dealloc _ => .isTrue trivial

/-- The block `malloc` grants in the call. -/
def granted : MSOp → Option Nat
  | .alloc _ granted _ => granted
  | _ => none

/-- The call deallocates a block. -/
def isDealloc : MSOp → Bool
  | .dealloc ptr => ptr ≠ 0
  | _ => false

/-- The call registers a root. -/
def isRegisterRoot : MSOp → Bool
  | .registerRoot _ => true
  | _ => false

end MSOp

/-- A linked and counted block, then possibly a collection: the rest of `ms_alloc`. -/
theorem msAlloc_granted (c : Contents) (h : Listed s l) (ha : a ∉ s.live) (size : Nat) :
    (msAlloc c s size (some a)).map Prod.fst =
      let s₁ := (s.pushBlock a (addSize msHeaderSize size)).setStats
        (s.stats.allocated (addSize msHeaderSize size))
      if s₁.gcThreshold < s₁.stats.currentBytes then collectGarbage c s₁ else .ok s₁ := by
  have hadd := addAllocation_fresh h ha (addSize msHeaderSize size)
  unfold msAlloc
  simp only [bind, Except.bind] at hadd ⊢
  split at hadd
  · cases hadd
  · next s₀ hset =>
    simp only [hadd, show (s.pushBlock a (addSize msHeaderSize size)).stats = s.stats from rfl]
    split
    · cases collectGarbage c ((s.pushBlock a (addSize msHeaderSize size)).setStats
        (s.stats.allocated (addSize msHeaderSize size))) <;> rfl
    · rfl

/-! ### Held blocks -/

variable {done : List MSOp} {op : MSOp}

/-- The list holds exactly the blocks that `malloc` has granted and `free` has not taken
back, as the record of heap calls has it; grants and roots are those of the calls `done`. -/
structure Held (done : List MSOp) (s : MSState) (l : List Nat) : Prop where
  listed : Listed s l
  perm : s.live.Perm l
  inRange : ∀ a ∈ l, a + msHeaderSize < sizeModulus
  replayed : replay s.events [] = some s.live
  grants : s.events.filterMap HeapEvent.granted = done.filterMap MSOp.granted
  rooted : s.roots.length = done.countP MSOp.isRegisterRoot

/-- The statistics agree with the list and the explicit deallocations of the calls `done`. -/
structure Counted (done : List MSOp) (s : MSState) (l : List Nat) : Prop where
  bytes : s.stats.currentBytes = (l.map s.sizeOf).sum
  seen : s.stats.currentBytes ∈ s.bytesSeen
  peak : IsGreatest {b | b ∈ s.bytesSeen} s.stats.peakBytes
  noWrap : s.stats.currentBytes < sizeModulus ∧ s.stats.totalAllocations < sizeModulus
  allocations : s.stats.totalAllocations =
    l.length + s.stats.totalCollections + done.countP MSOp.isDealloc

/-- Dropping an unlinked block keeps the record. -/
theorem Held.dropBlock {s' : MSState} (h : Held done s (l₁ ++ x :: l₂))
    (hl : Listed (s'.dropBlock x) (l₁ ++ l₂)) (hlive : s'.live = s.live)
    (hev : s'.events = s.events) (hroots : s'.roots = s.roots) :
    Held done (s'.dropBlock x) (l₁ ++ l₂) := by
  have hx : x ∈ s.live := h.listed.live x (by simp)
  refine ⟨hl, ?_, ?_, ?_, ?_, ?_⟩
  · have hp : (l₁ ++ x :: l₂).Perm (x :: (l₁ ++ l₂)) := List.perm_middle
    have he := (h.perm.trans hp).erase x
    rw [List.erase_cons_head] at he
    simpa [MSState.dropBlock, hlive] using he
  · intro a ha
    exact h.inRange a (by simp at ha ⊢; tauto)
  · simp [MSState.dropBlock, hlive, hev, replay_append, h.replayed, replay, hx]
  · simp [MSState.dropBlock, hev, h.grants, HeapEvent.granted]
  · simp [MSState.dropBlock, hroots, h.rooted]

/-- A swept block keeps the record. -/
theorem Held.sweepBlock (h : Held done s (l₁ ++ x :: l₂)) :
    Held done (s.sweepBlock x) (l₁ ++ l₂) :=
  h.dropBlock h.listed.sweepBlock rfl rfl rfl

/-- Other flags keep the record. -/
theorem Held.setMarks (h : Held done s l) (m : Nat → Bool) : Held done (s.setMarks m) l :=
  ⟨h.listed.setMarks m, h.perm, h.inRange, h.replayed, h.grants, h.rooted⟩

/-- Other statistics keep the record. -/
theorem Held.setStats (h : Held done s l) (st : AllocatorStats) : Held done (s.setStats st) l :=
  ⟨h.listed.setStats st, h.perm, h.inRange, h.replayed, h.grants, h.rooted⟩

/-- A call that grants nothing and registers nothing adds nothing to the record. -/
theorem Held.idle (h : Held done s l) (hg : op.granted = none) (hr : op.isRegisterRoot = false) :
    Held (done ++ [op]) s l :=
  ⟨h.listed, h.perm, h.inRange, h.replayed, by simp [h.grants, hg], by simp [h.rooted, hr]⟩

/-- A deallocated block keeps the record. -/
theorem Held.deallocBlock (h : Held done s (l₁ ++ x :: l₂)) :
    Held done (s.deallocBlock x) (l₁ ++ l₂) :=
  h.dropBlock (h.listed.dropBlock.of_links (fun _ ↦ rfl) (fun _ ↦ rfl) rfl rfl) rfl rfl rfl

/-- A fresh block is on record. -/
theorem Held.pushBlock (h : Held done s l) (ha : a ∉ s.live)
    (hr : a + msHeaderSize < sizeModulus) (total : Nat) (hg : op.granted = some a)
    (ho : op.isRegisterRoot = false) : Held (done ++ [op]) (s.pushBlock a total) (a :: l) := by
  refine ⟨h.listed.pushBlock ha total, h.perm.cons a, ?_, ?_, ?_, ?_⟩
  · intro y hy
    rcases List.mem_cons.mp hy with rfl | hy
    · exact hr
    · exact h.inRange y hy
  · simp [MSState.pushBlock, replay_append, h.replayed, replay, ha]
  · simp [MSState.pushBlock, h.grants, HeapEvent.granted, hg]
  · simp [MSState.pushBlock, h.rooted, ho]

/-! ### Statistics -/

private theorem sum_middle (f : Nat → Nat) (l₁ l₂ : List Nat) (x : Nat) :
    ((l₁ ++ x :: l₂).map f).sum = f x + ((l₁ ++ l₂).map f).sum := by
  simp only [List.map_append, List.map_cons, List.sum_append, List.sum_cons]
  omega

/-- Giving back the bytes of a listed block: no wrap-around, and the peak stays. -/
theorem Counted.released (h : Counted done s (l₁ ++ x :: l₂)) :
    (s.stats.released (s.sizeOf x)).currentBytes = ((l₁ ++ l₂).map s.sizeOf).sum ∧
      (s.stats.released (s.sizeOf x)).currentBytes ≤ s.stats.currentBytes := by
  have hb := h.bytes
  rw [sum_middle] at hb
  have he : subSize s.stats.currentBytes (s.sizeOf x) = s.stats.currentBytes - s.sizeOf x :=
    subSize_eq h.noWrap.1 (by omega)
  simp only [AllocatorStats.released, he]
  omega

private theorem peak_cons {seen : List Nat} {peak current : Nat}
    (h : IsGreatest {b | b ∈ seen} peak) (hc : current ≤ peak) :
    IsGreatest {b | b ∈ current :: seen} peak := by
  refine ⟨List.mem_cons_of_mem _ h.1, ?_⟩
  intro b hb
  rcases List.mem_cons.mp hb with rfl | hb
  · exact hc
  · exact h.2 hb

/-- A swept block keeps the statistics in step. -/
theorem Counted.sweepBlock (h : Counted done s (l₁ ++ x :: l₂)) :
    Counted done (s.sweepBlock x) (l₁ ++ l₂) := by
  obtain ⟨hb, hle⟩ := h.released
  have hal := h.allocations
  have hlen : (l₁ ++ x :: l₂).length = (l₁ ++ l₂).length + 1 := by
    simp only [List.length_append, List.length_cons]
    omega
  have hc : addSize s.stats.totalCollections 1 = s.stats.totalCollections + 1 :=
    addSize_eq (by have := h.noWrap.2; omega)
  refine ⟨hb, List.mem_cons_self, ?_, ⟨Nat.lt_of_le_of_lt hle h.noWrap.1, h.noWrap.2⟩, ?_⟩
  · exact peak_cons h.peak (hle.trans (h.peak.2 h.seen))
  · change s.stats.totalAllocations = _ + addSize s.stats.totalCollections 1 + _
    rw [hc]
    omega

/-- Other flags keep the statistics in step. -/
theorem Counted.setMarks (h : Counted done s l) (m : Nat → Bool) :
    Counted done (s.setMarks m) l :=
  ⟨h.bytes, h.seen, h.peak, h.noWrap, h.allocations⟩

/-- A call without explicit deallocation adds nothing to their number. -/
theorem Counted.idle (h : Counted done s l) (ho : op.isDealloc = false) :
    Counted (done ++ [op]) s l :=
  ⟨h.bytes, h.seen, h.peak, h.noWrap, by simp [h.allocations, ho]⟩

/-- An explicit deallocation keeps the statistics in step. -/
theorem Counted.deallocBlock (h : Counted done s (l₁ ++ x :: l₂)) (ho : op.isDealloc = true) :
    Counted (done ++ [op]) (s.deallocBlock x) (l₁ ++ l₂) := by
  obtain ⟨hb, hle⟩ := h.released
  have hal := h.allocations
  refine ⟨hb, List.mem_cons_self, ?_, ⟨Nat.lt_of_le_of_lt hle h.noWrap.1, h.noWrap.2⟩, ?_⟩
  · exact peak_cons h.peak (hle.trans (h.peak.2 h.seen))
  · change s.stats.totalAllocations = _ + s.stats.totalCollections + _
    simp only [List.length_append, List.length_cons, List.countP_append, List.countP_cons,
      List.countP_nil, ho, if_true] at hal ⊢
    omega

private theorem sizeOf_pushBlock (s : MSState) (a total y : Nat) (hy : y ≠ a) :
    (s.pushBlock a total).sizeOf y = s.sizeOf y := by
  simp only [MSState.pushBlock, MSState.sizeOf, if_neg hy]
  split <;> rfl

/-- A counted allocation keeps the statistics in step, unless a counter wraps around. -/
theorem Counted.pushBlock (h : Counted done s l) (hal : a ∉ l) {total : Nat}
    (hb : s.stats.currentBytes + total < sizeModulus)
    (hn : s.stats.totalAllocations + 1 < sizeModulus) :
    Counted done ((s.pushBlock a total).setStats (s.stats.allocated total)) (a :: l) := by
  have hsum : (l.map (s.pushBlock a total).sizeOf).sum = (l.map s.sizeOf).sum := by
    congr 1
    apply List.map_congr_left
    intro y hy
    exact sizeOf_pushBlock s a total y (fun he ↦ hal (he ▸ hy))
  have hself : (s.pushBlock a total).sizeOf a = total := by
    simp [MSState.pushBlock, MSState.sizeOf]
  have hcur : (s.stats.allocated total).currentBytes = s.stats.currentBytes + total :=
    addSize_eq hb
  have htot : (s.stats.allocated total).totalAllocations = s.stats.totalAllocations + 1 :=
    addSize_eq hn
  have hpk : (s.stats.allocated total).peakBytes =
      if s.stats.peakBytes < s.stats.currentBytes + total then s.stats.currentBytes + total
      else s.stats.peakBytes := by
    simp only [AllocatorStats.allocated, addSize_eq hb]
  refine ⟨?_, List.mem_cons_self, ?_, ⟨by rw [← hcur] at hb; exact hb, by rw [← htot] at hn; exact hn⟩, ?_⟩
  · change (s.stats.allocated total).currentBytes =
      ((a :: l).map (s.pushBlock a total).sizeOf).sum
    rw [hcur, List.map_cons, List.sum_cons, hself, hsum, h.bytes]
    omega
  · change IsGreatest {b | b ∈ (s.stats.allocated total).currentBytes :: s.bytesSeen}
      (s.stats.allocated total).peakBytes
    rw [hcur, hpk]
    split
    · next hlt =>
      refine ⟨List.mem_cons_self, ?_⟩
      intro b hbm
      rcases List.mem_cons.mp hbm with rfl | hbm
      · exact le_rfl
      · exact (h.peak.2 hbm).trans hlt.le
    · next hlt => exact peak_cons h.peak (by omega)
  · change (s.stats.allocated total).totalAllocations = _ + s.stats.totalCollections + _
    rw [htot, h.allocations, List.length_cons]
    omega

/-! ### Runs -/

/-- `P done` holds of the state and the list that the calls `done` lead to; every effect of a
further call that meets `Q` keeps it. -/
structure Preserved (Q : MSState → MSOp → Prop) (P : List MSOp → MSState → List Nat → Prop) :
    Prop where
  held : ∀ {done s l}, P done s l → Held done s l
  marks : ∀ {done s l}, P done s l → ∀ m, P done (s.setMarks m) l
  sweep : ∀ {done s l₁ l₂ x}, P done s (l₁ ++ x :: l₂) → P done (s.sweepBlock x) (l₁ ++ l₂)
  push : ∀ {done s l a size c}, P done s l → a ∉ s.live → a + msHeaderSize < sizeModulus →
    Q s (.alloc size (some a) c) →
    P (done ++ [.alloc size (some a) c])
      ((s.pushBlock a (addSize msHeaderSize size)).setStats
        (s.stats.allocated (addSize msHeaderSize size))) (a :: l)
  dealloc : ∀ {done s l₁ l₂ x ptr}, P done s (l₁ ++ x :: l₂) → ptr ≠ 0 →
    P (done ++ [.dealloc ptr]) (s.deallocBlock x) (l₁ ++ l₂)
  threshold : ∀ {done s l}, P done s l → ∀ n, P done (msSetGcThreshold s n) l
  root : ∀ {done s l}, P done s l → ∀ ptr,
    P (done ++ [.registerRoot ptr]) { s with roots := s.roots ++ [ptr] } l
  idle : ∀ {done s l op}, P done s l → op.isDealloc = false → op.granted = none →
    op.isRegisterRoot = false → P (done ++ [op]) s l

variable {Q : MSState → MSOp → Prop} {P : List MSOp → MSState → List Nat → Prop}

/-- A collection returns and keeps a preserved property. -/
theorem Preserved.collectGarbage (hp : Preserved Q P) (c : Contents) (h : P done s l) :
    ∃ s' l', collectGarbage c s = .ok s' ∧ P done s' l' := by
  obtain ⟨m, hr, -⟩ := collectGarbage_eq c (hp.held h).listed
  exact ⟨_, _, hr, sweepBlocks_induct [] hp.sweep (hp.marks h m)⟩

/-- An allowed call returns and keeps a preserved property, unless it registers a root past
`MAX_ROOTS`. -/
theorem Preserved.perform (hp : Preserved Q P) (h : P done s l) (ha : op.Allowed s)
    (hq : Q s op) :
    (∃ s' l', op.perform s = .ok s' ∧ P (done ++ [op]) s' l') ∨
      op.perform s = .error .exited ∧ maxRoots ≤ s.roots.length ∧ ∃ ptr, op = .registerRoot ptr := by
  have hh := hp.held h
  cases op with
  | alloc size granted c =>
    left
    cases granted with
    | none => exact ⟨s, l, rfl, hp.idle h rfl rfl rfl⟩
    | some a =>
      obtain ⟨hfresh, hrange⟩ := ha
      have hpush := hp.push h hfresh hrange hq
      have hrun := msAlloc_granted c hh.listed hfresh size
      simp only at hrun
      split at hrun
      · obtain ⟨s', l', hc, hp'⟩ := hp.collectGarbage c hpush
        exact ⟨s', l', hrun.trans hc, hp'⟩
      · exact ⟨_, _, hrun, hpush⟩
  | dealloc ptr =>
    left
    by_cases hz : ptr = 0
    · subst hz
      exact ⟨s, l, rfl, hp.idle h rfl rfl rfl⟩
    · obtain ⟨a, hal, rfl⟩ := ha.resolve_left hz
      obtain ⟨l₁, l₂, rfl⟩ := List.append_of_mem (hh.perm.mem_iff.mp hal)
      have hrun := msDealloc_eq hh.listed (hh.inRange a (by simp))
      exact ⟨s.deallocBlock a, l₁ ++ l₂, hrun, hp.dealloc h hz⟩
  | gc c =>
    obtain ⟨s', l', hc, hp'⟩ := hp.collectGarbage c h
    exact .inl ⟨s', l', hc, hp.idle hp' rfl rfl rfl⟩
  | setGcThreshold n => exact .inl ⟨_, l, rfl, hp.idle (hp.threshold h n) rfl rfl rfl⟩
  | registerRoot ptr =>
    by_cases hr : s.roots.length ≥ maxRoots
    · exact .inr ⟨if_pos hr, hr, ptr, rfl⟩
    · exact .inl ⟨_, l, if_neg hr, hp.root h ptr⟩

/-- The record of held blocks is preserved by every call. -/
theorem held_preserved : Preserved (fun _ _ ↦ True) Held where
  held := id
  marks := Held.setMarks
  sweep := Held.sweepBlock
  push := fun h hf hr _ ↦ (h.pushBlock hf hr _ rfl rfl).setStats _
  dealloc := fun h _ ↦ h.deallocBlock.idle rfl rfl
  threshold := fun h _ ↦ ⟨h.listed.of_links (fun _ ↦ rfl) (fun _ ↦ rfl) rfl rfl, h.perm,
    h.inRange, h.replayed, h.grants, h.rooted⟩
  root := fun h _ ↦ ⟨h.listed.of_links (fun _ ↦ rfl) (fun _ ↦ rfl) rfl rfl, h.perm,
    h.inRange, h.replayed, by simp [h.grants, MSOp.granted],
    by simp [h.rooted, MSOp.isRegisterRoot]⟩
  idle := fun h _ hg hr ↦ h.idle hg hr

/-- The statistics are kept in step by every call without wrap-around. -/
theorem counted_preserved :
    Preserved MSOp.Bounded (fun done s l ↦ Held done s l ∧ Counted done s l) where
  held := And.left
  marks := fun h m ↦ ⟨h.1.setMarks m, h.2.setMarks m⟩
  sweep := fun h ↦ ⟨h.1.sweepBlock, h.2.sweepBlock⟩
  push := by
    intro done s l a size c h hf hr hq
    obtain ⟨h₁, h₂, h₃⟩ := hq
    have ht : addSize msHeaderSize size = msHeaderSize + size := addSize_eq h₁
    refine ⟨held_preserved.push h.1 hf hr trivial, ?_⟩
    exact (h.2.pushBlock (fun hm ↦ hf (h.1.listed.live a hm)) (by rw [ht]; exact h₂) h₃).idle rfl
  dealloc := fun h hz ↦ ⟨held_preserved.dealloc h.1 hz,
    h.2.deallocBlock (by simp [MSOp.isDealloc, hz])⟩
  threshold := fun h n ↦ ⟨held_preserved.threshold h.1 n, h.2.bytes, h.2.seen, h.2.peak,
    h.2.noWrap, h.2.allocations⟩
  root := fun h ptr ↦ ⟨held_preserved.root h.1 ptr, Counted.idle ⟨h.2.bytes, h.2.seen, h.2.peak,
    h.2.noWrap, h.2.allocations⟩ rfl⟩
  idle := fun h hd hg hr ↦ ⟨h.1.idle hg hr, h.2.idle hd⟩

/-- The state after `ms_init` holds nothing. -/
theorem msInit_held (frame : Nat) : Held [] (msInit MSState.boot frame) [] :=
  ⟨⟨⟨rfl, trivial, List.nodup_nil⟩, by simp⟩, .refl _, by simp, rfl, rfl, rfl⟩

/-- The state after `ms_init` has counted nothing. -/
theorem msInit_counted (frame : Nat) : Counted [] (msInit MSState.boot frame) [] := by
  refine ⟨rfl, List.mem_cons_self, ⟨List.mem_cons_self, ?_⟩, ?_, rfl⟩
  · intro b hb
    have hz : b = 0 := by
      simpa [msInit, MSState.setStats, MSState.boot, AllocatorStats.zero] using hb
    exact hz.le
  · change 0 < sizeModulus ∧ 0 < sizeModulus
    decide

/-- Bookkeeping over whole runs: every sequence of allowed calls after `ms_init` that
reaches no wrap-around and no root limit returns, and in the state it reaches
`allocation_list` is a doubly linked list without repetition of exactly the blocks that were
granted and not freed, `current_bytes` is the sum of their sizes, `peak_bytes` is the largest
value `current_bytes` has had, and `total_allocations` counts the live, collected and
explicitly deallocated blocks. -/
theorem mark_sweep_bookkeeping (frame : Nat) (ops : List MSOp)
    (h : AllAllowed MSOp.perform (fun s op ↦ op.Allowed s ∧ op.Bounded s)
      (msInit MSState.boot frame) ops) :
    ∃ s l, runAll MSOp.perform (msInit MSState.boot frame) ops = .ok s ∧
      IsDList s.nextOf s.prevOf s.allocationList l ∧
      (∀ a, s.allocationList = some a → s.prevOf a = none) ∧
      (∀ a ∈ l, ∀ b ∈ l, s.nextOf a = some b ↔ s.prevOf b = some a) ∧
      s.events.filterMap HeapEvent.granted = ops.filterMap MSOp.granted ∧
      (∃ held, replay s.events [] = some held ∧ held.Perm l) ∧
      s.stats.currentBytes = (l.map s.sizeOf).sum ∧
      IsGreatest {b | b ∈ s.bytesSeen} s.stats.peakBytes ∧
      s.stats.totalAllocations =
        l.length + s.stats.totalCollections + ops.countP MSOp.isDealloc := by
  have hrun := runAll_keeps (fun done s ↦ ∃ l, Held done s l ∧ Counted done s l)
    (fun _ _ _ ↦ False) ?_ ⟨[], msInit_held frame, msInit_counted frame⟩ ops h
  · obtain ⟨s, hs, l, hh, hc⟩ := hrun.resolve_right (by simp)
    have hd := hh.listed.dlist
    refine ⟨s, l, hs, hd, ?_, ?_, hh.grants, ⟨s.live, hh.replayed, hh.perm⟩, hc.bytes, hc.peak,
      hc.allocations⟩
    · intro a ha
      cases l with
      | nil => simp [hd.head_eq] at ha
      | cons b l =>
        obtain rfl : b = a := by simpa [hd.head_eq] using ha
        exact hd.linked.1
    · intro a ha b hb
      exact hd.linked.next_iff_prev ha hb
  · rintro done s op ⟨l, hinv⟩ ⟨ha, hb⟩
    rcases counted_preserved.perform hinv ha hb with ⟨s', l', hs, hp⟩ | ⟨-, hfull, ptr, rfl⟩
    · exact .inl ⟨s', hs, l', hp⟩
    · exact absurd hb (Nat.not_lt.mpr hfull)

/-- Memory with the same word in every cell, and one stack cell. -/
private def uniformContents (word : Nat) : Contents := ⟨fun _ ↦ word, 8000⟩

/-- Two blocks are allocated, one is collected and the other deallocated. -/
private def sampleCalls : List MSOp :=
  [.registerRoot 500, .alloc 8 (some 1000) (uniformContents 0),
   .alloc 16 (some 2000) (uniformContents 0), .gc (uniformContents 2032),
   .alloc 8 none (uniformContents 0), .setGcThreshold 40, .dealloc 2032]

theorem mark_sweep_bookkeeping_sample :
    ∃ s l, runAll MSOp.perform (msInit MSState.boot 8008) sampleCalls = .ok s ∧
      IsDList s.nextOf s.prevOf s.allocationList l ∧
      s.stats.totalAllocations = l.length + s.stats.totalCollections + 1 := by
  obtain ⟨s, l, hrun, hd, -, -, -, -, -, -, htotal⟩ :=
    mark_sweep_bookkeeping 8008 sampleCalls (by decide +kernel)
  exact ⟨s, l, hrun, hd, htotal⟩

/-! ### Shutdown -/

/-- The shutdown loop frees the listed blocks one after the other and nothing else. It reads
only the `next` links, so what it leaves behind need not be a doubly linked list. -/
theorem shutdownLoop_frees {before : Option Nat} {fuel : Nat}
    (hl : Linked s.nextOf s.prevOf before l) (hhead : s.allocationList = l.head?)
    (hp : s.live.Perm l) (hr : replay s.events [] = some s.live) (hf : l.length ≤ fuel) :
    ∃ s', shutdownLoop s fuel = .ok s' ∧ s'.allocationList = none ∧
      replay s'.events [] = some [] ∧
      s'.events.filterMap HeapEvent.granted = s.events.filterMap HeapEvent.granted := by
  induction l generalizing s before fuel with
  | nil =>
    have hlive : s.live = [] := hp.eq_nil
    refine ⟨s, ?_, hhead, hlive ▸ hr, rfl⟩
    cases fuel <;> simp [shutdownLoop, hhead]
  | cons a l ih =>
    obtain ⟨fuel, rfl⟩ : ∃ n, fuel = n + 1 := ⟨fuel - 1, by simp at hf; omega⟩
    have ha : a ∈ s.live := hp.mem_iff.mpr (by simp)
    let s₁ : MSState := { s.dropBlock a with allocationList := s.nextOf a }
    have hloop : shutdownLoop s (fuel + 1) = shutdownLoop s₁ fuel := by
      simp [shutdownLoop, hhead, getHeader_live ha, free_live ha, bind, Except.bind, s₁,
        MSState.dropBlock, MSState.nextOf]
    have hp₁ : s₁.live.Perm l := by
      have he := hp.erase a
      rwa [List.erase_cons_head] at he
    have hr₁ : replay s₁.events [] = some s₁.live := by
      simp [s₁, MSState.dropBlock, replay_append, hr, replay, ha]
    obtain ⟨s', hs', hnone, hreplay, hgrants⟩ :=
      ih (s := s₁) hl.2.2 hl.2.1 hp₁ hr₁ (by simpa using hf)
    refine ⟨s', hloop.trans hs', hnone, hreplay, hgrants.trans ?_⟩
    simp [s₁, MSState.dropBlock, HeapEvent.granted]

/-- Every block is released exactly once: after any sequence of allowed calls from `ms_init`,
`ms_shutdown` returns with an empty `allocation_list`, and in the record of heap calls each
block granted to `ms_alloc` is freed once after its grant and none is freed otherwise. No call
touches a freed header, for that would be a fault. The run ends early only by the `exit` of a
root registered past `MAX_ROOTS`. -/
theorem mark_sweep_releases_once (frame : Nat) (ops : List MSOp) (c : Contents)
    (h : AllAllowed MSOp.perform (fun s op ↦ op.Allowed s) (msInit MSState.boot frame) ops) :
    (∃ s s', runAll MSOp.perform (msInit MSState.boot frame) ops = .ok s ∧
      msShutdown c s = .ok s' ∧ s'.allocationList = none ∧
      s'.events.filterMap HeapEvent.granted = ops.filterMap MSOp.granted ∧
      replay s'.events [] = some []) ∨
    runAll MSOp.perform (msInit MSState.boot frame) ops = .error .exited ∧
      maxRoots < ops.countP MSOp.isRegisterRoot := by
  have hrun := runAll_keeps (fun done s ↦ ∃ l, Held done s l)
    (fun done op e ↦ e = .exited ∧ maxRoots ≤ done.countP MSOp.isRegisterRoot ∧
      op.isRegisterRoot = true) ?_ ⟨[], msInit_held frame⟩ ops h
  · rcases hrun with ⟨s, hs, l, hh⟩ | ⟨pre, op, post, e, rfl, hs, rfl, hfull, hop⟩
    · left
      obtain ⟨s₁, l₁, hc, hh₁⟩ := held_preserved.collectGarbage c hh
      have hlen : l₁.length ≤ s₁.bound := by
        have := hh₁.perm.length_eq
        simp only [MSState.bound]
        omega
      obtain ⟨s', hs', hnone, hreplay, hgrants⟩ := shutdownLoop_frees hh₁.listed.dlist.linked
        hh₁.listed.dlist.head_eq hh₁.perm hh₁.replayed hlen
      refine ⟨s, s', hs, ?_, hnone, hgrants.trans hh₁.grants, hreplay⟩
      simp only [msShutdown, hc, bind, Except.bind, hs']
    · right
      refine ⟨hs, ?_⟩
      simp only [List.countP_append, List.countP_cons, hop, if_true]
      omega
  · rintro done s op ⟨l, hinv⟩ ha
    rcases held_preserved.perform hinv ha trivial with ⟨s', l', hs, hp⟩ | ⟨he, hfull, ptr, rfl⟩
    · exact .inl ⟨s', hs, l', hp⟩
    · exact .inr ⟨_, he, rfl, hinv.rooted ▸ hfull, rfl⟩

theorem mark_sweep_releases_once_sample :
    (∃ s s', runAll MSOp.perform (msInit MSState.boot 8008) (sampleCalls.take 4) = .ok s ∧
      msShutdown (uniformContents 2032) s = .ok s' ∧ s'.allocationList = none ∧
      s'.events.filterMap HeapEvent.granted = [1000, 2000] ∧ replay s'.events [] = some []) := by
  have h := mark_sweep_releases_once 8008 (sampleCalls.take 4) (uniformContents 2032)
    (by decide +kernel)
  exact h.resolve_right (fun hx ↦ absurd hx.2 (by decide +kernel))

/-! ### Fresh blocks -/

/-- A collection right after the grant of a block gets to it: from a word of the stack or of a
root, through the blocks it marks. -/
def ReachesFresh (c : Contents) (s : MSState) (l : List Nat) (a size : Nat) : Prop :=
  let s₁ := s.pushBlock a (addSize msHeaderSize size)
  ∃ b ∈ hits s₁ (a :: l) (rootWords c s₁), Relation.ReflTransGen (scanEdge c s₁ (a :: l)) b a

/-- Every run of the allocator holds its blocks, or ends at a root past `MAX_ROOTS`. -/
theorem runAll_held (frame : Nat) {ops : List MSOp}
    (h : AllAllowed MSOp.perform (fun s op ↦ op.Allowed s) (msInit .boot frame) ops) :
    (∃ s l, runAll MSOp.perform (msInit .boot frame) ops = .ok s ∧ Held ops s l ∧
      ops.countP MSOp.isRegisterRoot ≤ maxRoots) ∨
    runAll MSOp.perform (msInit .boot frame) ops = .error .exited ∧
      maxRoots < ops.countP MSOp.isRegisterRoot := by
  have hrun := runAll_keeps
    (fun done s ↦ ∃ l, Held done s l ∧ done.countP MSOp.isRegisterRoot ≤ maxRoots)
    (fun done op e ↦ e = .exited ∧ maxRoots < (done ++ [op]).countP MSOp.isRegisterRoot) ?_
    ⟨[], msInit_held frame, Nat.zero_le _⟩ ops h
  · rcases hrun with ⟨s, hs, l, hheld, hroots⟩ | ⟨pre, op, post, e, rfl, hs, rfl, hfull⟩
    · exact .inl ⟨s, l, hs, hheld, hroots⟩
    · refine .inr ⟨hs, Nat.lt_of_lt_of_le hfull ?_⟩
      exact (((List.nil_sublist post).cons_cons op).append_left pre).countP_le
  · rintro done s op ⟨l, hheld, hroots⟩ hallowed
    rcases held_preserved.perform hheld hallowed trivial with ⟨s', l', hs, hheld'⟩ | ⟨he, hfull, ptr, rfl⟩
    · refine .inl ⟨s', hs, l', hheld', ?_⟩
      rw [List.countP_append]
      cases op with
      | registerRoot ptr =>
        have hroom : ¬ s.roots.length ≥ maxRoots := fun hfull ↦ by
          rw [MSOp.perform, msRegisterRoot, if_pos hfull] at hs
          cases hs
        rw [hheld.rooted] at hroom
        exact Nat.lt_of_not_ge hroom
      | _ => exact hroots
    · refine .inr ⟨_, he, rfl, ?_⟩
      rw [List.countP_append, ← hheld.rooted]
      exact Nat.lt_succ_of_le hfull

/-- A reachable state holds its blocks. -/
theorem held_of_run {frame : Nat} {ops : List MSOp}
    (h : AllAllowed MSOp.perform (fun s op ↦ op.Allowed s) (msInit MSState.boot frame) ops)
    (hrun : runAll MSOp.perform (msInit MSState.boot frame) ops = .ok s) :
    ∃ l, Held ops s l := by
  rcases runAll_held frame h with ⟨t, l, ht, hheld, -⟩ | ⟨he, -⟩
  · cases hrun.symm.trans ht
    exact ⟨l, hheld⟩
  · cases hrun.symm.trans he

/-- The pointer that `ms_alloc` returns for a granted block. -/
theorem msAlloc_of_fst {c : Contents} {s' : MSState} {size : Nat}
    (h : (msAlloc c s size (some a)).map Prod.fst = .ok s') :
    msAlloc c s size (some a) = .ok (s', some (payloadStart a)) := by
  have hsnd : ∀ r, msAlloc c s size (some a) = .ok r → r.2 = some (payloadStart a) := by
    intro r hr
    obtain ⟨_, _, hr⟩ := bind_eq_ok.mp hr
    obtain ⟨_, _, hr⟩ := bind_eq_ok.mp hr
    simp only at hr
    split at hr <;> (obtain ⟨_, _, hr⟩ := bind_eq_ok.mp hr; cases hr; rfl)
  cases hrun : msAlloc c s size (some a) with
  | error e =>
    rw [hrun] at h
    cases h
  | ok r =>
    rw [hrun] at h
    cases h
    exact congrArg Except.ok (Prod.ext rfl (hsnd r hrun))

/-- What `ms_alloc` returns for a granted block, and the list it leaves. -/
theorem msAlloc_listed (c : Contents) (h : Listed s l) (ha : a ∉ s.live) (size : Nat) :
    ∃ s' l', msAlloc c s size (some a) = .ok (s', some (payloadStart a)) ∧ Listed s' l' ∧
      l' ⊆ a :: l ∧ (a ∈ l' ↔
        (s.gcThreshold < (s.stats.allocated (addSize msHeaderSize size)).currentBytes →
          ReachesFresh c s l a size)) := by
  have hpush := (h.pushBlock ha (addSize msHeaderSize size)).setStats
    (s.stats.allocated (addSize msHeaderSize size))
  have hfst := msAlloc_granted c h ha size
  simp only at hfst
  split at hfst
  · next hgc =>
    obtain ⟨m, hcollect, hm⟩ := collectGarbage_eq c hpush
    refine ⟨_, _, msAlloc_of_fst (hfst.trans hcollect), (hpush.setMarks m).sweepBlocks,
      fun _ hx ↦ List.mem_of_mem_filter hx, ?_⟩
    rw [List.mem_filter]
    constructor
    · intro hmem _
      exact (hm a List.mem_cons_self).mp hmem.2
    · intro hreach
      exact ⟨List.mem_cons_self, (hm a List.mem_cons_self).mpr (hreach hgc)⟩
  · next hgc =>
    exact ⟨_, _, msAlloc_of_fst hfst, hpush, List.Subset.refl _,
      iff_of_true List.mem_cons_self fun h ↦ absurd h hgc⟩

/-- In every reachable state, the pointer that `ms_alloc` returns leads to a listed block exactly
if no collection runs or the collection gets to the new block. -/
theorem fresh_block_listed_iff (frame : Nat) (ops : List MSOp)
    (h : AllAllowed MSOp.perform (fun s op ↦ op.Allowed s) (msInit MSState.boot frame) ops)
    (hrun : runAll MSOp.perform (msInit MSState.boot frame) ops = .ok s) (c : Contents)
    (size : Nat) (ha : (MSOp.alloc size (some a) c).Allowed s) :
    ∃ l s' l', Listed s l ∧ msAlloc c s size (some a) = .ok (s', some (payloadStart a)) ∧
      payloadStart a ≠ 0 ∧ Listed s' l' ∧
      ((∃ b ∈ l', payloadStart b = payloadStart a) ↔
        (s.gcThreshold < (s.stats.allocated (addSize msHeaderSize size)).currentBytes →
          ReachesFresh c s l a size)) := by
  obtain ⟨l, hh⟩ := held_of_run h hrun
  obtain ⟨s', l', hs', hl', hsub, hiff⟩ := msAlloc_listed c hh.listed ha.1 size
  have hstart : ∀ {b}, b + msHeaderSize < sizeModulus → payloadStart b = b + msHeaderSize :=
    fun hb ↦ addSize_eq hb
  refine ⟨l, s', l', hh.listed, hs', ?_, hl', ?_⟩
  · rw [hstart ha.2, msHeaderSize]
    omega
  · rw [← hiff]
    constructor
    · rintro ⟨b, hb, heq⟩
      rcases List.mem_cons.mp (hsub hb) with rfl | hbl
      · exact hb
      · rw [hstart (hh.inRange b hbl), hstart ha.2] at heq
        obtain rfl : b = a := by omega
        exact hb
    · intro hmem
      exact ⟨a, hmem, rfl⟩

theorem fresh_block_listed_iff_threshold :
    ∃ l s' l', Listed (msSetGcThreshold (msInit MSState.boot 8008) 40) l ∧
      msAlloc (uniformContents 1032) (msSetGcThreshold (msInit MSState.boot 8008) 40) 16
        (some 1000) = .ok (s', some 1032) ∧ Listed s' l' ∧
      ((∃ b ∈ l', payloadStart b = 1032) ↔
        (40 < 48 → ReachesFresh (uniformContents 1032)
          (msSetGcThreshold (msInit MSState.boot 8008) 40) l 1000 16)) := by
  obtain ⟨l, s', l', hl, hs', -, hl', hiff⟩ := fresh_block_listed_iff 8008 [.setGcThreshold 40]
    (by decide +kernel) rfl (uniformContents 1032) 16 (a := 1000) (by decide +kernel)
  exact ⟨l, s', l', hl, hs', hl', hiff⟩

/-- A block above the threshold that nothing points to yet is freed before it is returned. -/
theorem fresh_block_collected :
    (msAlloc (uniformContents 0) (msInit MSState.boot 8008) (1024 * 1024) (some 4096)).map
      (fun r ↦ (r.1.allocationList, r.1.live, r.2)) = .ok (none, [], some 4128) := by
  decide +kernel

end JBLang.Runtime
