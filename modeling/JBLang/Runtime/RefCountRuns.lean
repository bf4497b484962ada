import JBLang.Base.RefCounting
import JBLang.Base.Runs
import JBLang.Runtime.RefCount

/-!
# Runs of the reference-count allocator

Whole runs of programs that release only references they hold. While `dec_ref_count` cascades,
the blocks under release are still in the C heap but no longer counted; what they own and is
not yet released counts as references from outside. With that reading the counts are balanced
in the middle of every nested release, which is the invariant behind termination and safety.
-/

namespace JBLang.Runtime

open JBLang.Base

namespace RCState

/-- The count field of each block. -/
def countOf (s : RCState) (a : Nat) : Int := (s.header a).count

/-- The blocks in `to_free[0..idx)` of each block. -/
def ownedOf (s : RCState) (a : Nat) : List Nat := (s.header a).toFree.map (rcHeaderOf · 0)

/-- The size field of each block. -/
def sizeOf (s : RCState) (a : Nat) : Nat := (s.header a).size

/-- The state with another count in one header. -/
def setCount (s : RCState) (a : Nat) (count : Int) : RCState :=
  { s with header := Function.update s.header a ((s.header a).setCount count) }

/-- The state with a block in the heap whose header has just been written. -/
def addBlock (s : RCState) (a size : Nat) : RCState where
  stats := s.stats.allocated size
  live := a :: s.live
  header := Function.update s.header a (.fresh size)

/-- The state with a pointer offered to the list of an owner. -/
def addOwned (s : RCState) (o ptr : Nat) : RCState :=
  { s with header := Function.update s.header o ((s.header o).addToFree ptr) }

/-- The state after the last statements of a release. -/
def releaseBlock (s : RCState) (a : Nat) : RCState :=
  { s with
    stats := s.stats.collected.released (s.sizeOf a)
    live := s.live.erase a }

end RCState

variable {s : RCState} {a b ptr fuel : Nat} {releasing rest l : List Nat} {refs : Nat → Nat}

/-! ### Effects -/

theorem setCount_countOf (s : RCState) (a : Nat) (c : Int) :
    (s.setCount a c).countOf = Function.update s.countOf a c :=
  Function.comp_update RefcountHeader.count s.header a _

theorem setCount_toFree (s : RCState) (a x : Nat) (c : Int) :
    ((s.setCount a c).header x).toFree = (s.header x).toFree :=
  congrFun ((Function.comp_update RefcountHeader.toFree s.header a
    ((s.header a).setCount c)).trans (Function.update_eq_self a _)) x

theorem setCount_sizeOf (s : RCState) (a : Nat) (c : Int) :
    (s.setCount a c).sizeOf = s.sizeOf :=
  (Function.comp_update RefcountHeader.size s.header a _).trans (Function.update_eq_self a _)

theorem addToFree_count (h : RefcountHeader) (ptr : Nat) : (h.addToFree ptr).count = h.count := by
  unfold RefcountHeader.addToFree
  split <;> rfl

theorem addToFree_size (h : RefcountHeader) (ptr : Nat) : (h.addToFree ptr).size = h.size := by
  unfold RefcountHeader.addToFree
  split <;> rfl

theorem addOwned_countOf (s : RCState) (o ptr : Nat) : (s.addOwned o ptr).countOf = s.countOf := by
  refine (Function.comp_update RefcountHeader.count s.header o _).trans ?_
  rw [addToFree_count]
  exact Function.update_eq_self o _

theorem addOwned_sizeOf (s : RCState) (o ptr : Nat) : (s.addOwned o ptr).sizeOf = s.sizeOf := by
  refine (Function.comp_update RefcountHeader.size s.header o _).trans ?_
  rw [addToFree_size]
  exact Function.update_eq_self o _

theorem addOwned_ownedOf {o : Nat} (h : (s.header o).idx < toFreeSlots)
    (hp : rcHeaderOf ptr 0 = b) :
    (s.addOwned o ptr).ownedOf = Function.update s.ownedOf o (s.ownedOf o ++ [b]) := by
  funext x
  by_cases hx : x = o
  · subst hx
    simp [RCState.addOwned, RCState.ownedOf, RefcountHeader.addToFree, h, hp]
  · simp [RCState.addOwned, RCState.ownedOf, hx]

/-- A full owner is left alone. -/
theorem addOwned_full {o : Nat} (h : ¬(s.header o).idx < toFreeSlots) :
    s.addOwned o ptr = s := by
  simp [RCState.addOwned, RefcountHeader.addToFree, h]

theorem addOwned_toFree (s : RCState) (o ptr x : Nat) : ((s.addOwned o ptr).header x).toFree =
    if x = o ∧ (s.header o).idx < toFreeSlots then (s.header o).toFree ++ [ptr]
    else (s.header x).toFree := by
  by_cases hx : x = o
  · subst hx
    simp only [RCState.addOwned, Function.update_self, RefcountHeader.addToFree, true_and]
    split <;> rfl
  · simp [RCState.addOwned, hx]

theorem addBlock_countOf (s : RCState) (a size : Nat) :
    (s.addBlock a size).countOf = Function.update s.countOf a 1 :=
  Function.comp_update RefcountHeader.count s.header a _

theorem addBlock_ownedOf (s : RCState) (a size : Nat) :
    (s.addBlock a size).ownedOf = Function.update s.ownedOf a [] :=
  Function.comp_update (fun h : RefcountHeader ↦ h.toFree.map (rcHeaderOf · 0)) s.header a _

/-- What blocks own depends on the stored entries alone. -/
theorem ownedOf_congr {s' : RCState} (h : ∀ x, (s'.header x).toFree = (s.header x).toFree) :
    s'.ownedOf = s.ownedOf := by
  funext x
  simp [RCState.ownedOf, h]

/-- `NULL` lies above no header with room for its payload. -/
theorem ne_null_of_header (hp : rcHeaderOf ptr 0 = b) (h : b + rcHeaderSize < sizeModulus) :
    ptr ≠ 0 := by
  rintro rfl
  subst hp
  exact absurd h (by decide)

/-- One call of `dec_ref_count` on a live block, with the release spelled out. -/
theorem decRefCountNested_live (hp : rcHeaderOf ptr 0 = b) (hne : ptr ≠ 0) (hl : b ∈ s.live) :
    decRefCountNested (fuel + 1) s ptr 0 =
      if s.countOf b = 1 then do
        let s ← releaseOwned (fun s ptr ↦ decRefCountNested fuel s ptr 0) b
          (List.range toFreeSlots) (s.setCount b 0)
        if b ∈ s.live then pure (s.releaseBlock b) else .error (.badAccess b)
      else .ok (s.setCount b (s.countOf b - 1)) := by
  rw [decRefCountNested, if_neg hne]
  simp only [hp, RCState.getHeader, RCState.setHeader, if_pos hl, bind, Except.bind]
  by_cases hc : s.countOf b = 1
  · have hz : (s.header b).count - 1 = 0 := by
      have : (s.header b).count = 1 := hc
      omega
    rw [if_pos hc, if_pos hz, hz]
    simp only [RCState.setCount]
    generalize releaseOwned _ _ _ _ = released
    cases released with
    | error e => rfl
    | ok t =>
      by_cases ht : b ∈ t.live
      · simp only [if_pos ht, RCState.free]
        rfl
      · simp only [if_neg ht]
  · have hz : ¬(s.header b).count - 1 = 0 := by
      have : (s.header b).count ≠ 1 := hc
      omega
    rw [if_neg hc, if_neg hz]
    rfl

/-! ### Statistics -/

/-- The statistics agree with the live blocks, as `size_t` values. -/
structure Tallied (s : RCState) : Prop where
  bytes : s.stats.currentBytes = (s.live.map s.sizeOf).sum % sizeModulus
  blocks : s.stats.totalAllocations = (s.live.length + s.stats.totalCollections) % sizeModulus

private theorem subSize_add_mod (size total : Nat) :
    subSize ((size + total) % sizeModulus) size = total % sizeModulus := by
  have hr : size % sizeModulus < sizeModulus := Nat.mod_lt _ (by decide)
  have hd := Nat.div_add_mod size sizeModulus
  have hsum : size + total + (sizeModulus - size % sizeModulus) =
      total + sizeModulus * (size / sizeModulus + 1) := by
    rw [Nat.mul_add]
    omega
  unfold subSize
  rw [Nat.mod_add_mod, hsum, Nat.add_mul_mod_self_left]

/-- The statistics stay in step when a block is released. -/
theorem Tallied.releaseBlock (h : Tallied s) (ha : a ∈ s.live) : Tallied (s.releaseBlock a) := by
  have hp := List.perm_cons_erase ha
  constructor
  · have hsum : (s.live.map s.sizeOf).sum = s.sizeOf a + ((s.live.erase a).map s.sizeOf).sum := by
      rw [(hp.map s.sizeOf).sum_eq, List.map_cons, List.sum_cons]
    change subSize s.stats.currentBytes (s.sizeOf a) = _
    rw [h.bytes, hsum]
    exact subSize_add_mod _ _
  · have hlen : s.live.length = (s.live.erase a).length + 1 := hp.length_eq
    change s.stats.totalAllocations =
      ((s.live.erase a).length + addSize s.stats.totalCollections 1) % sizeModulus
    rw [h.blocks, hlen, addSize, Nat.add_mod_mod]
    congr 1
    omega

/-- The statistics stay in step when a block is added. -/
theorem Tallied.addBlock (h : Tallied s) (ha : a ∉ s.live) (size : Nat) :
    Tallied (s.addBlock a size) := by
  have hsame : s.live.map (s.addBlock a size).sizeOf = s.live.map s.sizeOf := by
    apply List.map_congr_left
    intro x hx
    have hne : x ≠ a := fun he ↦ ha (he ▸ hx)
    simp [RCState.addBlock, RCState.sizeOf, hne]
  have hself : (s.addBlock a size).sizeOf a = size := by
    simp [RCState.addBlock, RCState.sizeOf, RefcountHeader.fresh]
  constructor
  · change addSize s.stats.currentBytes size =
      ((a :: s.live).map (s.addBlock a size).sizeOf).sum % sizeModulus
    rw [List.map_cons, List.sum_cons, hself, hsame, h.bytes, addSize, Nat.mod_add_mod,
      Nat.add_comm]
  · change addSize s.stats.totalAllocations 1 =
      ((a :: s.live).length + s.stats.totalCollections) % sizeModulus
    rw [h.blocks, addSize, Nat.mod_add_mod, List.length_cons]
    congr 1
    omega

/-- Only sizes and the list of live blocks matter for the statistics. -/
theorem Tallied.congr {s' : RCState} (h : Tallied s) (hst : s'.stats = s.stats)
    (hl : s'.live = s.live) (hs : s'.sizeOf = s.sizeOf) : Tallied s' := by
  constructor
  · rw [hst, hl, hs]
    exact h.bytes
  · rw [hst, hl]
    exact h.blocks

/-- Counts play no part in the statistics. -/
theorem Tallied.setCount (h : Tallied s) (a : Nat) (c : Int) : Tallied (s.setCount a c) :=
  h.congr rfl rfl (setCount_sizeOf s a c)

/-! ### Releases -/

/-- The middle of a cascade: the blocks `releasing` are at count 0 and not yet freed, the
blocks `l` are balanced, with `refs` references to them from outside. -/
structure Releasing (releasing l : List Nat) (refs : Nat → Nat) (s : RCState) : Prop where
  live : s.live.Perm (releasing ++ l)
  balanced : Balanced l s.countOf s.ownedOf refs
  inRange : ∀ a ∈ l, a + rcHeaderSize < sizeModulus
  tallied : Tallied s

namespace Releasing

/-- A block that is referred to from outside is in the C heap. -/
theorem mem_live_of_refs (h : Releasing releasing l refs s) (hr : 0 < refs b) : b ∈ s.live :=
  h.live.mem_iff.mpr (List.mem_append_right _ (h.balanced.mem_of_refs hr))

/-- Only the values of `refs` matter. -/
theorem congr_refs {refs' : Nat → Nat} (h : Releasing releasing l refs s)
    (hr : ∀ b, refs' b = refs b) : Releasing releasing l refs' s :=
  ⟨h.live, h.balanced.congr (fun _ _ ↦ rfl) (fun _ _ ↦ rfl) hr, h.inRange, h.tallied⟩

/-- Between cascades the balanced blocks are the live ones. -/
theorem settle (h : Releasing [] l refs s) : Releasing [] s.live refs s := by
  have hp : s.live.Perm l := h.live
  refine ⟨.refl _, h.balanced.perm hp, ?_, h.tallied⟩
  intro a ha
  exact h.inRange a (hp.mem_iff.mp ha)

/-- A fresh block is added with one reference. -/
theorem addBlock (h : Releasing [] s.live refs s) (ha : a ∉ s.live)
    (hr : a + rcHeaderSize < sizeModulus) (size : Nat) :
    Releasing [] (s.addBlock a size).live (Function.update refs a 1) (s.addBlock a size) := by
  refine ⟨.refl _, ?_, ?_, h.tallied.addBlock ha size⟩
  · rw [addBlock_countOf, addBlock_ownedOf]
    exact h.balanced.alloc ha
  · intro x hx
    rcases List.mem_cons.mp hx with rfl | hx
    · exact hr
    · exact h.inRange x hx

/-- A reference from outside is taken. -/
theorem incr (h : Releasing releasing l refs s) (hb : b ∈ l) :
    Releasing releasing l (Function.update refs b (refs b + 1))
      (s.setCount b (s.countOf b + 1)) := by
  refine ⟨h.live, ?_, h.inRange, h.tallied.setCount _ _⟩
  rw [setCount_countOf, ownedOf_congr (setCount_toFree s b · _)]
  exact h.balanced.incr hb

/-- An owner with a free slot takes a reference. -/
theorem own {o : Nat} (h : Releasing releasing l refs s) (hb : b ∈ l) (ho : o ∈ l)
    (hslot : (s.header o).idx < toFreeSlots) (hp : rcHeaderOf ptr 0 = b) :
    Releasing releasing l refs ((s.setCount b (s.countOf b + 1)).addOwned o ptr) := by
  have hslot' : ((s.setCount b (s.countOf b + 1)).header o).idx < toFreeSlots := by
    rw [RefcountHeader.idx, setCount_toFree]
    exact hslot
  refine ⟨h.live, ?_, h.inRange, ?_⟩
  · rw [addOwned_countOf, addOwned_ownedOf hslot' hp, setCount_countOf,
      ownedOf_congr (setCount_toFree s b · _)]
    exact h.balanced.own hb ho
  · exact (h.tallied.setCount b _).congr rfl rfl (addOwned_sizeOf _ o ptr)

/-- A reference goes, and it was not the last one. -/
theorem drop (h : Releasing releasing l refs s) (hr : 0 < refs b) (hc : s.countOf b ≠ 1) :
    Releasing releasing l (Function.update refs b (refs b - 1))
      (s.setCount b (s.countOf b - 1)) := by
  refine ⟨h.live, ?_, h.inRange, h.tallied.setCount _ _⟩
  rw [setCount_countOf, ownedOf_congr (setCount_toFree s b · _)]
  exact h.balanced.drop hr hc

/-- The last reference goes: the release of the block begins. -/
theorem retire (h : Releasing releasing l refs s) (hr : 0 < refs b) (hc : s.countOf b = 1) :
    Releasing (b :: releasing) (l.erase b)
      (fun x ↦ Function.update refs b (refs b - 1) x + (s.ownedOf b).count x)
      (s.setCount b 0) := by
  have hb := h.balanced.mem_of_refs hr
  refine ⟨?_, ?_, ?_, h.tallied.setCount _ _⟩
  · have hp : (releasing ++ l).Perm (releasing ++ b :: l.erase b) :=
      (List.perm_cons_erase hb).append_left releasing
    exact (h.live.trans hp).trans List.perm_middle
  · rw [setCount_countOf, ownedOf_congr (setCount_toFree s b · _)]
    apply (h.balanced.retire hr hc).congr
    · intro x hx
      have hne : x ≠ b := (h.balanced.nodup.mem_erase_iff.mp hx).1
      rw [Function.update_of_ne hne]
    · intro _ _
      rfl
    · intro _
      rfl
  · intro x hx
    exact h.inRange x (List.mem_of_mem_erase hx)

/-- The release of a block ends. -/
theorem finish (h : Releasing (b :: releasing) l refs s) :
    Releasing releasing l refs (s.releaseBlock b) := by
  have hb : b ∈ s.live := h.live.mem_iff.mpr (by simp)
  refine ⟨?_, h.balanced, h.inRange, h.tallied.releaseBlock hb⟩
  have he := h.live.erase b
  rwa [List.cons_append, List.erase_cons_head] at he

end Releasing

/-- What one nested call of `dec_ref_count` achieves: it returns, the reference is gone, no
block has come up and the lists of owned blocks are as they were. -/
def Releases (dec : RCState → Nat → Except Fault RCState) (room : Nat) : Prop :=
  ∀ {s : RCState} {releasing l : List Nat} {refs : Nat → Nat} {ptr b : Nat},
    rcHeaderOf ptr 0 = b → Releasing releasing l refs s → 0 < refs b → l.length ≤ room →
    ∃ s' l', dec s ptr = .ok s' ∧
      Releasing releasing l' (Function.update refs b (refs b - 1)) s' ∧
      l'.length ≤ l.length ∧ ∀ x, (s'.header x).toFree = (s.header x).toFree

private theorem update_count_cons (refs : Nat → Nat) (b : Nat) (owned : List Nat) :
    Function.update (fun x ↦ refs x + (b :: owned).count x) b
      (refs b + (b :: owned).count b - 1) = fun x ↦ refs x + owned.count x := by
  funext x
  by_cases hx : x = b
  · subst hx
    rw [Function.update_self, List.count_cons_self]
    omega
  · rw [Function.update_of_ne hx, List.count_cons_of_ne (Ne.symm hx)]

/-- The loop releases the entries from index `i` on. -/
theorem releaseOwned_spec {dec : RCState → Nat → Except Fault RCState} {room i k : Nat}
    (hdec : Releases dec room) (hrest : (s.header b).toFree.drop i = rest)
    (hk : rest.length ≤ k) (hb : b ∈ releasing) (hroom : l.length ≤ room)
    (h : Releasing releasing l (fun x ↦ refs x + (rest.map (rcHeaderOf · 0)).count x) s) :
    ∃ s' l', releaseOwned dec b (List.range' i k) s = .ok s' ∧ Releasing releasing l' refs s' ∧
      l'.length ≤ l.length ∧ ∀ x, (s'.header x).toFree = (s.header x).toFree := by
  induction rest generalizing i k s l with
  | nil =>
    have hlive : b ∈ s.live := h.live.mem_iff.mpr (List.mem_append_left _ hb)
    have hnone : (s.header b).toFree[i]? = none := by
      rw [List.getElem?_eq_none_iff]
      exact List.drop_eq_nil_iff.mp hrest
    refine ⟨s, l, ?_, by simpa using h, Nat.le_refl _, fun _ ↦ rfl⟩
    cases k with
    | zero => rfl
    | succ k =>
      simp only [List.range'_succ, releaseOwned, RCState.getHeader, if_pos hlive, bind,
        Except.bind, hnone]
      rfl
  | cons ptr rest ih =>
    obtain ⟨k, rfl⟩ : ∃ n, k = n + 1 := ⟨k - 1, by simp at hk; omega⟩
    have hlive : b ∈ s.live := h.live.mem_iff.mpr (List.mem_append_left _ hb)
    have hget : (s.header b).toFree[i]? = some ptr := by
      have := congrArg (·[0]?) hrest
      simpa using this
    have hnext : (s.header b).toFree.drop (i + 1) = rest := by
      rw [← List.tail_drop, hrest, List.tail_cons]
    obtain ⟨b₁, hb₁⟩ : ∃ b₁, rcHeaderOf ptr 0 = b₁ := ⟨_, rfl⟩
    simp only [List.map_cons, hb₁] at h
    have hpos : 0 < refs b₁ + (b₁ :: rest.map (rcHeaderOf · 0)).count b₁ := by
      rw [List.count_cons_self]
      omega
    obtain ⟨s₁, l₁, hrun, h₁, hlen, hsame⟩ := hdec hb₁ h hpos hroom
    rw [update_count_cons] at h₁
    obtain ⟨s₂, l₂, hrun₂, h₂, hlen₂, hsame₂⟩ :=
      ih ((congrArg _ (hsame b)).trans hnext) (by simpa using hk) (Nat.le_trans hlen hroom) h₁
    refine ⟨s₂, l₂, ?_, h₂, Nat.le_trans hlen₂ hlen, fun x ↦ (hsame₂ x).trans (hsame x)⟩
    simp only [List.range'_succ, releaseOwned, RCState.getHeader, if_pos hlive, bind,
      Except.bind, hget, hrun]
    exact hrun₂

/-- `dec_ref_count` releases one reference, however deep its cascade. The nesting is bounded by
the number of blocks that are not under release, since each level puts one more under it. -/
theorem decRefCountNested_releases (fuel : Nat) :
    Releases (fun s ptr ↦ decRefCountNested fuel s ptr 0) fuel := by
  induction fuel with
  | zero =>
    intro s releasing l refs ptr b hp h hr hroom
    have hb := h.balanced.mem_of_refs hr
    rw [List.length_eq_zero_iff.mp (Nat.le_zero.mp hroom)] at hb
    simp at hb
  | succ fuel ih =>
    intro s releasing l refs ptr b hp h hr hroom
    beta_reduce
    have hb := h.balanced.mem_of_refs hr
    rw [decRefCountNested_live hp (ne_null_of_header hp (h.inRange b hb)) (h.mem_live_of_refs hr)]
    by_cases hc : s.countOf b = 1
    · rw [if_pos hc]
      have hlen : (l.erase b).length = l.length - 1 := List.length_erase_of_mem hb
      obtain ⟨s₁, l₁, hrun, h₁, hlen₁, hsame⟩ := releaseOwned_spec (i := 0) (k := toFreeSlots) ih
        (setCount_toFree s b b 0) (s.header b).idx_le List.mem_cons_self (by omega)
        (h.retire hr hc)
      have hlive₁ : b ∈ s₁.live := h₁.live.mem_iff.mpr (by simp)
      refine ⟨s₁.releaseBlock b, l₁, ?_, h₁.finish, by omega, ?_⟩
      · rw [List.range_eq_range']
        simp only [hrun, bind, Except.bind, if_pos hlive₁]
        rfl
      · intro x
        exact (hsame x).trans (setCount_toFree s b x 0)
    · rw [if_neg hc]
      exact ⟨_, l, rfl, h.drop hr hc, Nat.le_refl _, fun x ↦ setCount_toFree s b x _⟩

/-! ### Runs -/

/-- A state together with the references the program has taken: the outstanding direct ones,
and the calls of `inc_ref_count` whose owner had no slot left. -/
structure RCRun where
  state : RCState
  direct : Nat → Nat
  lost : Nat → Nat

/-- The calls a program makes, with the answer of `malloc`. -/
inductive RCOp where
  | alloc (bytes : Nat) (granted : Option Nat)
  | inc (ptr other : Nat)
  | dec (ptr : Nat)
deriving DecidableEq

namespace RCRun

/-- After `rc_init`. -/
def start : RCRun := ⟨rcInit .boot, fun _ ↦ 0, fun _ ↦ 0⟩

/-- Account for one call in the state it is made in. -/
def account (r : RCRun) (state : RCState) : RCOp → RCRun
  | .alloc _ none => { r with state := state }
  | .alloc _ (some a) => ⟨state, Function.update r.direct a 1, Function.update r.lost a 0⟩
  | .inc ptr other =>
    let b := rcHeaderOf ptr 0
    if ptr = 0 then { r with state := state }
    else if other = 0 then ⟨state, Function.update r.direct b (r.direct b + 1), r.lost⟩
    else if (r.state.header (rcHeaderOf other 0)).idx < toFreeSlots then { r with state := state }
    else ⟨state, r.direct, Function.update r.lost b (r.lost b + 1)⟩
  | .dec ptr =>
    let b := rcHeaderOf ptr 0
    if ptr = 0 then { r with state := state }
    else ⟨state, Function.update r.direct b (r.direct b - 1), r.lost⟩

/-- Perform one call. -/
def perform (r : RCRun) (op : RCOp) : Except Fault RCRun :=
  match op with
  | .alloc bytes granted => do
    let (s, _) ← rcAlloc r.state bytes granted
    pure (r.account s op)
  | .inc ptr other => do
    let s ← incRefCount r.state ptr other
    pure (r.account s op)
  | .dec ptr => do
    let s ← decRefCount r.state ptr 0
    pure (r.account s op)

/-- `malloc` grants memory that is not in use; references are taken to live blocks and given to
live owners; only an outstanding direct reference is released. -/
def Allowed (r : RCRun) : RCOp → Prop
  | .alloc _ none => True
  | .alloc _ (some a) => a ∉ r.state.live ∧ a + rcHeaderSize < sizeModulus
  | .inc ptr other => ptr = 0 ∨ (∃ b ∈ r.state.live, ptr = rcPayload b) ∧
      (other = 0 ∨ ∃ o ∈ r.state.live, other = rcPayload o)
  | .dec ptr => ptr = 0 ∨ ∃ b ∈ r.state.live, ptr = rcPayload b ∧ 0 < r.direct b

instance (r : RCRun) : (op : RCOp) → Decidable (r.Allowed op)
  | .alloc _ none => .isTrue trivial
  | .alloc _ (some a) =>
    inferInstanceAs (Decidable (a ∉ r.state.live ∧ a + rcHeaderSize < sizeModulus))
  | .inc _ _ => inferInstanceAs (Decidable (_ ∨ (_ ∧ (_ ∨ _))))
  | .dec _ => inferInstanceAs (Decidable (_ ∨ ∃ b ∈ r.state.live, _))

end RCRun

variable {r : RCRun} {op : RCOp}

/-- The invariant between calls: no release is under way. -/
def RCRun.Sound (r : RCRun) : Prop :=
  Releasing [] r.state.live (fun b ↦ r.direct b + r.lost b) r.state

/-- The payload pointer of a block leads back to its header. -/
theorem rcHeaderOf_payload (h : a + rcHeaderSize < sizeModulus) :
    rcHeaderOf (rcPayload a) 0 = a := by
  have hp : rcPayload a = a + rcHeaderSize := addSize_eq h
  unfold rcHeaderOf
  rw [hp, subSize_eq h (Nat.zero_le _), Nat.sub_zero, subSize_eq h (by omega)]
  omega

/-- A reference without owner to a live block. -/
theorem incRefCount_live (hb : b ∈ s.live) (hr : b + rcHeaderSize < sizeModulus) :
    incRefCount s (rcPayload b) 0 = .ok (s.setCount b (s.countOf b + 1)) := by
  have hp := rcHeaderOf_payload hr
  simp only [incRefCount, hp, if_neg (ne_null_of_header hp hr), if_true, RCState.getHeader,
    RCState.setHeader, if_pos hb, bind, Except.bind]
  rfl

/-- A reference to a live block that is offered to a live owner. -/
theorem incRefCount_owner {o : Nat} (hb : b ∈ s.live) (hr : b + rcHeaderSize < sizeModulus)
    (ho : o ∈ s.live) (hro : o + rcHeaderSize < sizeModulus) :
    incRefCount s (rcPayload b) (rcPayload o) =
      .ok ((s.setCount b (s.countOf b + 1)).addOwned o (rcPayload b)) := by
  have hp := rcHeaderOf_payload hr
  have hpo := rcHeaderOf_payload hro
  simp only [incRefCount, hp, hpo, if_neg (ne_null_of_header hp hr),
    if_neg (ne_null_of_header hpo hro), RCState.getHeader, RCState.setHeader, if_pos hb, if_pos ho,
    bind, Except.bind]
  rfl

/-- A release that is not the last one. -/
theorem decRefCount_shared (hb : b ∈ s.live) (hr : b + rcHeaderSize < sizeModulus)
    (hc : s.countOf b ≠ 1) :
    decRefCount s (rcPayload b) 0 = .ok (s.setCount b (s.countOf b - 1)) := by
  have hp := rcHeaderOf_payload hr
  rw [decRefCount, RCState.bound, decRefCountNested_live hp (ne_null_of_header hp hr) hb, if_neg hc]

namespace RCRun

/-- Pointers to live blocks lead to their headers and are not `NULL`. -/
theorem Sound.payload (h : r.Sound) (hb : b ∈ r.state.live) :
    rcHeaderOf (rcPayload b) 0 = b ∧ rcPayload b ≠ 0 := by
  have hp := rcHeaderOf_payload (h.inRange b hb)
  exact ⟨hp, ne_null_of_header hp (h.inRange b hb)⟩

/-- An allocation with memory granted keeps the invariant. -/
theorem Sound.alloc (h : r.Sound) (ha : a ∉ r.state.live)
    (hr : a + rcHeaderSize < sizeModulus) (bytes : Nat) :
    ∃ r', r.perform (.alloc bytes (some a)) = .ok r' ∧ r'.Sound := by
  have hal : a ∈ a :: r.state.live := List.mem_cons_self
  refine ⟨⟨r.state.addBlock a (addSize bytes rcHeaderSize), Function.update r.direct a 1,
    Function.update r.lost a 0⟩, ?_, ?_⟩
  · simp only [perform, rcAlloc, RCState.setHeader, if_pos hal, bind, Except.bind, pure,
      Except.pure]
    rfl
  · apply (h.addBlock ha hr _).congr_refs
    intro x
    by_cases hx : x = a
    · subst hx
      simp
    · simp [hx]

/-- A direct reference to a live block, or a reference offered to a live owner. -/
theorem Sound.inc {o other : Nat} (h : r.Sound) (hb : b ∈ r.state.live)
    (hother : other = 0 ∨ o ∈ r.state.live ∧ other = rcPayload o) :
    ∃ r', r.perform (.inc (rcPayload b) other) = .ok r' ∧ r'.Sound := by
  obtain ⟨hp, hne⟩ := h.payload hb
  have hrefs (direct lost : Nat → Nat) (x : Nat) :
      Function.update direct b (direct b + 1) x + lost x =
        Function.update (fun x ↦ direct x + lost x) b (direct b + lost b + 1) x := by
    by_cases hx : x = b
    · subst hx
      simp only [Function.update_self]
      omega
    · simp [hx]
  by_cases hz : other = 0
  · refine ⟨⟨r.state.setCount b (r.state.countOf b + 1),
      Function.update r.direct b (r.direct b + 1), r.lost⟩, ?_, ?_⟩
    · subst hz
      simp only [perform, incRefCount_live hb (h.inRange b hb), bind, Except.bind, pure,
        Except.pure, account, hp, if_neg hne, if_true]
    · exact (Releasing.incr h hb).congr_refs (hrefs r.direct r.lost)
  · obtain ⟨ho, rfl⟩ := hother.resolve_left hz
    obtain ⟨hpo, -⟩ := h.payload ho
    have hrun := incRefCount_owner hb (h.inRange b hb) ho (h.inRange o ho)
    by_cases hslot : (r.state.header o).idx < toFreeSlots
    · refine ⟨{ r with state := _ }, ?_, Releasing.own h hb ho hslot hp⟩
      simp only [perform, hrun, bind, Except.bind, pure, Except.pure, account, hpo, if_neg hne,
        if_neg hz, if_pos hslot]
      rfl
    · have hfull : ¬((r.state.setCount b (r.state.countOf b + 1)).header o).idx < toFreeSlots := by
        rw [RefcountHeader.idx, setCount_toFree]
        exact hslot
      refine ⟨⟨r.state.setCount b (r.state.countOf b + 1), r.direct,
        Function.update r.lost b (r.lost b + 1)⟩, ?_, ?_⟩
      · simp only [perform, hrun, bind, Except.bind, pure, Except.pure, account, hp, hpo,
          if_neg hne, if_neg hz, if_neg hslot, addOwned_full hfull]
      · apply (Releasing.incr h hb).congr_refs
        intro x
        rw [Nat.add_comm, hrefs r.lost r.direct x]
        simp only [Nat.add_comm (r.lost _)]

/-- The release of an outstanding direct reference. -/
theorem Sound.dec (h : r.Sound) (hb : b ∈ r.state.live) (hd : 0 < r.direct b) :
    ∃ r', r.perform (.dec (rcPayload b)) = .ok r' ∧ r'.Sound := by
  obtain ⟨hp, hne⟩ := h.payload hb
  obtain ⟨s', l', hrun, h', -, -⟩ := decRefCountNested_releases r.state.bound hp h
    (Nat.add_pos_left hd _) (Nat.le_succ _)
  refine ⟨⟨s', Function.update r.direct b (r.direct b - 1), r.lost⟩, ?_, ?_⟩
  · simp only [perform, decRefCount, hrun, bind, Except.bind, pure, Except.pure, account, hp,
      if_neg hne]
  · apply h'.settle.congr_refs
    intro x
    by_cases hx : x = b
    · subst hx
      simp only [Function.update_self]
      omega
    · simp [hx]

/-- An allowed call returns and keeps the invariant, unless `malloc` has no memory. -/
theorem Sound.perform (h : r.Sound) (ha : r.Allowed op) :
    (∃ r', r.perform op = .ok r' ∧ r'.Sound) ∨
      r.perform op = .error (.badAccess 0) ∧ ∃ bytes, op = .alloc bytes none := by
  cases op with
  | alloc bytes granted =>
    cases granted with
    | none => exact .inr ⟨rfl, bytes, rfl⟩
    | some a => exact .inl (h.alloc ha.1 ha.2 bytes)
  | inc ptr other =>
    left
    rcases ha with rfl | ⟨⟨b, hb, rfl⟩, ho⟩
    · exact ⟨r, rfl, h⟩
    · rcases ho with ho | ⟨o, ho, rfl⟩
      · exact h.inc (o := 0) hb (.inl ho)
      · exact h.inc hb (.inr ⟨ho, rfl⟩)
  | dec ptr =>
    left
    rcases ha with rfl | ⟨b, hb, rfl, hd⟩
    · exact ⟨r, rfl, h⟩
    · exact h.dec hb hd

/-- Nothing is referred to at the start. -/
theorem start_sound : start.Sound := by
  refine ⟨.refl _, ⟨List.nodup_nil, ?_, ?_, ?_, ?_⟩, ?_, rfl, rfl⟩ <;>
    simp [start, rcInit, RCState.boot]

end RCRun

/-- Reference counts over whole runs: after any sequence of allowed calls every live block is
counted by its outstanding direct references, its occurrences in the `to_free` lists of live
blocks and the references lost to full owners; no block with a direct reference or with a live
owner has been freed; and the statistics agree with the live blocks as `size_t` values. Every
call returns without touching a block that is not live, except that an allocation for which
`malloc` has no memory writes through `NULL`. -/
theorem reference_count_safety (ops : List RCOp)
    (h : AllAllowed RCRun.perform RCRun.Allowed RCRun.start ops) :
    (∃ r, runAll RCRun.perform RCRun.start ops = .ok r ∧
      r.state.live.Nodup ∧
      (∀ b ∈ r.state.live, r.state.countOf b = r.direct b +
        (r.state.live.map fun o ↦ (r.state.ownedOf o).count b).sum + r.lost b) ∧
      (∀ b ∈ r.state.live, 0 < r.state.countOf b) ∧
      (∀ b, 0 < r.direct b → b ∈ r.state.live) ∧
      (∀ o ∈ r.state.live, ∀ b ∈ r.state.ownedOf o, b ∈ r.state.live) ∧
      r.state.stats.currentBytes = (r.state.live.map r.state.sizeOf).sum % sizeModulus ∧
      r.state.stats.totalAllocations =
        (r.state.live.length + r.state.stats.totalCollections) % sizeModulus) ∨
    runAll RCRun.perform RCRun.start ops = .error (.badAccess 0) ∧
      ∃ bytes, RCOp.alloc bytes none ∈ ops := by
  have hrun := runAll_keeps (fun _ r ↦ r.Sound)
    (fun _ op e ↦ e = .badAccess 0 ∧ ∃ bytes, op = .alloc bytes none) ?_ RCRun.start_sound ops h
  · rcases hrun with ⟨r, hr, hs⟩ | ⟨pre, op, post, e, rfl, hr, rfl, bytes, rfl⟩
    · left
      refine ⟨r, hr, hs.balanced.nodup, ?_, hs.balanced.count_pos, ?_, hs.balanced.owned_live,
        hs.tallied.bytes, hs.tallied.blocks⟩
      · intro b hb
        rw [hs.balanced.count_eq b hb, ownedTimes]
        omega
      · intro b hb
        exact hs.balanced.mem_of_refs (Nat.add_pos_left hb _)
    · exact .inr ⟨hr, bytes, by simp⟩
  · intro done r op hs ha
    rcases hs.perform ha with hok | ⟨he, hop⟩
    · exact .inl hok
    · exact .inr ⟨_, he, rfl, hop⟩

/-- Two owners of one block, a full owner, and the release of all of them. -/
private def sampleOps : List RCOp :=
  [.alloc 8 (some 1000), .alloc 8 (some 2000), .alloc 8 (some 3000), .inc 3048 1048,
   .inc 3048 2048, .inc 2048 1048, .inc 3048 1048, .inc 3048 1048, .dec 3048, .dec 2048, .dec 1048]

theorem reference_count_safety_sample :
    ∃ r, runAll RCRun.perform RCRun.start sampleOps = .ok r ∧ r.state.live.Nodup ∧
      ∀ b ∈ r.state.live, r.state.countOf b = r.direct b +
        (r.state.live.map fun o ↦ (r.state.ownedOf o).count b).sum + r.lost b := by
  have h := reference_count_safety sampleOps (by decide +kernel)
  obtain ⟨r, hr, hn, hc, -⟩ := h.resolve_right (fun hx ↦ by simp [sampleOps] at hx)
  exact ⟨r, hr, hn, hc⟩

end JBLang.Runtime
