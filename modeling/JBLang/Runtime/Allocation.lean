import JBLang.Runtime.MarkSweepRuns
import JBLang.Runtime.RefCount

/-!
# What the allocators promise

One contract for `simple_alloc`, `rc_alloc` and `ms_alloc`: a call returns `NULL` and changes
nothing, or it returns memory of the size asked for and counts it. `malloc` is any function that
answers with `NULL` or with memory inside the address space.
-/

namespace JBLang.Runtime

/-- `simple_alloc`, `runtime/src/simple_allocator.c:7–18`; `granted` is the answer of `malloc`. -/
def simpleAlloc (st : AllocatorStats) (bytes : Nat) (granted : Option Nat) :
    AllocatorStats × Option Nat :=
  match granted with
  | none => (st, none)
  | some ptr => (st.allocated bytes, some ptr)

/-- `malloc(requested)` may give this answer. -/
def Grants (requested : Nat) (granted : Option Nat) : Prop :=
  ∀ a, granted = some a → a ≠ 0 ∧ a + requested < sizeModulus

/-- A call for `n` bytes, for which `malloc(requested)` answered `granted`, returned `result`: no
pointer and the allocator is `unchanged`, or a pointer to `n` bytes of the granted memory, which
is counted. -/
def AllocContract (n requested : Nat) (granted : Option Nat) (before after : AllocatorStats)
    (unchanged : Prop) : (result : Option Nat) → Prop
  | none => unchanged
  | some ptr => ∃ a, granted = some a ∧ a ≤ ptr ∧ ptr + n ≤ a + requested ∧
    after.totalAllocations = before.totalAllocations + 1 ∧
    after.currentBytes = before.currentBytes + requested ∧ after.currentBytes ≤ after.peakBytes

/-- The counters have room for an allocation. -/
def HasRoom (st : AllocatorStats) (requested : Nat) : Prop :=
  st.totalAllocations + 1 < sizeModulus ∧ st.currentBytes + requested < sizeModulus

/-- An addition that does not wrap around. -/
theorem addSize_eq_iff {a b : Nat} : addSize a b = a + b ↔ a + b < sizeModulus := by
  refine ⟨fun h ↦ ?_, addSize_eq⟩
  rw [← h]
  exact Nat.mod_lt _ (by decide)

theorem allocated_current_le_peak (st : AllocatorStats) (total : Nat) :
    (st.allocated total).currentBytes ≤ (st.allocated total).peakBytes := by
  unfold AllocatorStats.allocated
  dsimp only
  split <;> omega

/-- A granted block is counted exactly if the counters have room, and is large enough exactly if
the payload lies in it. -/
theorem allocContract_some {n requested a ptr : Nat} {st : AllocatorStats} {unchanged : Prop} :
    AllocContract n requested (some a) st (st.allocated requested) unchanged (some ptr) ↔
      (a ≤ ptr ∧ ptr + n ≤ a + requested) ∧ HasRoom st requested := by
  unfold AllocContract HasRoom
  have htotal : (st.allocated requested).totalAllocations = st.totalAllocations + 1 ↔
      st.totalAllocations + 1 < sizeModulus := addSize_eq_iff
  have hcurrent : (st.allocated requested).currentBytes = st.currentBytes + requested ↔
      st.currentBytes + requested < sizeModulus := addSize_eq_iff
  constructor
  · rintro ⟨b, hb, hle, hlen, ht, hc, -⟩
    cases hb
    exact ⟨⟨hle, hlen⟩, htotal.mp ht, hcurrent.mp hc⟩
  · rintro ⟨⟨hle, hlen⟩, ht, hc⟩
    exact ⟨a, rfl, hle, hlen, htotal.mpr ht, hcurrent.mpr hc, allocated_current_le_peak ..⟩

/-- Behind a header, the payload lies in the granted memory exactly if the sum of the sizes does
not wrap around. -/
theorem payload_inside_iff {header n a : Nat} (hn : n < sizeModulus)
    (ha : a + addSize header n < sizeModulus) (hheader : header < sizeModulus) :
    (a ≤ addSize a header ∧ addSize a header + n ≤ a + addSize header n) ↔
      header + n < sizeModulus := by
  unfold addSize at *
  by_cases hwrap : header + n < sizeModulus
  · rw [Nat.mod_eq_of_lt hwrap] at ha ⊢
    rw [Nat.mod_eq_of_lt (by omega)]
    refine iff_of_true ⟨by omega, by omega⟩ hwrap
  · have hrest : (header + n) % sizeModulus = header + n - sizeModulus := by
      rw [Nat.mod_eq_sub_mod (by omega)]
      exact Nat.mod_eq_of_lt (by omega)
    rw [hrest] at ha ⊢
    refine iff_of_false ?_ hwrap
    rintro ⟨hle, hlen⟩
    by_cases hstart : a + header < sizeModulus
    · rw [Nat.mod_eq_of_lt hstart] at hlen
      omega
    · rw [Nat.mod_eq_sub_mod (by omega), Nat.mod_eq_of_lt (by omega)] at hle
      omega

theorem addSize_comm (a b : Nat) : addSize a b = addSize b a := by
  unfold addSize
  rw [Nat.add_comm]

variable {n : Nat} {granted : Option Nat}

theorem simpleAlloc_contract_iff (st : AllocatorStats) :
    AllocContract n n granted st (simpleAlloc st n granted).1 ((simpleAlloc st n granted).1 = st)
        (simpleAlloc st n granted).2 ↔ (granted ≠ none → HasRoom st n) := by
  cases granted with
  | none => exact iff_of_true rfl fun h ↦ absurd rfl h
  | some a =>
    refine allocContract_some.trans ?_
    rw [and_iff_right ⟨Nat.le_refl a, Nat.le_refl (a + n)⟩]
    exact ⟨fun h _ ↦ h, fun h ↦ h (by simp)⟩

theorem rcAlloc_contract_iff (hn : n < sizeModulus) (s : RCState)
    (hgrants : Grants (addSize n rcHeaderSize) granted) :
    (∃ s' ptr, rcAlloc s n granted = .ok (s', ptr) ∧
        AllocContract n (addSize n rcHeaderSize) granted s.stats s'.stats (s' = s) (some ptr)) ↔
      granted ≠ none ∧ rcHeaderSize + n < sizeModulus ∧ HasRoom s.stats (rcHeaderSize + n) := by
  cases granted with
  | none =>
    -- The header is written through `NULL`.
    refine iff_of_false ?_ fun h ↦ h.1 rfl
    rintro ⟨s', ptr, hrun, -⟩
    cases hrun
  | some a =>
    have hlive : a ∈ a :: s.live := List.mem_cons_self
    have hrun : rcAlloc s n (some a) = .ok ({ s with
        live := a :: s.live
        header := Function.update s.header a (.fresh (addSize n rcHeaderSize))
        stats := s.stats.allocated (addSize n rcHeaderSize) }, rcPayload a) := by
      simp only [rcAlloc, RCState.setHeader, if_pos hlive, bind, Except.bind, pure, Except.pure]
    have hspace := (hgrants a rfl).2
    rw [addSize_comm] at hspace
    have hcontract : (∃ s' ptr, rcAlloc s n (some a) = .ok (s', ptr) ∧
        AllocContract n (addSize n rcHeaderSize) (some a) s.stats s'.stats (s' = s) (some ptr)) ↔
        (a ≤ rcPayload a ∧ rcPayload a + n ≤ a + addSize n rcHeaderSize) ∧
          HasRoom s.stats (addSize n rcHeaderSize) := by
      rw [hrun]
      constructor
      · rintro ⟨s', ptr, heq, h⟩
        cases heq
        exact allocContract_some.mp h
      · exact fun h ↦ ⟨_, _, rfl, allocContract_some.mpr h⟩
    rw [hcontract, addSize_comm n, rcPayload,
      payload_inside_iff hn hspace (by decide), and_iff_right (show some a ≠ none by simp)]
    constructor
    · rintro ⟨hwrap, hroom⟩
      rw [addSize_eq hwrap] at hroom
      exact ⟨hwrap, hroom⟩
    · rintro ⟨hwrap, hroom⟩
      rw [addSize_eq hwrap]
      exact ⟨hwrap, hroom⟩

theorem msAlloc_contract_iff (hn : n < sizeModulus) (c : Contents) {s : MSState} {l : List Nat}
    (h : Listed s l) (hfresh : ∀ a ∈ granted, a ∉ s.live)
    (hgrants : Grants (addSize msHeaderSize n) granted)
    (hgc : (s.stats.allocated (addSize msHeaderSize n)).currentBytes ≤ s.gcThreshold) :
    (∃ s' result, msAlloc c s n granted = .ok (s', result) ∧
        AllocContract n (addSize msHeaderSize n) granted s.stats s'.stats (s' = s) result) ↔
      (granted ≠ none → msHeaderSize + n < sizeModulus ∧ HasRoom s.stats (msHeaderSize + n)) := by
  cases granted with
  | none => exact iff_of_true ⟨s, none, rfl, rfl⟩ fun h ↦ absurd rfl h
  | some a =>
    have hrun := msAlloc_of_fst ((msAlloc_granted c h (hfresh a rfl) n).trans
      (if_neg (Nat.not_lt.mpr hgc)))
    have hspace := (hgrants a rfl).2
    have hcontract : (∃ s' result, msAlloc c s n (some a) = .ok (s', result) ∧
        AllocContract n (addSize msHeaderSize n) (some a) s.stats s'.stats (s' = s) result) ↔
        (a ≤ payloadStart a ∧ payloadStart a + n ≤ a + addSize msHeaderSize n) ∧
          HasRoom s.stats (addSize msHeaderSize n) := by
      rw [hrun]
      constructor
      · rintro ⟨s', result, heq, h⟩
        cases heq
        exact allocContract_some.mp h
      · exact fun h ↦ ⟨_, _, rfl, allocContract_some.mpr h⟩
    rw [hcontract, payloadStart, payload_inside_iff hn hspace (by decide),
      imp_iff_right (show some a ≠ none by simp)]
    constructor
    · rintro ⟨hwrap, hroom⟩
      rw [addSize_eq hwrap] at hroom
      exact ⟨hwrap, hroom⟩
    · rintro ⟨hwrap, hroom⟩
      rw [addSize_eq hwrap]
      exact ⟨hwrap, hroom⟩

/-- The contract for every size, state and answer of `malloc`: the simple allocator keeps it while
the counters have room, the mark-sweep allocator (without a collection) if also the size with the
header does not wrap around, and the reference-count allocator only if also `malloc` does not
fail. -/
theorem allocContract_iff (n : Nat) (hn : n < sizeModulus) (granted : Option Nat) :
    (∀ st, AllocContract n n granted st (simpleAlloc st n granted).1
          ((simpleAlloc st n granted).1 = st) (simpleAlloc st n granted).2 ↔
        (granted ≠ none → HasRoom st n)) ∧
    (∀ s, Grants (addSize n rcHeaderSize) granted →
      ((∃ s' ptr, rcAlloc s n granted = .ok (s', ptr) ∧
          AllocContract n (addSize n rcHeaderSize) granted s.stats s'.stats (s' = s) (some ptr)) ↔
        granted ≠ none ∧ rcHeaderSize + n < sizeModulus ∧
          HasRoom s.stats (rcHeaderSize + n))) ∧
    ∀ c s l, Listed s l → (∀ a ∈ granted, a ∉ s.live) →
      Grants (addSize msHeaderSize n) granted →
      (s.stats.allocated (addSize msHeaderSize n)).currentBytes ≤ s.gcThreshold →
      ((∃ s' result, msAlloc c s n granted = .ok (s', result) ∧
          AllocContract n (addSize msHeaderSize n) granted s.stats s'.stats (s' = s) result) ↔
        (granted ≠ none → msHeaderSize + n < sizeModulus ∧
          HasRoom s.stats (msHeaderSize + n))) :=
  ⟨simpleAlloc_contract_iff, rcAlloc_contract_iff hn, fun c _ _ h hfresh hgrants hgc ↦
    msAlloc_contract_iff hn c h hfresh hgrants hgc⟩

/-- Sixteen bytes at the start. -/
theorem allocContract_iff_small : ∃ s' ptr,
    rcAlloc RCState.boot 16 (some 1000) = .ok (s', ptr) ∧
      AllocContract 16 64 (some 1000) RCState.boot.stats s'.stats (s' = RCState.boot) (some ptr) := by
  have hgrants : Grants (addSize 16 rcHeaderSize) (some 1000) := by
    rintro a ⟨⟩
    decide
  exact ((allocContract_iff 16 (by decide) (some 1000)).2.1 RCState.boot hgrants).mpr
    ⟨by decide, by decide, ⟨by decide, by decide⟩⟩

/-- `rc_alloc` writes its header through `NULL` if `malloc` fails; and for a size at which the sum
with the header wraps around, both allocators with a header ask for less than the header and
return a pointer behind the granted memory. -/
theorem alloc_contract_broken :
    rcAlloc RCState.boot 16 none = .error (.badAccess 0) ∧
      addSize (2 ^ 64 - 8) rcHeaderSize = 40 ∧
      (rcAlloc RCState.boot (2 ^ 64 - 8) (some 1000)).map Prod.snd = .ok 1048 ∧
      addSize msHeaderSize (2 ^ 64 - 8) = 24 ∧
      (msAlloc ⟨fun _ ↦ 0, 0⟩ (msInit MSState.boot 8008) (2 ^ 64 - 8) (some 1000)).map
        Prod.snd = .ok (some 1032) := by
  refine ⟨rfl, by decide, rfl, by decide, rfl⟩

end JBLang.Runtime
