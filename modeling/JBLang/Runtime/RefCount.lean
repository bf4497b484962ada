import JBLang.Runtime.Memory

/-!
# The reference-count allocator

Model of `runtime/src/reference_count_allocator.c`. Blocks are named by the address of their
header; the program holds payload pointers, which lie `sizeof(RefcountHeader)` above it. As in
the mark-sweep model, touching a header that is not live is a fault.
-/

namespace JBLang.Runtime

/-- `sizeof(RefcountHeader)`. -/
def rcHeaderSize : Nat := 48

/-- Entries of `to_free`, `runtime/src/reference_count_allocator.c:17`. -/
def toFreeSlots : Nat := 3

/-- `RefcountHeader`, `runtime/src/reference_count_allocator.c:14–19`; `toFree` holds
`to_free[0..idx)`. -/
structure RefcountHeader where
  count : Int
  size : Nat
  toFree : List Nat
  idx_le : toFree.length ≤ toFreeSlots
deriving DecidableEq

namespace RefcountHeader

/-- `idx`. -/
def idx (h : RefcountHeader) : Nat := h.toFree.length

/-- The header that `rc_alloc` writes. -/
def fresh (size : Nat) : RefcountHeader := ⟨1, size, [], Nat.zero_le _⟩

/-- Store the count. -/
def setCount (h : RefcountHeader) (count : Int) : RefcountHeader := { h with count := count }

/-- `if (idx < 3) to_free[idx++] = ptr;` -/
def addToFree (h : RefcountHeader) (ptr : Nat) : RefcountHeader :=
  if hi : h.idx < toFreeSlots then
    ⟨h.count, h.size, h.toFree ++ [ptr], by rw [List.length_append]; exact hi⟩
  else h

end RefcountHeader

/-- The statistics and the headers in the C heap. -/
structure RCState where
  stats : AllocatorStats
  /-- Blocks granted by `malloc` and not yet freed. -/
  live : List Nat
  header : Nat → RefcountHeader

namespace RCState

/-- Load a header. -/
def getHeader (s : RCState) (a : Nat) : Except Fault RefcountHeader :=
  if a ∈ s.live then .ok (s.header a) else .error (.badAccess a)

/-- Store a header. -/
def setHeader (s : RCState) (a : Nat) (h : RefcountHeader) : Except Fault RCState :=
  if a ∈ s.live then .ok { s with header := Function.update s.header a h }
  else .error (.badAccess a)

/-- `free(header)`. -/
def free (s : RCState) (a : Nat) : Except Fault RCState :=
  if a ∈ s.live then .ok { s with live := s.live.erase a } else .error (.badAccess a)

/-- Bound on the nesting of `dec_ref_count`. -/
def bound (s : RCState) : Nat := s.live.length + 1

end RCState

/-- The pointer `rc_alloc` returns for a header, `ptr+1`. -/
def rcPayload (header : Nat) : Nat := addSize header rcHeaderSize

/-- `(char*) ptr - offset - sizeof(RefcountHeader)`. -/
def rcHeaderOf (ptr offset : Nat) : Nat := subSize (subSize ptr offset) rcHeaderSize

/-- `rc_init`, `runtime/src/reference_count_allocator.c:91–94`. -/
def rcInit (s : RCState) : RCState := { s with stats := .zero }

/-- `rc_alloc`, `runtime/src/reference_count_allocator.c:21–39`; `granted` is the answer of
`malloc`. The header is written before the answer is tested. -/
def rcAlloc (s : RCState) (bytes : Nat) (granted : Option Nat) : Except Fault (RCState × Nat) := do
  let size := addSize bytes rcHeaderSize
  match granted with
  | none => .error (.badAccess 0)
  | some header =>
    let s ← { s with live := header :: s.live }.setHeader header (.fresh size)
    pure ({ s with stats := s.stats.allocated size }, rcPayload header)

/-- `inc_ref_count`, `runtime/src/reference_count_allocator.c:41–54`. -/
def incRefCount (s : RCState) (ptr other : Nat) : Except Fault RCState :=
  if ptr = 0 then .ok s
  else do
    let header := rcHeaderOf ptr 0
    let h ← s.getHeader header
    let s ← s.setHeader header (h.setCount (h.count + 1))
    if other = 0 then pure s
    else
      let otherHeader := rcHeaderOf other 0
      let o ← s.getHeader otherHeader
      s.setHeader otherHeader (o.addToFree ptr)

/-- The loop of `dec_ref_count` over the indices `is`; `idx` and the entry are read from the
header in every round. -/
def releaseOwned (dec : RCState → Nat → Except Fault RCState) (header : Nat) :
    List Nat → RCState → Except Fault RCState
  | [], s => .ok s
  | i :: is, s => do
    let h ← s.getHeader header
    match h.toFree[i]? with
    | none => pure s
    | some ptr =>
      let s ← dec s ptr
      releaseOwned dec header is s

/-- `dec_ref_count`, `runtime/src/reference_count_allocator.c:56–72`, with a bound on the
nesting. -/
def decRefCountNested : Nat → RCState → Nat → Nat → Except Fault RCState
  | 0, _, _, _ => .error .diverges
  | fuel + 1, s, ptr, offset =>
    if ptr = 0 then .ok s
    else do
      let header := rcHeaderOf ptr offset
      let h ← s.getHeader header
      let s ← s.setHeader header (h.setCount (h.count - 1))
      if h.count - 1 = 0 then
        let s ← releaseOwned (fun s ptr ↦ decRefCountNested fuel s ptr 0) header
          (List.range toFreeSlots) s
        let h ← s.getHeader header
        { s with stats := s.stats.collected.released h.size }.free header
      else pure s

/-- `dec_ref_count` as the program calls it. -/
def decRefCount (s : RCState) (ptr offset : Nat) : Except Fault RCState :=
  decRefCountNested s.bound s ptr offset

/-- The allocator before any call. -/
def RCState.boot : RCState where
  stats := .zero
  live := []
  header := fun _ ↦ .fresh 0

end JBLang.Runtime
