import JBLang.Runtime.Memory

/-!
# The mark-sweep allocator

Model of `runtime/src/mark_sweep_allocator.c`. The headers of the blocks that
`malloc` has granted and `free` has not taken back are read and written through
checked accesses, so that touching a freed header is a fault and not a value.
`Contents` is what the collector finds in memory outside the headers.
-/

namespace JBLang.Runtime

/-- `sizeof(MSHeader)`. -/
def msHeaderSize : Nat := 32

/-- `MAX_ROOTS`, `runtime/src/mark_sweep_allocator.c:10`. -/
def maxRoots : Nat := 50

/-- `MSHeader`, `runtime/src/mark_sweep_allocator.c:16–21`. -/
structure MSHeader where
  marked : Bool
  size : Nat
  next : Option Nat
  prev : Option Nat
deriving DecidableEq, Repr

/-- Memory as a collection sees it: the word stored at each address (payloads, stack
and root slots) and the frame address that bounds the stack scan. -/
structure Contents where
  word : Nat → Nat
  stackTop : Nat

/-- The static variables of `mark_sweep_allocator.c` and the headers in the C heap.
The fields from `events` on are a record of the run that no operation reads. -/
structure MSState where
  stackBottom : Nat
  /-- `roots[0..root_index)`. -/
  roots : List Nat
  gcThreshold : Nat
  allocationList : Option Nat
  stats : AllocatorStats
  /-- Blocks granted by `malloc` and not yet freed. -/
  live : List Nat
  header : Nat → MSHeader
  /-- Every call of `malloc` that succeeded and every call of `free`. -/
  events : List HeapEvent
  /-- Every value `stats.current_bytes` has had. -/
  bytesSeen : List Nat

namespace MSState

/-- Load a header. -/
def getHeader (s : MSState) (a : Nat) : Except Fault MSHeader :=
  if a ∈ s.live then .ok (s.header a) else .error (.badAccess a)

/-- Store a header. -/
def setHeader (s : MSState) (a : Nat) (h : MSHeader) : Except Fault MSState :=
  if a ∈ s.live then .ok { s with header := Function.update s.header a h }
  else .error (.badAccess a)

/-- Store the statistics. -/
def setStats (s : MSState) (st : AllocatorStats) : MSState :=
  { s with stats := st, bytesSeen := st.currentBytes :: s.bytesSeen }

/-- `free(header)`. -/
def free (s : MSState) (a : Nat) : Except Fault MSState :=
  if a ∈ s.live then
    .ok { s with live := s.live.erase a, events := s.events ++ [.free a] }
  else .error (.badAccess a)

/-- Bound on the steps of a list walk and on the nesting of `mark`: a walk that takes
more steps has come back to a block and never ends. -/
def bound (s : MSState) : Nat := s.live.length + 1

end MSState

/-- First address of the payload, `(void*)(header+1)`. -/
def payloadStart (a : Nat) : Nat := addSize a msHeaderSize

/-- `(char*) start+(current->size-sizeof(MSHeader))`. -/
def payloadEnd (a : Nat) (h : MSHeader) : Nat :=
  addSize (payloadStart a) (subSize h.size msHeaderSize)

/-- The addresses `start`, `start+1`, ... of a loop over `void**` below `stop`. -/
def wordAddrs (start stop : Nat) : List Nat :=
  List.range' start ((stop - start + (wordSize - 1)) / wordSize) wordSize

/-- `ms_register_root`, `runtime/src/mark_sweep_allocator.c:26–33`. -/
def msRegisterRoot (s : MSState) (ptr : Nat) : Except Fault MSState :=
  if s.roots.length ≥ maxRoots then .error .exited
  else .ok { s with roots := s.roots ++ [ptr] }

/-- `add_allocation`, `runtime/src/mark_sweep_allocator.c:35–41`. -/
def addAllocation (s : MSState) (header : Nat) : Except Fault MSState := do
  let h ← s.getHeader header
  let s ← s.setHeader header { h with next := s.allocationList, prev := none }
  let s ← match s.allocationList with
    | some first => do
      let f ← s.getHeader first
      s.setHeader first { f with prev := some header }
    | none => pure s
  pure { s with allocationList := some header }

/-- `remove_allocation`, `runtime/src/mark_sweep_allocator.c:43–48`. -/
def removeAllocation (s : MSState) (header : Nat) : Except Fault MSState := do
  let h ← s.getHeader header
  let s ← match h.prev with
    | some p => do
      let before ← s.getHeader p
      s.setHeader p { before with next := h.next }
    | none => pure { s with allocationList := h.next }
  let h ← s.getHeader header
  match h.next with
  | some n => do
    let behind ← s.getHeader n
    s.setHeader n { behind with prev := h.prev }
  | none => pure s

/-- The loop of `find_header` and `is_valid_pointer`: the first block from `current` on
whose payload holds `ptr`. -/
def walkHeaders (s : MSState) (ptr : Nat) : Nat → Option Nat → Except Fault (Option Nat)
  | _, none => .ok none
  | 0, some _ => .error .diverges
  | fuel + 1, some current => do
    let h ← s.getHeader current
    if payloadStart current ≤ ptr ∧ ptr < payloadEnd current h then pure (some current)
    else walkHeaders s ptr fuel h.next

/-- `find_header`, `runtime/src/mark_sweep_allocator.c:66–80`. -/
def findHeader (s : MSState) (ptr : Nat) : Except Fault (Option Nat) :=
  if ptr = 0 then .ok none else walkHeaders s ptr s.bound s.allocationList

/-- `is_valid_pointer`, `runtime/src/mark_sweep_allocator.c:50–64`. -/
def isValidPointer (s : MSState) (ptr : Nat) : Except Fault Bool :=
  if ptr = 0 then .ok false
  else do
    let found ← walkHeaders s ptr s.bound s.allocationList
    pure found.isSome

/-- `if (is_valid_pointer(*p)) mark(*p);` -/
def markValid (mark : MSState → Nat → Except Fault MSState) (s : MSState) (ptr : Nat) :
    Except Fault MSState := do
  if ← isValidPointer s ptr then mark s ptr else pure s

/-- `mark`, `runtime/src/mark_sweep_allocator.c:82–96`, with a bound on the nesting. -/
def mark (c : Contents) : Nat → MSState → Nat → Except Fault MSState
  | 0, _, _ => .error .diverges
  | fuel + 1, s, ptr => do
    match ← findHeader s ptr with
    | none => pure s
    | some header =>
      let h ← s.getHeader header
      if h.marked then pure s
      else
        let s ← s.setHeader header { h with marked := true }
        (wordAddrs (payloadStart header) (addSize header h.size)).foldlM
          (fun s p ↦ markValid (mark c fuel) s (c.word p)) s

/-- `mark` as it is called from outside. -/
def markFrom (c : Contents) (s : MSState) (ptr : Nat) : Except Fault MSState :=
  mark c s.bound s ptr

/-- `conservative_scan_stack`, `runtime/src/mark_sweep_allocator.c:98–122`. -/
def conservativeScanStack (c : Contents) (s : MSState) : Except Fault MSState :=
  if c.stackTop < s.stackBottom then
    (wordAddrs c.stackTop s.stackBottom).foldlM
      (fun s p ↦ markValid (markFrom c) s (c.word p)) s
  else
    (wordAddrs s.stackBottom c.stackTop).foldlM
      (fun s p ↦ markValid (markFrom c) s (c.word p)) s

/-- The first loop of `mark_phase`: every flag is cleared. -/
def clearMarks (s : MSState) : Nat → Option Nat → Except Fault MSState
  | _, none => .ok s
  | 0, some _ => .error .diverges
  | fuel + 1, some current => do
    let h ← s.getHeader current
    let s ← s.setHeader current { h with marked := false }
    clearMarks s fuel h.next

/-- `mark_phase`, `runtime/src/mark_sweep_allocator.c:124–142`. -/
def markPhase (c : Contents) (s : MSState) : Except Fault MSState := do
  let s ← clearMarks s s.bound s.allocationList
  let s ← conservativeScanStack c s
  s.roots.foldlM (fun s root ↦ markValid (markFrom c) s (c.word root)) s

/-- The loop of `sweep_phase`. -/
def sweepLoop (s : MSState) : Nat → Option Nat → Except Fault MSState
  | _, none => .ok s
  | 0, some _ => .error .diverges
  | fuel + 1, some current => do
    let h ← s.getHeader current
    if h.marked then sweepLoop s fuel h.next
    else
      let s := s.setStats (s.stats.released h.size).collected
      let s ← removeAllocation s current
      let s ← s.free current
      sweepLoop s fuel h.next

/-- `sweep_phase`, `runtime/src/mark_sweep_allocator.c:144–170`. -/
def sweepPhase (s : MSState) : Except Fault MSState :=
  sweepLoop s s.bound s.allocationList

/-- `collect_garbage`, `runtime/src/mark_sweep_allocator.c:172–185`. -/
def collectGarbage (c : Contents) (s : MSState) : Except Fault MSState := do
  let s ← markPhase c s
  sweepPhase s

/-- `ms_alloc`, `runtime/src/mark_sweep_allocator.c:187–212`; `granted` is the answer of
`malloc`. Returns the payload pointer. -/
def msAlloc (c : Contents) (s : MSState) (size : Nat) (granted : Option Nat) :
    Except Fault (MSState × Option Nat) := do
  let total := addSize msHeaderSize size
  match granted with
  | none => pure (s, none)
  | some header =>
    let s := { s with live := header :: s.live, events := s.events ++ [HeapEvent.malloc header] }
    let s ← s.setHeader header ⟨false, total, none, none⟩
    let s ← addAllocation s header
    let s := s.setStats (s.stats.allocated total)
    let s ← if s.gcThreshold < s.stats.currentBytes then collectGarbage c s else pure s
    pure (s, some (payloadStart header))

/-- `ms_dealloc`, `runtime/src/mark_sweep_allocator.c:214–222`. -/
def msDealloc (s : MSState) (ptr : Nat) : Except Fault MSState :=
  if ptr = 0 then .ok s
  else do
    let header := subSize ptr msHeaderSize
    let s ← removeAllocation s header
    let h ← s.getHeader header
    let s := s.setStats (s.stats.released h.size)
    s.free header

/-- `ms_gc`, `runtime/src/mark_sweep_allocator.c:224–227`. -/
def msGc (c : Contents) (s : MSState) : Except Fault MSState := collectGarbage c s

/-- `ms_init`, `runtime/src/mark_sweep_allocator.c:238–247`; `frame` is the frame address. -/
def msInit (s : MSState) (frame : Nat) : MSState :=
  { s with stackBottom := frame, allocationList := none }.setStats .zero

/-- The loop of `ms_shutdown`. -/
def shutdownLoop (s : MSState) : Nat → Except Fault MSState
  | 0 => match s.allocationList with
    | none => .ok s
    | some _ => .error .diverges
  | fuel + 1 => match s.allocationList with
    | none => .ok s
    | some first => do
      let h ← s.getHeader first
      let s ← s.free first
      shutdownLoop { s with allocationList := h.next } fuel

/-- `ms_shutdown`, `runtime/src/mark_sweep_allocator.c:249–260`. -/
def msShutdown (c : Contents) (s : MSState) : Except Fault MSState := do
  let s ← collectGarbage c s
  shutdownLoop s s.bound

/-- `ms_set_gc_threshold`, `runtime/src/mark_sweep_allocator.c:262–265`. -/
def msSetGcThreshold (s : MSState) (threshold : Nat) : MSState :=
  { s with gcThreshold := threshold }

/-- The static variables as the program starts, before any call. -/
def MSState.boot : MSState where
  stackBottom := 0
  roots := []
  gcThreshold := 1024 * 1024
  allocationList := none
  stats := .zero
  live := []
  header := fun _ ↦ ⟨false, 0, none, none⟩
  events := []
  bytesSeen := [0]

end JBLang.Runtime
