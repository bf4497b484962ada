import Mathlib.Algebra.Group.Nat.Defs
import Mathlib.Data.List.Nodup
import Mathlib.Logic.Function.Basic

/-!
# Shared runtime vocabulary

Machine sizes, statistics and faults used by the allocators of `runtime/src`.
`size_t` values are natural numbers below `2 ^ 64` with wrap-around written out;
addresses and words are natural numbers, with `none` for `NULL` where a link may be absent.
-/

namespace JBLang.Runtime

/-- Modulus of `size_t` arithmetic. -/
def sizeModulus : Nat := 2 ^ 64

/-- Bytes of a `void*`, the step of a word scan. -/
def wordSize : Nat := 8

/-- `a + b` on `size_t`. -/
def addSize (a b : Nat) : Nat := (a + b) % sizeModulus

/-- `a - b` on `size_t`. -/
def subSize (a b : Nat) : Nat := (a + (sizeModulus - b % sizeModulus)) % sizeModulus

/-- Without wrap-around, `size_t` addition is addition. -/
theorem addSize_eq {a b : Nat} (h : a + b < sizeModulus) : addSize a b = a + b :=
  Nat.mod_eq_of_lt h

/-- Without wrap-around, `size_t` subtraction is subtraction. -/
theorem subSize_eq {a b : Nat} (ha : a < sizeModulus) (hb : b ≤ a) : subSize a b = a - b := by
  have hm : b % sizeModulus = b := Nat.mod_eq_of_lt (by omega)
  unfold subSize
  rw [hm, show a + (sizeModulus - b) = (a - b) + sizeModulus by omega, Nat.add_mod_right]
  exact Nat.mod_eq_of_lt (by omega)

/-- `AllocatorStats`, `runtime/include/runtime.h:18–23`. -/
structure AllocatorStats where
  totalAllocations : Nat
  currentBytes : Nat
  peakBytes : Nat
  totalCollections : Nat
deriving DecidableEq, Repr

/-- The statistics `{0}`. -/
def AllocatorStats.zero : AllocatorStats := ⟨0, 0, 0, 0⟩

/-- Count one successful allocation of `total` bytes: the update that `simple_alloc`,
`rc_alloc` and `ms_alloc` share. -/
def AllocatorStats.allocated (st : AllocatorStats) (total : Nat) : AllocatorStats :=
  let current := addSize st.currentBytes total
  { st with
    totalAllocations := addSize st.totalAllocations 1
    currentBytes := current
    peakBytes := if st.peakBytes < current then current else st.peakBytes }

/-- Take `size` bytes off the current total. -/
def AllocatorStats.released (st : AllocatorStats) (size : Nat) : AllocatorStats :=
  { st with currentBytes := subSize st.currentBytes size }

/-- Count one block found dead by a collector. -/
def AllocatorStats.collected (st : AllocatorStats) : AllocatorStats :=
  { st with totalCollections := addSize st.totalCollections 1 }

/-- Ways for a runtime call not to return normally. -/
inductive Fault where
  /-- A header is read, written or freed that no live block has. -/
  | badAccess (block : Nat)
  /-- A pointer walk or a recursion goes on past the number of live blocks. -/
  | diverges
  /-- `exit(1)`. -/
  | exited
deriving DecidableEq, Repr

/-- Calls of the C heap, in the order they happen. -/
inductive HeapEvent where
  | malloc (block : Nat)
  | free (block : Nat)
deriving DecidableEq, Repr

/-- The block a heap call grants. -/
def HeapEvent.granted : HeapEvent → Option Nat
  | .malloc b => some b
  | .free _ => none

/-- Replay of heap calls: the blocks still held afterwards, or `none` when a block is
granted while held or freed while not held. -/
def replay : List HeapEvent → List Nat → Option (List Nat)
  | [], held => some held
  | .malloc b :: rest, held => if b ∈ held then none else replay rest (b :: held)
  | .free b :: rest, held => if b ∈ held then replay rest (held.erase b) else none

/-- Replaying a longer sequence goes on from where the shorter one ended. -/
theorem replay_append (es fs : List HeapEvent) (held : List Nat) :
    replay (es ++ fs) held = (replay es held).bind (replay fs) := by
  induction es generalizing held with
  | nil => rfl
  | cons e es ih =>
    cases e with
    | malloc b =>
      simp only [List.cons_append, replay]
      split
      · rfl
      · exact ih _
    | free b =>
      simp only [List.cons_append, replay]
      split
      · exact ih _
      · rfl

end JBLang.Runtime
