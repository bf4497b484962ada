import JBLang.Runtime.RefCountRuns

/-!
# A heap that counts the references a program holds

The program holds a list of pointers, each `NULL` or the payload of a live block. Where no block
owns another one, the allocator's counts are exact: a block is live as long as it is held, and its
count is the number of times it is. The laws say how the calls of the runtime change what is held.
-/

namespace JBLang.Runtime

open JBLang.Base

/-- How many of the pointers lead to a block. -/
def refsTo (held : List Nat) (b : Nat) : Nat :=
  held.countP fun v ↦ v != 0 && rcHeaderOf v 0 == b

/-- The heap counts exactly the pointers in `held`, and no block owns another one. -/
structure Holds (s : RCState) (held : List Nat) : Prop where
  counted : Releasing [] s.live (refsTo held) s
  owns : ∀ x, (s.header x).toFree = []
  pointers : ∀ v ∈ held, v = 0 ∨ ∃ b ∈ s.live, v = rcPayload b

namespace Holds

variable {s s' : RCState} {held held' : List Nat} {a b v : Nat}

theorem perm (h : Holds s held) (hp : held.Perm held') : Holds s held' := by
  refine ⟨h.counted.congr_refs fun b ↦ ?_, h.owns, fun v hv ↦ h.pointers v (hp.mem_iff.mpr hv)⟩
  exact (hp.countP_eq _).symm

/-- Pointers to live blocks lead to their headers and are not `NULL`. -/
theorem payload (h : Holds s held) (hb : b ∈ s.live) :
    rcHeaderOf (rcPayload b) 0 = b ∧ rcPayload b ≠ 0 := by
  have hsound : RCRun.Sound ⟨s, refsTo held, fun _ ↦ 0⟩ := h.counted
  exact hsound.payload hb

theorem refsTo_null (held : List Nat) (b : Nat) : refsTo (0 :: held) b = refsTo held b := by
  simp [refsTo]

/-- `NULL` counts nowhere. -/
theorem cons_null : Holds s (0 :: held) ↔ Holds s held := by
  constructor
  · intro h
    refine ⟨h.counted.congr_refs fun b ↦ (refsTo_null held b).symm, h.owns, fun v hv ↦ ?_⟩
    exact h.pointers v (List.mem_cons_of_mem _ hv)
  · intro h
    refine ⟨h.counted.congr_refs (refsTo_null held), h.owns, fun v hv ↦ ?_⟩
    rcases List.mem_cons.mp hv with rfl | hv
    · exact .inl rfl
    · exact h.pointers v hv

theorem refsTo_payload (hp : rcHeaderOf (rcPayload b) 0 = b) (hne : rcPayload b ≠ 0)
    (held : List Nat) :
    refsTo (rcPayload b :: held) = Function.update (refsTo held) b (refsTo held b + 1) := by
  funext x
  by_cases hx : x = b
  · subst hx
    simp [refsTo, hp, hne]
  · simp [refsTo, hp, hne, hx, Ne.symm hx]

/-- A block that the program gets is held once. -/
theorem alloc (h : Holds s held) (ha : a ∉ s.live) (hr : a + rcHeaderSize < sizeModulus)
    (bytes : Nat) :
    ∃ s', rcAlloc s bytes (some a) = .ok (s', rcPayload a) ∧ Holds s' (rcPayload a :: held) := by
  have hal : a ∈ a :: s.live := List.mem_cons_self
  have hp := rcHeaderOf_payload hr
  refine ⟨s.addBlock a (addSize bytes rcHeaderSize), ?_, ?_, fun x ↦ ?_, fun v hv ↦ ?_⟩
  · simp only [rcAlloc, RCState.setHeader, if_pos hal, bind, Except.bind, pure, Except.pure]
    rfl
  · have hzero : refsTo held a = 0 := h.counted.balanced.refs_dead a ha
    refine (h.counted.addBlock ha hr _).congr_refs fun b ↦ ?_
    rw [refsTo_payload hp (ne_null_of_header hp hr), hzero]
  · by_cases hx : x = a
    · subst hx
      simp [RCState.addBlock, RefcountHeader.fresh]
    · simpa [RCState.addBlock, hx] using h.owns x
  · rcases List.mem_cons.mp hv with rfl | hv
    · exact .inr ⟨a, hal, rfl⟩
    · refine (h.pointers v hv).imp_right ?_
      rintro ⟨b, hb, rfl⟩
      exact ⟨b, List.mem_cons_of_mem _ hb, rfl⟩

/-- A pointer that is held once more. -/
theorem inc (h : Holds s held) (hv : v ∈ held) :
    ∃ s', incRefCount s v 0 = .ok s' ∧ Holds s' (v :: held) := by
  rcases h.pointers v hv with rfl | ⟨b, hb, rfl⟩
  · exact ⟨s, rfl, cons_null.mpr h⟩
  · obtain ⟨hp, hne⟩ := h.payload hb
    refine ⟨s.setCount b (s.countOf b + 1), incRefCount_live hb (h.counted.inRange b hb), ?_,
      fun x ↦ ?_, fun w hw ↦ ?_⟩
    · rw [refsTo_payload hp hne]
      exact h.counted.incr hb
    · rw [setCount_toFree]
      exact h.owns x
    · rcases List.mem_cons.mp hw with rfl | hw
      · exact .inr ⟨b, hb, rfl⟩
      · exact h.pointers w hw

theorem refsTo_cons_erase (hv : v ∈ held) (b : Nat) :
    refsTo held b = refsTo (v :: held.erase v) b :=
  (List.perm_cons_erase hv).countP_eq _

/-- Without owners a block is live as long as it is held, and its count is how often it is. -/
theorem count_eq (h : Holds s held) (hb : b ∈ s.live) : s.countOf b = refsTo held b := by
  have hcount := h.counted.balanced.count_eq b hb
  have hzero : ownedTimes s.live s.ownedOf b = 0 := by
    refine ownedTimes_eq_zero fun o _ ↦ ?_
    simp [RCState.ownedOf, h.owns o]
  omega

theorem held_of_live (h : Holds s held) (hb : b ∈ s.live) : rcPayload b ∈ held := by
  have hpos := h.counted.balanced.count_pos b hb
  rw [h.count_eq hb] at hpos
  obtain ⟨v, hv, htest⟩ := List.countP_pos_iff.mp (Int.natCast_pos.mp hpos)
  simp only [Bool.and_eq_true, bne_iff_ne, ne_eq, beq_iff_eq] at htest
  obtain ⟨c, hc, rfl⟩ := (h.pointers v hv).resolve_left htest.1
  rw [(h.payload hc).1] at htest
  rw [← htest.2]
  exact hv

/-- A pointer that is held once less. -/
theorem dec (h : Holds s held) (hv : v ∈ held) :
    ∃ s', decRefCount s v 0 = .ok s' ∧ Holds s' (held.erase v) := by
  have hperm := List.perm_cons_erase hv
  rcases h.pointers v hv with rfl | ⟨b, hb, rfl⟩
  · exact ⟨s, rfl, cons_null.mp (h.perm hperm)⟩
  · obtain ⟨hp, hne⟩ := h.payload hb
    have hrefs : refsTo held = Function.update (refsTo (held.erase (rcPayload b))) b
        (refsTo (held.erase (rcPayload b)) b + 1) := by
      funext x
      rw [refsTo_cons_erase hv, refsTo_payload hp hne]
    have hpos : 0 < refsTo held b := by
      rw [hrefs, Function.update_self]
      omega
    obtain ⟨s', l', hrun, h', -, hsame⟩ := decRefCountNested_releases s.bound hp h.counted hpos
      (Nat.le_succ _)
    have hcounted : Releasing [] s'.live (refsTo (held.erase (rcPayload b))) s' := by
      refine h'.settle.congr_refs fun x ↦ ?_
      rw [hrefs]
      by_cases hx : x = b
      · subst hx
        simp
      · simp [hx]
    refine ⟨s', hrun, hcounted, fun x ↦ (hsame x).trans (h.owns x), fun w hw ↦ ?_⟩
    -- What is still held is referred to and so still live.
    refine (h.pointers w (List.mem_of_mem_erase hw)).imp_right ?_
    rintro ⟨c, hc, rfl⟩
    obtain ⟨hpc, hnec⟩ := h.payload hc
    refine ⟨c, hcounted.balanced.mem_of_refs ?_, rfl⟩
    exact List.countP_pos_iff.mpr ⟨_, hw, by simp [hpc, hnec]⟩

/-- Nothing held, nothing live. -/
theorem of_nil (h : Holds s []) : s.live = [] ∧ s.stats.currentBytes = 0 := by
  have hlive : s.live = [] := by
    rw [List.eq_nil_iff_forall_not_mem]
    intro b hb
    simpa using h.held_of_live hb
  refine ⟨hlive, ?_⟩
  rw [h.counted.tallied.bytes, hlive]
  rfl

/-- Nothing is held at the start. -/
theorem start : Holds (rcInit .boot) [] := by
  refine ⟨?_, fun _ ↦ rfl, nofun⟩
  exact RCRun.start_sound

end Holds

end JBLang.Runtime
