import JBLang.Runtime.RefCountRuns

/-!
# Ownership without leaks

A block that is offered to an owner without a free slot is counted and never released. Apart from
that, a program that drops all its direct references and whose ownership has no cycles leaves no
block behind.
-/

namespace JBLang.Runtime

open JBLang.Base

variable {s s' : RCState} {r r' : RCRun} {op : RCOp}

/-- The recorded ownership edges form no cycle. -/
def RCState.OwnershipAcyclic (s : RCState) : Prop :=
  ∀ b, ¬ Relation.TransGen (fun b o ↦ o ∈ s.live ∧ b ∈ s.ownedOf o) b b

/-- Every block has been freed, and the statistics say so. -/
structure RCState.NothingLeaked (s : RCState) : Prop where
  live : s.live = []
  currentBytes : s.stats.currentBytes = 0
  totalCollections : s.stats.totalCollections = s.stats.totalAllocations

/-- The call does not offer a block to an owner without a free slot. -/
def RCRun.HasSlot (r : RCRun) : RCOp → Prop
  | .inc ptr other => ptr ≠ 0 → other ≠ 0 → (r.state.header (rcHeaderOf other 0)).idx < toFreeSlots
  | .alloc .. | .dec _ => True

instance (r : RCRun) : (op : RCOp) → Decidable (r.HasSlot op)
  | .inc ptr other => inferInstanceAs (Decidable (ptr ≠ 0 → other ≠ 0 →
      (r.state.header (rcHeaderOf other 0)).idx < toFreeSlots))
  | .alloc .. => .isTrue trivial
  | .dec _ => .isTrue trivial

/-! ### The collection counter -/

private theorem setHeader_stats {a : Nat} {h : RefcountHeader} (hs : s.setHeader a h = .ok s') :
    s'.stats = s.stats := by
  unfold RCState.setHeader at hs
  split at hs
  · cases hs
    rfl
  · cases hs

/-- A counter that has not overflowed. -/
def CountsCollections (s : RCState) : Prop := s.stats.totalCollections < sizeModulus

theorem decRefCountNested_counts {fuel ptr offset : Nat}
    (hrun : decRefCountNested fuel s ptr offset = .ok s') (h : CountsCollections s) :
    CountsCollections s' := by
  induction fuel generalizing s s' ptr offset with
  | zero => cases hrun
  | succ fuel ih =>
    rw [decRefCountNested] at hrun
    split at hrun
    · cases hrun
      exact h
    · obtain ⟨hd, -, hrun⟩ := bind_eq_ok.mp hrun
      obtain ⟨s₁, hs₁, hrun⟩ := bind_eq_ok.mp hrun
      have h₁ : CountsCollections s₁ := by
        rw [CountsCollections, setHeader_stats hs₁]
        exact h
      split at hrun
      · obtain ⟨s₂, hs₂, hrun⟩ := bind_eq_ok.mp hrun
        obtain ⟨hd₂, -, hrun⟩ := bind_eq_ok.mp hrun
        unfold RCState.free at hrun
        split at hrun
        · cases hrun
          exact Nat.mod_lt _ (by decide)
        · cases hrun
      · cases hrun
        exact h₁

namespace RCRun

/-- What a call returns with is accounted for. -/
private theorem perform_eq_ok (hrun : r.perform op = .ok r') : ∃ s, r' = r.account s op ∧
    (CountsCollections r.state → CountsCollections s) := by
  cases op with
  | alloc bytes granted =>
    obtain ⟨⟨s₁, _⟩, hs₁, hrun⟩ := bind_eq_ok.mp hrun
    cases hrun
    refine ⟨s₁, rfl, fun h ↦ ?_⟩
    cases granted with
    | none => cases hs₁
    | some a =>
      obtain ⟨s₂, hs₂, hs₁⟩ := bind_eq_ok.mp hs₁
      cases hs₁
      have hstats := setHeader_stats hs₂
      rw [CountsCollections] at h ⊢
      exact (congrArg (·.totalCollections) hstats) ▸ h
  | inc ptr other =>
    obtain ⟨s₁, hs₁, hrun⟩ := bind_eq_ok.mp hrun
    cases hrun
    refine ⟨s₁, rfl, fun h ↦ ?_⟩
    unfold incRefCount at hs₁
    split at hs₁
    · cases hs₁
      exact h
    · obtain ⟨hd, -, hs₁⟩ := bind_eq_ok.mp hs₁
      obtain ⟨s₂, hs₂, hs₁⟩ := bind_eq_ok.mp hs₁
      rw [CountsCollections, ← setHeader_stats hs₂] at h
      split at hs₁
      · cases hs₁
        exact h
      · obtain ⟨o, -, hs₁⟩ := bind_eq_ok.mp hs₁
        rw [CountsCollections, setHeader_stats hs₁]
        exact h
  | dec ptr =>
    obtain ⟨s₁, hs₁, hrun⟩ := bind_eq_ok.mp hrun
    cases hrun
    exact ⟨s₁, rfl, decRefCountNested_counts hs₁⟩

private theorem account_state (r : RCRun) (s : RCState) (op : RCOp) : (r.account s op).state = s := by
  cases op with
  | alloc bytes granted => cases granted <;> rfl
  | inc ptr other =>
    simp only [account]
    split_ifs <;> rfl
  | dec ptr =>
    simp only [account]
    split <;> rfl

/-- A call loses no reference exactly if the owner that it names has a free slot. -/
theorem lost_step_iff (h : r.Sound) (ha : r.Allowed op) (hrun : r.perform op = .ok r') :
    (∀ b, r'.lost b = 0) ↔ (∀ b, r.lost b = 0) ∧ r.HasSlot op := by
  obtain ⟨s, rfl, -⟩ := perform_eq_ok hrun
  cases op with
  | alloc bytes granted =>
    refine Iff.trans ?_ (and_iff_left trivial).symm
    cases granted with
    | none => exact Iff.rfl
    | some a =>
      -- The new block was dead, so no lost reference is forgotten.
      have hdead := h.balanced.refs_dead a ha.1
      have hlost : r.lost a = 0 := by omega
      have hsame : Function.update r.lost a 0 = r.lost := by rw [← hlost, Function.update_eq_self]
      rw [account, hsame]
  | dec ptr =>
    refine Iff.trans ?_ (and_iff_left trivial).symm
    rw [account]
    split <;> exact Iff.rfl
  | inc ptr other =>
    simp only [account, HasSlot]
    by_cases hp : ptr = 0
    · simp [hp]
    · by_cases ho : other = 0
      · simp [hp, ho]
      · by_cases hslot : (r.state.header (rcHeaderOf other 0)).idx < toFreeSlots
        · simp [hp, ho, hslot]
        · refine iff_of_false (fun hzero ↦ ?_) fun hboth ↦ hslot (hboth.2 hp ho)
          have hb := hzero (rcHeaderOf ptr 0)
          simp [hp, ho, hslot] at hb

/-- The references lost in a run are those of its calls. -/
theorem lost_run_iff (h : r.Sound) (ops : List RCOp) (ha : AllAllowed perform Allowed r ops)
    (hrun : runAll perform r ops = .ok r') :
    (∀ b, r'.lost b = 0) ↔ (∀ b, r.lost b = 0) ∧ AllAllowed perform HasSlot r ops := by
  induction ops generalizing r with
  | nil =>
    cases hrun
    exact (and_iff_left trivial).symm
  | cons op ops ih =>
    obtain ⟨hop, hrest⟩ := ha
    rcases h.perform hop with ⟨r₁, hr₁, h₁⟩ | ⟨he, -⟩
    · simp only [runAll, hr₁] at hrun
      rw [ih h₁ (hrest r₁ hr₁) hrun, lost_step_iff h hop hr₁]
      simp only [AllAllowed, hr₁, Except.ok.injEq, forall_eq', and_assoc]
    · simp [runAll, he] at hrun

/-- Allowed calls return, unless `malloc` has no memory. -/
theorem run_returns (ops : List RCOp) (ha : AllAllowed perform Allowed start ops)
    (hmem : ∀ bytes, RCOp.alloc bytes none ∉ ops) :
    ∃ r, runAll perform start ops = .ok r ∧ r.Sound ∧ CountsCollections r.state := by
  have hstep : ∀ {r : RCRun} {op : RCOp},
      r.Sound ∧ CountsCollections r.state → r.Allowed op →
      (∃ r', r.perform op = .ok r' ∧ r'.Sound ∧ CountsCollections r'.state) ∨
        ∃ e, r.perform op = .error e ∧ ∃ bytes, op = .alloc bytes none := by
    intro r op hs hop
    rcases hs.1.perform hop with ⟨r', hr', hs'⟩ | ⟨he, hnone⟩
    · obtain ⟨s, rfl, hcounts⟩ := perform_eq_ok hr'
      refine .inl ⟨_, hr', hs', ?_⟩
      rw [account_state]
      exact hcounts hs.2
    · exact .inr ⟨_, he, hnone⟩
  have hstart : CountsCollections start.state := Nat.two_pow_pos 64
  rcases runAll_keeps (fun _ r ↦ r.Sound ∧ CountsCollections r.state)
    (fun _ op _ ↦ ∃ bytes, op = .alloc bytes none) (fun {_} ↦ hstep)
    ⟨start_sound, hstart⟩ ops ha with ⟨r, hr, hs⟩ | ⟨pre, op, post, e, rfl, -, bytes, rfl⟩
  · exact ⟨r, hr, hs⟩
  · exact absurd (by simp) (hmem bytes)

/-- When no reference is left, nothing has leaked exactly if no reference was lost. -/
theorem nothingLeaked_iff (h : r.Sound) (hcounts : CountsCollections r.state)
    (hdirect : ∀ b, r.direct b = 0) (hac : r.state.OwnershipAcyclic) :
    r.state.NothingLeaked ↔ ∀ b, r.lost b = 0 := by
  constructor
  · intro hleak b
    have hdead := h.balanced.refs_dead b (by rw [hleak.live]; exact List.not_mem_nil)
    omega
  · intro hlost
    have hrefs : ∀ b, r.direct b + r.lost b = 0 := fun b ↦ by rw [hdirect, hlost]
    have hlive : r.state.live = [] := h.balanced.eq_nil_of_acyclic hrefs hac
    have hbytes := h.tallied.bytes
    have hblocks := h.tallied.blocks
    rw [hlive] at hbytes hblocks
    refine ⟨hlive, hbytes, ?_⟩
    rw [hblocks, List.length_nil, Nat.zero_add, Nat.mod_eq_of_lt hcounts]

end RCRun

/-- Ownership and leaks over whole runs: allowed calls return, and once every direct reference is
dropped and the ownership edges have no cycle, every block has been freed exactly if no block was
offered to an owner whose `to_free` list was full. -/
theorem ownership_without_leak_iff (ops : List RCOp)
    (h : AllAllowed RCRun.perform RCRun.Allowed RCRun.start ops)
    (hmem : ∀ bytes, RCOp.alloc bytes none ∉ ops) :
    ∃ r, runAll RCRun.perform RCRun.start ops = .ok r ∧
      ((∀ b, r.direct b = 0) → r.state.OwnershipAcyclic →
        (r.state.NothingLeaked ↔ AllAllowed RCRun.perform RCRun.HasSlot RCRun.start ops)) := by
  obtain ⟨r, hr, hs, hcounts⟩ := RCRun.run_returns ops h hmem
  refine ⟨r, hr, fun hdirect hac ↦ ?_⟩
  rw [RCRun.nothingLeaked_iff hs hcounts hdirect hac, RCRun.lost_run_iff RCRun.start_sound ops h hr]
  exact and_iff_right fun _ ↦ rfl

/-- One owner of three blocks, of which one owns another; all direct references are dropped. -/
def threeOwned : List RCOp :=
  [.alloc 8 (some 1000), .alloc 8 (some 2000), .alloc 8 (some 3000), .alloc 8 (some 4000),
   .inc 2048 1048, .inc 3048 1048, .inc 4048 1048, .inc 4048 2048,
   .dec 2048, .dec 3048, .dec 4048, .dec 1048]

private theorem direct_eq_zero {ops : List RCOp} (h : AllAllowed RCRun.perform RCRun.Allowed RCRun.start ops)
    (hmem : ∀ bytes, RCOp.alloc bytes none ∉ ops) (hr : runAll RCRun.perform RCRun.start ops = .ok r)
    (hlive : ∀ b ∈ r.state.live, r.direct b = 0) (b : Nat) : r.direct b = 0 := by
  obtain ⟨r', hr', hs, -⟩ := RCRun.run_returns ops h hmem
  cases hr.symm.trans hr'
  by_cases hb : b ∈ r.state.live
  · exact hlive b hb
  · have hdead := hs.balanced.refs_dead b hb
    omega

/-- The blocks of `threeOwned` are all freed. -/
theorem ownership_without_leak_iff_threeOwned :
    ∃ r, runAll RCRun.perform RCRun.start threeOwned = .ok r ∧ r.state.NothingLeaked := by
  have ha : AllAllowed RCRun.perform RCRun.Allowed RCRun.start threeOwned := by decide +kernel
  have hmem : ∀ bytes, RCOp.alloc bytes none ∉ threeOwned := by simp [threeOwned]
  obtain ⟨r, hr, hiff⟩ := ownership_without_leak_iff threeOwned ha hmem
  have hlive : (runAll RCRun.perform RCRun.start threeOwned).toOption.map (·.state.live) =
      some [] := by decide +kernel
  rw [hr] at hlive
  have hnone : r.state.live = [] := Option.some.inj hlive
  have hdirect := direct_eq_zero ha hmem hr (by simp [hnone])
  have hac : r.state.OwnershipAcyclic := by
    intro b hb
    obtain ⟨o, ho, -⟩ := Relation.TransGen.head'_iff.mp hb
    simp [hnone] at ho
  exact ⟨r, hr, (hiff hdirect hac).mpr (by decide +kernel)⟩

/-- One owner of four blocks; all direct references are dropped. -/
def fourOwned : List RCOp :=
  [.alloc 8 (some 1000), .alloc 8 (some 2000), .alloc 8 (some 3000), .alloc 8 (some 4000),
   .alloc 8 (some 5000), .inc 2048 1048, .inc 3048 1048, .inc 4048 1048, .inc 5048 1048,
   .dec 2048, .dec 3048, .dec 4048, .dec 5048, .dec 1048]

/-- The fourth block of `fourOwned` is never freed: the owner did not record it. -/
theorem fourOwned_leaks :
    AllAllowed RCRun.perform RCRun.Allowed RCRun.start fourOwned ∧
      ∃ r, runAll RCRun.perform RCRun.start fourOwned = .ok r ∧ (∀ b, r.direct b = 0) ∧
        r.state.OwnershipAcyclic ∧ r.state.live = [5000] ∧ ¬ r.state.NothingLeaked := by
  have ha : AllAllowed RCRun.perform RCRun.Allowed RCRun.start fourOwned := by decide +kernel
  have hmem : ∀ bytes, RCOp.alloc bytes none ∉ fourOwned := by simp [fourOwned]
  obtain ⟨r, hr, -, -⟩ := RCRun.run_returns fourOwned ha hmem
  have hfacts : (runAll RCRun.perform RCRun.start fourOwned).toOption.map (fun r ↦
      (r.state.live, r.direct 5000, r.state.ownedOf 5000)) = some ([5000], 0, []) := by
    decide +kernel
  rw [hr] at hfacts
  obtain ⟨hlive, hzero, howned⟩ :
      r.state.live = [5000] ∧ r.direct 5000 = 0 ∧ r.state.ownedOf 5000 = [] := by
    simpa only [Except.toOption, Option.map_some, Option.some.injEq, Prod.mk.injEq] using hfacts
  refine ⟨ha, r, hr, direct_eq_zero ha hmem hr (by simp [hlive, hzero]), ?_, hlive, fun h ↦ ?_⟩
  · intro b hb
    obtain ⟨o, ⟨ho, howns⟩, -⟩ := Relation.TransGen.head'_iff.mp hb
    rw [hlive, List.mem_singleton] at ho
    simp [ho, howned] at howns
  · rw [h.live] at hlive
    cases hlive

end JBLang.Runtime
