import Mathlib.Data.List.Pairwise
import Mathlib.Data.Set.Disjoint
import Mathlib.Data.Set.Lattice
import Mathlib.Order.CompletePartialOrder
import JBLang.Runtime.MarkPhase

/-!
# What a mark-sweep collection keeps

The blocks that `collect_garbage` keeps are exactly the ones reachable from the scanned
words, when the payloads of the listed blocks are disjoint. A word then points into at
most one block, and the pointer tests of the code are interval tests.
-/

namespace JBLang.Runtime

open JBLang.Base

variable {c : Contents} {s : MSState} {l : List Nat}

/-- The payload range `[header+1, header+size)` of a block. -/
def payload (s : MSState) (a : Nat) : Set Nat :=
  {w | a + msHeaderSize ≤ w ∧ w < a + s.sizeOf a}

/-- The listed blocks are as `malloc` grants memory: inside the address space and with
pairwise disjoint payloads. -/
structure Placed (s : MSState) (l : List Nat) : Prop where
  inSpace : ∀ a ∈ l, a + msHeaderSize < sizeModulus ∧ a + s.sizeOf a < sizeModulus
  disjoint : l.Pairwise fun a b ↦ Disjoint (payload s a) (payload s b)

/-- A word reaches the listed blocks whose payload it lies in. -/
def targets (s : MSState) (l : List Nat) (w : Nat) : Set Nat := {b | b ∈ l ∧ w ∈ payload s b}

/-- The words at offsets 0, 8, 16, ... of the payload of a block. -/
def payloadWords (c : Contents) (s : MSState) (a : Nat) : List Nat :=
  (wordAddrs (a + msHeaderSize) (a + s.sizeOf a)).map c.word

/-- A listed block reaches another one through a word of its payload. -/
def blockEdge (c : Contents) (s : MSState) (l : List Nat) (a b : Nat) : Prop :=
  a ∈ l ∧ ∃ w ∈ payloadWords c s a, b ∈ targets s l w

/-- A block is reachable from the words a collection starts from. -/
def Reachable (c : Contents) (s : MSState) (l : List Nat) (b : Nat) : Prop :=
  ∃ w ∈ rootWords c s, ∃ a ∈ targets s l w, Relation.ReflTransGen (blockEdge c s l) a b

/-- The offsets of a word scan are the multiples of the word size below the end. -/
theorem mem_wordAddrs {start stop p : Nat} :
    p ∈ wordAddrs start stop ↔ ∃ k, p = start + wordSize * k ∧ p < stop := by
  rw [wordAddrs, List.mem_range']
  unfold wordSize
  constructor
  · rintro ⟨i, hi, rfl⟩
    refine ⟨i, rfl, ?_⟩
    omega
  · rintro ⟨k, rfl, hk⟩
    refine ⟨k, ?_, rfl⟩
    omega

/-! ### The pointer tests -/

theorem payloadStart_eq {a : Nat} (h : a + msHeaderSize < sizeModulus) :
    payloadStart a = a + msHeaderSize := addSize_eq h

private theorem payloadEnd_eq {a : Nat} (h : MSHeader) (ha : a + msHeaderSize < sizeModulus)
    (hs : a + h.size < sizeModulus) : payloadEnd a h = a + h.size := by
  unfold payloadEnd addSize subSize
  rw [payloadStart_eq ha]
  have hlt : msHeaderSize < sizeModulus := by decide
  rw [Nat.mod_eq_of_lt hlt, Nat.add_mod_mod]
  have he : a + msHeaderSize + (h.size + (sizeModulus - msHeaderSize)) =
      (a + h.size) + sizeModulus := by omega
  rw [he, Nat.add_mod_right]
  exact Nat.mod_eq_of_lt hs

private theorem holdsPtr_iff (hp : Placed s l) {a : Nat} (ha : a ∈ l) (w : Nat) :
    holdsPtr s w a = true ↔ w ∈ payload s a := by
  obtain ⟨h₁, h₂⟩ := hp.inSpace a ha
  simp only [holdsPtr, decide_eq_true_eq]
  rw [payloadStart_eq h₁, payloadEnd_eq _ h₁ h₂]
  rfl

private theorem headerOf_iff (hp : Placed s l) (w b : Nat) :
    headerOf s l w = some b ↔ b ∈ targets s l w := by
  have hs : Std.Symm fun x y ↦ Disjoint (payload s x) (payload s y) := ⟨fun _ _ h ↦ h.symm⟩
  have hpos (hb : w ∈ payload s b) : w ≠ 0 := by
    have := hb.1
    simp only [msHeaderSize] at this
    omega
  constructor
  · intro hw
    unfold headerOf at hw
    split at hw
    · cases hw
    · have hb : b ∈ l := List.mem_of_find?_eq_some hw
      exact ⟨hb, (holdsPtr_iff hp hb w).mp (List.find?_some hw)⟩
  · rintro ⟨hb, hm⟩
    unfold headerOf
    rw [if_neg (hpos hm)]
    cases hf : l.find? (holdsPtr s w) with
    | none => exact absurd ((holdsPtr_iff hp hb w).mpr hm) (List.find?_eq_none.mp hf b hb)
    | some a =>
      have ha : a ∈ l := List.mem_of_find?_eq_some hf
      have hma : w ∈ payload s a := (holdsPtr_iff hp ha w).mp (List.find?_some hf)
      by_contra hne
      have hd := hp.disjoint.forall ha hb (fun he ↦ hne (congrArg some he))
      exact Set.disjoint_left.mp hd hma hm

private theorem mem_hits (hp : Placed s l) (ws : List Nat) (b : Nat) :
    b ∈ hits s l ws ↔ ∃ w ∈ ws, b ∈ targets s l w := by
  simp only [hits, Set.mem_ofPred_eq, headerOf_iff hp]

private theorem scanEdge_eq (hp : Placed s l) : scanEdge c s l = blockEdge c s l := by
  funext a b
  apply propext
  apply and_congr_right
  intro ha
  obtain ⟨h₁, h₂⟩ := hp.inSpace a ha
  rw [mem_hits hp, scannedWords, payloadStart_eq h₁, addSize_eq h₂]
  rfl

private theorem reachable_iff (hp : Placed s l) (b : Nat) :
    (∃ a ∈ hits s l (rootWords c s), Relation.ReflTransGen (scanEdge c s l) a b) ↔
      Reachable c s l b := by
  rw [scanEdge_eq hp]
  constructor
  · rintro ⟨a, ha, hr⟩
    obtain ⟨w, hw, ht⟩ := (mem_hits hp _ a).mp ha
    exact ⟨w, hw, a, ht, hr⟩
  · rintro ⟨w, hw, a, ht, hr⟩
    exact ⟨a, (mem_hits hp _ a).mpr ⟨w, hw, ht⟩, hr⟩

/-- A collection keeps what can be reached. -/
theorem collectGarbage_keeps (c : Contents) {s : MSState} {l : List Nat} (h : Listed s l)
    (hp : Placed s l) : ∃ s' l', collectGarbage c s = .ok s' ∧ Listed s' l' ∧
      ∀ b ∈ l, Reachable c s l b → b ∈ l' := by
  obtain ⟨m, hrun, hm⟩ := collectGarbage_eq c h
  refine ⟨_, _, hrun, (h.setMarks m).sweepBlocks, fun b hb hreach ↦ ?_⟩
  exact List.mem_filter.mpr ⟨hb, (hm b hb).mpr ((reachable_iff hp b).mpr hreach)⟩

/-! ### Exactness -/

open scoped Classical in
/-- A collection of a state with pairwise disjoint payloads returns; it leaves on the list
exactly the reachable blocks, in their old order, and frees exactly the others. Flags set
before the collection, cycles, self references and interior pointers are all covered:
nothing is assumed about flags or contents. -/
theorem collectGarbage_exact (c : Contents) (s : MSState) (l : List Nat)
    (h : Listed s l) (hp : Placed s l) :
    ∃ s', collectGarbage c s = .ok s' ∧
      Listed s' (l.filter fun b ↦ decide (Reachable c s l b)) ∧
      s'.events = s.events ++ (l.filter fun b ↦ !decide (Reachable c s l b)).map .free := by
  obtain ⟨m, hrun, hm⟩ := collectGarbage_eq c h
  have hflag (b : Nat) (hb : b ∈ l) : m b = decide (Reachable c s l b) := by
    apply Bool.eq_iff_iff.mpr
    rw [hm b hb, reachable_iff hp, decide_eq_true_eq]
  have hkept : l.filter m = l.filter fun b ↦ decide (Reachable c s l b) :=
    List.filter_congr hflag
  have hfreed : l.filter (fun b ↦ !m b) = l.filter fun b ↦ !decide (Reachable c s l b) :=
    List.filter_congr fun b hb ↦ congrArg _ (hflag b hb)
  refine ⟨(s.setMarks m).sweepBlocks l, hrun, ?_, ?_⟩
  · rw [← hkept]
    exact (h.setMarks m).sweepBlocks
  · rw [← hfreed]
    exact sweepBlocks_events (s.setMarks m) l

/-- Three blocks: 3000 and 2000 point into each other, 1000 points to itself; only 3000
is on the stack, and every flag is still set from an earlier collection. -/
def cycleState : MSState :=
  { MSState.boot with
    stackBottom := 8008
    allocationList := some 3000
    live := [3000, 2000, 1000]
    header := fun a ↦
      if a = 3000 then ⟨true, 48, some 2000, none⟩
      else if a = 2000 then ⟨true, 48, some 1000, some 3000⟩
      else ⟨true, 48, none, some 2000⟩ }

/-- Memory contents for `cycleState`; 2040 and 1040 are interior pointers. -/
def cycleContents : Contents where
  word := fun a ↦ if a = 8000 then 3032 else if a = 3032 then 2040 else if a = 2032 then 3032
    else if a = 1040 then 1040 else 0
  stackTop := 8000

theorem cycleState_listed : Listed cycleState [3000, 2000, 1000] := by
  refine ⟨⟨rfl, ?_, by decide⟩, ?_⟩
  · refine ⟨rfl, rfl, rfl, rfl, rfl, rfl, trivial⟩
  · intro a ha
    exact ha

private theorem cycleState_placed : Placed cycleState [3000, 2000, 1000] := by
  have hsize (a : Nat) : cycleState.sizeOf a = 48 := by
    unfold MSState.sizeOf cycleState
    dsimp only
    split
    · rfl
    · split <;> rfl
  have hdisj (a b : Nat) (hab : b + 48 ≤ a) :
      Disjoint (payload cycleState a) (payload cycleState b) := by
    apply Set.disjoint_left.mpr
    rintro w ⟨h₁, _⟩ ⟨_, h₂⟩
    rw [hsize] at h₂
    omega
  constructor
  · intro a ha
    rw [hsize]
    have hle : a ≤ 3000 := by
      simp at ha
      omega
    simp only [sizeModulus, msHeaderSize]
    omega
  · refine List.pairwise_cons.mpr ⟨?_, List.pairwise_cons.mpr ⟨?_, List.pairwise_singleton _ _⟩⟩
    · intro b hb
      apply hdisj
      simp at hb
      omega
    · intro b hb
      apply hdisj
      simp at hb
      omega

open scoped Classical in
/-- The exactness result at the cyclic state. -/
theorem collectGarbage_exact_cycle :
    Listed cycleState [3000, 2000, 1000] ∧ Placed cycleState [3000, 2000, 1000] ∧
      ∃ s', collectGarbage cycleContents cycleState = .ok s' ∧
        Listed s' ([3000, 2000, 1000].filter fun b ↦
          decide (Reachable cycleContents cycleState [3000, 2000, 1000] b)) ∧
        s'.events = [] ++ ([3000, 2000, 1000].filter fun b ↦
          !decide (Reachable cycleContents cycleState [3000, 2000, 1000] b)).map .free :=
  ⟨cycleState_listed, cycleState_placed,
    collectGarbage_exact cycleContents cycleState [3000, 2000, 1000]
      cycleState_listed cycleState_placed⟩

-- the block that only points to itself is freed, the cycle on the stack is kept
example : (collectGarbage cycleContents cycleState).map (fun s ↦ (s.live, s.events)) =
    .ok ([3000, 2000], [.free 1000]) := by
  decide

/-! ### A second collection -/

/-- What a sweep leaves as it is. -/
structure SweptFrom (s s' : MSState) : Prop where
  sizeOf : s'.sizeOf = s.sizeOf
  stackBottom : s'.stackBottom = s.stackBottom
  roots : s'.roots = s.roots

theorem sweptFrom_sweepBlocks (s : MSState) (l : List Nat) : SweptFrom s (s.sweepBlocks l) :=
  sweepBlocks_induct (P := fun s' _ ↦ SweptFrom s s') []
    (fun h ↦ ⟨h.sizeOf, h.stackBottom, h.roots⟩) ⟨rfl, rfl, rfl⟩

/-- A sweep over marked blocks does nothing. -/
theorem sweepBlocks_of_marked (h : ∀ a ∈ l, s.markedOf a = true) : s.sweepBlocks l = s := by
  induction l with
  | nil => rfl
  | cons a l ih =>
    rw [MSState.sweepBlocks, if_pos (h a List.mem_cons_self)]
    exact ih fun b hb ↦ h b (List.mem_cons_of_mem a hb)

namespace SweptFrom

variable {s' : MSState} {l' : List Nat}

theorem rootWords (h : SweptFrom s s') : rootWords c s' = rootWords c s := by
  unfold Runtime.rootWords stackWords
  rw [h.stackBottom, h.roots]

theorem payload (h : SweptFrom s s') (a : Nat) : payload s' a = payload s a := by
  unfold Runtime.payload
  rw [h.sizeOf]

theorem placed (h : SweptFrom s s') (hsub : l'.Sublist l) (hp : Placed s l) : Placed s' l' := by
  constructor
  · intro a ha
    rw [h.sizeOf]
    exact hp.inSpace a (hsub.subset ha)
  · apply (hp.disjoint.sublist hsub).imp
    intro a b hab
    rwa [h.payload, h.payload]

/-- A word reaches the blocks that are still there. -/
theorem mem_targets (h : SweptFrom s s') {w b : Nat} (hb : b ∈ targets s l w) (hkept : b ∈ l') :
    b ∈ targets s' l' w := by
  refine ⟨hkept, ?_⟩
  rw [h.payload]
  exact hb.2

theorem blockEdge (h : SweptFrom s s') {a b : Nat} (hab : blockEdge c s l a b) (ha : a ∈ l')
    (hb : b ∈ l') : blockEdge c s' l' a b := by
  obtain ⟨-, w, hw, ht⟩ := hab
  refine ⟨ha, w, ?_, h.mem_targets ht hb⟩
  unfold payloadWords at hw ⊢
  rwa [h.sizeOf]

end SweptFrom

/-- A block that is kept because it can be reached can be reached through blocks that are kept. -/
theorem Reachable.of_kept {s' : MSState} {l' : List Nat} (h : SweptFrom s s')
    (hkept : ∀ b ∈ l, Reachable c s l b → b ∈ l') {b : Nat} (hb : Reachable c s l b) :
    Reachable c s' l' b := by
  obtain ⟨w, hw, a, ha, hr⟩ := hb
  have hmem : ∀ y, (∃ x ∈ targets s l w, Relation.ReflTransGen (blockEdge c s l) x y) →
      y ∈ l' := by
    rintro y ⟨x, hx, hxy⟩
    have hl : y ∈ l := by
      rcases Relation.ReflTransGen.cases_tail hxy with rfl | ⟨z, -, hzy⟩
      · exact hx.1
      · obtain ⟨-, v, -, ht⟩ := hzy
        exact ht.1
    exact hkept y hl ⟨w, hw, x, hx, hxy⟩
  refine ⟨w, ?_, a, h.mem_targets ha (hmem a ⟨a, ha, .refl⟩), ?_⟩
  · rwa [h.rootWords]
  · apply reflTransGen_of_reachable ha _ hr
    intro x y hx hy hxy
    exact h.blockEdge hxy (hmem x hx) (hmem y hy)

/-- A second collection in the same memory returns, frees nothing, and leaves the list with its
order and links, the sizes and the statistics as the first one left them. -/
theorem collectGarbage_idempotent (c : Contents) (s s' : MSState) (l : List Nat)
    (h : Listed s l) (hp : Placed s l) (hrun : collectGarbage c s = .ok s') :
    ∃ l' s'', Listed s' l' ∧ collectGarbage c s' = .ok s'' ∧ Listed s'' l' ∧
      s''.events = s'.events ∧ s''.live = s'.live ∧ s''.allocationList = s'.allocationList ∧
      s''.nextOf = s'.nextOf ∧ s''.prevOf = s'.prevOf ∧ s''.sizeOf = s'.sizeOf ∧
      s''.stats = s'.stats := by
  obtain ⟨m, hrun₁, hm⟩ := collectGarbage_eq c h
  obtain rfl : _ = s' := Except.ok.inj (hrun₁.symm.trans hrun)
  have hlisted : Listed ((s.setMarks m).sweepBlocks l) (l.filter m) := (h.setMarks m).sweepBlocks
  have hfrom := sweptFrom_sweepBlocks (s.setMarks m) l
  have hswept : SweptFrom s ((s.setMarks m).sweepBlocks l) :=
    ⟨hfrom.sizeOf, hfrom.stackBottom, hfrom.roots⟩
  have hplaced : Placed ((s.setMarks m).sweepBlocks l) (l.filter m) :=
    hswept.placed List.filter_sublist hp
  have hkept : ∀ b ∈ l, Reachable c s l b → b ∈ l.filter m := fun b hb hreach ↦
    List.mem_filter.mpr ⟨hb, (hm b hb).mpr ((reachable_iff hp b).mpr hreach)⟩
  obtain ⟨m', hrun₂, hm'⟩ := collectGarbage_eq c hlisted
  -- Every block that was kept is marked again, so that the second sweep finds nothing.
  have hmarked : ∀ b ∈ l.filter m, m' b = true := by
    intro b hb
    obtain ⟨hbl, hbm⟩ := List.mem_filter.mp hb
    have hreach := (reachable_iff hp b).mp ((hm b hbl).mp hbm)
    exact (hm' b hb).mpr ((reachable_iff hplaced b).mpr (hreach.of_kept hswept hkept))
  have hnothing : (((s.setMarks m).sweepBlocks l).setMarks m').sweepBlocks (l.filter m) =
      ((s.setMarks m).sweepBlocks l).setMarks m' := sweepBlocks_of_marked hmarked
  rw [hnothing] at hrun₂
  exact ⟨_, _, hlisted, hrun₂, hlisted.setMarks m', rfl, rfl, rfl, rfl, rfl, rfl, rfl⟩

/-- The second collection of the cyclic state. -/
theorem collectGarbage_idempotent_cycle :
    ∃ s' l' s'', collectGarbage cycleContents cycleState = .ok s' ∧ Listed s' l' ∧
      collectGarbage cycleContents s' = .ok s'' ∧ Listed s'' l' ∧ s''.events = s'.events ∧
      s''.stats = s'.stats := by
  obtain ⟨m, hrun, -⟩ := collectGarbage_eq cycleContents cycleState_listed
  obtain ⟨l', s'', hlisted, hrun', hlisted', hevents, -, -, -, -, -, hstats⟩ :=
    collectGarbage_idempotent cycleContents cycleState _ _ cycleState_listed cycleState_placed hrun
  exact ⟨_, l', s'', hrun, hlisted, hrun', hlisted', hevents, hstats⟩

end JBLang.Runtime
