import JBLang.Base.Marking
import JBLang.Runtime.BlockList

/-!
# The mark phase

Every run of `mark_phase` on a listed state returns and changes nothing but flags. The
flags it sets are described by the marking rules of the graph whose nodes are the listed
blocks and whose edges are the words that `mark` reads, with no assumption about the
placement of the blocks or about what memory contains.
-/

namespace JBLang.Runtime

open JBLang.Base

variable {c : Contents} {s : MSState} {l : List Nat} {m m' : Nat → Bool}

/-- The block that `find_header` returns for a word. -/
def headerOf (s : MSState) (l : List Nat) (w : Nat) : Option Nat :=
  if w = 0 then none else l.find? (holdsPtr s w)

/-- The blocks found for one of several words. -/
def hits (s : MSState) (l : List Nat) (ws : List Nat) : Set Nat :=
  {b | ∃ w ∈ ws, headerOf s l w = some b}

/-- The words that `mark` reads in a block. -/
def scannedWords (c : Contents) (s : MSState) (a : Nat) : List Nat :=
  (wordAddrs (payloadStart a) (addSize a (s.sizeOf a))).map c.word

/-- `mark` goes from a listed block to another one. -/
def scanEdge (c : Contents) (s : MSState) (l : List Nat) (a b : Nat) : Prop :=
  a ∈ l ∧ b ∈ hits s l (scannedWords c s a)

/-- The words of the scanned stack. -/
def stackWords (c : Contents) (s : MSState) : List Nat :=
  (if c.stackTop < s.stackBottom then wordAddrs c.stackTop s.stackBottom
    else wordAddrs s.stackBottom c.stackTop).map c.word

/-- The words a collection starts from: the scanned stack and `*roots[0..root_index)`. -/
def rootWords (c : Contents) (s : MSState) : List Nat := stackWords c s ++ s.roots.map c.word

/-- `find_header` on a listed state. -/
theorem findHeader_eq (h : Listed s l) (w : Nat) : findHeader s w = .ok (headerOf s l w) := by
  unfold findHeader headerOf
  split
  · rfl
  · rw [h.dlist.head_eq]
    exact walkHeaders_eq [] w s.bound h.length_lt_bound.le h

/-- `is_valid_pointer` on a listed state. -/
theorem isValidPointer_eq (h : Listed s l) (w : Nat) :
    isValidPointer s w = .ok (headerOf s l w).isSome := by
  unfold isValidPointer headerOf
  split
  · rfl
  · rw [h.dlist.head_eq, walkHeaders_eq [] w s.bound h.length_lt_bound.le h]
    rfl

theorem mem_of_headerOf {w a : Nat} (hw : headerOf s l w = some a) : a ∈ l := by
  unfold headerOf at hw
  split at hw
  · cases hw
  · exact List.mem_of_find?_eq_some hw

private theorem hits_nil : hits s l [] = ∅ := by
  simp [hits]

private theorem hits_cons (w : Nat) (ws : List Nat) :
    hits s l (w :: ws) = hits s l [w] ∪ hits s l ws := by
  ext b
  simp [hits]

private theorem hits_append (ws vs : List Nat) :
    hits s l (ws ++ vs) = hits s l ws ∪ hits s l vs := by
  ext b
  simp [hits, or_and_right, exists_or]

private theorem hits_of_none {w : Nat} (hw : headerOf s l w = none) : hits s l [w] = ∅ := by
  simp [hits, hw]

private theorem hits_of_some {w a : Nat} (hw : headerOf s l w = some a) :
    hits s l [w] = {a} := by
  ext b
  simp [hits, hw, eq_comm]

/-! ### Marking -/

/-- The listed blocks whose flag is set. -/
def markedSet (l : List Nat) (m : Nat → Bool) : Set Nat := {a | a ∈ l ∧ m a = true}

/-- Number of listed blocks whose flag is not set. -/
def unmarked (l : List Nat) (m : Nat → Bool) : Nat := l.countP fun a ↦ !m a

theorem unmarked_mono (h : markedSet l m ⊆ markedSet l m') :
    unmarked l m' ≤ unmarked l m := by
  apply List.countP_mono_left
  intro a ha hn
  by_contra hc
  have hm : a ∈ markedSet l m := ⟨ha, by simpa using hc⟩
  simp [(h hm).2] at hn

theorem unmarked_update {a : Nat} (ha : a ∈ l) (hm : m a = false) :
    unmarked l (Function.update m a true) < unmarked l m := by
  obtain ⟨l₁, l₂, rfl⟩ := List.append_of_mem ha
  have hle (k : List Nat) : unmarked k (Function.update m a true) ≤ unmarked k m := by
    apply unmarked_mono
    rintro b ⟨hb, hbm⟩
    refine ⟨hb, ?_⟩
    by_cases he : b = a
    · subst he
      exact Function.update_self _ _ _
    · rw [Function.update_of_ne he, hbm]
  have h₁ := hle l₁
  have h₂ := hle l₂
  simp only [unmarked, List.countP_append, List.countP_cons] at h₁ h₂ ⊢
  simp only [hm, Function.update_self]
  simp
  omega

/-- A marking function, run on flags with fewer than `n` listed blocks left unmarked,
marks from the block the word points into. -/
def MarksWord (c : Contents) (s : MSState) (l : List Nat) (n : Nat)
    (go : MSState → Nat → Except Fault MSState) : Prop :=
  ∀ (m : Nat → Bool) (gray : Set Nat) (w : Nat), unmarked l m < n →
    ∃ m', go (s.setMarks m) w = .ok (s.setMarks m') ∧
      Marks (scanEdge c s l) gray (markedSet l m) (hits s l [w]) (markedSet l m')

variable {n : Nat} {go : MSState → Nat → Except Fault MSState}

/-- The guard `is_valid_pointer` before a call of `mark` changes nothing. -/
theorem markValid_spec (h : Listed s l) (hg : MarksWord c s l n go) :
    MarksWord c s l n (markValid go) := by
  intro m gray w hm
  have hv := isValidPointer_eq (h.setMarks m) w
  unfold markValid
  rw [hv]
  cases hw : headerOf (s.setMarks m) l w with
  | none =>
    refine ⟨m, rfl, ?_⟩
    rw [show hits s l [w] = ∅ from hits_of_none hw]
    exact .of_subset (Set.empty_subset _)
  | some a => exact hg m gray w hm

/-- A loop over word addresses marks from the blocks that the words read point into. -/
theorem scan_spec (hg : MarksWord c s l n (markValid go)) (gray : Set Nat) (ps : List Nat)
    (m : Nat → Bool) (hm : unmarked l m < n) :
    ∃ m', ps.foldlM (fun s p ↦ markValid go s (c.word p)) (s.setMarks m) = .ok (s.setMarks m') ∧
      Marks (scanEdge c s l) gray (markedSet l m) (hits s l (ps.map c.word))
        (markedSet l m') := by
  induction ps generalizing m with
  | nil =>
    refine ⟨m, rfl, ?_⟩
    rw [List.map_nil, hits_nil]
    exact .of_subset (Set.empty_subset _)
  | cons p ps ih =>
    obtain ⟨m₁, hr₁, hm₁⟩ := hg m gray (c.word p) hm
    -- flags are only ever set, so the bound still holds for the rest of the loop
    obtain ⟨m₂, hr₂, hm₂⟩ := ih m₁ (Nat.lt_of_le_of_lt (unmarked_mono hm₁.grows) hm)
    refine ⟨m₂, ?_, ?_⟩
    · rw [List.foldlM_cons, hr₁]
      exact hr₂
    · rw [List.map_cons, hits_cons]
      exact hm₁.trans hm₂

private theorem markedSet_update {a : Nat} (ha : a ∈ l) :
    markedSet l (Function.update m a true) = insert a (markedSet l m) := by
  ext b
  by_cases hb : b = a
  · subst hb
    simp [markedSet, ha]
  · simp [markedSet, hb]

/-- `mark` returns, and marks from the block its argument points into. -/
theorem mark_spec (h : Listed s l) (n : Nat) :
    MarksWord c s l n (mark c n) := by
  induction n with
  | zero => exact fun m _ _ hm ↦ absurd hm (Nat.not_lt_zero _)
  | succ n ih =>
    intro m gray w hm
    have hf := findHeader_eq (h.setMarks m) w
    unfold mark
    rw [hf]
    cases hw : headerOf (s.setMarks m) l w with
    | none =>
      refine ⟨m, rfl, ?_⟩
      rw [show hits s l [w] = ∅ from hits_of_none hw]
      exact .of_subset (Set.empty_subset _)
    | some a =>
      have ha : a ∈ l := mem_of_headerOf hw
      have hl : a ∈ (s.setMarks m).live := h.live a ha
      rw [show hits s l [w] = {a} from hits_of_some hw]
      simp only [bind, Except.bind, getHeader_live hl, setHeader_live hl]
      by_cases hma : m a = true
      · refine ⟨m, if_pos hma, .of_subset ?_⟩
        rintro b rfl
        exact ⟨ha, hma⟩
      · have hlt := unmarked_update ha (by simpa using hma)
        obtain ⟨m', hr, hmk⟩ := scan_spec (markValid_spec h ih) (insert a gray)
          (wordAddrs (payloadStart a) (addSize a (s.sizeOf a))) (Function.update m a true) (by omega)
        refine ⟨m', ?_, .node (fun b ↦ and_iff_right ha) ?_⟩
        · rw [if_neg (show ¬((s.setMarks m).header a).marked = true from hma)]
          rw [update_marked, markedOf_setMarks, setMarks_setMarks]
          exact hr
        · rw [← markedSet_update ha]
          exact hmk

/-! ### The phases -/

/-- `mark` as called from `mark_phase` has enough nesting for any flags. -/
theorem markFrom_spec (h : Listed s l) :
    MarksWord c s l s.bound (markFrom c) := mark_spec h s.bound

theorem unmarked_lt_bound (h : Listed s l) (m : Nat → Bool) : unmarked l m < s.bound :=
  Nat.lt_of_le_of_lt List.countP_le_length h.length_lt_bound

/-- `mark_phase` returns; it sets the flags of exactly the listed blocks that `mark` can get
to from the scanned words, and changes nothing else. -/
theorem markPhase_spec (h : Listed s l) :
    ∃ m, markPhase c s = .ok (s.setMarks m) ∧ ∀ b ∈ l, m b = true ↔
      ∃ a ∈ hits s l (rootWords c s), Relation.ReflTransGen (scanEdge c s l) a b := by
  have hclear := clearMarks_eq [] s.bound h.length_lt_bound.le h
  rw [← h.dlist.head_eq] at hclear
  set m₀ : Nat → Bool := fun a ↦ if a ∈ l then false else s.markedOf a with hm₀
  have hg := markValid_spec h (markFrom_spec (c := c) h)
  obtain ⟨m₁, hr₁, hm₁⟩ := scan_spec hg ∅
    (if c.stackTop < s.stackBottom then wordAddrs c.stackTop s.stackBottom
      else wordAddrs s.stackBottom c.stackTop) m₀ (unmarked_lt_bound h m₀)
  obtain ⟨m₂, hr₂, hm₂⟩ := scan_spec hg ∅ s.roots m₁ (unmarked_lt_bound h m₁)
  refine ⟨m₂, ?_, ?_⟩
  · unfold markPhase
    rw [hclear]
    have hstack : conservativeScanStack c (s.setMarks m₀) = .ok (s.setMarks m₁) := by
      unfold conservativeScanStack
      split at hr₁
      · next hlt => exact (if_pos hlt).trans hr₁
      · next hlt => exact (if_neg hlt).trans hr₁
    simp only [bind, Except.bind, hstack]
    exact hr₂
  · have hempty : markedSet l m₀ = ∅ := by
      apply Set.eq_empty_iff_forall_notMem.mpr
      rintro a ⟨ha, hma⟩
      simp [hm₀, ha] at hma
    have hall := hm₁.trans hm₂
    rw [hempty, ← hits_append] at hall
    intro b hb
    have hiff := hall.eq_reachable b
    constructor
    · intro hmb
      exact hiff.mp ⟨hb, hmb⟩
    · intro hr
      exact (hiff.mpr hr).2

/-- A collection of a listed state returns: it sets flags as `mark_phase` does, and then
sweeps the list. -/
theorem collectGarbage_eq (c : Contents) (h : Listed s l) :
    ∃ m, collectGarbage c s = .ok ((s.setMarks m).sweepBlocks l) ∧ ∀ b ∈ l, m b = true ↔
      ∃ a ∈ hits s l (rootWords c s), Relation.ReflTransGen (scanEdge c s l) a b := by
  obtain ⟨m, hmark, hm⟩ := markPhase_spec (c := c) h
  have hl := h.setMarks m
  have hsweep := sweepLoop_eq [] (s.setMarks m).bound hl.length_lt_bound.le hl
  rw [← hl.dlist.head_eq] at hsweep
  refine ⟨m, ?_, hm⟩
  unfold collectGarbage
  rw [hmark]
  exact hsweep

end JBLang.Runtime
