import JBLang.Runtime.Collection

/-!
# What marking reads and how deep it nests

`mark` and `mark_phase` with a log of the calls of `mark` and of the words read in the scans.
Headers lie in memory too, and a scan may read them: what a word holds may depend on the state.
-/

namespace JBLang.Runtime

open JBLang.Base

/-- What `mark` does besides setting flags. -/
inductive MarkEvent where
  /-- A call begins; with it, `depth` calls are active. -/
  | enter (depth : Nat)
  /-- A round of the scan of a block looks at the word at an address. -/
  | read (block addr : Nat)
deriving DecidableEq, Repr

/-- `if (is_valid_pointer(*p)) mark(*p);` -/
def markValidTraced
    (go : MSState × List MarkEvent → Nat → Except Fault (MSState × List MarkEvent))
    (t : MSState × List MarkEvent) (ptr : Nat) : Except Fault (MSState × List MarkEvent) := do
  if ← isValidPointer t.1 ptr then go t ptr else pure t

/-- `mark` with its log. -/
def markTraced (word : MSState → Nat → Nat) :
    Nat → Nat → MSState × List MarkEvent → Nat → Except Fault (MSState × List MarkEvent)
  | 0, _, _, _ => .error .diverges
  | fuel + 1, depth, (s, log), ptr => do
    match ← findHeader s ptr with
    | none => pure (s, log ++ [.enter depth])
    | some header =>
      let h ← s.getHeader header
      if h.marked then pure (s, log ++ [.enter depth])
      else
        let s ← s.setHeader header { h with marked := true }
        (wordAddrs (payloadStart header) (addSize header h.size)).foldlM
          (fun t p ↦ markValidTraced (markTraced word fuel (depth + 1))
            (t.1, t.2 ++ [.read header p]) (word t.1 p))
          (s, log ++ [.enter depth])

/-- `mark` as it is called from outside. -/
def markFromTraced (word : MSState → Nat → Nat) (t : MSState × List MarkEvent) (ptr : Nat) :
    Except Fault (MSState × List MarkEvent) :=
  markTraced word t.1.bound 1 t ptr

/-- A loop that marks from the words at some addresses. -/
def scanTraced (word : MSState → Nat → Nat) (ps : List Nat) (t : MSState × List MarkEvent) :
    Except Fault (MSState × List MarkEvent) :=
  ps.foldlM (fun t p ↦ markValidTraced (markFromTraced word) t (word t.1 p)) t

/-- `mark_phase` with its log. -/
def markPhaseTraced (word : MSState → Nat → Nat) (stackTop : Nat) (s : MSState) :
    Except Fault (MSState × List MarkEvent) := do
  let s ← clearMarks s s.bound s.allocationList
  let t ← scanTraced word (if stackTop < s.stackBottom then wordAddrs stackTop s.stackBottom
    else wordAddrs s.stackBottom stackTop) (s, [])
  scanTraced word t.1.roots t

/-! ### Without the log -/

/-- Loops that agree up to the log. -/
theorem foldlM_erase {σ τ ε α : Type} {f : σ × τ → α → Except ε (σ × τ)}
    {g : σ → α → Except ε σ} (h : ∀ t a, (f t a).map Prod.fst = g t.1 a) (as : List α)
    (t : σ × τ) : (as.foldlM f t).map Prod.fst = as.foldlM g t.1 := by
  induction as generalizing t with
  | nil => rfl
  | cons a as ih =>
    rw [List.foldlM_cons, List.foldlM_cons, ← h t a]
    cases f t a with
    | error e => rfl
    | ok t' => exact ih t'

theorem markValidTraced_erase
    {go : MSState × List MarkEvent → Nat → Except Fault (MSState × List MarkEvent)}
    {mark : MSState → Nat → Except Fault MSState}
    (h : ∀ t ptr, (go t ptr).map Prod.fst = mark t.1 ptr) (t : MSState × List MarkEvent)
    (ptr : Nat) : (markValidTraced go t ptr).map Prod.fst = markValid mark t.1 ptr := by
  unfold markValidTraced markValid
  cases isValidPointer t.1 ptr with
  | error e => rfl
  | ok valid =>
    cases valid with
    | false => rfl
    | true => exact h t ptr

theorem markTraced_erase (c : Contents) (fuel depth : Nat) (t : MSState × List MarkEvent)
    (ptr : Nat) :
    (markTraced (fun _ ↦ c.word) fuel depth t ptr).map Prod.fst = mark c fuel t.1 ptr := by
  induction fuel generalizing depth t ptr with
  | zero => rfl
  | succ fuel ih =>
    obtain ⟨s, log⟩ := t
    unfold markTraced mark
    dsimp only [bind, Except.bind]
    cases findHeader s ptr with
    | error e => rfl
    | ok found =>
      cases found with
      | none => rfl
      | some header =>
        dsimp only
        cases s.getHeader header with
        | error e => rfl
        | ok h =>
          dsimp only
          cases h.marked with
          | true => rfl
          | false =>
            rw [if_neg Bool.false_ne_true, if_neg Bool.false_ne_true]
            cases s.setHeader header ⟨true, h.size, h.next, h.prev⟩ with
            | error e => rfl
            | ok s' =>
              apply foldlM_erase
              intro t p
              exact markValidTraced_erase (ih (depth + 1)) _ _

theorem scanTraced_erase (c : Contents) (ps : List Nat) (t : MSState × List MarkEvent) :
    (scanTraced (fun _ ↦ c.word) ps t).map Prod.fst =
      ps.foldlM (fun s p ↦ markValid (markFrom c) s (c.word p)) t.1 := by
  apply foldlM_erase
  intro t p
  exact markValidTraced_erase (fun t ptr ↦ markTraced_erase c t.1.bound 1 t ptr) t _

/-- Without its log, `markPhaseTraced` is `mark_phase`. -/
theorem markPhaseTraced_erase (c : Contents) (s : MSState) :
    (markPhaseTraced (fun _ ↦ c.word) c.stackTop s).map Prod.fst = markPhase c s := by
  unfold markPhaseTraced markPhase
  dsimp only [bind, Except.bind]
  cases clearMarks s s.bound s.allocationList with
  | error e => rfl
  | ok s₁ =>
    dsimp only
    have hstack : conservativeScanStack c s₁ = (scanTraced (fun _ ↦ c.word)
        (if c.stackTop < s₁.stackBottom then wordAddrs c.stackTop s₁.stackBottom
          else wordAddrs s₁.stackBottom c.stackTop) (s₁, [])).map Prod.fst := by
      rw [scanTraced_erase]
      unfold conservativeScanStack
      split <;> rfl
    rw [hstack]
    cases scanTraced (fun _ ↦ c.word) _ (s₁, []) with
    | error e => rfl
    | ok t => exact scanTraced_erase c t.1.roots t

/-! ### Logs -/

/-- The addresses read in the scans of a block. -/
def readsOf (b : Nat) (log : List MarkEvent) : List Nat :=
  log.filterMap fun
    | .read block addr => if block = b then some addr else none
    | .enter _ => none

/-- The addresses that one scan of a block reads. -/
def scanAddrs (s : MSState) (b : Nat) : List Nat :=
  wordAddrs (payloadStart b) (addSize b (s.sizeOf b))

theorem readsOf_append (b : Nat) (log log' : List MarkEvent) :
    readsOf b (log ++ log') = readsOf b log ++ readsOf b log' := List.filterMap_append

variable {word : MSState → Nat → Nat} {s : MSState} {l : List Nat} {depth : Nat}
  {m m₁ m' : Nat → Bool} {log log₁ : List MarkEvent}

/-- What a piece of the log tells about the flags before and after it: no flag was cleared, the
calls nested at most as deep as there were blocks to mark, and exactly the blocks that got their
flag were scanned, once. -/
structure Trace (s : MSState) (l : List Nat) (depth : Nat) (m m' : Nat → Bool)
    (log : List MarkEvent) : Prop where
  grows : ∀ a, m a = true → m' a = true
  nested : ∀ d, .enter d ∈ log → d ≤ depth + unmarked l m
  reads : ∀ b, readsOf b log = if m b = false ∧ m' b = true then scanAddrs s b else []

theorem unmarked_le_of_grows (h : ∀ a, m a = true → m' a = true) : unmarked l m' ≤ unmarked l m :=
  unmarked_mono fun a ha ↦ ⟨ha.1, h a ha.2⟩

namespace Trace

theorem nil : Trace s l depth m m [] := by
  refine ⟨fun _ h ↦ h, nofun, fun b ↦ ?_⟩
  rw [if_neg (by simp)]
  rfl

theorem append (h : Trace s l depth m m₁ log) (h₁ : Trace s l depth m₁ m' log₁) :
    Trace s l depth m m' (log ++ log₁) := by
  refine ⟨fun a ha ↦ h₁.grows a (h.grows a ha), fun d hd ↦ ?_, fun b ↦ ?_⟩
  · rcases List.mem_append.mp hd with hd | hd
    · exact h.nested d hd
    · have hle : unmarked l m₁ ≤ unmarked l m := unmarked_le_of_grows h.grows
      have := h₁.nested d hd
      omega
  · rw [readsOf_append, h.reads, h₁.reads]
    have hgrow := h.grows b
    have hgrow₁ := h₁.grows b
    cases hm : m b <;> cases hm₁ : m₁ b <;> cases hm' : m' b <;> simp_all

/-- A call that finds nothing to do. -/
theorem enter (h : m' = m) : Trace s l depth m m' [.enter depth] := by
  subst h
  refine ⟨fun _ h ↦ h, fun d hd ↦ ?_, fun b ↦ ?_⟩
  · obtain rfl := MarkEvent.enter.inj (List.mem_singleton.mp hd)
    exact Nat.le_add_right ..
  · rw [if_neg (by simp)]
    rfl

/-- A block is not scanned, or scanned once. -/
theorem reads_cases (h : Trace s l depth m m' log) (b : Nat) :
    readsOf b log = [] ∨ readsOf b log = scanAddrs s b := by
  rw [h.reads b]
  exact (ite_eq_or_eq _ _ _).symm

end Trace

/-- A marking function, run on flags with fewer than `n` listed blocks left unmarked, returns and
leaves a trace. -/
def TracesWord (s : MSState) (l : List Nat) (n depth : Nat)
    (go : MSState × List MarkEvent → Nat → Except Fault (MSState × List MarkEvent)) : Prop :=
  ∀ (m : Nat → Bool) (log : List MarkEvent) (w : Nat), unmarked l m < n →
    ∃ m' log', go (s.setMarks m, log) w = .ok (s.setMarks m', log ++ log') ∧
      Trace s l depth m m' log'

variable {n : Nat} {go : MSState × List MarkEvent → Nat → Except Fault (MSState × List MarkEvent)}

theorem markValidTraced_spec (h : Listed s l) (hg : TracesWord s l n depth go) :
    TracesWord s l n depth (markValidTraced go) := by
  intro m log w hm
  unfold markValidTraced
  rw [isValidPointer_eq (h.setMarks m) w]
  cases headerOf (s.setMarks m) l w with
  | none => exact ⟨m, [], by rw [List.append_nil]; rfl, .nil⟩
  | some a => exact hg m log w hm

/-- The scan of a block `a` that has its flag already: its addresses are read in their order, and
the blocks found are marked. -/
theorem blockScan_spec (word : MSState → Nat → Nat)
    (hg : TracesWord s l n depth (markValidTraced go)) {a : Nat} (ps : List Nat) (m : Nat → Bool)
    (log : List MarkEvent) (ha : m a = true) (hm : unmarked l m < n) :
    ∃ m' log', ps.foldlM (fun t p ↦ markValidTraced go (t.1, t.2 ++ [.read a p]) (word t.1 p))
        (s.setMarks m, log) = .ok (s.setMarks m', log ++ log') ∧
      (∀ b, m b = true → m' b = true) ∧
      (∀ d, .enter d ∈ log' → d ≤ depth + unmarked l m) ∧
      ∀ b, readsOf b log' =
        if b = a then ps else if m b = false ∧ m' b = true then scanAddrs s b else [] := by
  induction ps generalizing m log with
  | nil =>
    refine ⟨m, [], by rw [List.append_nil]; rfl, fun _ hb ↦ hb, nofun, fun b ↦ ?_⟩
    rw [if_neg (show ¬ (m b = false ∧ m b = true) by simp), ite_self]
    rfl
  | cons p ps ih =>
    obtain ⟨m₁, log₁, hr₁, ht₁⟩ :=
      hg m (log ++ [.read a p]) (word (s.setMarks m) p) hm
    have hle : unmarked l m₁ ≤ unmarked l m := unmarked_le_of_grows ht₁.grows
    obtain ⟨m₂, log₂, hr₂, hgrows, hnested, hreads⟩ :=
      ih m₁ (log ++ [.read a p] ++ log₁) (ht₁.grows a ha) (by omega)
    refine ⟨m₂, [.read a p] ++ log₁ ++ log₂, ?_, fun b hb ↦ hgrows b (ht₁.grows b hb),
      fun d hd ↦ ?_, fun b ↦ ?_⟩
    · rw [List.foldlM_cons, hr₁]
      exact hr₂.trans (by simp only [List.append_assoc])
    · rcases List.mem_append.mp hd with hd | hd
      · rcases List.mem_append.mp hd with hd | hd
        · cases List.mem_singleton.mp hd
        · exact ht₁.nested d hd
      · have := hnested d hd
        omega
    · rw [readsOf_append, readsOf_append, ht₁.reads, hreads]
      by_cases hb : b = a
      · subst hb
        rw [if_pos rfl, if_pos rfl, if_neg (by simp [ha]), List.append_nil]
        simp [readsOf]
      · rw [if_neg hb, if_neg hb]
        have hread : readsOf b [.read a p] = [] := by
          simp [readsOf, Ne.symm hb]
        rw [hread, List.nil_append]
        have hgrow := ht₁.grows b
        have hgrow₁ := hgrows b
        cases hm : m b <;> cases hm₁ : m₁ b <;> cases hm₂ : m₂ b <;> simp_all

/-- `mark` returns and leaves a trace. -/
theorem markTraced_spec (word : MSState → Nat → Nat) (h : Listed s l) (n depth : Nat) :
    TracesWord s l n depth (markTraced word n depth) := by
  induction n generalizing depth with
  | zero => exact fun m _ _ hm ↦ absurd hm (Nat.not_lt_zero _)
  | succ n ih =>
    intro m log w hm
    unfold markTraced
    rw [findHeader_eq (h.setMarks m) w]
    cases hw : headerOf (s.setMarks m) l w with
    | none => exact ⟨m, [.enter depth], rfl, .enter rfl⟩
    | some a =>
      have ha : a ∈ l := mem_of_headerOf hw
      have hl : a ∈ (s.setMarks m).live := h.live a ha
      simp only [bind, Except.bind, getHeader_live hl, setHeader_live hl]
      by_cases hma : m a = true
      · exact ⟨m, [.enter depth], if_pos hma, .enter rfl⟩
      · have hfalse : m a = false := by simpa using hma
        have hlt := unmarked_update ha hfalse
        obtain ⟨m', log', hr, hgrows, hnested, hreads⟩ := blockScan_spec word
          (markValidTraced_spec h (ih (depth + 1))) (scanAddrs s a) (Function.update m a true)
          (log ++ [.enter depth]) (Function.update_self ..) (by omega)
        refine ⟨m', [.enter depth] ++ log', ?_, fun b hb ↦ hgrows b ?_, fun d hd ↦ ?_, fun b ↦ ?_⟩
        · rw [if_neg (show ¬((s.setMarks m).header a).marked = true from hma), update_marked,
            markedOf_setMarks, setMarks_setMarks, ← List.append_assoc]
          exact hr
        · by_cases he : b = a
          · rw [he, Function.update_self]
          · rwa [Function.update_of_ne he]
        · rcases List.mem_append.mp hd with hd | hd
          · cases List.mem_singleton.mp hd
            exact Nat.le_add_right ..
          · have := hnested d hd
            omega
        · rw [readsOf_append, hreads]
          by_cases he : b = a
          · subst he
            rw [if_pos rfl, if_pos ⟨hfalse, hgrows b (Function.update_self ..)⟩]
            rfl
          · rw [if_neg he, Function.update_of_ne he]
            rfl

/-- `mark` as it is called from outside has enough nesting for any flags. -/
theorem markFromTraced_spec (word : MSState → Nat → Nat) (h : Listed s l) :
    TracesWord s l s.bound 1 (markFromTraced word) := markTraced_spec word h s.bound 1

theorem scanTraced_spec (word : MSState → Nat → Nat) (h : Listed s l) (ps : List Nat)
    (m : Nat → Bool) (log : List MarkEvent) : ∃ m' log', scanTraced word ps (s.setMarks m, log) =
      .ok (s.setMarks m', log ++ log') ∧ Trace s l 1 m m' log' := by
  induction ps generalizing m log with
  | nil => exact ⟨m, [], by rw [List.append_nil]; rfl, .nil⟩
  | cons p ps ih =>
    obtain ⟨m₁, log₁, hr₁, ht₁⟩ := markValidTraced_spec h (markFromTraced_spec word h) m log
      (word (s.setMarks m) p) (unmarked_lt_bound h m)
    obtain ⟨m₂, log₂, hr₂, ht₂⟩ := ih m₁ (log ++ log₁)
    refine ⟨m₂, log₁ ++ log₂, ?_, ht₁.append ht₂⟩
    unfold scanTraced at hr₂ ⊢
    rw [List.foldlM_cons, hr₁, ← List.append_assoc]
    exact hr₂

/-- `mark_phase` returns and leaves a trace from the flags that are cleared first. -/
theorem markPhaseTraced_spec (word : MSState → Nat → Nat) (stackTop : Nat) (h : Listed s l) :
    ∃ m log, markPhaseTraced word stackTop s = .ok (s.setMarks m, log) ∧
      Trace s l 1 (fun a ↦ if a ∈ l then false else s.markedOf a) m log := by
  have hclear := clearMarks_eq [] s.bound h.length_lt_bound.le h
  rw [← h.dlist.head_eq] at hclear
  obtain ⟨m₁, log₁, hr₁, ht₁⟩ := scanTraced_spec word h
    (if stackTop < s.stackBottom then wordAddrs stackTop s.stackBottom
      else wordAddrs s.stackBottom stackTop) (fun a ↦ if a ∈ l then false else s.markedOf a) []
  obtain ⟨m₂, log₂, hr₂, ht₂⟩ := scanTraced_spec word h s.roots m₁ log₁
  refine ⟨m₂, log₁ ++ log₂, ?_, ht₁.append ht₂⟩
  unfold markPhaseTraced
  rw [hclear]
  exact (congrArg (fun r ↦ r.bind fun t ↦ scanTraced word t.1.roots t) hr₁).trans hr₂

/-! ### Nesting -/

theorem nodup_scanAddrs (s : MSState) (b : Nat) : (scanAddrs s b).Nodup :=
  List.nodup_range' wordSize (by decide)

/-- On every list of blocks and whatever the words hold: `mark` returns, clears no flag and leaves
sizes and links alone, and its calls nest at most as deep as there are unmarked blocks, plus one.
`mark_phase` returns, and reads no word of a block twice. Without the log these are the runs of
`mark` and `mark_phase`. -/
theorem mark_bounded (word : MSState → Nat → Nat) (s : MSState) (l : List Nat) (h : Listed s l) :
    (∀ ptr, ∃ m log,
      markTraced word (unmarked l s.markedOf + 1) 1 (s, []) ptr = .ok (s.setMarks m, log) ∧
      (∀ a, s.markedOf a = true → m a = true) ∧
      ∀ d, .enter d ∈ log → d ≤ unmarked l s.markedOf + 1) ∧
    (∀ stackTop, ∃ m log, markPhaseTraced word stackTop s = .ok (s.setMarks m, log) ∧
      ∀ b, (readsOf b log).Nodup ∧ (readsOf b log = [] ∨ readsOf b log = scanAddrs s b)) ∧
    ∀ c : Contents, (∀ fuel depth ptr, (markTraced (fun _ ↦ c.word) fuel depth (s, []) ptr).map
        Prod.fst = mark c fuel s ptr) ∧
      (markPhaseTraced (fun _ ↦ c.word) c.stackTop s).map Prod.fst = markPhase c s := by
  refine ⟨fun ptr ↦ ?_, fun stackTop ↦ ?_, fun c ↦ ⟨fun fuel depth ptr ↦
    markTraced_erase c fuel depth (s, []) ptr, markPhaseTraced_erase c s⟩⟩
  · obtain ⟨m, log, hrun, htrace⟩ := markTraced_spec word h
      (unmarked l s.markedOf + 1) 1 s.markedOf [] ptr (Nat.lt_succ_self _)
    refine ⟨m, log, hrun, htrace.grows, fun d hd ↦ ?_⟩
    rw [Nat.add_comm]
    exact htrace.nested d hd
  · obtain ⟨m, log, hrun, htrace⟩ := markPhaseTraced_spec word stackTop h
    refine ⟨m, log, hrun, fun b ↦ ⟨?_, htrace.reads_cases b⟩⟩
    rcases htrace.reads_cases b with hb | hb
    · rw [hb]
      exact List.nodup_nil
    · rw [hb]
      exact nodup_scanAddrs s b

theorem mark_bounded_cycle : Listed cycleState [3000, 2000, 1000] ∧
    ∃ m log, markPhaseTraced (fun _ ↦ cycleContents.word) cycleContents.stackTop cycleState =
      .ok (cycleState.setMarks m, log) ∧ (readsOf 3000 log).Nodup := by
  obtain ⟨m, log, hrun, hreads⟩ := (mark_bounded (fun _ ↦ cycleContents.word) cycleState _
    cycleState_listed).2.1 cycleContents.stackTop
  exact ⟨cycleState_listed, m, log, hrun, (hreads 3000).1⟩

/-! ### Scans inside the block -/

/-- The words read in the scan of a block with a payload of `n` bytes lie in the payload, and each
word of the payload is read once. -/
def ReadsInside (b n : Nat) (reads : List Nat) : Prop :=
  (∀ p ∈ reads, b + msHeaderSize ≤ p ∧ p + wordSize ≤ b + msHeaderSize + n) ∧
    ∀ k, wordSize * k + wordSize ≤ n → reads.count (b + msHeaderSize + wordSize * k) = 1

theorem mem_scanAddrs {b n p : Nat} (hsize : s.sizeOf b = msHeaderSize + n)
    (hspace : b + msHeaderSize + n < sizeModulus) :
    p ∈ scanAddrs s b ↔ ∃ k, p = b + msHeaderSize + wordSize * k ∧ wordSize * k < n := by
  unfold scanAddrs
  rw [payloadStart_eq (by omega), hsize, addSize_eq (by omega), mem_wordAddrs]
  constructor
  · rintro ⟨k, rfl, hk⟩
    exact ⟨k, rfl, by omega⟩
  · rintro ⟨k, rfl, hk⟩
    exact ⟨k, rfl, by omega⟩

theorem scanAddrs_inside_iff {b n : Nat} (hsize : s.sizeOf b = msHeaderSize + n)
    (hspace : b + msHeaderSize + n < sizeModulus) :
    ReadsInside b n (scanAddrs s b) ↔ wordSize ∣ n := by
  constructor
  · rintro ⟨hinside, -⟩
    by_contra hdvd
    -- The last round begins inside the payload and reads over its end.
    have hlast : b + msHeaderSize + wordSize * (n / wordSize) ∈ scanAddrs s b := by
      refine (mem_scanAddrs hsize hspace).mpr ⟨n / wordSize, rfl, ?_⟩
      have := Nat.div_add_mod n wordSize
      have hne : n % wordSize ≠ 0 := fun h0 ↦ hdvd (Nat.dvd_of_mod_eq_zero h0)
      omega
    have hend := (hinside _ hlast).2
    have := Nat.div_add_mod n wordSize
    have hlt := Nat.mod_lt n (show 0 < wordSize by decide)
    omega
  · rintro ⟨words, rfl⟩
    refine ⟨fun p hp ↦ ?_, fun k hk ↦ ?_⟩
    · obtain ⟨k, rfl, hk⟩ := (mem_scanAddrs hsize hspace).mp hp
      have hlt : k < words := Nat.lt_of_mul_lt_mul_left hk
      have hle : wordSize * (k + 1) ≤ wordSize * words := Nat.mul_le_mul_left _ hlt
      rw [Nat.mul_succ] at hle
      omega
    · rw [List.count_eq_one_of_mem (nodup_scanAddrs s b)]
      refine (mem_scanAddrs hsize hspace).mpr ⟨k, rfl, ?_⟩
      have hpos : 0 < wordSize := by decide
      omega

/-- A call of `mark` that scans a block reads inside its payload, and every word there once,
exactly if the payload is a number of whole words. -/
theorem mark_inside_iff (word : MSState → Nat → Nat) (h : Listed s l) {b n ptr : Nat} {s' : MSState}
    (hsize : s.sizeOf b = msHeaderSize + n) (hspace : b + msHeaderSize + n < sizeModulus)
    (hrun : markFromTraced word (s, []) ptr = .ok (s', log)) (hbefore : s.markedOf b = false)
    (hafter : s'.markedOf b = true) : ReadsInside b n (readsOf b log) ↔ wordSize ∣ n := by
  obtain ⟨m, log', hrun', htrace⟩ := markFromTraced_spec word h s.markedOf [] ptr
    (unmarked_lt_bound h _)
  obtain ⟨rfl, rfl⟩ := Prod.mk.inj (Except.ok.inj (hrun'.symm.trans hrun))
  have hreads := htrace.reads b
  rw [if_pos ⟨hbefore, hafter⟩] at hreads
  rw [List.nil_append, hreads]
  exact scanAddrs_inside_iff hsize hspace

/-- One block with a payload of `n` bytes. -/
def oneBlock (n : Nat) : MSState :=
  { MSState.boot with
    allocationList := some 1000
    live := [1000]
    header := fun _ ↦ ⟨false, msHeaderSize + n, none, none⟩ }

/-- A run of `mark` on it, with the log and the flag that come out. -/
theorem oneBlock_run {n : Nat} {log : List MarkEvent}
    (h : (markFromTraced (fun _ _ ↦ 0) (oneBlock n, []) 1032).map
      (fun t ↦ (t.1.markedOf 1000, t.2)) = .ok (true, log)) :
    ∃ s', markFromTraced (fun _ _ ↦ 0) (oneBlock n, []) 1032 = .ok (s', log) ∧
      s'.markedOf 1000 = true := by
  cases hrun : markFromTraced (fun _ _ ↦ 0) (oneBlock n, []) 1032 with
  | error e =>
    rw [hrun] at h
    cases h
  | ok t =>
    rw [hrun] at h
    obtain ⟨hmarked, rfl⟩ := Prod.mk.inj (Except.ok.inj h)
    exact ⟨t.1, rfl, hmarked⟩

theorem mark_inside_iff_words : ∃ s' log,
    markFromTraced (fun _ _ ↦ 0) (oneBlock 16, []) 1032 = .ok (s', log) ∧
      ReadsInside 1000 16 (readsOf 1000 log) := by
  have hlisted : Listed (oneBlock 16) [1000] :=
    ⟨⟨rfl, ⟨rfl, rfl, trivial⟩, by decide⟩, fun a ha ↦ ha⟩
  have h : (markFromTraced (fun _ _ ↦ 0) (oneBlock 16, []) 1032).map
      (fun t ↦ (t.1.markedOf 1000, t.2)) =
        .ok (true, [.enter 1, .read 1000 1032, .read 1000 1040]) := by decide
  obtain ⟨s', hrun, hmarked⟩ := oneBlock_run h
  exact ⟨s', _, hrun, (mark_inside_iff _ hlisted rfl (by decide) hrun rfl hmarked).mpr (by decide)⟩

/-- The payload of `new int` has four bytes, and eight are read. -/
theorem newInt_read_over : ∃ s' log,
    markFromTraced (fun _ _ ↦ 0) (oneBlock 4, []) 1032 = .ok (s', log) ∧
      s'.markedOf 1000 = true ∧ readsOf 1000 log = [1032] ∧
      1000 + msHeaderSize + 4 < 1032 + wordSize ∧ ¬ ReadsInside 1000 4 (readsOf 1000 log) := by
  have h : (markFromTraced (fun _ _ ↦ 0) (oneBlock 4, []) 1032).map
      (fun t ↦ (t.1.markedOf 1000, t.2)) = .ok (true, [.enter 1, .read 1000 1032]) := by decide
  obtain ⟨s', hrun, hmarked⟩ := oneBlock_run h
  refine ⟨s', _, hrun, hmarked, by decide, by decide, fun hinside ↦ ?_⟩
  exact absurd (hinside.1 1032 (by decide)).2 (by decide)

end JBLang.Runtime
