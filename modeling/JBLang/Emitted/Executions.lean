import JBLang.Emitted.Code

/-!
# Executions of straight-line code

Total correctness of lines: they come to their end, and every execution that does leaves a state
with some property. One rule for each line whose names have values.
-/

namespace JBLang.Emitted

open JBLang.Base JBLang.Types JBLang.Codegen JBLang.Runtime

/-! ### Variables -/

section Variables

variable {env : List Frame} {x y : Str} {v w : Nat}

theorem lookupVar_cons (frame : Frame) (env : List Frame) (y : Str) :
    lookupVar (frame :: env) y = (frame.lookup y).or (lookupVar env y) := by
  rw [lookupVar, List.flatten_cons, List.lookup_append]
  rfl

theorem lookupVar_addVar (x y : Str) (env : List Frame) :
    lookupVar (addVar x env) y = if y = x then some none else lookupVar env y := by
  cases env with
  | nil =>
    by_cases h : y = x
    · simp [addVar, lookupVar, h]
    · simp [addVar, lookupVar, h, List.lookup_cons, beq_false_of_ne h]
  | cons frame env =>
    rw [addVar, lookupVar_cons, lookupVar_cons, List.lookup_cons]
    by_cases h : y = x
    · simp [h]
    · simp [h, beq_false_of_ne h]

theorem lookup_set_of_ne (h : y ≠ x) (v : Nat) (frame : Frame) :
    (frame.set x v).lookup y = frame.lookup y := by
  induction frame with
  | nil => rfl
  | cons p frame ih =>
    obtain ⟨z, w⟩ := p
    rw [Frame.set]
    split
    · next hz =>
      simp only at hz
      subst hz
      rw [List.lookup_cons, List.lookup_cons, beq_false_of_ne h]
    · rw [List.lookup_cons, List.lookup_cons, ih]

theorem lookup_set_self {frame : Frame} (h : x ∈ frame.map Prod.fst) (v : Nat) :
    (frame.set x v).lookup x = some (some v) := by
  induction frame with
  | nil => cases h
  | cons p frame ih =>
    obtain ⟨z, w⟩ := p
    rw [Frame.set]
    split
    · simp
    · next hz =>
      simp only at hz
      rw [List.lookup_cons, beq_false_of_ne (Ne.symm hz)]
      exact ih ((List.mem_cons.mp h).resolve_left (Ne.symm hz))

theorem lookup_eq_none_of_not_mem {frame : Frame} (h : x ∉ frame.map Prod.fst) :
    frame.lookup x = none := by
  rw [List.lookup_eq_none_iff]
  intro p hp
  have hne : x ≠ p.1 := fun heq ↦ h (heq ▸ List.mem_map_of_mem hp)
  simpa using hne

theorem lookupVar_setVar_of_ne (h : y ≠ x) (v : Nat) (env : List Frame) :
    lookupVar (setVar x v env) y = lookupVar env y := by
  induction env with
  | nil => rfl
  | cons frame env ih =>
    rw [setVar]
    split
    · rw [lookupVar_cons, lookupVar_cons, lookup_set_of_ne h]
    · rw [lookupVar_cons, lookupVar_cons, ih]

theorem lookupVar_setVar_self (h : lookupVar env x ≠ none) (v : Nat) :
    lookupVar (setVar x v env) x = some (some v) := by
  induction env with
  | nil => exact absurd rfl h
  | cons frame env ih =>
    rw [setVar]
    split
    · next hmem => rw [lookupVar_cons, lookup_set_self hmem, Option.some_or]
    · next hmem =>
      rw [lookupVar_cons, lookup_eq_none_of_not_mem hmem, Option.none_or] at h ⊢
      exact ih h

/-- A name has a value: it is `NIL`, or the innermost variable of the name has been assigned. -/
def HasValue (env : List Frame) (name : Str) (v : Nat) : Prop :=
  if name = nilName then v = 0 else lookupVar env name = some (some v)

theorem HasValue.reads_iff (h : HasValue env y v) : Reads env y w ↔ w = v := by
  unfold HasValue at h
  split at h
  · next hnil =>
    constructor
    · rintro (_ | ⟨hname, -⟩ | ⟨hname, -⟩)
      · exact h.symm
      · exact absurd hnil hname
      · exact absurd hnil hname
    · rintro rfl
      rw [h]
      exact .null hnil
  · next hnil =>
    constructor
    · rintro (hnull | ⟨-, hvalue⟩ | ⟨-, hnone⟩)
      · exact absurd hnull hnil
      · rw [h] at hvalue
        cases hvalue
        rfl
      · exact absurd h (hnone v)
    · rintro rfl
      exact .value hnil h

theorem HasValue.unique (h : HasValue env y v) (h' : HasValue env y w) : v = w :=
  h'.reads_iff.mp (h.reads_iff.mpr rfl)

theorem HasValue.congr {env' : List Frame} (h : HasValue env y v)
    (henv : lookupVar env' y = lookupVar env y) : HasValue env' y v := by
  unfold HasValue at h ⊢
  rwa [henv]

theorem Reads.congr {env' : List Frame} (h : Reads env y v)
    (henv : lookupVar env' y = lookupVar env y) : Reads env' y v := by
  cases h with
  | null h => exact .null h
  | value hname h => exact .value hname (henv.trans h)
  | indeterminate hname h => exact .indeterminate hname fun w hw ↦ h w (henv.symm.trans hw)

theorem HasValue.addVar (h : HasValue env y v) (hne : y ≠ x) : HasValue (addVar x env) y v :=
  h.congr (by rw [lookupVar_addVar, if_neg hne])

theorem HasValue.setVar (h : HasValue env y v) (hne : y ≠ x) (w : Nat) :
    HasValue (setVar x w env) y v :=
  h.congr (lookupVar_setVar_of_ne hne w env)

theorem hasValue_setVar (hx : x ≠ nilName) (h : lookupVar env x ≠ none) (v : Nat) :
    HasValue (setVar x v env) x v := by
  rw [HasValue, if_neg hx]
  exact lookupVar_setVar_self h v

/-- A declared variable gets its value. -/
theorem hasValue_setVar_addVar (hx : x ≠ nilName) (v : Nat) (env : List Frame) :
    HasValue (setVar x v (addVar x env)) x v := by
  refine hasValue_setVar hx ?_ v
  rw [lookupVar_addVar, if_pos rfl]
  exact nofun

end Variables

/-! ### Paths -/

/-- The path leads to an address: its variable has a value, and nothing dangles on the way. -/
inductive Denotes (platform : Platform) (σ : CState) : Path → Nat → Prop
  | var {name : Str} {v : Nat} (hname : name ≠ nilName) (h : lookupVar σ.env name = some (some v)) :
    Denotes platform σ (.var name) v
  | select {base : Path} {part : Part} {v : Nat} (hbase : Denotes platform σ base v)
    (h : ¬σ.world.Dangling v) :
    Denotes platform σ (.select base part) (σ.world.memory v (part.selector platform σ))

/-- No step of the path is an index. -/
def Path.isFixed : Path → Bool
  | .var _ => true
  | .select _ (.index _) => false
  | .select base _ => base.isFixed

section Paths

variable {platform : Platform} {σ σ' : CState} {path : Path} {v : Nat}

theorem hasValue_of_denotes {name : Str} (h : Denotes platform σ (.var name) v) :
    HasValue σ.env name v := by
  cases h with
  | var hname h => rwa [HasValue, if_neg hname]

/-- A path is read as what it denotes. -/
theorem Denotes.loads_iff (h : Denotes platform σ path v) {w : Nat} :
    (∃ addresses, Loads platform σ path w addresses) ↔ w = v := by
  induction h generalizing w with
  | var hname h =>
    have hvalue := hasValue_of_denotes (.var hname h : Denotes platform σ _ _)
    constructor
    · rintro ⟨_, ⟨hreads⟩⟩
      exact hvalue.reads_iff.mp hreads
    · rintro rfl
      exact ⟨[], .var (hvalue.reads_iff.mpr rfl)⟩
  | select hbase hdangling ih =>
    constructor
    · rintro ⟨_, hloads⟩
      cases hloads with
      | select hbase' hread =>
        obtain rfl := ih.mp ⟨_, hbase'⟩
        exact hread.resolve_left hdangling
    · rintro rfl
      obtain ⟨addresses, hbase'⟩ := ih.mpr rfl
      exact ⟨_, .select hbase' (.inr rfl)⟩

/-- A path without indices denotes the same where variables and memory are the same. -/
theorem Denotes.congr (h : Denotes platform σ path v) (hfixed : path.isFixed = true)
    (henv : σ'.env = σ.env) (hmemory : σ'.world.memory = σ.world.memory)
    (hdangling : ∀ w, σ'.world.Dangling w → σ.world.Dangling w) : Denotes platform σ' path v := by
  induction h with
  | var hname h => exact .var hname (by rwa [henv])
  | @select base part v hbase hnot ih =>
    have hbase' : base.isFixed = true ∧ part.selector platform σ' = part.selector platform σ := by
      cases part with
      | index text => cases hfixed
      | arrow field | dot field | star => exact ⟨hfixed, rfl⟩
    rw [← hmemory, ← hbase'.2]
    exact .select (ih hbase'.1) fun hw ↦ hnot (hdangling _ hw)

theorem reads_exists (env : List Frame) (name : Str) : ∃ v, Reads env name v := by
  by_cases hnil : name = nilName
  · exact ⟨0, .null hnil⟩
  · by_cases h : ∃ v, lookupVar env name = some (some v)
    · obtain ⟨v, hv⟩ := h
      exact ⟨v, .value hnil hv⟩
    · exact ⟨0, .indeterminate hnil fun w hw ↦ h ⟨w, hw⟩⟩

theorem loads_exists (platform : Platform) (σ : CState) : ∀ path : Path,
    ∃ v addresses, Loads platform σ path v addresses
  | .var name => by
    obtain ⟨v, hv⟩ := reads_exists σ.env name
    exact ⟨v, [], .var hv⟩
  | .select base part => by
    obtain ⟨v, addresses, hv⟩ := loads_exists platform σ base
    exact ⟨_, v :: addresses, .select hv (.inr rfl)⟩

end Paths

/-! ### Lines with one outcome -/

section Steps

variable {platform : Platform} {callee : Callee} {σ : CState} {x y : Str} {v o : Nat}
  {heap : RCState} {e : Ending CState Unit}

theorem lineStep_inc (hy : HasValue σ.env y v) (h : incRefCount σ.world.heap v 0 = .ok heap) :
    LineStep platform callee (.inc y) σ e ↔ e = .done (σ.called (.inc v 0) heap) () := by
  simp only [LineStep, hy.reads_iff, exists_eq_left, h, CState.calling]

theorem lineStep_incFor (hy : HasValue σ.env y v) (hx : HasValue σ.env x o)
    (h : incRefCount σ.world.heap v o = .ok heap) :
    LineStep platform callee (.incFor y x) σ e ↔ e = .done (σ.called (.inc v o) heap) () := by
  simp only [LineStep, hy.reads_iff, hx.reads_iff, exists_and_left, exists_eq_left, h,
    CState.calling]

theorem lineStep_dec (hy : HasValue σ.env y v) (h : decRefCount σ.world.heap v 0 = .ok heap) :
    LineStep platform callee (.dec y) σ e ↔ e = .done (σ.called (.dec v) heap) () := by
  simp only [LineStep, hy.reads_iff, exists_eq_left, h, CState.calling]

theorem evaluates_var (hy : HasValue σ.env y v) {e : Ending CState Nat} :
    Evaluates platform callee (.var y) σ e ↔ e = .done σ v := by
  constructor
  · rintro (_ | _ | ⟨h⟩)
    rw [hy.reads_iff.mp h]
  · rintro rfl
    exact .var (hy.reads_iff.mpr rfl)

theorem lineStep_declare (type : Ty) (hy : HasValue σ.env y v) (hne : y ≠ x) :
    LineStep platform callee (.declare type x (some (.var y))) σ e ↔
      e = .done ((σ.declare x).set x v) () := by
  have hdeclared : HasValue (σ.declare x).env y v := hy.addVar hne
  simp only [LineStep, evaluates_var hdeclared, exists_eq_left, Ending.andThen]

theorem lineStep_assign (hy : HasValue σ.env y v) :
    LineStep platform callee (.assign x (.var y)) σ e ↔ e = .done (σ.set x v) () := by
  simp only [LineStep, evaluates_var hy, exists_eq_left, Ending.andThen]

theorem lineStep_store {base : Path} {part : Part} (text : Str) (hbase : Denotes platform σ base o)
    (hy : HasValue σ.env y v) : LineStep platform callee (.store text base part y) σ e ↔
      e = .done { σ with world := σ.world.store o (part.selector platform σ) v } () := by
  simp only [LineStep, hy.reads_iff]
  constructor
  · rintro ⟨w, value, addresses, hloads, rfl, he⟩
    rw [hbase.loads_iff.mp ⟨addresses, hloads⟩] at he
    exact he
  · rintro rfl
    obtain ⟨addresses, hloads⟩ := hbase.loads_iff.mpr rfl
    exact ⟨o, v, addresses, hloads, rfl, rfl⟩

end Steps

/-! ### Counting several variables -/

/-- Increments without owner, one after the other. -/
def World.incAll (w : World) : List Nat → Except Fault World
  | [] => .ok w
  | v :: vs => do
    let heap ← incRefCount w.heap v 0
    World.incAll { w with heap, log := .inc v 0 :: w.log } vs

/-- Decrements, one after the other. -/
def World.decAll (w : World) : List Nat → Except Fault World
  | [] => .ok w
  | v :: vs => do
    let heap ← decRefCount w.heap v 0
    World.decAll { w with heap, log := .dec v :: w.log } vs

section Counting

variable {platform : Platform} {callee : Callee} {σ σ' σ₁ : CState} {l : Line} {ls : List Line}
  {y : Str} {v : Nat} {names : List Str} {vs : List Nat}

end Counting

/-! ### Total correctness -/

/-- The lines can be executed to their end, and every execution of them ends in a state with the
property, or is looked at on the way there. -/
def Performs (platform : Platform) (callee : Callee) (ls : List Line) (σ : CState)
    (Q : CState → Prop) : Prop :=
  (∃ σ', LinesStep platform callee ls σ (.done σ' ())) ∧
    ∀ e, LinesStep platform callee ls σ e →
      (∃ σ', e = .stopped σ' none) ∨ ∃ σ', e = .done σ' () ∧ Q σ'

section Performs

variable {platform : Platform} {callee : Callee} {ls : List Line} {l : Line} {σ σ' : CState}
  {Q : CState → Prop}

theorem performs_nil : Performs platform callee [] σ Q ↔ Q σ := by
  constructor
  · intro h
    rcases h.2 (.done σ ()) (.inl rfl) with ⟨σ', ⟨⟩⟩ | ⟨σ', heq, hQ⟩
    cases heq
    exact hQ
  · intro hQ
    refine ⟨⟨σ, .inl rfl⟩, ?_⟩
    rintro e (rfl | rfl)
    · exact .inr ⟨σ, rfl, hQ⟩
    · exact .inl ⟨σ, rfl⟩

/-- A line with one outcome is followed by the rest. -/
theorem performs_cons (h : ∀ e, LineStep platform callee l σ e ↔ e = .done σ' ()) :
    Performs platform callee (l :: ls) σ Q ↔ Performs platform callee ls σ' Q := by
  have hsteps : ∀ e, LinesStep platform callee (l :: ls) σ e ↔
      e = .stopped σ none ∨ LinesStep platform callee ls σ' e := by
    intro e
    simp only [LinesStep, h, Ending.done.injEq, and_true, exists_eq_left, reduceCtorEq, false_and,
      exists_false, or_false]
  constructor
  · rintro ⟨⟨σ'', hdone⟩, hall⟩
    refine ⟨⟨σ'', ((hsteps _).mp hdone).resolve_left nofun⟩, fun e he ↦ ?_⟩
    exact hall e ((hsteps e).mpr (.inr he))
  · rintro ⟨⟨σ'', hdone⟩, hall⟩
    refine ⟨⟨σ'', (hsteps _).mpr (.inr hdone)⟩, fun e he ↦ ?_⟩
    rcases (hsteps e).mp he with rfl | he
    · exact .inl ⟨σ, rfl⟩
    · exact hall e he

theorem Performs.mono {Q' : CState → Prop} (h : Performs platform callee ls σ Q)
    (hQ : ∀ σ', Q σ' → Q' σ') : Performs platform callee ls σ Q' := by
  refine ⟨h.1, fun e he ↦ (h.2 e he).imp_right ?_⟩
  rintro ⟨σ', rfl, hσ'⟩
  exact ⟨σ', rfl, hQ σ' hσ'⟩

theorem Performs.of_done (h : Performs platform callee ls σ Q)
    (hdone : LinesStep platform callee ls σ (.done σ' ())) : Q σ' := by
  rcases h.2 _ hdone with ⟨σ'', ⟨⟩⟩ | ⟨σ'', heq, hQ⟩
  cases heq
  exact hQ

/-- What the last line does is done. -/
theorem linesStep_last (h : LineStep platform callee l σ (.done σ' ())) :
    LinesStep platform callee [l] σ (.done σ' ()) :=
  .inr (.inl ⟨σ', h, .inl rfl⟩)

/-! ### Releases of what is held -/

theorem performs_dec {held : List Nat} {y : Str} {v : Nat} (h : Holds σ.world.heap held)
    (hv : v ∈ held) (hy : HasValue σ.env y v) : Performs platform callee [.dec y] σ
      fun σ' ↦ σ'.env = σ.env ∧ Holds σ'.world.heap (held.erase v) := by
  obtain ⟨heap, hrun, hholds⟩ := h.dec hv
  rw [performs_cons fun e ↦ lineStep_dec hy hrun, performs_nil]
  exact ⟨rfl, hholds⟩

theorem performs_decs {env : List Frame} {names : List Str} {vs rest : List Nat} {w : World}
    (hnames : List.Forall₂ (HasValue env) names vs) (h : Holds w.heap (vs ++ rest)) :
    Performs platform callee (names.map .dec) ⟨env, w⟩
      fun σ' ↦ σ'.env = env ∧ Holds σ'.world.heap rest := by
  induction hnames generalizing w with
  | nil => exact performs_nil.mpr ⟨rfl, h⟩
  | @cons y v names vs hy _ ih =>
    obtain ⟨heap, hrun, hholds⟩ := h.dec (v := v) List.mem_cons_self
    rw [List.cons_append, List.erase_cons_head] at hholds
    rw [List.map_cons, performs_cons fun e ↦ lineStep_dec (σ := ⟨env, w⟩) hy hrun]
    exact ih hholds

end Performs

end JBLang.Emitted
