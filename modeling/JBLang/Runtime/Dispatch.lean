import JBLang.Runtime.Allocation

/-!
# The runtime interface

Model of `runtime/src/runtime.c` and `runtime/src/allocator_impl.c`. The calls of an emitted
program go through the table of entries of the allocator that was built in: `runtime_init` looks
it up and `runtime_shutdown` forgets it. Most calls test the table first; the counting calls and
those that ask for the name or the statistics read through it as it is.
-/

namespace JBLang.Runtime

open JBLang.Base

/-- The static variables of the three allocators. -/
structure Statics where
  simple : AllocatorStats
  rc : RCState
  ms : MSState

/-- The static variables before any call. -/
def Statics.boot : Statics := ⟨.zero, .boot, .boot⟩

/-- `RuntimeAllocator`, `runtime/include/allocator_interface.h:7–20`, without `dealloc`, which
`runtime.c` does not call. The entries that it tests are options, with `none` for `NULL`. -/
structure RuntimeAllocator where
  name : String
  alloc : Contents → Statics → Nat → Option Nat → Except Fault (Statics × Option Nat)
  gc : Option (Contents → Statics → Except Fault Statics)
  scopeEnd : Option (Statics → Except Fault Statics)
  getStats : Statics → AllocatorStats
  init : Statics → Nat → Statics
  shutdown : Contents → Statics → Except Fault Statics
  incRefCount : Option (Statics → Nat → Nat → Except Fault Statics) := none
  decRefCount : Option (Statics → Nat → Nat → Except Fault Statics) := none
  setGcThreshold : Option (Statics → Nat → Except Fault Statics) := none
  registerRoot : Option (Statics → Nat → Except Fault Statics) := none

/-- `simple_allocator`, `runtime/src/simple_allocator.c:47–56`. -/
def simpleAllocator : RuntimeAllocator where
  name := "Simple Allocator"
  alloc _ st bytes granted :=
    let r := simpleAlloc st.simple bytes granted
    .ok ({ st with simple := r.1 }, r.2)
  gc := some fun _ st ↦ .ok st
  scopeEnd := some .ok
  getStats := Statics.simple
  init st _ := { st with simple := .zero }
  shutdown _ st := .ok st

/-- `reference_count_allocator`, `runtime/src/reference_count_allocator.c:100–111`. -/
def referenceCountAllocator : RuntimeAllocator where
  name := "Reference-Count GC"
  alloc _ st bytes granted :=
    (rcAlloc st.rc bytes granted).map fun r ↦ ({ st with rc := r.1 }, some r.2)
  gc := some fun _ st ↦ .ok st
  scopeEnd := some .ok
  getStats st := st.rc.stats
  init st _ := { st with rc := rcInit st.rc }
  shutdown _ st := .ok st
  incRefCount := some fun st ptr other ↦ (incRefCount st.rc ptr other).map ({ st with rc := · })
  decRefCount := some fun st ptr offset ↦ (decRefCount st.rc ptr offset).map ({ st with rc := · })

/-- `mark_sweep_allocator`, `runtime/src/mark_sweep_allocator.c:267–280`. -/
def markSweepAllocator : RuntimeAllocator where
  name := "Mark-Sweep GC"
  alloc c st bytes granted :=
    (msAlloc c st.ms bytes granted).map fun r ↦ ({ st with ms := r.1 }, r.2)
  gc := some fun c st ↦ (msGc c st.ms).map ({ st with ms := · })
  scopeEnd := some .ok
  getStats st := st.ms.stats
  init st frame := { st with ms := msInit st.ms frame }
  shutdown c st := (msShutdown c st.ms).map ({ st with ms := · })
  setGcThreshold := some fun st threshold ↦ .ok { st with ms := msSetGcThreshold st.ms threshold }
  registerRoot := some fun st ptr ↦ (msRegisterRoot st.ms ptr).map ({ st with ms := · })

/-- The macros that `allocator_impl.c` tests. -/
inductive AllocatorFlag where
  | useMarkSweep
  | useRefCount
deriving DecidableEq, Repr

/-- `get_allocator_implementation`, `runtime/src/allocator_impl.c:3–14`, compiled with the macros
`flags`. -/
def getAllocatorImplementation (flags : List AllocatorFlag) : RuntimeAllocator :=
  if .useMarkSweep ∈ flags then markSweepAllocator
  else if .useRefCount ∈ flags then referenceCountAllocator
  else simpleAllocator

/-- `current_allocator`, `runtime/src/runtime.c:6`, and what the allocators keep. -/
structure RuntimeState where
  currentAllocator : Option RuntimeAllocator
  statics : Statics

namespace RuntimeState

/-- The program starts without an allocator. -/
def boot : RuntimeState := ⟨none, .boot⟩

/-- `current_allocator->…`: reading through `NULL` is a fault. -/
def table (rt : RuntimeState) : Except Fault RuntimeAllocator :=
  match rt.currentAllocator with
  | some allocator => .ok allocator
  | none => .error (.badAccess 0)

/-- `if (current_allocator && current_allocator->entry)` around a call of the entry. -/
def guarded {α : Type} (rt : RuntimeState) (entry : RuntimeAllocator → Option α)
    (call : α → Except Fault Statics) : Except Fault RuntimeState :=
  match rt.currentAllocator.bind entry with
  | some f => (call f).map ({ rt with statics := · })
  | none => .ok rt

end RuntimeState

/-- `runtime_init`, `runtime/src/runtime.c:8–17`, in a build with the allocator `impl`. -/
def runtimeInit (impl : RuntimeAllocator) (rt : RuntimeState) (frame : Nat) : RuntimeState :=
  ⟨some impl, impl.init rt.statics frame⟩

/-- `runtime_shutdown`, `runtime/src/runtime.c:19–28`. -/
def runtimeShutdown (c : Contents) (rt : RuntimeState) : Except Fault RuntimeState :=
  match rt.currentAllocator with
  | some allocator => (allocator.shutdown c rt.statics).map (⟨none, ·⟩)
  | none => .ok rt

/-- `runtime_alloc`, `runtime/src/runtime.c:30–33`. -/
def runtimeAlloc (c : Contents) (rt : RuntimeState) (bytes : Nat) (granted : Option Nat) :
    Except Fault (RuntimeState × Option Nat) :=
  match rt.currentAllocator with
  | some allocator =>
    (allocator.alloc c rt.statics bytes granted).map fun r ↦ ({ rt with statics := r.1 }, r.2)
  | none => .ok (rt, none)

/-- `runtime_scope_end`, `runtime/src/runtime.c:35–43`. -/
def runtimeScopeEnd (rt : RuntimeState) : Except Fault RuntimeState :=
  rt.guarded (·.scopeEnd) (· rt.statics)

/-- `runtime_gc`, `runtime/src/runtime.c:45–50`. -/
def runtimeGc (c : Contents) (rt : RuntimeState) : Except Fault RuntimeState :=
  rt.guarded (·.gc) (· c rt.statics)

/-- `runtime_set_gc_threshold`, `runtime/src/runtime.c:52–56`. -/
def runtimeSetGcThreshold (rt : RuntimeState) (threshold : Nat) : Except Fault RuntimeState :=
  rt.guarded (·.setGcThreshold) (· rt.statics threshold)

/-- `runtime_register_root`, `runtime/src/runtime.c:58–62`. -/
def runtimeRegisterRoot (rt : RuntimeState) (ptr : Nat) : Except Fault RuntimeState :=
  rt.guarded (·.registerRoot) (· rt.statics ptr)

/-- `runtime_get_allocator_name`, `runtime/src/runtime.c:64–67`. -/
def runtimeGetAllocatorName (rt : RuntimeState) : Except Fault String := rt.table.map (·.name)

/-- `runtime_get_stats`, `runtime/src/runtime.c:69–72`. -/
def runtimeGetStats (rt : RuntimeState) : Except Fault AllocatorStats :=
  rt.table.map (·.getStats rt.statics)

/-- `runtime_inc_ref_count`, `runtime/src/runtime.c:82–87`. -/
def runtimeIncRefCount (rt : RuntimeState) (ptr other : Nat) : Except Fault RuntimeState := do
  let _ ← rt.table
  rt.guarded (·.incRefCount) (· rt.statics ptr other)

/-- `runtime_dec_ref_count`, `runtime/src/runtime.c:89–94`. -/
def runtimeDecRefCount (rt : RuntimeState) (ptr offset : Nat) : Except Fault RuntimeState := do
  let _ ← rt.table
  rt.guarded (·.decRefCount) (· rt.statics ptr offset)

/-! ### Calls -/

/-- The calls of `runtime/include/runtime.h`, with what they find outside of the runtime: the
frame address, the answer of `malloc` and what memory contains. -/
inductive RuntimeCall where
  | init (frame : Nat)
  | shutdown (c : Contents)
  | alloc (bytes : Nat) (granted : Option Nat) (c : Contents)
  | scopeEnd
  | gc (c : Contents)
  | setGcThreshold (threshold : Nat)
  | registerRoot (ptr : Nat)
  | getAllocatorName
  | getStats
  | incRefCount (ptr other : Nat)
  | decRefCount (ptr offset : Nat)

namespace RuntimeCall

/-- Perform one call in a build with the allocator `impl`. -/
def perform (impl : RuntimeAllocator) (rt : RuntimeState) :
    RuntimeCall → Except Fault RuntimeState
  | .init frame => .ok (runtimeInit impl rt frame)
  | .shutdown c => runtimeShutdown c rt
  | .alloc bytes granted c => (runtimeAlloc c rt bytes granted).map Prod.fst
  | .scopeEnd => runtimeScopeEnd rt
  | .gc c => runtimeGc c rt
  | .setGcThreshold threshold => runtimeSetGcThreshold rt threshold
  | .registerRoot ptr => runtimeRegisterRoot rt ptr
  | .getAllocatorName => (runtimeGetAllocatorName rt).map fun _ ↦ rt
  | .getStats => (runtimeGetStats rt).map fun _ ↦ rt
  | .incRefCount ptr other => runtimeIncRefCount rt ptr other
  | .decRefCount ptr offset => runtimeDecRefCount rt ptr offset

/-- The call changes a count. -/
def isCounting : RuntimeCall → Bool
  | .incRefCount .. | .decRefCount .. => true
  | _ => false

/-- The call reads through `current_allocator` without a test. -/
def isUntested : RuntimeCall → Bool
  | .getAllocatorName | .getStats => true
  | call => call.isCounting

/-- Whether there is an allocator after the call, from whether there was one before it. -/
def opens (opened : Bool) : RuntimeCall → Bool
  | .init _ => true
  | .shutdown _ => false
  | _ => opened

end RuntimeCall

/-- The untested calls come between a `runtime_init` and the next `runtime_shutdown`. -/
def inSessions : Bool → List RuntimeCall → Bool
  | _, [] => true
  | opened, call :: calls => (opened || !call.isUntested) && inSessions (call.opens opened) calls

open RuntimeCall (perform)

variable {impl : RuntimeAllocator} {rt rt' : RuntimeState} {call : RuntimeCall}
  {calls : List RuntimeCall} {opened : Bool}

theorem guarded_currentAllocator {α : Type} {entry : RuntimeAllocator → Option α}
    {f : α → Except Fault Statics} (h : rt.guarded entry f = .ok rt') :
    rt'.currentAllocator = rt.currentAllocator := by
  unfold RuntimeState.guarded at h
  split at h
  · obtain ⟨_, -, rfl⟩ := map_eq_ok.mp h
    rfl
  · cases h
    rfl

private theorem opened_of_table {a : RuntimeAllocator} (h : rt.table = .ok a)
    (hrt : rt.currentAllocator = if opened then some impl else none) : opened = true := by
  cases opened with
  | true => rfl
  | false =>
    rw [RuntimeState.table, hrt] at h
    cases h

/-- What a call that returns found and leaves in `current_allocator`. -/
theorem perform_opens (h : call.perform impl rt = .ok rt')
    (hrt : rt.currentAllocator = if opened then some impl else none) :
    (opened || !call.isUntested) = true ∧
      rt'.currentAllocator = if call.opens opened then some impl else none := by
  cases call with
  | init frame =>
    cases h
    exact ⟨Bool.or_true _, rfl⟩
  | shutdown c =>
    refine ⟨Bool.or_true _, ?_⟩
    simp only [perform, runtimeShutdown] at h
    split at h
    · obtain ⟨_, -, rfl⟩ := map_eq_ok.mp h
      rfl
    next hnone =>
      cases h
      exact hnone
  | alloc bytes granted c =>
    refine ⟨Bool.or_true _, ?_⟩
    obtain ⟨r, hr, rfl⟩ := map_eq_ok.mp h
    unfold runtimeAlloc at hr
    split at hr
    · obtain ⟨_, -, rfl⟩ := map_eq_ok.mp hr
      exact hrt
    · cases hr
      exact hrt
  | scopeEnd | gc | setGcThreshold | registerRoot =>
    exact ⟨Bool.or_true _, (guarded_currentAllocator h).trans hrt⟩
  | getAllocatorName | getStats =>
    obtain ⟨_, htable, rfl⟩ := map_eq_ok.mp h
    obtain ⟨_, htable, -⟩ := map_eq_ok.mp htable
    exact ⟨by rw [opened_of_table htable hrt]; rfl, hrt⟩
  | incRefCount | decRefCount =>
    obtain ⟨_, htable, hcall⟩ := bind_eq_ok.mp h
    exact ⟨by rw [opened_of_table htable hrt]; rfl, (guarded_currentAllocator hcall).trans hrt⟩

/-- No entry of the simple allocator fails. -/
theorem perform_simple (hrt : rt.currentAllocator = if opened then some simpleAllocator else none)
    (h : (opened || !call.isUntested) = true) :
    ∃ rt', call.perform simpleAllocator rt = .ok rt' := by
  obtain ⟨current, statics⟩ := rt
  obtain rfl : current = _ := hrt
  cases opened with
  | true => cases call <;> exact ⟨_, rfl⟩
  | false => cases call <;> first | exact ⟨_, rfl⟩ | cases h

theorem perform_counting (hinc : impl.incRefCount = none) (hdec : impl.decRefCount = none)
    (hrt : rt.currentAllocator = some impl) (h : call.isCounting = true) :
    call.perform impl rt = .ok rt := by
  cases call with
  | incRefCount ptr other =>
    simp only [perform, runtimeIncRefCount, RuntimeState.table, RuntimeState.guarded,
      hrt, Option.bind_some, hinc]
    rfl
  | decRefCount ptr offset =>
    simp only [perform, runtimeDecRefCount, RuntimeState.table, RuntimeState.guarded,
      hrt, Option.bind_some, hdec]
    rfl
  | _ => cases h

private theorem inSessions_of_runAll
    (hrt : rt.currentAllocator = if opened then some impl else none)
    (h : runAll (perform impl) rt calls = .ok rt') :
    inSessions opened calls = true := by
  induction calls generalizing rt opened with
  | nil => rfl
  | cons call calls ih =>
    cases hcall : call.perform impl rt with
    | error e => simp [runAll, hcall] at h
    | ok rt₁ =>
      obtain ⟨hopened, hrt₁⟩ := perform_opens hcall hrt
      simp only [runAll, hcall] at h
      rw [inSessions, hopened, ih hrt₁ h]
      rfl

private theorem runAll_simple
    (hrt : rt.currentAllocator = if opened then some simpleAllocator else none)
    (h : inSessions opened calls = true) :
    ∃ rt', runAll (perform simpleAllocator) rt calls = .ok rt' := by
  induction calls generalizing rt opened with
  | nil => exact ⟨rt, rfl⟩
  | cons call calls ih =>
    rw [inSessions, Bool.and_eq_true] at h
    obtain ⟨rt₁, hcall⟩ := perform_simple hrt h.1
    rw [runAll, hcall]
    exact ih (perform_opens hcall hrt).2 h.2

/-- With any allocator a run that ends normally makes its untested calls inside sessions, and with
the simple allocator nothing else can go wrong. -/
theorem runs_iff_inSessions (calls : List RuntimeCall) :
    (∀ impl rt, runAll (perform impl) .boot calls = .ok rt →
      inSessions false calls = true) ∧
    (inSessions false calls = true ↔
      ∃ rt, runAll (perform simpleAllocator) .boot calls = .ok rt) := by
  refine ⟨fun impl rt h ↦ inSessions_of_runAll rfl h, fun h ↦ runAll_simple rfl h, ?_⟩
  rintro ⟨rt, h⟩
  exact inSessions_of_runAll rfl h

private theorem runAll_withoutCounting (hinc : impl.incRefCount = none)
    (hdec : impl.decRefCount = none)
    (hrt : rt.currentAllocator = if opened then some impl else none)
    (h : inSessions opened calls = true) :
    runAll (perform impl) rt (calls.filter (!·.isCounting)) =
      runAll (perform impl) rt calls := by
  induction calls generalizing rt opened with
  | nil => rfl
  | cons call calls ih =>
    rw [inSessions, Bool.and_eq_true] at h
    cases hcounting : call.isCounting with
    | true =>
      have hopened : opened = true := by
        have huntested : call.isUntested = true := by cases call <;> first | rfl | cases hcounting
        simpa [huntested] using h.1
      have hcall := perform_counting hinc hdec (by simpa [hopened] using hrt) hcounting
      have hkept : call.opens opened = opened := by cases call <;> first | rfl | cases hcounting
      rw [hkept] at h
      rw [List.filter_cons_of_neg (by simp [hcounting]), runAll, hcall]
      exact ih hrt h.2
    | false =>
      rw [List.filter_cons_of_pos (by simp [hcounting]), runAll, runAll]
      cases hcall : call.perform impl rt with
      | error e => rfl
      | ok rt₁ => exact ih (perform_opens hcall hrt).2 h.2

/-- With an allocator that does not count, a program behaves as it would without its counting
calls, and fails where it would. -/
theorem counting_calls_inert (hinc : impl.incRefCount = none) (hdec : impl.decRefCount = none)
    (h : inSessions false calls = true) :
    runAll (perform impl) .boot (calls.filter (!·.isCounting)) =
      runAll (perform impl) .boot calls :=
  runAll_withoutCounting hinc hdec rfl h

/-- A block is counted up and down in the mark-sweep build. -/
private def countingCalls : List RuntimeCall :=
  [.init 8008, .alloc 8 (some 1000) ⟨fun _ ↦ 0, 8000⟩, .incRefCount 1032 0, .decRefCount 1032 0,
    .shutdown ⟨fun _ ↦ 0, 8000⟩]

theorem counting_calls_inert_markSweep : (countingCalls.filter (!·.isCounting)).length = 3 ∧
    runAll (perform markSweepAllocator) .boot (countingCalls.filter (!·.isCounting)) =
      runAll (perform markSweepAllocator) .boot countingCalls :=
  ⟨rfl, counting_calls_inert rfl rfl rfl⟩

/-! ### The mark-sweep build -/

/-- The call of the mark-sweep allocator that a call inside a session makes. -/
def RuntimeCall.msOp : RuntimeCall → Option MSOp
  | .alloc bytes granted c => some (.alloc bytes granted c)
  | .gc c => some (.gc c)
  | .setGcThreshold threshold => some (.setGcThreshold threshold)
  | .registerRoot ptr => some (.registerRoot ptr)
  | _ => none

open RuntimeCall (msOp)

/-- The calls inside a session of the mark-sweep build do what the allocator does. -/
theorem runAll_markSweep (h : ∀ call ∈ calls, ∀ opened, call.opens opened = opened) (st : Statics) :
    runAll (perform markSweepAllocator) ⟨some markSweepAllocator, st⟩ calls =
      (runAll MSOp.perform st.ms (calls.filterMap msOp)).map
        fun ms ↦ ⟨some markSweepAllocator, { st with ms := ms }⟩ := by
  apply runAll_filterMap (fun ms ↦ (⟨some markSweepAllocator, { st with ms := ms }⟩ : RuntimeState))
  intro call hcall ms
  cases call with
  | init frame => cases h _ hcall false
  | shutdown c => cases h _ hcall true
  | alloc bytes granted c =>
    change (((msAlloc c ms bytes granted).map _).map _).map _ =
      ((msAlloc c ms bytes granted).map _).map _
    cases msAlloc c ms bytes granted <;> rfl
  | gc c =>
    change ((msGc c ms).map _).map _ = (msGc c ms).map _
    cases msGc c ms <;> rfl
  | registerRoot ptr =>
    change ((msRegisterRoot ms ptr).map _).map _ = (msRegisterRoot ms ptr).map _
    cases msRegisterRoot ms ptr <;> rfl
  | setGcThreshold | scopeEnd | getAllocatorName | getStats | incRefCount | decRefCount => rfl

/-- `ms_shutdown` gives back what is held. -/
theorem msShutdown_releases {ops : List MSOp} {s : MSState} {l : List Nat} (c : Contents)
    (h : Held ops s l) : ∃ s', msShutdown c s = .ok s' ∧ replay s'.events [] = some [] ∧
      s'.events.filterMap HeapEvent.granted = ops.filterMap MSOp.granted := by
  obtain ⟨s₁, l₁, hcollect, h₁⟩ := held_preserved.collectGarbage c h
  have hlength : l₁.length ≤ s₁.bound := by
    rw [MSState.bound, h₁.perm.length_eq]
    exact Nat.le_succ _
  obtain ⟨s', hs', -, hreplay, hgrants⟩ := shutdownLoop_frees h₁.listed.dlist.linked
    h₁.listed.dlist.head_eq h₁.perm h₁.replayed hlength
  refine ⟨s', ?_, hreplay, hgrants.trans h₁.grants⟩
  simp only [msShutdown, hcollect, bind, Except.bind, hs']

variable (frame : Nat) (roots : List Nat) (body : List RuntimeCall) (c : Contents)

/-- The calls of the emitted `main`: it registers roots, calls the program and shuts down. -/
def mainCalls : List RuntimeCall :=
  .init frame :: (roots.map RuntimeCall.registerRoot ++ body ++ [.shutdown c])

/-- The calls that the program itself makes. -/
def RuntimeCall.isProgramCall : RuntimeCall → Bool
  | .init _ | .shutdown _ | .registerRoot _ => false
  | _ => true

/-- The program makes calls of its own only, and `malloc` answers as it may. -/
structure BodyAllowed : Prop where
  own : ∀ call ∈ body, call.isProgramCall = true
  allowed : AllAllowed MSOp.perform (fun s op ↦ op.Allowed s) (msInit .boot frame)
    ((roots.map RuntimeCall.registerRoot ++ body).filterMap msOp)

/-- The run of `main` in the mark-sweep build returns and has given back the blocks that were
granted, or there are too many roots and it exits. -/
def MainEnds : Prop :=
  let run := runAll (perform markSweepAllocator) .boot (mainCalls frame roots body c)
  (roots.length ≤ maxRoots ∧ ∃ rt, run = .ok rt ∧ rt.currentAllocator = none ∧
    replay rt.statics.ms.events [] = some [] ∧ rt.statics.ms.events.filterMap HeapEvent.granted =
      (body.filterMap msOp).filterMap MSOp.granted) ∨
  maxRoots < roots.length ∧ run = .error .exited

section

variable {body} (hbody : ∀ call ∈ body, call.isProgramCall = true)

include hbody

/-- Only `main` registers roots. -/
private theorem countP_mainOps : (roots.map MSOp.registerRoot ++ body.filterMap msOp).countP
    MSOp.isRegisterRoot = roots.length := by
  have hprogram : (body.filterMap msOp).countP MSOp.isRegisterRoot = 0 := by
    rw [List.countP_eq_zero]
    intro op hop
    obtain ⟨call, hcall, hop⟩ := List.mem_filterMap.mp hop
    have hprogram := hbody call hcall
    cases call <;> first | (cases hop <;> exact Bool.false_ne_true) | cases hprogram
  rw [List.countP_append, hprogram, List.countP_map]
  exact List.countP_eq_length.mpr fun _ _ ↦ rfl

/-- A run of `main` is one of the allocator and its shutdown. -/
private theorem runAll_mainCalls :
    runAll (perform markSweepAllocator) .boot (mainCalls frame roots body c) =
      (runAll MSOp.perform (msInit .boot frame)
        ((roots.map RuntimeCall.registerRoot ++ body).filterMap msOp)).bind fun ms ↦
          (msShutdown c ms).map (⟨none, { Statics.boot with ms := · }⟩) := by
  have hopened : ∀ call ∈ roots.map RuntimeCall.registerRoot ++ body, ∀ opened,
      call.opens opened = opened := by
    intro call hcall opened
    rcases List.mem_append.mp hcall with hroot | hcall
    · obtain ⟨ptr, -, rfl⟩ := List.mem_map.mp hroot
      rfl
    · have hprogram := hbody call hcall
      cases call <;> first | rfl | cases hprogram
  have hrun : runAll (perform markSweepAllocator) .boot (mainCalls frame roots body c) = _ :=
    runAll_append _ (RuntimeState.mk _ { Statics.boot with ms := msInit .boot frame }) _ _
  rw [hrun, runAll_markSweep hopened]
  cases runAll MSOp.perform (msInit .boot frame) _ with
  | error e => rfl
  | ok ms =>
    simp only [Except.map, Except.bind, runAll, perform, runtimeShutdown, markSweepAllocator]
    cases msShutdown c ms <;> rfl

end

theorem mainEnds (hbody : BodyAllowed frame roots body) : MainEnds frame roots body c := by
  obtain ⟨hbody, h⟩ := hbody
  have hops : (roots.map RuntimeCall.registerRoot ++ body).filterMap msOp =
      roots.map MSOp.registerRoot ++ body.filterMap msOp := by
    rw [List.filterMap_append, List.filterMap_map, ← List.filterMap_eq_map]
    rfl
  rw [MainEnds, runAll_mainCalls _ _ _ hbody, hops, ← countP_mainOps roots hbody]
  rw [hops] at h
  rcases runAll_held frame h with ⟨s, l, hs, hheld, hle⟩ | ⟨hs, hlt⟩
  · obtain ⟨s', hs', hreplay, hgrants⟩ := msShutdown_releases c hheld
    refine .inl ⟨hle, ⟨none, { Statics.boot with ms := s' }⟩, ?_, rfl, hreplay, ?_⟩
    · rw [hs, Except.bind, hs']
      rfl
    · rw [hgrants, List.filterMap_append, List.filterMap_map]
      exact congrArg (· ++ _) (List.filterMap_eq_nil_iff.mpr fun _ _ ↦ rfl)
  · exact .inr ⟨hlt, by rw [hs]; rfl⟩

end JBLang.Runtime
