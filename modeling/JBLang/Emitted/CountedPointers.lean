import JBLang.Emitted.Programs
import JBLang.Emitted.RunRules
import JBLang.Emitted.Tracking

/-!
# Counted pointers are payloads

Which pointers a program passes to the counting functions of the runtime. The allocator never checks
them: a pointer that does not lead to a payload is used as if a header stood in front of it.
-/

namespace JBLang.Emitted

open JBLang.Base JBLang.Types JBLang.Codegen JBLang.Ast JBLang.Runtime

/-! ### Calls of the runtime -/

/-- The pointers that a call passes to be counted. -/
def countedPointers : RCOp → List Nat
  | .alloc _ _ => []
  | .inc ptr other => [ptr, other]
  | .dec ptr => [ptr]

/-- The pointer is `NULL` or leads to the payload of a block that was allocated. -/
def IsPayload (log : List RCOp) (v : Nat) : Prop :=
  v = 0 ∨ ∃ bytes a, .alloc bytes (some a) ∈ log ∧ v = rcPayload a

/-- Every pointer that was passed to be counted led to a payload, the latest call first. -/
def WellCalled : List RCOp → Prop
  | [] => True
  | op :: log => (∀ v ∈ countedPointers op, IsPayload log v) ∧ WellCalled log

theorem IsPayload.mono {log log' : List RCOp} {v : Nat} (h : IsPayload log v) (hlog : log <:+ log') :
    IsPayload log' v := by
  refine h.imp_right ?_
  rintro ⟨bytes, a, hmem, rfl⟩
  exact ⟨bytes, a, hlog.mem hmem, rfl⟩

/-- The calls since some moment, all of them with payloads. -/
structure Logged (first : List RCOp) (w : World) : Prop where
  called : WellCalled w.log
  later : first <:+ w.log

/-! ### Programs -/

/-- The name under which the function is written. -/
def PFunction.emittedName (f : PFunction) : Str :=
  if f.name.text = "main" then "main_" else f.name.text

/-- The function that a call leads to. -/
def functionNamed (fs : List PFunction) (name : Str) : Option PFunction :=
  fs.find? fun f ↦ f.emittedName = name

mutual

/-- The statement does not end without a `return`. -/
def PStmt.returns : PStmt → Bool
  | .ret _ => true
  | .block body => bodyReturns body
  | .ifElse _ body otherwise => bodyReturns body && bodyReturns otherwise
  | _ => false

/-- The statements of a block do not end without a `return`. -/
def bodyReturns : List PStmt → Bool
  | [] => false
  | p :: ps => p.returns || bodyReturns ps

end

variable (ts : TypeSystem) (fs : List PFunction) (st : SymbolTable)

/-- `NIL` or a pointer variable. -/
def IsPointerName (y : Str) : Prop := y = nilName ∨ (countedName st y).isSome = true

/-- A call of a function of the program passes pointers for its pointer parameters. -/
def PassesPointers (name : Str) (args : List Ident) : Prop :=
  ∀ f, functionNamed fs name = some f → args.length = f.params.length ∧
    ∀ q ∈ f.params.zip args, (typeOf ts q.1.1).isPointer = true → IsPointerName st q.2.text

namespace PExpr

/-- The variables that the expression reads. -/
def names : PExpr → List Ident
  | .name y => [y]
  | .call _ args => args
  | _ => []

/-- The functions that the expression calls get pointers. -/
def Passes : PExpr → Prop
  | .call f args => PassesPointers ts fs st f.text args
  | _ => True

/-- New objects, pointer variables, `NIL`, and results of functions of the program that return
pointers; not literals and addresses of variables. -/
def IsPointer : PExpr → Prop
  | .new _ => True
  | .name y => IsPointerName st y.text
  | .call f _ => ∃ g, functionNamed fs f.text = some g ∧ (typeOf ts g.result).isPointer = true ∧
    bodyReturns g.body = true
  | .string _ | .addressOf _ => False

/-- The expression can be the value of a variable of a type. -/
def Fits (type : Ty) (e : PExpr) : Prop :=
  e.Passes ts fs st ∧ (type.isPointer = true → e.IsPointer ts fs st)

end PExpr

/-- Pointer variables are declared with a value, and get pointers only. -/
def PStmt.KeepsPointers : PStmt → Prop
  | .decl t x none => x.text ≠ nilName ∧ (typeOf ts t).isPointer = false
  | .decl t x (some value) => x.text ≠ nilName ∧ value.Fits ts fs st (typeOf ts t) ∧
    x.text ∉ value.names.map (·.text)
  | .assign x value => ∃ var, st.lookupSymbol x.text = some var ∧ value.Fits ts fs st var.type
  | .call f args => PassesPointers ts fs st f.text args
  | .ret value => ∀ func, st.currentFunc = some func → value.Fits ts fs st func.returnType
  | _ => True

/-! ### Invariants -/

/-- Variables of pointer type hold payloads. -/
def HoldsPayload (log : List RCOp) (type : Ty) (v : Option Nat) : Prop :=
  type.isPointer = true → ∃ n, v = some n ∧ IsPayload log n

/-- At a statement of a function with a result type, called when some calls had been made. -/
structure Pointing (first : List RCOp) (result : Ty) (st : SymbolTable) (σ : CState) : Prop where
  tracks : Tracks (HoldsPayload σ.world.log) st σ.env
  logged : Logged first σ.world
  func : ∃ func, st.currentFunc = some func ∧ func.returnType = result

/-- Calls with pointers for pointer parameters keep to payloads and return them. -/
def KeepsPayloads (callee : Callee) : Prop :=
  ∀ {name values w e}, WellCalled w.log →
    (∀ f, functionNamed fs name = some f → values.length = f.params.length ∧
      ∀ q ∈ f.params.zip values, (typeOf ts q.1.1).isPointer = true → IsPayload w.log q.2) →
    callee name values w e → Logged w.log e.state ∧
      ∀ w' v, e = .done w' v → ∀ f, functionNamed fs name = some f →
        (typeOf ts f.result).isPointer = true → bodyReturns f.body = true → IsPayload w'.log v

variable {ts fs st} {platform : Platform} {callee : Callee} {first : List RCOp} {result : Ty}
  {σ : CState} {y n : Str}

theorem Logged.call {w : World} (h : Logged first w) {op : RCOp} (heap : RCState)
    (hop : ∀ v ∈ countedPointers op, IsPayload w.log v) :
    Logged first { w with heap, log := op :: w.log } :=
  ⟨⟨hop, h.called⟩, h.later.trans (List.suffix_cons op w.log)⟩

theorem Logged.trans {w w' : World} (h : Logged first w) (h' : Logged w.log w') : Logged first w' :=
  ⟨h'.called, h.later.trans h'.later⟩

namespace Pointing

theorem grow (h : Pointing first result st σ) {w : World} (hw : Logged σ.world.log w) :
    Pointing first result st { σ with world := w } := by
  refine ⟨h.tracks.mono fun type v hv hpointer ↦ ?_, h.logged.trans hw, h.func⟩
  obtain ⟨n, hn, hpayload⟩ := hv hpointer
  exact ⟨n, hn, hpayload.mono hw.later⟩

/-- A counted name is that of a variable that holds a payload. -/
theorem found (h : Pointing first result st σ) (hy : countedName st y = some n) :
    n = y ∧ ∃ v, HasValue σ.env y v ∧ IsPayload σ.world.log v := by
  obtain ⟨var, hvar, rfl⟩ := Option.map_eq_some_iff.mp hy
  obtain ⟨hlookup, hpointer⟩ := Option.filter_eq_some_iff.mp hvar
  obtain ⟨w, hw, hname, hnil, hholds⟩ := h.tracks.agrees.found hlookup
  obtain ⟨v, rfl, hpayload⟩ := hholds hpointer
  exact ⟨hname, v, by rwa [HasValue, if_neg hnil], hpayload⟩

/-- A call of the runtime with payloads. -/
theorem calling (h : Pointing first result st σ) (op : RCOp)
    (hop : ∀ v ∈ countedPointers op, IsPayload σ.world.log v) (r : Except Fault RCState) :
    (σ.calling op r).Meets (fun σ' _ ↦ Pointing first result st σ')
      fun σ' _ ↦ Logged first σ'.world := by
  have hself : Logged σ.world.log σ.world := ⟨h.logged.called, List.suffix_rfl⟩
  cases r with
  | ok heap => exact h.grow (hself.call heap hop)
  | error f => exact h.logged.call _ hop

/-- Variables that are counted one after the other. -/
theorem countAll (h : Pointing first result st σ) {line : Str → Line} (op : Nat → RCOp)
    (hline : ∀ y σ e, LineStep platform callee (line y) σ e →
      ∃ v r, Reads σ.env y v ∧ e = σ.calling (op v) r)
    (hop : ∀ v, ∀ w ∈ countedPointers (op v), w = v ∨ w = 0) {names : List Str}
    (hnames : ∀ n ∈ names, countedName st n = some n) :
    LinesEnd platform callee (fun w _ ↦ Logged first w) (names.map line) σ
      (Pointing first result st) := by
  induction names generalizing σ with
  | nil => exact linesEnd_nil h.logged h
  | cons n names ih =>
    rw [List.forall_mem_cons] at hnames
    refine linesEnd_cons h.logged fun e he ↦ ?_
    obtain ⟨v, r, hreads, rfl⟩ := hline n σ e he
    obtain ⟨-, v', hvalue, hpayload⟩ := h.found hnames.1
    obtain rfl := hvalue.reads_iff.mp hreads
    have hcalled := h.calling (op v) (fun w hw ↦ ?_) r
    · generalize σ.calling (op v) r = e at hcalled
      cases e with
      | done σ' a => exact ih hcalled hnames.2
      | stopped σ' f => exact hcalled
    · rcases hop v w hw with rfl | rfl
      · exact hpayload
      · exact .inl rfl

theorem incAll (h : Pointing first result st σ) {names : List Str}
    (hnames : ∀ n ∈ names, countedName st n = some n) :
    LinesEnd platform callee (fun w _ ↦ Logged first w) (names.map .inc) σ
      (Pointing first result st) := by
  refine h.countAll (.inc · 0) ?_ ?_ hnames
  · rintro y σ e ⟨v, hreads, rfl⟩
    exact ⟨v, _, hreads, rfl⟩
  · intro v w hw
    simpa [countedPointers] using hw

theorem decAll (h : Pointing first result st σ) {names : List Str}
    (hnames : ∀ n ∈ names, countedName st n = some n) :
    LinesEnd platform callee (fun w _ ↦ Logged first w) (names.map .dec) σ
      (Pointing first result st) := by
  refine h.countAll .dec ?_ ?_ hnames
  · rintro y σ e ⟨v, hreads, rfl⟩
    exact ⟨v, _, hreads, rfl⟩
  · intro v w hw
    exact .inl (List.mem_singleton.mp hw)

/-- A pointer variable or `NIL`. -/
theorem name (h : Pointing first result st σ) (hy : IsPointerName st y) :
    ∃ v, HasValue σ.env y v ∧ IsPayload σ.world.log v := by
  rcases hy with rfl | hsome
  · exact ⟨0, by rw [HasValue, if_pos rfl], .inl rfl⟩
  · obtain ⟨n, hn⟩ := Option.isSome_iff_exists.mp hsome
    exact (h.found hn).2

theorem counted_self (h : Pointing first result st σ) (hy : countedName st y = some n) :
    countedName st n = some n := by
  obtain rfl := (h.found hy).1
  exact hy

end Pointing

/-! ### Values -/

theorem rcAlloc_eq_ok {heap heap' : RCState} {bytes v : Nat} {granted : Option Nat}
    (h : rcAlloc heap bytes granted = .ok (heap', v)) : ∃ a, granted = some a ∧ v = rcPayload a := by
  cases granted with
  | none => cases h
  | some a =>
    obtain ⟨heap'', -, hpure⟩ := bind_eq_ok.mp h
    cases hpure
    exact ⟨a, rfl, rfl⟩

theorem mem_zip_of_forall₂ {α β γ : Type} {R : β → γ → Prop} {as : List α} {bs : List β}
    {cs : List γ} (h : List.Forall₂ R bs cs) {q : α × γ} (hq : q ∈ as.zip cs) :
    ∃ b, (q.1, b) ∈ as.zip bs ∧ R b q.2 := by
  induction h generalizing as with
  | nil => simp at hq
  | @cons b c bs cs hR _ ih =>
    cases as with
    | nil => cases hq
    | cons a as =>
      rcases List.mem_cons.mp hq with rfl | hq
      · exact ⟨b, List.mem_cons_self, hR⟩
      · obtain ⟨b', hmem, hR'⟩ := ih hq
        exact ⟨b', List.mem_cons_of_mem _ hmem, hR'⟩

/-- What a value is, where its variables can be read as at a statement. -/
theorem Pointing.evaluates (hcallee : KeepsPayloads ts fs callee) (h : Pointing first result st σ)
    {e : PExpr} {type : Ty} (hfits : e.Fits ts fs st type) (target : Option Ty) {σ' : CState}
    (hworld : σ'.world = σ.world)
    (henv : ∀ z ∈ e.names, lookupVar σ'.env z.text = lookupVar σ.env z.text) :
    ValueEnds platform callee (fun w _ ↦ Logged first w) (e.compile ts st target) σ' fun σ'' v ↦
      σ''.env = σ'.env ∧ Logged σ.world.log σ''.world ∧
        (type.isPointer = true → IsPayload σ''.world.log v) := by
  have hself : Logged σ.world.log σ'.world := by
    rw [hworld]
    exact ⟨h.logged.called, List.suffix_rfl⟩
  intro ending heval
  cases e with
  | new t =>
    cases heval with
    | alloc hgranted hrun =>
      obtain ⟨a, rfl, rfl⟩ := rcAlloc_eq_ok hrun
      exact ⟨rfl, hself.call _ nofun, fun _ ↦ .inr ⟨_, a, List.mem_cons_self, rfl⟩⟩
    | allocFault hgranted hrun => exact h.logged.trans (hself.call _ nofun)
  | name z =>
    have hreads {v : Nat} (hv : Reads σ'.env z.text v) (hpointer : type.isPointer = true) :
        IsPayload σ'.world.log v := by
      obtain ⟨w, hw, hpayload⟩ := h.name (hfits.2 hpointer)
      rw [(hw.congr (henv z List.mem_cons_self)).reads_iff.mp hv, hworld]
      exact hpayload
    have hcast : (PExpr.name z).compile ts st target = .var z.text ∨
        (PExpr.name z).compile ts st target = .parent z.text := castName_cases ts st z.text target
    rcases hcast with hcast | hcast
    · rw [hcast] at heval
      cases heval with
      | var hv => exact ⟨rfl, hself, hreads hv⟩
    · rw [hcast] at heval
      cases heval with
      | parent hv => exact ⟨rfl, hself, hreads hv⟩
  | string s =>
    cases heval with
    | address => exact ⟨rfl, hself, fun hpointer ↦ (hfits.2 hpointer).elim⟩
  | addressOf z =>
    cases heval with
    | address => exact ⟨rfl, hself, fun hpointer ↦ (hfits.2 hpointer).elim⟩
  | call f args =>
    have hvalues {values : List Nat} (hargs : List.Forall₂ (Reads σ'.env) (args.map (·.text)) values)
        (g : PFunction) (hg : functionNamed fs f.text = some g) : values.length = g.params.length ∧
          ∀ q ∈ g.params.zip values, (typeOf ts q.1.1).isPointer = true →
            IsPayload σ'.world.log q.2 := by
      obtain ⟨hlength, hpass⟩ := hfits.1 g hg
      rw [List.forall₂_map_left_iff] at hargs
      refine ⟨by rw [← hargs.length_eq, hlength], fun q hq hpointer ↦ ?_⟩
      obtain ⟨a, hmem, hreads⟩ := mem_zip_of_forall₂ hargs hq
      obtain ⟨w, hw, hpayload⟩ := h.name (hpass _ hmem hpointer)
      have ha : a ∈ (PExpr.call f args).names := (List.of_mem_zip hmem).2
      rw [(hw.congr (henv a ha)).reads_iff.mp hreads, hworld]
      exact hpayload
    cases heval with
    | call hargs hrun =>
      obtain ⟨hlogged, hresult⟩ := hcallee hself.called (hvalues hargs) hrun
      refine ⟨rfl, hself.trans hlogged, fun hpointer ↦ ?_⟩
      obtain ⟨g, hg, hpointer', hreturns⟩ := hfits.2 hpointer
      exact hresult _ _ rfl g hg hpointer' hreturns
    | callStopped hargs hrun =>
      exact h.logged.trans (hself.trans (hcallee hself.called (hvalues hargs) hrun).1)

/-! ### Statements -/

theorem currentFunc_declareSymbol (st : SymbolTable) (x : Str) (type : Ty) :
    (declareSymbol st x type).currentFunc = st.currentFunc := by
  unfold declareSymbol
  cases st.scopes <;> rfl

/-- The counted arguments of a call are among its names. -/
theorem mem_names_of_countedArgs (ts : TypeSystem) (h : Pointing first result st σ) (e : PExpr)
    (target : Option Ty)
    (hn : n ∈ countedArgs st (e.compile ts st target)) :
    countedName st n = some n ∧ n ∈ e.names.map (·.text) := by
  rw [countedArgs_compile] at hn
  cases e with
  | call f args =>
    obtain ⟨y, hy, hcounted⟩ := List.mem_filterMap.mp hn
    obtain rfl := (h.found hcounted).1
    exact ⟨hcounted, hy⟩
  | name z =>
    rw [PExpr.compile, castName_none] at hn
    cases hn
  | _ => cases hn

namespace Pointing

/-- The increment of a variable on the right side. -/
theorem ownRetain (h : Pointing first result st σ) (value : CValue) :
    LinesEnd platform callee (fun w _ ↦ Logged first w) (ownRetains st value) σ
      (Pointing first result st) := by
  cases value with
  | var y =>
    refine h.incAll fun n hn ↦ ?_
    rw [Option.mem_toList] at hn
    exact h.counted_self hn
  | _ => exact linesEnd_nil h.logged h

/-- The increments in front of a value. -/
theorem retain (ts : TypeSystem) (h : Pointing first result st σ) (e : PExpr) (target : Option Ty) :
    LinesEnd platform callee (fun w _ ↦ Logged first w) (retains st (e.compile ts st target)) σ
      (Pointing first result st) := by
  refine .append ((h.incAll fun n hn ↦ (mem_names_of_countedArgs ts h e _ hn).1).mono fun σ' h' ↦ ?_)
  exact h'.ownRetain _

/-- The decrements behind a call. -/
theorem releaseArgs {st' : SymbolTable} (h : Pointing first result st' σ) {value : CValue}
    (hnames : ∀ n ∈ countedArgs st value, countedName st' n = some n) :
    LinesEnd platform callee (fun w _ ↦ Logged first w) (argReleases st value) σ
      (Pointing first result st') := by
  unfold argReleases
  cases hargs : countedArgs st value with
  | nil => exact linesEnd_nil h.logged h
  | cons n names =>
    rw [hargs] at hnames
    refine .append ((h.decAll hnames).mono fun σ' h' ↦ ?_)
    exact linesEnd_empty h'.logged (linesEnd_nil h'.logged h')

/-- The decrements at the end of a block. -/
theorem release (h : Pointing first result st σ) :
    LinesEnd platform callee (fun w _ ↦ Logged first w) (releaseLines st) σ
      (Pointing first result st) := by
  obtain ⟨scope, scopes, hst⟩ := List.exists_cons_of_ne_nil h.tracks.scopes_ne_nil
  have hcounted : ∀ p ∈ scope.toList, p.2.type.isPointer = true →
      countedName st p.2.name = some p.2.name := by
    intro p hp hpointer
    have hget := Std.TreeMap.mem_toList_iff_getElem?_eq_some.mp hp
    have hlookup : st.lookupSymbol p.1 = some p.2 := by
      rw [lookupSymbol_of_cons hst, hget, Option.some_or]
    refine h.counted_self (y := p.1) ?_
    rw [countedName, hlookup, pointerVar, Option.filter_some, if_pos hpointer]
    rfl
  have hlines : releaseLines st = (scope.toList.filterMap fun p ↦
      if p.2.type.isPointer then some p.2.name else none).map .dec := by
    rw [releaseLines, SymbolTable.getCurrentScopeSymbols, hst, List.map_filterMap]
    refine List.filterMap_congr fun p _ ↦ ?_
    cases p.2.type.isPointer <;> rfl
  rw [hlines]
  refine h.decAll fun n hn ↦ ?_
  obtain ⟨p, hp, hname⟩ := List.mem_filterMap.mp hn
  split_ifs at hname with hpointer
  cases hname
  exact hcounted p hp hpointer

/-- A declaration. -/
theorem decl (hcallee : KeepsPayloads ts fs callee) (h : Pointing first result st σ) {t : TypeSpec}
    {x : Ident} {value : Option PExpr}
    (hp : (PStmt.decl t x value).KeepsPointers ts fs st) {ls : List Line}
    (hcompile : (PStmt.decl t x value).compile ts st = .lines ls) :
    LinesEnd platform callee (fun w _ ↦ Logged first w) ls σ
      (Pointing first result (declareSymbol st x.text (typeOf ts t))) := by
  have hfunc : ∃ func, (declareSymbol st x.text (typeOf ts t)).currentFunc = some func ∧
      func.returnType = result := by
    rw [currentFunc_declareSymbol]
    exact h.func
  cases value with
  | none =>
    cases hcompile
    refine linesEnd_declare_none h.logged (linesEnd_nil h.logged ?_)
    refine ⟨h.tracks.add hp.1 fun hpointer ↦ ?_, h.logged, hfunc⟩
    rw [hp.2] at hpointer
    cases hpointer
  | some e =>
    cases hcompile
    obtain ⟨hx, hfits, hnot⟩ := hp
    refine .append ((h.retain ts e _).mono fun σ₁ h₁ ↦ linesEnd_declare h₁.logged ?_)
    have hvalue : ValueEnds platform callee (fun w _ ↦ Logged first w)
        (e.compile ts st (typeOf ts t)) (σ₁.declare x.text) _ :=
      h₁.evaluates hcallee hfits _ rfl fun z hz ↦ by
        have hne : z.text ≠ x.text := fun heq ↦ hnot (heq ▸ List.mem_map_of_mem hz)
        exact (lookupVar_addVar x.text z.text σ₁.env).trans (if_neg hne)
    refine hvalue.mono fun σ₂ v hend ↦ ?_
    obtain ⟨henv, hlogged, hpayload⟩ := hend
    have hdeclared : Pointing first result (declareSymbol st x.text (typeOf ts t))
        (σ₂.set x.text v) := by
      refine ⟨?_, h₁.logged.trans hlogged, hfunc⟩
      rw [CState.set, henv]
      exact (h₁.grow hlogged).tracks.declare hx fun hpointer ↦ ⟨v, rfl, hpayload hpointer⟩
    refine hdeclared.releaseArgs fun n hn ↦ ?_
    obtain ⟨hcounted, hmem⟩ := mem_names_of_countedArgs ts h e _ hn
    have hne : n ≠ x.text := fun heq ↦ hnot (heq ▸ hmem)
    rw [countedName, lookupSymbol_declareSymbol h.tracks.scopes_ne_nil, if_neg hne]
    exact hcounted

/-- An assignment. -/
theorem assign (hcallee : KeepsPayloads ts fs callee) (h : Pointing first result st σ) {x : Ident}
    {e : PExpr} (hp : (PStmt.assign x e).KeepsPointers ts fs st) {ls : List Line}
    (hcompile : (PStmt.assign x e).compile ts st = .lines ls) :
    LinesEnd platform callee (fun w _ ↦ Logged first w) ls σ (Pointing first result st) := by
  obtain ⟨var, hvar, hfits⟩ := hp
  cases hcompile
  have hreleased {σ' : CState} (h' : Pointing first result st σ') : LinesEnd platform callee
      (fun w _ ↦ Logged first w) ((countedName st x.text).toList.map .dec) σ'
        (Pointing first result st) := by
    refine h'.decAll fun n hn ↦ ?_
    rw [Option.mem_toList] at hn
    exact h'.counted_self hn
  refine .append (.append ((h.retain ts e _).mono fun σ₁ h₁ ↦ (hreleased h₁).mono fun σ₂ h₂ ↦ ?_))
  refine linesEnd_assign h₂.logged ?_
  refine (h₂.evaluates hcallee hfits _ rfl fun _ _ ↦ rfl).mono fun σ₃ v hend ↦ ?_
  obtain ⟨henv, hlogged, hpayload⟩ := hend
  have hassigned : Pointing first result st (σ₃.set x.text v) := by
    refine ⟨?_, h₂.logged.trans hlogged, h.func⟩
    rw [CState.set, henv]
    exact (h₂.grow hlogged).tracks.set hvar fun hpointer ↦ ⟨v, rfl, hpayload hpointer⟩
  exact hassigned.releaseArgs fun n hn ↦ (mem_names_of_countedArgs ts h e _ hn).1

/-- A call. -/
theorem call (hcallee : KeepsPayloads ts fs callee) (h : Pointing first result st σ) {f : Ident}
    {args : List Ident} (hp : PassesPointers ts fs st f.text args) {ls : List Line}
    (hcompile : (PStmt.call f args).compile ts st = .lines ls) :
    LinesEnd platform callee (fun w _ ↦ Logged first w) ls σ (Pointing first result st) := by
  have hfits : (PExpr.call f args).Fits ts fs st { base := .void } := ⟨hp, nofun⟩
  cases hcompile
  refine .append ((h.retain ts (.call f args) none).mono fun σ₁ h₁ ↦ ?_)
  refine linesEnd_expr h₁.logged ?_
  refine (h₁.evaluates hcallee hfits none rfl fun _ _ ↦ rfl).mono fun σ₂ v hend ↦ ?_
  obtain ⟨henv, hlogged, -⟩ := hend
  have hcalled : Pointing first result st σ₂ := by
    obtain ⟨env, w⟩ := σ₂
    cases henv
    exact h₁.grow hlogged
  exact hcalled.releaseArgs fun n hn ↦
    (mem_names_of_countedArgs ts h (.call f args) none hn).1

end Pointing

variable {trace : List CState} {P : Ty → Option Nat → Prop} {ps : List PStmt}

end JBLang.Emitted
