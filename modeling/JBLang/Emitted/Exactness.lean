import JBLang.Emitted.Programs
import JBLang.Emitted.RunRules
import JBLang.Emitted.Tracking

/-!
# Exact counts on pointer variables

Functions whose statements declare and assign pointers to structs: at every statement of an
execution the count of a block is the number of variables that hold it.
-/

namespace JBLang.Emitted

open JBLang.Base JBLang.Types JBLang.Codegen JBLang.Ast JBLang.Runtime

/-! ### The programs -/

/-- Right sides: `new T`, a variable that is in scope, or `NIL`. -/
def PExpr.IsBare (st : SymbolTable) : PExpr → Prop
  | .new _ => True
  | .name y => y.text = nilName ∨ (st.lookupSymbol y.text).isSome = true
  | _ => False

/-- The block has no variable of the name yet. -/
def IsNew (st : SymbolTable) (x : Str) : Prop := x ∉ st.getCurrentScopeSymbols.map Prod.fst

instance (st : SymbolTable) (x : Str) : Decidable (IsNew st x) :=
  inferInstanceAs (Decidable (x ∉ _))

/-- Declarations of pointers to structs with a right side, and assignments to variables that are in
scope. -/
def PStmt.IsBare (ts : TypeSystem) (st : SymbolTable) : PStmt → Prop
  | .decl t x (some value) => (typeOf ts t).isStruct = true ∧ (typeOf ts t).isPointer = true ∧
    x.text ≠ nilName ∧ IsNew st x.text ∧ value.IsBare st
  | .assign x value => (st.lookupSymbol x.text).isSome = true ∧ value.IsBare st
  | _ => False

/-- The declared variable is not initialised from a variable of its own name. -/
def PStmt.IsFromAnother : PStmt → Prop
  | .decl _ x (some (.name y)) => y.text ≠ x.text
  | _ => True

/-! ### Exact counts -/

/-- The variables that hold a block, those that are hidden by others included. -/
def CState.holders (σ : CState) (b : Nat) : Nat :=
  σ.env.flatten.countP fun p ↦ p.2 == some (rcPayload b)

/-- The live blocks are those that variables hold, each counted as often as it is held, and the
variables hold nothing else. -/
structure CState.Exact (σ : CState) : Prop where
  counts : ∀ b ∈ σ.world.heap.live, σ.world.heap.countOf b = σ.holders b
  held : ∀ b ∈ σ.world.heap.live, 0 < σ.holders b
  pointers : ∀ p ∈ σ.env.flatten, p.2 = some 0 ∨ ∃ b ∈ σ.world.heap.live, p.2 = some (rcPayload b)

/-- The values of all variables. -/
def heldBy (env : List Frame) : List Nat := env.flatten.filterMap Prod.snd

/-- Struct pointers have values. -/
def HoldsPointer (type : Ty) (v : Option Nat) : Prop :=
  type.isClass = false ∧ type.isPointer = true ∧ v.isSome = true

/-- At a statement: the variables are the symbols, and the heap counts what they hold. -/
structure Counted (st : SymbolTable) (σ : CState) : Prop where
  tracks : Tracks HoldsPointer st σ.env
  distinct : ∀ frame ∈ σ.env, (frame.map Prod.fst).Nodup
  holds : Holds σ.world.heap (heldBy σ.env)

/-! ### Values of variables -/

section Values

variable {env : List Frame} {frame : Frame} {x y : Str} {v old : Nat}

theorem heldBy_cons (frame : Frame) (env : List Frame) :
    heldBy (frame :: env) = frame.filterMap Prod.snd ++ heldBy env := by
  rw [heldBy, List.flatten_cons, List.filterMap_append]
  rfl

theorem lookup_of_mem {p : Str × Option Nat} (hnodup : (frame.map Prod.fst).Nodup) (hp : p ∈ frame) :
    frame.lookup p.1 = some p.2 := by
  induction frame with
  | nil => cases hp
  | cons q frame ih =>
    rw [List.map_cons, List.nodup_cons] at hnodup
    rw [lookup_cons_eq_ite q.1 q.2]
    rcases List.mem_cons.mp hp with rfl | hp
    · rw [if_pos rfl]
    · have hne : p.1 ≠ q.1 := fun heq ↦ hnodup.1 (heq ▸ List.mem_map_of_mem hp)
      rw [if_neg hne]
      exact ih hnodup.2 hp

theorem mem_of_lookup {w : Option Nat} (h : frame.lookup y = some w) : (y, w) ∈ frame := by
  induction frame with
  | nil => cases h
  | cons q frame ih =>
    rw [lookup_cons_eq_ite q.1 q.2] at h
    split_ifs at h with hy
    · cases h
      rw [hy]
      exact List.mem_cons_self
    · exact List.mem_cons_of_mem _ (ih h)

theorem mem_heldBy (h : lookupVar env y = some (some v)) : v ∈ heldBy env :=
  List.mem_filterMap.mpr ⟨(y, some v), mem_of_lookup h, rfl⟩

theorem heldBy_set (h : frame.lookup x = some (some old)) (v : Nat) :
    (old :: (frame.set x v).filterMap Prod.snd).Perm (v :: frame.filterMap Prod.snd) := by
  induction frame with
  | nil => cases h
  | cons q frame ih =>
    rw [lookup_cons_eq_ite q.1 q.2] at h
    rw [Frame.set]
    by_cases hx : x = q.1
    · rw [if_pos hx] at h
      rw [if_pos hx.symm, List.filterMap_cons_some (Option.some.inj h)]
      exact .swap _ _ _
    · rw [if_neg hx] at h
      rw [if_neg (Ne.symm hx)]
      cases hq : q.2 with
      | none =>
        rw [List.filterMap_cons_none hq, List.filterMap_cons_none hq]
        exact ih h
      | some w =>
        rw [List.filterMap_cons_some hq, List.filterMap_cons_some hq]
        exact ((List.Perm.swap _ _ _).trans ((ih h).cons w)).trans (.swap _ _ _)

/-- An assignment exchanges one of the values. -/
theorem heldBy_setVar (h : lookupVar env x = some (some old)) (v : Nat) :
    (old :: heldBy (setVar x v env)).Perm (v :: heldBy env) := by
  induction env with
  | nil => cases h
  | cons frame env ih =>
    rw [lookupVar_cons] at h
    rw [setVar]
    split
    · next hmem =>
      obtain ⟨w, hw⟩ : ∃ w, frame.lookup x = some w := by
        rw [← Option.ne_none_iff_exists']
        intro hnone
        rw [List.lookup_eq_none_iff] at hnone
        obtain ⟨p, hp, rfl⟩ := List.mem_map.mp hmem
        simpa using hnone p hp
      rw [hw, Option.some_or] at h
      rw [heldBy_cons, heldBy_cons]
      exact (heldBy_set (hw.trans h) v).append_right (heldBy env)
    · next hmem =>
      rw [lookup_eq_none_of_not_mem hmem, Option.none_or] at h
      rw [heldBy_cons, heldBy_cons]
      calc old :: (frame.filterMap Prod.snd ++ heldBy (setVar x v env))
        _ |>.Perm (frame.filterMap Prod.snd ++ old :: heldBy (setVar x v env)) :=
          List.perm_middle.symm
        _ |>.Perm (frame.filterMap Prod.snd ++ v :: heldBy env) := (ih h).append_left _
        _ |>.Perm (v :: (frame.filterMap Prod.snd ++ heldBy env)) := List.perm_middle

theorem names_set (x : Str) (v : Nat) (frame : Frame) :
    (frame.set x v).map Prod.fst = frame.map Prod.fst := by
  induction frame with
  | nil => rfl
  | cons q frame ih =>
    rw [Frame.set]
    split
    · next hq => rw [List.map_cons, List.map_cons, hq]
    · rw [List.map_cons, List.map_cons, ih]

theorem names_setVar (x : Str) (v : Nat) (env : List Frame) :
    (setVar x v env).map (List.map Prod.fst) = env.map (List.map Prod.fst) := by
  induction env with
  | nil => rfl
  | cons frame env ih =>
    rw [setVar]
    split
    · rw [List.map_cons, List.map_cons, names_set]
    · rw [List.map_cons, List.map_cons, ih]

theorem distinct_setVar (h : ∀ frame ∈ env, (frame.map Prod.fst).Nodup) (x : Str) (v : Nat) :
    ∀ frame ∈ setVar x v env, (frame.map Prod.fst).Nodup := by
  rw [← List.forall_mem_map (f := List.map Prod.fst) (P := List.Nodup)] at h ⊢
  rw [names_setVar]
  exact h

end Values

/-! ### States with counted variables -/

section Counted

variable {platform : Platform} {callee : Callee} {ts : TypeSystem} {st : SymbolTable} {σ : CState}
  {x y : Str}

/-- Every variable of the frames is a symbol. -/
theorem Tracks.forall_mem {P : Ty → Option Nat → Prop} {env : List Frame} (h : Tracks P st env)
    (hdistinct : ∀ frame ∈ env, (frame.map Prod.fst).Nodup) :
    ∀ p ∈ env.flatten, ∃ type, P type p.2 := by
  have hfound {symbol : Str → Option Variable} {frame : Frame} (hnodup : (frame.map Prod.fst).Nodup)
      (hagrees : Agrees P symbol (frame.lookup ·)) : ∀ p ∈ frame, ∃ type, P type p.2 := by
    intro p hp
    have hlookup := lookup_of_mem hnodup hp
    cases hvar : symbol p.1 with
    | none =>
      rw [hagrees.missing hvar] at hlookup
      cases hlookup
    | some var =>
      obtain ⟨v, hv, -, -, hP⟩ := hagrees.found hvar
      rw [hlookup] at hv
      cases hv
      exact ⟨var.type, hP⟩
  induction h with
  | function hst h =>
    rw [List.flatten_singleton]
    exact hfound (hdistinct _ List.mem_cons_self) h
  | block hst h _ ih =>
    rw [List.forall_mem_cons] at hdistinct
    rw [List.flatten_cons]
    exact List.forall_mem_append.mpr ⟨hfound hdistinct.1 h, ih hdistinct.2⟩

/-- What the invariant means for the counts. -/
theorem Counted.exact (h : Counted st σ) : σ.Exact := by
  have hvalue : ∀ p ∈ σ.env.flatten, p.2 = some 0 ∨
      ∃ b ∈ σ.world.heap.live, p.2 = some (rcPayload b) := by
    intro p hp
    obtain ⟨type, -, -, hsome⟩ := h.tracks.forall_mem h.distinct p hp
    obtain ⟨v, hv⟩ := Option.isSome_iff_exists.mp hsome
    rcases h.holds.pointers v (List.mem_filterMap.mpr ⟨p, hp, hv⟩) with rfl | ⟨b, hb, rfl⟩
    · exact .inl hv
    · exact .inr ⟨b, hb, hv⟩
  have hholders : ∀ b ∈ σ.world.heap.live, refsTo (heldBy σ.env) b = σ.holders b := by
    intro b hb
    rw [refsTo, heldBy, List.countP_filterMap, CState.holders]
    refine List.countP_congr fun p hp ↦ ?_
    obtain ⟨hb', hbne⟩ := h.holds.payload hb
    rcases hvalue p hp with hv | ⟨c, hc, hv⟩
    · simp [hv, hbne.symm]
    · obtain ⟨hc', hcne⟩ := h.holds.payload hc
      have hiff : c = b ↔ rcPayload c = rcPayload b := by
        refine ⟨congrArg rcPayload, fun heq ↦ ?_⟩
        rw [← hc', heq, hb']
      simp [hv, hcne, hc', hiff]
  have hcounts : ∀ b ∈ σ.world.heap.live, σ.world.heap.countOf b = σ.holders b := by
    intro b hb
    rw [h.holds.count_eq hb, hholders b hb]
  refine ⟨hcounts, fun b hb ↦ ?_, hvalue⟩
  have hpos := h.holds.counted.balanced.count_pos b hb
  rw [hcounts b hb] at hpos
  exact Int.natCast_pos.mp hpos

/-! ### What the lines of a statement do -/

/-- An execution stops where it is looked at, or where `malloc` fails. -/
def StopsForMemory (w : World) (fault : Option Fault) : Prop :=
  fault = none ∨ ∃ bytes log, w.log = .alloc bytes none :: log

theorem valueEnds_alloc {held : List Nat} (h : Holds σ.world.heap held) (type : Ty) :
    ValueEnds platform callee StopsForMemory (.alloc type) σ
      fun σ' v ↦ σ'.env = σ.env ∧ Holds σ'.world.heap (v :: held) := by
  intro e heval
  cases heval with
  | @alloc _ _ granted heap v hgranted hrun =>
    cases granted with
    | none => cases hrun
    | some a =>
      obtain ⟨hfresh, hrange⟩ := hgranted a rfl
      obtain ⟨heap', hrun', hholds⟩ := h.alloc hfresh hrange (platform.sizeof type)
      rw [hrun] at hrun'
      cases hrun'
      exact ⟨rfl, hholds⟩
  | @allocFault _ _ granted f hgranted hrun =>
    cases granted with
    | none => exact .inr ⟨_, _, rfl⟩
    | some a =>
      obtain ⟨hfresh, hrange⟩ := hgranted a rfl
      obtain ⟨heap', hrun', -⟩ := h.alloc hfresh hrange (platform.sizeof type)
      rw [hrun] at hrun'
      cases hrun'

namespace Counted

/-- A variable in scope has a value, and is counted under its name. -/
theorem found (h : Counted st σ) {var : Variable} (hvar : st.lookupSymbol y = some var) :
    ∃ v, lookupVar σ.env y = some (some v) ∧ HasValue σ.env y v ∧ countedName st y = some y := by
  obtain ⟨w, hw, hname, hnil, -, hpointer, hsome⟩ := h.tracks.agrees.found hvar
  obtain ⟨v, rfl⟩ := Option.isSome_iff_exists.mp hsome
  refine ⟨v, hw, by rwa [HasValue, if_neg hnil], ?_⟩
  simp [countedName, pointerVar, hvar, hpointer, hname]

/-- `NIL` is not counted. -/
theorem lookup_nilName (h : Counted st σ) : st.lookupSymbol nilName = none := by
  cases hvar : st.lookupSymbol nilName with
  | none => rfl
  | some var =>
    obtain ⟨-, -, -, hnil, -⟩ := h.tracks.agrees.found hvar
    exact absurd rfl hnil

/-- A variable on the right side is held once more. -/
theorem retain (platform : Platform) (callee : Callee) (h : Counted st σ)
    (hy : y = nilName ∨ (st.lookupSymbol y).isSome = true) :
    ∃ v, HasValue σ.env y v ∧ Performs platform callee (ownRetains st (.var y)) σ
      fun σ' ↦ σ'.env = σ.env ∧ Holds σ'.world.heap (v :: heldBy σ.env) := by
  rcases hy with rfl | hsome
  · refine ⟨0, by rw [HasValue, if_pos rfl], ?_⟩
    have hnone : ownRetains st (.var nilName) = [] := by
      simp [ownRetains, countedName, pointerVar, h.lookup_nilName]
    rw [hnone, performs_nil]
    exact ⟨rfl, Holds.cons_null.mpr h.holds⟩
  · obtain ⟨var, hvar⟩ := Option.isSome_iff_exists.mp hsome
    obtain ⟨v, hlookup, hvalue, hcounted⟩ := h.found hvar
    obtain ⟨heap, hrun, hholds⟩ := h.holds.inc (mem_heldBy hlookup)
    refine ⟨v, hvalue, ?_⟩
    have hlines : ownRetains st (.var y) = [.inc y] := by
      rw [ownRetains, hcounted]
      rfl
    rw [hlines, performs_cons fun e ↦ lineStep_inc hvalue hrun, performs_nil]
    exact ⟨rfl, hholds⟩

/-- A declared variable takes over what was held for it. -/
theorem declare (h : Counted st σ) (hdepth : 1 < st.scopes.length) (hnew : IsNew st x)
    (hx : x ≠ nilName) {type : Ty} (hstruct : type.isClass = false)
    (hpointer : type.isPointer = true) {v : Nat} {σ' : CState} (henv : σ'.env = addVar x σ.env)
    (hholds : Holds σ'.world.heap (v :: heldBy σ.env)) :
    Counted (declareSymbol st x type) (σ'.set x v) := by
  obtain ⟨env, w⟩ := σ
  have htracks := h.tracks.declare (v := v) hx
    (⟨hstruct, hpointer, rfl⟩ : HoldsPointer type (some v))
  refine ⟨by rw [CState.set, henv]; exact htracks, ?_, ?_⟩
  · obtain ⟨htracks, hdistinct, -⟩ := h
    cases htracks with
    | function hst _ => simp [hst] at hdepth
    | @block _ scope scopes frame env hst hagrees _ =>
      rw [IsNew, SymbolTable.getCurrentScopeSymbols, hst, Std.TreeMap.map_fst_toList_eq_keys,
        Std.TreeMap.mem_keys] at hnew
      have hnone := hagrees.missing (Std.TreeMap.getElem?_eq_none hnew)
      rw [List.forall_mem_cons] at hdistinct
      rw [CState.set, henv, setVar_addVar, List.forall_mem_cons, List.map_cons, List.nodup_cons]
      refine ⟨⟨fun hmem ↦ ?_, hdistinct.1⟩, hdistinct.2⟩
      obtain ⟨p, hp, rfl⟩ := List.mem_map.mp hmem
      rw [lookup_of_mem hdistinct.1 hp] at hnone
      cases hnone
  · obtain ⟨htracks, -, -⟩ := h
    cases htracks with
    | function hst _ => simp [hst] at hdepth
    | block hst hagrees _ =>
      rw [CState.set, henv, setVar_addVar]
      exact hholds

/-- An assigned variable takes over what was held for it. -/
theorem assign (h : Counted st σ) {var : Variable} (hvar : st.lookupSymbol x = some var)
    {old v : Nat} (hold : lookupVar σ.env x = some (some old)) {σ' : CState}
    (henv : σ'.env = σ.env) {held : List Nat} (hholds : Holds σ'.world.heap held)
    (hperm : (old :: held).Perm (v :: heldBy σ.env)) : Counted st (σ'.set x v) := by
  obtain ⟨w, hw, -, -, hstruct, hpointer, -⟩ := h.tracks.agrees.found hvar
  refine ⟨?_, ?_, hholds.perm ?_⟩
  · rw [CState.set, henv]
    exact h.tracks.set hvar ⟨hstruct, hpointer, rfl⟩
  · rw [CState.set, henv]
    exact distinct_setVar h.distinct x v
  · rw [CState.set, henv]
    exact (hperm.trans (heldBy_setVar hold v).symm).cons_inv

theorem enter (h : Counted st σ) : Counted st.enterScope σ.openScope :=
  ⟨h.tracks.enter, List.forall_mem_cons.mpr ⟨List.nodup_nil, h.distinct⟩, h.holds⟩

end Counted

/-! ### The end of a block -/

section Scope

variable {scope : NameMap Variable} {scopes : List (NameMap Variable)} {frame : Frame}

/-- The symbols of a scope are the variables of its frame, in the order of the map. -/
theorem Agrees.keys_perm {P : Ty → Option Nat → Prop} (h : Agrees P (scope[·]?) (frame.lookup ·))
    (hnodup : (frame.map Prod.fst).Nodup) : scope.keys.Perm (frame.map Prod.fst) := by
  rw [List.perm_ext_iff_of_nodup Std.TreeMap.nodup_keys hnodup]
  intro y
  rw [Std.TreeMap.mem_keys]
  constructor
  · intro hy
    obtain ⟨var, hvar⟩ := Option.isSome_iff_exists.mp (Std.TreeMap.isSome_getElem?_iff_mem.mpr hy)
    obtain ⟨v, hv, -⟩ := h.found hvar
    exact mem_of_lookup_ne_none (by rw [hv]; exact nofun)
  · intro hy
    by_contra hnot
    obtain ⟨p, hp, rfl⟩ := List.mem_map.mp hy
    have hnone := h.missing (Std.TreeMap.getElem?_eq_none hnot)
    rw [lookup_of_mem hnodup hp] at hnone
    cases hnone

theorem releaseLines_of_agrees (hst : st.scopes = scope :: scopes)
    (h : Agrees HoldsPointer (scope[·]?) (frame.lookup ·)) :
    releaseLines st = scope.keys.map .dec := by
  rw [releaseLines, SymbolTable.getCurrentScopeSymbols, hst, ← Std.TreeMap.map_fst_toList_eq_keys,
    List.map_map, ← List.filterMap_eq_map]
  refine List.filterMap_congr fun p hp ↦ ?_
  obtain ⟨w, -, hname, -, -, hpointer, -⟩ :=
    h.found (Std.TreeMap.mem_toList_iff_getElem?_eq_some.mp hp)
  rw [if_pos hpointer, hname]
  rfl

/-- The released values are those of the frame. -/
theorem released_values (env : List Frame) (h : Agrees HoldsPointer (scope[·]?) (frame.lookup ·))
    (hnodup : (frame.map Prod.fst).Nodup) :
    ∃ vs, List.Forall₂ (HasValue (frame :: env)) scope.keys vs ∧
      (frame.filterMap Prod.snd).Perm vs := by
  let valueOf (y : Str) : Option Nat := (frame.lookup y).join
  refine ⟨scope.keys.filterMap valueOf, forall₂_filterMap fun y hy ↦ ?_, ?_⟩
  · rw [Std.TreeMap.mem_keys] at hy
    obtain ⟨var, hvar⟩ := Option.isSome_iff_exists.mp (Std.TreeMap.isSome_getElem?_iff_mem.mpr hy)
    obtain ⟨w, hw, -, hnil, -, -, hsome⟩ := h.found hvar
    obtain ⟨v, rfl⟩ := Option.isSome_iff_exists.mp hsome
    refine ⟨v, congrArg Option.join hw, ?_⟩
    rw [HasValue, if_neg hnil, lookupVar_cons, hw, Option.some_or]
  · have hvalueOf : frame.filterMap Prod.snd = (frame.map Prod.fst).filterMap valueOf := by
      rw [List.filterMap_map]
      refine List.filterMap_congr fun p hp ↦ ?_
      exact (congrArg Option.join (lookup_of_mem hnodup hp)).symm
    rw [hvalueOf]
    exact ((h.keys_perm hnodup).filterMap valueOf).symm

end Scope

/-- At the end of a block its variables are released. -/
theorem Counted.leave (h : Counted st σ) (hdepth : 1 < st.scopes.length) :
    Performs platform callee (releaseLines st) σ fun σ' ↦ Counted st.exitScope σ'.closeScope := by
  obtain ⟨env, w⟩ := σ
  obtain ⟨htracks, hdistinct, hholds⟩ := h
  cases htracks with
  | function hst _ => simp [hst] at hdepth
  | @block _ scope scopes frame env hst hagrees hrest =>
    rw [List.forall_mem_cons] at hdistinct
    obtain ⟨vs, hvs, hperm⟩ := released_values env hagrees hdistinct.1
    rw [heldBy_cons] at hholds
    have hdecs : Performs platform callee (scope.keys.map .dec) ⟨frame :: env, w⟩ fun σ' ↦
        σ'.env = frame :: env ∧ Holds σ'.world.heap (heldBy env) :=
      performs_decs hvs (hholds.perm (hperm.append_right (heldBy env)))
    rw [releaseLines_of_agrees hst hagrees]
    refine ⟨hdecs.1, fun e he ↦ (hdecs.2 e he).imp_right ?_⟩
    rintro ⟨⟨env', w'⟩, rfl, rfl, hleft⟩
    exact ⟨_, rfl, hrest, hdistinct.2, hleft⟩

/-! ### Every statement keeps the counts exact -/

theorem castName_of_struct {y : Str} {type : Ty} (h : type.isClass = false) :
    castName ts st y (some type) = .var y := by
  unfold castName
  cases st.lookupSymbol y with
  | none => rfl
  | some var =>
    dsimp only
    split
    · simp [h]
    · rfl

/-- The statements of these programs that keep the counts exact. -/
def IsCounted (ts : TypeSystem) (st : SymbolTable) (p : PStmt) : Prop :=
  p.IsBare ts st ∧ p.IsFromAnother

theorem isClass_of_isStruct {type : Ty} (h : type.isStruct = true) : type.isClass = false := by
  rw [Ty.isStruct, beq_iff_eq] at h
  rw [Ty.isClass, h]
  rfl

theorem Counted.decl (h : Counted st σ) (hdepth : 1 < st.scopes.length) {t : TypeSpec} {x : Ident}
    {value : PExpr} (hp : IsCounted ts st (.decl t x (some value))) {ls : List Line}
    (hcompile : (PStmt.decl t x (some value)).compile ts st = .lines ls) :
    LinesEnd platform callee StopsForMemory ls σ
      (Counted ((PStmt.decl t x (some value)).after ts st)) := by
  obtain ⟨⟨hstruct, hpointer, hx, hnew, hbare⟩, hfrom⟩ := hp
  have hclass := isClass_of_isStruct hstruct
  cases hcompile
  cases value with
  | new t' =>
    refine linesEnd_declare (.inl rfl) ?_
    refine (valueEnds_alloc (σ := σ.declare x.text) h.holds (typeOf ts t')).mono fun σ' v hend ↦ ?_
    exact linesEnd_nil (.inl rfl) (h.declare hdepth hnew hx hclass hpointer hend.1 hend.2)
  | name y =>
    have hcast : (PExpr.name y).compile ts st (typeOf ts t) = .var y.text :=
      castName_of_struct hclass
    obtain ⟨v, hvalue, hretain⟩ := h.retain platform callee hbare
    rw [hcast]
    refine .append ((LinesEnd.of_performs hretain fun _ ↦ .inl rfl).mono fun σ' hheld ↦ ?_)
    have hdeclared : HasValue (σ'.declare x.text).env y.text v := by
      rw [CState.declare, hheld.1]
      exact hvalue.addVar hfrom
    refine linesEnd_declare (.inl rfl) (valueEnds_var hdeclared ?_)
    refine linesEnd_nil (.inl rfl) (h.declare hdepth hnew hx hclass hpointer ?_ hheld.2)
    rw [CState.declare, hheld.1]
  | _ => cases hbare

theorem Counted.assigned (h : Counted st σ) {x : Ident} {value : PExpr}
    (hp : IsCounted ts st (.assign x value)) {ls : List Line}
    (hcompile : (PStmt.assign x value).compile ts st = .lines ls) :
    LinesEnd platform callee StopsForMemory ls σ (Counted st) := by
  obtain ⟨⟨hsome, hbare⟩, -⟩ := hp
  obtain ⟨var, hvar⟩ := Option.isSome_iff_exists.mp hsome
  obtain ⟨old, hold, holdValue, hcounted⟩ := h.found hvar
  obtain ⟨-, -, -, -, hclass, -, -⟩ := h.tracks.agrees.found hvar
  cases hcompile
  rw [hcounted, hvar]
  -- The old value is released after the new one is held.
  have hrelease {σ' : CState} {held : List Nat} (henv : σ'.env = σ.env)
      (hholds : Holds σ'.world.heap held) (hmem : old ∈ held) :
      LinesEnd platform callee StopsForMemory [.dec x.text] σ' fun σ'' ↦
        σ''.env = σ.env ∧ Holds σ''.world.heap (held.erase old) := by
    refine (LinesEnd.of_performs (performs_dec hholds hmem (henv ▸ holdValue)) fun _ ↦ .inl rfl).mono ?_
    exact fun σ'' hend ↦ ⟨hend.1.trans henv, hend.2⟩
  cases value with
  | new t =>
    refine .append ((hrelease rfl h.holds (mem_heldBy hold)).mono fun σ' hend ↦ ?_)
    refine linesEnd_assign (.inl rfl) ?_
    refine (valueEnds_alloc hend.2 (typeOf ts t)).mono fun σ'' v hnew ↦ ?_
    refine linesEnd_nil (.inl rfl) (h.assign hvar hold (hnew.1.trans hend.1) hnew.2 ?_)
    exact (List.Perm.swap v old _).trans ((List.perm_cons_erase (mem_heldBy hold)).symm.cons v)
  | name y =>
    have hcast : (PExpr.name y).compile ts st (some var.type) = .var y.text :=
      castName_of_struct hclass
    obtain ⟨v, hvalue, hretain⟩ := h.retain platform callee hbare
    rw [Option.map_some, hcast]
    have hmem : old ∈ v :: heldBy σ.env := List.mem_cons_of_mem _ (mem_heldBy hold)
    refine .append (.append ((LinesEnd.of_performs hretain fun _ ↦ .inl rfl).mono fun σ' hheld ↦ ?_))
    refine (hrelease hheld.1 hheld.2 hmem).mono fun σ'' hend ↦ ?_
    refine linesEnd_assign (.inl rfl) (valueEnds_var (hend.1 ▸ hvalue) ?_)
    refine linesEnd_nil (.inl rfl) (h.assign hvar hold hend.1 hend.2 ?_)
    exact (List.perm_cons_erase hmem).symm
  | _ => cases hbare

/-- The counts stay exact along every execution. -/
theorem runRules_counted (platform : Platform) (callee : Callee) (ts : TypeSystem) :
    RunRules platform callee ts (IsCounted ts) Counted (fun _ _ ↦ False) StopsForMemory where
  cut _ := .inl rfl
  lines {st p ls σ} hdepth hp hcompile h := by
    cases p with
    | decl t x value =>
      cases value with
      | none => exact hp.1.elim
      | some value => exact h.decl hdepth hp hcompile
    | assign x value => exact h.assigned hp hcompile
    | _ => exact hp.1.elim
  ret hp _ := hp.1.elim
  enter := Counted.enter
  leave hdepth h := .of_performs (h.leave hdepth) fun _ ↦ .inl rfl

end Counted

/-! ### Functions -/

variable {s : VState} {f : PFunction}

theorem lookupSymbol_table_eq_none (ts : TypeSystem) {st : SymbolTable} (hscopes : st.scopes = [∅])
    (hparams : f.params = []) (name : Str) : (f.table ts st).lookupSymbol name = none := by
  rw [lookupSymbol_table, hscopes, PFunction.signature, hparams]
  simp [SymbolTable.findInScopes]

/-- Without symbols there are no variables. -/
theorem Counted.heldBy_eq_nil {st : SymbolTable} {σ : CState} (h : Counted st σ)
    (hnone : ∀ name, st.lookupSymbol name = none) : heldBy σ.env = [] := by
  have hflatten : σ.env.flatten = [] := by
    rw [List.eq_nil_iff_forall_not_mem]
    intro p hp
    have hlookup := h.tracks.agrees.missing (hnone p.1)
    rw [lookupVar, List.lookup_eq_none_iff] at hlookup
    simpa using hlookup p hp
  rw [heldBy, hflatten]
  rfl

/-- At the beginning of a function without parameters nothing is held. -/
theorem counted_enter (ts : TypeSystem) {st : SymbolTable} (hscopes : st.scopes = [∅])
    (hparams : f.params = []) (memory : Nat → Selector → Nat) :
    Counted (f.table ts st) ((f.compile ts st).enter [] (World.start memory)) := by
  have henv : ((f.compile ts st).enter [] (World.start memory)).env = [[]] := by
    rw [CFunction.enter, PFunction.compile, hparams]
    rfl
  refine ⟨?_, ?_, ?_⟩
  · rw [henv]
    refine .function hscopes ⟨fun hvar ↦ ?_, fun _ ↦ rfl⟩
    rw [lookupSymbol_table_eq_none ts hscopes hparams] at hvar
    cases hvar
  · rw [henv, List.forall_mem_singleton]
    exact List.nodup_nil
  · rw [henv]
    exact Holds.start

/-- The counts are exact at every statement of an execution of the function, and nothing is left
when it ends. -/
theorem counts_exact (hs : Ready s) (hscopes : s.symbolTable.scopes = [∅]) (f : PFunction)
    (hparams : f.params = []) (htrans : f.Translates s.typeSystem s.symbolTable)
    (hbare : bodyEverywhere s.typeSystem (PStmt.IsBare s.typeSystem)
      (f.table s.typeSystem s.symbolTable).enterScope f.body)
    (hfrom : bodyEverywhere s.typeSystem (fun _ ↦ PStmt.IsFromAnother)
      (f.table s.typeSystem s.symbolTable).enterScope f.body) :
    (visitStmt ⟨true⟩ f.toStmt).run s = .ok ((), withTable
        (wrote s (f.text s.typeSystem s.symbolTable)) (outside s.symbolTable)) ∧
      ∀ platform callee memory trace e,
        Runs platform callee [.block (f.compile s.typeSystem s.symbolTable).body]
          ((f.compile s.typeSystem s.symbolTable).enter [] (World.start memory)) trace e →
        (∀ σ ∈ trace, σ.Exact) ∧
        (∀ σ result, e = .done σ result →
          σ.world.heap.live = [] ∧ σ.world.heap.stats.currentBytes = 0) ∧
        ∀ σ fault, e = .stopped σ (some fault) → ∃ bytes log, σ.world.log = .alloc bytes none :: log := by
  refine ⟨run_visitFunction hs htrans, fun platform callee memory trace e hrun ↦ ?_⟩
  have hstart := counted_enter s.typeSystem hscopes hparams memory
  have hscopes' : (f.table s.typeSystem s.symbolTable).scopes ≠ [] := by
    rw [PFunction.table, hscopes]
    exact List.cons_ne_nil _ _
  obtain ⟨htrace, hend⟩ := (runRules_counted platform callee s.typeSystem).block hrun hscopes'
    (bodyEverywhere_and hbare hfrom) hstart
  refine ⟨fun σ hσ ↦ ?_, ?_, ?_⟩
  · obtain ⟨st, hcounted⟩ := htrace σ hσ
    exact hcounted.exact
  · rintro σ result rfl
    cases result with
    | some v => exact hend.elim
    | none =>
      have hended : Counted (f.table s.typeSystem s.symbolTable) σ := hend
      have hholds := hended.holds
      rw [hended.heldBy_eq_nil (lookupSymbol_table_eq_none s.typeSystem hscopes hparams)] at hholds
      exact hholds.of_nil
  · rintro σ fault rfl
    exact hend.resolve_left nofun

private def varX : Ident := ⟨"x".toList, isIdentifier_x⟩

private def varY : Ident := ⟨"y".toList, isIdentifier_y⟩

/-- `void main() { T* x = new T; { T* y = x; x = NIL; } }` -/
private def sharing : PFunction where
  result := .void
  name := mainIdent
  params := []
  body := [.decl pointerT varX (some (.new (.named none structT))),
    .block [.decl pointerT varY (some (.name varX)), .assign varX (.name ⟨nilName, isIdentifier_nilName⟩)]]

private theorem sharing_translates : sharing.Translates behindT.typeSystem behindT.symbolTable := by
  refine ⟨⟨_, rfl⟩, nofun, ⟨by decide, ⟨_, rfl⟩, ?_⟩, ⟨⟨by decide, ⟨_, rfl⟩, ?_⟩, ?_, trivial⟩, trivial⟩
  · rintro _ ⟨⟩
    exact ⟨_, rfl⟩
  · rintro _ ⟨⟩ var type hvar ⟨⟩
    cases hvar
    exact ⟨_, rfl⟩
  · intro var type hvar
    cases hvar

private theorem sharing_bare : bodyEverywhere behindT.typeSystem (PStmt.IsBare behindT.typeSystem)
    (sharing.table behindT.typeSystem behindT.symbolTable).enterScope sharing.body := by
  refine ⟨⟨?_, ?_, ?_, ?_, trivial⟩, ⟨⟨?_, ?_, ?_, ?_, .inr ?_⟩, ⟨?_, .inl rfl⟩, trivial⟩, trivial⟩
  all_goals decide +kernel

/-- The block is held by `x`, by both variables, and by `y` alone. -/
theorem counts_exact_sharing :
    (visitStmt ⟨true⟩ sharing.toStmt).run behindT = .ok ((), withTable
        (wrote behindT (sharing.text behindT.typeSystem behindT.symbolTable))
        (outside behindT.symbolTable)) ∧
      ∀ platform callee memory trace e,
        Runs platform callee [.block (sharing.compile behindT.typeSystem behindT.symbolTable).body]
          ((sharing.compile behindT.typeSystem behindT.symbolTable).enter [] (World.start memory))
          trace e →
        (∀ σ ∈ trace, σ.Exact) ∧ ∀ σ result, e = .done σ result → σ.world.heap.live = [] := by
  obtain ⟨htext, hruns⟩ := counts_exact ready_behindT rfl sharing rfl sharing_translates
    sharing_bare ⟨trivial, ⟨(by decide : varX.text ≠ varY.text), trivial, trivial⟩, trivial⟩
  refine ⟨htext, fun platform callee memory trace e hrun ↦ ?_⟩
  obtain ⟨htrace, hdone, -⟩ := hruns platform callee memory trace e hrun
  exact ⟨htrace, fun σ result he ↦ (hdone σ result he).1⟩

/-- `void main() { T* x = new T; { T* x = x; } }` -/
private def shadowing : PFunction where
  result := .void
  name := mainIdent
  params := []
  body := [.decl pointerT varX (some (.new (.named none structT))),
    .block [.decl pointerT varX (some (.name varX))]]

private theorem shadowing_body : (shadowing.compile behindT.typeSystem behindT.symbolTable).body =
    [.lines [.declare (typeOf behindT.typeSystem pointerT) varX.text
        (some (.alloc (typeOf behindT.typeSystem (.named none structT))))],
      .block [.lines [.inc varX.text,
          .declare (typeOf behindT.typeSystem pointerT) varX.text (some (.var varX.text))],
        .lines [.dec varX.text]],
      .lines [.dec varX.text]] := rfl

private theorem shadowing_translates :
    shadowing.Translates behindT.typeSystem behindT.symbolTable := by
  refine ⟨⟨_, rfl⟩, nofun, ⟨by decide, ⟨_, rfl⟩, ?_⟩, ⟨⟨by decide, ⟨_, rfl⟩, ?_⟩, trivial⟩, trivial⟩
  · rintro _ ⟨⟩
    exact ⟨_, rfl⟩
  · rintro _ ⟨⟩ var type hvar ⟨⟩
    cases hvar
    exact ⟨_, rfl⟩

/-- The inner `x` is in scope in its own initialiser: the block of the outer one is counted, and the
inner one gets any value. -/
theorem hidden_initializer_miscounts :
    ((visitStmt ⟨true⟩ shadowing.toStmt).run behindT).toOption.map (fun r ↦ r.2.output) =
        some (("void main_()\x7b\n" : Str) ++
          "        struct T* x = runtime_alloc(sizeof(struct T));\n" ++
          "\x7b\n" ++
          "            runtime_inc_ref_count(x, NULL);\n" ++
          "            struct T* x = x;\n" ++
          "            runtime_dec_ref_count(x, 0);\n" ++
          "            \x7d\n" ++
          "        runtime_dec_ref_count(x, 0);\n" ++
          "        \x7d\n") ∧
      ∀ platform callee memory, ∃ trace e σ,
        Runs platform callee [.block (shadowing.compile behindT.typeSystem behindT.symbolTable).body]
          ((shadowing.compile behindT.typeSystem behindT.symbolTable).enter [] (World.start memory))
          trace e ∧
        σ ∈ trace ∧ 100 ∈ σ.world.heap.live ∧ σ.world.heap.countOf 100 = 2 ∧ σ.holders 100 = 1 := by
  refine ⟨?_, fun platform callee memory ↦ ?_⟩
  · rw [run_visitFunction ready_behindT shadowing_translates]
    decide +kernel
  rw [shadowing_body]
  let bytes := platform.sizeof (typeOf behindT.typeSystem (.named none structT))
  let heap := (rcInit .boot).addBlock 100 (addSize bytes rcHeaderSize)
  let outer : Frame := [(varX.text, some (rcPayload 100))]
  let held : CState := ⟨[outer, []], ⟨heap, [.alloc bytes (some 100)], memory⟩⟩
  let counted : CState := held.openScope.called (.inc (rcPayload 100) 0) (heap.setCount 100 2)
  have halloc : LinesStep platform callee [.declare (typeOf behindT.typeSystem pointerT) varX.text
      (some (.alloc (typeOf behindT.typeSystem (.named none structT))))]
      ⟨[[], []], World.start memory⟩ (.done held ()) := by
    refine linesStep_last ⟨.done ⟨[[(varX.text, none)], []], held.world⟩ (rcPayload 100),
      .alloc ?_ rfl, rfl⟩
    rintro a ⟨⟩
    exact ⟨List.not_mem_nil, by decide⟩
  have hinner : LinesStep platform callee [.inc varX.text,
      .declare (typeOf behindT.typeSystem pointerT) varX.text (some (.var varX.text))]
      held.openScope (.done ((counted.declare varX.text).set varX.text 0) ()) := by
    refine .inr (.inl ⟨counted, ⟨rcPayload 100, .value (by decide) rfl, ?_⟩, ?_⟩)
    · have hrun : incRefCount heap (rcPayload 100) 0 = .ok (heap.setCount 100 2) :=
        incRefCount_live List.mem_cons_self (by decide)
      exact congrArg (held.openScope.calling _) hrun.symm
    · exact linesStep_last ⟨_, .var (v := 0) (.indeterminate (by decide) nofun), rfl⟩
  refine ⟨_, _, (counted.declare varX.text).set varX.text 0, .blockStopped (.lines halloc
    (.blockStopped (.lines hinner (.linesStopped (.inl rfl))))), ?_, ?_, ?_, ?_⟩
  · simp
  · exact List.mem_cons_self
  · rfl
  · rfl

end JBLang.Emitted
