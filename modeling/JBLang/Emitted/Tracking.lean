import JBLang.Emitted.Executions
import JBLang.Emitted.Functions

/-!
# Variables and symbols

During an execution of translated code the variables of each open block are the symbols of one
scope of the table that the code was translated with. The parameters of the function belong to the
outermost scope.
-/

namespace JBLang.Emitted

open JBLang.Base JBLang.Types JBLang.Codegen JBLang.Ast

/-- The symbols under their names are the variables, and values go with types in some way. -/
structure Agrees (P : Ty → Option Nat → Prop) (symbol : Str → Option Variable)
    (value : Str → Option (Option Nat)) : Prop where
  found : ∀ {y var}, symbol y = some var →
    ∃ v, value y = some v ∧ var.name = y ∧ y ≠ nilName ∧ P var.type v
  missing : ∀ {y}, symbol y = none → value y = none

/-- The variables of the frames are the symbols of the scopes. -/
inductive Tracks (P : Ty → Option Nat → Prop) : SymbolTable → List Frame → Prop
  | function {st : SymbolTable} {scope : NameMap Variable} {frame : Frame} (hst : st.scopes = [scope])
    (h : Agrees P st.lookupSymbol (frame.lookup ·)) : Tracks P st [frame]
  | block {st : SymbolTable} {scope : NameMap Variable} {scopes : List (NameMap Variable)}
    {frame : Frame} {env : List Frame} (hst : st.scopes = scope :: scopes)
    (h : Agrees P (scope[·]?) (frame.lookup ·)) (hrest : Tracks P st.exitScope env) :
    Tracks P st (frame :: env)

variable {P Q : Ty → Option Nat → Prop} {symbol symbol' : Str → Option Variable}
  {value value' : Str → Option (Option Nat)} {x y : Str} {type : Ty} {v : Option Nat}

namespace Agrees

theorem mono (h : Agrees P symbol value) (hPQ : ∀ type v, P type v → Q type v) :
    Agrees Q symbol value := by
  refine ⟨fun hvar ↦ ?_, h.missing⟩
  obtain ⟨v, hv, hname, hnil, hP⟩ := h.found hvar
  exact ⟨v, hv, hname, hnil, hPQ _ _ hP⟩

/-- Another symbol and variable in front. -/
theorem update (h : Agrees P symbol value)
    (hsymbol : ∀ y, symbol' y = if y = x then some { name := x, type } else symbol y)
    (hvalue : ∀ y, value' y = if y = x then some v else value y) (hx : x ≠ nilName)
    (hP : P type v) : Agrees P symbol' value' := by
  constructor
  · intro y var hvar
    rw [hsymbol] at hvar
    rw [hvalue]
    split_ifs at hvar ⊢ with hy
    · cases hvar
      exact ⟨v, rfl, hy.symm, hy ▸ hx, hP⟩
    · exact h.found hvar
  · intro y hnone
    rw [hsymbol] at hnone
    rw [hvalue]
    split_ifs at hnone ⊢ with hy
    exact h.missing hnone

/-- A variable gets another value. -/
theorem set (h : Agrees P symbol value) {var : Variable} (hsymbol : symbol x = some var)
    (hvalue : ∀ y, value' y = if y = x then some v else value y) (hP : P var.type v) :
    Agrees P symbol value' := by
  constructor
  · intro y var' hvar
    obtain ⟨w, hw, hname, hnil, hPw⟩ := h.found hvar
    rw [hvalue]
    split_ifs with hy
    · rw [hy, hsymbol] at hvar
      cases hvar
      exact ⟨v, rfl, hname, hnil, hP⟩
    · exact ⟨w, hw, hname, hnil, hPw⟩
  · intro y hnone
    have hy : y ≠ x := by
      rintro rfl
      simp [hsymbol] at hnone
    rw [hvalue, if_neg hy]
    exact h.missing hnone

/-- What an inner scope does not have is looked up outside of it. -/
theorem or {outer : Str → Option Variable} {around : Str → Option (Option Nat)}
    (h : Agrees P symbol value) (houter : Agrees P outer around) :
    Agrees P (fun y ↦ (symbol y).or (outer y)) fun y ↦ (value y).or (around y) := by
  constructor
  · intro y var hvar
    rcases Option.or_eq_some_iff.mp hvar with hvar | ⟨hnone, hvar⟩
    · obtain ⟨v, hv, hrest⟩ := h.found hvar
      exact ⟨v, by rw [hv, Option.some_or], hrest⟩
    · obtain ⟨v, hv, hrest⟩ := houter.found hvar
      exact ⟨v, by rw [h.missing hnone, Option.none_or, hv], hrest⟩
  · intro y hnone
    obtain ⟨hinner, houter'⟩ := Option.or_eq_none_iff.mp hnone
    rw [h.missing hinner, houter.missing houter', Option.none_or]

theorem symbol_eq_none (h : Agrees P symbol value) (hnone : value y = none) : symbol y = none := by
  cases hsymbol : symbol y with
  | none => rfl
  | some var =>
    obtain ⟨v, hv, -⟩ := h.found hsymbol
    rw [hnone] at hv
    cases hv

end Agrees

variable {scopes : List (NameMap Variable)} {scope : NameMap Variable}

theorem lookupSymbol_of_cons {st : SymbolTable} (hst : st.scopes = scope :: scopes) (name : Str) :
    st.lookupSymbol name = (scope[name]?).or (st.exitScope.lookupSymbol name) := by
  unfold SymbolTable.lookupSymbol SymbolTable.exitScope
  rw [hst, SymbolTable.findInScopes]
  cases scope[name]? <;> rfl

theorem scopes_declareSymbol {st : SymbolTable}
    (hst : st.scopes = scope :: scopes) (x : Str) (type : Ty) :
    (declareSymbol st x type).scopes = scope.insert x { name := x, type } :: scopes := by
  unfold declareSymbol
  rw [hst]

/-- The variable of a declaration with its value. -/
theorem setVar_addVar (x : Str) (v : Nat) (frame : Frame) (env : List Frame) :
    setVar x v (addVar x (frame :: env)) = ((x, some v) :: frame) :: env := by
  simp [addVar, setVar, Frame.set]

theorem lookup_cons_eq_ite (x : Str) (v : Option Nat) (frame : Frame) (y : Str) :
    List.lookup y ((x, v) :: frame) = if y = x then some v else frame.lookup y := by
  rw [List.lookup_cons]
  by_cases hy : y = x
  · simp [hy]
  · simp [hy, beq_false_of_ne hy]

theorem lookup_set_eq_ite {frame : Frame} (h : x ∈ frame.map Prod.fst) (v : Nat) (y : Str) :
    (frame.set x v).lookup y = if y = x then some (some v) else frame.lookup y := by
  by_cases hy : y = x
  · rw [if_pos hy, hy, lookup_set_self h]
  · rw [if_neg hy, lookup_set_of_ne hy]

theorem mem_of_lookup_ne_none {frame : Frame} (h : frame.lookup x ≠ none) :
    x ∈ frame.map Prod.fst := by
  by_contra hnot
  exact h (lookup_eq_none_of_not_mem hnot)

theorem forall₂_filterMap {α β : Type} {R : α → β → Prop} {g : α → Option β} {l : List α}
    (h : ∀ a ∈ l, ∃ b, g a = some b ∧ R a b) : List.Forall₂ R l (l.filterMap g) := by
  induction l with
  | nil => exact .nil
  | cons a l ih =>
    rw [List.forall_mem_cons] at h
    obtain ⟨⟨b, hb, hR⟩, hrest⟩ := h
    rw [List.filterMap_cons_some hb]
    exact .cons hR (ih hrest)

namespace Tracks

variable {st : SymbolTable} {env : List Frame} {frame : Frame}

theorem mono (h : Tracks P st env) (hPQ : ∀ type v, P type v → Q type v) : Tracks Q st env := by
  induction h with
  | function hst h => exact .function hst (h.mono hPQ)
  | block hst h _ ih => exact .block hst (h.mono hPQ) ih

/-- What is looked up in the table and in the state agrees. -/
theorem agrees (h : Tracks P st env) : Agrees P st.lookupSymbol (lookupVar env) := by
  induction h with
  | @function st scope frame hst h =>
    have hlookup : lookupVar [frame] = (frame.lookup ·) := by
      funext y
      rw [lookupVar, List.flatten_singleton]
    rw [hlookup]
    exact h
  | @block st scope scopes frame env hst h _ ih =>
    have hsymbols := funext (lookupSymbol_of_cons hst)
    have hvalues := funext (lookupVar_cons frame env)
    rw [hsymbols, hvalues]
    exact h.or ih

theorem enter (h : Tracks P st env) : Tracks P st.enterScope ([] :: env) := by
  refine .block rfl ⟨fun hvar ↦ ?_, fun _ ↦ rfl⟩ h
  simp at hvar

theorem leave (h : Tracks P st env) (hdepth : 1 < st.scopes.length) :
    Tracks P st.exitScope env.tail := by
  cases h with
  | function hst h => simp [hst] at hdepth
  | block hst h hrest => exact hrest

/-- A variable is declared in the innermost frame. -/
theorem push (h : Tracks P st (frame :: env)) (hx : x ≠ nilName) (hP : P type v) :
    Tracks P (declareSymbol st x type) (((x, v) :: frame) :: env) := by
  cases h with
  | @function _ scope _ hst h =>
    refine .function (scopes_declareSymbol hst x type) ?_
    refine h.update (lookupSymbol_declareSymbol (by simp [hst]) x type) (fun y ↦ ?_) hx hP
    exact lookup_cons_eq_ite x _ frame y
  | @block _ scope scopes _ _ hst h hrest =>
    have hexit : (declareSymbol st x type).exitScope = st.exitScope := by
      unfold declareSymbol SymbolTable.exitScope
      rw [hst]
      rfl
    refine .block (scopes_declareSymbol hst x type) ?_ (hexit ▸ hrest)
    refine h.update (fun y ↦ ?_) (fun y ↦ lookup_cons_eq_ite x _ frame y) hx hP
    exact NameMap.lookup_insert scope x _ y

theorem scopes_ne_nil (h : Tracks P st env) : st.scopes ≠ [] := by
  cases h with
  | function hst _ => simp [hst]
  | block hst _ _ => simp [hst]

theorem env_eq_cons (h : Tracks P st env) : ∃ frame rest, env = frame :: rest := by
  cases h with
  | function hst h => exact ⟨_, _, rfl⟩
  | block hst h hrest => exact ⟨_, _, rfl⟩

/-- A variable is declared with a value. -/
theorem declare (h : Tracks P st env) (hx : x ≠ nilName) {v : Nat} (hP : P type (some v)) :
    Tracks P (declareSymbol st x type) (setVar x v (addVar x env)) := by
  obtain ⟨frame, rest, rfl⟩ := h.env_eq_cons
  rw [setVar_addVar]
  exact h.push hx hP

/-- A variable is declared without a value. -/
theorem add (h : Tracks P st env) (hx : x ≠ nilName) (hP : P type none) :
    Tracks P (declareSymbol st x type) (addVar x env) := by
  obtain ⟨frame, rest, rfl⟩ := h.env_eq_cons
  exact h.push hx hP

theorem set (h : Tracks P st env) {var : Variable} (hvar : st.lookupSymbol x = some var) {v : Nat}
    (hP : P var.type (some v)) : Tracks P st (setVar x v env) := by
  induction h generalizing var with
  | @function st scope frame hst h =>
    obtain ⟨w, hw, -⟩ := h.found hvar
    have hmem : x ∈ frame.map Prod.fst := mem_of_lookup_ne_none (by simp [hw])
    rw [setVar, if_pos hmem]
    exact .function hst (h.set hvar (lookup_set_eq_ite hmem v) hP)
  | @block st scope scopes frame env hst h hrest ih =>
    rw [lookupSymbol_of_cons hst] at hvar
    rw [setVar]
    split
    · next hmem =>
      have hsome : scope[x]? = some var := by
        cases hget : scope[x]? with
        | some var' => rw [hget, Option.some_or] at hvar; exact hvar
        | none =>
          have hnone := h.missing hget
          rw [List.lookup_eq_none_iff] at hnone
          obtain ⟨p, hp, rfl⟩ := List.mem_map.mp hmem
          simpa using hnone p hp
      exact .block hst (h.set hsome (lookup_set_eq_ite hmem v) hP) hrest
    · next hmem =>
      rw [h.symbol_eq_none (lookup_eq_none_of_not_mem hmem), Option.none_or] at hvar
      exact .block hst h (ih hvar hP)

end Tracks

end JBLang.Emitted
