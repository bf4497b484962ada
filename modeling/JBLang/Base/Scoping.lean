import Mathlib.Data.List.Basic

/-!
# Declarations that a translation adds

A text as the sequence of what happens to the names in scope. A translation that adds declarations
of its own leaves the program as it was where no added declaration meets one of the program in a
scope, and each name of the program still refers to the declaration that it refers to without the
added ones.
-/

namespace JBLang.Base

/-- What happens to the names in scope. -/
inductive ScopeEvent (ν : Type) where
  | enter
  | leave
  /-- A declaration of the program. -/
  | declare (x : ν)
  /-- A declaration that the translation adds. -/
  | introduce (x : ν)
  | use (x : ν)
deriving DecidableEq

/-- A declaration in scope. -/
structure ScopeDecl (ν : Type) where
  name : ν
  added : Bool
  /-- How many declarations stand before it. -/
  number : Nat
deriving DecidableEq

/-- The declarations of the open scopes, the latest and innermost first. -/
structure Scoping (ν : Type) where
  scopes : List (List (ScopeDecl ν)) := [[]]
  declared : Nat := 0

namespace Scoping

variable {ν : Type}

/-- The declarations of the innermost scope. -/
def inner (σ : Scoping ν) : List (ScopeDecl ν) := σ.scopes.headD []

/-- A declaration in the innermost scope. -/
def add (σ : Scoping ν) (x : ν) (added : Bool) : Scoping ν where
  scopes := (⟨x, added, σ.declared⟩ :: σ.inner) :: σ.scopes.tail
  declared := σ.declared + 1

/-- The declarations after an event. -/
def step (σ : Scoping ν) : ScopeEvent ν → Scoping ν
  | .enter => { σ with scopes := [] :: σ.scopes }
  | .leave => { σ with scopes := σ.scopes.tail }
  | .declare x => σ.add x false
  | .introduce x => σ.add x true
  | .use _ => σ

/-- The declarations after some events. -/
def run (σ : Scoping ν) (evs : List (ScopeEvent ν)) : Scoping ν := evs.foldl step σ

section Names

variable [DecidableEq ν]

/-- The declaration that a name refers to. -/
def refersTo (σ : Scoping ν) (x : ν) : Option (ScopeDecl ν) :=
  σ.scopes.flatten.find? fun d ↦ d.name = x

/-- The declaration that a name refers to without the added ones. -/
def sourceRefersTo (σ : Scoping ν) (x : ν) : Option (ScopeDecl ν) :=
  σ.scopes.flatten.find? fun d ↦ !d.added && d.name = x

/-- The event respects the declarations of the program: an added declaration and one of the
program do not meet in a scope, and a name that refers to a declaration of the program still
does. -/
def Respects (σ : Scoping ν) : ScopeEvent ν → Prop
  | .enter | .leave => True
  | .declare x => ∀ d ∈ σ.inner, d.name = x → d.added = false
  | .introduce x => ∀ d ∈ σ.inner, d.name = x → d.added = true
  | .use x => ∀ d, σ.sourceRefersTo x = some d → σ.refersTo x = some d

instance (σ : Scoping ν) (ev : ScopeEvent ν) : Decidable (σ.Respects ev) :=
  match ev with
  | .enter | .leave => isTrue trivial
  | .declare x => inferInstanceAs (Decidable (∀ d ∈ σ.inner, d.name = x → d.added = false))
  | .introduce x => inferInstanceAs (Decidable (∀ d ∈ σ.inner, d.name = x → d.added = true))
  | .use x =>
    match h : σ.sourceRefersTo x with
    | none => isTrue fun d hd ↦ by cases h.symm.trans hd
    | some d => decidable_of_iff (σ.refersTo x = some d)
      ⟨fun hd d' hd' ↦ by rw [hd, ← hd', h], fun hall ↦ hall d h⟩

/-- All events respect the declarations of the program. -/
def Hygienic (σ : Scoping ν) : List (ScopeEvent ν) → Prop
  | [] => True
  | ev :: evs => σ.Respects ev ∧ (σ.step ev).Hygienic evs

instance decidableHygienic : ∀ (σ : Scoping ν) (evs : List (ScopeEvent ν)),
    Decidable (σ.Hygienic evs)
  | _, [] => isTrue trivial
  | σ, ev :: evs =>
    have := decidableHygienic (σ.step ev) evs
    inferInstanceAs (Decidable (σ.Respects ev ∧ (σ.step ev).Hygienic evs))

end Names

variable {σ : Scoping ν} {evs : List (ScopeEvent ν)} {x : ν}

/-- The added declarations are those whose names have a property. -/
def Separates (isAdded : ν → Prop) (σ : Scoping ν) : Prop :=
  ∀ scope ∈ σ.scopes, ∀ d ∈ scope, d.added = true ↔ isAdded d.name

variable {isAdded : ν → Prop}

theorem Separates.inner (h : σ.Separates isAdded) {d : ScopeDecl ν} (hd : d ∈ σ.inner) :
    d.added = true ↔ isAdded d.name := by
  unfold Scoping.inner at hd
  cases hscopes : σ.scopes with
  | nil =>
    rw [hscopes] at hd
    cases hd
  | cons scope scopes =>
    rw [hscopes] at hd
    exact h scope (by rw [hscopes]; exact List.mem_cons_self) d hd

theorem Separates.add (h : σ.Separates isAdded) {added : Bool} (hx : added = true ↔ isAdded x) :
    (σ.add x added).Separates isAdded := by
  intro scope hscope d hd
  rcases List.mem_cons.mp hscope with rfl | hscope
  · rcases List.mem_cons.mp hd with rfl | hd
    · exact hx
    · exact h.inner hd
  · exact h scope (List.mem_of_mem_tail hscope) d hd

theorem Separates.step (h : σ.Separates isAdded) {ev : ScopeEvent ν}
    (hdeclare : ∀ x, ev = .declare x → ¬ isAdded x) (hintroduce : ∀ x, ev = .introduce x → isAdded x) :
    (σ.step ev).Separates isAdded := by
  cases ev with
  | enter =>
    intro scope hscope
    rcases List.mem_cons.mp hscope with rfl | hscope
    · exact nofun
    · exact h scope hscope
  | leave => exact fun scope hscope ↦ h scope (List.mem_of_mem_tail hscope)
  | declare x => exact h.add (iff_of_false Bool.false_ne_true (hdeclare x rfl))
  | introduce x => exact h.add (iff_of_true rfl (hintroduce x rfl))
  | use x => exact h

end Scoping

end JBLang.Base
