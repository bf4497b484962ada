import Mathlib.Init

/-!
# Two runs side by side

Relational postconditions for `StateT σ (Except ε)`: two computations that start in related states
either both return, with related results and states, or both fail, with related errors. The rules
follow the computations step by step.
-/

namespace JBLang.Base

variable {σ ε α β γ δ : Type}

/-- Related outcomes of two runs. -/
inductive OutcomesRelated (E : ε → ε → Prop) (R : α → β → Prop) (T : σ → σ → Prop) :
    Except ε (α × σ) → Except ε (β × σ) → Prop
  | ok {a : α} {b : β} {s s' : σ} (hr : R a b) (ht : T s s') :
    OutcomesRelated E R T (.ok (a, s)) (.ok (b, s'))
  | error {e e' : ε} (he : E e e') : OutcomesRelated E R T (.error e) (.error e')

/-- From states related by `S` the computations have related outcomes. -/
structure Related (E : ε → ε → Prop) (S : σ → σ → Prop) (m : StateT σ (Except ε) α)
    (m' : StateT σ (Except ε) β) (R : α → β → Prop) (T : σ → σ → Prop) : Prop where
  outcomes : ∀ s s', S s s' → OutcomesRelated E R T (m.run s) (m'.run s')

namespace Related

variable {E : ε → ε → Prop} {S T U : σ → σ → Prop} {R : α → β → Prop} {Q : γ → δ → Prop}
  {m : StateT σ (Except ε) α} {m' : StateT σ (Except ε) β}

theorem pure {a : α} {b : β} (h : R a b) :
    Related E S (pure a : StateT σ (Except ε) α) (pure b) R S :=
  ⟨fun _ _ hs ↦ .ok h hs⟩

theorem throw {e e' : ε} (h : E e e') :
    Related E S (throw e : StateT σ (Except ε) α) (throw e' : StateT σ (Except ε) β) R T :=
  ⟨fun _ _ _ ↦ .error h⟩

theorem get : Related E S (get : StateT σ (Except ε) σ) get S S := ⟨fun _ _ hs ↦ .ok hs hs⟩

theorem set {s s' : σ} (h : T s s') :
    Related E S (set s : StateT σ (Except ε) PUnit) (set s') (fun _ _ ↦ True) T :=
  ⟨fun _ _ _ ↦ .ok trivial h⟩

theorem modify {f f' : σ → σ} (h : ∀ s s', S s s' → T (f s) (f' s')) :
    Related E S (modify f : StateT σ (Except ε) PUnit) (modify f') (fun _ _ ↦ True) T :=
  ⟨fun s s' hs ↦ .ok trivial (h s s' hs)⟩

/-- A computation without state. -/
theorem lift (hE : ∀ e, E e e) {x : Except ε α} :
    Related E S (liftM x : StateT σ (Except ε) α) (liftM x) (fun a b ↦ a = b ∧ x = .ok a) S := by
  constructor
  intro s s' hs
  cases x with
  | error e => exact .error (hE e)
  | ok a => exact .ok ⟨rfl, rfl⟩ hs

theorem bind {f : α → StateT σ (Except ε) γ} {f' : β → StateT σ (Except ε) δ}
    (hm : Related E S m m' R T) (hf : ∀ a b, R a b → Related E T (f a) (f' b) Q U) :
    Related E S (m >>= f) (m' >>= f') Q U := by
  constructor
  intro s s' hs
  rw [StateT.run_bind, StateT.run_bind]
  have h := hm.outcomes s s' hs
  generalize m.run s = r, m'.run s' = r' at h ⊢
  cases h with
  | ok hr ht => exact (hf _ _ hr).outcomes _ _ ht
  | error he => exact .error he

theorem mono {R' : α → β → Prop} (hm : Related E S m m' R T) (hR : ∀ a b, R a b → R' a b) :
    Related E S m m' R' T := by
  constructor
  intro s s' hs
  have h := hm.outcomes s s' hs
  generalize m.run s = r, m'.run s' = r' at h ⊢
  cases h with
  | ok hr ht => exact .ok (hR _ _ hr) ht
  | error he => exact .error he

end Related

end JBLang.Base
