import Mathlib.Init

/-!
# Postconditions of computations with state and errors

Partial correctness for `StateT σ (Except ε)`: what holds of the result and the final state of a
computation that returns. The rules turn the postcondition of a computation into those of its
parts.
-/

namespace JBLang.Base

variable {σ ε α β : Type} {m : StateT σ (Except ε) α} {s : σ} {Q : α → σ → Prop}

/-- If `m` returns from `s`, then `Q` holds of its result and final state. -/
structure Post (m : StateT σ (Except ε) α) (s : σ) (Q : α → σ → Prop) : Prop where
  of_run : ∀ a s', m.run s = .ok (a, s') → Q a s'

theorem Post.mono {Q' : α → σ → Prop} (h : Post m s Q) (hQ : ∀ a s', Q a s' → Q' a s') :
    Post m s Q' :=
  ⟨fun a s' hm ↦ hQ a s' (h.of_run a s' hm)⟩

theorem Post.and {R : α → σ → Prop} (h : Post m s Q) (h' : Post m s R) :
    Post m s fun a s' ↦ Q a s' ∧ R a s' :=
  ⟨fun a s' hm ↦ ⟨h.of_run a s' hm, h'.of_run a s' hm⟩⟩

/-- The result and the final state are those of the run. -/
theorem Post.of_ok {a : α} {s' : σ} (h : m.run s = .ok (a, s')) (hQ : Q a s') : Post m s Q := by
  refine ⟨fun a' s'' h' ↦ ?_⟩
  rw [h] at h'
  cases h'
  exact hQ

theorem Post.run_eq : Post m s fun a s' ↦ m.run s = .ok (a, s') := ⟨fun _ _ hm ↦ hm⟩

/-- A sequence returns when its first part does and its second part does from there. -/
theorem run_bind_eq_ok {f : α → StateT σ (Except ε) β} {b : β} {s' : σ} :
    (m >>= f).run s = .ok (b, s') ↔
      ∃ a s₁, m.run s = .ok (a, s₁) ∧ (f a).run s₁ = .ok (b, s') := by
  rw [StateT.run_bind]
  cases m.run s with
  | error e => exact ⟨nofun, nofun⟩
  | ok r =>
    constructor
    · exact fun h ↦ ⟨r.1, r.2, rfl, h⟩
    · rintro ⟨a, s₁, ⟨⟩, h⟩
      exact h

@[simp] theorem post_pure {a : α} : Post (pure a : StateT σ (Except ε) α) s Q ↔ Q a s := by
  constructor
  · exact fun h ↦ h.of_run a s rfl
  · intro h
    constructor
    rintro _ _ ⟨⟩
    exact h

@[simp] theorem post_bind {f : α → StateT σ (Except ε) β} {Q : β → σ → Prop} :
    Post (m >>= f) s Q ↔ Post m s fun a s' ↦ Post (f a) s' Q := by
  constructor
  · exact fun h ↦ ⟨fun a s₁ hm ↦ ⟨fun b s' hf ↦
      h.of_run b s' (run_bind_eq_ok.mpr ⟨a, s₁, hm, hf⟩)⟩⟩
  · intro h
    constructor
    intro b s' hb
    obtain ⟨a, s₁, hm, hf⟩ := run_bind_eq_ok.mp hb
    exact (h.of_run a s₁ hm).of_run b s' hf

@[simp] theorem post_map {f : α → β} {Q : β → σ → Prop} :
    Post (f <$> m) s Q ↔ Post m s fun a s' ↦ Q (f a) s' := by
  rw [map_eq_pure_bind, post_bind]
  simp only [post_pure]

@[simp] theorem post_get {Q : σ → σ → Prop} :
    Post (get : StateT σ (Except ε) σ) s Q ↔ Q s s := by
  constructor
  · exact fun h ↦ h.of_run s s rfl
  · intro h
    constructor
    rintro _ _ ⟨⟩
    exact h

@[simp] theorem post_set {s₁ : σ} {Q : PUnit → σ → Prop} :
    Post (set s₁ : StateT σ (Except ε) PUnit) s Q ↔ Q ⟨⟩ s₁ := by
  constructor
  · exact fun h ↦ h.of_run _ _ rfl
  · intro h
    constructor
    rintro _ _ ⟨⟩
    exact h

@[simp] theorem post_modify {f : σ → σ} {Q : PUnit → σ → Prop} :
    Post (modify f : StateT σ (Except ε) PUnit) s Q ↔ Q ⟨⟩ (f s) := by
  constructor
  · exact fun h ↦ h.of_run _ _ rfl
  · intro h
    constructor
    rintro _ _ ⟨⟩
    exact h

@[simp] theorem post_throw {e : ε} : Post (throw e : StateT σ (Except ε) α) s Q ↔ True :=
  ⟨fun _ ↦ trivial, fun _ ↦ ⟨nofun⟩⟩

/-- A computation without state. -/
@[simp] theorem post_lift {e : Except ε α} :
    Post (liftM e : StateT σ (Except ε) α) s Q ↔ ∀ a, e = .ok a → Q a s := by
  constructor
  · rintro h a rfl
    exact h.of_run a s rfl
  · intro h
    constructor
    intro a s' hm
    cases e with
    | error e => cases hm
    | ok a =>
      cases hm
      exact h a rfl

theorem post_ite {c : Prop} [Decidable c] {n : StateT σ (Except ε) α} :
    Post (if c then m else n) s Q ↔ (c → Post m s Q) ∧ (¬ c → Post n s Q) := by
  split <;> simp [*]

/-! ### Errors -/

/-- What holds of the result and the final state if `m` returns from `s`, and of the error if it
does not. -/
def Outcome (m : StateT σ (Except ε) α) (s : σ) (Q : α → σ → Prop) (E : ε → Prop) : Prop :=
  match m.run s with
  | .ok (a, s') => Q a s'
  | .error e => E e

variable {E : ε → Prop}

theorem Outcome.of_run (h : Outcome m s Q E) {a : α} {s' : σ} (hm : m.run s = .ok (a, s')) :
    Q a s' := by
  rwa [Outcome, hm] at h

/-- Without errors there is a run. -/
theorem Outcome.exists_run (h : Outcome m s Q fun _ ↦ False) :
    ∃ a s', m.run s = .ok (a, s') ∧ Q a s' := by
  unfold Outcome at h
  cases hm : m.run s with
  | error e =>
    rw [hm] at h
    cases h
  | ok r =>
    rw [hm] at h
    exact ⟨r.1, r.2, rfl, h⟩

theorem Outcome.mono {Q' : α → σ → Prop} (h : Outcome m s Q E)
    (hQ : ∀ a s', m.run s = .ok (a, s') → Q a s' → Q' a s') : Outcome m s Q' E := by
  unfold Outcome at h ⊢
  cases hm : m.run s with
  | error e => simpa only [hm] using h
  | ok r =>
    rw [hm] at h
    exact hQ _ _ hm h

theorem Outcome.imp {Q' : α → σ → Prop} {E' : ε → Prop} (h : Outcome m s Q E)
    (hQ : ∀ a s', Q a s' → Q' a s') (hE : ∀ e, E e → E' e) : Outcome m s Q' E' := by
  unfold Outcome at h ⊢
  cases hm : m.run s with
  | error e =>
    rw [hm] at h
    exact hE e h
  | ok r =>
    rw [hm] at h
    exact hQ _ _ h

@[simp] theorem outcome_pure {a : α} :
    Outcome (pure a : StateT σ (Except ε) α) s Q E ↔ Q a s := Iff.rfl

@[simp] theorem outcome_throw {e : ε} :
    Outcome (throw e : StateT σ (Except ε) α) s Q E ↔ E e := Iff.rfl

@[simp] theorem outcome_bind {f : α → StateT σ (Except ε) β} {Q : β → σ → Prop} :
    Outcome (m >>= f) s Q E ↔ Outcome m s (fun a s' ↦ Outcome (f a) s' Q E) E := by
  unfold Outcome
  rw [StateT.run_bind]
  cases m.run s <;> rfl

@[simp] theorem outcome_get {Q : σ → σ → Prop} :
    Outcome (get : StateT σ (Except ε) σ) s Q E ↔ Q s s := Iff.rfl

@[simp] theorem outcome_set {s₁ : σ} {Q : PUnit → σ → Prop} :
    Outcome (set s₁ : StateT σ (Except ε) PUnit) s Q E ↔ Q ⟨⟩ s₁ := Iff.rfl

@[simp] theorem outcome_modify {f : σ → σ} {Q : PUnit → σ → Prop} :
    Outcome (modify f : StateT σ (Except ε) PUnit) s Q E ↔ Q ⟨⟩ (f s) := Iff.rfl

@[simp] theorem outcome_lift {x : Except ε α} :
    Outcome (liftM x : StateT σ (Except ε) α) s Q E ↔
      (∀ a, x = .ok a → Q a s) ∧ ∀ e, x = .error e → E e := by
  cases x with
  | error e => exact ⟨fun h ↦ ⟨nofun, fun _ he ↦ by cases he; exact h⟩, fun h ↦ h.2 e rfl⟩
  | ok a => exact ⟨fun h ↦ ⟨fun _ ha ↦ by cases ha; exact h, nofun⟩, fun h ↦ h.1 a rfl⟩

/-- From every state `m` keeps `R` or fails with an error in `E`. -/
def Keeps (R : σ → σ → Prop) (E : ε → Prop) (m : StateT σ (Except ε) α) : Prop :=
  ∀ s, Outcome m s (fun _ s' ↦ R s s') E

namespace Keeps

variable {R : σ → σ → Prop}

theorem pure (hR : ∀ s, R s s) (a : α) : Keeps R E (pure a : StateT σ (Except ε) α) := hR

theorem get (hR : ∀ s, R s s) : Keeps R E (get : StateT σ (Except ε) σ) := hR

theorem throw {e : ε} (he : E e) : Keeps R E (throw e : StateT σ (Except ε) α) := fun _ ↦ he

theorem lift (hR : ∀ s, R s s) {x : Except ε α} (hx : ∀ e, x = .error e → E e) :
    Keeps R E (liftM x : StateT σ (Except ε) α) :=
  fun s ↦ outcome_lift.mpr ⟨fun _ _ ↦ hR s, hx⟩

/-- What both parts keep, the sequence keeps. -/
theorem bind (hR : ∀ s₁ s₂ s₃, R s₁ s₂ → R s₂ s₃ → R s₁ s₃) {f : α → StateT σ (Except ε) β}
    (hm : Keeps R E m) (hf : ∀ a, Keeps R E (f a)) : Keeps R E (m >>= f) := by
  intro s
  rw [outcome_bind]
  refine (hm s).mono fun a s₁ _ h₁ ↦ ?_
  exact (hf a s₁).mono fun _ s₂ _ h₂ ↦ hR _ _ _ h₁ h₂

end Keeps

end JBLang.Base
