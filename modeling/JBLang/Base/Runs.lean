/-!
# Runs of a system with fallible operations

A run applies operations one after the other and stops at the first failure. Which
operations may be applied depends on the state they are applied in.
-/

namespace JBLang.Base

universe u v w

variable {σ α β : Type u} {op : Type v} {ε : Type w} {x : Except ε α}
  {step : σ → op → Except ε σ} {allowed : σ → op → Prop}

/-- A computation in two parts returns if both do. -/
theorem bind_eq_ok {f : α → Except ε β} {b : β} :
    (x >>= f) = .ok b ↔ ∃ a, x = .ok a ∧ f a = .ok b := by
  cases x with
  | error e => exact iff_of_false nofun nofun
  | ok a => simp [bind, Except.bind]

theorem map_eq_ok {f : α → β} {b : β} : x.map f = .ok b ↔ ∃ a, x = .ok a ∧ f a = b := by
  cases x with
  | error e => exact iff_of_false nofun nofun
  | ok a => simp [Except.map]

/-- Where two computations agree up to a function of what they return, both return or neither. -/
theorem exists_ok_of_map_eq {γ : Type u} {y : Except ε β} {f : α → γ} {g : β → γ}
    (h : x.map f = y.map g) {a : α} (hx : x = .ok a) : ∃ b, y = .ok b ∧ g b = f a := by
  cases y with
  | error e =>
    rw [hx] at h
    cases h
  | ok b =>
    rw [hx] at h
    exact ⟨b, rfl, (Except.ok.inj h).symm⟩

/-- Apply the operations in order. -/
def runAll (step : σ → op → Except ε σ) (s : σ) : List op → Except ε σ
  | [] => .ok s
  | o :: os => match step s o with
    | .ok s' => runAll step s' os
    | .error e => .error e

theorem runAll_append (step : σ → op → Except ε σ) (s : σ) (os os' : List op) :
    runAll step s (os ++ os') = (runAll step s os).bind (runAll step · os') := by
  induction os generalizing s with
  | nil => rfl
  | cons o os ih =>
    rw [List.cons_append, runAll, runAll]
    cases step s o with
    | error e => rfl
    | ok s' => exact ih s'

/-- One of two systems does what the other does, where `f` gives an operation a counterpart, and
nothing where it does not: then it does so in every run. -/
theorem runAll_filterMap {τ : Type u} {op' : Type v}
    {step' : τ → op' → Except ε τ} (g : τ → σ) {f : op → Option op'} {ops : List op}
    (h : ∀ o ∈ ops, ∀ t, step (g t) o = ((f o).elim (.ok t) (step' t)).map g) (t : τ) :
    runAll step (g t) ops = (runAll step' t (ops.filterMap f)).map g := by
  induction ops generalizing t with
  | nil => rfl
  | cons o ops ih =>
    have ho := h o List.mem_cons_self t
    have hrest := ih fun o' ho' ↦ h o' (List.mem_cons_of_mem _ ho')
    cases hf : f o with
    | none =>
      rw [List.filterMap_cons_none hf, runAll, ho, hf]
      exact hrest t
    | some o' =>
      rw [List.filterMap_cons_some hf, runAll, runAll, ho, hf, Option.elim_some]
      cases step' t o' with
      | error e => rfl
      | ok t' => exact hrest t'

/-- Each operation is allowed in the state it is applied in. -/
def AllAllowed (step : σ → op → Except ε σ) (allowed : σ → op → Prop) (s : σ) : List op → Prop
  | [] => True
  | o :: os => allowed s o ∧ ∀ s', step s o = .ok s' → AllAllowed step allowed s' os

/-- Whether a concrete run is allowed can be computed. -/
instance decidableAllAllowed (step : σ → op → Except ε σ) (allowed : σ → op → Prop)
    [∀ s o, Decidable (allowed s o)] :
    (s : σ) → (ops : List op) → Decidable (AllAllowed step allowed s ops)
  | _, [] => .isTrue trivial
  | s, o :: os =>
    if ha : allowed s o then
      match hs : step s o with
      | .ok s' =>
        match decidableAllAllowed step allowed s' os with
        | .isTrue h => .isTrue ⟨ha, fun t ht ↦ by cases hs.symm.trans ht; exact h⟩
        | .isFalse h => .isFalse fun hall ↦ h (hall.2 s' hs)
      | .error _ => .isTrue ⟨ha, fun t ht ↦ by cases hs.symm.trans ht⟩
    else .isFalse fun hall ↦ ha hall.1

private theorem runAll_keeps_from {P : List op → σ → Prop} {stop : List op → op → ε → Prop}
    (hstep : ∀ {done s o}, P done s → allowed s o →
      (∃ s', step s o = .ok s' ∧ P (done ++ [o]) s') ∨ ∃ e, step s o = .error e ∧ stop done o e)
    {done : List op} {s : σ} (h : P done s) (ops : List op) (ha : AllAllowed step allowed s ops) :
    (∃ s', runAll step s ops = .ok s' ∧ P (done ++ ops) s') ∨
      ∃ pre o post e, ops = pre ++ o :: post ∧ runAll step s ops = .error e ∧
        stop (done ++ pre) o e := by
  induction ops generalizing done s with
  | nil => exact .inl ⟨s, rfl, by rwa [List.append_nil]⟩
  | cons o ops ih =>
    obtain ⟨ho, hrest⟩ := ha
    rcases hstep h ho with ⟨s', hs, hp⟩ | ⟨e, he, hstop⟩
    · have hrun : runAll step s (o :: ops) = runAll step s' ops := by
        rw [runAll, hs]
      rw [hrun]
      rcases ih hp (hrest s' hs) with ⟨t, ht, hpt⟩ | ⟨pre, o', post, e, heq, he, hstop⟩
      · exact .inl ⟨t, ht, by simpa using hpt⟩
      · exact .inr ⟨o :: pre, o', post, e, by simp [heq], he, by simpa using hstop⟩
    · refine .inr ⟨[], o, ops, e, rfl, ?_, by simpa using hstop⟩
      rw [runAll, he]

/-- What every allowed operation keeps, every run of allowed operations keeps; it ends
normally, or at an operation with one of the failures in `stop`. `P` and `stop` may refer to
the operations done so far. -/
theorem runAll_keeps (P : List op → σ → Prop) (stop : List op → op → ε → Prop)
    (hstep : ∀ {done s o}, P done s → allowed s o →
      (∃ s', step s o = .ok s' ∧ P (done ++ [o]) s') ∨ ∃ e, step s o = .error e ∧ stop done o e)
    {s : σ} (h : P [] s) (ops : List op) (ha : AllAllowed step allowed s ops) :
    (∃ s', runAll step s ops = .ok s' ∧ P ops s') ∨
      ∃ pre o post e, ops = pre ++ o :: post ∧ runAll step s ops = .error e ∧ stop pre o e :=
  runAll_keeps_from hstep h ops ha

/-- What holds of the states before, between and after the operations. -/
def AtEveryPoint (step : σ → op → Except ε σ) (P : σ → Prop) (s : σ) : List op → Prop
  | [] => P s
  | o :: os => P s ∧ ∀ s', step s o = .ok s' → AtEveryPoint step P s' os

/-- Where one operation keeps `P` exactly if it is allowed, `P` holds at every point of a run
exactly if all its operations are. -/
theorem atEveryPoint_iff_allAllowed {P I : σ → Prop}
    (hstep : ∀ {s o s'}, I s → P s → step s o = .ok s' → I s' ∧ (P s' ↔ allowed s o))
    {s t : σ} (hI : I s) (hP : P s) (ops : List op) (hrun : runAll step s ops = .ok t) :
    AtEveryPoint step P s ops ↔ AllAllowed step allowed s ops := by
  induction ops generalizing s with
  | nil => exact iff_of_true hP trivial
  | cons o ops ih =>
    cases hs : step s o with
    | error e => simp [runAll, hs] at hrun
    | ok s' =>
      simp only [runAll, hs] at hrun
      obtain ⟨hI', hiff⟩ := hstep hI hP hs
      simp only [AtEveryPoint, AllAllowed, hP, true_and, hs, Except.ok.injEq, forall_eq']
      constructor
      · intro hpoints
        have hP' : P s' := by cases ops with
          | nil => exact hpoints
          | cons => exact hpoints.1
        exact ⟨hiff.mp hP', (ih hI' hP' hrun).mp hpoints⟩
      · rintro ⟨ho, hrest⟩
        exact (ih hI' (hiff.mpr ho) hrun).mpr hrest

end JBLang.Base
