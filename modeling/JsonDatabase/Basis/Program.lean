/-
  File:      JsonDatabase/Basis/Program.lean
  Subject:   Programs that change a state and may raise: rules.

  The state a program has reached when it raises stays as it is; nothing is rolled back.

  * `Triple P m Q E` -- started where `P` holds, `m` ends in `Q` if it returns and in `E` if it
    raises; one rule for each construct;
  * `Keeps P m` -- `P` is an invariant of `m`, with rules that say what a step has learnt;
  * `run_bind_ok`, `run_bind_error` -- a sequence that returned or raised, taken apart;
  * `Lockstep R Q m n` -- whenever `n` returns, `m` does so too, from related states.
-/
import Mathlib.Logic.Basic

namespace JsonDatabase

section

variable {ε σ α β : Type}

/-- A computation without the state, as a program. -/
def liftExcept (x : Except ε α) : EStateM ε σ α := fun s =>
  match x with
  | .ok a => .ok a s
  | .error e => .error e s

instance monadLiftExcept : MonadLift (Except ε) (EStateM ε σ) := ⟨liftExcept⟩

/-- Started where `P` holds, `m` returns in `Q` or raises in `E`. -/
def Triple (P : σ → Prop) (m : EStateM ε σ α) (Q : α → σ → Prop) (E : ε → σ → Prop) : Prop :=
  ∀ s, P s →
    match m s with
    | .ok a s' => Q a s'
    | .error e s' => E e s'

namespace Triple

variable {P P' : σ → Prop} {Q Q' : α → σ → Prop} {R : β → σ → Prop} {E E' : ε → σ → Prop}

theorem pure {a : α} (h : ∀ s, P s → Q a s) : Triple P (pure a : EStateM ε σ α) Q E :=
  fun s hs => h s hs

theorem throw {e : ε} (h : ∀ s, P s → E e s) : Triple P (throw e : EStateM ε σ α) Q E :=
  fun s hs => h s hs

theorem bind {m : EStateM ε σ α} {f : α → EStateM ε σ β} (hm : Triple P m Q E)
    (hf : ∀ a, Triple (Q a) (f a) R E) : Triple P (m >>= f) R E := by
  intro s hs
  have h := hm s hs
  show match EStateM.bind m f s with
    | .ok a s' => R a s'
    | .error e s' => E e s'
  unfold EStateM.bind
  cases hms : m s with
  | ok a s' =>
    rw [hms] at h
    exact hf a s' h
  | error e s' =>
    rw [hms] at h
    exact h

theorem lift {x : Except ε α} (hok : ∀ a s, x = .ok a → P s → Q a s)
    (herr : ∀ e s, x = .error e → P s → E e s) : Triple P (liftExcept x) Q E := by
  intro s hs
  cases x with
  | ok a => exact hok a s rfl hs
  | error e => exact herr e s rfl hs

/-- What a computation that returned has returned is known afterwards. -/
theorem bind_lift {x : Except ε α} {f : α → EStateM ε σ β} (herr : ∀ e s, x = .error e → P s → E e s)
    (hf : ∀ a, x = .ok a → Triple P (f a) R E) : Triple P (liftExcept x >>= f) R E := by
  intro s hs
  cases x with
  | ok a => exact hf a rfl s hs
  | error e => exact herr e s rfl hs

theorem get {Q : σ → σ → Prop} (h : ∀ s, P s → Q s s) : Triple P (get : EStateM ε σ σ) Q E :=
  fun s hs => h s hs

theorem set {t : σ} {Q : PUnit → σ → Prop} (h : ∀ s, P s → Q ⟨⟩ t) :
    Triple P (set t : EStateM ε σ PUnit) Q E :=
  fun s hs => h s hs

theorem mono {m : EStateM ε σ α} (h : Triple P m Q E) (hP : ∀ s, P' s → P s)
    (hQ : ∀ a s, Q a s → Q' a s) (hE : ∀ e s, E e s → E' e s) : Triple P' m Q' E' := by
  intro s hs
  have h := h s (hP s hs)
  cases hms : m s with
  | ok a s' =>
    rw [hms] at h
    exact hQ a s' h
  | error e s' =>
    rw [hms] at h
    exact hE e s' h

end Triple

/-- `P` is an invariant of `m`, whether it returns or raises. -/
def Keeps (P : σ → Prop) (m : EStateM ε σ α) : Prop := Triple P m (fun _ => P) (fun _ => P)

namespace Keeps

variable {P : σ → Prop}

theorem pure (a : α) : Keeps P (pure a : EStateM ε σ α) := Triple.pure fun _ h => h

theorem throw (e : ε) : Keeps P (throw e : EStateM ε σ α) := Triple.throw fun _ h => h

theorem lift (x : Except ε α) : Keeps P (liftExcept x : EStateM ε σ α) :=
  Triple.lift (fun _ _ _ h => h) fun _ _ _ h => h

theorem set {t : σ} (h : P t) : Keeps P (set t : EStateM ε σ PUnit) := Triple.set fun _ _ => h

theorem bind {m : EStateM ε σ α} {f : α → EStateM ε σ β} (hm : Keeps P m)
    (hf : ∀ a, Keeps P (f a)) : Keeps P (m >>= f) := Triple.bind hm hf

/-- After a computation that returned, what it returned is known. -/
theorem bind_lift {x : Except ε α} {f : α → EStateM ε σ β} (hf : ∀ a, x = .ok a → Keeps P (f a)) :
    Keeps P (liftExcept x >>= f) := by
  intro s hs
  cases x with
  | ok a => exact hf a rfl s hs
  | error e => exact hs

/-- The state that is read satisfies the invariant. -/
theorem bind_get {f : σ → EStateM ε σ β} (hf : ∀ s, P s → Keeps P (f s)) :
    Keeps P (get >>= f) := fun s hs => hf s hs s hs

/-- **The invariant holds after the program, however it ended.** -/
theorem run {m : EStateM ε σ α} (h : Keeps P m) {s : σ} (hs : P s) :
    match m s with
    | .ok _ s' => P s'
    | .error _ s' => P s' := h s hs

end Keeps

/-! ## Runs that returned -/

theorem run_bind_ok {m : EStateM ε σ α} {f : α → EStateM ε σ β} {s s'' : σ} {b : β} :
    (m >>= f) s = .ok b s'' ↔ ∃ a s', m s = .ok a s' ∧ f a s' = .ok b s'' := by
  show EStateM.bind m f s = _ ↔ _
  unfold EStateM.bind
  cases m s with
  | ok a s' =>
    refine ⟨fun h => ⟨a, s', rfl, h⟩, fun h => ?_⟩
    obtain ⟨a', s₁, e, h⟩ := h
    cases e
    exact h
  | error e s' =>
    refine ⟨fun h => (by cases h), fun h => ?_⟩
    obtain ⟨a', s₁, h', -⟩ := h
    cases h'

theorem run_lift_ok {x : Except ε α} {s s' : σ} {a : α} :
    (liftExcept x : EStateM ε σ α) s = .ok a s' ↔ x = .ok a ∧ s' = s := by
  cases x with
  | ok b =>
    show EStateM.Result.ok b s = _ ↔ _
    simp only [EStateM.Result.ok.injEq, Except.ok.injEq]
    exact and_congr_right' eq_comm
  | error e =>
    refine ⟨fun h => (by cases h), fun h => (by cases h.1)⟩

theorem run_pure_ok {a b : α} {s s' : σ} :
    (pure a : EStateM ε σ α) s = .ok b s' ↔ a = b ∧ s' = s := by
  show EStateM.Result.ok a s = _ ↔ _
  simp only [EStateM.Result.ok.injEq]
  exact and_congr_right' eq_comm

theorem run_throw_ok {e : ε} {b : α} {s s' : σ} :
    (throw e : EStateM ε σ α) s = .ok b s' ↔ False := by
  refine ⟨fun h => ?_, False.elim⟩
  cases h

theorem run_set_ok {s s' t : σ} {u : PUnit} :
    (set t : EStateM ε σ PUnit) s = .ok u s' ↔ s' = t := by
  show EStateM.Result.ok PUnit.unit t = _ ↔ _
  simp only [EStateM.Result.ok.injEq]
  exact ⟨fun h => h.2.symm, fun h => ⟨trivial, h.symm⟩⟩

/-- A sequence that begins with a computation without the state. -/
theorem run_lift_bind_ok {x : Except ε α} {f : α → EStateM ε σ β} {s s' : σ} {b : β} :
    (liftExcept x >>= f) s = .ok b s' ↔ ∃ a, x = .ok a ∧ f a s = .ok b s' := by
  rw [run_bind_ok]
  refine exists_congr fun a => ⟨fun h => ?_, fun h => ⟨s, run_lift_ok.mpr ⟨h.1, rfl⟩, h.2⟩⟩
  obtain ⟨s₁, hlift, h⟩ := h
  obtain ⟨hx, rfl⟩ := run_lift_ok.mp hlift
  exact ⟨hx, h⟩

theorem run_check_ok {x : Except ε Unit} {f : Unit → EStateM ε σ β} {s s' : σ} {b : β} :
    (liftExcept x >>= f) s = .ok b s' ↔ x = .ok () ∧ f () s = .ok b s' := by
  rw [run_lift_bind_ok]
  exact ⟨fun h => h.elim fun _ h => h, fun h => ⟨(), h⟩⟩

/-! ## Runs that raised -/

theorem run_bind_error {m : EStateM ε σ α} {f : α → EStateM ε σ β} {s s'' : σ} {e : ε} :
    (m >>= f) s = .error e s'' ↔
      m s = .error e s'' ∨ ∃ a s', m s = .ok a s' ∧ f a s' = .error e s'' := by
  show EStateM.bind m f s = _ ↔ _
  unfold EStateM.bind
  cases m s with
  | ok a s' =>
    refine ⟨fun h => Or.inr ⟨a, s', rfl, h⟩, fun h => ?_⟩
    rcases h with h | ⟨a', s₁, h', h⟩
    · cases h
    · cases h'
      exact h
  | error e' s' =>
    refine ⟨fun h => Or.inl (by cases h; rfl), fun h => ?_⟩
    rcases h with h | ⟨a', s₁, h', -⟩
    · cases h
      rfl
    · cases h'

theorem run_lift_error {x : Except ε α} {s s' : σ} {e : ε} :
    (liftExcept x : EStateM ε σ α) s = .error e s' ↔ x = .error e ∧ s' = s := by
  cases x with
  | ok b => exact ⟨fun h => (by cases h), fun h => (by cases h.1)⟩
  | error e' =>
    show EStateM.Result.error e' s = _ ↔ _
    simp only [EStateM.Result.error.injEq, Except.error.injEq]
    exact and_congr_right' eq_comm

/-- A sequence that begins with a computation without the state. -/
theorem run_lift_bind_error {x : Except ε α} {f : α → EStateM ε σ β} {s s' : σ} {e : ε} :
    (liftExcept x >>= f) s = .error e s' ↔
      (x = .error e ∧ s' = s) ∨ ∃ a, x = .ok a ∧ f a s = .error e s' := by
  rw [run_bind_error, run_lift_error]
  refine or_congr_right (exists_congr fun a => ⟨fun h => ?_, fun h => ⟨s, run_lift_ok.mpr ⟨h.1, rfl⟩, h.2⟩⟩)
  obtain ⟨s₁, hlift, h⟩ := h
  obtain ⟨hx, rfl⟩ := run_lift_ok.mp hlift
  exact ⟨hx, h⟩

/-- The first part returned, the rest raised. -/
theorem run_then_error {m : EStateM ε σ α} {f : α → EStateM ε σ β} {s s' s'' : σ} {a : α} {e : ε}
    (hm : m s = .ok a s') (hf : f a s' = .error e s'') : (m >>= f) s = .error e s'' :=
  run_bind_error.mpr (Or.inr ⟨a, s', hm, hf⟩)

theorem run_lift_then_error {x : Except ε α} {f : α → EStateM ε σ β} {s s' : σ} {a : α} {e : ε}
    (hx : x = .ok a) (hf : f a s = .error e s') : (liftExcept x >>= f) s = .error e s' :=
  run_lift_bind_error.mpr (Or.inr ⟨a, hx, hf⟩)

/-! ## Two programs side by side -/

section Lockstep

variable {τ α' β' : Type}

/-- Whenever `n` returns, so does `m` from a related state, with a related result. -/
def Lockstep (R : σ → τ → Prop) (Q : α → β → Prop) (m : EStateM ε σ α) (n : EStateM ε τ β) : Prop :=
  ∀ s t, R s t → ∀ b t', n t = .ok b t' → ∃ a s', m s = .ok a s' ∧ Q a b ∧ R s' t'

namespace Lockstep

variable {R : σ → τ → Prop} {Q : α → β → Prop} {Q' : α' → β' → Prop}

theorem pure {a : α} {b : β} (h : Q a b) :
    Lockstep R Q (pure a : EStateM ε σ α) (pure b : EStateM ε τ β) := by
  intro s t hr b' t' hn
  obtain ⟨rfl, rfl⟩ := run_pure_ok.mp hn
  exact ⟨a, s, rfl, h, hr⟩

theorem throw {m : EStateM ε σ α} {e : ε} :
    Lockstep R Q m (throw e : EStateM ε τ β) := by
  intro s t _ b t' hn
  cases hn

theorem lift {x : Except ε α} {y : Except ε β} (h : ∀ b, y = .ok b → ∃ a, x = .ok a ∧ Q a b) :
    Lockstep R Q (liftExcept x : EStateM ε σ α) (liftExcept y : EStateM ε τ β) := by
  intro s t hr b t' hn
  obtain ⟨hy, rfl⟩ := run_lift_ok.mp hn
  obtain ⟨a, hx, hq⟩ := h b hy
  exact ⟨a, s, run_lift_ok.mpr ⟨hx, rfl⟩, hq, hr⟩

theorem set {s' : σ} {t' : τ} {Q : PUnit → PUnit → Prop} (h : R s' t') (hq : Q ⟨⟩ ⟨⟩) :
    Lockstep R Q (set s' : EStateM ε σ PUnit) (set t' : EStateM ε τ PUnit) := by
  intro s t _ b t'' hn
  cases run_set_ok.mp hn
  exact ⟨⟨⟩, s', rfl, hq, h⟩

theorem bind {m : EStateM ε σ α} {n : EStateM ε τ β} {f : α → EStateM ε σ α'}
    {g : β → EStateM ε τ β'} (h : Lockstep R Q m n) (hf : ∀ a b, Q a b → Lockstep R Q' (f a) (g b)) :
    Lockstep R Q' (m >>= f) (n >>= g) := by
  intro s t hr b' t'' hn
  obtain ⟨b, t', hn, hg⟩ := run_bind_ok.mp hn
  obtain ⟨a, s', hm, hq, hr'⟩ := h s t hr b t' hn
  obtain ⟨a', s'', hfa, hq', hr''⟩ := hf a b hq s' t' hr' b' t'' hg
  exact ⟨a', s'', run_bind_ok.mpr ⟨a, s', hm, hfa⟩, hq', hr''⟩

/-- A computation that does not look at the state. -/
theorem bind_same {x : Except ε α} {f : α → EStateM ε σ α'} {g : α → EStateM ε τ β'}
    (hf : ∀ a, x = .ok a → Lockstep R Q' (f a) (g a)) :
    Lockstep R Q' (liftExcept x >>= f) (liftExcept x >>= g) :=
  bind (Q := fun a b => a = b ∧ x = .ok a) (lift fun b hb => ⟨b, hb, rfl, hb⟩) fun a b h => by
    obtain ⟨rfl, ha⟩ := h
    exact hf a ha

theorem bind_lift {x : Except ε α} {y : Except ε β} {f : α → EStateM ε σ α'}
    {g : β → EStateM ε τ β'} (h : ∀ b, y = .ok b → ∃ a, x = .ok a ∧ Lockstep R Q' (f a) (g b)) :
    Lockstep R Q' (liftExcept x >>= f) (liftExcept y >>= g) :=
  bind (Q := fun a b => Lockstep R Q' (f a) (g b)) (lift h) fun _ _ h => h

/-- Both read their states, which are related. -/
theorem bind_get {f : σ → EStateM ε σ α'} {g : τ → EStateM ε τ β'}
    (hf : ∀ s t, R s t → Lockstep R Q' (f s) (g t)) : Lockstep R Q' (get >>= f) (get >>= g) :=
  fun s t hr => hf s t hr s t hr

end Lockstep

end Lockstep

end

end JsonDatabase
