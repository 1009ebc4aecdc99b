/-
  File:      JsonDatabase/Basis/Coupling.lean
  Subject:   Two programs that end alike.

  `EndsAlike Q E x y` says of two ended runs that both returned, related by `Q`, or both raised the same
  exception, in states related by `E`. The rules take the two programs apart, either in step or one at
  a time, so the two need not do the same things in the same places.
-/
import JsonDatabase.Basis.Program

namespace JsonDatabase

variable {ε σ τ α β γ δ : Type}

/-- A computation without the state in two parts. -/
theorem liftExcept_bind (x : Except ε α) (k : α → Except ε β) :
    (liftExcept (x >>= k) : EStateM ε σ β) = liftExcept x >>= fun a => liftExcept (k a) := by
  funext s
  cases x <;> rfl

/-- Both returned, or both raised the same. -/
inductive EndsAlike (Q : α → β → σ → τ → Prop) (E : σ → τ → Prop) :
    EStateM.Result ε σ α → EStateM.Result ε τ β → Prop
  | ok {a : α} {b : β} {s : σ} {t : τ} : Q a b s t → EndsAlike Q E (.ok a s) (.ok b t)
  | error {e : ε} {s : σ} {t : τ} : E s t → EndsAlike Q E (.error e s) (.error e t)

namespace EndsAlike

variable {Q Q' : α → β → σ → τ → Prop} {R : γ → δ → σ → τ → Prop} {E E' : σ → τ → Prop}
  {m : EStateM ε σ α} {n : EStateM ε τ β} {f : α → EStateM ε σ γ} {g : β → EStateM ε τ δ}
  {s s' : σ} {t t' : τ}

theorem mono {x : EStateM.Result ε σ α} {y : EStateM.Result ε τ β} (h : EndsAlike Q E x y)
    (hq : ∀ a b s t, Q a b s t → Q' a b s t) (he : ∀ s t, E s t → E' s t) : EndsAlike Q' E' x y := by
  cases h with
  | ok h => exact .ok (hq _ _ _ _ h)
  | error h => exact .error (he _ _ h)

/-- Two sequences whose first parts end alike. -/
theorem bind (h : EndsAlike Q E (m s) (n t))
    (hf : ∀ a b s' t', m s = .ok a s' → n t = .ok b t' → Q a b s' t' → EndsAlike R E (f a s') (g b t')) :
    EndsAlike R E ((m >>= f) s) ((n >>= g) t) := by
  show EndsAlike R E (EStateM.bind m f s) (EStateM.bind n g t)
  unfold EStateM.bind
  cases hm : m s with
  | ok a s' =>
    cases hn : n t with
    | ok b t' =>
      rw [hm, hn] at h
      cases h with
      | ok h => exact hf a b s' t' hm hn h
    | error e t' =>
      rw [hm, hn] at h
      cases h
  | error e s' =>
    cases hn : n t with
    | ok b t' =>
      rw [hm, hn] at h
      cases h
    | error e' t' =>
      rw [hm, hn] at h
      cases h with
      | error h => exact .error h

/-- The first program takes a step. -/
theorem left {a : α} {y : EStateM.Result ε τ δ} (hm : m s = .ok a s')
    (h : EndsAlike R E (f a s') y) : EndsAlike R E ((m >>= f) s) y := by
  show EndsAlike R E (EStateM.bind m f s) y
  unfold EStateM.bind
  rw [hm]
  exact h

/-- The first part of the first program may be exchanged for one that runs alike from here. -/
theorem left_congr {m' : EStateM ε σ α} {y : EStateM.Result ε τ δ} (hm : m s = m' s)
    (h : EndsAlike R E ((m' >>= f) s) y) : EndsAlike R E ((m >>= f) s) y := by
  have hrun : (m >>= f) s = (m' >>= f) s := by
    show EStateM.bind m f s = EStateM.bind m' f s
    unfold EStateM.bind
    rw [hm]
  rw [hrun]
  exact h

/-- The second program takes a step. -/
theorem right {b : β} {x : EStateM.Result ε σ γ} (hn : n t = .ok b t')
    (h : EndsAlike R E x (g b t')) : EndsAlike R E x ((n >>= g) t) := by
  show EndsAlike R E x (EStateM.bind n g t)
  unfold EStateM.bind
  rw [hn]
  exact h

/-- The second program reads its state. -/
theorem right_get {x : EStateM.Result ε σ γ} {g : τ → EStateM ε τ δ} (h : EndsAlike R E x (g t t)) :
    EndsAlike R E x ((MonadState.get >>= g) t) := h

/-- The first program makes a check of its own. -/
theorem left_lift {x : Except ε α} {a : α} {y : EStateM.Result ε τ δ} (hx : x = .ok a)
    (h : EndsAlike R E (f a s) y) : EndsAlike R E ((liftExcept x >>= f) s) y := by
  subst hx
  exact h

/-- The second program makes a check of its own. -/
theorem right_lift {y : Except ε β} {b : β} {x : EStateM.Result ε σ γ} (hy : y = .ok b)
    (h : EndsAlike R E x (g b t)) : EndsAlike R E x ((liftExcept y >>= g) t) := by
  subst hy
  exact h

/-- Both make the same check. -/
theorem check {x : Except ε α} {f : α → EStateM ε σ γ} {g : α → EStateM ε τ δ} (he : E s t)
    (h : ∀ a, x = .ok a → EndsAlike R E (f a s) (g a t)) :
    EndsAlike R E ((liftExcept x >>= f) s) ((liftExcept x >>= g) t) := by
  cases hx : x with
  | ok a => exact h a hx
  | error e => exact .error he

end EndsAlike

end JsonDatabase
