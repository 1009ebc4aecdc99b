/-
  File:      JsonDatabase/Basis/Interaction.lean
  Subject:   Programs that ask the system for something, and two readings of them.

  A program returns, raises, or makes a call and goes on with the reply, which may be an
  exception as well. One text serves two semantics: run to its end against a state, and run call
  by call among other programs.

  * `follow` -- what comes after a program, however it ended; `bind`, `ensuring`, `onRaise`,
    `rescue` are its cases;
  * `exec` -- the run against a state whose replies are given by a function;
  * `Conforms` -- every call is allowed in the phase it is made in, whatever the replies; one rule
    for each construct, and what it means for a run against a state. `Steady` programs keep to their
    phase;
  * `Trace` -- the calls of a run with their replies, and what conforming means for them.
-/
import Mathlib.Logic.Basic

namespace JsonDatabase

/-- A program with calls `Call`; the reply to a call is a value or an exception. -/
inductive Interaction (ε Call : Type) (Reply : Call → Type) (α : Type) : Type where
  | done (r : Except ε α)
  | call (c : Call) (k : Except ε (Reply c) → Interaction ε Call Reply α)

namespace Interaction

variable {ε Call : Type} {Reply : Call → Type} {α β : Type}

/-- What comes after a program, whether it returned or raised. -/
def follow : Interaction ε Call Reply α → (Except ε α → Interaction ε Call Reply β) →
    Interaction ε Call Reply β
  | .done r, f => f r
  | .call c k, f => .call c fun r => (k r).follow f

instance : Monad (Interaction ε Call Reply) where
  pure a := .done (.ok a)
  bind p f := p.follow fun
    | .ok a => f a
    | .error e => .done (.error e)

/-- The outcome of a pure computation. -/
def lift (x : Except ε α) : Interaction ε Call Reply α := .done x

/-- One call. -/
def ask (c : Call) : Interaction ε Call Reply (Reply c) := .call c .done

/-- `try: p finally: q`. -/
def ensuring (p : Interaction ε Call Reply α) (q : Interaction ε Call Reply Unit) :
    Interaction ε Call Reply α :=
  p.follow fun r => q.follow fun
    | .ok _ => .done r
    | .error e => .done (.error e)

/-- `try: p except: h`. -/
def rescue (p : Interaction ε Call Reply α) (h : ε → Interaction ε Call Reply α) :
    Interaction ε Call Reply α :=
  p.follow fun
    | .ok a => .done (.ok a)
    | .error e => h e

/-- `try: p except: q; raise`. -/
def onRaise (p : Interaction ε Call Reply α) (q : Interaction ε Call Reply Unit) :
    Interaction ε Call Reply α :=
  p.rescue fun e => q.follow fun
    | .ok _ => .done (.error e)
    | .error e' => .done (.error e')

/-- `try: p except: pass`. -/
def quietly (p : Interaction ε Call Reply α) : Interaction ε Call Reply Unit :=
  p.follow fun _ => .done (.ok ())

theorem follow_follow {γ : Type} (p : Interaction ε Call Reply α)
    (f : Except ε α → Interaction ε Call Reply β) (g : Except ε β → Interaction ε Call Reply γ) :
    (p.follow f).follow g = p.follow fun r => (f r).follow g := by
  induction p with
  | done r => rfl
  | call c k ih => exact congrArg (Interaction.call c) (funext ih)

theorem bind_bind {γ : Type} (p : Interaction ε Call Reply α) (f : α → Interaction ε Call Reply β)
    (g : β → Interaction ε Call Reply γ) : (p >>= f) >>= g = p >>= fun a => f a >>= g := by
  refine (follow_follow p _ _).trans (congrArg p.follow (funext fun r => ?_))
  cases r <;> rfl

theorem bind_pure_unit (p : Interaction ε Call Reply Unit) : (p >>= fun _ => pure ()) = p := by
  show p.follow _ = p
  induction p with
  | done r => cases r <;> rfl
  | call c k ih => exact congrArg (Interaction.call c) (funext ih)

/-! ## 1. Running to the end -/

section Exec

variable {σ : Type} (perform : (c : Call) → σ → Except ε (Reply c) × σ)

/-- The outcome and the state at the end. -/
def exec : Interaction ε Call Reply α → σ → Except ε α × σ
  | .done r, s => (r, s)
  | .call c k, s => exec (k (perform c s).1) (perform c s).2

theorem exec_follow (p : Interaction ε Call Reply α)
    (f : Except ε α → Interaction ε Call Reply β) (s : σ) :
    exec perform (p.follow f) s = exec perform (f (exec perform p s).1) (exec perform p s).2 := by
  induction p generalizing s with
  | done r => rfl
  | call c k ih => exact ih _ _

variable {perform} {p : Interaction ε Call Reply α} {s s' : σ}

theorem exec_follow_eq {f : Except ε α → Interaction ε Call Reply β} {r : Except ε α}
    (h : exec perform p s = (r, s')) : exec perform (p.follow f) s = exec perform (f r) s' := by
  rw [exec_follow, h]

/-- A sequence whose first part returned. -/
theorem exec_bind_ok {f : α → Interaction ε Call Reply β} {a : α}
    (h : exec perform p s = (.ok a, s')) : exec perform (p >>= f) s = exec perform (f a) s' :=
  exec_follow_eq h

/-- A sequence whose first part raised. -/
theorem exec_bind_error {f : α → Interaction ε Call Reply β} {e : ε}
    (h : exec perform p s = (.error e, s')) : exec perform (p >>= f) s = (.error e, s') :=
  exec_follow_eq h

theorem exec_ensuring_ok {q : Interaction ε Call Reply Unit} {r : Except ε α} {s'' : σ} {u : Unit}
    (h : exec perform p s = (r, s')) (hq : exec perform q s' = (.ok u, s'')) :
    exec perform (p.ensuring q) s = (r, s'') :=
  (exec_follow_eq h).trans (exec_follow_eq hq)

theorem exec_ensuring_error {q : Interaction ε Call Reply Unit} {r : Except ε α} {s'' : σ} {e : ε}
    (h : exec perform p s = (r, s')) (hq : exec perform q s' = (.error e, s'')) :
    exec perform (p.ensuring q) s = (.error e, s'') :=
  (exec_follow_eq h).trans (exec_follow_eq hq)

theorem exec_rescue_ok {h : ε → Interaction ε Call Reply α} {a : α}
    (hp : exec perform p s = (.ok a, s')) : exec perform (p.rescue h) s = (.ok a, s') :=
  exec_follow_eq hp

theorem exec_rescue_error {h : ε → Interaction ε Call Reply α} {e : ε}
    (hp : exec perform p s = (.error e, s')) :
    exec perform (p.rescue h) s = exec perform (h e) s' :=
  exec_follow_eq hp

/-- A program that raised, and what was done about it. -/
theorem exec_onRaise_error {q : Interaction ε Call Reply Unit} {e : ε} {s'' : σ} {u : Unit}
    (hp : exec perform p s = (.error e, s')) (hq : exec perform q s' = (.ok u, s'')) :
    exec perform (p.onRaise q) s = (.error e, s'') :=
  (exec_rescue_error hp).trans (exec_follow_eq hq)

end Exec

/-! ## 2. Calls that are allowed -/

section Conforms

variable {Phase : Type} (allowed : Phase → Call → Prop)
  (next : Phase → (c : Call) → Except ε (Reply c) → Phase → Prop)

/-- Whatever the replies, every call is allowed in its phase, and the outcome and the phase at the
    end satisfy `Q`. -/
def Conforms : Interaction ε Call Reply α → Phase → (Except ε α → Phase → Prop) → Prop
  | .done r, ph, Q => Q r ph
  | .call c k, ph, Q => allowed ph c ∧ ∀ r ph', next ph c r ph' → Conforms (k r) ph' Q

variable {allowed next} {p : Interaction ε Call Reply α} {ph : Phase}
  {Q Q' : Except ε α → Phase → Prop} {R : Except ε β → Phase → Prop}

namespace Conforms

theorem mono (h : Conforms allowed next p ph Q) (hQ : ∀ r ph, Q r ph → Q' r ph) :
    Conforms allowed next p ph Q' := by
  induction p generalizing ph with
  | done r => exact hQ r ph h
  | call c k ih => exact ⟨h.1, fun r ph' hn => ih r (h.2 r ph' hn)⟩

theorem follow {f : Except ε α → Interaction ε Call Reply β} (h : Conforms allowed next p ph Q)
    (hf : ∀ r ph', Q r ph' → Conforms allowed next (f r) ph' R) :
    Conforms allowed next (p.follow f) ph R := by
  induction p generalizing ph with
  | done r => exact hf r ph h
  | call c k ih => exact ⟨h.1, fun r ph' hn => ih r (h.2 r ph' hn)⟩

theorem bind {f : α → Interaction ε Call Reply β} (h : Conforms allowed next p ph Q)
    (hf : ∀ a ph', Q (.ok a) ph' → Conforms allowed next (f a) ph' R)
    (he : ∀ e ph', Q (.error e) ph' → R (.error e) ph') :
    Conforms allowed next (p >>= f) ph R :=
  h.follow fun r ph' hr => by
    cases r with
    | ok a => exact hf a ph' hr
    | error e => exact he e ph' hr

theorem ask {c : Call} {Q : Except ε (Reply c) → Phase → Prop} (ha : allowed ph c)
    (hn : ∀ r ph', next ph c r ph' → Q r ph') :
    Conforms allowed next (ask c : Interaction ε Call Reply (Reply c)) ph Q := ⟨ha, hn⟩

theorem rescue {h : ε → Interaction ε Call Reply α} (hp : Conforms allowed next p ph Q)
    (hok : ∀ a ph', Q (.ok a) ph' → Q' (.ok a) ph')
    (hh : ∀ e ph', Q (.error e) ph' → Conforms allowed next (h e) ph' Q') :
    Conforms allowed next (p.rescue h) ph Q' :=
  hp.follow fun r ph' hr => by
    cases r with
    | ok a => exact hok a ph' hr
    | error e => exact hh e ph' hr

theorem ensuring {q : Interaction ε Call Reply Unit} {S : Except ε α → Except ε Unit → Phase → Prop}
    (hp : Conforms allowed next p ph Q)
    (hq : ∀ r ph', Q r ph' → Conforms allowed next q ph' (S r))
    (hok : ∀ r u ph', S r (.ok u) ph' → Q' r ph')
    (herr : ∀ r e ph', S r (.error e) ph' → Q' (.error e) ph') :
    Conforms allowed next (p.ensuring q) ph Q' :=
  hp.follow fun r ph' hr => (hq r ph' hr).follow fun r' ph'' hr' => by
    cases r' with
    | ok u => exact hok r u ph'' hr'
    | error e => exact herr r e ph'' hr'

/-- **A run against a state** goes through phases that fit the state, if every call does. -/
theorem exec {σ : Type} {perform : (c : Call) → σ → Except ε (Reply c) × σ} {Fits : Phase → σ → Prop}
    (hstep : ∀ ph c s, allowed ph c → Fits ph s →
      ∃ ph', next ph c (perform c s).1 ph' ∧ Fits ph' (perform c s).2)
    (h : Conforms allowed next p ph Q) {s : σ} (hs : Fits ph s) :
    ∃ ph', Q (exec perform p s).1 ph' ∧ Fits ph' (exec perform p s).2 := by
  induction p generalizing ph s with
  | done r => exact ⟨ph, h, hs⟩
  | call c k ih =>
    obtain ⟨hallowed, hnext⟩ := h
    obtain ⟨ph', hn, hs'⟩ := hstep ph c s hallowed hs
    exact ih _ (hnext _ ph' hn) hs'

end Conforms

variable (allowed next) in
/-- The program keeps to its phase, whatever the phase is. -/
def Steady (p : Interaction ε Call Reply α) : Prop :=
  ∀ ph, Conforms allowed next p ph fun _ ph' => ph' = ph

namespace Steady

theorem done (r : Except ε α) : Steady allowed next (.done r : Interaction ε Call Reply α) :=
  fun _ => rfl

theorem ask {c : Call} (ha : ∀ ph, allowed ph c) (hn : ∀ ph r ph', next ph c r ph' → ph' = ph) :
    Steady allowed next (ask c : Interaction ε Call Reply (Reply c)) := fun ph => ⟨ha ph, hn ph⟩

theorem follow {f : Except ε α → Interaction ε Call Reply β} (hp : Steady allowed next p)
    (hf : ∀ r, Steady allowed next (f r)) : Steady allowed next (p.follow f) := fun ph =>
  (hp ph).follow fun r ph' hph => by
    rw [hph]
    exact hf r ph

theorem bind {f : α → Interaction ε Call Reply β} (hp : Steady allowed next p)
    (hf : ∀ a, Steady allowed next (f a)) : Steady allowed next (p >>= f) :=
  hp.follow fun r => by
    cases r with
    | ok a => exact hf a
    | error e => exact done _

theorem ensuring {q : Interaction ε Call Reply Unit} (hp : Steady allowed next p)
    (hq : Steady allowed next q) : Steady allowed next (p.ensuring q) :=
  hp.follow fun r => hq.follow fun r' => by
    cases r' with
    | ok u => exact done _
    | error e => exact done _

theorem rescue {h : ε → Interaction ε Call Reply α} (hp : Steady allowed next p)
    (hh : ∀ e, Steady allowed next (h e)) : Steady allowed next (p.rescue h) :=
  hp.follow fun r => by
    cases r with
    | ok a => exact done _
    | error e => exact hh e

theorem onRaise {q : Interaction ε Call Reply Unit} (hp : Steady allowed next p)
    (hq : Steady allowed next q) : Steady allowed next (p.onRaise q) :=
  hp.rescue fun e => hq.follow fun r => by
    cases r with
    | ok u => exact done _
    | error e' => exact done _

/-- Before a program that is told the phase. -/
theorem andThen {f : α → Interaction ε Call Reply β} (hp : Steady allowed next p)
    (hf : ∀ a, Conforms allowed next (f a) ph R) (he : ∀ e, R (.error e) ph) :
    Conforms allowed next (p >>= f) ph R :=
  (hp ph).bind (fun a _ h => h ▸ hf a) fun e _ h => h ▸ he e

end Steady

end Conforms

/-! ## 3. Traces -/

section Trace

/-- The program makes these calls, is given these replies, and ends with `r`. -/
inductive Trace : Interaction ε Call Reply α → List (Σ c : Call, Except ε (Reply c)) →
    Except ε α → Prop
  | done (r : Except ε α) : Trace (.done r) [] r
  | call {c : Call} {k : Except ε (Reply c) → Interaction ε Call Reply α} {r : Except ε (Reply c)}
      {t : List (Σ c : Call, Except ε (Reply c))} {a : Except ε α} :
      Trace (k r) t a → Trace (.call c k) (⟨c, r⟩ :: t) a

/-- The calls of a run against a state, and their replies. -/
def traced {σ : Type} (perform : (c : Call) → σ → Except ε (Reply c) × σ) :
    Interaction ε Call Reply α → σ → List (Σ c : Call, Except ε (Reply c))
  | .done _, _ => []
  | .call c k, s => ⟨c, (perform c s).1⟩ :: traced perform (k (perform c s).1) (perform c s).2

variable {σ : Type} {perform : (c : Call) → σ → Except ε (Reply c) × σ}

theorem trace_traced (p : Interaction ε Call Reply α) (s : σ) :
    Trace p (traced perform p s) (exec perform p s).1 := by
  induction p generalizing s with
  | done r => exact .done r
  | call c k ih => exact .call (ih (perform c s).1 (perform c s).2)

/-- Each was answered in some state. -/
theorem mem_traced {p : Interaction ε Call Reply α} {s : σ} {x : Σ c : Call, Except ε (Reply c)}
    (hx : x ∈ traced perform p s) : ∃ s', x.2 = (perform x.1 s').1 := by
  induction p generalizing s with
  | done r => cases hx
  | call c k ih =>
    rcases List.mem_cons.mp hx with rfl | hx
    · exact ⟨s, rfl⟩
    · exact ih _ hx

variable {Phase : Type} {allowed : Phase → Call → Prop} {given : (c : Call) → Except ε (Reply c) → Prop}
  {after : Phase → (c : Call) → Except ε (Reply c) → Phase} {p : Interaction ε Call Reply α}
  {Q : Except ε α → Phase → Prop}

/-- **The calls of a program that conforms**, when the replies are such as are given and fix the
    phases: each is allowed after those before it, and the phase after all of them is as promised. -/
theorem Conforms.trace {ph : Phase} {t : List (Σ c : Call, Except ε (Reply c))} {r : Except ε α}
    (h : Conforms allowed (fun ph c r ph' => given c r ∧ ph' = after ph c r) p ph Q)
    (ht : Trace p t r) (hgiven : ∀ x ∈ t, given x.1 x.2) :
    Q r (t.foldl (fun ph x => after ph x.1 x.2) ph) ∧
      ∀ pre x post, t = pre ++ x :: post → allowed (pre.foldl (fun ph x => after ph x.1 x.2) ph) x.1 := by
  induction ht generalizing ph with
  | done r =>
    refine ⟨h, fun pre x post e => ?_⟩
    cases pre <;> cases e
  | @call c k r t a _ ih =>
    obtain ⟨hx, hgiven⟩ := List.forall_mem_cons.mp hgiven
    obtain ⟨hend, huse⟩ := ih (h.2 r _ ⟨hx, rfl⟩) hgiven
    refine ⟨hend, fun pre x post e => ?_⟩
    cases pre with
    | nil =>
      cases e
      exact h.1
    | cons y pre =>
      cases e
      exact huse pre x post rfl

end Trace

end Interaction

end JsonDatabase
