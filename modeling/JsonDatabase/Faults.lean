/-
  File:      JsonDatabase/Faults.lean
  Subject:   A write that raises, and what it leaves.

  A write has a point of no return, the replacement of the file. What can still raise after it is
  closing the parent directory, unlocking, and closing the lock file.

  * `Session.AllOrNothing` -- the file is as before or holds the new bytes, and nothing is left
    running or locked;
  * `writes_all_or_nothing` -- when that is so, exactly.
-/
import JsonDatabase.Session

namespace JsonDatabase

open Interaction

/-! ## 1. The numbers of the lock files -/

/-- The lock files that the session has open were opened. -/
def Session.Opened (s : Session) : Prop := ∀ t h, (s.txs t).lock = some h → h < s.world.handles

section Numbers

variable {rt : Runtime} {cp : Copier} {cfg : Settings} {env : Env} {s : Session}

theorem perform_handles (env : Env) (c : Syscall) (w : World) :
    w.handles ≤ (perform env c w).2.handles := by
  have hanswer {α : Type} {a : α} {f : Option Fault} {w' : World} (h : w.handles ≤ w'.handles) :
      w.handles ≤ (answer f a w w').2.handles := by
    cases f with
    | none => exact h
    | some f => exact le_rfl
  cases c with
  | readBytes k =>
    simp only [perform]
    split
    · exact hanswer le_rfl
    · exact le_rfl
  | tryLock h k =>
    simp only [perform]
    split
    · exact hanswer le_rfl
    · exact le_rfl
  | openLock => exact hanswer (Nat.le_succ _)
  | closeLock h =>
    simp only [perform, answer]
    split <;> exact le_rfl
  | pathExists | statTarget | unlock | replace | side => exact hanswer le_rfl
  | now | compute => exact le_rfl

/-- No program takes a number back. -/
theorem run_handles {α : Type} (p : Prog α) (w : World) : w.handles ≤ (p.run env w).2.handles := by
  induction p generalizing w with
  | done r => exact le_rfl
  | call c k ih => exact (perform_handles env c w).trans (ih _ _)

namespace Session

theorem Opened.withWorld (h : s.Opened) {w : World} (hw : s.world.handles ≤ w.handles)
    (p : Option Nat) : Opened ⟨w, s.txs, p⟩ := fun t handle hl => (h t handle hl).trans_le hw

theorem Opened.withTx (h : s.Opened) {w : World} (hw : s.world.handles ≤ w.handles) {t : Nat} {tx : Tx}
    (htx : ∀ handle, tx.lock = some handle → handle < w.handles) (p : Option Nat) :
    Opened ⟨w, (s.setTx t tx).txs, p⟩ := by
  intro t' handle hl
  by_cases ht : t' = t
  · subst ht
    exact htx handle ((congrArg Tx.lock (setTx_self s t' tx)).symm.trans hl)
  · exact (h t' handle ((congrArg Tx.lock (setTx_ne s tx ht)).symm.trans hl)).trans_le hw

theorem enter_opened (h : s.Opened) (t : Nat) : (s.enter rt cp cfg env t).2.Opened := by
  unfold enter
  cases s.activeTransaction with
  | some t' => exact h
  | none =>
    have hw := @run_handles env _ (enterTransaction rt cp cfg (s.txs t).lock) s.world
    simp only
    cases hrun : (enterTransaction rt cp cfg (s.txs t).lock).run env s.world with
    | mk r w' =>
      rw [hrun] at hw
      cases r with
      | ok x =>
        refine h.withTx hw (fun handle hl => ?_) (some t)
        cases hl
        exact (enterTransaction_ok hrun).2.2
      | error e => exact h.withTx hw (fun handle hl => by cases hl) none

theorem exit_opened (h : s.Opened) (t : Nat) (clean : Bool) :
    (s.exit rt cp cfg env t clean).2.Opened :=
  h.withTx (run_handles _ s.world) (fun _ hl => by cases hl) none

theorem after_opened (h : s.Opened) (c : Call) : (s.after rt cp cfg env c).Opened := by
  cases c with
  | enter t => exact enter_opened h t
  | exit t clean => exact exit_opened h t clean
  | leave clean =>
    show (s.leave rt cp cfg env clean).2.Opened
    unfold leave
    cases s.activeTransaction with
    | none => exact h
    | some t => exact exit_opened h t false
  | write mutator =>
    show (s.write rt cp cfg env mutator).2.Opened
    unfold write
    cases s.activeTransaction with
    | none => exact h.withWorld (run_handles _ s.world) none
    | some t => exact h
  | init force =>
    exact h.withWorld (run_handles (createEmpty rt cp cfg force) s.world) s.activeTransaction
  | operate t op =>
    show (s.operate t op).2.Opened
    cases hs : (s.txs t).stateRef with
    | error e =>
      unfold operate
      rw [hs]
      exact h
    | ok state =>
      obtain ⟨r, state', hop⟩ := operate_active hs rfl op
      rw [hop]
      exact @Opened.withTx s h s.world le_rfl t { s.txs t with state := some state' } (h t)
        s.activeTransaction

end Session

theorem reaches_opened {allowed : Session → Call → Prop} {w : World}
    (h : Reaches rt cp allowed (.start w) s) : s.Opened := by
  induction h with
  | start => exact fun _ _ hl => nomatch hl
  | call cfg env c _ _ ih => exact Session.after_opened ih c
  | others _ hw ih => exact ih.withWorld hw.handles _

end Numbers

/-! ## 2. All or nothing -/

/-- The calls that write the file. -/
inductive WriteCall where
  | update (mutator : Op PyVal)
  | createEmpty (force : Bool)
  /-- A clean `Transaction.__exit__`. -/
  | exit (t : Nat)

namespace WriteCall

@[reducible] def Result : WriteCall → Type
  | .update _ => PyVal
  | _ => Unit

/-- The call ends this transaction. -/
def Ends (t : Nat) : WriteCall → Prop
  | .exit t' => t' = t
  | _ => False

/-- The lock file that the call releases was open before. -/
def own (s : Session) : WriteCall → Option Nat
  | .exit t => (s.txs t).lock
  | _ => none

/-- No other transaction of the database is running. -/
structure Alone (s : Session) (c : WriteCall) : Prop where
  pointer : (∃ t, c.Ends t) ∨ s.activeTransaction = none
  idle : ∀ t, c.Ends t ∨ (s.txs t).active = false
  lock : ∀ t h, (s.txs t).lock = some h → s.world.lock = some h → c.own s = some h

section

variable (rt : Runtime) (cp : Copier) (cfg : Settings) (env : Env) (s : Session)

/-- What the call returns and writes if nothing raises. -/
def prepared : (c : WriteCall) → Except PyExc (c.Result × Bytes)
  | .update mutator => updateBytes rt cp env cfg.nt mutator s.world
  | .createEmpty force => emptyBytes rt cp env force s.world
  | .exit t => exitBytes rt cp env (s.txs t).stateRef

/-- The lock is held while the call writes. -/
def Begun : WriteCall → Prop
  | .exit _ => True
  | _ => env.acquires cfg s.world

/-- Unlocking and closing the lock file raise nothing. -/
def Closes : WriteCall → Prop
  | .exit t => env.releasesIfOpen (s.txs t).lock
  | _ => env.releases s.world.handles

/-- The file is replaced by other content, and after that closing the parent directory, unlocking or
    closing the lock file raises. -/
def FailsLate (c : WriteCall) : Prop :=
  c.Begun cfg env s ∧ (∃ a data, c.prepared rt cp cfg env s = .ok (a, data) ∧
    env.replaces cfg.nt data ∧ s.world.file ≠ some data) ∧
      ¬ (env.dirClosed cfg.nt ∧ c.Closes env s)

end

end WriteCall

/-- The call and the session after it. -/
def Session.attempt (rt : Runtime) (cp : Copier) (cfg : Settings) (env : Env) (s : Session) :
    (c : WriteCall) → Except PyExc c.Result × Session
  | .update mutator =>
    let (r, w) := (JsonDatabase.update rt cp cfg mutator).run env s.world
    (r, { s with world := w })
  | .createEmpty force => s.init rt cp cfg env force
  | .exit t => s.exit rt cp cfg env t true

/-- The file is as it was if the call raised, and holds the prepared bytes if it returned. The lock
    is free or with another holder that had it before. No transaction is active. -/
structure Session.AllOrNothing {α : Type} (s : Session) (prepared : Except PyExc (α × Bytes))
    (r : Except PyExc α) (s' : Session) : Prop where
  raised : ∀ e, r = .error e → s'.world.file = s.world.file
  returned : ∀ a, r = .ok a → ∃ data, prepared = .ok (a, data) ∧ s'.world.file = some data
  lock : ∀ h, s'.world.lock = some h → s.world.lock = some h ∧ ∀ t, (s.txs t).lock ≠ some h
  idle : s'.activeTransaction = none ∧ ∀ t, (s'.txs t).active = false

section

variable {rt : Runtime} {cp : Copier} {cfg : Settings} {env : Env} {s : Session} {α : Type}

/-- The file and the lock after a whole write. -/
theorem Attempt.outcome {nt : Bool} {p : Prog α} {w : World} {own : Option Nat} {begun ends : Prop}
    {prepared : Except PyExc (α × Bytes)} (h : Attempt env nt p w own begun prepared ends) :
    Frees own w (p.run env w).2 ∧
    (((∀ e, (p.run env w).1 = .error e → (p.run env w).2.file = w.file) ∧
      (∀ a, (p.run env w).1 = .ok a → ∃ data, prepared = .ok (a, data) ∧
        (p.run env w).2.file = some data)) ↔
      ¬ (begun ∧ (∃ a data, prepared = .ok (a, data) ∧ env.replaces nt data ∧
        w.file ≠ some data) ∧ ¬ ends)) := by
  by_cases hr : begun ∧ ∃ a data, prepared = .ok (a, data) ∧ env.replaces nt data
  · obtain ⟨hb, a, data, hp, hrep⟩ := hr
    obtain ⟨r, w', hrun, hfile, hf, hok, herr⟩ := h.replaced a data hb hp hrep
    rw [hrun]
    refine ⟨hf, ?_⟩
    by_cases he : ends
    · rw [hok he]
      refine iff_of_true ⟨fun e h => (nomatch h), fun a' h' => ?_⟩ fun h' => h'.2.2 he
      cases h'
      exact ⟨data, hp, hfile⟩
    · obtain ⟨e, rfl⟩ := herr he
      constructor
      · intro h' hlate
        obtain ⟨-, ⟨a', data', hp', -, hne⟩, -⟩ := hlate
        cases hp.symm.trans hp'
        exact hne ((h'.1 e rfl).symm.trans hfile)
      · intro hlate
        refine ⟨fun _ _ => ?_, fun a' h' => nomatch h'⟩
        by_contra hne
        exact hlate ⟨hb, ⟨a, data, hp, hrep, fun h' => hne (hfile.trans h'.symm)⟩, he⟩
  · obtain ⟨e, w', hrun, hfile, hf⟩ := h.failed hr
    rw [hrun]
    refine ⟨hf, iff_of_true ⟨fun _ _ => hfile, fun a' h' => nomatch h'⟩ fun h' => hr ?_⟩
    obtain ⟨hb, ⟨a, data, hp, hrep, -⟩, -⟩ := h'
    exact ⟨hb, a, data, hp, hrep⟩

/-- The file's part and the lock's part of a call, by cases on the call. -/
theorem attempt_outcome (c : WriteCall) :
    Frees (c.own s) s.world (s.attempt rt cp cfg env c).2.world ∧
    (((∀ e, (s.attempt rt cp cfg env c).1 = .error e →
        (s.attempt rt cp cfg env c).2.world.file = s.world.file) ∧
      (∀ a, (s.attempt rt cp cfg env c).1 = .ok a → ∃ data,
        c.prepared rt cp cfg env s = .ok (a, data) ∧
          (s.attempt rt cp cfg env c).2.world.file = some data)) ↔ ¬ c.FailsLate rt cp cfg env s) := by
  cases c with
  | update mutator => exact (update_attempt mutator s.world).outcome
  | createEmpty force => exact (createEmpty_attempt force s.world).outcome
  | exit t => exact (exit_attempt (s.txs t).lock (s.txs t).stateRef s.world).outcome

/-- Which transactions are active after a call. -/
theorem attempt_idle (c : WriteCall) :
    ((s.attempt rt cp cfg env c).2.activeTransaction = none ∧
      ∀ t, ((s.attempt rt cp cfg env c).2.txs t).active = false) ↔
      ((∃ t, c.Ends t) ∨ s.activeTransaction = none) ∧
        ∀ t, c.Ends t ∨ (s.txs t).active = false := by
  cases c with
  | update mutator => simp [Session.attempt, WriteCall.Ends]
  | createEmpty force => simp [Session.attempt, Session.init, WriteCall.Ends]
  | exit t =>
    have hafter (t' : Nat) : (((s.setTx t .fresh).txs t').active = false) ↔
        t = t' ∨ (s.txs t').active = false := by
      by_cases ht : t' = t
      · subst ht
        rw [Session.setTx_self]
        exact iff_of_true rfl (Or.inl rfl)
      · rw [Session.setTx_ne s .fresh ht]
        exact ⟨Or.inr, fun h => h.resolve_left fun e => ht e.symm⟩
    constructor
    · exact fun h => ⟨Or.inl ⟨t, rfl⟩, fun t' => (hafter t').mp (h.2 t')⟩
    · exact fun h => ⟨rfl, fun t' => (hafter t').mpr (h.2 t')⟩

end

/-- **A write that raises changed nothing**, and one that returns wrote the prepared bytes, with the
    lock released and no transaction active: this holds iff no other transaction of the database is
    running and the write does not fail after the replacement of the file. -/
theorem writes_all_or_nothing {rt : Runtime} {cp : Copier} {w : World} {s : Session}
    (h : Reaches rt cp (fun _ _ => True) (.start w) s) (cfg : Settings) (env : Env) (c : WriteCall) :
    s.AllOrNothing (c.prepared rt cp cfg env s) (s.attempt rt cp cfg env c).1
        (s.attempt rt cp cfg env c).2 ↔
      c.Alone s ∧ ¬ c.FailsLate rt cp cfg env s := by
  obtain ⟨hf, hfile⟩ := @attempt_outcome rt cp cfg env s c
  have hidle := @attempt_idle rt cp cfg env s c
  constructor
  · intro hall
    obtain ⟨hpointer, hactive⟩ := hidle.mp hall.idle
    refine ⟨⟨hpointer, hactive, fun t handle htx hlock => ?_⟩, hfile.mp ⟨hall.raised, hall.returned⟩⟩
    by_contra hne
    have hkept := hf.keeps handle hlock (reaches_opened h t handle htx) hne
    exact (hall.lock handle hkept).2 t htx
  · intro hc
    obtain ⟨halone, hlate⟩ := hc
    obtain ⟨hraised, hreturned⟩ := hfile.mpr hlate
    refine ⟨hraised, hreturned, fun handle hl => ?_, hidle.mpr ⟨halone.pointer, halone.idle⟩⟩
    obtain ⟨hlock, hne⟩ := hf.lock handle hl
    exact ⟨hlock, fun t htx => hne (halone.lock t handle htx hlock)⟩

/-- A new database in a directory without a file. -/
def emptyPlace : Session := .start ⟨none, none, 0⟩

/-- `init` leaves the transactions as they are. -/
theorem init_leaves {rt : Runtime} {cp : Copier} {cfg : Settings} {env : Env} {s : Session}
    {force : Bool} :
    (s.init rt cp cfg env force).2.txs = s.txs ∧
    (s.init rt cp cfg env force).2.activeTransaction = s.activeTransaction := by
  unfold Session.init
  exact ⟨rfl, rfl⟩

/-- It has been initialized. -/
def initializedPlace : Session :=
  (emptyPlace.init interpreter .total posix quietSystem false).2

/-- `fsync` of the temporary file raises. -/
def syncFails : Env where
  fails
    | .side .syncTemp => some .other
    | _ => none
  clock _ := epoch
  mode := 0o644

def insertAva : WriteCall := .update ((insertName (lit "Ava")).run interpreter .total)

set_option maxRecDepth 20000 in
theorem initializedPlace_eq : initializedPlace.world.file.isSome = true ∧
    raised (initializedPlace.attempt interpreter .total posix syncFails insertAva).1 =
      some .storageError ∧
    raised (initializedPlace.attempt interpreter .total posix quietSystem insertAva).1 = none ∧
    (initializedPlace.attempt interpreter .total posix quietSystem insertAva).2.world.file ≠
      initializedPlace.world.file := by
  decide +kernel

/-- An insertion that raises `StorageError` before the replacement leaves the file that there was, and
    one that returns has written another. -/
theorem kept_or_replaced : ∃ s, Reaches interpreter .total (fun _ _ => True) emptyPlace s ∧
    s.world.file.isSome = true ∧
    raised (s.attempt interpreter .total posix syncFails insertAva).1 = some .storageError ∧
    (s.attempt interpreter .total posix syncFails insertAva).2.world.file = s.world.file ∧
    ∃ a data, (s.attempt interpreter .total posix quietSystem insertAva).1 = .ok a ∧
      insertAva.prepared interpreter .total posix quietSystem s = .ok (a, data) ∧
      (s.attempt interpreter .total posix quietSystem insertAva).2.world.file = some data ∧
      s.world.file ≠ some data := by
  have h : Reaches interpreter .total (fun _ _ => True) emptyPlace initializedPlace :=
    .call posix quietSystem (.init false) .start trivial
  obtain ⟨htxs, hpointer⟩ := @init_leaves interpreter .total posix quietSystem emptyPlace false
  rw [← initializedPlace] at htxs hpointer
  have hfresh (t : Nat) : initializedPlace.txs t = .fresh := by rw [htxs]; rfl
  have halone : insertAva.Alone initializedPlace := by
    refine ⟨Or.inr hpointer, fun t => Or.inr (by rw [hfresh]; rfl), fun t handle hl => ?_⟩
    rw [hfresh] at hl
    cases hl
  obtain ⟨hsome, hfailed, hdone, hne⟩ := initializedPlace_eq
  have hkept := (writes_all_or_nothing h posix syncFails insertAva).mpr
    ⟨halone, fun hlate => hlate.2.2 ⟨Or.inr fun _ => rfl, rfl, rfl⟩⟩
  have hwritten := (writes_all_or_nothing h posix quietSystem insertAva).mpr
    ⟨halone, fun hlate => hlate.2.2 ⟨Or.inr fun _ => rfl, rfl, rfl⟩⟩
  obtain ⟨e, he, -⟩ := raised_eq_some.mp hfailed
  obtain ⟨a, ha⟩ := raised_eq_none.mp hdone
  obtain ⟨data, hprep, hfile⟩ := hwritten.returned a ha
  exact ⟨_, h, hsome, hfailed, hkept.raised e he, a, data, ha, hprep, hfile,
    fun he => hne (hfile.trans he.symm)⟩

/-- Closing the parent directory after `fsync` raises. -/
def closeDirFails : Env where
  fails
    | .side .closeDir => some .other
    | _ => none
  clock _ := epoch
  mode := 0o644

set_option maxRecDepth 20000 in
/-- **It fails after the replacement**: closing the parent directory makes the call raise
    `StorageError`, and the file is there, which it was not before. -/
theorem raised_after_replacing :
    raised (emptyPlace.attempt interpreter .total posix closeDirFails (.createEmpty false)).1 =
      some .storageError ∧
    ¬ emptyPlace.AllOrNothing
      ((WriteCall.createEmpty false).prepared interpreter .total posix closeDirFails emptyPlace)
      (emptyPlace.attempt interpreter .total posix closeDirFails (.createEmpty false)).1
      (emptyPlace.attempt interpreter .total posix closeDirFails (.createEmpty false)).2 := by
  have hraised : raised
      (emptyPlace.attempt interpreter .total posix closeDirFails (.createEmpty false)).1 =
        some .storageError := by decide +kernel
  have hfile : (emptyPlace.attempt interpreter .total posix closeDirFails
      (.createEmpty false)).2.world.file.isSome = true := by decide +kernel
  obtain ⟨e, he, -⟩ := raised_eq_some.mp hraised
  refine ⟨hraised, fun h => ?_⟩
  rw [h.raised e he] at hfile
  cases hfile

end JsonDatabase
