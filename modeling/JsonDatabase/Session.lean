/-
  File:      JsonDatabase/Session.lean
  Subject:   One `Database` object and the `Transaction` objects obtained from it.

  Three pieces of state say that a transaction is running: its own flag, the back pointer of the
  database, and the lock. A call may be made on any object at any time; between the calls other
  processes may change the file and take the lock.

  * `Session`, `Session.enter` .. `Session.operate` -- the objects and the calls;
  * `Reaches` -- the sessions that calls lead to;
  * `lifecycle` -- the three agree, and what follows for writes, reads and the end of the `with`
    statement of the database.
-/
import JsonDatabase.WriteLaws
import JsonDatabase.Interpreter

namespace JsonDatabase

open Interaction

/-! ## 1. The objects -/

/-- A `Transaction`; `lock` is the lock file that its `FileLock` has open. -/
structure Tx where
  active : Bool
  state : Option State
  lock : Option Nat

/-- `Transaction.__init__`. -/
def Tx.fresh : Tx := ⟨false, none, none⟩

def notActive : PyExc := .plain .transactionError "transaction is not active"

/-- `Transaction._state_ref`. -/
def Tx.stateRef (tx : Tx) : Except PyExc State :=
  match tx.active, tx.state with
  | true, some state => .ok state
  | _, _ => .error notActive

theorem Tx.stateRef_inactive {tx : Tx} (h : tx.active = false) : tx.stateRef = .error notActive := by
  unfold Tx.stateRef
  rw [h]

/-- A `Database` in its world, with the transactions obtained from it. -/
structure Session where
  world : World
  txs : Nat → Tx
  activeTransaction : Option Nat

namespace Session

/-- A new `Database`. -/
def start (w : World) : Session := ⟨w, fun _ => .fresh, none⟩

def setTx (s : Session) (t : Nat) (tx : Tx) : Session :=
  { s with txs := Function.update s.txs t tx }

@[simp] theorem setTx_self (s : Session) (t : Nat) (tx : Tx) : (s.setTx t tx).txs t = tx :=
  Function.update_self ..

theorem setTx_ne (s : Session) {t t' : Nat} (tx : Tx) (h : t' ≠ t) :
    (s.setTx t tx).txs t' = s.txs t' :=
  Function.update_of_ne h ..

/-- The lock file of a transaction holds the lock. -/
def Holds (s : Session) (t : Nat) : Prop :=
  ∃ h, (s.txs t).lock = some h ∧ s.world.lock = some h

end Session

def nestedTransaction : PyExc :=
  .plain .transactionError "nested transactions are not supported"

def transactionOpen : PyExc :=
  .plain .transactionError "database has an active transaction; use tx.collection(...)"

def leakedTransaction : PyExc :=
  .plain .transactionError ("Database context exiting with an open transaction; " ++
    "commit or roll back inside the `with` block first")

/-! ## 2. The calls -/

namespace Session

variable (rt : Runtime) (cp : Copier) (cfg : Settings) (env : Env)

/-- `Transaction.__enter__`. -/
def enter (t : Nat) (s : Session) : Except PyExc Unit × Session :=
  match s.activeTransaction with
  | some _ => (.error nestedTransaction, s)
  | none =>
    match (enterTransaction rt cp cfg (s.txs t).lock).run env s.world with
    | (.ok (handle, state), w) =>
      (.ok (), ⟨w, (s.setTx t ⟨true, some state, some handle⟩).txs, some t⟩)
    | (.error e, w) => (.error e, ⟨w, (s.setTx t { s.txs t with lock := none }).txs, none⟩)

/-- `Transaction.__exit__`, `clean` if there was no exception. The back pointer is cleared
    whichever transaction it points to. -/
def exit (t : Nat) (clean : Bool) (s : Session) : Except PyExc Unit × Session :=
  let tx := s.txs t
  let (r, w) := (exitTransaction rt cp cfg tx.lock clean tx.stateRef).run env s.world
  (r, ⟨w, (s.setTx t .fresh).txs, none⟩)

/-- `Database.__exit__`. -/
def leave (clean : Bool) (s : Session) : Except PyExc Unit × Session :=
  match s.activeTransaction with
  | none => (.ok (), s)
  | some t => (if clean then .error leakedTransaction else .ok (), (s.exit rt cp cfg env t false).2)

/-- `Database._write`. -/
def write (mutator : Op PyVal) (s : Session) : Except PyExc PyVal × Session :=
  match s.activeTransaction with
  | some _ => (.error transactionOpen, s)
  | none =>
    let (r, w) := (update rt cp cfg mutator).run env s.world
    (r, { s with world := w })

/-- `Database.init`. -/
def init (force : Bool) (s : Session) : Except PyExc Unit × Session :=
  let (r, w) := (createEmpty rt cp cfg force).run env s.world
  (r, { s with world := w })

/-- `Database._read_state`. -/
def readState (s : Session) : Except PyExc State :=
  match s.activeTransaction with
  | some t => do
    let state ← (s.txs t).stateRef
    copyDict cp (.dict state)
  | none => ((engineLoad rt cfg).run env s.world).1

/-- A read of the database: a function of a copy of the state. -/
def read {α : Type} (f : State → Except PyExc α) (s : Session) : Except PyExc α := do
  let state ← s.readState rt cp cfg env
  f state

/-- An operation of a transaction, on its state. -/
def operate (t : Nat) (op : Op PyVal) (s : Session) : Except PyExc PyVal × Session :=
  match (s.txs t).stateRef with
  | .error e => (.error e, s)
  | .ok state =>
    match op.run state with
    | .ok r state' => (.ok r, s.setTx t { s.txs t with state := some state' })
    | .error e state' => (.error e, s.setTx t { s.txs t with state := some state' })

end Session

/-- A call of a method that changes something. -/
inductive Call where
  | enter (t : Nat)
  | exit (t : Nat) (clean : Bool)
  | leave (clean : Bool)
  | write (mutator : Op PyVal)
  | init (force : Bool)
  | operate (t : Nat) (op : Op PyVal)

section Calls

variable (rt : Runtime) (cp : Copier)

/-- The session after a call. -/
def Session.after (cfg : Settings) (env : Env) (s : Session) : Call → Session
  | .enter t => (s.enter rt cp cfg env t).2
  | .exit t clean => (s.exit rt cp cfg env t clean).2
  | .leave clean => (s.leave rt cp cfg env clean).2
  | .write mutator => (s.write rt cp cfg env mutator).2
  | .init force => (s.init rt cp cfg env force).2
  | .operate t op => (s.operate t op).2

/-- What other processes may leave: any file, and any holder of the lock, except that they neither
    release a lock file of the session nor give it the lock. -/
structure Session.Yields (s : Session) (w : World) : Prop where
  own : ∀ t h, (s.txs t).lock = some h → (w.lock = some h ↔ s.world.lock = some h)
  handles : s.world.handles ≤ w.handles

/-- The sessions that `allowed` calls lead to, whatever the system calls answer. -/
inductive Reaches (allowed : Session → Call → Prop) (s₀ : Session) : Session → Prop
  | start : Reaches allowed s₀ s₀
  | call {s : Session} (cfg : Settings) (env : Env) (c : Call) : Reaches allowed s₀ s →
      allowed s c → Reaches allowed s₀ (s.after rt cp cfg env c)
  | others {s : Session} {w : World} : Reaches allowed s₀ s → s.Yields w →
      Reaches allowed s₀ { s with world := w }

end Calls

/-! ## 3. The three agree -/

/-- A transaction is active iff the database points to it, and iff it holds the lock. -/
structure Session.Agrees (s : Session) : Prop where
  pointer : ∀ t, (s.txs t).active = true ↔ s.activeTransaction = some t
  lock : ∀ t, (s.txs t).active = true ↔ s.Holds t

/-- The invariant: no transaction is running, or one is, with its lock file holding the lock. -/
inductive Session.Inv : Session → Prop
  | idle {w : World} {txs : Nat → Tx} (h : ∀ t, (txs t).active = false ∧ (txs t).lock = none) :
      Inv ⟨w, txs, none⟩
  | running {w : World} {txs : Nat → Tx} {t : Nat} {state : State} {handle : Nat}
      (htx : txs t = ⟨true, some state, some handle⟩)
      (h : ∀ t', t' ≠ t → (txs t').active = false ∧ (txs t').lock = none)
      (hlock : w.lock = some handle) (hhandle : handle < w.handles) : Inv ⟨w, txs, some t⟩

namespace Session

variable {rt : Runtime} {cp : Copier} {cfg : Settings} {env : Env} {s : Session}

theorem Inv.agrees (h : s.Inv) : s.Agrees := by
  cases h with
  | idle h =>
    refine ⟨fun t => ?_, fun t => ?_⟩
    · exact iff_of_false (by rw [(h t).1]; exact Bool.false_ne_true) nofun
    · refine iff_of_false (by rw [(h t).1]; exact Bool.false_ne_true) fun hh => ?_
      obtain ⟨handle, hl, -⟩ := hh
      cases (h t).2.symm.trans hl
  | @running w txs t state handle htx h hlock hhandle =>
    have hone : ∀ t', ((txs t').active = true ↔ t' = t) := by
      intro t'
      by_cases ht : t' = t
      · exact iff_of_true (by rw [ht, htx]) ht
      · exact iff_of_false (by rw [(h t' ht).1]; exact Bool.false_ne_true) ht
    refine ⟨fun t' => (hone t').trans ⟨fun e => e ▸ rfl, fun e => (Option.some.inj e).symm⟩,
      fun t' => (hone t').trans ⟨?_, ?_⟩⟩
    · rintro rfl
      exact ⟨handle, congrArg Tx.lock htx, hlock⟩
    · intro hh
      obtain ⟨handle', hl, -⟩ := hh
      by_contra ht
      cases (h t' ht).2.symm.trans hl

theorem start_inv (w : World) : (start w).Inv := .idle fun _ => ⟨rfl, rfl⟩

/-- Setting one transaction to an idle one, when the others are idle. -/
theorem setTx_idle {t : Nat} {tx : Tx} (htx : tx.active = false ∧ tx.lock = none)
    (h : ∀ t', t' ≠ t → (s.txs t').active = false ∧ (s.txs t').lock = none) (t' : Nat) :
    ((s.setTx t tx).txs t').active = false ∧ ((s.setTx t tx).txs t').lock = none := by
  by_cases ht : t' = t
  · rw [ht, setTx_self]
    exact htx
  · rw [setTx_ne s tx ht]
    exact h t' ht

theorem enter_inv (h : s.Inv) (t : Nat) : (s.enter rt cp cfg env t).2.Inv := by
  cases h with
  | running htx h hlock hhandle => exact .running htx h hlock hhandle
  | @idle w txs h =>
    unfold enter
    simp only
    cases hrun : (enterTransaction rt cp cfg (txs t).lock).run env w with
    | mk r w' =>
      cases r with
      | ok x =>
        obtain ⟨handle, state⟩ := x
        obtain ⟨hl, -, hh⟩ := enterTransaction_ok hrun
        refine .running (setTx_self _ t _) (fun t' ht => ?_) hl hh
        rw [setTx_ne _ _ ht]
        exact h t'
      | error e => exact .idle (setTx_idle ⟨(h t).1, rfl⟩ fun t' _ => h t')

theorem exit_eq {t : Nat} {clean : Bool} {r : Except PyExc Unit} {w' : World}
    (h : (exitTransaction rt cp cfg (s.txs t).lock clean (s.txs t).stateRef).run env s.world = (r, w')) :
    s.exit rt cp cfg env t clean = (r, ⟨w', (s.setTx t .fresh).txs, none⟩) := by
  unfold exit
  simp only
  rw [h]

/-- An exit of the running transaction, or of any one when none is running. -/
theorem exit_inv (h : s.Inv) {t : Nat} (ht : s.activeTransaction = none ∨ s.activeTransaction = some t)
    (clean : Bool) : (s.exit rt cp cfg env t clean).2.Inv := by
  refine .idle (setTx_idle ⟨rfl, rfl⟩ fun t' hne => ?_)
  cases h with
  | idle h => exact h t'
  | running htx h hlock hhandle =>
    rcases ht with ht | ht
    · cases ht
    · cases ht
      exact h t' hne

theorem leave_inv (h : s.Inv) (clean : Bool) : (s.leave rt cp cfg env clean).2.Inv := by
  unfold leave
  cases ha : s.activeTransaction with
  | none => exact h
  | some t => exact exit_inv h (Or.inr ha) false

theorem write_inv (h : s.Inv) (mutator : Op PyVal) : (s.write rt cp cfg env mutator).2.Inv := by
  cases h with
  | running htx h hlock hhandle => exact .running htx h hlock hhandle
  | idle h => exact .idle h

/-- Taking the lock that the running transaction holds fails, and leaves it. -/
theorem init_inv (h : s.Inv) (force : Bool) : (s.init rt cp cfg env force).2.Inv := by
  cases h with
  | idle h => exact .idle h
  | @running w txs t state handle htx h hlock hhandle =>
    have hheld : ¬ env.acquires cfg w := fun ha => by
      cases ha.2.2.2.1.symm.trans hlock
    obtain ⟨e, w', hrun, -, hf⟩ := (@createEmpty_attempt env rt cp cfg force w).failed fun hn =>
      hheld hn.1
    refine .running htx h ?_ ?_
    · show ((createEmpty rt cp cfg force).run env w).2.lock = some handle
      rw [hrun]
      exact hf.keeps handle hlock hhandle nofun
    · show handle < ((createEmpty rt cp cfg force).run env w).2.handles
      rw [hrun]
      exact hhandle.trans_le hf.handles

theorem operate_inactive {t : Nat} (h : (s.txs t).active = false) (op : Op PyVal) :
    s.operate t op = (.error notActive, s) := by
  unfold operate
  rw [Tx.stateRef_inactive h]

theorem operate_active {t : Nat} {tx : Tx} {state : State} (h : tx.stateRef = .ok state)
    (htx : s.txs t = tx) (op : Op PyVal) :
    ∃ r state', s.operate t op = (r, s.setTx t { tx with state := some state' }) := by
  unfold operate
  rw [htx, h]
  simp only
  cases EStateM.run op state with
  | ok r state' => exact ⟨.ok r, state', rfl⟩
  | error e state' => exact ⟨.error e, state', rfl⟩

theorem operate_inv (h : s.Inv) (t : Nat) (op : Op PyVal) : (s.operate t op).2.Inv := by
  cases h with
  | idle h =>
    rw [operate_inactive (h t).1]
    exact .idle h
  | @running w txs t' state handle htx h hlock hhandle =>
    by_cases ht : t = t'
    · subst ht
      obtain ⟨r, state', hop⟩ := @operate_active ⟨w, txs, some t⟩ t _ state rfl htx op
      rw [hop]
      refine .running (setTx_self _ t _) (fun t' ht => ?_) hlock hhandle
      have hne := setTx_ne ⟨w, txs, some t⟩ ⟨true, some state', some handle⟩ ht
      exact ⟨(congrArg Tx.active hne).trans (h t' ht).1, (congrArg Tx.lock hne).trans (h t' ht).2⟩
    · rw [operate_inactive (h t ht).1]
      exact .running htx h hlock hhandle

theorem others_inv (h : s.Inv) {w : World} (hw : s.Yields w) : Inv { s with world := w } := by
  cases h with
  | idle h => exact .idle h
  | running htx h hlock hhandle =>
    exact .running htx h ((hw.own _ _ (congrArg Tx.lock htx)).mpr hlock)
      (hhandle.trans_le hw.handles)

/-- `__exit__` is called on the running transaction only, or when none is running. -/
def OwnExit (s : Session) : Call → Prop
  | .exit t _ => s.activeTransaction = none ∨ s.activeTransaction = some t
  | _ => True

theorem after_inv (h : s.Inv) {c : Call} (hc : s.OwnExit c) : (s.after rt cp cfg env c).Inv := by
  cases c with
  | enter t => exact enter_inv h t
  | exit t clean => exact exit_inv h hc clean
  | leave clean => exact leave_inv h clean
  | write mutator => exact write_inv h mutator
  | init force => exact init_inv h force
  | operate t op => exact operate_inv h t op

/-- The condition is exact: an exit of another transaction than the running one breaks it. -/
theorem exit_agrees_iff (h : s.Inv) (t : Nat) (clean : Bool) :
    (s.exit rt cp cfg env t clean).2.Agrees ↔
      s.activeTransaction = none ∨ s.activeTransaction = some t := by
  refine ⟨fun ha => ?_, fun ht => (exit_inv h ht clean).agrees⟩
  cases hp : s.activeTransaction with
  | none => exact Or.inl rfl
  | some t' =>
    refine Or.inr (congrArg some ?_)
    by_contra hne
    have hactive : ((s.exit rt cp cfg env t clean).2.txs t').active = true := by
      show ((s.setTx t .fresh).txs t').active = true
      rw [setTx_ne s .fresh hne]
      exact (h.agrees.pointer t').mpr hp
    exact nomatch (ha.pointer t').mp hactive

end Session

theorem reaches_inv {rt : Runtime} {cp : Copier} {w : World} {s : Session}
    (h : Reaches rt cp Session.OwnExit (.start w) s) : s.Inv := by
  induction h with
  | start => exact Session.start_inv w
  | call cfg env c _ hc ih => exact Session.after_inv ih hc
  | others _ hw ih => exact Session.others_inv ih hw

/-! ## 4. What follows while a transaction is running -/

/-- Leaving the database rolls back: the file stays, the lock is free, nothing is running. -/
structure Session.RolledBack (s s' : Session) : Prop where
  file : s'.world.file = s.world.file
  lock : s'.world.lock = none
  pointer : s'.activeTransaction = none
  txs : ∀ t, (s'.txs t).active = false ∧ (s'.txs t).lock = none

theorem Session.leave_rolledBack {rt : Runtime} {cp : Copier} {cfg : Settings} {env : Env} {s : Session}
    {t : Nat} (h : s.Inv) (ht : s.activeTransaction = some t) (clean : Bool) :
    s.RolledBack (s.leave rt cp cfg env clean).2 := by
  have hinv : (s.leave rt cp cfg env clean).2.Inv := leave_inv h clean
  have hs' : (s.leave rt cp cfg env clean).2 = (s.exit rt cp cfg env t false).2 := by
    unfold leave
    rw [ht]
  rw [hs'] at hinv ⊢
  cases h with
  | idle h => cases ht
  | @running w txs t' state handle htx h hlock hhandle =>
    cases ht
    obtain ⟨r, w', hrun, hfile, hf⟩ := @rollback_run env rt cp cfg (txs t).lock (txs t).stateRef w
    rw [exit_eq hrun] at hinv ⊢
    rw [htx] at hf
    refine ⟨hfile, ?_, rfl, ?_⟩
    · cases hl : w'.lock with
      | none => rfl
      | some h' =>
        obtain ⟨hw, hne⟩ := hf.lock h' hl
        exact absurd (hlock.symm.trans hw) hne
    · cases hinv with
      | idle h => exact h

/-- **The life of a transaction.** As long as `__exit__` is called on the running transaction only,
    a transaction is active iff the database points to it, and iff it holds the lock. While one is
    active a write of the database raises `TransactionError` and does nothing, a read works on a
    copy of its state, and leaving the database rolls it back. -/
theorem lifecycle {rt : Runtime} {cp : Copier} {w : World} {s : Session}
    (h : Reaches rt cp Session.OwnExit (.start w) s) : s.Agrees ∧
      ∀ t, (s.txs t).active = true → ∃ state, (s.txs t).stateRef = .ok state ∧
        (∀ cfg env mutator, ∃ e, e.type = .transactionError ∧
          s.write rt cp cfg env mutator = (.error e, s)) ∧
        (∀ cp' cfg env, s.readState rt cp' cfg env = copyDict cp' (.dict state)) ∧
        (∀ cfg env clean, s.RolledBack (s.leave rt cp cfg env clean).2) := by
  have hinv := reaches_inv h
  refine ⟨hinv.agrees, fun t ht => ?_⟩
  have hp := (hinv.agrees.pointer t).mp ht
  have hleave (cfg : Settings) (env : Env) := @Session.leave_rolledBack rt cp cfg env s t hinv hp
  cases hinv with
  | idle h => cases hp
  | @running w txs t' state handle htx h hlock hhandle =>
    cases hp
    have hstate : (txs t).stateRef = .ok state := by
      rw [htx]
      rfl
    refine ⟨state, hstate, fun cfg env mutator => ⟨_, rfl, rfl⟩, fun cp' cfg env => ?_, hleave⟩
    unfold Session.readState
    simp only
    rw [hstate]
    rfl

/-- Two transactions of a database without a file; the first one was entered. -/
def enteredSession : Session :=
  Session.after interpreter .total posix quietSystem (.start ⟨none, none, 0⟩) (.enter 0)

/-- It has inserted a document, -/
def insertedSession : Session := Session.after interpreter .total posix quietSystem enteredSession
  (.operate 0 ((insertName (lit "Ava")).run interpreter .total))

/-- it has ended, -/
def committedSession : Session :=
  Session.after interpreter .total posix quietSystem insertedSession (.exit 0 true)

/-- and the second one was entered. -/
def nextSession : Session :=
  Session.after interpreter .total posix quietSystem committedSession (.enter 1)

set_option maxRecDepth 20000 in
theorem insertedSession_pointer : insertedSession.activeTransaction = some 0 := by decide +kernel

set_option maxRecDepth 20000 in
/-- The second of two transactions: the first has written the file and given the lock up, and the
    second has the lock, refuses writes, is read, and is rolled back on leaving. -/
theorem lifecycle_next : ∃ s state,
    Reaches interpreter .total Session.OwnExit (.start ⟨none, none, 0⟩) s ∧
    s.world.file.isSome = true ∧ s.activeTransaction = some 1 ∧ s.Holds 1 ∧ (s.txs 0).active = false ∧
    ¬ s.Holds 0 ∧
    (∃ e, e.type = .transactionError ∧ s.write interpreter .total posix quietSystem
      ((insertName (lit "Bo")).run interpreter .total) = (.error e, s)) ∧
    s.readState interpreter .total posix quietSystem = copyDict .total (.dict state) ∧
    s.RolledBack (s.leave interpreter .total posix quietSystem false).2 := by
  have h : Reaches interpreter .total Session.OwnExit (.start ⟨none, none, 0⟩) nextSession :=
    .call posix quietSystem (.enter 1) (.call posix quietSystem (.exit 0 true)
      (.call posix quietSystem (.operate 0 _) (.call posix quietSystem (.enter 0) .start trivial)
        trivial)
      (Or.inr insertedSession_pointer)) trivial
  have hnow : nextSession.world.file.isSome = true ∧ (nextSession.txs 1).active = true ∧
      (nextSession.txs 0).active = false := by decide +kernel
  obtain ⟨hfile, hactive, hended⟩ := hnow
  obtain ⟨hagrees, hrunning⟩ := lifecycle h
  obtain ⟨state, -, hwrite, hread, hleave⟩ := hrunning 1 hactive
  refine ⟨nextSession, state, h, hfile, (hagrees.pointer 1).mp hactive,
    (hagrees.lock 1).mp hactive, hended, fun hh => ?_, hwrite posix quietSystem _,
    hread .total posix quietSystem, hleave posix quietSystem false⟩
  cases hended.symm.trans ((hagrees.lock 0).mpr hh)

set_option maxRecDepth 20000 in
/-- **Without the condition it fails**: `__exit__` of a transaction that was never entered clears
    the back pointer while another one is active and holds the lock. -/
theorem foreign_exit_clears_pointer : ∃ s, Reaches interpreter .total (fun _ _ => True)
    (.start ⟨none, none, 0⟩) s ∧ (s.txs 0).active = true ∧ s.Holds 0 ∧
      s.activeTransaction = none := by
  refine ⟨enteredSession.after interpreter .total posix quietSystem (.exit 1 false),
    .call posix quietSystem (.exit 1 false) (.call posix quietSystem (.enter 0) .start trivial) trivial,
    by decide +kernel, ⟨0, by decide +kernel, by decide +kernel⟩, rfl⟩

end JsonDatabase
