/-
  File:      JsonDatabase/LockBudget.lean
  Subject:   How long `FileLock.acquire` waits: the loop with its clock.

  FileLock.lean has the loop with the number of attempts given. Here it has what the source has: a
  deadline, a clock that is read after every failed attempt, and a sleep. Nothing in the loop counts;
  it ends because the two numbers the constructor has accepted are positive and a sleep takes its
  time.

  * `validateLockTimeout`, `validateLockPollInterval` -- the validators; `LockTimes` -- the numbers of
    an object;
  * `acquireUntil` -- `acquire` with the clock; `exists_retries` says that it is
    `FileLock.acquire`, with as many attempts as the clock leaves;
  * `Watch` -- what is known during an `acquire`: the handles, the time and the attempts;
  * `acquire_in_time` -- the budget.
-/
import JsonDatabase.Collection
import JsonDatabase.FileLock
import Mathlib.Algebra.Order.Floor.Semiring
import Mathlib.Data.Rat.Floor
import Mathlib.Tactic.Linarith

namespace JsonDatabase

open PyVal hiding none
open Interaction

/-! ## 1. The validators -/

/-- `math.isfinite` of a number. An `int` that is no `float` raises: from half a unit above the
    largest one it would be rounded up. -/
def mathIsFinite : PyVal → Except PyExc Bool
  | .int i =>
    if 2 ^ 1024 - 2 ^ 970 ≤ i.natAbs then .error (.builtin .overflowError) else .ok true
  | .float (.finite _) => .ok true
  | .float _ => .ok false
  | _ => .ok true

/-- `isinstance(_, (int, float))`. -/
def isIntOrFloat : PyVal → Bool
  | .bool _ | .int _ | .float _ => true
  | _ => false

/-- `_ <= 0`. -/
def notPositive (v : PyVal) : Bool :=
  match v.num with
  | some n => n.compare .le (.rat 0)
  | none => false

/-- Either validator; `message` is its own. -/
def validateLockNumber (message : String) (v : PyVal) : Except PyExc Unit :=
  if isIntOrFloat v then do
    let finite ← mathIsFinite v
    raiseIf (!finite || notPositive v) (validationError message)
  else .error (validationError message)

def validateLockTimeout : PyVal → Except PyExc Unit :=
  validateLockNumber "lock timeout must be a positive finite number"

def validateLockPollInterval : PyVal → Except PyExc Unit :=
  validateLockNumber "lock poll_interval must be a positive finite number"

/-- What is accepted is a positive rational. -/
theorem validateLockNumber_pos {message : String} {v : PyVal}
    (h : validateLockNumber message v = .ok ()) : ∃ q : ℚ, 0 < q ∧ v.num = some (.rat q) := by
  have hpos {q : ℚ} (hv : v.num = some (.rat q)) (hn : notPositive v = false) : 0 < q := by
    unfold notPositive at hn
    rw [hv] at hn
    exact not_le.mp (of_decide_eq_false hn)
  unfold validateLockNumber at h
  cases v with
  | bool b =>
    exact ⟨_, hpos rfl (raiseIf_ok.mp h), rfl⟩
  | int i =>
    by_cases hi : 2 ^ 1024 - 2 ^ 970 ≤ i.natAbs
    · simp only [isIntOrFloat, mathIsFinite, if_pos hi] at h
      cases h
    · simp only [isIntOrFloat, mathIsFinite, if_neg hi] at h
      exact ⟨_, hpos rfl (raiseIf_ok.mp h), rfl⟩
  | float f =>
    cases f with
    | finite x => exact ⟨_, hpos rfl (raiseIf_ok.mp h), rfl⟩
    | inf neg | nan => cases h
  | _ => cases h

/-- `self.timeout` and `self.poll_interval`: `__init__` has accepted both. -/
structure LockTimes where
  timeout : PyVal
  pollInterval : PyVal
  timeout_ok : validateLockTimeout timeout = .ok ()
  pollInterval_ok : validateLockPollInterval pollInterval = .ok ()

namespace LockTimes

/-- The number of seconds that a value stands for. -/
def seconds (v : PyVal) : ℚ :=
  match v.num with
  | some (.rat q) => q
  | _ => 0

variable (times : LockTimes)

/-- How often an `acquire` tries at most. -/
def budget : Nat := ⌊seconds times.timeout / seconds times.pollInterval⌋₊ + 2

variable {times}

theorem seconds_pos {message : String} {v : PyVal} (h : validateLockNumber message v = .ok ()) :
    0 < seconds v := by
  obtain ⟨q, hq, hv⟩ := validateLockNumber_pos h
  unfold seconds
  rw [hv]
  exact hq

theorem pollInterval_pos : 0 < seconds times.pollInterval := seconds_pos times.pollInterval_ok

/-- So many polls fit into the timeout. -/
theorem lt_budget {k : Nat} (h : k * seconds times.pollInterval < seconds times.timeout) :
    k + 1 < times.budget := by
  have hk : (k : ℚ) < seconds times.timeout / seconds times.pollInterval :=
    (lt_div_iff₀ times.pollInterval_pos).mpr h
  exact Nat.succ_lt_succ (Nat.lt_succ_of_le (Nat.le_floor hk.le))

end LockTimes

/-! ## 2. Programs that read a clock -/

/-- A system call, or one of the two uses of `time`. -/
inductive TimedCall where
  | sys (c : Syscall)
  /-- `time.monotonic()`. -/
  | monotonic
  /-- `time.sleep(_)`. -/
  | sleep (seconds : ℚ)

@[reducible] def TimedCall.Reply : TimedCall → Type
  | .sys c => c.Reply
  | .monotonic => ℚ
  | .sleep _ => Unit

abbrev TimedProg := Interaction PyExc TimedCall TimedCall.Reply

def timedSys (c : Syscall) : TimedProg c.Reply := ask (TimedCall.sys c)

def timeMonotonic : TimedProg ℚ := ask TimedCall.monotonic

def timeSleep (seconds : ℚ) : TimedProg Unit := ask (TimedCall.sleep seconds)

/-! ## 3. `acquire` -/

namespace FileLock

/-- How a method ended and the object after it; `none` if it was still waiting when the fuel was
    used up. -/
abbrev TimedMethod := TimedProg (Option (Except PyExc Unit × FileLock))

/-- A method that reads no clock. -/
def timed : Method → TimedMethod
  | .done (.ok out) => .done (.ok (some out))
  | .done (.error e) => .done (.error e)
  | .call c k => .call (.sys c) fun r => timed (k r)

/-- The `while True` of `acquire`, `fuel` times at most. -/
def poll (times : LockTimes) (deadline : ℚ) (self : FileLock) (handle : Nat) :
    Nat → Nat → TimedMethod
  | 0, _ => .done (.ok none)
  | fuel + 1, attempt => (timedSys (.tryLock handle attempt)).follow fun
    | .ok _ => timed (ends (.ok ()) { self with locked := true })
    | .error e =>
      if e.type.isOSError then timeMonotonic.follow fun
        | .error e => timed (ends (.error e) self)
        | .ok now =>
          if deadline ≤ now then timed (closeFile self handle (.error lockTimeout))
          else (timeSleep (LockTimes.seconds times.pollInterval)).follow fun
            | .error e => timed (ends (.error e) self)
            | .ok _ => poll times deadline self handle fuel (attempt + 1)
      else timed (ends (.error e) self)

/-- The deadline and the loop. -/
def pollUntil (times : LockTimes) (fuel : Nat) (self : FileLock) (handle : Nat) : TimedMethod :=
  timeMonotonic.follow fun
    | .error e => timed (ends (.error e) self)
    | .ok (now : ℚ) => poll times (now + LockTimes.seconds times.timeout) self handle fuel 0

/-- `_ensure_lock_byte`, the deadline and the loop. -/
def prepareUntil (nt : Bool) (times : LockTimes) (fuel : Nat) (self : FileLock) (handle : Nat) :
    TimedMethod :=
  if nt then
    (timedSys (.side (.writeLockByte handle))).follow fun
      | .ok _ => pollUntil times fuel self handle
      | .error e =>
        if e.type.isOSError then timed (closeFile self handle (.error prepareFailed))
        else timed (ends (.error e) self)
  else pollUntil times fuel self handle

/-- `acquire`. -/
def acquireUntil (nt : Bool) (times : LockTimes) (fuel : Nat) (self : FileLock) : TimedMethod :=
  (timedSys (.side .makeLockDir)).follow fun
    | .error e => timed (ends (.error e) self)
    | .ok _ => (timedSys .openLock).follow fun
      | .error e => timed (ends (.error e) self)
      | .ok (handle : Nat) =>
        (match self.file with
          | some old => quietly (timedSys (.closeLock old))
          | none => pure ()).follow fun _ =>
            prepareUntil nt times fuel { self with file := some handle } handle

/-! ## 4. The clock replayed -/

/-- The readings of the clock are `clock n`, `clock (n + 1)`, and so on; no call of `time` raises. -/
def replay (clock : Nat → ℚ) : Nat → TimedMethod → Prog (Option (Except PyExc Unit × FileLock))
  | _, .done r => .done r
  | n, .call (.sys c) k => .call c fun r => replay clock n (k r)
  | n, .call .monotonic k => replay clock (n + 1) (k (.ok (clock n)))
  | n, .call (.sleep _) k => replay clock n (k (.ok ()))

/-- A method, with the outcome of one that has ended. -/
def ended (p : Method) : Prog (Option (Except PyExc Unit × FileLock)) := p >>= fun out => pure (some out)

section Replay

variable {clock : Nat → ℚ} {times : LockTimes} {deadline : ℚ} {self : FileLock} {handle n : Nat}

theorem replay_timed (p : Method) : replay clock n (timed p) = ended p := by
  induction p with
  | done r => cases r <;> rfl
  | call c k ih => exact call_congr ih

theorem replay_ite {c : Prop} [Decidable c] (p q : TimedMethod) :
    replay clock n (if c then p else q) = if c then replay clock n p else replay clock n q := by
  by_cases h : c
  · rw [if_pos h, if_pos h]
  · rw [if_neg h, if_neg h]

theorem ended_ite {c : Prop} [Decidable c] (p q : Method) :
    ended (if c then p else q) = if c then ended p else ended q := by
  by_cases h : c
  · rw [if_pos h, if_pos h]
  · rw [if_neg h, if_neg h]

/-- The clock is before the deadline `left` times. -/
theorem replay_poll : ∀ left {fuel n} attempt, left < fuel →
    (∀ k < left, clock (n + k) < deadline) → deadline ≤ clock (n + left) →
    replay clock n (poll times deadline self handle fuel attempt) =
      ended (loop self handle left attempt) := by
  intro left
  induction left with
  | zero =>
    intro fuel n attempt hfuel _ hafter
    obtain ⟨fuel, rfl⟩ := Nat.exists_eq_succ_of_ne_zero (Nat.ne_of_gt hfuel)
    refine call_congr fun r => ?_
    cases r with
    | ok a => rfl
    | error e =>
      refine (replay_ite _ _).trans ((ended_ite _ _).trans ?_).symm
      by_cases he : e.type.isOSError = true
      · rw [if_pos he, if_pos he]
        show _ = replay clock (n + 1) (if deadline ≤ clock n then _ else _)
        rw [if_pos (show deadline ≤ clock n from hafter)]
        exact (replay_timed _).symm
      · rw [if_neg he, if_neg he]
        exact (replay_timed _).symm
  | succ left ih =>
    intro fuel n attempt hfuel hbefore hafter
    obtain ⟨fuel, rfl⟩ := Nat.exists_eq_succ_of_ne_zero (Nat.ne_of_gt (Nat.zero_lt_of_lt hfuel))
    refine call_congr fun r => ?_
    cases r with
    | ok a => rfl
    | error e =>
      refine (replay_ite _ _).trans ((ended_ite _ _).trans ?_).symm
      by_cases he : e.type.isOSError = true
      · rw [if_pos he, if_pos he]
        have hlt : clock n < deadline := hbefore 0 (Nat.succ_pos left)
        show _ = replay clock (n + 1) (if deadline ≤ clock n then _ else _)
        rw [if_neg (not_le.mpr hlt)]
        refine (ih (attempt + 1) (Nat.lt_of_succ_lt_succ hfuel) (fun k hk => ?_) ?_).symm
        · rw [Nat.add_right_comm]
          exact hbefore (k + 1) (Nat.succ_lt_succ hk)
        · rw [Nat.add_right_comm]
          exact hafter
      · rw [if_neg he, if_neg he]
        exact (replay_timed _).symm

variable {nt : Bool} {fuel retries : Nat}

/-- `retries` readings after the first are before the deadline, and the next is not. -/
def Leaves (clock : Nat → ℚ) (timeout : ℚ) (retries : Nat) : Prop :=
  (∀ k < retries, clock (k + 1) < clock 0 + timeout) ∧ clock 0 + timeout ≤ clock (retries + 1)

theorem replay_pollUntil (h : Leaves clock (LockTimes.seconds times.timeout) retries)
    (hfuel : retries < fuel) :
    replay clock 0 (pollUntil times fuel self handle) = ended (loop self handle retries 0) := by
  refine replay_poll retries 0 hfuel (fun k hk => ?_) ?_
  · rw [Nat.add_comm]
    exact h.1 k hk
  · rw [Nat.add_comm]
    exact h.2

theorem replay_prepareUntil (h : Leaves clock (LockTimes.seconds times.timeout) retries)
    (hfuel : retries < fuel) :
    replay clock 0 (prepareUntil nt times fuel self handle) =
      ended (prepare ⟨nt, retries⟩ self handle) := by
  refine (replay_ite _ _).trans ((ended_ite _ _).trans ?_).symm
  cases nt with
  | false => exact (replay_pollUntil h hfuel).symm
  | true =>
    refine call_congr fun r => ?_
    cases r with
    | ok u => exact (replay_pollUntil h hfuel).symm
    | error e =>
      refine (ended_ite _ _).trans ((replay_ite _ _).trans ?_).symm
      rw [replay_timed, replay_timed]

/-- **`acquire` with a clock** is `acquire` with the attempts that the clock leaves. -/
theorem acquireUntil_replay (h : Leaves clock (LockTimes.seconds times.timeout) retries)
    (hfuel : retries < fuel) :
    replay clock 0 (acquireUntil nt times fuel self) = ended (acquire ⟨nt, retries⟩ self) := by
  refine call_congr fun r => ?_
  cases r with
  | error e => rfl
  | ok u =>
    refine call_congr fun r => ?_
    cases r with
    | error e => rfl
    | ok handle =>
      obtain ⟨file, locked⟩ := self
      cases file with
      | none => exact replay_prepareUntil h hfuel
      | some old => exact call_congr fun _ => replay_prepareUntil h hfuel

/-- A clock that goes on, and by a poll interval in every sleep, leaves less than the budget. -/
theorem exists_leaves (h₀ : clock 0 ≤ clock 1)
    (hsleep : ∀ k, clock (k + 1) + LockTimes.seconds times.pollInterval ≤ clock (k + 2)) :
    ∃ retries < times.budget, Leaves clock (LockTimes.seconds times.timeout) retries := by
  have hslept (k : Nat) : clock 0 + k * LockTimes.seconds times.pollInterval ≤ clock (k + 1) := by
    induction k with
    | zero => simpa using h₀
    | succ k ih =>
      have := hsleep k
      push_cast
      linarith
  have hend (k : Nat) (hk : clock (k + 1) < clock 0 + LockTimes.seconds times.timeout) :
      k + 1 < times.budget := by
    refine LockTimes.lt_budget ?_
    linarith [hslept k]
  have hover : ∃ k, clock 0 + LockTimes.seconds times.timeout ≤ clock (k + 1) :=
    ⟨times.budget, not_lt.mp fun hlt => Nat.not_succ_lt_self (hend _ hlt)⟩
  refine ⟨Nat.find hover, ?_, fun k hk => not_le.mp (Nat.find_min hover hk), Nat.find_spec hover⟩
  cases hk : Nat.find hover with
  | zero => exact Nat.succ_pos _
  | succ k =>
    exact hend k (not_le.mp (Nat.find_min hover (hk ▸ Nat.lt_succ_self k)))

/-- **On every such clock** the fuel of the budget is enough, and `acquire` is one of those with the
    number of attempts given. -/
theorem exists_retries (nt : Bool) (times : LockTimes) (self : FileLock) (h₀ : clock 0 ≤ clock 1)
    (hsleep : ∀ k, clock (k + 1) + LockTimes.seconds times.pollInterval ≤ clock (k + 2)) :
    ∃ retries < times.budget,
      replay clock 0 (acquireUntil nt times times.budget self) = ended (acquire ⟨nt, retries⟩ self) := by
  obtain ⟨retries, hlt, h⟩ := exists_leaves h₀ hsleep
  exact ⟨retries, hlt, acquireUntil_replay h hlt⟩

end Replay

end FileLock

/-! ## 5. What is known during an `acquire` -/

/-- The exception, if there was one. -/
def exception {α : Type} : Except PyExc α → Option PyExc
  | .ok _ => none
  | .error e => some e

/-- `_try_lock`. -/
def Syscall.isAttempt : Syscall → Bool
  | .tryLock _ _ => true
  | _ => false

/-- The handles of the object, the time, and the attempts it has made. -/
structure Watch where
  handles : Handles
  clock : ℚ
  attempts : Nat
  /-- What the last call raised. -/
  failed : Option PyExc

namespace Watch

/-- After a reply; `t` is the time. -/
def next (w : Watch) (t : ℚ) : (c : TimedCall) → Except PyExc c.Reply → Watch
  | .sys c, r =>
    ⟨w.handles.next c r, t, if c.isAttempt then w.attempts + 1 else w.attempts, exception r⟩
  | .monotonic, r => ⟨w.handles, t, w.attempts, exception r⟩
  | .sleep _, r => ⟨w.handles, t, w.attempts, exception r⟩

def Permits (w : Watch) : TimedCall → Prop
  | .sys c => w.handles.Permits c
  | _ => True

/-- The clock is monotonic, and a sleep takes its time at least. -/
def Passes (w : Watch) (t : ℚ) : (c : TimedCall) → Except PyExc c.Reply → Prop
  | .monotonic, .ok (now : ℚ) => now = t ∧ w.clock ≤ t
  | .sleep seconds, .ok _ => w.clock + seconds ≤ t
  | _, _ => w.clock ≤ t

/-- A reply, where the other processes leave the lock free at the attempts that `free` says: only
    there the attempt returns. The system does not raise `LockError`. -/
def Next (free : Nat → Bool) (w : Watch) (c : TimedCall) (r : Except PyExc c.Reply) (w' : Watch) :
    Prop :=
  (∀ e, r = .error e → e.type ≠ .lockError) ∧
  (∀ handle attempt, c = .sys (.tryLock handle attempt) → r.isOk = free w.attempts) ∧
  ∃ t, w.Passes t c r ∧ w' = w.next t c r

/-- No attempt has been made, and a lock that is held is that of `_file`. -/
structure Start (object : FileLock) (w : Watch) : Prop where
  fits : w.handles.Fits object
  held : ∀ h, w.handles.held = some h → object.file = some h
  attempts : w.attempts = 0

/-- The new file is the only one that may be open, it has no lock, and every attempt found the lock
    taken. -/
structure Waits (free : Nat → Bool) (object : FileLock) (handle : Nat) (w : Watch) : Prop where
  file : object.file = some handle
  mine : handle ∈ w.handles.mine
  opens : ∀ h ∈ w.handles.opens, h = handle
  held : w.handles.held = none
  taken : ∀ k < w.attempts, free k = false

/-- The loop does not see a change of the time. -/
theorem Waits.congr {free : Nat → Bool} {object : FileLock} {handle : Nat} {w w' : Watch}
    (h : w.Waits free object handle) (hh : w'.handles = w.handles)
    (ha : w'.attempts = w.attempts) : w'.Waits free object handle := by
  refine ⟨h.file, ?_, ?_, ?_, ?_⟩
  · rw [hh]
    exact h.mine
  · rw [hh]
    exact h.opens
  · rw [hh]
    exact h.held
  · rw [ha]
    exact h.taken

/-- An attempt that found the lock taken. -/
theorem Waits.attempted {free : Nat → Bool} {object : FileLock} {handle : Nat} {w : Watch}
    (h : w.Waits free object handle) (hfree : free w.attempts = false) {t : ℚ} {attempt : Nat}
    {e : PyExc} : (w.next t (.sys (.tryLock handle attempt)) (.error e)).Waits free object handle := by
  refine ⟨h.file, h.mine, h.opens, h.held, fun k hk => ?_⟩
  rcases Nat.lt_succ_iff_lt_or_eq.mp hk with hk | rfl
  · exact h.taken k hk
  · exact hfree

end Watch

/-- How an `acquire` that began at `start` ends: within its budget; with the lock if an attempt found
    it free; with `LockError` not before the timeout, unless the file could not be prepared, and then
    with nothing open; or with what its last call raised. -/
structure InBudget (free : Nat → Bool) (nt : Bool) (timeout pollInterval : ℚ) (locked : Bool)
    (start : ℚ) (out : Except PyExc Unit) (object : FileLock) (w : Watch) : Prop where
  attempts : w.attempts ≤ ⌊timeout / pollInterval⌋₊ + 2
  returns : out = .ok () ↔ ∃ k < w.attempts, free k = true
  holds : out = .ok () → ∃ h, object = ⟨some h, true⟩ ∧ w.handles.held = some h
  patient : ∀ e, out = .error e → e.type = .lockError →
    start + timeout ≤ w.clock ∨ e = prepareFailed ∧ nt = true ∧ w.attempts = 0
  closed : ∀ e, out = .error e → e.type = .lockError →
    object = ⟨none, locked⟩ ∧ w.handles.opens = [] ∧ w.handles.held = none
  passed : ∀ e, out = .error e → e.type ≠ .lockError → w.failed = some e

/-- The method has ended, and in its budget. -/
def InBudget.Result (free : Nat → Bool) (nt : Bool) (times : LockTimes) (locked : Bool) (start : ℚ)
    (r : Except PyExc (Option (Except PyExc Unit × FileLock))) (w : Watch) : Prop :=
  ∃ out self, r = .ok (some (out, self)) ∧
    InBudget free nt (LockTimes.seconds times.timeout) (LockTimes.seconds times.pollInterval) locked
      start out self w

/-- Every call is on a handle of the object, whatever the replies. -/
abbrev OnTime (free : Nat → Bool) (p : FileLock.TimedMethod) (w : Watch)
    (Q : Except PyExc (Option (Except PyExc Unit × FileLock)) → Watch → Prop) : Prop :=
  Conforms Watch.Permits (Watch.Next free) p w Q

namespace FileLock

open Watch

variable {free : Nat → Bool} {nt : Bool} {times : LockTimes} {self : FileLock} {handle : Nat}
  {w : Watch} {start : ℚ}

/-- An exception of the system that is passed on. -/
theorem raised_onTime {locked : Bool} {e : PyExc} (hf : w.failed = some e) (he : e.type ≠ .lockError)
    (hn : w.attempts ≤ times.budget) (ht : ∀ k < w.attempts, free k = false) :
    OnTime free (timed (ends (.error e) self)) w (InBudget.Result free nt times locked start) := by
  refine ⟨.error e, self, rfl, hn, ⟨nofun, fun ⟨k, hk, hfree⟩ => ?_⟩, nofun, fun e' heq hl => ?_,
    fun e' heq hl => ?_, fun e' heq _ => ?_⟩
  · cases (ht k hk).symm.trans hfree
  · cases heq
    exact absurd hl he
  · cases heq
    exact absurd hl he
  · cases heq
    exact hf

/-- A call that is no attempt has raised. -/
theorem passed_onTime {locked : Bool} {c : TimedCall} {e : PyExc} {w' : Watch}
    (h : Watch.Next free w c (.error e) w') (hc : ∀ handle k, c ≠ .sys (.tryLock handle k))
    (hn : w.attempts ≤ times.budget) (ht : ∀ k < w.attempts, free k = false) :
    OnTime free (timed (ends (.error e) self)) w' (InBudget.Result free nt times locked start) := by
  obtain ⟨hne, -, t, -, rfl⟩ := h
  have ha : (w.next t c (.error e)).attempts = w.attempts := by
    cases c with
    | sys c =>
      cases c with
      | tryLock handle k => exact absurd rfl (hc handle k)
      | _ => rfl
    | monotonic | sleep s => rfl
  refine raised_onTime ?_ (hne e rfl) ?_ ?_
  · cases c <;> rfl
  · rw [ha]
    exact hn
  · rw [ha]
    exact ht

/-- `LockError`: the file is closed first. -/
theorem closeFile_onTime (h : w.Waits free self handle) (hn : w.attempts ≤ times.budget) {e : PyExc}
    (he : e.type = .lockError)
    (hw : start + LockTimes.seconds times.timeout ≤ w.clock ∨
      e = prepareFailed ∧ nt = true ∧ w.attempts = 0) :
    OnTime free (timed (closeFile self handle (.error e))) w
      (InBudget.Result free nt times self.locked start) := by
  refine ⟨h.mine, fun r w' hnext => ?_⟩
  cases r with
  | error e' => exact passed_onTime hnext nofun hn h.taken
  | ok u =>
    obtain ⟨-, -, t, ht, rfl⟩ := hnext
    have hle : w.clock ≤ t := ht
    refine ⟨.error e, { self with file := none }, rfl, hn, ⟨nofun, fun ⟨k, hk, hfree⟩ => ?_⟩, nofun,
      fun e' heq _ => ?_, fun e' _ _ => ⟨rfl, ?_, ?_⟩, fun e' heq hl => ?_⟩
    · cases (h.taken k hk).symm.trans hfree
    · cases heq
      exact hw.imp_left fun hw => hw.trans hle
    · refine List.filter_eq_nil_iff.mpr fun o ho => ?_
      simp [h.opens o ho]
    · show (if w.handles.held = some handle then none else w.handles.held) = none
      rw [h.held]
      rfl
    · cases heq
      exact absurd he hl

/-- An attempt that found the lock free. -/
theorem free_onTime {t : ℚ} {attempt : Nat} {u : Unit} (h : w.Waits free self handle)
    (hn : w.attempts + 1 ≤ times.budget) (hfree : free w.attempts = true) :
    OnTime free (timed (ends (.ok ()) { self with locked := true }))
      (w.next t (.sys (.tryLock handle attempt)) (.ok u))
      (InBudget.Result free nt times self.locked start) := by
  refine ⟨.ok (), { self with locked := true }, rfl, hn, ⟨fun _ => ?_, fun _ => rfl⟩,
    fun _ => ⟨handle, ?_, rfl⟩, nofun, nofun, nofun⟩
  · exact ⟨w.attempts, Nat.lt_succ_self _, hfree⟩
  · show FileLock.mk self.file true = _
    rw [h.file]

/-- The loop: after `n` failed attempts `n` sleeps are over, and the last of them began before the
    deadline. -/
theorem poll_onTime {begun : ℚ} (hb : start ≤ begun) : ∀ fuel attempt {w : Watch},
    w.Waits free self handle → times.budget ≤ fuel + w.attempts →
    begun + w.attempts * LockTimes.seconds times.pollInterval ≤ w.clock →
    (∀ k : Nat, w.attempts = k + 1 →
      k * LockTimes.seconds times.pollInterval < LockTimes.seconds times.timeout) →
    OnTime free (poll times (begun + LockTimes.seconds times.timeout) self handle fuel attempt) w
      (InBudget.Result free nt times self.locked start) := by
  intro fuel
  induction fuel with
  | zero =>
    intro attempt w h hfuel _ hlate
    -- the budget would be used up before the deadline
    cases hn : w.attempts with
    | zero =>
      rw [hn] at hfuel
      cases hfuel
    | succ k =>
      have hlt := LockTimes.lt_budget (hlate k hn)
      omega
  | succ fuel ih =>
    intro attempt w h hfuel hearly hlate
    have hbudget : w.attempts + 1 ≤ times.budget := by
      cases hn : w.attempts with
      | zero => exact Nat.succ_pos _
      | succ k => exact LockTimes.lt_budget (hlate k hn)
    refine ⟨h.mine, fun r w₁ hnext => ?_⟩
    obtain ⟨hne, hfree, t, ht, rfl⟩ := hnext
    have hfound : r.isOk = free w.attempts := hfree handle attempt rfl
    have ht : w.clock ≤ t := ht
    cases r with
    | ok u => exact free_onTime h hbudget hfound.symm
    | error e =>
      have h₁ := @Waits.attempted free self handle w h hfound.symm t attempt e
      show OnTime free (if e.type.isOSError = true then _ else _) _ _
      by_cases he : e.type.isOSError = true
      · rw [if_pos he]
        refine ⟨trivial, fun r w₂ hnext => ?_⟩
        cases r with
        | error e => exact passed_onTime hnext nofun hbudget h₁.taken
        | ok now =>
          obtain ⟨-, -, t₂, ⟨rfl, ht₂⟩, rfl⟩ := hnext
          have ht₂ : t ≤ now := ht₂
          have h₂ : ((w.next t (.sys (.tryLock handle attempt)) (.error e)).next now .monotonic
              (.ok now)).Waits free self handle := h₁.congr rfl rfl
          show OnTime free (if begun + LockTimes.seconds times.timeout ≤ now then _ else _) _ _
          by_cases hover : begun + LockTimes.seconds times.timeout ≤ now
          · rw [if_pos hover]
            have hstart : start + LockTimes.seconds times.timeout ≤ now := by linarith
            exact closeFile_onTime (e := lockTimeout) h₂ hbudget rfl (.inl hstart)
          · rw [if_neg hover]
            refine ⟨trivial, fun r w₃ hnext => ?_⟩
            cases r with
            | error e => exact passed_onTime hnext nofun hbudget h₂.taken
            | ok u =>
              obtain ⟨-, -, t₃, ht₃, rfl⟩ := hnext
              have ht₃ : now + LockTimes.seconds times.pollInterval ≤ t₃ := ht₃
              refine ih (attempt + 1) (h₂.congr rfl rfl) ?_ ?_ fun k hk => ?_
              · show times.budget ≤ fuel + (w.attempts + 1)
                omega
              · show begun + ((w.attempts + 1 : Nat) : ℚ) * _ ≤ t₃
                push_cast
                linarith
              · cases hk
                linarith
      · rw [if_neg he]
        exact raised_onTime rfl (hne e rfl) hbudget h₁.taken

variable {fuel : Nat}

theorem pollUntil_onTime (h : w.Waits free self handle) (h₀ : w.attempts = 0)
    (hs : start ≤ w.clock) (hfuel : times.budget ≤ fuel) :
    OnTime free (pollUntil times fuel self handle) w
      (InBudget.Result free nt times self.locked start) := by
  refine ⟨trivial, fun r w' hnext => ?_⟩
  cases r with
  | error e => exact passed_onTime hnext nofun (h₀ ▸ Nat.zero_le _) h.taken
  | ok now =>
    obtain ⟨-, -, t, ⟨rfl, ht⟩, rfl⟩ := hnext
    refine poll_onTime (hs.trans ht) fuel 0 (h.congr rfl rfl) (hfuel.trans (Nat.le_add_right _ _)) ?_
      fun k hk => ?_
    · show now + (w.attempts : ℚ) * _ ≤ now
      rw [h₀]
      simp
    · have hk : w.attempts = k + 1 := hk
      omega

theorem prepareUntil_onTime (h : w.Waits free self handle) (h₀ : w.attempts = 0)
    (hs : start ≤ w.clock) (hfuel : times.budget ≤ fuel) :
    OnTime free (prepareUntil nt times fuel self handle) w
      (InBudget.Result free nt times self.locked start) := by
  unfold prepareUntil
  by_cases hnt : nt = true
  · rw [if_pos hnt]
    refine ⟨trivial, fun r w' hnext => ?_⟩
    cases r with
    | ok u =>
      obtain ⟨-, -, t, ht, rfl⟩ := hnext
      exact pollUntil_onTime (h.congr rfl rfl) h₀ (hs.trans ht) hfuel
    | error e =>
      show OnTime free (if e.type.isOSError = true then _ else _) _ _
      by_cases he : e.type.isOSError = true
      · rw [if_pos he]
        obtain ⟨-, -, t, ht, rfl⟩ := hnext
        have h₁ : (w.next t (.sys (.side (.writeLockByte handle))) (.error e)).Waits free self
            handle := h.congr rfl rfl
        exact closeFile_onTime (e := prepareFailed) h₁ (h₀.trans_le (Nat.zero_le _)) rfl
          (.inr ⟨rfl, hnt, h₀⟩)
      · rw [if_neg he]
        exact passed_onTime hnext nofun (h₀ ▸ Nat.zero_le _) h.taken
  · rw [if_neg hnt]
    exact pollUntil_onTime h h₀ hs hfuel

theorem acquireUntil_onTime (h : w.Start self) (hfuel : times.budget ≤ fuel) :
    OnTime free (acquireUntil nt times fuel self) w
      (InBudget.Result free nt times self.locked w.clock) := by
  have hnone : ∀ k < w.attempts, free k = false := by
    rw [h.attempts]
    exact nofun
  have hbudget : w.attempts ≤ times.budget := h.attempts ▸ Nat.zero_le _
  refine ⟨trivial, fun r w₁ hnext => ?_⟩
  cases r with
  | error e => exact passed_onTime hnext nofun hbudget hnone
  | ok u =>
    obtain ⟨-, -, t, ht, rfl⟩ := hnext
    have ht : w.clock ≤ t := ht
    refine ⟨trivial, fun r w₂ hnext => ?_⟩
    cases r with
    | error e => exact passed_onTime hnext nofun hbudget hnone
    | ok handle =>
      obtain ⟨-, -, t₂, ht₂, rfl⟩ := hnext
      have ht₂ : t ≤ t₂ := ht₂
      obtain ⟨file, locked⟩ := self
      cases file with
      | none =>
        refine prepareUntil_onTime ⟨rfl, List.mem_cons_self, fun o ho => ?_, ?_, hnone⟩ h.attempts
          (ht.trans ht₂) hfuel
        · rcases List.mem_cons.mp ho with rfl | ho
          · rfl
          · cases h.fits.2 o ho
        · exact Option.eq_none_iff_forall_ne_some.mpr fun o ho => nomatch h.held o ho
      -- the old file is closed when the new one is open
      | some old =>
        refine ⟨List.mem_cons_of_mem _ (h.fits.1 old rfl), fun r w₃ hnext => ?_⟩
        obtain ⟨-, -, t₃, ht₃, rfl⟩ := hnext
        have ht₃ : t₂ ≤ t₃ := by cases r <;> exact ht₃
        refine prepareUntil_onTime ⟨rfl, List.mem_cons_self, fun o ho => ?_, ?_, hnone⟩ h.attempts
          (ht.trans (ht₂.trans ht₃)) hfuel
        · have ho : o ∈ (handle :: w.handles.opens).filter (· ≠ old) := ho
          obtain ⟨ho, hne⟩ := List.mem_filter.mp ho
          rcases List.mem_cons.mp ho with rfl | ho
          · rfl
          · exact absurd (Option.some.inj (h.fits.2 o ho)).symm (of_decide_eq_true hne)
        · show (if w.handles.held = some old then none else w.handles.held) = none
          by_cases hheld : w.handles.held = some old
          · rw [if_pos hheld]
          · rw [if_neg hheld]
            exact Option.eq_none_iff_forall_ne_some.mpr fun o ho =>
              hheld (ho.trans (h.held o ho).symm)

end FileLock

/-! ## 6. The budget -/

theorem LockTimes.seconds_eq {v : PyVal} {q : ℚ} (h : v.num = some (.rat q)) : seconds v = q := by
  unfold seconds
  rw [h]

/-- `timeout = 5.0`. -/
def defaultTimeout : PyVal := .float (.finite ⟨false, 5 * 2 ^ 50, -50, by decide⟩)

/-- `poll_interval = 0.05`, or the float next to it. -/
def defaultPollInterval : PyVal := .float (.finite ⟨false, 7205759403792794, -57, by decide⟩)

theorem defaults_ok : validateLockTimeout defaultTimeout = .ok () ∧
    validateLockPollInterval defaultPollInterval = .ok () :=
  ⟨raiseIf_ok.mpr (by decide +kernel), raiseIf_ok.mpr (by decide +kernel)⟩

theorem defaultTimeout_num : defaultTimeout.num = some (.rat 5) :=
  congrArg (fun q => some (PyNum.rat q)) (by decide +kernel)

theorem defaultPollInterval_num :
    defaultPollInterval.num = some (.rat (3602879701896397 / 2 ^ 56)) :=
  congrArg (fun q => some (PyNum.rat q)) (by decide +kernel)

/-- **An `acquire` ends in its budget**: for every `timeout` and `poll_interval` that the validators
    accept, which are positive rationals, for every schedule of the other processes, and on every
    clock that is monotonic and on which a sleep takes its time at least. -/
theorem acquire_in_time {timeout pollInterval : PyVal} (ht : validateLockTimeout timeout = .ok ())
    (hp : validateLockPollInterval pollInterval = .ok ()) :
    ∃ T P : ℚ, 0 < T ∧ 0 < P ∧ timeout.num = some (.rat T) ∧ pollInterval.num = some (.rat P) ∧
      ∀ (nt : Bool) (free : Nat → Bool) (self : FileLock) (w : Watch) (fuel : Nat),
        w.Start self → ⌊T / P⌋₊ + 2 ≤ fuel →
        OnTime free (FileLock.acquireUntil nt ⟨timeout, pollInterval, ht, hp⟩ fuel self) w
          fun r w' => ∃ out self', r = .ok (some (out, self')) ∧
            InBudget free nt T P self.locked w.clock out self' w' := by
  obtain ⟨T, hT, htimeout⟩ := validateLockNumber_pos ht
  obtain ⟨P, hP, hpoll⟩ := validateLockNumber_pos hp
  refine ⟨T, P, hT, hP, htimeout, hpoll, fun nt free self w fuel hw hfuel => ?_⟩
  have hT' := LockTimes.seconds_eq htimeout
  have hP' := LockTimes.seconds_eq hpoll
  subst hT' hP'
  exact FileLock.acquireUntil_onTime hw hfuel

/-- A new object with the defaults, and a lock that never is free: 101 attempts at most, in five
    seconds at least. -/
theorem defaults_in_time :
    OnTime (fun _ => false)
      (FileLock.acquireUntil false ⟨defaultTimeout, defaultPollInterval, defaults_ok.1, defaults_ok.2⟩
        101 .new) ⟨⟨[], [], none⟩, 0, 0, none⟩
      fun r w => ∃ e self, r = .ok (some (.error e, self)) ∧ w.attempts ≤ 101 ∧
        (e.type = .lockError → 5 ≤ w.clock ∧ self = .new) := by
  obtain ⟨T, P, -, -, hT, hP, h⟩ := acquire_in_time defaults_ok.1 defaults_ok.2
  obtain rfl : 5 = T := by
    injection defaultTimeout_num.symm.trans hT with hT
    injection hT
  obtain rfl : 3602879701896397 / 2 ^ 56 = P := by
    injection defaultPollInterval_num.symm.trans hP with hP
    injection hP
  have hfloor : ⌊(5 : ℚ) / (3602879701896397 / 2 ^ 56)⌋₊ < 100 := by
    refine (Nat.floor_lt (by norm_num)).mpr ?_
    norm_num
  have hstart : Watch.Start .new ⟨⟨[], [], none⟩, 0, 0, none⟩ := ⟨⟨nofun, nofun⟩, nofun, rfl⟩
  refine (h false (fun _ => false) .new _ 101 hstart (by omega)).mono fun r w hr => ?_
  obtain ⟨out, self, rfl, hin⟩ := hr
  have hattempts := hin.attempts
  cases out with
  | ok u =>
    obtain ⟨k, -, hk⟩ := hin.returns.mp rfl
    cases hk
  | error e =>
    refine ⟨e, self, rfl, by omega, fun he => ⟨?_, (hin.closed e rfl he).1⟩⟩
    rcases hin.patient e rfl he with hlate | ⟨-, hnt, -⟩
    · simpa using hlate
    · cases hnt

end JsonDatabase
