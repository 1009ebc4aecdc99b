/-
  File:      JsonDatabase/System.lean
  Subject:   The calls the storage engine makes to the operating system.

  The world holds the content of the database file and which open lock file, if any, holds the
  lock. A call may raise `OSError`; then it has changed nothing, except that closing a lock file
  releases its lock even if closing reports an error. `os.replace` is one step. The temporary file
  is private to the write that made it: its content is what the write wrote, and `replace` carries
  it.

  * `Syscall`, `World` -- the calls and what they change;
  * `Env`, `perform` -- an assignment of outcomes to the calls, and a call under it.
-/
import JsonDatabase.Storage
import JsonDatabase.Basis.Interaction

namespace JsonDatabase

/-- Where the time is asked for. -/
inductive Clock where
  | load
  | create
  | commit
  deriving DecidableEq

/-- Calls that neither read nor change the database file or the lock. -/
inductive SideCall where
  /-- `self.path.parent.mkdir` for the lock file. -/
  | makeLockDir
  /-- `_ensure_lock_byte` on Windows. -/
  | writeLockByte (handle : Nat)
  /-- `parent.mkdir` in `atomic_write`. -/
  | makeParent
  | makeTemp
  | openTemp
  | writeTemp (data : Bytes)
  | flushTemp
  | syncTemp
  | closeTemp
  /-- `os.close(fd)` of a descriptor that was not wrapped. -/
  | closeFd
  | chmodTemp (mode : Nat)
  | unlinkTemp
  | openDir
  | syncDir
  | closeDir

/-- A system call with its arguments; repeated ones carry the number of the attempt. -/
inductive Syscall where
  | now (which : Clock)
  /-- A moment of the program's own, before it changes what it has in memory. -/
  | compute
  | pathExists
  | readBytes (attempt : Nat)
  /-- `target.stat()`. -/
  | statTarget
  /-- `open(self.path, "a+b")`. -/
  | openLock
  | tryLock (handle attempt : Nat)
  | unlock (handle : Nat)
  | closeLock (handle : Nat)
  | replace (data : Bytes) (attempt : Nat)
  | side (c : SideCall)

/-- What a call returns. -/
@[reducible] def Syscall.Reply : Syscall → Type
  | .now _ => DateTime
  | .pathExists => Bool
  | .readBytes _ => Bytes
  | .statTarget => Nat
  | .openLock => Nat
  | _ => Unit

/-- The kinds of `OSError` that the engine tells apart. -/
inductive Fault where
  | permission
  | other
  deriving DecidableEq

def Fault.exc : Fault → PyExc
  | .permission => .builtin .permissionError
  | .other => .builtin .osError

structure World where
  /-- The content of the database file, if it exists. -/
  file : Option Bytes
  /-- The open lock file that holds the lock. -/
  lock : Option Nat
  /-- The number the next open lock file gets. -/
  handles : Nat

/-- The lock is released if it is this file that holds it. -/
def World.release (w : World) (handle : Nat) : World :=
  { w with lock := if w.lock = some handle then none else w.lock }

theorem World.release_lock_ne (w : World) (handle : Nat) : (w.release handle).lock ≠ some handle := by
  unfold World.release
  by_cases h : w.lock = some handle
  · simp only [if_pos h]
    exact nofun
  · simpa only [if_neg h] using h

theorem World.release_release (w : World) (handle : Nat) :
    (w.release handle).release handle = w.release handle := by
  have h := w.release_lock_ne handle
  show World.mk _ _ _ = _
  rw [if_neg h]

theorem World.release_lock {w : World} {handle h : Nat} (hl : (w.release handle).lock = some h) :
    w.lock = some h ∧ handle ≠ h := by
  have hne : handle ≠ h := by
    rintro rfl
    exact w.release_lock_ne handle hl
  unfold World.release at hl
  by_cases hw : w.lock = some handle
  · rw [if_pos hw] at hl
    cases hl
  · rw [if_neg hw] at hl
    exact ⟨hl, hne⟩

theorem World.release_keeps {w : World} {handle h : Nat} (hl : w.lock = some h) (hne : handle ≠ h) :
    (w.release handle).lock = some h := by
  show (if w.lock = some handle then none else w.lock) = some h
  rw [if_neg fun e => hne (Option.some.inj (e.symm.trans hl))]
  exact hl

/-- An assignment of success or an `OSError` to every call, the times, and the target's mode. -/
structure Env where
  fails : Syscall → Option Fault
  clock : Clock → DateTime
  mode : Nat

namespace Env

variable (env : Env)

/-- The call is assigned success. -/
def ok (c : Syscall) : Prop := env.fails c = none

instance (c : Syscall) : Decidable (env.ok c) := inferInstanceAs (Decidable (env.fails c = none))

end Env

/-- A call that succeeds returns `a` and leaves `w'`; otherwise it raises and leaves `w`. -/
def answer {α : Type} (fault : Option Fault) (a : α) (w w' : World) : Except PyExc α × World :=
  match fault with
  | none => (.ok a, w')
  | some f => (.error f.exc, w)

/-- A call under an assignment. Taking a lock that is held raises; so does reading a file that is
    not there. -/
def perform (env : Env) : (c : Syscall) → World → Except PyExc c.Reply × World
  | .now which, w => (.ok (env.clock which), w)
  | .compute, w => (.ok (), w)
  | .pathExists, w => answer (env.fails .pathExists) w.file.isSome w w
  | .readBytes k, w =>
    match w.file with
    | some raw => answer (env.fails (.readBytes k)) raw w w
    | none => (.error (Fault.exc .other), w)
  | .statTarget, w => answer (env.fails .statTarget) env.mode w w
  | .openLock, w => answer (env.fails .openLock) w.handles w { w with handles := w.handles + 1 }
  | .tryLock h k, w =>
    match w.lock with
    | none => answer (env.fails (.tryLock h k)) () w { w with lock := some h }
    | some _ => (.error (Fault.exc .other), w)
  | .unlock h, w => answer (env.fails (.unlock h)) () w (w.release h)
  | .closeLock h, w => answer (env.fails (.closeLock h)) () (w.release h) (w.release h)
  | .replace data k, w => answer (env.fails (.replace data k)) () w { w with file := some data }
  | .side c, w => answer (env.fails (.side c)) () w w

theorem perform_readBytes {env : Env} {k : Nat} {w : World} {raw : Bytes} (h : w.file = some raw) :
    perform env (.readBytes k) w = answer (env.fails (.readBytes k)) raw w w := by
  simp only [perform, h]

theorem perform_tryLock_free {env : Env} {handle k : Nat} {w : World} (h : w.lock = none) :
    perform env (.tryLock handle k) w =
      answer (env.fails (.tryLock handle k)) () w { w with lock := some handle } := by
  simp only [perform, h]

theorem perform_tryLock_held {env : Env} {handle k other : Nat} {w : World}
    (h : w.lock = some other) :
    perform env (.tryLock handle k) w = (.error (Fault.exc .other), w) := by
  simp only [perform, h]

/-- A program of the storage engine. -/
abbrev Prog := Interaction PyExc Syscall Syscall.Reply

/-- The outcome of a program and the world it leaves. -/
def Interaction.run {α : Type} (p : Prog α) (env : Env) (w : World) : Except PyExc α × World :=
  p.exec (perform env) w

def sys (c : Syscall) : Prog c.Reply := Interaction.ask c

def raise {α : Type} (e : PyExc) : Prog α := Interaction.lift (.error e)

end JsonDatabase
