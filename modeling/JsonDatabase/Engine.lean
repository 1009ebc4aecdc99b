/-
  File:      JsonDatabase/Engine.lean
  Subject:   `lock.py`, `atomic.py`, the writes of `storage.py`, and the two ends of a transaction.

  * `acquire`, `release`, `withLock` -- the file lock;
  * `atomicWrite` -- temporary file, `fsync`, `os.replace`, `fsync` of the directory;
  * `engineLoad`, `commitUnlocked`, `createEmpty`, `update` -- the storage engine;
  * `enterTransaction`, `exitTransaction` -- what `Transaction.__enter__` and `__exit__` do to the
    lock and to the file.
-/
import JsonDatabase.System

namespace JsonDatabase

open Interaction

/-- The platform and the lock timeout: how often a lock that is taken is tried again before the
    deadline has passed. -/
structure Settings where
  nt : Bool
  retries : Nat

/-- `except OSError`: other exceptions pass. -/
def exceptOSError {α : Type} (p : Prog α) (h : Prog α) : Prog α :=
  p.rescue fun e => if e.type.isOSError then h else raise e

/-! ## 1. `lock.py` -/

section Lock

variable (cfg : Settings)

def prepareFailed : PyExc :=
  ⟨.lockError, [.text "could not prepare lock file ", .lockPath, .text ": ", .system], none, none⟩

def lockTimeout : PyExc :=
  ⟨.lockError, [.text "could not acquire database lock ", .lockPath, .text "; waited ", .system,
    .text "s (pid ", .system, .text ")"], none, none⟩

/-- `_ensure_lock_byte`; the file is closed if it fails. -/
def ensureLockByte (handle : Nat) : Prog Unit :=
  if cfg.nt then
    exceptOSError (sys (.side (.writeLockByte handle))) do
      sys (.closeLock handle)
      raise prepareFailed
  else pure ()

/-- The loop of `acquire`: `left` more attempts before the deadline. -/
def lockLoop (handle : Nat) : Nat → Nat → Prog Unit
  | 0, attempt => exceptOSError (sys (.tryLock handle attempt)) do
      sys (.closeLock handle)
      raise lockTimeout
  | left + 1, attempt =>
    exceptOSError (sys (.tryLock handle attempt)) (lockLoop handle left (attempt + 1))

/-- `FileLock.acquire`: the open lock file. -/
def acquire : Prog Nat := do
  sys (.side .makeLockDir)
  let handle ← sys .openLock
  ensureLockByte cfg handle
  lockLoop handle cfg.retries 0
  return handle

/-- `FileLock.release` of a lock that is held. -/
def release (handle : Nat) : Prog Unit := ensuring (sys (.unlock handle)) (sys (.closeLock handle))

/-- `with self.lock():`. -/
def withLock {α : Type} (body : Prog α) : Prog α := do
  let handle ← acquire cfg
  ensuring body (release handle)

end Lock

/-! ## 2. `atomic.py` -/

section Atomic

/-- The loop of `windows_retry_on_permission_error`: `left` more attempts. -/
def retryLoop {α : Type} (op : Nat → Prog α) : Nat → Nat → Prog α
  | 0, attempt => op attempt
  | left + 1, attempt => (op attempt).rescue fun e =>
      if e.type = .permissionError then retryLoop op left (attempt + 1) else raise e

/-- `windows_retry_on_permission_error`: ten attempts on Windows, one elsewhere. -/
def windowsRetry {α : Type} (nt : Bool) (op : Nat → Prog α) : Prog α :=
  if nt then retryLoop op 9 0 else op 0

/-- `_existing_mode`. -/
def existingMode (nt : Bool) : Prog (Option Nat) :=
  if nt then pure none
  else exceptOSError (do
    let mode ← sys .statTarget
    return some mode) (pure none)

/-- `os.chmod` of the temporary file, a failure ignored. -/
def applyMode : Option Nat → Prog Unit
  | some mode => exceptOSError (sys (.side (.chmodTemp mode))) (pure ())
  | none => pure ()

/-- The `with os.fdopen(fd, "wb") as temp:` statement; the descriptor is closed if it cannot be
    wrapped. -/
def fillTemp (data : Bytes) : Prog Unit := do
  onRaise (sys (.side .openTemp)) (exceptOSError (sys (.side .closeFd)) (pure ()))
  ensuring (do
    sys (.side (.writeTemp data))
    sys (.side .flushTemp)
    sys (.side .syncTemp)) (sys (.side .closeTemp))

/-- From the temporary file to the replaced target; what is left of the file is unlinked. -/
def replaceTarget (nt : Bool) (mode : Option Nat) (data : Bytes) : Prog Unit :=
  onRaise (do
    fillTemp data
    applyMode mode
    windowsRetry nt fun attempt => sys (.replace data attempt))
    (exceptOSError (sys (.side .unlinkTemp)) (pure ()))

/-- `os.open(parent)`, and whether it returned rather than raise `OSError`. -/
def openParent : Prog Bool :=
  exceptOSError (do
    sys (.side .openDir)
    return true) (pure false)

/-- `_fsync_parent`: of the `OSError`s only one from closing the directory passes. -/
def fsyncParent (nt : Bool) : Prog Unit :=
  if nt then pure ()
  else do
    let opened ← openParent
    if opened then ensuring (exceptOSError (sys (.side .syncDir)) (pure ())) (sys (.side .closeDir))
    else pure ()

def writeFailed : PyExc :=
  ⟨.storageError, [.text "atomic write failed for ", .dbPath, .text ": ", .system], none, none⟩

/-- `atomic_write`. -/
def atomicWrite (nt : Bool) (data : Bytes) : Prog Unit := do
  sys (.side .makeParent)
  let mode ← existingMode nt
  exceptOSError (do
    sys (.side .makeTemp)
    replaceTarget nt mode data
    fsyncParent nt) (raise writeFailed)

end Atomic

/-! ## 3. `storage.py` -/

section Storage

variable (rt : Runtime) (cp : Copier) (cfg : Settings)

/-- What `load` finds at the path. -/
def readDatabase : Prog FileRead := do
  let present : Bool ← sys .pathExists
  if present then
    exceptOSError (do
      let raw ← windowsRetry cfg.nt fun attempt => sys (.readBytes attempt)
      return .bytes raw) (pure .unreadable)
  else pure .missing

/-- `StorageEngine.load`. -/
def engineLoad : Prog State := do
  let file ← readDatabase cfg
  let now ← sys (.now .load)
  lift (load rt now file)

/-- `StorageEngine._commit_unlocked`. -/
def commitUnlocked (state : State) : Prog Unit := do
  let now ← sys (.now .commit)
  let data ← lift (commitBytes rt cp now state)
  atomicWrite cfg.nt data

def alreadyExists : PyExc :=
  ⟨.storageError, [.text "database file already exists: ", .dbPath], none, none⟩

/-- `StorageEngine.create_empty`. -/
def createEmpty (force : Bool) : Prog Unit :=
  withLock cfg do
    let present : Bool ← sys .pathExists
    if present && !force then raise alreadyExists
    else do
      let now ← sys (.now .create)
      let state ← lift (makeEmptyState rt now)
      commitUnlocked rt cp cfg state

/-- `StorageEngine.update`. -/
def update (mutator : Op PyVal) : Prog PyVal :=
  withLock cfg do
    let state ← engineLoad rt cfg
    sys .compute
    let result ← lift (Op.result mutator state)
    commitUnlocked rt cp cfg result.2
    return result.1

/-! ## 4. The ends of a transaction -/

/-- `Transaction.__enter__` past its first check. A lock file that the object still has open is
    closed when the new `FileLock` takes its place. -/
def enterTransaction (old : Option Nat) : Prog (Nat × State) := do
  match old with
  | some handle => quietly (sys (.closeLock handle))
  | none => pure ()
  let handle ← acquire cfg
  onRaise (do
    let loaded ← engineLoad rt cfg
    let state ← lift (copyDict cp (.dict loaded))
    return (handle, state)) (release handle)

/-- `if self._lock is not None: self._lock.__exit__(...)`. -/
def releaseIfOpen : Option Nat → Prog Unit
  | some handle => release handle
  | none => pure ()

/-- `Transaction.__exit__` with the lock file that the object has open. A clean exit commits the
    state, which is an exception if the transaction is not active. -/
def exitTransaction (handle : Option Nat) (clean : Bool) (state : Except PyExc State) : Prog Unit :=
  ensuring (if clean then do
      let state ← lift state
      commitUnlocked rt cp cfg state
    else pure ()) (releaseIfOpen handle)

end Storage

end JsonDatabase
