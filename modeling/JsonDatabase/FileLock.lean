/-
  File:      JsonDatabase/FileLock.lean
  Subject:   `FileLock` objects of any number of processes on one lock file.

  Here the lock is what the operating system has: a handle has the lock of the file it was opened
  on, and the path is bound to a file. Engine.lean has the two methods without the object;
  `acquire_forget` and `release_forget` say that they are the same programs.

  * `FileLock`, `FileLock.acquire`, `FileLock.release` -- the object and its methods;
  * `Locking` -- objects, the processes they belong to, and the steps: one system call of one
    object, or a crash of a process;
  * `mutual_exclusion` -- at most one object has the lock, in every interleaving.
-/
import JsonDatabase.Engine
import JsonDatabase.Basis.Flock

namespace JsonDatabase

open Interaction

/-! ## 1. The object -/

/-- `_file` and `_locked`. A file whose closing raised is closed and is still in `_file`. -/
structure FileLock where
  file : Option Nat
  locked : Bool

namespace FileLock

/-- How a method ended, and the object after it. -/
abbrev Method := Prog (Except PyExc Unit × FileLock)

def new : FileLock := ⟨none, false⟩

def ends (r : Except PyExc Unit) (self : FileLock) : Method := .done (.ok (r, self))

/-- `self._file.close(); self._file = None`, and then the outcome `r`. -/
def closeFile (self : FileLock) (handle : Nat) (r : Except PyExc Unit) : Method :=
  (sys (.closeLock handle)).follow fun
    | .ok _ => ends r { self with file := none }
    | .error e => ends (.error e) self

/-- The loop of `acquire`: `left` more attempts before the deadline. -/
def loop (self : FileLock) (handle : Nat) : Nat → Nat → Method
  | 0, attempt => (sys (.tryLock handle attempt)).follow fun
    | .ok _ => ends (.ok ()) { self with locked := true }
    | .error e =>
      if e.type.isOSError then closeFile self handle (.error lockTimeout) else ends (.error e) self
  | left + 1, attempt => (sys (.tryLock handle attempt)).follow fun
    | .ok _ => ends (.ok ()) { self with locked := true }
    | .error e =>
      if e.type.isOSError then loop self handle left (attempt + 1) else ends (.error e) self

/-- `_ensure_lock_byte` and the loop. -/
def prepare (cfg : Settings) (self : FileLock) (handle : Nat) : Method :=
  if cfg.nt then
    (sys (.side (.writeLockByte handle))).follow fun
      | .ok _ => loop self handle cfg.retries 0
      | .error e =>
        if e.type.isOSError then closeFile self handle (.error prepareFailed)
        else ends (.error e) self
  else loop self handle cfg.retries 0

/-- `acquire`. A file that the object still has open is closed when the new one takes its place. -/
def acquire (cfg : Settings) (self : FileLock) : Method :=
  (sys (.side .makeLockDir)).follow fun
    | .error e => ends (.error e) self
    | .ok _ => (sys .openLock).follow fun
      | .error e => ends (.error e) self
      | .ok (handle : Nat) =>
        (match self.file with
          | some old => quietly (sys (.closeLock old))
          | none => pure ()).follow fun _ => prepare cfg { self with file := some handle } handle

/-- `release`. -/
def release (self : FileLock) : Method :=
  match self.file with
  | none => ends (.ok ()) self
  | some handle =>
    (if self.locked then sys (.unlock handle) else pure ()).follow fun r =>
      closeFile { self with locked := false } handle r

/-! ## 2. Without the object -/

/-- The outcome alone. -/
def forget (p : Method) : Prog Unit := p.follow fun
  | .ok (r, _) => .done r
  | .error e => .done (.error e)

/-- The same call, and the same after every reply. -/
theorem call_congr {α : Type} {c : Syscall} {k k' : Except PyExc c.Reply → Prog α}
    (h : ∀ r, k r = k' r) : (.call c k : Prog α) = .call c k' := by
  rw [funext h]

theorem forget_closeFile (self : FileLock) (handle : Nat) (e : PyExc) :
    forget (closeFile self handle (.error e)) = (sys (.closeLock handle) >>= fun _ => raise e) := by
  refine call_congr fun r => ?_
  cases r <;> rfl

theorem forget_ite {c : Prop} [Decidable c] (p q : Method) :
    forget (if c then p else q) = if c then forget p else forget q := by
  by_cases h : c
  · rw [if_pos h, if_pos h]
  · rw [if_neg h, if_neg h]

theorem forget_loop (self : FileLock) (handle : Nat) : ∀ left attempt,
    forget (loop self handle left attempt) = lockLoop handle left attempt := by
  intro left
  induction left with
  | zero =>
    refine fun attempt => call_congr fun r => ?_
    cases r with
    | ok a => rfl
    | error e =>
      exact (forget_ite _ _).trans (congrArg (fun p => if e.type.isOSError = true then p else raise e)
        (forget_closeFile self handle lockTimeout))
  | succ left ih =>
    refine fun attempt => call_congr fun r => ?_
    cases r with
    | ok a => rfl
    | error e =>
      exact (forget_ite _ _).trans (congrArg (fun p => if e.type.isOSError = true then p else raise e)
        (ih (attempt + 1)))

theorem forget_prepare (cfg : Settings) (self : FileLock) (handle : Nat) :
    forget (prepare cfg self handle) =
      (ensureLockByte cfg handle >>= fun _ => lockLoop handle cfg.retries 0) := by
  unfold prepare ensureLockByte
  rw [forget_ite]
  by_cases hnt : cfg.nt = true
  · rw [if_pos hnt, if_pos hnt]
    refine call_congr fun r => ?_
    cases r with
    | ok a => exact forget_loop self handle cfg.retries 0
    | error e =>
      show forget (if e.type.isOSError = true then _ else _) =
        (if e.type.isOSError = true then _ else _ : Prog Unit).follow _
      by_cases he : e.type.isOSError = true
      · rw [if_pos he, if_pos he]
        exact (forget_closeFile self handle prepareFailed).trans (call_congr fun r => by cases r <;> rfl)
      · rw [if_neg he, if_neg he]
        rfl
  · rw [if_neg hnt, if_neg hnt]
    exact forget_loop self handle cfg.retries 0

/-- **A new object** acquires as `JsonDatabase.acquire` does. -/
theorem acquire_forget (cfg : Settings) :
    forget (acquire cfg new) = (JsonDatabase.acquire cfg >>= fun _ => pure ()) := by
  refine call_congr fun r => ?_
  cases r with
  | error e => rfl
  | ok u =>
    refine call_congr fun r => ?_
    cases r with
    | error e => rfl
    | ok handle =>
      show forget (prepare cfg _ handle) = ((ensureLockByte cfg handle >>= fun _ =>
        lockLoop handle cfg.retries 0 >>= fun _ => pure handle) >>= fun _ => pure () : Prog Unit)
      rw [forget_prepare, bind_bind]
      refine congrArg (ensureLockByte cfg handle >>= ·) (funext fun _ => ?_)
      rw [bind_bind]
      exact (bind_pure_unit _).symm

/-- **An object with the lock** releases as `JsonDatabase.release` does. -/
theorem release_forget (handle : Nat) :
    forget (release ⟨some handle, true⟩) = JsonDatabase.release handle := by
  refine call_congr fun r => call_congr fun r' => ?_
  cases r' <;> rfl

end FileLock

/-! ## 3. What a method knows -/

/-- The handles of an object: those it has opened, those that may be open, and one that has the
    lock. -/
structure Handles where
  mine : List Nat
  opens : List Nat
  held : Option Nat

namespace Handles

/-- After a reply. -/
def next (v : Handles) : (c : Syscall) → Except PyExc c.Reply → Handles
  | .openLock, .ok (h : Nat) => { v with mine := h :: v.mine, opens := h :: v.opens }
  | .tryLock h _, .ok _ => { v with held := some h }
  | .unlock _, _ => { v with held := none }
  | .closeLock h, _ =>
    { v with opens := v.opens.filter (· ≠ h), held := if v.held = some h then none else v.held }
  | _, _ => v

/-- A call on a handle is on one of its own. -/
def Permits (v : Handles) : Syscall → Prop
  | .tryLock h _ | .unlock h | .closeLock h => h ∈ v.mine
  | _ => True

/-- The system does not raise `LockError`. -/
def Next (v : Handles) (c : Syscall) (r : Except PyExc c.Reply) (v' : Handles) : Prop :=
  (∀ e, r = .error e → e.type ≠ .lockError) ∧ v' = v.next c r

/-- `_file` is its own, and no other handle may be open. -/
def Fits (self : FileLock) (v : Handles) : Prop :=
  (∀ h, self.file = some h → h ∈ v.mine) ∧ ∀ h ∈ v.opens, self.file = some h

/-- What a method leaves: if it has raised `LockError`, nothing is open. -/
def Left (acquired : Bool) (r : Except PyExc (Except PyExc Unit × FileLock)) (v : Handles) : Prop :=
  ∃ out self, r = .ok (out, self) ∧ v.Fits self ∧
    (acquired = true → out = .ok () → v.held.isSome = true) ∧
    (acquired = false ∨ (∃ e, out = .error e ∧ e.type = .lockError) → v.opens = [])

end Handles

/-- Every call is on a handle of the object. -/
abbrev OnOwn (p : FileLock.Method) (v : Handles)
    (Q : Except PyExc (Except PyExc Unit × FileLock) → Handles → Prop) : Prop :=
  Conforms Handles.Permits Handles.Next p v Q

namespace FileLock

open Handles

variable {v : Handles} {self : FileLock} {handle : Nat}

theorem closeFile_left (acquired : Bool) (hf : v.Fits self) (hh : self.file = some handle)
    (r : Except PyExc Unit) (hr : acquired = true → ∃ e, r = .error e) :
    OnOwn (closeFile self handle r) v (Left acquired) := by
  refine ⟨hf.1 handle hh, fun reply v' hn => ?_⟩
  obtain ⟨-, rfl⟩ := hn
  have hopens : v.opens.filter (· ≠ handle) = [] := by
    refine List.filter_eq_nil_iff.mpr fun h hm => ?_
    have : h = handle := Option.some.inj ((hf.2 h hm).symm.trans hh)
    simp [this]
  cases reply with
  | ok u =>
    refine ⟨r, _, rfl, ⟨nofun, fun h hm => ?_⟩, fun ha hok => ?_, fun _ => hopens⟩
    · have hm' : h ∈ v.opens.filter (· ≠ handle) := hm
      rw [hopens] at hm'
      cases hm'
    · obtain ⟨e, rfl⟩ := hr ha
      cases hok
  | error e =>
    refine ⟨.error e, _, rfl, ⟨hf.1, fun h hm => ?_⟩, fun ha hok => (nomatch hok), fun _ => hopens⟩
    have hm' : h ∈ v.opens.filter (· ≠ handle) := hm
    rw [hopens] at hm'
    cases hm'

/-- An exception of the system that is passed on. -/
theorem left_error (hf : v.Fits self) {e : PyExc} (he : e.type ≠ .lockError) :
    Left true (.ok (.error e, self)) v := by
  refine ⟨.error e, self, rfl, hf, fun _ hok => (nomatch hok), fun hl => ?_⟩
  rcases hl with hl | ⟨e', heq, hl⟩
  · cases hl
  · cases heq
    exact absurd hl he

theorem loop_left : ∀ left attempt {v : Handles}, v.Fits self → self.file = some handle →
    OnOwn (loop self handle left attempt) v (Left true) := by
  intro left
  induction left with
  | zero =>
    refine fun attempt v hf hh => ⟨hf.1 handle hh, fun r v' hn => ?_⟩
    obtain ⟨hne, rfl⟩ := hn
    cases r with
    | ok u =>
      refine ⟨.ok (), _, rfl, hf, fun _ _ => rfl, fun hl => ?_⟩
      rcases hl with hl | ⟨e, heq, -⟩
      · cases hl
      · cases heq
    | error e =>
      show OnOwn (if e.type.isOSError = true then _ else _) _ _
      by_cases he : e.type.isOSError = true
      · rw [if_pos he]
        exact closeFile_left true hf hh _ fun _ => ⟨_, rfl⟩
      · rw [if_neg he]
        exact left_error hf (hne e rfl)
  | succ left ih =>
    refine fun attempt v hf hh => ⟨hf.1 handle hh, fun r v' hn => ?_⟩
    obtain ⟨hne, rfl⟩ := hn
    cases r with
    | ok u =>
      refine ⟨.ok (), _, rfl, hf, fun _ _ => rfl, fun hl => ?_⟩
      rcases hl with hl | ⟨e, heq, -⟩
      · cases hl
      · cases heq
    | error e =>
      show OnOwn (if e.type.isOSError = true then _ else _) _ _
      by_cases he : e.type.isOSError = true
      · rw [if_pos he]
        exact ih (attempt + 1) hf hh
      · rw [if_neg he]
        exact left_error hf (hne e rfl)

theorem prepare_left (cfg : Settings) (hf : v.Fits self) (hh : self.file = some handle) :
    OnOwn (prepare cfg self handle) v (Left true) := by
  unfold prepare
  by_cases hnt : cfg.nt = true
  · rw [if_pos hnt]
    refine ⟨trivial, fun r v' hn => ?_⟩
    obtain ⟨hne, rfl⟩ := hn
    cases r with
    | ok u => exact loop_left _ _ hf hh
    | error e =>
      show OnOwn (if e.type.isOSError = true then _ else _) _ _
      by_cases he : e.type.isOSError = true
      · rw [if_pos he]
        exact closeFile_left true hf hh _ fun _ => ⟨_, rfl⟩
      · rw [if_neg he]
        exact left_error hf (hne e rfl)
  · rw [if_neg hnt]
    exact loop_left _ _ hf hh

theorem acquire_left (cfg : Settings) (hf : v.Fits self) :
    OnOwn (acquire cfg self) v (Left true) := by
  refine ⟨trivial, fun r v' hn => ?_⟩
  rw [show v' = v from hn.2]
  cases r with
  | error e => exact left_error hf (hn.1 e rfl)
  | ok u =>
    refine ⟨trivial, fun r v' hn => ?_⟩
    obtain ⟨hne, rfl⟩ := hn
    cases r with
    | error e => exact left_error hf (hne e rfl)
    | ok handle =>
      have hmine : handle ∈ handle :: v.mine := List.mem_cons_self
      obtain ⟨file, locked⟩ := self
      cases file with
      | none =>
        refine prepare_left cfg ⟨fun h hh => ?_, fun h hm => ?_⟩ rfl
        · cases hh
          exact hmine
        · rcases List.mem_cons.mp hm with rfl | hm
          · rfl
          · cases hf.2 h hm
      -- the old file is closed when the new one is open
      | some old =>
        refine ⟨List.mem_cons_of_mem _ (hf.1 old rfl), fun r v' hn => ?_⟩
        obtain ⟨-, rfl⟩ := hn
        refine prepare_left cfg ⟨fun h hh => ?_, fun h hm => ?_⟩ rfl
        · cases hh
          exact hmine
        · have hm' : h ∈ (handle :: v.opens).filter (· ≠ old) := hm
          obtain ⟨hm', hne⟩ := List.mem_filter.mp hm'
          rcases List.mem_cons.mp hm' with rfl | hm'
          · rfl
          · exact absurd (Option.some.inj (hf.2 h hm')).symm (of_decide_eq_true hne)

theorem release_left (hf : v.Fits self) : OnOwn (release self) v (Left false) := by
  obtain ⟨file, locked⟩ := self
  cases file with
  | none =>
    refine ⟨.ok (), _, rfl, hf, nofun, fun _ => List.eq_nil_iff_forall_not_mem.mpr fun h hm => ?_⟩
    cases hf.2 h hm
  | some handle =>
    cases locked with
    | false => exact closeFile_left false hf rfl _ nofun
    | true =>
      refine ⟨hf.1 handle rfl, fun r v' hn => ?_⟩
      obtain ⟨-, rfl⟩ := hn
      have hf' : Fits ⟨some handle, false⟩ { v with held := none } := hf
      exact closeFile_left false hf' rfl _ nofun

end FileLock

/-! ## 4. Objects and processes -/

/-- A reply to a call and the lock file after it. Closing closes, even if it raises. -/
inductive LockAnswer (s : Flock) : (c : Syscall) → Except PyExc c.Reply → Flock → Prop
  | opened : LockAnswer s .openLock (.ok s.fresh) s.opened
  | taken (h attempt : Nat) (hf : s.Free h) : LockAnswer s (.tryLock h attempt) (.ok ()) (s.take h)
  | unlocked (h : Nat) : LockAnswer s (.unlock h) (.ok ()) (s.unlock h)
  | closed (h : Nat) (r : Except PyExc Unit) (hr : ∀ e, r = .error e → e.type ≠ .lockError) :
      LockAnswer s (.closeLock h) r (s.close h)
  | side (c : SideCall) : LockAnswer s (.side c) (.ok ()) s
  | raised {c : Syscall} (e : PyExc) (hc : ∀ h, c ≠ .closeLock h) (he : e.type ≠ .lockError) :
      LockAnswer s c (.error e) s

inductive FileLockCall where
  | acquire (cfg : Settings)
  | release

def FileLockCall.program (self : FileLock) : FileLockCall → FileLock.Method
  | .acquire cfg => self.acquire cfg
  | .release => self.release

def FileLockCall.acquires : FileLockCall → Bool
  | .acquire _ => true
  | .release => false

/-- What happened to an object last. -/
inductive FileLockEvent where
  | ended (call : FileLockCall) (r : Except PyExc Unit)
  | crashed

/-- The last call was an `acquire` that returned. -/
def FileLockEvent.acquired : FileLockEvent → Prop
  | .ended (.acquire _) (.ok _) => True
  | _ => False

/-- The last call was a `release`, or an `acquire` that raised `LockError`, or there was a crash. -/
def FileLockEvent.over : FileLockEvent → Prop
  | .ended (.acquire _) (.error e) => e.type = .lockError
  | .ended (.acquire _) (.ok _) => False
  | .ended .release _ | .crashed => True

/-- An object, the call it is in, and what happened last if it is in none. -/
structure FileLockUser where
  self : FileLock
  running : Option (FileLockCall × FileLock.Method)
  last : Option FileLockEvent

/-- The lock file and the objects; `owner` is the object that opened a handle. -/
structure Locking where
  dir : Flock
  owner : Nat → Nat
  users : Nat → FileLockUser

namespace Locking

def start (entry : Option Nat) : Locking := ⟨.start entry, fun _ => 0, fun _ => ⟨.new, none, none⟩⟩

def ownerAfter (m : Locking) (o : Nat) : (c : Syscall) → Except PyExc c.Reply → Nat → Nat
  | .openLock, .ok (h : Nat) => Function.update m.owner h o
  | _, _ => m.owner

def set (m : Locking) (o : Nat) (u : FileLockUser) : Nat → FileLockUser := Function.update m.users o u

/-- A step; `process` is the process of an object. Nothing removes the path. -/
inductive Step (process : Nat → Nat) : Locking → Locking → Prop
  | begin {m : Locking} (o : Nat) (call : FileLockCall) (h : (m.users o).running = none) :
      Step process m
        { m with
          users := m.set o ⟨(m.users o).self, some (call, call.program (m.users o).self), none⟩ }
  | answer {m : Locking} {o : Nat} {call : FileLockCall} {c : Syscall}
      {k : Except PyExc c.Reply → FileLock.Method} {r : Except PyExc c.Reply} {dir' : Flock}
      (h : (m.users o).running = some (call, .call c k)) (ha : LockAnswer m.dir c r dir') :
      Step process m ⟨dir', m.ownerAfter o c r,
        m.set o { m.users o with running := some (call, k r) }⟩
  | finish {m : Locking} {o : Nat} {call : FileLockCall} {r : Except PyExc Unit} {self : FileLock}
      (h : (m.users o).running = some (call, .done (.ok (r, self)))) :
      Step process m { m with users := m.set o ⟨self, none, some (.ended call r)⟩ }
  | crash {m : Locking} (p : Nat) : Step process m
      { m with
        dir := m.dir.closeAll fun h => process (m.owner h) = p
        users := fun o => if process o = p then ⟨.new, none, some .crashed⟩ else m.users o }

inductive Reachable (process : Nat → Nat) (entry : Option Nat) : Locking → Prop
  | start : Reachable process entry (start entry)
  | step {m m' : Locking} (h : Reachable process entry m) (hs : Step process m m') :
      Reachable process entry m'

/-- A handle of the object has the lock. -/
def Holds (m : Locking) (o : Nat) : Prop := ∃ h, m.owner h = o ∧ m.dir.Holds h

/-- The object is in no call, and this happened last. -/
def Idle (m : Locking) (o : Nat) (event : FileLockEvent) : Prop :=
  (m.users o).running = none ∧ (m.users o).last = some event

end Locking

/-! ## 5. Mutual exclusion -/

namespace Handles

/-- What is known of the handles of an object is so. -/
structure Describes (v : Handles) (s : Flock) (owner : Nat → Nat) (o : Nat) : Prop where
  mine : ∀ h ∈ v.mine, owner h = o ∧ h < s.fresh
  opens : ∀ h i, s.file h = some i → owner h = o → h ∈ v.opens
  held : ∀ h, v.held = some h → owner h = o ∧ s.Holds h

variable {v v' : Handles} {m : Locking} {o o' : Nat} {c : Syscall} {r : Except PyExc c.Reply}
  {dir' : Flock}

theorem Describes.held_old (hd : v.Describes m.dir m.owner o) (hpin : m.dir.Pinned) {h : Nat}
    (hh : v.held = some h) : h < m.dir.fresh := by
  obtain ⟨-, i, hi, -⟩ := hd.held h hh
  exact hpin.old h i hi

/-- A call of the object. -/
theorem Describes.own (hd : v.Describes m.dir m.owner o) (hpin : m.dir.Pinned) (hp : v.Permits c)
    (ha : LockAnswer m.dir c r dir') : (v.next c r).Describes dir' (m.ownerAfter o c r) o := by
  cases ha with
  | opened =>
    have howner {h : Nat} (hne : h ≠ m.dir.fresh) :
        m.ownerAfter o .openLock (.ok m.dir.fresh) h = m.owner h := Function.update_of_ne hne _ _
    refine ⟨fun h hm => ?_, fun h i hi ho => ?_, fun h hh => ?_⟩
    · rcases List.mem_cons.mp hm with rfl | hm
      · exact ⟨Function.update_self _ _ _, Nat.lt_succ_self _⟩
      · obtain ⟨ho, hlt⟩ := hd.mine h hm
        exact ⟨(howner (Nat.ne_of_lt hlt)).trans ho, Nat.lt_succ_of_lt hlt⟩
    · by_cases hne : h = m.dir.fresh
      · exact List.mem_cons.mpr (.inl hne)
      · rw [Flock.file_opened_ne hne] at hi
        exact List.mem_cons_of_mem _ (hd.opens h i hi ((howner hne).symm.trans ho))
    · have hlt := hd.held_old hpin hh
      obtain ⟨ho, hold⟩ := hd.held h hh
      exact ⟨(howner (Nat.ne_of_lt hlt)).trans ho, hold.opened hlt⟩
  | taken handle k hf =>
    refine ⟨fun h hm => ?_, fun h i hi ho => ?_, fun h hh => ?_⟩
    · rw [Flock.fresh_take]
      exact hd.mine h hm
    · rw [Flock.file_take] at hi
      exact hd.opens h i hi ho
    · cases hh
      exact ⟨(hd.mine handle hp).1, Flock.holds_take hf⟩
  | unlocked handle => exact ⟨hd.mine, hd.opens, nofun⟩
  | closed handle r hr =>
    refine ⟨hd.mine, fun h i hi ho => ?_, fun h hh => ?_⟩
    · by_cases he : h = handle
      · rw [he, Flock.file_close_self] at hi
        cases hi
      · rw [Flock.file_close_ne he] at hi
        exact List.mem_filter.mpr ⟨hd.opens h i hi ho, decide_eq_true he⟩
    · have hheld : (if v.held = some handle then none else v.held) = some h := hh
      by_cases he : v.held = some handle
      · rw [if_pos he] at hheld
        cases hheld
      · rw [if_neg he] at hheld
        obtain ⟨ho, hold⟩ := hd.held h hheld
        exact ⟨ho, hold.close fun e => he (e ▸ hheld)⟩
  | side c => exact hd
  | raised e hc he =>
    have hheld (hs : (v.next c (.error e)).held = none ∨ v.next c (.error e) = v)
        (hm : (v.next c (.error e)).mine = v.mine) (ho : (v.next c (.error e)).opens = v.opens)
        (howner : m.ownerAfter o c (.error e) = m.owner) :
        (v.next c (.error e)).Describes m.dir (m.ownerAfter o c (.error e)) o := by
      rcases hs with hs | hs
      · refine ⟨?_, ?_, ?_⟩
        · rw [hm, howner]
          exact hd.mine
        · rw [ho, howner]
          exact hd.opens
        · rw [hs]
          exact nofun
      · rw [hs, howner]
        exact hd
    cases c with
    | unlock h => exact hheld (.inl rfl) rfl rfl rfl
    | closeLock h => exact absurd rfl (hc h)
    | _ => exact hheld (.inr rfl) rfl rfl rfl

/-- A call of another object. -/
theorem Describes.frame (hd : v.Describes m.dir m.owner o) (hd' : v'.Describes m.dir m.owner o')
    (hne : o' ≠ o) (hpin : m.dir.Pinned) (hp : v.Permits c) (ha : LockAnswer m.dir c r dir') :
    v'.Describes dir' (m.ownerAfter o c r) o' := by
  have hother {h handle : Nat} (hm : handle ∈ v.mine) (ho : m.owner h = o') : h ≠ handle := by
    rintro rfl
    exact hne (ho.symm.trans (hd.mine h hm).1)
  cases ha with
  | opened =>
    have howner {h : Nat} (hne : h ≠ m.dir.fresh) :
        m.ownerAfter o .openLock (.ok m.dir.fresh) h = m.owner h := Function.update_of_ne hne _ _
    refine ⟨fun h hm => ?_, fun h i hi ho => ?_, fun h hh => ?_⟩
    · obtain ⟨ho, hlt⟩ := hd'.mine h hm
      exact ⟨(howner (Nat.ne_of_lt hlt)).trans ho, Nat.lt_succ_of_lt hlt⟩
    · by_cases hf : h = m.dir.fresh
      · subst hf
        exact absurd ((Function.update_self _ _ _).symm.trans ho) (Ne.symm hne)
      · rw [Flock.file_opened_ne hf] at hi
        exact hd'.opens h i hi ((howner hf).symm.trans ho)
    · have hlt := hd'.held_old hpin hh
      obtain ⟨ho, hold⟩ := hd'.held h hh
      exact ⟨(howner (Nat.ne_of_lt hlt)).trans ho, hold.opened hlt⟩
  | taken handle k hf =>
    refine ⟨fun h hm => ?_, fun h i hi ho => ?_, fun h hh => ?_⟩
    · rw [Flock.fresh_take]
      exact hd'.mine h hm
    · rw [Flock.file_take] at hi
      exact hd'.opens h i hi ho
    · obtain ⟨ho, hold⟩ := hd'.held h hh
      exact ⟨ho, hold.take hf⟩
  | unlocked handle =>
    refine ⟨hd'.mine, hd'.opens, fun h hh => ?_⟩
    obtain ⟨ho, hold⟩ := hd'.held h hh
    exact ⟨ho, hold.unlock (hother hp ho)⟩
  | closed handle r hr =>
    refine ⟨hd'.mine, fun h i hi ho => ?_, fun h hh => ?_⟩
    · rw [Flock.file_close_ne (hother hp ho)] at hi
      exact hd'.opens h i hi ho
    · obtain ⟨ho, hold⟩ := hd'.held h hh
      exact ⟨ho, hold.close (hother hp ho)⟩
  | side c => exact hd'
  | raised e hc he =>
    have howner : m.ownerAfter o c (.error e) = m.owner := by cases c <;> rfl
    rw [howner]
    exact hd'

end Handles

/-- The system does not raise `LockError`. -/
theorem LockAnswer.foreign {s s' : Flock} {c : Syscall} {r : Except PyExc c.Reply}
    (ha : LockAnswer s c r s') : ∀ e, r = .error e → e.type ≠ .lockError := by
  cases ha with
  | closed h r hr => exact hr
  | raised e hc he =>
    intro e' heq
    cases heq
    exact he
  | opened | taken h k hf | unlocked h | side c => exact nofun

theorem LockAnswer.pinned {s s' : Flock} {c : Syscall} {r : Except PyExc c.Reply}
    (ha : LockAnswer s c r s') (h : s.Pinned) : s'.Pinned := by
  cases ha with
  | opened => exact h.opened
  | taken h' k hf => exact h.take h'
  | unlocked h' => exact h.unlock h'
  | closed h' r hr => exact h.closeAll _
  | side c => exact h
  | raised e hc he => exact h

/-- What is known of the handles of an object between its calls and in one. -/
def FileLockUser.Keeps (u : FileLockUser) (v : Handles) : Prop :=
  match u.running with
  | none => v.Fits u.self ∧ (∀ event, u.last = some event →
      (event.acquired → v.held.isSome = true) ∧ (event.over → v.opens = []))
  | some (method, p) => OnOwn p v (Handles.Left method.acquires)

theorem FileLockCall.program_left {self : FileLock} {v : Handles} (hf : v.Fits self) (call : FileLockCall) :
    OnOwn (call.program self) v (Handles.Left call.acquires) := by
  cases call with
  | acquire cfg => exact FileLock.acquire_left cfg hf
  | release => exact FileLock.release_left hf

/-- What is known when a call has ended. -/
theorem Handles.Left.keeps {call : FileLockCall} {r : Except PyExc Unit} {self : FileLock} {v : Handles}
    (h : v.Left call.acquires (.ok (r, self))) :
    FileLockUser.Keeps ⟨self, none, some (.ended call r)⟩ v := by
  obtain ⟨out, self', he, hf, hacq, hover⟩ := h
  cases he
  refine ⟨hf, fun event hev => ?_⟩
  cases hev
  cases call with
  | release => exact ⟨False.elim, fun _ => hover (.inl rfl)⟩
  | acquire cfg =>
    cases r with
    | ok u => exact ⟨fun _ => hacq rfl rfl, False.elim⟩
    | error e => exact ⟨False.elim, fun he => hover (.inr ⟨e, rfl, he⟩)⟩

namespace Locking

variable {process : Nat → Nat} {entry : Option Nat} {m m' : Locking}

/-- The invariant: all handles are of one file, and of each object is known what it needs. -/
structure Inv (m : Locking) : Prop where
  pinned : m.dir.Pinned
  users : ∀ o, ∃ v : Handles, v.Describes m.dir m.owner o ∧ (m.users o).Keeps v

theorem inv_start (entry : Option Nat) : Inv (start entry) :=
  ⟨Flock.pinned_start entry, fun _ => ⟨⟨[], [], none⟩, ⟨nofun, nofun, nofun⟩,
    ⟨nofun, nofun⟩, nofun⟩⟩

theorem Inv.set {o : Nat} {u : FileLockUser} (h : Inv m) {v : Handles}
    (hd : v.Describes m.dir m.owner o) (hu : u.Keeps v) : Inv { m with users := m.set o u } := by
  refine ⟨h.pinned, fun o' => ?_⟩
  by_cases he : o' = o
  · subst he
    refine ⟨v, hd, ?_⟩
    show (Function.update m.users o' u o').Keeps v
    rw [Function.update_self]
    exact hu
  · obtain ⟨v', hd', hu'⟩ := h.users o'
    refine ⟨v', hd', ?_⟩
    show (Function.update m.users o u o').Keeps v'
    rw [Function.update_of_ne he]
    exact hu'

theorem Step.inv (hs : Step process m m') (h : Inv m) : Inv m' := by
  cases hs with
  | begin o call hr =>
    obtain ⟨v, hd, hu⟩ := h.users o
    unfold FileLockUser.Keeps at hu
    rw [hr] at hu
    exact h.set hd (call.program_left hu.1)
  | @answer o call c k r dir' hr ha =>
    obtain ⟨v, hd, hu⟩ := h.users o
    unfold FileLockUser.Keeps at hu
    rw [hr] at hu
    obtain ⟨hp, hnext⟩ := hu
    refine ⟨ha.pinned h.pinned, fun o' => ?_⟩
    by_cases he : o' = o
    · subst he
      refine ⟨v.next c r, hd.own h.pinned hp ha, ?_⟩
      show (Function.update m.users o' _ o').Keeps _
      rw [Function.update_self]
      exact hnext r _ ⟨ha.foreign, rfl⟩
    · obtain ⟨v', hd', hu'⟩ := h.users o'
      refine ⟨v', hd.frame hd' he h.pinned hp ha, ?_⟩
      show (Function.update m.users o _ o').Keeps v'
      rw [Function.update_of_ne he]
      exact hu'
  | @finish o call r self hr =>
    obtain ⟨v, hd, hu⟩ := h.users o
    unfold FileLockUser.Keeps at hu
    rw [hr] at hu
    exact h.set hd (Handles.Left.keeps hu)
  | crash p =>
    refine ⟨h.pinned.closeAll _, fun o => ?_⟩
    by_cases hp : process o = p
    · refine ⟨⟨[], [], none⟩, ⟨nofun, fun h i hi ho => ?_, nofun⟩, ?_⟩
      · have hnone : (m.dir.closeAll fun h => process (m.owner h) = p).file h = none :=
          Flock.file_closeAll ((congrArg process ho).trans hp)
        cases hnone.symm.trans hi
      · show (if process o = p then _ else _ : FileLockUser).Keeps _
        rw [if_pos hp]
        exact ⟨⟨nofun, nofun⟩, fun event hev => by cases hev; exact ⟨False.elim, fun _ => rfl⟩⟩
    · obtain ⟨v, hd, hu⟩ := h.users o
      refine ⟨v, ⟨hd.mine, fun h i hi ho => ?_, fun h hh => ?_⟩, ?_⟩
      · have hkept : (m.dir.closeAll fun h => process (m.owner h) = p).file h = m.dir.file h :=
          Flock.file_closeAll_ne fun e => hp ((congrArg process ho).symm.trans e)
        exact hd.opens h i (hkept.symm.trans hi) ho
      · obtain ⟨ho, hold⟩ := hd.held h hh
        exact ⟨ho, hold.closeAll fun e => hp ((congrArg process ho).symm.trans e)⟩
      · show (if process o = p then _ else _ : FileLockUser).Keeps _
        rw [if_neg hp]
        exact hu

theorem reachable_inv (h : Reachable process entry m) : Inv m := by
  induction h with
  | start => exact inv_start entry
  | step _ hs ih => exact hs.inv ih

/-- The path stays bound to the file it is bound to. -/
theorem Step.bound {i : Nat} (hs : Step process m m') (h : m.dir.entry = some i) :
    m'.dir.entry = some i := by
  cases hs with
  | answer hr ha =>
    cases ha with
    | opened => exact Flock.Pinned.entry_opened h
    | taken handle k hf => exact Flock.entry_take.trans h
    | _ => exact h
  | _ => exact h

end Locking

/-- **Mutual exclusion**: in every interleaving at most one object has the lock, and so at most one
    process. An object whose `acquire` has returned has it; after a `release`, an `acquire` that
    raised `LockError` and a crash the object has no open handle and not the lock. Every open handle
    is one of the file the path is bound to. -/
theorem mutual_exclusion {process : Nat → Nat} {entry : Option Nat} {m : Locking}
    (h : Locking.Reachable process entry m) :
    (∀ o o', m.Holds o → m.Holds o' → o = o') ∧
    (∀ o event, m.Idle o event → event.acquired → m.Holds o) ∧
    (∀ o event, m.Idle o event → event.over →
      (∀ handle, m.owner handle = o → m.dir.file handle = none) ∧ ¬ m.Holds o) ∧
    ∀ handle i, m.dir.file handle = some i → m.dir.entry = some i := by
  have hinv := Locking.reachable_inv h
  refine ⟨fun o o' ho ho' => ?_, fun o event hi hacq => ?_, fun o event hi hover => ?_,
    hinv.pinned.bound⟩
  · obtain ⟨handle, rfl, hold⟩ := ho
    obtain ⟨handle', rfl, hold'⟩ := ho'
    rw [hinv.pinned.exclusive hold hold']
  · obtain ⟨v, hd, hu⟩ := hinv.users o
    unfold FileLockUser.Keeps at hu
    rw [hi.1] at hu
    obtain ⟨handle, hh⟩ := Option.isSome_iff_exists.mp ((hu.2 event hi.2).1 hacq)
    exact ⟨handle, hd.held handle hh⟩
  · obtain ⟨v, hd, hu⟩ := hinv.users o
    unfold FileLockUser.Keeps at hu
    rw [hi.1] at hu
    have hopens := (hu.2 event hi.2).2 hover
    have hnone (handle : Nat) (ho : m.owner handle = o) : m.dir.file handle = none := by
      refine Option.eq_none_iff_forall_ne_some.mpr fun i hfile => ?_
      have := hd.opens handle i hfile ho
      rw [hopens] at this
      cases this
    refine ⟨hnone, fun hholds => ?_⟩
    obtain ⟨handle, ho, i, hfile, -⟩ := hholds
    cases (hnone handle ho).symm.trans hfile

/-- Two objects of two processes on a file that did not exist. The second cannot take the lock while
    the first has it, takes it when the process of the first has crashed, and gives it back. -/
theorem lock_changes_hands : ∃ m m' m'', Locking.Reachable id none m ∧ m.Holds 0 ∧
    m.Idle 1 (.ended (.acquire ⟨false, 0⟩) (.error lockTimeout)) ∧ ¬ m.Holds 1 ∧
    Locking.Reachable id none m' ∧ m'.Idle 0 .crashed ∧ ¬ m'.Holds 0 ∧ m'.Holds 1 ∧
    Locking.Reachable id none m'' ∧ m''.Holds 0 ∧ m''.Idle 1 (.ended .release (.ok ())) ∧
    ∀ o, m''.Holds o → o = 0 := by
  -- the first object takes the lock
  have h := (@Locking.Reachable.start id none).step (.begin 0 (.acquire ⟨false, 0⟩) rfl)
  have h := h.step (.answer (o := 0) rfl (.side .makeLockDir))
  have h := h.step (.answer (o := 0) rfl .opened)
  have h := h.step (.answer (o := 0) rfl (.taken 0 0 ⟨0, rfl, .inl rfl⟩))
  have h := h.step (@Locking.Step.finish id _ 0 (.acquire ⟨false, 0⟩) (.ok ()) ⟨some 0, true⟩ rfl)
  -- the second tries it once, and closes its file
  have h := h.step (.begin 1 (.acquire ⟨false, 0⟩) rfl)
  have h := h.step (.answer (o := 1) rfl (.side .makeLockDir))
  have h := h.step (.answer (o := 1) rfl .opened)
  have h := h.step (.answer (o := 1) rfl (.raised (.builtin .osError) nofun nofun))
  have h := h.step (.answer (o := 1) rfl (.closed 1 (.ok ()) nofun))
  have h := h.step
    (@Locking.Step.finish id _ 1 (.acquire ⟨false, 0⟩) (.error lockTimeout) ⟨none, false⟩ rfl)
  -- the first process ends, and the second object tries again
  have h' := h.step (.crash 0)
  have h' := h'.step (.begin 1 (.acquire ⟨false, 0⟩) rfl)
  have h' := h'.step (.answer (o := 1) rfl (.side .makeLockDir))
  have h' := h'.step (.answer (o := 1) rfl .opened)
  have h' := h'.step (.answer (o := 1) rfl (.taken 2 0 ⟨0, rfl, .inl rfl⟩))
  have h' := h'.step (@Locking.Step.finish id _ 1 (.acquire ⟨false, 0⟩) (.ok ()) ⟨some 2, true⟩ rfl)
  -- the second gives it back, and a new process takes it
  have h'' := h'.step (.begin 1 .release rfl)
  have h'' := h''.step (.answer (o := 1) rfl (.unlocked 2))
  have h'' := h''.step (.answer (o := 1) rfl (.closed 2 (.ok ()) nofun))
  have h'' := h''.step (@Locking.Step.finish id _ 1 .release (.ok ()) ⟨none, false⟩ rfl)
  have h'' := h''.step (.begin 0 (.acquire ⟨false, 0⟩) rfl)
  have h'' := h''.step (.answer (o := 0) rfl (.side .makeLockDir))
  have h'' := h''.step (.answer (o := 0) rfl .opened)
  have h'' := h''.step (.answer (o := 0) rfl (.taken 3 0 ⟨0, rfl, .inl rfl⟩))
  have h'' := h''.step (@Locking.Step.finish id _ 0 (.acquire ⟨false, 0⟩) (.ok ()) ⟨some 3, true⟩ rfl)
  obtain ⟨-, hhas, hnot, -⟩ := mutual_exclusion h
  obtain ⟨-, hhas', hnot', -⟩ := mutual_exclusion h'
  obtain ⟨hone, hhas'', -⟩ := mutual_exclusion h''
  have h0 := hhas'' 0 _ ⟨rfl, rfl⟩ trivial
  exact ⟨_, _, _, h, hhas 0 _ ⟨rfl, rfl⟩ trivial, ⟨rfl, rfl⟩, (hnot 1 _ ⟨rfl, rfl⟩ rfl).2,
    h', ⟨rfl, rfl⟩, (hnot' 0 _ ⟨rfl, rfl⟩ trivial).2, hhas' 1 _ ⟨rfl, rfl⟩ trivial,
    h'', h0, ⟨rfl, rfl⟩, fun o ho => hone o 0 ho h0⟩

end JsonDatabase
