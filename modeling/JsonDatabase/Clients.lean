/-
  File:      JsonDatabase/Clients.lean
  Subject:   Any number of clients on one database, call by call.

  A step makes one system call of one client, starts or finishes an operation, or crashes a client,
  which releases the lock if one of its lock files holds it. Any call may raise any exception; then
  it has done nothing, except that a lock file that is closed is closed. `os.replace` is one step.

  * `System`, `System.Step` -- the clients, the commits so far, and the steps;
  * `Replay` -- each commit made from what the one before it left;
  * `no_lost_update` -- the file is the replay of the commits, in every interleaving;
  * `reads_in_order` -- a load without the lock returns one of them, and never an older one later.
-/
import JsonDatabase.Protocol
import JsonDatabase.Interpreter

namespace JsonDatabase

open Interaction

/-! ## 1. Answers -/

/-- What a call that raises leaves. -/
def failed : Syscall → World → World
  | .closeLock h, w => w.release h
  | _, w => w

/-- What a call that returns returns and leaves. -/
def Succeeds : (c : Syscall) → World → c.Reply → World → Prop
  | .pathExists, w, b, w' => b = w.file.isSome ∧ w' = w
  | .readBytes _, w, raw, w' => w.file = some raw ∧ w' = w
  | .openLock, w, h, w' => h = w.handles ∧ w' = { w with handles := w.handles + 1 }
  | .tryLock h _, w, _, w' => w.lock = none ∧ w' = { w with lock := some h }
  | .unlock h, w, _, w' => w' = w.release h
  | .closeLock h, w, _, w' => w' = w.release h
  | .replace data _, w, _, w' => w' = { w with file := some data }
  | _, w, _, w' => w' = w

/-- An answer to a call. -/
inductive Answers (c : Syscall) (w : World) : Except PyExc c.Reply → World → Prop
  | raised (e : PyExc) : Answers c w (.error e) (failed c w)
  | returned {a : c.Reply} {w' : World} : Succeeds c w a w' → Answers c w (.ok a) w'

/-- Whatever outcomes are assigned to the calls. -/
theorem perform_answers (env : Env) (c : Syscall) (w : World) :
    Answers c w (perform env c w).1 (perform env c w).2 := by
  have hanswer {c : Syscall} {a : c.Reply} {f : Option Fault} {w' : World}
      (h : Succeeds c w a w') (hf : failed c w = w) :
      Answers c w (answer f a w w').1 (answer f a w w').2 := by
    cases f with
    | none => exact .returned h
    | some f =>
      have hr := Answers.raised (c := c) (w := w) f.exc
      rw [hf] at hr
      exact hr
  cases c with
  | now which => exact .returned rfl
  | compute => exact .returned rfl
  | pathExists => exact hanswer ⟨rfl, rfl⟩ rfl
  | readBytes k =>
    cases hf : w.file with
    | none =>
      simp only [perform, hf]
      exact .raised _
    | some raw =>
      rw [perform_readBytes hf]
      exact hanswer ⟨hf, rfl⟩ rfl
  | statTarget => exact hanswer rfl rfl
  | openLock => exact hanswer ⟨rfl, rfl⟩ rfl
  | tryLock h k =>
    cases hl : w.lock with
    | none =>
      rw [perform_tryLock_free hl]
      exact hanswer ⟨hl, rfl⟩ rfl
    | some other =>
      rw [perform_tryLock_held hl]
      exact .raised _
  | unlock h => exact hanswer rfl rfl
  | closeLock h =>
    simp only [perform]
    cases env.fails (.closeLock h) with
    | none => exact .returned rfl
    | some f => exact .raised _
  | replace data k => exact hanswer rfl rfl
  | side c => exact hanswer rfl rfl

/-! ## 2. The clients -/

/-- A replacement of the file, with the operation that made it. -/
structure Commit where
  op : Nat
  job : Job
  data : Bytes

/-- An operation in the middle of its program; `point` is the number of commits when the operation
    last looked at the file. -/
structure Running where
  op : Nat
  job : Job
  point : Nat
  rest : Prog (Option State)

/-- An operation that has ended. -/
structure Finished where
  op : Nat
  client : Nat
  job : Job
  point : Nat
  result : Except PyExc (Option State)

/-- The clients in their world; `owner` is the client that opened a lock file. The commits, the
    operations that have ended and the numbers of the operations only record what happened. -/
structure System where
  world : World
  clients : Nat → Option Running
  owner : Nat → Nat
  log : List Commit
  finished : List Finished
  nextOp : Nat

namespace System

/-- No client is doing anything. -/
def start (file : Option Bytes) : System :=
  ⟨⟨file, none, 0⟩, fun _ => none, fun _ => 0, [], [], 0⟩

/-- The call looks at the file. -/
def looks : Syscall → Bool
  | .pathExists | .readBytes _ => true
  | _ => false

/-- A lock file belongs to the client that opened it. -/
def ownerAfter (s : System) (i : Nat) : (c : Syscall) → Except PyExc c.Reply → Nat → Nat
  | .openLock, .ok h => Function.update s.owner h i
  | _, _ => s.owner

def logAfter (s : System) (run : Running) : (c : Syscall) → Except PyExc c.Reply → List Commit
  | .replace data _, .ok _ => s.log ++ [⟨run.op, run.job, data⟩]
  | _, _ => s.log

/-- The system after a call of client `i` was answered. -/
def answered (s : System) (i : Nat) (run : Running) (c : Syscall) (r : Except PyExc c.Reply)
    (w' : World) (rest : Prog (Option State)) : System :=
  { s with
    world := w'
    clients := Function.update s.clients i
      (some { run with rest := rest, point := if looks c then s.log.length else run.point })
    owner := s.ownerAfter i c r
    log := s.logAfter run c r }

/-- The lock is released if a lock file of the client holds it. -/
def dropLock (s : System) (i : Nat) : World :=
  match s.world.lock with
  | some h => if s.owner h = i then s.world.release h else s.world
  | none => s.world

inductive Step (rt : Runtime) (cp : Copier) : System → System → Prop
  | start {s : System} (i : Nat) (cfg : Settings) (job : Job) : s.clients i = none →
      Step rt cp s { s with
        clients := Function.update s.clients i
          (some ⟨s.nextOp, job, s.log.length, job.program rt cp cfg⟩)
        nextOp := s.nextOp + 1 }
  | call {s : System} {i : Nat} {run : Running} {c : Syscall}
      {k : Except PyExc c.Reply → Prog (Option State)} {r : Except PyExc c.Reply} {w' : World} :
      s.clients i = some run → run.rest = .call c k → Answers c s.world r w' →
        Step rt cp s (s.answered i run c r w' (k r))
  | finish {s : System} {i : Nat} {run : Running} {r : Except PyExc (Option State)} :
      s.clients i = some run → run.rest = .done r →
        Step rt cp s { s with
          clients := Function.update s.clients i none
          finished := ⟨run.op, i, run.job, run.point, r⟩ :: s.finished }
  | crash {s : System} (i : Nat) : Step rt cp s { s with
      clients := Function.update s.clients i none
      world := s.dropLock i }

/-- The systems that steps lead to. -/
inductive Reachable (rt : Runtime) (cp : Copier) (s₀ : System) : System → Prop
  | start : Reachable rt cp s₀ s₀
  | step {s s' : System} : Reachable rt cp s₀ s → Step rt cp s s' → Reachable rt cp s₀ s'

end System

/-- The content of the file after these commits. -/
def fileAfter (file : Option Bytes) (log : List Commit) : Option Bytes :=
  match log.getLast? with
  | some c => some c.data
  | none => file

/-- Each commit was made from what the one before it left. -/
inductive Replay (rt : Runtime) (cp : Copier) (file : Option Bytes) : List Commit → Prop
  | nil : Replay rt cp file []
  | snoc {log : List Commit} {c : Commit} : Replay rt cp file log →
      c.job.Commits rt cp (fileAfter file log) c.data → Replay rt cp file (log ++ [c])

@[simp] theorem fileAfter_snoc (file : Option Bytes) (log : List Commit) (c : Commit) :
    fileAfter file (log ++ [c]) = some c.data := by
  unfold fileAfter
  rw [List.getLast?_concat]

/-- There is no file only if there was none and nothing was committed. -/
theorem fileAfter_eq_none {file : Option Bytes} {log : List Commit}
    (h : fileAfter file log = none) : log = [] ∧ file = none := by
  unfold fileAfter at h
  cases hl : log.getLast? with
  | none =>
    rw [hl] at h
    exact ⟨List.getLast?_eq_none_iff.mp hl, h⟩
  | some c =>
    rw [hl] at h
    cases h

/-! ## 3. What a call does to the others -/

/-- Client `i` changed the world: the file only while it held the lock, and the lock only between
    its own lock files. -/
structure Change (owner : Nat → Nat) (i : Nat) (w w' : World) : Prop where
  handles : w.handles ≤ w'.handles
  file : w'.file = w.file ∨ ∃ h, w.lock = some h ∧ owner h = i
  lock : ∀ h, h < w.handles → owner h ≠ i → (w'.lock = some h ↔ w.lock = some h)

theorem Change.refl (owner : Nat → Nat) (i : Nat) (w : World) : Change owner i w w :=
  ⟨le_rfl, Or.inl rfl, fun _ _ _ => Iff.rfl⟩

theorem Change.release {owner : Nat → Nat} {i h : Nat} (w : World) (ho : owner h = i) :
    Change owner i w (w.release h) where
  handles := le_rfl
  file := Or.inl rfl
  lock h' _ hne := by
    have hh : h ≠ h' := by
      rintro rfl
      exact hne ho
    show (if w.lock = some h then none else w.lock) = some h' ↔ _
    by_cases hl : w.lock = some h
    · rw [if_pos hl, hl]
      exact iff_of_false nofun fun e => hh (Option.some.inj e)
    · rw [if_neg hl]

namespace Phase

/-- The world is as the phase says. -/
def Fits (ph : Phase) (owner : Nat → Nat) (w : World) (i : Nat) : Prop :=
  (∀ h, ph.handle = some h → h < w.handles ∧ owner h = i) ∧
    match ph with
    | .opened h _ => w.lock ≠ some h
    | .holding h file => w.lock = some h ∧ w.file = file
    | .committed h => w.lock = some h
    | _ => True

/-- What was seen without the lock is this content. -/
def Witnessed : Phase → Option Bytes → Prop
  | .looked false, content => content = none
  | .got raw, content => content = some raw
  | _, _ => True

variable {ph : Phase} {owner owner' : Nat → Nat} {w w' : World} {i j : Nat}

/-- The phase of another client still fits. -/
theorem Fits.frame (h : ph.Fits owner w j) (hij : i ≠ j) (hc : Change owner i w w')
    (ho : ∀ h, h < w.handles → owner' h = owner h) : ph.Fits owner' w' j := by
  obtain ⟨hhandle, hph⟩ := h
  refine ⟨fun h hh => ?_, ?_⟩
  · obtain ⟨hlt, hj⟩ := hhandle h hh
    exact ⟨hlt.trans_le hc.handles, (ho h hlt).trans hj⟩
  · have hlock {h : Nat} (hh : ph.handle = some h) : w'.lock = some h ↔ w.lock = some h := by
      obtain ⟨hlt, hj⟩ := hhandle h hh
      exact hc.lock h hlt fun e => hij (e.symm.trans hj)
    cases ph with
    | opened h b => exact fun hl => hph ((hlock rfl).mp hl)
    | committed h => exact (hlock rfl).mpr hph
    | holding h file =>
      refine ⟨(hlock rfl).mpr hph.1, ?_⟩
      rcases hc.file with hf | ⟨h', hl, hi⟩
      · exact hf.trans hph.2
      · obtain rfl := Option.some.inj (hph.1.symm.trans hl)
        exact absurd (hi.symm.trans (hhandle h rfl).2) hij
    | out b | looked b | got raw => trivial

end Phase

section

variable {rt : Runtime} {cp : Copier} {s : System} {i : Nat} {run : Running} {c : Syscall}
  {r : Except PyExc c.Reply} {w' : World} {ph : Phase}

theorem ownerAfter_old (ha : Answers c s.world r w') {h : Nat} (hh : h < s.world.handles) :
    s.ownerAfter i c r h = s.owner h := by
  cases ha with
  | raised e => cases c <;> rfl
  | @returned a w' hs =>
    cases c with
    | openLock =>
      have hne : h ≠ a := fun e => hh.ne (e.trans hs.1)
      exact Function.update_of_ne hne ..
    | _ => rfl

/-- What a permitted call of client `i` does to the world. -/
theorem answers_change (hf : ph.Fits s.owner s.world i) (hp : Permits rt cp run.job ph c)
    (ha : Answers c s.world r w') : Change s.owner i s.world w' := by
  cases ha with
  | raised e =>
    cases c with
    | closeLock h => exact .release _ (hf.1 h hp).2
    | _ => exact .refl _ _ _
  | @returned a w' hs =>
    cases c with
    | openLock =>
      obtain ⟨-, rfl⟩ := hs
      exact ⟨Nat.le_succ _, Or.inl rfl, fun _ _ _ => Iff.rfl⟩
    | tryLock h k =>
      obtain ⟨hfree, rfl⟩ := hs
      obtain rfl : ph = .opened h false := hp
      refine ⟨le_rfl, Or.inl rfl, fun h' _ hne => ?_⟩
      rw [hfree]
      refine iff_of_false (fun e => ?_) nofun
      obtain rfl := Option.some.inj e
      exact hne (hf.1 h rfl).2
    | unlock h =>
      obtain rfl : w' = s.world.release h := hs
      refine .release _ (hf.1 h ?_).2
      rcases hp with ⟨file, rfl⟩ | rfl <;> rfl
    | closeLock h =>
      obtain rfl : w' = s.world.release h := hs
      exact .release _ (hf.1 h hp).2
    | replace data k =>
      obtain rfl : w' = { s.world with file := some data } := hs
      obtain ⟨h, file, rfl, -⟩ := hp
      exact ⟨le_rfl, Or.inr ⟨h, hf.2.1, (hf.1 h rfl).2⟩, fun _ _ _ => Iff.rfl⟩
    | pathExists =>
      obtain ⟨-, rfl⟩ := hs
      exact .refl _ _ _
    | readBytes k =>
      obtain ⟨-, rfl⟩ := hs
      exact .refl _ _ _
    | now _ | compute | statTarget | side _ =>
      obtain rfl : w' = s.world := hs
      exact .refl _ _ _

/-- The phase after the call, which fits again. -/
theorem answers_next (hf : ph.Fits s.owner s.world i) (hp : Permits rt cp run.job ph c)
    (ha : Answers c s.world r w') (hlock : ∀ h, s.world.lock = some h → h < s.world.handles) :
    ∃ ph', ph.Next c r ph' ∧ ph'.Fits (s.ownerAfter i c r) w' i := by
  cases ha with
  | raised e =>
    cases c with
    | closeLock h => exact ⟨.out ph.wrote, rfl, fun _ hh => (nomatch hh), trivial⟩
    | _ => exact ⟨ph, rfl, hf⟩
  | @returned a w' hs =>
    cases c with
    | openLock =>
      obtain ⟨rfl, rfl⟩ := hs
      refine ⟨.opened s.world.handles ph.wrote, rfl, fun h hh => ?_, fun hl => ?_⟩
      · cases hh
        exact ⟨Nat.lt_succ_self _, Function.update_self ..⟩
      · exact absurd (hlock _ hl) (lt_irrefl _)
    | tryLock h k =>
      obtain ⟨-, rfl⟩ := hs
      obtain rfl : ph = .opened h false := hp
      exact ⟨.holding h s.world.file, ⟨_, rfl⟩, fun h' hh => hf.1 h' hh, rfl, rfl⟩
    | unlock h =>
      obtain rfl : w' = s.world.release h := hs
      have hh : ph.handle = some h := by rcases hp with ⟨file, rfl⟩ | rfl <;> rfl
      exact ⟨.opened h ph.wrote, rfl, fun h' hh' => hf.1 h' (hh.trans hh'), World.release_lock_ne _ _⟩
    | closeLock h => exact ⟨.out ph.wrote, rfl, fun _ hh => (nomatch hh), trivial⟩
    | replace data k =>
      obtain rfl : w' = { s.world with file := some data } := hs
      obtain ⟨h, file, rfl, -⟩ := hp
      exact ⟨.committed h, rfl, fun h' hh => hf.1 h' hh, hf.2.1⟩
    | pathExists =>
      obtain ⟨rfl, rfl⟩ := hs
      rcases hp with ⟨h, file, rfl⟩ | rfl
      · exact ⟨.holding h file, ⟨by rw [hf.2.2], rfl⟩, hf⟩
      · exact ⟨.looked s.world.file.isSome, rfl, fun _ hh => (nomatch hh), trivial⟩
    | readBytes k =>
      obtain ⟨hfile, rfl⟩ := hs
      rcases hp with ⟨h, file, rfl⟩ | rfl
      · exact ⟨.holding h file, ⟨hf.2.2.symm.trans hfile, rfl⟩, hf⟩
      · exact ⟨.got a, rfl, fun _ hh => (nomatch hh), trivial⟩
    | now _ | compute | statTarget | side _ =>
      obtain rfl : w' = s.world := hs
      exact ⟨ph, rfl, hf⟩

/-- The lock stays with a lock file that was opened. -/
theorem answers_lock (hf : ph.Fits s.owner s.world i) (hp : Permits rt cp run.job ph c)
    (ha : Answers c s.world r w') (hlock : ∀ h, s.world.lock = some h → h < s.world.handles) (h : Nat)
    (hl : w'.lock = some h) : h < w'.handles := by
  cases ha with
  | raised e =>
    cases c with
    | closeLock handle => exact hlock h (World.release_lock hl).1
    | _ => exact hlock h hl
  | @returned a w' hs =>
    cases c with
    | openLock =>
      obtain ⟨-, rfl⟩ := hs
      exact (hlock h hl).trans (Nat.lt_succ_self _)
    | tryLock handle k =>
      obtain ⟨-, rfl⟩ := hs
      obtain rfl : ph = .opened handle false := hp
      obtain rfl := Option.some.inj hl
      exact (hf.1 _ rfl).1
    | unlock handle | closeLock handle =>
      obtain rfl : w' = s.world.release handle := hs
      exact hlock h (World.release_lock hl).1
    | replace data k =>
      obtain rfl : w' = { s.world with file := some data } := hs
      exact hlock h hl
    | pathExists | readBytes k =>
      obtain ⟨-, rfl⟩ := hs
      exact hlock h hl
    | now _ | compute | statTarget | side _ =>
      obtain rfl : w' = s.world := hs
      exact hlock h hl

/-- What the call adds to the commits. -/
theorem answers_log (hf : ph.Fits s.owner s.world i) (hp : Permits rt cp run.job ph c)
    (ha : Answers c s.world r w') : (s.logAfter run c r = s.log ∧ w'.file = s.world.file) ∨
      ∃ h data, ph = .holding h s.world.file ∧ run.job.Commits rt cp s.world.file data ∧
        s.logAfter run c r = s.log ++ [⟨run.op, run.job, data⟩] ∧ w'.file = some data := by
  cases ha with
  | raised e => cases c <;> exact Or.inl ⟨rfl, rfl⟩
  | @returned a w' hs =>
    cases c with
    | replace data k =>
      obtain rfl : w' = { s.world with file := some data } := hs
      obtain ⟨h, file, rfl, hc⟩ := hp
      obtain rfl := hf.2.2
      exact Or.inr ⟨h, data, rfl, hc, rfl, rfl⟩
    | openLock | tryLock _ _ | pathExists | readBytes _ => exact Or.inl ⟨rfl, by rw [hs.2]⟩
    | unlock _ | closeLock _ | now _ | compute | statTarget | side _ =>
      exact Or.inl ⟨rfl, by rw [show w' = _ from hs]; try rfl⟩

end

/-! ## 4. The invariant -/

/-- The operations that have replaced the file. -/
def opsOf (log : List Commit) : List Nat := log.map Commit.op

/-- An operation that ended: a load returned what it saw, another one that returned has written. -/
def Finished.Holds (rt : Runtime) (file : Option Bytes) (log : List Commit) (e : Finished) : Prop :=
  e.point ≤ log.length ∧ ∀ a, e.result = .ok a →
    match e.job with
    | .load => ∃ state t, a = some state ∧
        load rt t (onDisk (fileAfter file (log.take e.point))) = .ok state
    | _ => e.op ∈ opsOf log

/-- Client `i` is in this phase of its operation. -/
structure ClientInv (rt : Runtime) (cp : Copier) (file : Option Bytes) (s : System) (i : Nat)
    (run : Running) (ph : Phase) : Prop where
  abides : Abides rt cp run.job run.rest ph fun r ph => run.job.Ends rt r ph
  fits : ph.Fits s.owner s.world i
  wrote : ph.wrote = true ↔ run.op ∈ opsOf s.log
  witnessed : ph.Witnessed (fileAfter file (s.log.take run.point))
  number : run.op < s.nextOp
  point : run.point ≤ s.log.length
  later : ∀ e ∈ s.finished, e.client = i → e.point ≤ run.point

/-- What holds between the calls: the file is the replay of the commits, and every running
    operation is in some phase. -/
structure System.Inv (rt : Runtime) (cp : Copier) (file : Option Bytes) (s : System) : Prop where
  clients : ∀ i run, s.clients i = some run → ∃ ph, ClientInv rt cp file s i run ph
  apart : ∀ i j run run', s.clients i = some run → s.clients j = some run' → run.op = run'.op → i = j
  replay : Replay rt cp file s.log
  current : s.world.file = fileAfter file s.log
  once : (opsOf s.log).Nodup
  numbers : ∀ op ∈ opsOf s.log, op < s.nextOp
  lock : ∀ h, s.world.lock = some h → h < s.world.handles
  ended : ∀ e ∈ s.finished, e.Holds rt file s.log
  order : s.finished.Pairwise fun later earlier =>
    later.client = earlier.client → earlier.point ≤ later.point

/-- More commits do not change what an operation has returned. -/
theorem Finished.Holds.append {rt : Runtime} {file : Option Bytes} {log ext : List Commit}
    {e : Finished} (h : e.Holds rt file log) : e.Holds rt file (log ++ ext) := by
  obtain ⟨hpoint, hres⟩ := h
  refine ⟨hpoint.trans (by simp), fun a ha => ?_⟩
  have hr := hres a ha
  rw [List.take_append_of_le_length hpoint]
  have hmem (hop : e.op ∈ opsOf log) : e.op ∈ opsOf (log ++ ext) := by
    unfold opsOf
    rw [List.map_append]
    exact List.mem_append_left _ hop
  cases hj : e.job with
  | load =>
    rw [hj] at hr
    exact hr
  | update _ | createEmpty _ | transaction _ =>
    rw [hj] at hr
    exact hmem hr

section

variable {rt : Runtime} {cp : Copier} {file : Option Bytes} {s : System}

theorem System.start_inv (rt : Runtime) (cp : Copier) (file : Option Bytes) :
    (System.start file).Inv rt cp file where
  clients _ _ h := nomatch h
  apart _ _ _ _ h := nomatch h
  replay := .nil
  current := rfl
  once := List.nodup_nil
  numbers _ h := nomatch h
  lock _ h := nomatch h
  ended _ h := nomatch h
  order := .nil

/-- The running operation of a client, after one client was set. -/
theorem update_some {clients : Nat → Option Running} {i j : Nat} {v : Option Running} {run : Running}
    (h : Function.update clients i v j = some run) :
    j = i ∧ v = some run ∨ j ≠ i ∧ clients j = some run := by
  by_cases hij : j = i
  · subst hij
    rw [Function.update_self] at h
    exact Or.inl ⟨rfl, h⟩
  · rw [Function.update_of_ne hij] at h
    exact Or.inr ⟨hij, h⟩

/-- Starting an operation. -/
theorem System.Inv.start (h : s.Inv rt cp file) (i : Nat) (cfg : Settings) (job : Job) :
    System.Inv rt cp file { s with
      clients := Function.update s.clients i (some ⟨s.nextOp, job, s.log.length, job.program rt cp cfg⟩)
      nextOp := s.nextOp + 1 } := by
  have hnew {j : Nat} {run : Running} (hj : s.clients j = some run) : run.op ≠ s.nextOp := by
    obtain ⟨ph, hc⟩ := h.clients j run hj
    exact hc.number.ne
  refine { h with
    clients := fun j run hj => ?_
    apart := fun j k run run' hj hk hop => ?_
    numbers := fun op hop => (h.numbers op hop).trans (Nat.lt_succ_self _) }
  · rcases update_some hj with ⟨rfl, hv⟩ | ⟨-, hj⟩
    · cases hv
      refine ⟨.out false, Job.follows cfg job, ⟨fun _ hh => (nomatch hh), trivial⟩, ?_, trivial,
        Nat.lt_succ_self _, le_rfl, fun e he _ => (h.ended e he).1⟩
      exact iff_of_false Bool.false_ne_true fun hop => absurd (h.numbers _ hop) (lt_irrefl _)
    · obtain ⟨ph, hc⟩ := h.clients j run hj
      exact ⟨ph, { hc with number := hc.number.trans (Nat.lt_succ_self _) }⟩
  · rcases update_some hj with ⟨hji, hv⟩ | ⟨-, hj'⟩
    · rcases update_some hk with ⟨hki, -⟩ | ⟨-, hk'⟩
      · exact hji.trans hki.symm
      · cases hv
        exact absurd hop.symm (hnew hk')
    · rcases update_some hk with ⟨-, hv⟩ | ⟨-, hk'⟩
      · cases hv
        exact absurd hop (hnew hj')
      · exact h.apart j k run run' hj' hk' hop

/-- Taking a client away changes nothing for the others. -/
theorem System.Inv.remove (h : s.Inv rt cp file) (i : Nat) {w' : World}
    (hchange : Change s.owner i s.world w') (hfile : w'.file = s.world.file)
    (hlock : ∀ h, w'.lock = some h → h < w'.handles) : System.Inv rt cp file { s with
      clients := Function.update s.clients i none
      world := w' } := by
  have hleft {j : Nat} {run : Running} (hj : Function.update s.clients i none j = some run) :
      j ≠ i ∧ s.clients j = some run := by
    rcases update_some hj with ⟨-, hv⟩ | hj
    · cases hv
    · exact hj
  refine { h with
    clients := fun j run hj => ?_
    apart := fun j k run run' hj hk hop => h.apart j k run run' (hleft hj).2 (hleft hk).2 hop
    current := hfile.trans h.current
    lock := hlock }
  obtain ⟨hij, hj⟩ := hleft hj
  obtain ⟨ph, hc⟩ := h.clients j run hj
  exact ⟨ph, { hc with fits := hc.fits.frame hij.symm hchange fun _ _ => rfl }⟩

/-- What an operation in this phase has done when it ends. -/
theorem ClientInv.holds {i : Nat} {run : Running} {ph : Phase} {r : Except PyExc (Option State)}
    (hc : ClientInv rt cp file s i run ph) (hdone : run.rest = .done r) :
    Finished.Holds rt file s.log ⟨run.op, i, run.job, run.point, r⟩ := by
  have hends : run.job.Ends rt r ph := by
    have ha := hc.abides
    rw [hdone] at ha
    exact ha
  refine ⟨hc.point, fun a ha => ?_⟩
  simp only at ha ⊢
  cases hj : run.job with
  | load =>
    rw [hj] at hends
    obtain ⟨state, t, found, rfl, hsaw, hload⟩ := hends a ha
    refine ⟨state, t, rfl, ?_⟩
    have hw := hc.witnessed
    cases found with
    | missing =>
      obtain rfl : ph = .looked false := hsaw
      rw [show fileAfter file _ = none from hw]
      exact hload
    | unreadable => cases hload
    | bytes raw =>
      obtain rfl : ph = .got raw := hsaw
      rw [show fileAfter file _ = some raw from hw]
      exact hload
  | update _ | createEmpty _ | transaction _ =>
    rw [hj] at hends
    exact hc.wrote.mp (hends a ha)

/-- An operation ends. -/
theorem System.Inv.finish (h : s.Inv rt cp file) {i : Nat} {run : Running}
    {r : Except PyExc (Option State)} (hrun : s.clients i = some run) (hdone : run.rest = .done r) :
    System.Inv rt cp file { s with
      clients := Function.update s.clients i none
      finished := ⟨run.op, i, run.job, run.point, r⟩ :: s.finished } := by
  obtain ⟨ph, hc⟩ := h.clients i run hrun
  have hrest := h.remove i (.refl _ _ _) rfl h.lock
  refine { hrest with
    clients := fun j run' hj => ?_
    ended := List.forall_mem_cons.mpr ⟨hc.holds hdone, h.ended⟩
    order := List.pairwise_cons.mpr ⟨fun e he hclient => hc.later e he hclient.symm, h.order⟩ }
  obtain ⟨ph', hc'⟩ := hrest.clients j run' hj
  refine ⟨ph', { hc' with later := List.forall_mem_cons.mpr ⟨fun hclient => ?_, hc'.later⟩ }⟩
  obtain rfl : i = j := hclient
  rcases update_some hj with ⟨-, hv⟩ | ⟨hne, -⟩
  · cases hv
  · exact absurd rfl hne

/-- A client crashes. -/
theorem System.Inv.crash (h : s.Inv rt cp file) (i : Nat) : System.Inv rt cp file { s with
    clients := Function.update s.clients i none
    world := s.dropLock i } := by
  have hdrop : Change s.owner i s.world (s.dropLock i) ∧ (s.dropLock i).file = s.world.file ∧
      ∀ h, (s.dropLock i).lock = some h → h < (s.dropLock i).handles := by
    unfold System.dropLock
    cases hl : s.world.lock with
    | none => exact ⟨.refl _ _ _, rfl, h.lock⟩
    | some handle =>
      simp only
      by_cases ho : s.owner handle = i
      · rw [if_pos ho]
        exact ⟨.release _ ho, rfl, fun h' hl' => h.lock h' (World.release_lock hl').1⟩
      · rw [if_neg ho]
        exact ⟨.refl _ _ _, rfl, h.lock⟩
  exact h.remove i hdrop.1 hdrop.2.1 hdrop.2.2

/-- The phase after the call says truly whether the operation has written, and what it saw. -/
theorem ClientInv.next {i : Nat} {run : Running} {c : Syscall} {r : Except PyExc c.Reply} {w' : World}
    {ph ph' : Phase} (h : s.Inv rt cp file) (hc : ClientInv rt cp file s i run ph)
    (hp : Permits rt cp run.job ph c) (ha : Answers c s.world r w') (hn : ph.Next c r ph') :
    (ph'.wrote = true ↔ run.op ∈ opsOf (s.logAfter run c r)) ∧
      ph'.Witnessed (fileAfter file ((s.logAfter run c r).take
        (if System.looks c then s.log.length else run.point))) := by
  have hnow : fileAfter file (s.log.take s.log.length) = s.world.file := by
    rw [List.take_length, h.current]
  cases ha with
  | raised e =>
    cases c with
    | closeLock handle =>
      obtain rfl : ph' = .out ph.wrote := hn
      exact ⟨hc.wrote, trivial⟩
    | pathExists =>
      obtain rfl : ph' = ph := hn
      rcases hp with ⟨handle, file', rfl⟩ | rfl
      · exact ⟨hc.wrote, trivial⟩
      · exact ⟨hc.wrote, trivial⟩
    | readBytes k =>
      obtain rfl : ph' = ph := hn
      rcases hp with ⟨handle, file', rfl⟩ | rfl
      · exact ⟨hc.wrote, trivial⟩
      · exact ⟨hc.wrote, trivial⟩
    | _ =>
      obtain rfl : ph' = ph := hn
      exact ⟨hc.wrote, hc.witnessed⟩
  | @returned a w' hs =>
    cases c with
    | replace data k =>
      obtain ⟨handle, file', rfl, -⟩ := hp
      obtain rfl : ph' = .committed handle := hn
      refine ⟨iff_of_true rfl ?_, trivial⟩
      show run.op ∈ opsOf (s.log ++ [⟨run.op, run.job, data⟩])
      simp [opsOf]
    | pathExists =>
      obtain ⟨rfl, rfl⟩ := hs
      rcases hp with ⟨handle, file', rfl⟩ | rfl
      · obtain ⟨-, rfl⟩ := hn
        exact ⟨hc.wrote, trivial⟩
      · obtain rfl : ph' = .looked s.world.file.isSome := hn
        refine ⟨hc.wrote, ?_⟩
        show Phase.Witnessed _ (fileAfter file (s.log.take s.log.length))
        rw [hnow]
        cases s.world.file <;> trivial
    | readBytes k =>
      obtain ⟨hfile, rfl⟩ := hs
      rcases hp with ⟨handle, file', rfl⟩ | rfl
      · obtain ⟨-, rfl⟩ := hn
        exact ⟨hc.wrote, trivial⟩
      · obtain rfl : ph' = .got a := hn
        exact ⟨hc.wrote, hnow.trans hfile⟩
    | openLock =>
      obtain rfl : ph' = .opened a ph.wrote := hn
      exact ⟨hc.wrote, trivial⟩
    | unlock handle =>
      obtain rfl : ph' = .opened handle ph.wrote := hn
      exact ⟨hc.wrote, trivial⟩
    | closeLock handle =>
      obtain rfl : ph' = .out ph.wrote := hn
      exact ⟨hc.wrote, trivial⟩
    | tryLock handle k =>
      obtain rfl : ph = .opened handle false := hp
      obtain ⟨file', rfl⟩ := hn
      exact ⟨hc.wrote, trivial⟩
    | now _ | compute | statTarget | side _ =>
      obtain rfl : ph' = ph := hn
      exact ⟨hc.wrote, hc.witnessed⟩

/-- A call of client `i` is answered. -/
theorem System.Inv.call (h : s.Inv rt cp file) {i : Nat} {run : Running} {c : Syscall}
    {k : Except PyExc c.Reply → Prog (Option State)} {r : Except PyExc c.Reply} {w' : World}
    (hrun : s.clients i = some run) (hrest : run.rest = .call c k) (ha : Answers c s.world r w') :
    System.Inv rt cp file (s.answered i run c r w' (k r)) := by
  obtain ⟨ph, hc⟩ := h.clients i run hrun
  have habides := hc.abides
  rw [hrest] at habides
  obtain ⟨hp, hk⟩ := habides
  obtain ⟨ph', hn, hfits⟩ := answers_next hc.fits hp ha h.lock
  obtain ⟨hwrote, hwitnessed⟩ := hc.next h hp ha hn
  have hchange := answers_change hc.fits hp ha
  have hlog := answers_log hc.fits hp ha
  obtain ⟨ext, hext⟩ : ∃ ext, s.logAfter run c r = s.log ++ ext := by
    rcases hlog with ⟨hl, -⟩ | ⟨_, data, -, -, hl, -⟩
    · exact ⟨[], by rw [hl, List.append_nil]⟩
    · exact ⟨_, hl⟩
  have hlen : s.log.length ≤ (s.logAfter run c r).length := by
    rw [hext]
    simp
  have hpoint : (if System.looks c then s.log.length else run.point) ≤ s.log.length := by
    by_cases hl : System.looks c = true
    · rw [if_pos hl]
    · rw [if_neg hl]
      exact hc.point
  have hothers {op : Nat} (hne : op ≠ run.op) :
      op ∈ opsOf (s.logAfter run c r) ↔ op ∈ opsOf s.log := by
    rcases hlog with ⟨hl, -⟩ | ⟨_, data, -, -, hl, -⟩
    · rw [hl]
    · rw [hl]
      simp [opsOf, hne]
  constructor
  · intro j run' hj
    rcases update_some hj with ⟨rfl, hv⟩ | ⟨hij, hj⟩
    · cases hv
      refine ⟨ph', hk r ph' hn, hfits, hwrote, hwitnessed, hc.number, hpoint.trans hlen, ?_⟩
      intro e he hclient
      by_cases hl : System.looks c = true
      · simp only [if_pos hl]
        exact (h.ended e he).1
      · simp only [if_neg hl]
        exact hc.later e he hclient
    · obtain ⟨phj, hcj⟩ := h.clients j run' hj
      have hop : run'.op ≠ run.op := fun e => hij (h.apart j i run' run hj hrun e)
      refine ⟨phj, { hcj with
        fits := hcj.fits.frame hij.symm hchange fun handle hh => ownerAfter_old ha hh
        wrote := hcj.wrote.trans (hothers hop).symm
        witnessed := ?_
        point := hcj.point.trans hlen }⟩
      show phj.Witnessed (fileAfter file ((s.logAfter run c r).take run'.point))
      rw [hext, List.take_append_of_le_length hcj.point]
      exact hcj.witnessed
  · intro j l run₁ run₂ hj hl hop
    have hback {j : Nat} {run₁ : Running}
        (hj : (s.answered i run c r w' (k r)).clients j = some run₁) :
        ∃ run₂, s.clients j = some run₂ ∧ run₂.op = run₁.op := by
      rcases update_some hj with ⟨rfl, hv⟩ | ⟨-, hj⟩
      · cases hv
        exact ⟨run, hrun, rfl⟩
      · exact ⟨run₁, hj, rfl⟩
    obtain ⟨run₁', hj', hop₁⟩ := hback hj
    obtain ⟨run₂', hl', hop₂⟩ := hback hl
    exact h.apart j l run₁' run₂' hj' hl' (hop₁.trans (hop.trans hop₂.symm))
  · show Replay rt cp file (s.logAfter run c r)
    rcases hlog with ⟨hl, -⟩ | ⟨handle, data, -, hcommit, hl, -⟩
    · rw [hl]
      exact h.replay
    · rw [hl]
      exact .snoc h.replay (h.current ▸ hcommit)
  · show w'.file = fileAfter file (s.logAfter run c r)
    rcases hlog with ⟨hl, hf⟩ | ⟨handle, data, -, -, hl, hf⟩
    · rw [hl, hf]
      exact h.current
    · rw [hl, hf, fileAfter_snoc]
  · show (opsOf (s.logAfter run c r)).Nodup
    rcases hlog with ⟨hl, -⟩ | ⟨handle, data, rfl, -, hl, -⟩
    · rw [hl]
      exact h.once
    · have hnot : run.op ∉ opsOf s.log := fun hop => Bool.false_ne_true (hc.wrote.mpr hop)
      rw [hl]
      unfold opsOf
      rw [List.map_append]
      exact List.nodup_append.mpr ⟨h.once, List.nodup_singleton _, fun op hop op' hop' e => hnot (by
        obtain rfl : op' = run.op := List.mem_singleton.mp hop'
        exact e ▸ hop)⟩
  · intro op hop
    by_cases he : op = run.op
    · exact he ▸ hc.number
    · exact h.numbers op ((hothers he).mp hop)
  · exact fun handle hl => answers_lock hc.fits hp ha h.lock handle hl
  · intro e he
    show Finished.Holds rt file (s.logAfter run c r) e
    rw [hext]
    exact (h.ended e he).append
  · exact h.order

theorem System.Inv.step (h : s.Inv rt cp file) {s' : System} (hs : System.Step rt cp s s') :
    s'.Inv rt cp file := by
  cases hs with
  | start i cfg job _ => exact h.start i cfg job
  | call hrun hrest ha => exact h.call hrun hrest ha
  | finish hrun hdone => exact h.finish hrun hdone
  | crash i => exact h.crash i

/-- Over a whole run, by induction on its steps. -/
theorem reachable_inv (h : System.Reachable rt cp (.start file) s) : s.Inv rt cp file := by
  induction h with
  | start => exact System.start_inv rt cp file
  | step _ hs ih => exact ih.step hs

end

/-- The next thing that happens: an operation starts, its next call is answered, it ends, or its
    client crashes. -/
inductive Move where
  | start (client : Nat) (job : Job)
  | call (client : Nat)
  | finish (client : Nat)
  | crash (client : Nat)

namespace System

/-- What a move does; one that is not possible does nothing. -/
def move (rt : Runtime) (cp : Copier) (cfg : Settings) (env : Env) (s : System) : Move → System
  | .start i job =>
    match s.clients i with
    | some _ => s
    | none => { s with
      clients := Function.update s.clients i
        (some ⟨s.nextOp, job, s.log.length, job.program rt cp cfg⟩)
      nextOp := s.nextOp + 1 }
  | .call i =>
    match s.clients i with
    | none => s
    | some run =>
      match run.rest with
      | .done _ => s
      | .call c k => s.answered i run c (perform env c s.world).1 (perform env c s.world).2
          (k (perform env c s.world).1)
  | .finish i =>
    match s.clients i with
    | none => s
    | some run =>
      match run.rest with
      | .call _ _ => s
      | .done r => { s with
        clients := Function.update s.clients i none
        finished := ⟨run.op, i, run.job, run.point, r⟩ :: s.finished }
  | .crash i => { s with
    clients := Function.update s.clients i none
    world := s.dropLock i }

def play (rt : Runtime) (cp : Copier) (cfg : Settings) (env : Env) : List Move → System → System
  | [], s => s
  | m :: ms, s => play rt cp cfg env ms (s.move rt cp cfg env m)

variable {rt : Runtime} {cp : Copier} {cfg : Settings} {env : Env} {s₀ s : System}

theorem move_step (m : Move) :
    s.move rt cp cfg env m = s ∨ Step rt cp s (s.move rt cp cfg env m) := by
  cases m with
  | start i job =>
    simp only [move]
    split
    · exact Or.inl rfl
    · next hi => exact Or.inr (.start i cfg job hi)
  | call i =>
    simp only [move]
    split
    · exact Or.inl rfl
    · next run hi =>
      split
      · exact Or.inl rfl
      · next hrest => exact Or.inr (.call hi hrest (perform_answers env _ s.world))
  | finish i =>
    simp only [move]
    split
    · exact Or.inl rfl
    · next run hi =>
      split
      · exact Or.inl rfl
      · next hrest => exact Or.inr (.finish hi hrest)
  | crash i => exact Or.inr (.crash i)

/-- **Whatever is played can happen.** -/
theorem Reachable.play (moves : List Move) (h : Reachable rt cp s₀ s) :
    Reachable rt cp s₀ (s.play rt cp cfg env moves) := by
  induction moves generalizing s with
  | nil => exact h
  | cons m ms ih =>
    rcases @move_step rt cp cfg env s m with he | hs
    · exact ih (he.symm ▸ h)
    · exact ih (h.step hs)

theorem play_append (first rest : List Move) : s.play rt cp cfg env (first ++ rest) =
    (s.play rt cp cfg env first).play rt cp cfg env rest := by
  induction first generalizing s with
  | nil => rfl
  | cons m ms ih => exact ih

end System

/-- An operation from its start to its end. -/
def whole (i : Nat) (job : Job) : List Move :=
  .start i job :: (List.replicate 40 (.call i) ++ [.finish i])

/-- The first client makes an empty database, and the second loads it and starts to insert a
    document; before it has the lock the first one inserts another. It ends and loads again. -/
def twoClients : List Move :=
  whole 0 (.createEmpty false) ++ whole 1 .load ++
    .start 1 (.update (insertTagged.run interpreter .total)) :: List.replicate 2 (.call 1) ++
    whole 0 (.update ((insertName (lit "Ava")).run interpreter .total)) ++
    List.replicate 40 (.call 1) ++ .finish 1 :: whole 1 .load

inductive JobKind where
  | update
  | createEmpty
  | transaction
  | load
  deriving DecidableEq

def Job.kind : Job → JobKind
  | .update _ => .update
  | .createEmpty _ => .createEmpty
  | .transaction _ => .transaction
  | .load => .load

theorem Job.kind_load {job : Job} (h : job.kind = .load) : job = .load := by
  cases job with
  | load => rfl
  | _ => cases h

theorem Job.ne_createEmpty {job : Job} (h : job.kind ≠ .createEmpty) (force : Bool) :
    job ≠ .createEmpty force := fun e => h (e ▸ rfl)

/-- Where `twoClients` leads to. -/
def afterTwoClients : System :=
  System.play interpreter .total posix quietSystem twoClients (.start none)

theorem afterTwoClients_reachable : System.Reachable interpreter .total (.start none) afterTwoClients :=
  .play _ .start

set_option maxRecDepth 20000 in
/-- There are three commits, and the file holds both documents. -/
theorem afterTwoClients_eq :
    afterTwoClients.log.map (fun c => (c.op, c.job.kind)) =
      [(0, .createEmpty), (3, .update), (2, .update)] ∧
    afterTwoClients.finished.map (fun e => (e.client, e.job.kind, e.point, e.result.isOk)) =
      [(1, .load, 3, true), (1, .update, 2, true), (0, .update, 1, true), (1, .load, 1, true),
        (0, .createEmpty, 0, true)] ∧
    ((load interpreter epoch (onDisk afterTwoClients.world.file)).toOption.bind fun s =>
      (collectionsOf s).toOption.bind fun c =>
        (allDocuments .total s (.str (lit "users"))).toOption.map fun docs =>
          (c.length, Dict.contains c (.str (lit "users")), docs.length)) = some (1, true, 2) := by
  decide +kernel

/-- The commits: `init`, and an insertion by each client, the second on top of the first. -/
theorem afterTwoClients_log : ∃ c₀ c₁ c₂, afterTwoClients.log = [c₀, c₁, c₂] ∧
    (c₀.op = 0 ∧ c₁.op = 3 ∧ c₂.op = 2) ∧ c₁.job.kind = .update ∧ c₂.job.kind = .update := by
  obtain ⟨c₀, rest, hlog, h₀, hrest⟩ := List.map_eq_cons_iff.mp afterTwoClients_eq.1
  obtain ⟨c₁, rest, rfl, h₁, hrest⟩ := List.map_eq_cons_iff.mp hrest
  obtain ⟨c₂, rest, rfl, h₂, hrest⟩ := List.map_eq_cons_iff.mp hrest
  obtain rfl := List.map_eq_nil_iff.mp hrest
  simp only [Prod.mk.injEq] at h₀ h₁ h₂
  exact ⟨c₀, c₁, c₂, hlog, ⟨h₀.1, h₁.1, h₂.1⟩, h₁.2, h₂.2⟩

/-- The file: one collection with two documents. -/
theorem afterTwoClients_file : ∃ state c docs,
    load interpreter epoch (onDisk afterTwoClients.world.file) = .ok state ∧
    collectionsOf state = .ok c ∧ c.length = 1 ∧ Dict.contains c (.str (lit "users")) = true ∧
    allDocuments .total state (.str (lit "users")) = .ok docs ∧ docs.length = 2 := by
  obtain ⟨state, hstate, h⟩ := Option.bind_eq_some_iff.mp afterTwoClients_eq.2.2
  obtain ⟨c, hc, h⟩ := Option.bind_eq_some_iff.mp h
  obtain ⟨docs, hdocs, h⟩ := Option.map_eq_some_iff.mp h
  simp only [Prod.mk.injEq] at h
  exact ⟨state, c, docs, toOption_eq_some.mp hstate, toOption_eq_some.mp hc, h.1, h.2.1,
    toOption_eq_some.mp hdocs, h.2.2⟩

/-! ## 5. What every run keeps -/

/-- An operation that returned has committed. -/
theorem System.Reachable.committed {rt : Runtime} {cp : Copier} {file : Option Bytes} {s : System}
    (h : System.Reachable rt cp (.start file) s) {e : Finished} (he : e ∈ s.finished)
    (hjob : e.job ≠ .load) (hres : ∃ a, e.result = .ok a) : e.op ∈ opsOf s.log := by
  obtain ⟨a, ha⟩ := hres
  have hholds := ((reachable_inv h).ended e he).2 a ha
  cases hj : e.job with
  | load => exact absurd hj hjob
  | update _ | createEmpty _ | transaction _ =>
    rw [hj] at hholds
    exact hholds

/-- A load that returned has read what the path held at one moment. -/
theorem System.Reachable.loaded {rt : Runtime} {cp : Copier} {file : Option Bytes} {s : System}
    (h : System.Reachable rt cp (.start file) s) {e : Finished} (he : e ∈ s.finished)
    (hjob : e.job = .load) {a : Option State} (ha : e.result = .ok a) : e.point ≤ s.log.length ∧
      ∃ state t, a = some state ∧
        JsonDatabase.load rt t (onDisk (fileAfter file (s.log.take e.point))) = .ok state := by
  obtain ⟨hpoint, hres⟩ := (reachable_inv h).ended e he
  have hread := hres a ha
  rw [hjob] at hread
  exact ⟨hpoint, hread⟩

/-- **No lost update.** In every interleaving the file is the replay of the commits: each is made
    from what the one before it left, by the function of its operation. An operation commits at most
    once, and one that returned has committed. -/
theorem no_lost_update {rt : Runtime} {cp : Copier} {file : Option Bytes} {s : System}
    (h : System.Reachable rt cp (.start file) s) :
    Replay rt cp file s.log ∧ s.world.file = fileAfter file s.log ∧ (opsOf s.log).Nodup ∧
      ∀ e ∈ s.finished, e.job ≠ .load → (∃ a, e.result = .ok a) → e.op ∈ opsOf s.log := by
  have hinv := reachable_inv h
  exact ⟨hinv.replay, hinv.current, hinv.once, fun e he hjob hres => h.committed he hjob hres⟩

/-- Both clients have committed, the second on top of the first, and nothing is lost. -/
theorem both_committed : ∃ s c₀ c₁ c₂, System.Reachable interpreter .total (.start none) s ∧
    s.log = [c₀, c₁, c₂] ∧ (c₀.op = 0 ∧ c₁.op = 3 ∧ c₂.op = 2) ∧
    Replay interpreter .total none [c₀, c₁, c₂] ∧ s.world.file = some c₂.data ∧
    (∃ state docs, load interpreter epoch (.bytes c₂.data) = .ok state ∧
      allDocuments .total state (.str (lit "users")) = .ok docs ∧ docs.length = 2) ∧
    ∀ e ∈ s.finished, e.job ≠ .load → (∃ a, e.result = .ok a) → e.op ∈ opsOf s.log := by
  obtain ⟨hreplay, hcurrent, -, hreturned⟩ := no_lost_update afterTwoClients_reachable
  obtain ⟨c₀, c₁, c₂, hlog, hops, -⟩ := afterTwoClients_log
  rw [hlog] at hreplay hcurrent
  obtain ⟨state, c, docs, hstate, -, -, -, hdocs, hlen⟩ := afterTwoClients_file
  rw [hcurrent] at hstate
  exact ⟨_, c₀, c₁, c₂, afterTwoClients_reachable, hlog, hops, hreplay, hcurrent,
    ⟨state, docs, hstate, hdocs, hlen⟩, hreturned⟩

/-- **Loads without the lock** return the empty state, only if there is no file and nothing had been
    committed when they looked, or the state of the first content or of one commit. A load that one
    client ends later returns no older one. -/
theorem reads_in_order {rt : Runtime} {cp : Copier} {file : Option Bytes} {s : System}
    (h : System.Reachable rt cp (.start file) s) :
    (∀ e ∈ s.finished, e.job = .load → ∀ a, e.result = .ok a → e.point ≤ s.log.length ∧
      ∃ state, a = some state ∧
        ((e.point = 0 ∧ file = none ∧ ∃ t, makeEmptyState rt t = .ok state) ∨
          ∃ raw, fileAfter file (s.log.take e.point) = some raw ∧ loadBytes rt raw = .ok state)) ∧
    s.finished.Pairwise fun later earlier =>
      later.client = earlier.client → earlier.point ≤ later.point := by
  refine ⟨fun e he hjob a ha => ?_, (reachable_inv h).order⟩
  obtain ⟨hpoint, state, t, hstate, hload⟩ := h.loaded he hjob ha
  refine ⟨hpoint, state, hstate, ?_⟩
  cases hf : fileAfter file (s.log.take e.point) with
  | some raw =>
    rw [hf] at hload
    exact Or.inr ⟨raw, rfl, hload⟩
  | none =>
    rw [hf] at hload
    obtain ⟨htake, hfile⟩ := fileAfter_eq_none hf
    have hlen : min e.point s.log.length = 0 := by
      rw [← List.length_take, htake]
      rfl
    exact Or.inl ⟨by omega, hfile, t, hload⟩

/-- Two loads of the second client and the commits between them. -/
theorem two_loads : ∃ s earlier later state state', System.Reachable interpreter .total (.start none) s ∧
    earlier ∈ s.finished ∧ later ∈ s.finished ∧ earlier.client = 1 ∧ later.client = 1 ∧
    earlier.point = 1 ∧ later.point = 3 ∧ earlier.point ≤ later.point ∧
    earlier.result = .ok (some state) ∧ later.result = .ok (some state') ∧
    (∃ raw, fileAfter none (s.log.take 1) = some raw ∧ loadBytes interpreter raw = .ok state) ∧
    ∃ raw, fileAfter none (s.log.take 3) = some raw ∧ loadBytes interpreter raw = .ok state' := by
  have hfinished := afterTwoClients_eq.2.1
  obtain ⟨hreads, horder⟩ := reads_in_order afterTwoClients_reachable
  generalize hs : afterTwoClients = s at hfinished hreads horder
  obtain ⟨later, rest, hf, hlater, hrest⟩ := List.map_eq_cons_iff.mp hfinished
  obtain ⟨a, rest, rfl, -, hrest⟩ := List.map_eq_cons_iff.mp hrest
  obtain ⟨b, rest, rfl, -, hrest⟩ := List.map_eq_cons_iff.mp hrest
  obtain ⟨earlier, rest, rfl, hearlier, -⟩ := List.map_eq_cons_iff.mp hrest
  simp only [Prod.mk.injEq] at hlater hearlier
  obtain ⟨hclient', hload', hpoint', hok'⟩ := hlater
  obtain ⟨hclient, hload, hpoint, hok⟩ := hearlier
  have hmem' : later ∈ s.finished := hf ▸ List.mem_cons_self
  have hmem : earlier ∈ s.finished := by
    rw [hf]
    simp
  have hle : earlier.point ≤ later.point := by
    rw [hf] at horder
    exact (List.pairwise_cons.mp horder).1 earlier (by simp) (hclient'.trans hclient.symm)
  have read {e : Finished} {n : Nat} (he : e ∈ s.finished) (hl : e.job.kind = .load)
      (hn : e.point = n + 1) (hr : e.result.isOk = true) : ∃ state, e.result = .ok (some state) ∧
        ∃ raw, fileAfter none (s.log.take (n + 1)) = some raw ∧
          loadBytes interpreter raw = .ok state := by
    obtain ⟨r, hr⟩ := isOk_iff.mp hr
    obtain ⟨-, state, rfl, ⟨h0, -⟩ | h⟩ := hreads e he (Job.kind_load hl) r hr
    · rw [hn] at h0
      cases h0
    · exact ⟨state, hr, hn ▸ h⟩
  obtain ⟨state, hr, hraw⟩ := read hmem hload hpoint hok
  obtain ⟨state', hr', hraw'⟩ := read hmem' hload' hpoint' hok'
  exact ⟨s, earlier, later, state, state', hs ▸ afterTwoClients_reachable, hmem, hmem', hclient,
    hclient', hpoint, hpoint', hle, hr, hr', hraw, hraw'⟩

end JsonDatabase
