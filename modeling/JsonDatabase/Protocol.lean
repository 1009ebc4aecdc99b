/-
  File:      JsonDatabase/Protocol.lean
  Subject:   What a client does with the lock, call by call, whatever the system answers.

  A client that holds the lock knows the file, since nobody else writes it. It replaces the file
  once, by bytes made from that file, before it gives the lock up. All this is said of the programs
  alone; which worlds a phase fits is said where the clients run together.

  * `Job`, `Job.program`, `Job.Commits` -- the operations and what they write on top of a file;
  * `Phase`, `Permits`, `Phase.Next` -- the phases of an operation, the calls each permits, and what
    a reply does to it;
  * `Job.follows` -- every operation keeps to this.
-/
import JsonDatabase.Engine

namespace JsonDatabase

open Interaction

/-! ## 1. The operations of a client -/

/-- An operation on the database, or a load without the lock. -/
inductive Job where
  | update (mutator : Op PyVal)
  | createEmpty (force : Bool)
  /-- `with db.transaction() as tx: body`. -/
  | transaction (body : Op PyVal)
  | load

section Programs

variable (rt : Runtime) (cp : Copier) (cfg : Settings)

/-- The `with` statement of a transaction: `__exit__` is clean if the body returned. -/
def withTransaction (body : Op PyVal) : Prog PyVal := do
  let (handle, state) ← enterTransaction rt cp cfg none
  (do
    sys .compute
    lift (Op.result body state)).follow fun
      | .ok (r, state') => do
        exitTransaction rt cp cfg (some handle) true (.ok state')
        return r
      | .error e => do
        exitTransaction rt cp cfg (some handle) false (.ok state)
        raise e

/-- The program of an operation; a load returns the state. -/
def Job.program : Job → Prog (Option State)
  | .update mutator => do
    let _ ← JsonDatabase.update rt cp cfg mutator
    return none
  | .createEmpty force => do
    JsonDatabase.createEmpty rt cp cfg force
    return none
  | .transaction body => do
    let _ ← withTransaction rt cp cfg body
    return none
  | .load => do
    let state ← engineLoad rt cfg
    return some state

end Programs

/-- What a load finds when the read succeeds. -/
def onDisk : Option Bytes → FileRead
  | none => .missing
  | some raw => .bytes raw

/-- What an operation writes on top of a file when it commits at `now`: the bytes of what its
    function makes of the state that is loaded from it. -/
def Job.CommitsAt (rt : Runtime) (cp : Copier) (file : Option Bytes) (now : DateTime)
    (data : Bytes) : Job → Prop
  | .update mutator => ∃ t state r state', JsonDatabase.load rt t (onDisk file) = .ok state ∧
      Op.result mutator state = .ok (r, state') ∧ commitBytes rt cp now state' = .ok data
  | .createEmpty force => (force = false → file = none) ∧ ∃ t state,
      makeEmptyState rt t = .ok state ∧ commitBytes rt cp now state = .ok data
  | .transaction body => ∃ t loaded state r state',
      JsonDatabase.load rt t (onDisk file) = .ok loaded ∧ copyDict cp (.dict loaded) = .ok state ∧
        Op.result body state = .ok (r, state') ∧ commitBytes rt cp now state' = .ok data
  | .load => False

/-- The same, at some time. -/
def Job.Commits (rt : Runtime) (cp : Copier) (file : Option Bytes) (data : Bytes) (job : Job) : Prop :=
  ∃ now, job.CommitsAt rt cp file now data

/-! ## 2. Phases -/

/-- Where an operation is. -/
inductive Phase where
  | out (wrote : Bool)
  /-- The lock file is open and does not hold the lock. -/
  | opened (handle : Nat) (wrote : Bool)
  /-- The lock is held and the file is known. -/
  | holding (handle : Nat) (file : Option Bytes)
  | committed (handle : Nat)
  /-- Without the lock, it was asked whether the file exists. -/
  | looked (present : Bool)
  | got (raw : Bytes)

namespace Phase

/-- The open lock file. -/
def handle : Phase → Option Nat
  | .opened h _ | .holding h _ | .committed h => some h
  | _ => none

/-- The file was replaced. -/
def wrote : Phase → Bool
  | .out b | .opened _ b => b
  | .committed _ => true
  | _ => false

/-- The phase after a reply; nothing is assumed of replies that the phase says nothing about. -/
def Next (ph : Phase) : (c : Syscall) → Except PyExc c.Reply → Phase → Prop
  | .closeLock _, _, ph' => ph' = .out ph.wrote
  | .openLock, .ok h, ph' => ph' = .opened h ph.wrote
  | .tryLock h _, .ok _, ph' => ∃ file, ph' = .holding h file
  | .unlock h, .ok _, ph' => ph' = .opened h ph.wrote
  | .replace _ _, .ok _, ph' =>
    match ph with
    | .holding h _ => ph' = .committed h
    | _ => ph' = ph
  | .pathExists, .ok b, ph' =>
    match ph with
    | .holding _ file => b = file.isSome ∧ ph' = ph
    | _ => ph' = .looked b
  | .readBytes _, .ok raw, ph' =>
    match ph with
    | .holding _ file => file = some raw ∧ ph' = ph
    | _ => ph' = .got raw
  | _, _, ph' => ph' = ph

end Phase

/-- The calls that a phase permits. -/
def Permits (rt : Runtime) (cp : Copier) (job : Job) (ph : Phase) : Syscall → Prop
  | .openLock => ph = .out false
  | .tryLock h _ => ph = .opened h false
  | .unlock h => (∃ file, ph = .holding h file) ∨ ph = .committed h
  | .closeLock h => ph.handle = some h
  | .pathExists => (∃ h file, ph = .holding h file) ∨ ph = .out false
  | .readBytes _ => (∃ h file, ph = .holding h file) ∨ ph = .looked true
  | .replace data _ => ∃ h file, ph = .holding h file ∧ job.Commits rt cp file data
  | _ => True

/-! ## 3. `except` clauses and retries -/

section Clauses

variable {P : Type} {allowed : P → Syscall → Prop}
  {next : P → (c : Syscall) → Except PyExc c.Reply → P → Prop} {α : Type}

theorem exceptOSError_steady {p h : Prog α} (hp : Steady allowed next p)
    (hh : Steady allowed next h) : Steady allowed next (exceptOSError p h) :=
  hp.rescue fun e => by
    by_cases he : e.type.isOSError = true
    · rw [if_pos he]
      exact hh
    · rw [if_neg he]
      exact .done _

/-- An `except OSError` clause, when the program keeps the phase as it raises. -/
theorem exceptOSError_conforms {p h : Prog α} {ph : P} {Q : Except PyExc α → P → Prop}
    (hp : Conforms allowed next p ph fun r ph' =>
      (∀ a, r = .ok a → Q (.ok a) ph') ∧ ∀ e, r = .error e → ph' = ph ∧ Q (.error e) ph)
    (hh : Conforms allowed next h ph Q) : Conforms allowed next (exceptOSError p h) ph Q :=
  Conforms.rescue hp (fun a ph' hq => hq.1 a rfl) fun e ph' hq => by
    obtain ⟨rfl, hQ⟩ := hq.2 e rfl
    by_cases he : e.type.isOSError = true
    · rw [if_pos he]
      exact hh
    · rw [if_neg he]
      exact hQ

/-- A call that is tried again, when it keeps the phase as it raises. -/
theorem windowsRetry_conforms {op : Nat → Prog α} {ph : P} {Q : Except PyExc α → P → Prop}
    (h : ∀ k, Conforms allowed next (op k) ph fun r ph' =>
      (∀ a, r = .ok a → Q (.ok a) ph') ∧ ∀ e, r = .error e → ph' = ph ∧ Q (.error e) ph)
    (nt : Bool) : Conforms allowed next (windowsRetry nt op) ph Q := by
  have honce (k : Nat) : Conforms allowed next (op k) ph Q := (h k).mono fun r ph' hq => by
    cases r with
    | ok a => exact hq.1 a rfl
    | error e =>
      obtain ⟨rfl, hQ⟩ := hq.2 e rfl
      exact hQ
  have hloop : ∀ left k, Conforms allowed next (retryLoop op left k) ph Q := by
    intro left
    induction left with
    | zero => exact honce
    | succ left ih =>
      intro k
      refine Conforms.rescue (h k) (fun a ph' hq => hq.1 a rfl) fun e ph' hq => ?_
      obtain ⟨rfl, hQ⟩ := hq.2 e rfl
      by_cases he : e.type = .permissionError
      · rw [if_pos he]
        exact ih (k + 1)
      · rw [if_neg he]
        exact hQ
  cases nt with
  | true => exact hloop 9 0
  | false => exact honce 0

/-- The parts of `atomic_write` that only look at the target or set the mode. -/
theorem modes_steady (hstat : Steady allowed next (sys .statTarget))
    (hchmod : ∀ mode, Steady allowed next (sys (.side (.chmodTemp mode)))) :
    (∀ nt, Steady allowed next (existingMode nt)) ∧ ∀ mode, Steady allowed next (applyMode mode) := by
  refine ⟨fun nt => ?_, fun mode => ?_⟩
  · cases nt with
    | true => exact .done _
    | false => exact exceptOSError_steady (hstat.bind fun _ => .done _) (.done _)
  · cases mode with
    | none => exact .done _
    | some mode => exact exceptOSError_steady (hchmod mode) (.done _)

end Clauses

/-! ## 4. The parts of an operation -/

/-- Every call of the program is permitted in its phase, and `Q` holds of the outcome and the phase
    at the end. -/
abbrev Abides (rt : Runtime) (cp : Copier) (job : Job) {α : Type} (p : Prog α) (ph : Phase)
    (Q : Except PyExc α → Phase → Prop) : Prop :=
  Conforms (Permits rt cp job) Phase.Next p ph Q

/-- The program leaves the phase as it is. -/
abbrev Inert (rt : Runtime) (cp : Copier) (job : Job) {α : Type} (p : Prog α) : Prop :=
  Steady (Permits rt cp job) Phase.Next p

section

variable {rt : Runtime} {cp : Copier} {job : Job} {α β : Type}

theorem inert_side (c : SideCall) : Inert rt cp job (sys (.side c)) :=
  .ask (fun _ => trivial) fun _ _ _ h => h

theorem inert_now (c : Clock) : Inert rt cp job (sys (.now c)) :=
  .ask (fun _ => trivial) fun _ _ _ h => h

theorem inert_compute : Inert rt cp job (sys .compute) :=
  .ask (fun _ => trivial) fun _ _ _ h => h

theorem modes_inert : (∀ nt, Inert rt cp job (existingMode nt)) ∧
    ∀ mode, Inert rt cp job (applyMode mode) :=
  modes_steady (.ask (fun _ => trivial) fun _ _ _ h => h) fun _ => inert_side _

theorem fillTemp_inert (data : Bytes) : Inert rt cp job (fillTemp data) :=
  ((inert_side _).onRaise (exceptOSError_steady (inert_side _) (.done _))).bind fun _ =>
    ((inert_side _).bind fun _ => (inert_side _).bind fun _ => inert_side _).ensuring (inert_side _)

theorem fsyncParent_inert (nt : Bool) : Inert rt cp job (fsyncParent nt) := by
  cases nt with
  | true => exact .done _
  | false =>
    refine (exceptOSError_steady ((inert_side .openDir).bind fun _ => .done _) (.done _)).bind
      fun opened => ?_
    cases opened with
    | true => exact (exceptOSError_steady (inert_side _) (.done _)).ensuring (inert_side _)
    | false => exact .done _

/-- What an operation ends with: if it returned, it wrote. -/
def Wrote (r : Except PyExc α) (ph : Phase) : Prop := ∀ a, r = .ok a → ph.wrote = true

/-- The lock is held; if the program returned, it wrote. -/
def Held (h : Nat) (r : Except PyExc α) (ph : Phase) : Prop :=
  ((∃ file, ph = .holding h file) ∨ ph = .committed h) ∧ ∀ a, r = .ok a → ph = .committed h

theorem lockLoop_follows (h : Nat) : ∀ left k, Abides rt cp job (lockLoop h left k)
    (.opened h false) fun r ph => ∀ u, r = .ok u → ∃ file, ph = .holding h file := by
  have htry (k : Nat) : Abides rt cp job (sys (.tryLock h k)) (.opened h false) fun r ph' =>
      (∀ a, r = .ok a → ∀ u, (.ok a : Except PyExc Unit) = .ok u → ∃ file, ph' = .holding h file) ∧
        ∀ e, r = .error e → ph' = .opened h false ∧
          ∀ u, (.error e : Except PyExc Unit) = .ok u → ∃ file, Phase.opened h false = .holding h file := by
    refine ⟨rfl, fun r ph' hn => ?_⟩
    cases r with
    | ok a => exact ⟨fun _ _ _ _ => hn, fun _ he => nomatch he⟩
    | error e => exact ⟨fun _ ha => (nomatch ha), fun _ _ => ⟨hn, fun _ hu => nomatch hu⟩⟩
  intro left
  induction left with
  | zero =>
    refine fun k => exceptOSError_conforms (htry k) (Conforms.bind (Q := fun _ _ => True) ?_ ?_ ?_)
    · exact ⟨rfl, fun _ _ _ => trivial⟩
    · exact fun _ _ _ _ hu => nomatch hu
    · exact fun _ _ _ _ hu => nomatch hu
  | succ left ih => exact fun k => exceptOSError_conforms (htry k) (ih (k + 1))

/-- Taking the lock, from outside. -/
theorem acquire_follows (cfg : Settings) : Abides rt cp job (acquire cfg) (.out false) fun r ph =>
    ∀ h, r = .ok h → ∃ file, ph = .holding h file := by
  have hraised {ph : Phase} (e : PyExc) : ∀ h, (.error e : Except PyExc Nat) = .ok h →
      ∃ file, ph = .holding h file := fun _ he => nomatch he
  refine (inert_side _).andThen (fun _ => ?_) fun e => hraised e
  refine Conforms.bind (Q := fun r ph => ∀ h, r = .ok h → ph = .opened h false) ?_ ?_ ?_
  · refine ⟨rfl, fun r ph' hn => ?_⟩
    cases r with
    | ok h => exact fun h' he => Except.ok.inj he ▸ hn
    | error e => exact fun _ he => nomatch he
  · intro h ph hph
    obtain rfl := hph h rfl
    have hbyte : Abides rt cp job (ensureLockByte cfg h) (.opened h false) fun r ph =>
        ∀ u, r = .ok u → ph = .opened h false := by
      unfold ensureLockByte
      by_cases hnt : cfg.nt = true
      · rw [if_pos hnt]
        refine exceptOSError_conforms ⟨trivial, fun r ph' hn => ?_⟩ ?_
        · obtain rfl : ph' = .opened h false := hn
          exact ⟨fun _ _ _ _ => rfl, fun _ _ => ⟨rfl, fun _ hu => nomatch hu⟩⟩
        · refine Conforms.bind (Q := fun _ _ => True) ⟨rfl, fun _ _ _ => trivial⟩ ?_ ?_
          · exact fun _ _ _ _ hu => nomatch hu
          · exact fun _ _ _ _ hu => nomatch hu
      · rw [if_neg hnt]
        exact fun _ _ => rfl
    refine Conforms.bind hbyte (fun u ph hph => ?_) fun e ph _ => hraised e
    obtain rfl := hph u rfl
    refine Conforms.bind (lockLoop_follows h cfg.retries 0) (fun u ph hph => ?_) fun e ph _ => hraised e
    obtain ⟨file, rfl⟩ := hph u rfl
    exact fun h' he => ⟨file, Except.ok.inj he ▸ rfl⟩
  · exact fun e ph _ => hraised e

/-- Giving the lock up does not change what was written. -/
theorem release_follows {h : Nat} {ph : Phase}
    (hph : (∃ file, ph = .holding h file) ∨ ph = .committed h) :
    Abides rt cp job (release h) ph fun _ ph' => ph'.wrote = ph.wrote := by
  have hhandle : ph.handle = some h := by
    rcases hph with ⟨file, rfl⟩ | rfl <;> rfl
  refine Conforms.ensuring (Q := fun _ ph' => ph'.handle = some h ∧ ph'.wrote = ph.wrote)
    (S := fun _ _ ph' => ph'.wrote = ph.wrote) ⟨hph, fun r ph' hn => ?_⟩ (fun r ph' hq => ?_)
    (fun _ _ _ hs => hs) fun _ _ _ hs => hs
  · cases r with
    | ok u =>
      obtain rfl : ph' = .opened h ph.wrote := hn
      exact ⟨rfl, rfl⟩
    | error e =>
      obtain rfl : ph' = ph := hn
      exact ⟨hhandle, rfl⟩
  · refine ⟨hq.1, fun r ph'' hn => ?_⟩
    have hout : ph'' = .out ph'.wrote := by cases r <;> exact hn
    rw [hout]
    exact hq.2

/-- A statement inside the lock. -/
theorem guarded_follows {body : Prog α} {h : Nat} {file : Option Bytes}
    (hb : Abides rt cp job body (.holding h file) (Held h)) :
    Abides rt cp job (ensuring body (release h)) (.holding h file) Wrote :=
  Conforms.ensuring (S := fun r _ ph' => Wrote r ph') hb
    (fun r ph hq => (release_follows hq.1).mono fun _ ph' hw a ha => by
      rw [hw, hq.2 a ha]
      rfl)
    (fun _ _ _ hs => hs) fun _ _ _ _ _ he => nomatch he

theorem withLock_follows {cfg : Settings} {body : Prog α}
    (hb : ∀ h file, Abides rt cp job body (.holding h file) (Held h)) :
    Abides rt cp job (withLock cfg body) (.out false) Wrote :=
  (acquire_follows cfg).bind (fun h ph hph => by
    obtain ⟨file, rfl⟩ := hph h rfl
    exact guarded_follows (hb h file)) fun _ _ _ _ he => nomatch he

/-- Reading with the lock held. -/
theorem engineLoad_held (cfg : Settings) (h : Nat) (file : Option Bytes) :
    Abides rt cp job (engineLoad rt cfg) (.holding h file) fun r ph => ph = .holding h file ∧
      ∀ state, r = .ok state → ∃ t, load rt t (onDisk file) = .ok state := by
  have hread : Abides rt cp job (readDatabase cfg) (.holding h file) fun r ph =>
      ph = .holding h file ∧ ∀ found, r = .ok found → found = .unreadable ∨ found = onDisk file := by
    refine Conforms.bind (Q := fun r ph => ph = .holding h file ∧
      ∀ b : Bool, r = .ok b → b = file.isSome) ⟨Or.inl ⟨h, file, rfl⟩, fun r ph' hn => ?_⟩ ?_ ?_
    · cases r with
      | ok b =>
        obtain ⟨rfl, rfl⟩ : b = file.isSome ∧ ph' = .holding h file := hn
        exact ⟨rfl, fun _ he => Except.ok.inj he ▸ rfl⟩
      | error e =>
        obtain rfl : ph' = .holding h file := hn
        exact ⟨rfl, fun _ he => nomatch he⟩
    · intro b ph hq
      obtain ⟨rfl, hb⟩ := hq
      obtain rfl := hb b rfl
      cases file with
      | none => exact ⟨rfl, fun _ he => Or.inr (Except.ok.inj he).symm⟩
      | some raw =>
        have hraw : Abides rt cp job (windowsRetry cfg.nt fun k => sys (.readBytes k))
            (.holding h (some raw)) fun r ph => ph = .holding h (some raw) ∧
              ∀ x, r = .ok x → x = raw := by
          apply windowsRetry_conforms
          intro k
          refine ⟨Or.inl ⟨h, some raw, rfl⟩, fun r ph' hn => ?_⟩
          cases r with
          | ok x =>
            obtain ⟨hx, rfl⟩ : some raw = some x ∧ ph' = .holding h (some raw) := hn
            refine ⟨fun a ha => ⟨rfl, fun y hy => ?_⟩, fun _ he => nomatch he⟩
            cases ha
            cases hy
            exact (Option.some.inj hx).symm
          | error e =>
            obtain rfl : ph' = .holding h (some raw) := hn
            exact ⟨fun _ ha => (nomatch ha), fun _ _ => ⟨rfl, rfl, fun _ hy => nomatch hy⟩⟩
        refine exceptOSError_conforms (Conforms.bind hraw (fun x ph hq => ?_) fun e ph hq => ?_) ?_
        · obtain ⟨rfl, hx⟩ := hq
          obtain rfl := hx x rfl
          exact ⟨fun a ha => ⟨rfl, fun _ he => Or.inr (by cases ha; cases he; rfl)⟩,
            fun _ he => nomatch he⟩
        · exact ⟨fun _ ha => (nomatch ha), fun _ _ => ⟨hq.1, rfl, fun _ he => nomatch he⟩⟩
        · exact ⟨rfl, fun _ he => Or.inl (Except.ok.inj he).symm⟩
    · exact fun e ph hq => ⟨hq.1, fun _ he => nomatch he⟩
  refine Conforms.bind hread (fun found ph hq => ?_) fun e ph hq => ⟨hq.1, fun _ he => nomatch he⟩
  obtain ⟨rfl, hfound⟩ := hq
  refine (inert_now .load _).bind (fun t ph hph => ?_) fun e ph hph => ⟨hph, fun _ he => nomatch he⟩
  refine ⟨hph, fun state he => ?_⟩
  rcases hfound found rfl with rfl | rfl
  · cases he
  · exact ⟨t, he⟩

/-- Replacing the file, with the lock held and the right bytes. -/
theorem atomicWrite_follows (nt : Bool) {h : Nat} {file : Option Bytes} {data : Bytes}
    (hdata : job.Commits rt cp file data) :
    Abides rt cp job (atomicWrite nt data) (.holding h file) (Held h) := by
  have hheld {ph : Phase} (hph : ph = .holding h file ∨ ph = .committed h) (e : PyExc) :
      Held h (.error e : Except PyExc Unit) ph :=
    ⟨hph.imp_left fun hp => ⟨file, hp⟩, fun _ he => nomatch he⟩
  have hreplace : Abides rt cp job (windowsRetry nt fun k => sys (.replace data k)) (.holding h file)
      fun r ph => (∀ u, r = .ok u → ph = .committed h) ∧ ∀ e, r = .error e → ph = .holding h file := by
    apply windowsRetry_conforms
    intro k
    refine ⟨⟨h, file, rfl, hdata⟩, fun r ph' hn => ?_⟩
    cases r with
    | ok u =>
      obtain rfl : ph' = .committed h := hn
      exact ⟨fun _ _ => ⟨fun _ _ => rfl, fun _ he => nomatch he⟩, fun _ he => nomatch he⟩
    | error e =>
      obtain rfl : ph' = .holding h file := hn
      exact ⟨fun _ ha => (nomatch ha), fun _ _ => ⟨rfl, fun _ hu => (nomatch hu), fun _ _ => rfl⟩⟩
  have hnot {α : Type} (e : PyExc) : (∀ a : α, (.error e : Except PyExc α) = .ok a →
      Phase.holding h file = .committed h) ∧ ∀ e', (.error e : Except PyExc α) = .error e' →
        Phase.holding h file = .holding h file := ⟨fun _ ha => (nomatch ha), fun _ _ => rfl⟩
  have htarget (mode : Option Nat) : Abides rt cp job (replaceTarget nt mode data) (.holding h file)
      fun r ph => (∀ u, r = .ok u → ph = .committed h) ∧ ∀ e, r = .error e → ph = .holding h file := by
    have hbody := (@fillTemp_inert rt cp job data).andThen (fun _ =>
      (modes_inert.2 mode).andThen (fun _ => hreplace) hnot) hnot
    refine Conforms.rescue hbody (fun u ph hq => hq) fun e ph hq => ?_
    obtain rfl := hq.2 e rfl
    refine ((exceptOSError_steady (inert_side .unlinkTemp) (.done (.ok ()))) _).follow fun r ph hph => ?_
    obtain rfl : ph = .holding h file := hph
    cases r with
    | ok u => exact hnot e
    | error e' => exact hnot e'
  refine (inert_side _).andThen (fun _ => (modes_inert.1 nt).andThen (fun mode => ?_) fun e =>
    hheld (Or.inl rfl) e) fun e => hheld (Or.inl rfl) e
  have hwrite : Abides rt cp job (do
      sys (.side .makeTemp)
      replaceTarget nt mode data
      fsyncParent nt) (.holding h file) (Held h) := by
    refine (inert_side _).andThen (fun _ => ?_) fun e => hheld (Or.inl rfl) e
    refine (htarget mode).bind (fun u ph hq => ?_) fun e ph hq => hheld (Or.inl (hq.2 e rfl)) e
    obtain rfl := hq.1 u rfl
    exact (fsyncParent_inert nt _).mono fun r ph hph => ⟨Or.inr hph, fun _ _ => hph⟩
  refine Conforms.rescue hwrite (fun u ph hq => hq) fun e ph hq => ?_
  by_cases he : e.type.isOSError = true
  · rw [if_pos he]
    exact ⟨hq.1, fun _ he => nomatch he⟩
  · rw [if_neg he]
    exact hq

/-- Committing a state whose bytes are the right ones. -/
theorem commitUnlocked_follows (cfg : Settings) {h : Nat} {file : Option Bytes} {state : State}
    (hdata : ∀ t data, commitBytes rt cp t state = .ok data → job.Commits rt cp file data) :
    Abides rt cp job (commitUnlocked rt cp cfg state) (.holding h file) (Held h) := by
  have hheld (e : PyExc) : Held h (.error e : Except PyExc Unit) (.holding h file) :=
    ⟨Or.inl ⟨file, rfl⟩, fun _ he => nomatch he⟩
  refine (inert_now .commit).andThen (fun t => ?_) hheld
  cases hb : commitBytes rt cp t state with
  | error e => exact hheld e
  | ok data => exact atomicWrite_follows cfg.nt (hdata t data hb)

end

/-! ## 5. The operations -/

section

variable {rt : Runtime} {cp : Copier} (cfg : Settings) {α : Type}

theorem Held.error {h : Nat} {file : Option Bytes} (e : PyExc) :
    Held h (.error e : Except PyExc α) (.holding h file) :=
  ⟨Or.inl ⟨file, rfl⟩, fun _ he => nomatch he⟩

/-- An operation whose value is dropped. -/
theorem dropped_follows {job : Job} {p : Prog α} {ph : Phase} (h : Abides rt cp job p ph Wrote) :
    Abides rt cp job (do let _ ← p; return none : Prog (Option State)) ph Wrote :=
  h.bind (fun _ _ hw _ _ => hw _ rfl) fun _ _ _ _ he => nomatch he

theorem update_follows (mutator : Op PyVal) :
    Abides rt cp (.update mutator) (JsonDatabase.update rt cp cfg mutator) (.out false) Wrote := by
  refine withLock_follows fun h file => ?_
  refine (engineLoad_held cfg h file).bind (fun state ph hq => ?_) fun e ph hq =>
    hq.1 ▸ Held.error e
  obtain ⟨rfl, hstate⟩ := hq
  obtain ⟨t, hload⟩ := hstate state rfl
  refine inert_compute.andThen (fun _ => ?_) Held.error
  cases hm : Op.result mutator state with
  | error e => exact Held.error e
  | ok result =>
    have hcommit : Abides rt cp (.update mutator) (commitUnlocked rt cp cfg result.2)
        (.holding h file) (Held h) := commitUnlocked_follows cfg fun t' data hb =>
      ⟨t', t, state, result.1, result.2, hload, hm, hb⟩
    refine hcommit.bind (fun u ph hq => ?_) fun e ph hq => ?_
    · exact ⟨hq.1, fun _ _ => hq.2 u rfl⟩
    · exact ⟨hq.1, fun _ he => nomatch he⟩

theorem createEmpty_follows (force : Bool) :
    Abides rt cp (.createEmpty force) (JsonDatabase.createEmpty rt cp cfg force) (.out false) Wrote := by
  refine withLock_follows fun h file => ?_
  refine Conforms.bind (Q := fun r ph => ph = .holding h file ∧
    ∀ b : Bool, r = .ok b → b = file.isSome) ⟨Or.inl ⟨h, file, rfl⟩, fun r ph' hn => ?_⟩ ?_
      fun e ph hq => ?_
  · cases r with
    | ok b =>
      obtain ⟨rfl, rfl⟩ : b = file.isSome ∧ ph' = .holding h file := hn
      exact ⟨rfl, fun _ he => Except.ok.inj he ▸ rfl⟩
    | error e =>
      obtain rfl : ph' = .holding h file := hn
      exact ⟨rfl, fun _ he => nomatch he⟩
  · intro b ph hq
    obtain ⟨rfl, hb⟩ := hq
    obtain rfl := hb b rfl
    by_cases hc : (file.isSome && !force) = true
    · rw [if_pos hc]
      exact Held.error _
    · rw [if_neg hc]
      refine (inert_now .create).andThen (fun t => ?_) Held.error
      cases hs : makeEmptyState rt t with
      | error e => exact Held.error e
      | ok state =>
        refine commitUnlocked_follows cfg fun t' data hdata => ⟨t', fun hf => ?_, t, state, hs, hdata⟩
        cases file with
        | none => rfl
        | some raw => simp [hf] at hc
  · obtain ⟨rfl, -⟩ := hq
    exact Held.error e

/-- The end of a `with` statement whose body raised. -/
theorem rollback_follows {job : Job} {h : Nat} {file : Option Bytes} (state : Except PyExc State) :
    Abides rt cp job (exitTransaction rt cp cfg (some h) false state) (.holding h file)
      fun _ _ => True := by
  have hbody : Abides rt cp job (pure () : Prog Unit) (.holding h file) fun _ ph =>
      ph = .holding h file := rfl
  refine Conforms.ensuring (S := fun _ _ _ => True) hbody (fun r ph hq => ?_)
    (fun _ _ _ _ => trivial) fun _ _ _ _ => trivial
  exact (release_follows (Or.inl ⟨file, hq⟩)).mono fun _ _ _ => trivial

theorem transaction_follows (body : Op PyVal) :
    Abides rt cp (.transaction body) (withTransaction rt cp cfg body) (.out false) Wrote := by
  have hraised {β : Type} {ph : Phase} (e : PyExc) : Wrote (.error e : Except PyExc β) ph :=
    fun _ he => nomatch he
  refine Conforms.bind (Q := fun r ph => ∀ x, r = .ok x → ∃ file t loaded,
    ph = .holding x.1 file ∧ load rt t (onDisk file) = .ok loaded ∧
      copyDict cp (.dict loaded) = .ok x.2) ?_ ?_ fun e ph _ => hraised e
  · refine (acquire_follows cfg).bind (fun h ph hph => ?_) fun e ph _ _ he => nomatch he
    obtain ⟨file, rfl⟩ := hph h rfl
    have hbody : Abides rt cp (.transaction body) (do
        let loaded ← engineLoad rt cfg
        let state ← lift (copyDict cp (.dict loaded))
        return (h, state)) (.holding h file) fun r ph => ph = .holding h file ∧
          ∀ x, r = .ok x → ∃ t loaded, x.1 = h ∧ load rt t (onDisk file) = .ok loaded ∧
            copyDict cp (.dict loaded) = .ok x.2 := by
      refine (engineLoad_held cfg h file).bind (fun loaded ph hq => ?_) fun e ph hq =>
        ⟨hq.1, fun _ he => nomatch he⟩
      obtain ⟨rfl, hstate⟩ := hq
      obtain ⟨t, hload⟩ := hstate loaded rfl
      cases hc : copyDict cp (.dict loaded) with
      | error e => exact ⟨rfl, fun _ he => nomatch he⟩
      | ok state =>
        refine ⟨rfl, fun x hx => ?_⟩
        cases hx
        exact ⟨t, loaded, rfl, hload, hc⟩
    refine Conforms.rescue hbody (fun x ph hq y hy => ?_) fun e ph hq => ?_
    · cases hy
      obtain ⟨rfl, hx⟩ := hq
      obtain ⟨t, loaded, rfl, hload, hcopy⟩ := hx x rfl
      exact ⟨file, t, loaded, rfl, hload, hcopy⟩
    · obtain ⟨rfl, -⟩ := hq
      refine (release_follows (Or.inl ⟨file, rfl⟩)).follow fun r ph _ => ?_
      cases r with
      | ok u => exact fun _ he => nomatch he
      | error e' => exact fun _ he => nomatch he
  · intro x ph hq
    obtain ⟨h, state⟩ := x
    obtain ⟨file, t, loaded, rfl, hload, hcopy⟩ := hq _ rfl
    have hcompute : Abides rt cp (.transaction body) (do
        sys .compute
        lift (Op.result body state)) (.holding h file) fun r ph => ph = .holding h file ∧
          ∀ x, r = .ok x → Op.result body state = .ok x :=
      inert_compute.andThen (fun _ => ⟨rfl, fun _ he => he⟩) fun e => ⟨rfl, fun _ he => nomatch he⟩
    refine hcompute.follow fun r ph hq => ?_
    obtain ⟨rfl, hres⟩ := hq
    cases r with
    | error e =>
      exact (rollback_follows cfg (.ok state)).bind (fun _ _ _ => hraised e) fun e' _ _ => hraised e'
    | ok result =>
      have hm := hres result rfl
      have hcommit : Abides rt cp (.transaction body) (commitUnlocked rt cp cfg result.2)
          (.holding h file) (Held h) := commitUnlocked_follows cfg fun t' data hb =>
        ⟨t', t, loaded, state, result.1, result.2, hload, hcopy, hm, hb⟩
      have hexit : Abides rt cp (.transaction body)
          (exitTransaction rt cp cfg (some h) true (.ok result.2)) (.holding h file) Wrote :=
        guarded_follows hcommit
      exact hexit.bind (fun u ph hw _ _ => hw u rfl) fun e _ _ => hraised e

/-- What a load without the lock has seen. -/
def Saw : FileRead → Phase → Prop
  | .missing, ph => ph = .looked false
  | .unreadable, _ => True
  | .bytes raw, ph => ph = .got raw

/-- Reading without the lock: the file is looked for first, and read in a later call. -/
theorem readDatabase_follows : Abides rt cp .load (readDatabase cfg) (.out false) fun r ph =>
    ∀ found, r = .ok found → Saw found ph := by
  refine Conforms.bind (Q := fun r ph => ∀ b : Bool, r = .ok b → ph = .looked b)
    ⟨Or.inr rfl, fun r ph' hn => ?_⟩ (fun b ph hq => ?_) fun e ph _ _ he => nomatch he
  · cases r with
    | ok b => exact fun _ he => Except.ok.inj he ▸ hn
    | error e => exact fun _ he => nomatch he
  · obtain rfl := hq b rfl
    cases b with
    | false => exact fun _ he => Except.ok.inj he ▸ rfl
    | true =>
      have hraw : Abides rt cp .load (windowsRetry cfg.nt fun k => sys (.readBytes k))
          (.looked true) fun r ph => (∀ x, r = .ok x → ph = .got x) ∧
            ∀ e, r = .error e → ph = .looked true := by
        apply windowsRetry_conforms
        intro k
        refine ⟨Or.inr rfl, fun r ph' hn => ?_⟩
        cases r with
        | ok x =>
          obtain rfl : ph' = .got x := hn
          exact ⟨fun _ ha => ⟨fun _ he => by cases ha; cases he; rfl, fun _ he => nomatch he⟩,
            fun _ he => nomatch he⟩
        | error e =>
          obtain rfl : ph' = .looked true := hn
          exact ⟨fun _ ha => (nomatch ha), fun _ _ => ⟨rfl, fun _ hx => (nomatch hx), fun _ _ => rfl⟩⟩
      refine exceptOSError_conforms (Conforms.bind hraw (fun x ph hq => ?_) fun e ph hq => ?_) ?_
      · exact ⟨fun _ ha _ he => by cases ha; cases he; exact hq.1 x rfl, fun _ he => nomatch he⟩
      · exact ⟨fun _ ha => (nomatch ha), fun _ he' => ⟨hq.2 e rfl, fun _ he => nomatch he⟩⟩
      · exact fun _ he => Except.ok.inj he ▸ trivial

/-- What a load ends with. -/
def Read (rt : Runtime) (r : Except PyExc (Option State)) (ph : Phase) : Prop :=
  ∀ a, r = .ok a → ∃ state t found, a = some state ∧ Saw found ph ∧ load rt t found = .ok state

theorem load_follows : Abides rt cp .load (Job.program rt cp cfg .load) (.out false) (Read rt) := by
  have hload : Abides rt cp .load (engineLoad rt cfg) (.out false) fun r ph =>
      ∀ state, r = .ok state → ∃ t found, Saw found ph ∧ load rt t found = .ok state := by
    refine (readDatabase_follows cfg).bind (fun found ph hq => ?_) fun e ph _ _ he => nomatch he
    refine (inert_now .load ph).bind (fun t ph' hph => ?_) fun e ph' _ _ he => nomatch he
    exact fun state he => ⟨t, found, hph ▸ hq found rfl, he⟩
  refine hload.bind (fun state ph hq => ?_) fun e ph _ _ he => nomatch he
  intro a he
  obtain ⟨t, found, hsaw, hload⟩ := hq state rfl
  exact ⟨state, t, found, (Except.ok.inj he).symm, hsaw, hload⟩

/-- What an operation ends with. -/
def Job.Ends (rt : Runtime) (r : Except PyExc (Option State)) (ph : Phase) : Job → Prop
  | .load => Read rt r ph
  | _ => Wrote r ph

/-- **Every operation keeps to the protocol.** -/
theorem Job.follows (job : Job) : Abides rt cp job (job.program rt cp cfg) (.out false)
    fun r ph => job.Ends rt r ph := by
  cases job with
  | update mutator => exact dropped_follows (update_follows cfg mutator)
  | createEmpty force => exact dropped_follows (createEmpty_follows cfg force)
  | transaction body => exact dropped_follows (transaction_follows cfg body)
  | load => exact load_follows cfg

end

end JsonDatabase
