/-
  File:      JsonDatabase/Resources.lean
  Subject:   Descriptors, temporary files and the lock: nothing is left open.

  `atomic_write` and `FileLock` open four things: the lock file, the temporary file's descriptor, the
  temporary file itself, and the directory. Each is used only while it is open, and each is closed on
  every path, whichever calls raise. So the lock never outlives the operation that took it.

  * `Open`, `Open.after`, `Open.Allows` -- what is open, call by call, and what each call needs;
  * `nothing_left_open` -- every trace of every operation;
  * `lock_is_in_use` -- the lock in every interleaving of the clients.
-/
import JsonDatabase.Clients
import JsonDatabase.WriteLaws

namespace JsonDatabase

open Interaction

/-! ## 1. What is open -/

/-- The temporary file of a write. -/
inductive TempFile where
  | none
  /-- Made, its descriptor not yet wrapped. -/
  | raw
  | wrapped
  /-- Its descriptor is closed, and it is still there. -/
  | closed
  /-- Unlinking it has failed. -/
  | left
  deriving DecidableEq

/-- The lock file of an operation. -/
inductive LockFile where
  | closed
  | opened (handle : Nat)
  | locked (handle : Nat)
  deriving DecidableEq

structure Open where
  lock : LockFile
  temp : TempFile
  dir : Bool
  deriving DecidableEq

namespace Open

def nothing : Open := ⟨.closed, .none, false⟩

/-- What is open after a call. Closing closes, also when it raises. -/
def after (o : Open) : (c : Syscall) → Except PyExc c.Reply → Open
  | .openLock, .ok h => { o with lock := .opened h }
  | .tryLock h _, .ok _ => { o with lock := .locked h }
  | .unlock h, .ok _ => { o with lock := .opened h }
  | .closeLock _, _ => { o with lock := .closed }
  | .replace _ _, .ok _ => { o with temp := .none }
  | .side .makeTemp, .ok _ => { o with temp := .raw }
  | .side .openTemp, .ok _ => { o with temp := .wrapped }
  | .side .closeTemp, _ => { o with temp := .closed }
  | .side .closeFd, _ => { o with temp := .closed }
  | .side .unlinkTemp, .ok _ => { o with temp := .none }
  | .side .unlinkTemp, .error _ => { o with temp := .left }
  | .side .openDir, .ok _ => { o with dir := true }
  | .side .closeDir, _ => { o with dir := false }
  | _, _ => o

/-- What a call needs: to use or close a thing it must be open, to open one it must not be, and the
    temporary file is closed before it replaces the target. -/
def Allows (o : Open) : Syscall → Prop
  | .openLock => o.lock = .closed
  | .tryLock h _ | .side (.writeLockByte h) => o.lock = .opened h
  | .unlock h => o.lock = .locked h
  | .closeLock h => o.lock = .opened h ∨ o.lock = .locked h
  | .side .makeTemp => o.temp = .none
  | .side .openTemp | .side .closeFd => o.temp = .raw
  | .side (.writeTemp _) | .side .flushTemp | .side .syncTemp | .side .closeTemp => o.temp = .wrapped
  | .side (.chmodTemp _) | .replace _ _ | .side .unlinkTemp => o.temp = .closed
  | .side .openDir => o.dir = false
  | .side .syncDir | .side .closeDir => o.dir = true
  | _ => True

/-- Of the two files of a write nothing is open. -/
def Settled (lock : LockFile) (o : Open) : Prop :=
  o.lock = lock ∧ o.dir = false ∧ (o.temp = .none ∨ o.temp = .left)

end Open

/-- The reply is a value or one of these exceptions. -/
def Raising (G : PyExc → Prop) (c : Syscall) (r : Except PyExc c.Reply) : Prop :=
  ∀ e, r = .error e → G e

/-- The program uses what is open, and `Q` holds of the outcome and of what is open at the end, if
    its calls raise only these exceptions. -/
abbrev Uses (G : PyExc → Prop) {α : Type} (p : Prog α) (o : Open) (Q : Except PyExc α → Open → Prop) :
    Prop :=
  Conforms Open.Allows (fun o c r o' => Raising G c r ∧ o' = o.after c r) p o Q

/-- The program neither opens nor closes anything. -/
abbrev Idle (G : PyExc → Prop) {α : Type} (p : Prog α) : Prop :=
  Steady Open.Allows (fun o c r o' => Raising G c r ∧ o' = o.after c r) p

section

variable {G : PyExc → Prop} {α : Type} {o : Open} {l : LockFile}

theorem uses_call {c : Syscall} {Q : Except PyExc c.Reply → Open → Prop} (ha : o.Allows c)
    (hQ : ∀ r, Raising G c r → Q r (o.after c r)) : Uses G (sys c) o Q :=
  ⟨ha, fun r _ h => h.2 ▸ hQ r h.1⟩

/-- A call that leaves everything as it is. -/
theorem keeps_call {c : Syscall} (ha : o.Allows c) (hk : ∀ r, o.after c r = o) :
    Uses G (sys c) o fun _ o' => o' = o := uses_call ha fun r _ => hk r

theorem idle_call {c : Syscall} (ha : ∀ o, Open.Allows o c) (hk : ∀ o r, Open.after o c r = o) :
    Idle G (sys c) := fun o => keeps_call (ha o) (hk o)

/-- One program after another, when what is open does not depend on how the first ended. -/
theorem uses_seq {β : Type} {p : Prog α} {f : α → Prog β} {P Q : Open → Prop}
    (hp : Uses G p o fun _ o' => P o') (hf : ∀ a o', P o' → Uses G (f a) o' fun _ o'' => Q o'')
    (he : ∀ o', P o' → Q o') : Uses G (p >>= f) o fun _ o' => Q o' :=
  hp.bind (fun a o' h => hf a o' h) fun _ o' h => he o' h

/-- `try: ... except OSError: pass`. -/
theorem uses_ignored {p : Prog Unit} {Q : Open → Prop} (hp : Uses G p o fun _ o' => Q o') :
    Uses G (exceptOSError p (pure ())) o fun _ o' => Q o' :=
  Conforms.rescue hp (fun _ _ h => h) fun e o' h => by
    by_cases he : e.type.isOSError = true
    · rw [if_pos he]
      exact h
    · rw [if_neg he]
      exact h

theorem uses_ensuring {p : Prog α} {q : Prog Unit} {P Q : Open → Prop}
    (hp : Uses G p o fun _ o' => P o') (hq : ∀ o', P o' → Uses G q o' fun _ o'' => Q o'') :
    Uses G (p.ensuring q) o fun _ o' => Q o' :=
  Conforms.ensuring (S := fun _ _ o' => Q o') hp (fun _ o' h => hq o' h) (fun _ _ _ h => h)
    fun _ _ _ h => h

/-! ## 2. `atomic_write` -/

theorem fillTemp_uses (data : Bytes) {d : Bool} :
    Uses G (fillTemp data) ⟨l, .raw, d⟩ fun _ o => o = ⟨l, .closed, d⟩ := by
  have hopen : Uses G (onRaise (sys (.side .openTemp))
      (exceptOSError (sys (.side .closeFd)) (pure ()))) ⟨l, .raw, d⟩ fun r o =>
        (∀ u, r = .ok u → o = ⟨l, .wrapped, d⟩) ∧ ∀ e, r = .error e → o = ⟨l, .closed, d⟩ := by
    have hwrap : Uses G (sys (.side .openTemp)) ⟨l, .raw, d⟩ fun r o =>
        (∀ u, r = .ok u → o = ⟨l, .wrapped, d⟩) ∧ ∀ e, r = .error e → o = ⟨l, .raw, d⟩ := by
      refine uses_call rfl fun r _ => ?_
      cases r with
      | ok u => exact ⟨fun _ _ => rfl, fun _ he => nomatch he⟩
      | error e => exact ⟨fun _ he => (nomatch he), fun _ _ => rfl⟩
    refine Conforms.rescue hwrap (fun u o h => ⟨h.1, fun _ he => nomatch he⟩) fun e o h => ?_
    obtain rfl := h.2 e rfl
    have hclose : Uses G (sys (.side .closeFd)) ⟨l, .raw, d⟩ fun _ o => o = ⟨l, .closed, d⟩ :=
      uses_call rfl fun r _ => by cases r <;> rfl
    refine (uses_ignored hclose).follow fun r o h => ?_
    cases r with
    | ok u => exact ⟨fun _ he => (nomatch he), fun _ _ => h⟩
    | error e' => exact ⟨fun _ he => (nomatch he), fun _ _ => h⟩
  have hfill : Uses G (ensuring (do
      sys (.side (.writeTemp data))
      sys (.side .flushTemp)
      sys (.side .syncTemp)) (sys (.side .closeTemp))) ⟨l, .wrapped, d⟩ fun _ o =>
        o = ⟨l, .closed, d⟩ := by
    refine uses_ensuring (P := fun o => o = ⟨l, .wrapped, d⟩) ?_ ?_
    · refine uses_seq (keeps_call rfl fun _ => rfl) (fun _ o h => ?_) fun _ h => h
      obtain rfl := h
      refine uses_seq (keeps_call rfl fun _ => rfl) (fun _ o h => ?_) fun _ h => h
      obtain rfl := h
      exact keeps_call rfl fun _ => rfl
    · rintro o rfl
      exact uses_call rfl fun r _ => by cases r <;> rfl
  refine hopen.bind (fun u o h => ?_) fun e o h => h.2 e rfl
  obtain rfl := h.1 u rfl
  exact hfill

theorem applyMode_uses (mode : Option Nat) {d : Bool} :
    Uses G (applyMode mode) ⟨l, .closed, d⟩ fun _ o => o = ⟨l, .closed, d⟩ := by
  cases mode with
  | none => exact rfl
  | some mode => exact uses_ignored (keeps_call rfl fun _ => rfl)

theorem replace_uses (nt : Bool) (data : Bytes) {d : Bool} :
    Uses G (windowsRetry nt fun k => sys (.replace data k)) ⟨l, .closed, d⟩ fun r o =>
      (∀ u, r = .ok u → o = ⟨l, .none, d⟩) ∧ ∀ e, r = .error e → o = ⟨l, .closed, d⟩ := by
  refine windowsRetry_conforms (fun k => ?_) nt
  refine uses_call rfl fun r _ => ?_
  cases r with
  | ok u => exact ⟨fun _ _ => ⟨fun _ _ => rfl, fun _ he => nomatch he⟩, fun _ he => nomatch he⟩
  | error e =>
    exact ⟨fun _ ha => (nomatch ha), fun _ _ => ⟨rfl, fun _ hu => (nomatch hu), fun _ _ => rfl⟩⟩

/-- The temporary file is renamed or an unlink is attempted. -/
theorem replaceTarget_uses (nt : Bool) (mode : Option Nat) (data : Bytes) :
    Uses G (replaceTarget nt mode data) ⟨l, .raw, false⟩ fun _ o => o.Settled l := by
  have hbody : Uses G (do
      fillTemp data
      applyMode mode
      windowsRetry nt fun k => sys (.replace data k)) ⟨l, .raw, false⟩ fun r o =>
        (∀ u, r = .ok u → o = ⟨l, .none, false⟩) ∧ ∀ e, r = .error e → o = ⟨l, .closed, false⟩ := by
    have hraised {o : Open} (e : PyExc) (h : o = ⟨l, .closed, false⟩) :
        (∀ u : Unit, (.error e : Except PyExc Unit) = .ok u → o = ⟨l, .none, false⟩) ∧
          ∀ e', (.error e : Except PyExc Unit) = .error e' → o = ⟨l, .closed, false⟩ :=
      ⟨fun _ he => (nomatch he), fun _ _ => h⟩
    refine (fillTemp_uses data).bind (fun _ o h => ?_) fun e o h => hraised e h
    obtain rfl := h
    refine (applyMode_uses mode).bind (fun _ o h => ?_) fun e o h => hraised e h
    obtain rfl := h
    exact replace_uses nt data
  refine Conforms.rescue hbody (fun u o h => ?_) fun e o h => ?_
  · rw [h.1 u rfl]
    exact ⟨rfl, rfl, Or.inl rfl⟩
  · obtain rfl := h.2 e rfl
    have hunlink : Uses G (sys (.side .unlinkTemp)) ⟨l, .closed, false⟩ fun _ o => o.Settled l := by
      refine uses_call rfl fun r _ => ?_
      cases r with
      | ok u => exact ⟨rfl, rfl, Or.inl rfl⟩
      | error e => exact ⟨rfl, rfl, Or.inr rfl⟩
    refine (uses_ignored hunlink).follow fun r o h => ?_
    cases r with
    | ok u => exact h
    | error e' => exact h

theorem fsyncParent_uses (nt : Bool) (ho : o.Settled l) :
    Uses G (fsyncParent nt) o fun _ o' => o'.Settled l := by
  obtain ⟨lock, temp, dir⟩ := o
  obtain ⟨rfl, rfl, htemp⟩ := ho
  cases nt with
  | true => exact ⟨rfl, rfl, htemp⟩
  | false =>
    have hopen : Uses G (sys (.side .openDir)) ⟨lock, temp, false⟩ fun r o =>
        (∀ u, r = .ok u → o = ⟨lock, temp, true⟩) ∧ ∀ e, r = .error e → o = ⟨lock, temp, false⟩ := by
      refine uses_call rfl fun r _ => ?_
      cases r with
      | ok u => exact ⟨fun _ _ => rfl, fun _ he => nomatch he⟩
      | error e => exact ⟨fun _ he => (nomatch he), fun _ _ => rfl⟩
    have hopened : Uses G openParent ⟨lock, temp, false⟩ fun r o =>
        (∀ b, r = .ok b → o = ⟨lock, temp, b⟩) ∧ ∀ e, r = .error e → o = ⟨lock, temp, false⟩ := by
      have hthen : Uses G (do sys (.side .openDir); pure true) ⟨lock, temp, false⟩ fun r o =>
          (∀ b, r = .ok b → o = ⟨lock, temp, b⟩) ∧ ∀ e, r = .error e → o = ⟨lock, temp, false⟩ := by
        refine hopen.bind (fun u o h => ?_) fun e o h =>
          ⟨fun _ hb => (nomatch hb), fun _ _ => h.2 e rfl⟩
        exact ⟨fun b hb => by cases hb; exact h.1 u rfl, fun _ he => nomatch he⟩
      refine Conforms.rescue hthen (fun b o h => h) fun e o h => ?_
      by_cases he : e.type.isOSError = true
      · rw [if_pos he]
        exact ⟨fun b hb => by cases hb; exact h.2 e rfl, fun _ he => nomatch he⟩
      · rw [if_neg he]
        exact ⟨fun _ hb => (nomatch hb), fun _ _ => h.2 e rfl⟩
    refine hopened.bind (fun b o h => ?_) fun e o h => ?_
    · obtain rfl := h.1 b rfl
      cases b with
      | false => exact ⟨rfl, rfl, htemp⟩
      | true =>
        refine uses_ensuring (P := fun o => o = ⟨lock, temp, true⟩)
          (uses_ignored (keeps_call rfl fun _ => rfl)) ?_
        rintro o rfl
        exact uses_call rfl fun r _ => by cases r <;> exact ⟨rfl, rfl, htemp⟩
    · obtain rfl := h.2 e rfl
      exact ⟨rfl, rfl, htemp⟩

theorem existingMode_idle (nt : Bool) : Idle G (existingMode nt) := by
  cases nt with
  | true => exact .done _
  | false =>
    have hstat : Idle G (sys .statTarget) := idle_call (fun _ => trivial) fun _ _ => rfl
    exact exceptOSError_steady (hstat.bind fun _ => .done _) (.done _)

/-- **`atomic_write` leaves nothing open**, however it ends. -/
theorem atomicWrite_uses (nt : Bool) (data : Bytes) :
    Uses G (atomicWrite nt data) ⟨l, .none, false⟩ fun _ o => o.Settled l := by
  have hstart : Open.Settled l ⟨l, .none, false⟩ := ⟨rfl, rfl, Or.inl rfl⟩
  refine uses_seq (P := fun o => o = ⟨l, .none, false⟩) (keeps_call trivial fun _ => rfl)
    (fun _ o h => ?_) fun o h => h ▸ hstart
  obtain rfl := h
  refine uses_seq (P := fun o => o = ⟨l, .none, false⟩) ?_ (fun mode o h => ?_) fun o h => h ▸ hstart
  · exact existingMode_idle nt _
  obtain rfl := h
  have hmake : Uses G (sys (.side .makeTemp)) ⟨l, .none, false⟩ fun r o =>
      (∀ u, r = .ok u → o = ⟨l, .raw, false⟩) ∧ ∀ e, r = .error e → o = ⟨l, .none, false⟩ := by
    refine uses_call rfl fun r _ => ?_
    cases r with
    | ok u => exact ⟨fun _ _ => rfl, fun _ he => nomatch he⟩
    | error e => exact ⟨fun _ he => (nomatch he), fun _ _ => rfl⟩
  have hwrite : Uses G (do
      sys (.side .makeTemp)
      replaceTarget nt mode data
      fsyncParent nt) ⟨l, .none, false⟩ fun _ o => o.Settled l := by
    refine hmake.bind (fun u o h => ?_) fun e o h => h.2 e rfl ▸ hstart
    obtain rfl := h.1 u rfl
    exact uses_seq (replaceTarget_uses nt mode data) (fun _ o h => fsyncParent_uses nt h) fun _ h => h
  refine Conforms.rescue hwrite (fun _ _ h => h) fun e o h => ?_
  by_cases he : e.type.isOSError = true
  · rw [if_pos he]
    exact h
  · rw [if_neg he]
    exact h

/-! ## 3. The lock file -/

/-- A call may raise something that is no `OSError`, as an interrupt is not. -/
def Foreign (G : PyExc → Prop) : Prop := ∃ e, G e ∧ e.type.isOSError = false

/-- Nothing is open, except that an interrupted `acquire` leaves its lock file open, without the
    lock. -/
structure Ended (G : PyExc → Prop) (o : Open) : Prop where
  lock : o.lock = .closed ∨ Foreign G ∧ ∃ h, o.lock = .opened h
  dir : o.dir = false
  temp : o.temp = .none ∨ o.temp = .left

theorem Open.Settled.ended (h : o.Settled .closed) : Ended G o := ⟨Or.inl h.1, h.2.1, h.2.2⟩

theorem ended_nothing : Ended G .nothing := ⟨Or.inl rfl, rfl, Or.inl rfl⟩

/-- A call that changes nothing when it raises, with an `except OSError` clause. -/
theorem uses_guarded {c : Syscall} {handler : Prog c.Reply} {Q : Except PyExc c.Reply → Open → Prop}
    (ha : o.Allows c) (hk : ∀ e, o.after c (.error e) = o) (hok : ∀ a, Q (.ok a) (o.after c (.ok a)))
    (hforeign : ∀ e, G e → e.type.isOSError = false → Q (.error e) o) (hh : Uses G handler o Q) :
    Uses G (exceptOSError (sys c) handler) o Q := by
  refine Conforms.rescue (Q := fun r o' => (∀ a, r = .ok a → o' = o.after c (.ok a)) ∧
    ∀ e, r = .error e → G e ∧ o' = o) (uses_call ha fun r hr => ?_) (fun a o' h => ?_) fun e o' h => ?_
  · cases r with
    | ok a => exact ⟨fun _ e => by cases e; rfl, fun _ he => nomatch he⟩
    | error e => exact ⟨fun _ he => (nomatch he), fun e' he => by cases he; exact ⟨hr e rfl, hk e⟩⟩
  · rw [h.1 a rfl]
    exact hok a
  · obtain ⟨he, rfl⟩ := h.2 e rfl
    by_cases hos : e.type.isOSError = true
    · rw [if_pos hos]
      exact hh
    · rw [if_neg hos]
      exact hforeign e he (Bool.eq_false_iff.mpr hos)

/-- After a step of `acquire`: as before, or the lock file is given up. -/
def Step (G : PyExc → Prop) (o : Open) (r : Except PyExc α) (o' : Open) : Prop :=
  (∀ a, r = .ok a → o' = o) ∧ ∀ e, r = .error e → Ended G o'

/-- Closing the lock file before an exception is raised. -/
theorem giveUp_uses {h : Nat} (e : PyExc) : Uses G (do
    sys (.closeLock h)
    raise e : Prog α) ⟨.opened h, .none, false⟩ (Step G o) := by
  have hclose : Uses G (sys (.closeLock h)) ⟨.opened h, .none, false⟩ fun _ o => o = .nothing :=
    uses_call (Or.inl rfl) fun r _ => by cases r <;> rfl
  exact hclose.bind (fun _ o ho => ⟨nofun, fun _ _ => ho ▸ ended_nothing⟩) fun _ o ho =>
    ⟨nofun, fun _ _ => ho ▸ ended_nothing⟩

/-- An interrupt while the lock file is open. -/
theorem step_foreign {h : Nat} {e : PyExc} (he : G e) (hos : e.type.isOSError = false) :
    Step G o (.error e : Except PyExc α) ⟨.opened h, .none, false⟩ :=
  ⟨nofun, fun _ _ => ⟨Or.inr ⟨⟨e, he, hos⟩, h, rfl⟩, rfl, Or.inl rfl⟩⟩

theorem ensureLockByte_uses (cfg : Settings) (h : Nat) :
    Uses G (ensureLockByte cfg h) ⟨.opened h, .none, false⟩ (Step G ⟨.opened h, .none, false⟩) := by
  unfold ensureLockByte
  by_cases hnt : cfg.nt = true
  · rw [if_pos hnt]
    exact uses_guarded rfl (fun _ => rfl) (fun _ => ⟨fun _ _ => rfl, nofun⟩)
      (fun _ => step_foreign) (giveUp_uses _)
  · rw [if_neg hnt]
    exact ⟨fun _ _ => rfl, nofun⟩

theorem lockLoop_uses (h : Nat) : ∀ left k, Uses G (lockLoop h left k) ⟨.opened h, .none, false⟩
    (Step G ⟨.locked h, .none, false⟩) := by
  intro left
  induction left with
  | zero =>
    exact fun k => uses_guarded rfl (fun _ => rfl) (fun _ => ⟨fun _ _ => rfl, nofun⟩)
      (fun _ => step_foreign) (giveUp_uses _)
  | succ left ih =>
    exact fun k => uses_guarded rfl (fun _ => rfl) (fun _ => ⟨fun _ _ => rfl, nofun⟩)
      (fun _ => step_foreign) (ih (k + 1))

/-- **`acquire` holds the lock or gives it up.** -/
theorem acquire_uses (cfg : Settings) : Uses G (acquire cfg) .nothing fun r o =>
    (∀ h, r = .ok h → o = ⟨.locked h, .none, false⟩) ∧ ∀ e, r = .error e → Ended G o := by
  have raised {β : Type} {o : Open} {h : β → Open} (e : PyExc) (ho : Ended G o) :
      (∀ b, (.error e : Except PyExc β) = .ok b → o = h b) ∧
        ∀ e', (.error e : Except PyExc β) = .error e' → Ended G o := ⟨nofun, fun _ _ => ho⟩
  have hdir : Idle G (sys (.side .makeLockDir)) := idle_call (fun _ => trivial) fun _ _ => rfl
  refine hdir.andThen (fun _ => ?_) fun e => raised e ended_nothing
  have hopen : Uses G (sys .openLock) .nothing fun r o =>
      (∀ h, r = .ok h → o = ⟨.opened h, .none, false⟩) ∧ ∀ e, r = .error e → Ended G o := by
    refine uses_call rfl fun r _ => ?_
    cases r with
    | ok h => exact ⟨fun _ e => by cases e; rfl, nofun⟩
    | error e => exact raised e ended_nothing
  refine hopen.bind (fun h o ho => ?_) fun e o ho => raised e (ho.2 e rfl)
  obtain rfl := ho.1 h rfl
  refine (ensureLockByte_uses cfg h).bind (fun u o ho => ?_) fun e o ho => raised e (ho.2 e rfl)
  obtain rfl := ho.1 u rfl
  refine (lockLoop_uses h cfg.retries 0).bind (fun u o ho => ?_) fun e o ho => raised e (ho.2 e rfl)
  obtain rfl := ho.1 u rfl
  exact ⟨fun _ e => by cases e; rfl, nofun⟩

theorem release_uses {h : Nat} (ho : o.Settled (.locked h)) :
    Uses G (release h) o fun _ o' => o'.Settled .closed := by
  obtain ⟨lock, temp, dir⟩ := o
  obtain ⟨rfl, rfl, htemp⟩ := ho
  refine uses_ensuring (P := fun o => (o.lock = .opened h ∨ o.lock = .locked h) ∧ o.dir = false ∧
    (o.temp = .none ∨ o.temp = .left)) (uses_call rfl fun r _ => ?_) fun o ho => ?_
  · cases r with
    | ok u => exact ⟨Or.inl rfl, rfl, htemp⟩
    | error e => exact ⟨Or.inr rfl, rfl, htemp⟩
  · exact uses_call ho.1 fun r _ => by cases r <;> exact ⟨rfl, ho.2.1, ho.2.2⟩

theorem withLock_uses {cfg : Settings} {body : Prog α}
    (hb : ∀ h, Uses G body ⟨.locked h, .none, false⟩ fun _ o => o.Settled (.locked h)) :
    Uses G (withLock cfg body) .nothing fun _ o => Ended G o := by
  refine (acquire_uses cfg).bind (fun h o ho => ?_) fun e o ho => ho.2 e rfl
  obtain rfl := ho.1 h rfl
  exact (uses_ensuring (hb h) fun o ho => release_uses ho).mono fun _ _ ho => ho.ended

/-! ## 4. The operations -/

theorem idle_now (c : Clock) : Idle G (sys (.now c)) := idle_call (fun _ => trivial) fun _ _ => rfl

theorem idle_compute : Idle G (sys .compute) := idle_call (fun _ => trivial) fun _ _ => rfl

theorem engineLoad_idle (rt : Runtime) (cfg : Settings) : Idle G (engineLoad rt cfg) := by
  have hpresent : Idle G (sys .pathExists) := idle_call (fun _ => trivial) fun _ _ => rfl
  have hread (k : Nat) : Idle G (sys (.readBytes k)) := idle_call (fun _ => trivial) fun _ _ => rfl
  have hretry : Idle G (windowsRetry cfg.nt fun k => sys (.readBytes k)) := fun o =>
    windowsRetry_conforms (fun k => (hread k o).mono fun r o' h =>
      ⟨fun _ _ => h, fun _ _ => ⟨h, rfl⟩⟩) cfg.nt
  refine Steady.bind (Steady.bind hpresent fun present => ?_) fun file =>
    (idle_now .load).bind fun now => .done _
  cases present with
  | false => exact .done _
  | true => exact exceptOSError_steady (hretry.bind fun _ => .done _) (.done _)

theorem commitUnlocked_uses (rt : Runtime) (cp : Copier) (cfg : Settings) (state : State) :
    Uses G (commitUnlocked rt cp cfg state) ⟨l, .none, false⟩ fun _ o => o.Settled l := by
  have hstart : Open.Settled l ⟨l, .none, false⟩ := ⟨rfl, rfl, Or.inl rfl⟩
  refine (idle_now .commit).andThen (fun t => ?_) fun _ => hstart
  cases commitBytes rt cp t state with
  | error e => exact hstart
  | ok data => exact atomicWrite_uses cfg.nt data

theorem update_uses (rt : Runtime) (cp : Copier) (cfg : Settings) (mutator : Op PyVal) :
    Uses G (JsonDatabase.update rt cp cfg mutator) .nothing fun _ o => Ended G o := by
  refine withLock_uses fun h => ?_
  have hstart : Open.Settled (.locked h) ⟨.locked h, .none, false⟩ := ⟨rfl, rfl, Or.inl rfl⟩
  refine (engineLoad_idle rt cfg).andThen (fun state => ?_) fun _ => hstart
  refine idle_compute.andThen (fun _ => ?_) fun _ => hstart
  cases Op.result mutator state with
  | error e => exact hstart
  | ok result =>
    show Uses G (do
      commitUnlocked rt cp cfg result.2
      return result.1) _ _
    exact uses_seq (commitUnlocked_uses rt cp cfg result.2) (fun _ _ h => h) fun _ h => h

theorem createEmpty_uses (rt : Runtime) (cp : Copier) (cfg : Settings) (force : Bool) :
    Uses G (JsonDatabase.createEmpty rt cp cfg force) .nothing fun _ o => Ended G o := by
  refine withLock_uses fun h => ?_
  have hstart : Open.Settled (.locked h) ⟨.locked h, .none, false⟩ := ⟨rfl, rfl, Or.inl rfl⟩
  have hpresent : Idle G (sys .pathExists) := idle_call (fun _ => trivial) fun _ _ => rfl
  refine hpresent.andThen (fun present => ?_) fun _ => hstart
  by_cases hc : (present && !force) = true
  · rw [if_pos hc]
    exact hstart
  · rw [if_neg hc]
    refine (idle_now .create).andThen (fun t => ?_) fun _ => hstart
    cases makeEmptyState rt t with
    | error e => exact hstart
    | ok state => exact commitUnlocked_uses rt cp cfg state

/-- `__enter__` holds the lock or gives it up. -/
theorem enterTransaction_uses (rt : Runtime) (cp : Copier) (cfg : Settings) :
    Uses G (enterTransaction rt cp cfg none) .nothing fun r o =>
      (∀ x, r = .ok x → o = ⟨.locked x.1, .none, false⟩) ∧ ∀ e, r = .error e → Ended G o := by
  refine (acquire_uses cfg).bind (fun h o ho => ?_) fun e o ho => ⟨nofun, fun _ _ => ho.2 e rfl⟩
  obtain rfl := ho.1 h rfl
  have hstart : Open.Settled (.locked h) ⟨.locked h, .none, false⟩ := ⟨rfl, rfl, Or.inl rfl⟩
  have hbody : Uses G (do
      let loaded ← engineLoad rt cfg
      let state ← lift (copyDict cp (.dict loaded))
      return (h, state) : Prog (Nat × State)) ⟨.locked h, .none, false⟩ fun r o =>
        o = ⟨.locked h, .none, false⟩ ∧ ∀ x, r = .ok x → x.1 = h := by
    refine (engineLoad_idle rt cfg).andThen (fun loaded => ?_) fun _ => ⟨rfl, nofun⟩
    cases copyDict cp (.dict loaded) with
    | error e => exact ⟨rfl, nofun⟩
    | ok state => exact ⟨rfl, fun _ e => by cases e; rfl⟩
  refine Conforms.rescue hbody (fun x o ho => ⟨fun y e => ?_, nofun⟩) fun e o ho => ?_
  · cases e
    rw [ho.1, ho.2 x rfl]
  · obtain rfl := ho.1
    refine (release_uses hstart).follow fun r o ho => ?_
    cases r with
    | ok u => exact ⟨nofun, fun _ _ => ho.ended⟩
    | error e' => exact ⟨nofun, fun _ _ => ho.ended⟩

/-- `__exit__` gives the lock up, committed or not. -/
theorem exitTransaction_uses (rt : Runtime) (cp : Copier) (cfg : Settings) (h : Nat) (clean : Bool)
    (state : Except PyExc State) : Uses G (exitTransaction rt cp cfg (some h) clean state)
      ⟨.locked h, .none, false⟩ fun _ o => Ended G o := by
  have hstart : Open.Settled (.locked h) ⟨.locked h, .none, false⟩ := ⟨rfl, rfl, Or.inl rfl⟩
  refine (uses_ensuring (P := fun o => o.Settled (.locked h)) ?_ fun o ho =>
    release_uses ho).mono fun _ _ ho => ho.ended
  cases clean with
  | false => exact hstart
  | true =>
    cases state with
    | error e => exact hstart
    | ok state => exact commitUnlocked_uses rt cp cfg state

theorem withTransaction_uses (rt : Runtime) (cp : Copier) (cfg : Settings) (body : Op PyVal) :
    Uses G (withTransaction rt cp cfg body) .nothing fun _ o => Ended G o := by
  refine (enterTransaction_uses rt cp cfg).bind (fun x o ho => ?_) fun e o ho => ho.2 e rfl
  obtain ⟨h, state⟩ := x
  obtain rfl : o = ⟨.locked h, .none, false⟩ := ho.1 _ rfl
  have hbody : Idle G (do
      sys .compute
      lift (Op.result body state)) := idle_compute.bind fun _ => .done _
  refine (hbody _).follow fun r o ho => ?_
  obtain rfl : o = ⟨.locked h, .none, false⟩ := ho
  cases r with
  | ok result =>
    exact uses_seq (exitTransaction_uses rt cp cfg h true _) (fun _ _ h => h) fun _ h => h
  | error e => exact uses_seq (exitTransaction_uses rt cp cfg h false _) (fun _ _ h => h) fun _ h => h

/-- **Every operation** uses what it has opened, and leaves nothing open. -/
theorem Job.uses (rt : Runtime) (cp : Copier) (cfg : Settings) (job : Job) :
    Uses G (job.program rt cp cfg) .nothing fun _ o => Ended G o := by
  cases job with
  | update mutator => exact uses_seq (update_uses rt cp cfg mutator) (fun _ _ h => h) fun _ h => h
  | createEmpty force => exact uses_seq (createEmpty_uses rt cp cfg force) (fun _ _ h => h) fun _ h => h
  | transaction body => exact uses_seq (withTransaction_uses rt cp cfg body) (fun _ _ h => h) fun _ h => h
  | load => exact (engineLoad_idle rt cfg).andThen (fun _ => ended_nothing) fun _ => ended_nothing

end

/-! ## 5. Every trace -/

/-- What is open after these calls. -/
def Open.afterAll (o : Open) (calls : List (Σ c : Syscall, Except PyExc c.Reply)) : Open :=
  calls.foldl (fun o x => o.after x.1 x.2) o

theorem left_of_after {o : Open} {c : Syscall} {r : Except PyExc c.Reply}
    (h : (o.after c r).temp = .left) : o.temp = .left ∨
      ∃ e, (⟨c, r⟩ : Σ c : Syscall, Except PyExc c.Reply) = ⟨.side .unlinkTemp, .error e⟩ := by
  cases c with
  | side c =>
    cases c <;> cases r <;> first
      | exact Or.inl h
      | exact Or.inr ⟨_, rfl⟩
      | cases h
  | _ =>
    cases r <;> first
      | exact Or.inl h
      | cases h

/-- A temporary file that is left is one that could not be unlinked. -/
theorem left_of_afterAll {calls : List (Σ c : Syscall, Except PyExc c.Reply)} {o : Open}
    (h : (o.afterAll calls).temp = .left) :
    o.temp = .left ∨ ∃ e, ⟨.side .unlinkTemp, .error e⟩ ∈ calls := by
  induction calls generalizing o with
  | nil => exact Or.inl h
  | cons x calls ih =>
    rcases ih h with hleft | ⟨e, he⟩
    · rcases left_of_after hleft with ho | ⟨e, he⟩
      · exact Or.inl ho
      · exact Or.inr ⟨e, List.mem_cons.mpr (Or.inl he.symm)⟩
    · exact Or.inr ⟨e, List.mem_cons_of_mem _ he⟩

/-- **Nothing is left open**, whichever calls of an operation raise, and wherever. Every call finds
    open what it uses and unopened what it opens; at the end the descriptors of the temporary file
    and of the directory are closed; the temporary file is renamed or unlinked, or unlinking it has
    raised; the lock is given up; and the lock file is closed, unless something that is no `OSError`
    was raised. -/
theorem nothing_left_open (rt : Runtime) (cp : Copier) (cfg : Settings) (job : Job)
    {calls : List (Σ c : Syscall, Except PyExc c.Reply)} {r : Except PyExc (Option State)}
    (h : Trace (job.program rt cp cfg) calls r) :
    (∀ pre x post, calls = pre ++ x :: post → (Open.nothing.afterAll pre).Allows x.1) ∧
    (Open.nothing.afterAll calls).dir = false ∧
    ((Open.nothing.afterAll calls).temp = .none ∨ (Open.nothing.afterAll calls).temp = .left ∧
      ∃ e, ⟨.side .unlinkTemp, .error e⟩ ∈ calls) ∧
    (∀ handle, (Open.nothing.afterAll calls).lock ≠ .locked handle) ∧
    ((∀ x ∈ calls, ∀ e, x.2 = .error e → e.type.isOSError = true) →
      (Open.nothing.afterAll calls).lock = .closed) := by
  obtain ⟨hend, huse⟩ := (Job.uses (G := fun _ => True) rt cp cfg job).trace h fun _ _ _ _ => trivial
  refine ⟨huse, hend.dir, hend.temp.imp_right fun ht => ⟨ht, ?_⟩, fun handle hl => ?_, fun hos => ?_⟩
  · exact (left_of_afterAll ht).resolve_left nofun
  · rcases hend.lock with hc | ⟨-, h', ho⟩
    · cases hc.symm.trans hl
    · cases ho.symm.trans hl
  · obtain ⟨hend, -⟩ := (Job.uses (G := fun e => e.type.isOSError = true) rt cp cfg job).trace h hos
    refine hend.lock.resolve_right fun hf => ?_
    obtain ⟨⟨e, he, hne⟩, -⟩ := hf
    rw [he] at hne
    cases hne

/-- Whatever a call raises under an assignment is an `OSError`. -/
theorem perform_raises {env : Env} {c : Syscall} {w : World} {e : PyExc}
    (h : (perform env c w).1 = .error e) : e.type.isOSError = true := by
  have hanswer {α : Type} {f : Option Fault} {a : α} {w w' : World}
      (h : (answer f a w w').1 = .error e) : e.type.isOSError = true := by
    cases f with
    | none => cases h
    | some f =>
      cases h
      exact f.isOSError
  cases c with
  | now which | compute => cases h
  | readBytes k =>
    cases hw : w.file with
    | some raw =>
      rw [perform_readBytes hw] at h
      exact hanswer h
    | none =>
      simp only [perform, hw] at h
      cases h
      rfl
  | tryLock handle k =>
    cases hw : w.lock with
    | none =>
      rw [perform_tryLock_free hw] at h
      exact hanswer h
    | some other =>
      rw [perform_tryLock_held hw] at h
      cases h
      rfl
  | _ => exact hanswer h

/-- `fsync` of the temporary file raises, and so does unlinking it. -/
def cleanupFails : Env where
  fails
    | .side .syncTemp | .side .unlinkTemp => some .other
    | _ => none
  clock _ := epoch
  mode := 0o644

/-- The calls of an `init` that cannot write. -/
def failedInit : List (Σ c : Syscall, Except PyExc c.Reply) :=
  traced (perform cleanupFails) (Job.program interpreter .total posix (.createEmpty false))
    ⟨none, none, 0⟩

set_option maxRecDepth 20000 in
theorem failedInit_left : (Open.nothing.afterAll failedInit).temp = .left := by decide +kernel

/-- It leaves its temporary file, because unlinking has raised, and nothing else. -/
theorem failed_init_closes : ∃ calls r e,
    Trace (Job.program interpreter .total posix (.createEmpty false)) calls r ∧
    ⟨.side .unlinkTemp, .error e⟩ ∈ calls ∧ Open.nothing.afterAll calls = ⟨.closed, .left, false⟩ ∧
    ∀ pre x post, calls = pre ++ x :: post → (Open.nothing.afterAll pre).Allows x.1 := by
  have h : Trace _ failedInit _ := trace_traced _ _
  obtain ⟨hused, hdir, htemp, -, hlock⟩ :=
    nothing_left_open interpreter .total posix (.createEmpty false) h
  have hclosed := hlock fun x hx e he => by
    obtain ⟨w, hw⟩ := mem_traced hx
    exact perform_raises (hw.symm.trans he)
  obtain ⟨-, e, he⟩ := htemp.resolve_left fun hn => by
    rw [failedInit_left] at hn
    cases hn
  have hall : Open.nothing.afterAll failedInit = ⟨.closed, .left, false⟩ := by
    rw [← hclosed, ← failedInit_left, ← hdir]
  exact ⟨failedInit, _, e, h, he, hall, hused⟩

/-! ## 6. The lock in every interleaving -/

/-- Any exception. -/
abbrev AnyExc : PyExc → Prop := fun _ => True

/-- What client `i` has open: its lock file is its own, and if it holds the lock it knows. -/
structure Owns (s : System) (i : Nat) (run : Running) (o : Open) : Prop where
  uses : Uses AnyExc run.rest o fun _ o' => Ended AnyExc o'
  own : ∀ h, o.lock = .opened h ∨ o.lock = .locked h → h < s.world.handles ∧ s.owner h = i
  knows : ∀ h, s.world.lock = some h → s.owner h = i → o.lock = .locked h

/-- The lock is held by a client in the middle of an operation. -/
structure System.Guarded (s : System) : Prop where
  clients : ∀ i run, s.clients i = some run → ∃ o, Owns s i run o
  lock : ∀ h, s.world.lock = some h → h < s.world.handles ∧ ∃ run, s.clients (s.owner h) = some run

section

variable {rt : Runtime} {cp : Copier} {s s' : System}

theorem System.Guarded.start (h : s.Guarded) {i : Nat} (cfg : Settings) (job : Job)
    (hi : s.clients i = none) : System.Guarded { s with
      clients := Function.update s.clients i
        (some ⟨s.nextOp, job, s.log.length, job.program rt cp cfg⟩)
      nextOp := s.nextOp + 1 } := by
  have hne {handle : Nat} (hl : s.world.lock = some handle) : s.owner handle ≠ i := by
    obtain ⟨-, run, hrun⟩ := h.lock handle hl
    rintro rfl
    rw [hi] at hrun
    cases hrun
  constructor
  · intro j run hj
    rcases update_some hj with ⟨rfl, hv⟩ | ⟨-, hj⟩
    · cases hv
      exact ⟨.nothing, Job.uses rt cp cfg job, fun _ hl => hl.elim nofun nofun,
        fun handle hl ho => absurd ho (hne hl)⟩
    · obtain ⟨o, ho⟩ := h.clients j run hj
      exact ⟨o, ho.uses, ho.own, ho.knows⟩
  · intro handle hl
    obtain ⟨hlt, run, hrun⟩ := h.lock handle hl
    exact ⟨hlt, run, (Function.update_of_ne (hne hl) ..).trans hrun⟩

/-- A client that has stopped does not hold the lock. -/
theorem System.Guarded.remove (h : s.Guarded) {i : Nat} {w : World} {fin : List Finished}
    (hhandles : w.handles = s.world.handles) (hlock : ∀ handle, w.lock = some handle →
      s.world.lock = some handle ∧ s.owner handle ≠ i) :
    System.Guarded { s with clients := Function.update s.clients i none, world := w, finished := fin } := by
  constructor
  · intro j run hj
    rcases update_some hj with ⟨-, hv⟩ | ⟨-, hj⟩
    · cases hv
    · obtain ⟨o, ho⟩ := h.clients j run hj
      exact ⟨o, ho.uses, fun handle hl => hhandles ▸ ho.own handle hl,
        fun handle hl => ho.knows handle (hlock handle hl).1⟩
  · intro handle hl
    obtain ⟨hl, hne⟩ := hlock handle hl
    obtain ⟨hlt, run, hrun⟩ := h.lock handle hl
    exact ⟨hhandles ▸ hlt, run, (Function.update_of_ne hne ..).trans hrun⟩

theorem System.Guarded.finish (h : s.Guarded) {i : Nat} {run : Running}
    {r : Except PyExc (Option State)} (hrun : s.clients i = some run) (hdone : run.rest = .done r) :
    System.Guarded { s with
      clients := Function.update s.clients i none
      finished := ⟨run.op, i, run.job, run.point, r⟩ :: s.finished } := by
  refine h.remove rfl fun handle hl => ⟨hl, fun ho => ?_⟩
  obtain ⟨o, hown⟩ := h.clients i run hrun
  have hend : Ended AnyExc o := by
    have huses := hown.uses
    rw [hdone] at huses
    exact huses
  have hlocked := hown.knows handle hl ho
  rcases hend.lock with hc | ⟨-, h', hc⟩
  · cases hc.symm.trans hlocked
  · cases hc.symm.trans hlocked

theorem System.Guarded.crash (h : s.Guarded) (i : Nat) : System.Guarded { s with
    clients := Function.update s.clients i none
    world := s.dropLock i } := by
  refine h.remove ?_ fun handle hl => ?_
  · unfold System.dropLock
    split
    · split <;> rfl
    · rfl
  · unfold System.dropLock at hl
    cases hs : s.world.lock with
    | none =>
      rw [hs] at hl
      simp only at hl
      rw [hs] at hl
      cases hl
    | some h' =>
      rw [hs] at hl
      simp only at hl
      by_cases ho : s.owner h' = i
      · rw [if_pos ho] at hl
        obtain ⟨hw, hne⟩ := World.release_lock hl
        exact absurd (Option.some.inj (hs.symm.trans hw)) hne
      · rw [if_neg ho, hs] at hl
        cases hl
        exact ⟨rfl, ho⟩

variable {i : Nat} {run : Running} {c : Syscall} {r : Except PyExc c.Reply} {w w' : World} {o : Open}

/-- Who holds the lock after a call: the client that took it, or who held it before. -/
theorem lock_after (hallow : o.Allows c) (ha : Answers c w r w') {h : Nat} (hl : w'.lock = some h) :
    (o.lock = .opened h ∧ (o.after c r).lock = .locked h) ∨
      (w.lock = some h ∧ (o.lock = .locked h → (o.after c r).lock = .locked h)) := by
  have release {handle : Nat} (hl : (w.release handle).lock = some h)
      (hhas : o.lock = .opened handle ∨ o.lock = .locked handle) :
      w.lock = some h ∧ o.lock ≠ .locked h := by
    obtain ⟨hw, hne⟩ := World.release_lock hl
    refine ⟨hw, fun ho => ?_⟩
    rcases hhas with hh | hh
    · cases ho.symm.trans hh
    · cases ho.symm.trans hh
      exact hne rfl
  cases ha with
  | raised e =>
    cases c with
    | closeLock handle =>
      obtain ⟨hw, hne⟩ := release hl hallow
      exact Or.inr ⟨hw, fun ho => absurd ho hne⟩
    | side c => exact Or.inr ⟨hl, fun ho => by cases c <;> exact ho⟩
    | _ => exact Or.inr ⟨hl, id⟩
  | @returned a w' hs =>
    cases c with
    | openLock =>
      obtain ⟨-, rfl⟩ := hs
      exact Or.inr ⟨hl, fun ho => by cases ho.symm.trans hallow⟩
    | tryLock handle k =>
      obtain ⟨-, rfl⟩ := hs
      obtain rfl := Option.some.inj hl
      exact Or.inl ⟨hallow, rfl⟩
    | unlock handle =>
      obtain rfl : w' = w.release handle := hs
      obtain ⟨hw, hne⟩ := release hl (Or.inr hallow)
      exact Or.inr ⟨hw, fun ho => absurd ho hne⟩
    | closeLock handle =>
      obtain rfl : w' = w.release handle := hs
      obtain ⟨hw, hne⟩ := release hl hallow
      exact Or.inr ⟨hw, fun ho => absurd ho hne⟩
    | replace data k =>
      obtain rfl : w' = { w with file := some data } := hs
      exact Or.inr ⟨hl, id⟩
    | pathExists | readBytes k =>
      obtain ⟨-, rfl⟩ := hs
      exact Or.inr ⟨hl, id⟩
    | now _ | compute | statTarget =>
      obtain rfl : w' = w := hs
      exact Or.inr ⟨hl, id⟩
    | side c =>
      obtain rfl : w' = w := hs
      exact Or.inr ⟨hl, fun ho => by cases c <;> exact ho⟩

theorem answers_handles (ha : Answers c w r w') : w.handles ≤ w'.handles := by
  cases ha with
  | raised e => cases c <;> exact le_rfl
  | @returned a w' hs =>
    cases c with
    | openLock =>
      obtain ⟨-, rfl⟩ := hs
      exact Nat.le_succ _
    | tryLock _ _ | pathExists | readBytes _ =>
      obtain ⟨-, rfl⟩ := hs
      exact le_rfl
    | unlock _ | closeLock _ | replace _ _ | now _ | compute | statTarget | side _ =>
      obtain rfl : w' = _ := hs
      exact le_rfl

/-- A lock file that is open after a call was open before, or the call has opened it. -/
theorem own_after (hallow : o.Allows c) (ha : Answers c s.world r w') {h : Nat}
    (hh : (o.after c r).lock = .opened h ∨ (o.after c r).lock = .locked h) :
    (o.lock = .opened h ∨ o.lock = .locked h) ∨ h < w'.handles ∧ s.ownerAfter i c r h = i := by
  cases ha with
  | raised e =>
    cases c with
    | closeLock handle => exact hh.elim nofun nofun
    | side c => cases c <;> exact Or.inl hh
    | _ => exact Or.inl hh
  | @returned a w' hs =>
    cases c with
    | openLock =>
      obtain ⟨rfl, rfl⟩ := hs
      have hh : h = s.world.handles := by
        rcases hh with hh | hh
        · cases hh
          rfl
        · cases hh
      rw [hh]
      exact Or.inr ⟨Nat.lt_succ_self _, Function.update_self ..⟩
    | tryLock handle k =>
      rcases hh with hh | hh
      · cases hh
      · cases hh
        exact Or.inl (Or.inl hallow)
    | unlock handle =>
      rcases hh with hh | hh
      · cases hh
        exact Or.inl (Or.inr hallow)
      · cases hh
    | closeLock handle => exact hh.elim nofun nofun
    | side c => cases c <;> exact Or.inl hh
    | _ => exact Or.inl hh

/-- A call of client `i` is answered. -/
theorem System.Guarded.call (h : s.Guarded) {k : Except PyExc c.Reply → Prog (Option State)}
    (hrun : s.clients i = some run) (hrest : run.rest = .call c k) (ha : Answers c s.world r w') :
    System.Guarded (s.answered i run c r w' (k r)) := by
  obtain ⟨o, ho⟩ := h.clients i run hrun
  have huses := ho.uses
  rw [hrest] at huses
  obtain ⟨hallow, hk⟩ := huses
  have hold {handle : Nat} (hlt : handle < s.world.handles) :
      s.ownerAfter i c r handle = s.owner handle := ownerAfter_old ha hlt
  have hhandles := answers_handles ha
  constructor
  · intro j run' hj
    rcases update_some hj with ⟨rfl, hv⟩ | ⟨hij, hj⟩
    · cases hv
      refine ⟨o.after c r, hk r _ ⟨fun _ _ => trivial, rfl⟩, fun handle hh => ?_, fun handle hl how => ?_⟩
      · rcases own_after hallow ha hh with hh | hnew
        · obtain ⟨hlt, hown⟩ := ho.own handle hh
          exact ⟨hlt.trans_le hhandles, (hold hlt).trans hown⟩
        · exact hnew
      · rcases lock_after hallow ha hl with ⟨-, hlocked⟩ | ⟨hw, hkeep⟩
        · exact hlocked
        · exact hkeep (ho.knows handle hw ((hold (h.lock handle hw).1).symm.trans how))
    · obtain ⟨o', ho'⟩ := h.clients j run' hj
      refine ⟨o', ho'.uses, fun handle hh => ?_, fun handle hl how => ?_⟩
      · obtain ⟨hlt, hown⟩ := ho'.own handle hh
        exact ⟨hlt.trans_le hhandles, (hold hlt).trans hown⟩
      · rcases lock_after hallow ha hl with ⟨hopened, -⟩ | ⟨hw, -⟩
        · obtain ⟨hlt, hown⟩ := ho.own handle (Or.inl hopened)
          exact absurd (((hold hlt).symm.trans how).symm.trans hown) hij
        · exact ho'.knows handle hw ((hold (h.lock handle hw).1).symm.trans how)
  · intro handle hl
    rcases lock_after hallow ha hl with ⟨hopened, -⟩ | ⟨hw, -⟩
    · obtain ⟨hlt, hown⟩ := ho.own handle (Or.inl hopened)
      refine ⟨hlt.trans_le hhandles, ?_⟩
      show ∃ run'', Function.update s.clients i _ (s.ownerAfter i c r handle) = some run''
      rw [hold hlt, hown]
      exact ⟨_, Function.update_self ..⟩
    · obtain ⟨hlt, run', hrun'⟩ := h.lock handle hw
      refine ⟨hlt.trans_le hhandles, ?_⟩
      show ∃ run'', Function.update s.clients i _ (s.ownerAfter i c r handle) = some run''
      rw [hold hlt]
      by_cases hi : s.owner handle = i
      · rw [hi]
        exact ⟨_, Function.update_self ..⟩
      · exact ⟨run', (Function.update_of_ne hi ..).trans hrun'⟩

theorem System.Guarded.step (h : s.Guarded) (hs : System.Step rt cp s s') : s'.Guarded := by
  cases hs with
  | start i cfg job hi => exact h.start cfg job hi
  | call hrun hrest ha => exact h.call hrun hrest ha
  | finish hrun hdone => exact h.finish hrun hdone
  | crash i => exact h.crash i

theorem reachable_guarded {file : Option Bytes} (h : System.Reachable rt cp (.start file) s) :
    s.Guarded := by
  induction h with
  | start => exact ⟨nofun, nofun⟩
  | step _ hs ih => exact ih.step hs

end

/-- A program that knows of the lock, if it has it, gives it up. -/
theorem Uses.frees {α : Type} {p : Prog α} {o : Open} {w : World} (env : Env)
    (h : Uses AnyExc p o fun _ o' => Ended AnyExc o')
    (hw : ∀ handle, w.lock = some handle → o.lock = .locked handle) :
    (p.run env w).2.lock = none := by
  have hstep (o : Open) (c : Syscall) (w : World) (hallow : o.Allows c)
      (hw : ∀ handle, w.lock = some handle → o.lock = .locked handle) :
      ∃ o', (Raising AnyExc c (perform env c w).1 ∧ o' = o.after c (perform env c w).1) ∧
        ∀ handle, (perform env c w).2.lock = some handle → o'.lock = .locked handle := by
    refine ⟨_, ⟨fun _ _ => trivial, rfl⟩, fun handle hl => ?_⟩
    rcases lock_after hallow (perform_answers env c w) hl with ⟨-, hlocked⟩ | ⟨hold, hkeeps⟩
    · exact hlocked
    · exact hkeeps (hw handle hold)
  obtain ⟨o', hend, hknows⟩ := Conforms.exec hstep h hw
  refine Option.eq_none_iff_forall_ne_some.mpr fun handle hl => ?_
  have ho := hknows handle hl
  rcases hend.lock with hc | ⟨-, h', hc⟩
  · cases ho.symm.trans hc
  · cases ho.symm.trans hc

/-- **The lock is in use.** In every reachable state, after any crashes and failed calls, a lock that
    is held is held by a client in the middle of an operation; and when that operation goes on to its
    end, whichever of its calls raise an `OSError`, the lock is free. So a client that finds nobody
    at work acquires it, if the system lets it at one of its attempts. -/
theorem lock_is_in_use {rt : Runtime} {cp : Copier} {file : Option Bytes} {s : System}
    (h : System.Reachable rt cp (.start file) s) (env : Env) :
    (∀ handle, s.world.lock = some handle → ∃ run, s.clients (s.owner handle) = some run ∧
      (run.rest.run env s.world).2.lock = none) ∧
    ((∀ i, s.clients i = none) → ∀ cfg : Settings, env.ok (.side .makeLockDir) → env.ok .openLock →
      (cfg.nt = true → env.ok (.side (.writeLockByte s.world.handles))) →
      (∃ k ≤ cfg.retries, env.ok (.tryLock s.world.handles k)) →
      (acquire cfg).run env s.world = (.ok s.world.handles, s.world.locked)) := by
  have hguard := reachable_guarded h
  constructor
  · intro handle hl
    obtain ⟨-, run, hrun⟩ := hguard.lock handle hl
    obtain ⟨o, ho⟩ := hguard.clients _ run hrun
    refine ⟨run, hrun, ho.uses.frees env fun handle' hl' => ?_⟩
    obtain rfl := Option.some.inj (hl.symm.trans hl')
    exact ho.knows handle hl rfl
  · intro hnobody cfg hdir hopen hbyte htry
    obtain ⟨k, hk, hok⟩ := htry
    have hfree : s.world.lock = none := by
      refine Option.eq_none_iff_forall_ne_some.mpr fun handle hl => ?_
      obtain ⟨-, run, hrun⟩ := hguard.lock handle hl
      rw [hnobody] at hrun
      cases hrun
    exact (acquire_run cfg s.world).1 ⟨hdir, hopen, hbyte, hfree, k, Nat.zero_le k, hk, hok⟩

/-- A client that has just taken the lock. -/
theorem init_holds : ∃ s, System.Reachable interpreter .total (.start none) s ∧
    s.world.lock = some 0 ∧ ∃ run, s.clients (s.owner 0) = some run ∧
      (run.rest.run quietSystem s.world).2.lock = none := by
  have hstart := (System.Reachable.start.step (.start 0 posix (.createEmpty false) rfl) :
    System.Reachable interpreter .total (.start none) _)
  have hdir := hstart.step (.call (Function.update_self ..) rfl (perform_answers quietSystem _ _))
  have hopen := hdir.step (.call (Function.update_self ..) rfl (perform_answers quietSystem _ _))
  have hlock := hopen.step (.call (Function.update_self ..) rfl (perform_answers quietSystem _ _))
  exact ⟨_, hlock, rfl, (lock_is_in_use hlock quietSystem).1 0 rfl⟩

end JsonDatabase
