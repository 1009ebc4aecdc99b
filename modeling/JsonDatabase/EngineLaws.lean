/-
  File:      JsonDatabase/EngineLaws.lean
  Subject:   What the engine's programs do under an assignment of outcomes to the system calls.

  * `Settles env p A` -- `p` changes nothing, and returns iff `A`;
  * `Writes` -- a program that replaces the file, with the calls on which that depends;
  * `engineLoad_run`, `atomicWrite_writes`, `acquire_run`, `release_run` -- one law for each part.
-/
import JsonDatabase.Engine

namespace JsonDatabase

open Interaction

section

variable {env : Env} {α β : Type}

/-! ## 1. Programs that change nothing -/

/-- `p` changes nothing. It returns iff `A`; otherwise it raises an `OSError`. -/
def Settles (env : Env) (p : Prog α) (A : Prop) : Prop :=
  ∀ w, (A → ∃ a, p.run env w = (.ok a, w)) ∧
    (¬ A → ∃ e, e.type.isOSError = true ∧ p.run env w = (.error e, w))

theorem Fault.isOSError (f : Fault) : f.exc.type.isOSError = true := by cases f <;> rfl

theorem answer_ok {fault : Option Fault} (h : fault = none) (a : α) (w w' : World) :
    answer fault a w w' = (.ok a, w') := by rw [h]; rfl

theorem answer_error {fault : Option Fault} (h : fault ≠ none) (a : α) (w w' : World) :
    ∃ e, e.type.isOSError = true ∧ answer fault a w w' = (.error e, w) := by
  cases fault with
  | none => exact absurd rfl h
  | some f => exact ⟨f.exc, f.isOSError, rfl⟩

namespace Settles

variable {p : Prog α} {A B : Prop}

theorem congr (h : Settles env p A) (hAB : A ↔ B) : Settles env p B := by
  rw [← propext hAB]
  exact h

theorem pure (a : α) : Settles env (pure a : Prog α) True :=
  fun _ => ⟨fun _ => ⟨a, rfl⟩, fun h => absurd trivial h⟩

theorem side (c : SideCall) : Settles env (sys (.side c)) (env.ok (.side c)) :=
  fun w => ⟨fun h => ⟨(), answer_ok h _ w w⟩, fun h => answer_error h _ w w⟩

theorem statTarget : Settles env (sys .statTarget) (env.ok .statTarget) :=
  fun w => ⟨fun h => ⟨env.mode, answer_ok h _ w w⟩, fun h => answer_error h _ w w⟩

theorem bind {f : α → Prog β} (hp : Settles env p A) (hf : ∀ a, Settles env (f a) B) :
    Settles env (p >>= f) (A ∧ B) := by
  intro w
  by_cases hA : A
  · obtain ⟨a, ha⟩ := (hp w).1 hA
    obtain ⟨h1, h2⟩ := hf a w
    rw [run, exec_bind_ok ha]
    exact ⟨fun h => h1 h.2, fun h => h2 fun hB => h ⟨hA, hB⟩⟩
  · obtain ⟨e, he, hrun⟩ := (hp w).2 hA
    rw [run, exec_bind_error hrun]
    exact ⟨fun h => absurd h.1 hA, fun _ => ⟨e, he, rfl⟩⟩

theorem ensuring {q : Prog Unit} (hp : Settles env p A) (hq : Settles env q B) :
    Settles env (ensuring p q) (A ∧ B) := by
  intro w
  by_cases hB : B
  · obtain ⟨u, hu⟩ := (hq w).1 hB
    refine ⟨fun h => ?_, fun h => ?_⟩
    · obtain ⟨a, ha⟩ := (hp w).1 h.1
      exact ⟨a, exec_ensuring_ok ha hu⟩
    · obtain ⟨e, he, hrun⟩ := (hp w).2 fun hA => h ⟨hA, hB⟩
      exact ⟨e, he, exec_ensuring_ok hrun hu⟩
  · obtain ⟨e, he, hq⟩ := (hq w).2 hB
    refine ⟨fun h => absurd h.2 hB, fun _ => ⟨e, he, ?_⟩⟩
    by_cases hA : A
    · obtain ⟨a, ha⟩ := (hp w).1 hA
      exact exec_ensuring_error ha hq
    · obtain ⟨e', -, hrun⟩ := (hp w).2 hA
      exact exec_ensuring_error hrun hq

theorem exceptOSError {h : Prog α} (hp : Settles env p A) (hh : Settles env h B) :
    Settles env (exceptOSError p h) (A ∨ B) := by
  intro w
  by_cases hA : A
  · obtain ⟨a, ha⟩ := (hp w).1 hA
    exact ⟨fun _ => ⟨a, exec_rescue_ok ha⟩, fun h => absurd (Or.inl hA) h⟩
  · obtain ⟨e, he, hrun⟩ := (hp w).2 hA
    obtain ⟨h1, h2⟩ := hh w
    rw [run, JsonDatabase.exceptOSError, exec_rescue_error hrun, he, if_pos rfl]
    exact ⟨fun h => h1 (h.resolve_left hA), fun h => h2 fun hB => h (Or.inr hB)⟩

/-- The failure is ignored. -/
theorem ignored {p : Prog Unit} (hp : Settles env p A) :
    Settles env (JsonDatabase.exceptOSError p (Pure.pure ())) True :=
  (hp.exceptOSError (.pure ())).congr (or_iff_right_of_imp fun _ => trivial)

theorem onRaise {q : Prog Unit} (hp : Settles env p A) (hq : Settles env q True) :
    Settles env (onRaise p q) A := by
  intro w
  refine ⟨fun hA => ?_, fun hA => ?_⟩
  · obtain ⟨a, ha⟩ := (hp w).1 hA
    exact ⟨a, exec_rescue_ok ha⟩
  · obtain ⟨e, he, hrun⟩ := (hp w).2 hA
    obtain ⟨u, hu⟩ := (hq w).1 trivial
    exact ⟨e, he, exec_onRaise_error hrun hu⟩

end Settles

/-! ## 2. Calls that are tried again -/

/-- The outcome of attempts `k` to `k + left`: the first that is no `PermissionError`. -/
def retryFrom (outcome : Nat → Option Fault) : Nat → Nat → Option Fault
  | 0, k => outcome k
  | left + 1, k =>
    if outcome k = some .permission then retryFrom outcome left (k + 1) else outcome k

/-- The outcome of a call that is tried ten times on Windows and once elsewhere. -/
def retried (nt : Bool) (outcome : Nat → Option Fault) : Option Fault :=
  if nt then retryFrom outcome 9 0 else outcome 0

theorem retryLoop_run {op : Nat → Prog α} {outcome : Nat → Option Fault} {a : α} {w w' : World}
    (h : ∀ k, (op k).run env w = answer (outcome k) a w w') : ∀ left k,
      (retryLoop op left k).run env w = answer (retryFrom outcome left k) a w w'
  | 0, k => h k
  | left + 1, k => by
      rw [retryLoop, retryFrom]
      cases ho : outcome k with
      | none =>
        have hk := h k
        rw [ho] at hk
        rw [if_neg (by simp)]
        exact exec_rescue_ok hk
      | some f =>
        have hk := h k
        rw [ho] at hk
        rw [run, exec_rescue_error hk]
        cases f with
        | permission => exact retryLoop_run h left (k + 1)
        | other => rfl

/-- **A retried call** has one outcome. -/
theorem windowsRetry_run {nt : Bool} {op : Nat → Prog α} {outcome : Nat → Option Fault} {a : α}
    {w w' : World} (h : ∀ k, (op k).run env w = answer (outcome k) a w w') :
    (windowsRetry nt op).run env w = answer (retried nt outcome) a w w' := by
  cases nt with
  | true => exact retryLoop_run h 9 0
  | false => exact h 0

/-! ## 3. Loading -/

/-- What a load finds at the path. -/
def Env.found (env : Env) (nt : Bool) (w : World) : FileRead :=
  match w.file with
  | none => .missing
  | some raw =>
    match retried nt fun k => env.fails (.readBytes k) with
    | none => .bytes raw
    | some _ => .unreadable

/-- The outcome of a load: looking whether the file exists may raise as well. -/
def Env.loads (env : Env) (rt : Runtime) (nt : Bool) (w : World) : Except PyExc State :=
  match env.fails .pathExists with
  | none => load rt (env.clock .load) (env.found nt w)
  | some f => .error f.exc

theorem readDatabase_run (cfg : Settings) (hok : env.ok .pathExists) (w : World) :
    (readDatabase cfg).run env w = (.ok (env.found cfg.nt w), w) := by
  have hp : (sys .pathExists).run env w = (.ok w.file.isSome, w) := answer_ok hok _ _ _
  unfold Env.found
  cases hf : w.file with
  | none =>
    rw [hf] at hp
    exact exec_bind_ok hp
  | some raw =>
    rw [hf] at hp
    have hw := @windowsRetry_run env _ cfg.nt (fun k => sys (.readBytes k)) _ raw w w
      fun k => perform_readBytes hf
    refine (exec_bind_ok hp).trans ?_
    cases ho : retried cfg.nt fun k => env.fails (.readBytes k) with
    | none =>
      rw [ho] at hw
      exact exec_rescue_ok (exec_bind_ok hw)
    | some f =>
      rw [ho] at hw
      refine (exec_rescue_error (exec_bind_error hw)).trans ?_
      rw [f.isOSError, if_pos rfl]
      rfl

/-- **A load changes nothing**, and its outcome is that of `load` on what it finds. -/
theorem engineLoad_run (rt : Runtime) (cfg : Settings) (w : World) :
    (engineLoad rt cfg).run env w = (env.loads rt cfg.nt w, w) := by
  unfold Env.loads
  cases hf : env.fails .pathExists with
  | none =>
    refine (exec_bind_ok (readDatabase_run cfg hf w)).trans ?_
    have hn : (sys (.now .load)).run env w = (.ok (env.clock .load), w) := rfl
    exact exec_bind_ok hn
  | some f =>
    have hp : (sys .pathExists).run env w = (.error f.exc, w) := by
      show answer (env.fails .pathExists) _ w w = _
      rw [hf]
      rfl
    exact exec_bind_error (exec_bind_error hp)

/-! ## 4. Writing -/

/-- A program that replaces the file by `data` where `R`, and raises before that otherwise. After
    that it returns `a` where `T`. What it raises is of this kind. -/
structure Writes (env : Env) (kind : ExcType → Prop) (p : Prog α) (w : World) (a : α) (data : Bytes)
    (R T : Prop) : Prop where
  before : ¬ R → ∃ e, kind e.type ∧ p.run env w = (.error e, w)
  done : R → T → p.run env w = (.ok a, { w with file := some data })
  late : R → ¬ T → ∃ e, kind e.type ∧ p.run env w = (.error e, { w with file := some data })

/-- `OSError` and its subclasses. -/
def osErrors (t : ExcType) : Prop := t.isOSError = true

namespace Writes

variable {kind : ExcType → Prop} {p : Prog α} {w : World} {a : α} {data : Bytes} {A B R T : Prop}

theorem congr {R' T' : Prop} (h : Writes env kind p w a data R T) (hR : R ↔ R') (hT : T ↔ T') :
    Writes env kind p w a data R' T' := by
  rw [← propext hR, ← propext hT]
  exact h

theorem weaken {kind' : ExcType → Prop} (h : Writes env kind p w a data R T)
    (hk : ∀ t, kind t → kind' t) : Writes env kind' p w a data R T where
  before hR := (h.before hR).imp fun _ he => he.imp_left (hk _)
  done := h.done
  late hR hT := (h.late hR hT).imp fun _ he => he.imp_left (hk _)

/-- Another program with the same run. -/
theorem of_run {q : Prog α} (h : Writes env kind p w a data R T)
    (hrun : q.run env w = p.run env w) : Writes env kind q w a data R T where
  before hR := (h.before hR).imp fun _ he => he.imp_right hrun.trans
  done hR hT := hrun.trans (h.done hR hT)
  late hR hT := (h.late hR hT).imp fun _ he => he.imp_right hrun.trans

theorem of_answer {fault : Option Fault}
    (h : p.run env w = answer fault a w { w with file := some data }) :
    Writes env osErrors p w a data (fault = none) True where
  before hf := by
    obtain ⟨e, hos, he⟩ := answer_error hf a w { w with file := some data }
    exact ⟨e, hos, h.trans he⟩
  done hf _ := h.trans (answer_ok hf _ _ _)
  late _ hT := absurd trivial hT

/-- What comes first always returns. -/
theorem after_quiet {q : Prog β} {f : β → Prog α} (hq : Settles env q True)
    (hf : ∀ b, Writes env kind (f b) w a data R T) : Writes env kind (q >>= f) w a data R T := by
  obtain ⟨b, hb⟩ := (hq w).1 trivial
  exact (hf b).of_run (exec_bind_ok hb)

theorem after_settles {q : Prog β} {f : β → Prog α} (hq : Settles env q A)
    (hk : ∀ t, osErrors t → kind t) (hf : ∀ b, Writes env kind (f b) w a data R T) :
    Writes env kind (q >>= f) w a data (A ∧ R) T := by
  by_cases hA : A
  · have hq' := hq.congr (iff_true_intro hA)
    exact (after_quiet hq' hf).congr (by simp [hA]) Iff.rfl
  · obtain ⟨e, hos, he⟩ := (hq w).2 hA
    exact ⟨fun _ => ⟨e, hk _ hos, exec_bind_error he⟩, fun h => absurd h.1 hA,
      fun h => absurd h.1 hA⟩

theorem then_settles {f : α → Prog Unit} (hp : Writes env osErrors p w a data R T)
    (hf : ∀ a, Settles env (f a) B) : Writes env osErrors (p >>= f) w () data R (T ∧ B) where
  before hR := (hp.before hR).imp fun _ he => he.imp_right exec_bind_error
  done hR hT := by
    obtain ⟨u, hu⟩ := (hf a _).1 hT.2
    exact (exec_bind_ok (hp.done hR hT.1)).trans hu
  late hR hT := by
    by_cases hT' : T
    · obtain ⟨e, hos, he⟩ := (hf a { w with file := some data }).2 fun hB => hT ⟨hT', hB⟩
      exact ⟨e, hos, (exec_bind_ok (hp.done hR hT')).trans he⟩
    · exact (hp.late hR hT').imp fun _ he => he.imp_right exec_bind_error

theorem then_pure {b : β} (hp : Writes env kind p w a data R T) :
    Writes env kind (p >>= fun _ => pure b) w b data R T where
  before hR := (hp.before hR).imp fun _ he => he.imp_right exec_bind_error
  done hR hT := exec_bind_ok (hp.done hR hT)
  late hR hT := (hp.late hR hT).imp fun _ he => he.imp_right exec_bind_error

/-- Cleaning up where the file was not replaced. -/
theorem onRaise {q : Prog Unit} (hp : Writes env kind p w a data R True) (hq : Settles env q True) :
    Writes env kind (onRaise p q) w a data R True where
  before hR := by
    obtain ⟨e, hk, he⟩ := hp.before hR
    obtain ⟨u, hu⟩ := (hq w).1 trivial
    exact ⟨e, hk, exec_onRaise_error he hu⟩
  done hR hT := exec_rescue_ok (hp.done hR hT)
  late _ hT := absurd trivial hT

/-- Every `OSError` translated into `e'`. -/
theorem translated (hp : Writes env osErrors p w a data R T) (e' : PyExc) :
    Writes env (· = e'.type) (exceptOSError p (raise e')) w a data R T := by
  have translate {e : PyExc} {w' : World} (he : e.type.isOSError = true ∧ p.run env w = (.error e, w')) :
      (exceptOSError p (raise e')).run env w = (.error e', w') := by
    refine (exec_rescue_error he.2).trans ?_
    rw [if_pos he.1]
    rfl
  constructor
  · intro hR
    obtain ⟨e, he⟩ := hp.before hR
    exact ⟨e', rfl, translate he⟩
  · exact fun hR hT => exec_rescue_ok (hp.done hR hT)
  · intro hR hT
    obtain ⟨e, he⟩ := hp.late hR hT
    exact ⟨e', rfl, translate he⟩

end Writes

/-- The calls up to and including `os.replace` succeed. -/
def Env.replaces (env : Env) (nt : Bool) (data : Bytes) : Prop :=
  (∀ c ∈ [.makeParent, .makeTemp, .openTemp, .writeTemp data, .flushTemp, .syncTemp, .closeTemp],
    env.ok (.side c)) ∧ retried nt (fun k => env.fails (.replace data k)) = none

/-- Closing the directory raises nothing. -/
def Env.dirClosed (env : Env) (nt : Bool) : Prop :=
  nt = true ∨ (env.ok (.side .openDir) → env.ok (.side .closeDir))

theorem fillTemp_settles (data : Bytes) : Settles env (fillTemp data) (env.ok (.side .openTemp) ∧
    (env.ok (.side (.writeTemp data)) ∧ env.ok (.side .flushTemp) ∧ env.ok (.side .syncTemp)) ∧
      env.ok (.side .closeTemp)) :=
  ((Settles.side .openTemp).onRaise (Settles.side .closeFd).ignored).bind fun _ =>
    ((Settles.side _).bind fun _ => (Settles.side _).bind fun _ => .side _).ensuring (.side _)

theorem applyMode_settles (mode : Option Nat) : Settles env (applyMode mode) True := by
  cases mode with
  | none => exact .pure ()
  | some mode => exact (Settles.side _).ignored

theorem existingMode_settles (nt : Bool) : Settles env (existingMode nt) True := by
  cases nt with
  | true => exact .pure none
  | false =>
    have h : Settles env (existingMode false) ((env.ok .statTarget ∧ True) ∨ True) :=
      (Settles.statTarget.bind fun mode => Settles.pure (some mode)).exceptOSError (Settles.pure none)
    exact h.congr (or_iff_right_of_imp fun _ => trivial)

theorem fsyncParent_settles (nt : Bool) : Settles env (fsyncParent nt) (env.dirClosed nt) := by
  cases nt with
  | true => exact (Settles.pure ()).congr (iff_of_true trivial (Or.inl rfl))
  | false =>
    intro w
    have hsync : Settles env (ensuring (exceptOSError (sys (.side .syncDir)) (pure ()))
        (sys (.side .closeDir))) (True ∧ env.ok (.side .closeDir)) :=
      (Settles.side .syncDir).ignored.ensuring (.side .closeDir)
    by_cases ho : env.ok (.side .openDir)
    · have hok : (sys (.side .openDir)).run env w = (.ok (), w) := answer_ok ho () w w
      have hopen : openParent.run env w = (.ok true, w) :=
        exec_rescue_ok ((exec_bind_ok hok).trans rfl)
      have hrun : (fsyncParent false).run env w = _ := exec_bind_ok hopen
      rw [hrun]
      refine ((hsync.congr ?_) w)
      exact ⟨fun h => Or.inr fun _ => h.2, fun h => ⟨trivial, (h.resolve_left Bool.false_ne_true) ho⟩⟩
    · obtain ⟨e, htype, he⟩ : ∃ e, _ ∧ (sys (.side .openDir)).run env w = (.error e, w) :=
        answer_error ho () w w
      have hopen : openParent.run env w = (.ok false, w) := by
        refine (exec_rescue_error (exec_bind_error he)).trans ?_
        rw [if_pos htype]
        rfl
      have hrun : (fsyncParent false).run env w = (.ok (), w) := exec_bind_ok hopen
      exact ⟨fun _ => ⟨(), hrun⟩, fun h => absurd (Or.inr fun h' => absurd h' ho) h⟩

/-- What `atomic_write` does once the parent directory is there. -/
def writeThrough (nt : Bool) (data : Bytes) : Prog Unit := do
  let mode ← existingMode nt
  exceptOSError (do
    sys (.side .makeTemp)
    replaceTarget nt mode data
    fsyncParent nt) (raise writeFailed)

theorem writeThrough_writes (nt : Bool) (data : Bytes) (w : World) :
    Writes env (· = .storageError) (writeThrough nt data) w () data
      (env.ok (.side .makeTemp) ∧ (∀ c ∈ [.openTemp, .writeTemp data, .flushTemp, .syncTemp,
        .closeTemp], env.ok (.side c)) ∧ retried nt (fun k => env.fails (.replace data k)) = none)
      (env.dirClosed nt) := by
  have hreplace : Writes env osErrors (windowsRetry nt fun k => sys (.replace data k)) w () data
      (retried nt (fun k => env.fails (.replace data k)) = none) True :=
    .of_answer (windowsRetry_run fun k => rfl)
  have htarget (mode : Option Nat) :=
    (Writes.after_settles (fillTemp_settles data) (fun _ h => h) fun _ =>
      Writes.after_quiet (applyMode_settles mode) fun _ => hreplace).onRaise
        (Settles.side .unlinkTemp).ignored
  have hall := Writes.after_quiet (existingMode_settles nt) fun mode =>
    (Writes.after_settles (Settles.side .makeTemp) (fun _ h => h) fun _ =>
      (htarget mode).then_settles fun _ => fsyncParent_settles nt).translated writeFailed
  refine hall.congr ?_ (by simp)
  simp only [List.forall_mem_cons, List.not_mem_nil, IsEmpty.forall_iff, implies_true]
  tauto

/-- **An atomic write** replaces the file iff every call up to the replacement succeeds; after
    that only closing the directory can raise. -/
theorem atomicWrite_writes (nt : Bool) (data : Bytes) (w : World) :
    Writes env (fun _ => True) (atomicWrite nt data) w () data (env.replaces nt data)
      (env.dirClosed nt) := by
  have h : Writes env (fun _ => True) (atomicWrite nt data) w () data _ _ :=
    Writes.after_settles (Settles.side .makeParent) (fun _ _ => trivial) fun _ =>
      (writeThrough_writes nt data w).weaken fun _ _ => trivial
  refine h.congr ?_ Iff.rfl
  simp only [Env.replaces, List.forall_mem_cons]
  tauto

/-- A commit whose bytes cannot be prepared writes nothing. -/
theorem commitUnlocked_error {rt : Runtime} {cp : Copier} (cfg : Settings) {state : State} {e : PyExc}
    (h : commitBytes rt cp (env.clock .commit) state = .error e) (w : World) :
    (commitUnlocked rt cp cfg state).run env w = (.error e, w) := by
  have hn : (sys (.now .commit)).run env w = (.ok (env.clock .commit), w) := rfl
  refine (exec_bind_ok hn).trans ?_
  rw [h]
  rfl

/-- A commit whose bytes are prepared is an atomic write of them. -/
theorem commitUnlocked_run {rt : Runtime} {cp : Copier} (cfg : Settings) {state : State} {data : Bytes}
    (h : commitBytes rt cp (env.clock .commit) state = .ok data) (w : World) :
    (commitUnlocked rt cp cfg state).run env w = (atomicWrite cfg.nt data).run env w := by
  have hn : (sys (.now .commit)).run env w = (.ok (env.clock .commit), w) := rfl
  refine (exec_bind_ok hn).trans ?_
  rw [h]
  rfl

/-! ## 5. The lock -/

/-- A lock file was opened. -/
def World.opened (w : World) : World := { w with handles := w.handles + 1 }

/-- A lock file was opened and holds the lock. -/
def World.locked (w : World) : World :=
  { w with lock := some w.handles, handles := w.handles + 1 }

/-- Some attempt to take a free lock succeeds. -/
def Env.takes (env : Env) (handle : Nat) (w : World) (first last : Nat) : Prop :=
  w.lock = none ∧ ∃ k, first ≤ k ∧ k ≤ last ∧ env.ok (.tryLock handle k)

/-- The lock is acquired. -/
def Env.acquires (env : Env) (cfg : Settings) (w : World) : Prop :=
  env.ok (.side .makeLockDir) ∧ env.ok .openLock ∧
    (cfg.nt = true → env.ok (.side (.writeLockByte w.handles))) ∧
      env.takes w.handles w 0 cfg.retries

/-- Unlocking and closing the lock file raise nothing. -/
def Env.releases (env : Env) (handle : Nat) : Prop :=
  env.ok (.unlock handle) ∧ env.ok (.closeLock handle)

/-- The file is closed and `e` is raised, unless closing raises. -/
theorem closeLock_raise (handle : Nat) {e : PyExc} (hlib : e.type.isJsonDBError = true) (w : World) :
    ∃ e', (do sys (.closeLock handle); raise (α := α) e : Prog α).run env w =
        (.error e', w.release handle) ∧
      (e'.type.isJsonDBError = true ↔ env.ok (.closeLock handle)) := by
  by_cases h : env.ok (.closeLock handle)
  · have hc : (sys (.closeLock handle)).run env w = (.ok (), w.release handle) := answer_ok h _ _ _
    exact ⟨e, exec_bind_ok hc, iff_of_true hlib h⟩
  · obtain ⟨e', he, hc⟩ : ∃ e', _ ∧ (sys (.closeLock handle)).run env w =
        (.error e', w.release handle) := answer_error h () (w.release handle) (w.release handle)
    exact ⟨e', exec_bind_error hc, iff_of_false (ExcType.not_isJsonDBError he) h⟩

theorem tryLock_run (handle k : Nat) (w : World) :
    (w.lock = none → env.ok (.tryLock handle k) →
      (sys (.tryLock handle k)).run env w = (.ok (), { w with lock := some handle })) ∧
    (¬ (w.lock = none ∧ env.ok (.tryLock handle k)) → ∃ e, e.type.isOSError = true ∧
      (sys (.tryLock handle k)).run env w = (.error e, w)) := by
  constructor
  · intro hw hok
    exact (perform_tryLock_free hw).trans (answer_ok hok _ _ _)
  · intro h
    cases hw : w.lock with
    | none =>
      obtain ⟨e, he, hrun⟩ := answer_error (fun hok => h ⟨hw, hok⟩) () w { w with lock := some handle }
      exact ⟨e, he, (perform_tryLock_free hw).trans hrun⟩
    | some other => exact ⟨_, Fault.isOSError _, perform_tryLock_held hw⟩

/-- By induction on the attempts that are left. -/
theorem lockLoop_run (handle : Nat) (w : World) : ∀ left k,
    (env.takes handle w k (k + left) →
      (lockLoop handle left k).run env w = (.ok (), { w with lock := some handle })) ∧
    (¬ env.takes handle w k (k + left) → ∃ e,
      (lockLoop handle left k).run env w = (.error e, w.release handle) ∧
        (e.type.isJsonDBError = true ↔ env.ok (.closeLock handle)))
  | 0, k => by
      obtain ⟨hfree, hheld⟩ := @tryLock_run env handle k w
      constructor
      · intro h
        obtain ⟨hw, j, hj, hj', hok⟩ := h
        obtain rfl : j = k := by omega
        exact exec_rescue_ok (hfree hw hok)
      · intro h
        obtain ⟨e, he, hrun⟩ := hheld fun h' => h ⟨h'.1, k, le_rfl, le_rfl, h'.2⟩
        obtain ⟨e', hclose, hlib⟩ := @closeLock_raise env Unit handle lockTimeout rfl w
        refine ⟨e', (exec_rescue_error hrun).trans ?_, hlib⟩
        rw [he, if_pos rfl]
        exact hclose
  | left + 1, k => by
      obtain ⟨hfree, hheld⟩ := @tryLock_run env handle k w
      obtain ⟨hrest, hrest'⟩ := lockLoop_run handle w left (k + 1)
      by_cases hnow : w.lock = none ∧ env.ok (.tryLock handle k)
      · refine ⟨fun _ => exec_rescue_ok (hfree hnow.1 hnow.2), fun h => absurd ?_ h⟩
        exact ⟨hnow.1, k, le_rfl, by omega, hnow.2⟩
      · obtain ⟨e, he, hrun⟩ := hheld hnow
        have hstep : (lockLoop handle (left + 1) k).run env w =
            (lockLoop handle left (k + 1)).run env w := by
          refine (exec_rescue_error hrun).trans ?_
          rw [he, if_pos rfl]
          rfl
        have hiff : env.takes handle w k (k + (left + 1)) ↔
            env.takes handle w (k + 1) (k + 1 + left) := by
          constructor
          · intro h
            obtain ⟨hw, j, hj, hj', hok⟩ := h
            have hne : j ≠ k := fun e => hnow ⟨hw, e ▸ hok⟩
            exact ⟨hw, j, by omega, by omega, hok⟩
          · intro h
            obtain ⟨hw, j, hj, hj', hok⟩ := h
            exact ⟨hw, j, by omega, by omega, hok⟩
        rw [hstep, hiff]
        exact ⟨hrest, hrest'⟩

/-- **Acquiring** gives the new lock file and the lock, or raises with the lock as it was. -/
theorem acquire_run (cfg : Settings) (w : World) :
    (env.acquires cfg w → (acquire cfg).run env w = (.ok w.handles, w.locked)) ∧
    (¬ env.acquires cfg w → ∃ e w', (acquire cfg).run env w = (.error e, w') ∧
      (w' = w ∨ w' = w.opened.release w.handles) ∧ (e.type.isJsonDBError = true ↔
        env.ok (.side .makeLockDir) ∧ env.ok .openLock ∧ env.ok (.closeLock w.handles))) := by
  by_cases hdir : env.ok (.side .makeLockDir)
  swap
  · obtain ⟨e, he, hrun⟩ := ((Settles.side .makeLockDir) w).2 hdir
    exact ⟨fun h => absurd h.1 hdir, fun _ => ⟨e, w, exec_bind_error hrun, Or.inl rfl,
      iff_of_false (ExcType.not_isJsonDBError he) fun h => hdir h.1⟩⟩
  obtain ⟨u, hmk⟩ := ((Settles.side .makeLockDir) w).1 hdir
  by_cases hopen : env.ok .openLock
  swap
  · obtain ⟨e, he, hrun⟩ : ∃ e, _ ∧ (sys .openLock).run env w = (.error e, w) :=
      answer_error hopen w.handles w w.opened
    exact ⟨fun h => absurd h.2.1 hopen, fun _ => ⟨e, w,
      (exec_bind_ok hmk).trans (exec_bind_error hrun), Or.inl rfl,
      iff_of_false (ExcType.not_isJsonDBError he) fun h => hopen h.2.1⟩⟩
  have hop : (sys .openLock).run env w = (.ok w.handles, w.opened) := answer_ok hopen _ _ _
  have hstart {p : Nat → Prog Nat} : (do
      sys (.side .makeLockDir)
      let handle ← sys .openLock
      p handle : Prog Nat).run env w = (p w.handles).run env w.opened :=
    (exec_bind_ok hmk).trans (exec_bind_ok hop)
  unfold acquire
  rw [hstart]
  by_cases hbyte : cfg.nt = true → env.ok (.side (.writeLockByte w.handles))
  swap
  · obtain ⟨hnt, hfail⟩ := Classical.not_imp.mp hbyte
    obtain ⟨e, he, hrun⟩ := ((Settles.side (.writeLockByte w.handles)) w.opened).2 hfail
    obtain ⟨e', hclose, hlib⟩ := @closeLock_raise env Unit w.handles prepareFailed rfl w.opened
    have hens : (ensureLockByte cfg w.handles).run env w.opened =
        (.error e', w.opened.release w.handles) := by
      unfold ensureLockByte
      rw [if_pos hnt]
      refine (exec_rescue_error hrun).trans ?_
      rw [he, if_pos rfl]
      exact hclose
    exact ⟨fun h => absurd h.2.2.1 hbyte, fun _ => ⟨e', _, exec_bind_error hens, Or.inr rfl,
      hlib.trans ⟨fun h => ⟨hdir, hopen, h⟩, fun h => h.2.2⟩⟩⟩
  have hens : (ensureLockByte cfg w.handles).run env w.opened = (.ok (), w.opened) := by
    unfold ensureLockByte
    by_cases hnt : cfg.nt = true
    · obtain ⟨u, hrun⟩ := ((Settles.side (.writeLockByte w.handles)) w.opened).1 (hbyte hnt)
      rw [if_pos hnt]
      exact exec_rescue_ok hrun
    · rw [if_neg hnt]
      rfl
  obtain ⟨htake, hfail⟩ := @lockLoop_run env w.handles w.opened cfg.retries 0
  rw [Nat.zero_add] at htake hfail
  refine ⟨fun h => ?_, fun h => ?_⟩
  · exact (exec_bind_ok hens).trans (exec_bind_ok (htake h.2.2.2))
  · obtain ⟨e, hrun, hlib⟩ := hfail fun h' => h ⟨hdir, hopen, hbyte, h'⟩
    exact ⟨e, _, (exec_bind_ok hens).trans (exec_bind_error hrun), Or.inr rfl,
      hlib.trans ⟨fun h => ⟨hdir, hopen, h⟩, fun h => h.2.2⟩⟩

/-- **Releasing** frees the lock even if it raises. -/
theorem release_run (handle : Nat) (w : World) :
    (env.releases handle → (release handle).run env w = (.ok (), w.release handle)) ∧
    (¬ env.releases handle → ∃ e, e.type.isOSError = true ∧
      (release handle).run env w = (.error e, w.release handle)) := by
  have hclosed (w' : World) (hok : env.ok (.closeLock handle)) :
      (sys (.closeLock handle)).run env w' = (.ok (), w'.release handle) := answer_ok hok _ _ _
  have hfails (w' : World) (hok : ¬ env.ok (.closeLock handle)) : ∃ e, e.type.isOSError = true ∧
      (sys (.closeLock handle)).run env w' = (.error e, w'.release handle) :=
    answer_error hok () (w'.release handle) (w'.release handle)
  by_cases hu : env.ok (.unlock handle)
  · have hun : (sys (.unlock handle)).run env w = (.ok (), w.release handle) := answer_ok hu _ _ _
    constructor
    · intro h
      have hc := hclosed (w.release handle) h.2
      rw [w.release_release] at hc
      exact exec_ensuring_ok hun hc
    · intro h
      obtain ⟨e, he, hc⟩ := hfails (w.release handle) fun hc => h ⟨hu, hc⟩
      rw [w.release_release] at hc
      exact ⟨e, he, exec_ensuring_error hun hc⟩
  · obtain ⟨e, he, hun⟩ : ∃ e, _ ∧ (sys (.unlock handle)).run env w = (.error e, w) :=
      answer_error hu () w (w.release handle)
    refine ⟨fun h => absurd h.1 hu, fun _ => ?_⟩
    by_cases hc : env.ok (.closeLock handle)
    · exact ⟨e, he, exec_ensuring_ok hun (hclosed w hc)⟩
    · obtain ⟨e', he', hc⟩ := hfails w hc
      exact ⟨e', he', exec_ensuring_error hun hc⟩

end

end JsonDatabase
