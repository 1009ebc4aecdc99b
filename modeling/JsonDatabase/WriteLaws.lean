/-
  File:      JsonDatabase/WriteLaws.lean
  Subject:   The three writes and entering a transaction, from the lock to its release.

  * `Body`, `Attempt` -- what is done inside the lock, and all of it with the lock's release;
  * `update_attempt`, `createEmpty_attempt`, `exit_attempt` -- the three writes;
  * `enterTransaction_ok`, `enterBody_run` -- entering a transaction.
-/
import JsonDatabase.EngineLaws

namespace JsonDatabase

open Interaction

section

variable {env : Env} {α β : Type}

/-! ## 1. Whole writes -/

/-- It returned, or raised one of the library's own exceptions. -/
def LibraryOnly (r : Except PyExc α) : Prop := ∀ e, r = .error e → e.type.isJsonDBError = true

@[simp] theorem libraryOnly_ok (a : α) : LibraryOnly (.ok a : Except PyExc α) := fun _ h => nomatch h

@[simp] theorem libraryOnly_error (e : PyExc) :
    LibraryOnly (.error e : Except PyExc α) ↔ e.type.isJsonDBError = true :=
  ⟨fun h => h e rfl, fun h _ he => Except.error.inj he ▸ h⟩

theorem atomicWrite_library (nt : Bool) (data : Bytes) (w : World) :
    LibraryOnly ((atomicWrite nt data).run env w).1 ↔ env.ok (.side .makeParent) := by
  by_cases hmk : env.ok (.side .makeParent)
  · refine iff_of_true ?_ hmk
    obtain ⟨u, hrun⟩ := ((Settles.side .makeParent) w).1 hmk
    have hw := @writeThrough_writes env nt data w
    have heq : (atomicWrite nt data).run env w = (writeThrough nt data).run env w :=
      exec_bind_ok hrun
    rw [heq]
    by_cases hR : env.ok (.side .makeTemp) ∧ (∀ c ∈ [.openTemp, .writeTemp data, .flushTemp,
        .syncTemp, .closeTemp], env.ok (.side c)) ∧
          retried nt (fun k => env.fails (.replace data k)) = none
    · by_cases hT : env.dirClosed nt
      · rw [hw.done hR hT]
        exact libraryOnly_ok ()
      · obtain ⟨e, hk, he⟩ := hw.late hR hT
        rw [he, libraryOnly_error, hk]
        rfl
    · obtain ⟨e, hk, he⟩ := hw.before hR
      rw [he, libraryOnly_error, hk]
      rfl
  · obtain ⟨e, hos, hrun⟩ := ((Settles.side .makeParent) w).2 hmk
    have heq : (atomicWrite nt data).run env w = (.error e, w) := exec_bind_error hrun
    rw [heq, libraryOnly_error]
    exact iff_of_false (ExcType.not_isJsonDBError hos) hmk

section Whole

variable {rt : Runtime} {cp : Copier} {cfg : Settings} {w w' : World}

/-- What is left of the lock: it is free, or held by a lock file that held it before, and not by
    `own`. -/
structure Frees (own : Option Nat) (w w' : World) : Prop where
  lock : ∀ h, w'.lock = some h → w.lock = some h ∧ own ≠ some h
  keeps : ∀ h, w.lock = some h → h < w.handles → own ≠ some h → w'.lock = some h
  handles : w.handles ≤ w'.handles

theorem Frees.refl (w : World) : Frees none w w :=
  ⟨fun _ hl => ⟨hl, nofun⟩, fun _ hl _ _ => hl, le_rfl⟩

theorem Frees.release (w : World) (handle : Nat) : Frees (some handle) w (w.release handle) where
  lock _ hl := (World.release_lock hl).imp_right fun hne e => hne (Option.some.inj e)
  keeps _ hl _ hne := World.release_keeps hl fun e => hne (congrArg some e)
  handles := le_rfl

/-- Releasing the lock file that is open, if any, raises nothing. -/
def Env.releasesIfOpen (env : Env) (own : Option Nat) : Prop := ∀ h, own = some h → env.releases h

/-- The cleanup of a statement that ended in `w'` with `r`. -/
theorem ensuring_release_run {p : Prog α} {r : Except PyExc α} (own : Option Nat)
    (hp : p.run env w = (r, w')) : ∃ r' w'', (ensuring p (releaseIfOpen own)).run env w = (r', w'') ∧
      w''.file = w'.file ∧ Frees own w' w'' ∧ (env.releasesIfOpen own → r' = r) ∧
        (¬ env.releasesIfOpen own → ∃ e, r' = .error e ∧ e.type.isOSError = true) := by
  cases own with
  | none =>
    have hnone : env.releasesIfOpen none := fun _ h => nomatch h
    exact ⟨r, w', exec_ensuring_ok hp rfl, rfl, .refl w', fun _ => rfl, fun h => absurd hnone h⟩
  | some handle =>
    have hiff : env.releasesIfOpen (some handle) ↔ env.releases handle :=
      ⟨fun h => h handle rfl, fun h _ e => Option.some.inj e ▸ h⟩
    have hfrees := Frees.release w' handle
    rw [hiff]
    obtain ⟨hok, herr⟩ := @release_run env handle w'
    by_cases hr : env.releases handle
    · exact ⟨r, _, exec_ensuring_ok hp (hok hr), rfl, hfrees, fun _ => rfl, fun h => absurd hr h⟩
    · obtain ⟨e, hos, he⟩ := herr hr
      exact ⟨.error e, _, exec_ensuring_error hp he, rfl, hfrees, fun h => absurd h hr,
        fun _ => ⟨e, rfl, hos⟩⟩

/-- Inside the lock: nothing is written unless the bytes are prepared, and then they are; only
    creating the parent directory raises anything foreign. -/
structure Body (env : Env) (nt : Bool) (p : Prog α) (w : World)
    (prepared : Except PyExc (α × Bytes)) : Prop where
  error : ∀ e, prepared = .error e → p.run env w = (.error e, w)
  writes : ∀ a data, prepared = .ok (a, data) →
    Writes env (fun _ => True) p w a data (env.replaces nt data) (env.dirClosed nt)
  library : ∀ a data, prepared = .ok (a, data) →
    (LibraryOnly (p.run env w).1 ↔ env.ok (.side .makeParent))

/-- A whole write. If it was `begun`, the bytes are prepared and the calls up to `os.replace`
    succeed, the file is replaced, and then it returns iff nothing raises after that, which is
    `ends`. Otherwise it raises and the file is as it was. Either way `own` does not hold the
    lock. -/
structure Attempt (env : Env) (nt : Bool) (p : Prog α) (w : World) (own : Option Nat)
    (begun : Prop) (prepared : Except PyExc (α × Bytes)) (ends : Prop) : Prop where
  failed : ¬ (begun ∧ ∃ a data, prepared = .ok (a, data) ∧ env.replaces nt data) →
    ∃ e w', p.run env w = (.error e, w') ∧ w'.file = w.file ∧ Frees own w w'
  replaced : ∀ a data, begun → prepared = .ok (a, data) → env.replaces nt data →
    ∃ r w', p.run env w = (r, w') ∧ w'.file = some data ∧ Frees own w w' ∧ (ends → r = .ok a) ∧
      (¬ ends → ∃ e, r = .error e)

/-- A body with its cleanup. -/
theorem Body.attempt {nt : Bool} {p : Prog α} {prepared : Except PyExc (α × Bytes)}
    (h : Body env nt p w prepared) (own : Option Nat) :
    Attempt env nt (ensuring p (releaseIfOpen own)) w own True prepared
      (env.dirClosed nt ∧ env.releasesIfOpen own) where
  failed hnot := by
    obtain ⟨e, hp⟩ : ∃ e, p.run env w = (.error e, w) := by
      cases hprep : prepared with
      | error e => exact ⟨e, h.error e hprep⟩
      | ok x =>
        obtain ⟨a, data⟩ := x
        exact ((h.writes a data hprep).before fun hr => hnot ⟨trivial, a, data, hprep, hr⟩).imp
          fun _ => And.right
    obtain ⟨r', w'', hrun, hfile, hfrees, hok, herr⟩ := ensuring_release_run own hp
    by_cases hrel : env.releasesIfOpen own
    · exact ⟨e, w'', by rw [hrun, hok hrel], hfile, hfrees⟩
    · obtain ⟨e', he', -⟩ := herr hrel
      exact ⟨e', w'', by rw [hrun, he'], hfile, hfrees⟩
  replaced a data _ hprep hr := by
    have hw := h.writes a data hprep
    by_cases hdir : env.dirClosed nt
    · obtain ⟨r', w'', hrun, hfile, hfrees, hok, herr⟩ := ensuring_release_run own (hw.done hr hdir)
      exact ⟨r', w'', hrun, hfile, ⟨hfrees.lock, hfrees.keeps, hfrees.handles⟩, fun h => hok h.2,
        fun h => (herr fun h' => h ⟨hdir, h'⟩).imp fun _ => And.left⟩
    · obtain ⟨e, -, hlate⟩ := hw.late hr hdir
      obtain ⟨r', w'', hrun, hfile, hfrees, hok, herr⟩ := ensuring_release_run own hlate
      refine ⟨r', w'', hrun, hfile, ⟨hfrees.lock, hfrees.keeps, hfrees.handles⟩, fun h => absurd h.1 hdir,
        fun _ => ?_⟩
      by_cases hrel : env.releasesIfOpen own
      · exact ⟨e, hok hrel⟩
      · exact (herr hrel).imp fun _ => And.left

/-- A body under the lock. -/
theorem withLock_attempt {body : Prog α} {prepared : Except PyExc (α × Bytes)}
    (h : Body env cfg.nt body w.locked prepared) :
    Attempt env cfg.nt (withLock cfg body) w none (env.acquires cfg w) prepared
      (env.dirClosed cfg.nt ∧ env.releases w.handles) := by
  have hiff : env.releasesIfOpen (some w.handles) ↔ env.releases w.handles :=
    ⟨fun h => h _ rfl, fun h _ e => Option.some.inj e ▸ h⟩
  obtain ⟨hacq, hnot⟩ := @acquire_run env cfg w
  by_cases ha : env.acquires cfg w
  · have hrun : (withLock cfg body).run env w =
        (ensuring body (releaseIfOpen (some w.handles))).run env w.locked := exec_bind_ok (hacq ha)
    have back {w' : World} (hf : Frees (some w.handles) w.locked w') : Frees none w w' :=
      ⟨fun h hl => absurd (hf.lock h hl).1 (hf.lock h hl).2,
        fun h hl => (nomatch (ha.2.2.2.1 : w.lock = none).symm.trans hl),
        (Nat.le_succ _).trans hf.handles⟩
    obtain ⟨hfailed, hreplaced⟩ := h.attempt (some w.handles)
    rw [hiff] at hreplaced
    constructor
    · intro hn
      obtain ⟨e, w', hr, hfile, hf⟩ := hfailed fun h' => hn ⟨ha, h'.2⟩
      exact ⟨e, w', hrun.trans hr, hfile, back hf⟩
    · intro a data _ hprep hr
      obtain ⟨r, w', hr, hfile, hf, hends⟩ := hreplaced a data trivial hprep hr
      exact ⟨r, w', hrun.trans hr, hfile, back hf, hends⟩
  · obtain ⟨e, w', hrun, hw', -⟩ := hnot ha
    refine ⟨fun _ => ⟨e, w', exec_bind_error hrun, ?_⟩, fun _ _ h => absurd h ha⟩
    rcases hw' with rfl | rfl
    · exact ⟨rfl, .refl w'⟩
    · exact ⟨rfl, fun h hl => ⟨(World.release_lock hl).1, nofun⟩,
        fun h hl hh _ => World.release_keeps hl hh.ne', Nat.le_succ _⟩

/-! ## 2. What the writes write -/

/-- What is written for a state, and `a` to be returned. -/
def withBytes (rt : Runtime) (cp : Copier) (env : Env) (state : State) (a : α) :
    Except PyExc (α × Bytes) := do
  let data ← commitBytes rt cp (env.clock .commit) state
  return (a, data)

/-- What an update returns and writes. -/
def updateBytes (rt : Runtime) (cp : Copier) (env : Env) (nt : Bool) (mutator : Op PyVal) (w : World) :
    Except PyExc (PyVal × Bytes) := do
  let state ← env.loads rt nt w
  let result ← Op.result mutator state
  withBytes rt cp env result.2 result.1

/-- What `create_empty` writes. -/
def emptyBytes (rt : Runtime) (cp : Copier) (env : Env) (force : Bool) (w : World) :
    Except PyExc (Unit × Bytes) :=
  match env.fails .pathExists with
  | some f => .error f.exc
  | none =>
    if w.file.isSome && !force then .error alreadyExists
    else do
      let state ← makeEmptyState rt (env.clock .create)
      withBytes rt cp env state ()

/-- What a clean exit writes. -/
def exitBytes (rt : Runtime) (cp : Copier) (env : Env) (state : Except PyExc State) :
    Except PyExc (Unit × Bytes) := do
  let state ← state
  withBytes rt cp env state ()

theorem Body.congr {nt : Bool} {p q : Prog α} {prepared : Except PyExc (α × Bytes)}
    (h : Body env nt q w prepared) (hrun : p.run env w = q.run env w) :
    Body env nt p w prepared where
  error e he := hrun.trans (h.error e he)
  writes a data he := (h.writes a data he).of_run hrun
  library a data he := by
    rw [hrun]
    exact h.library a data he

theorem Body.raised {nt : Bool} {p : Prog α} {e : PyExc} (h : p.run env w = (.error e, w)) :
    Body env nt p w (.error e) where
  error _ he := Except.error.inj he ▸ h
  writes _ _ h := nomatch h
  library _ _ h := nomatch h

theorem commitUnlocked_body (state : State) :
    Body env cfg.nt (commitUnlocked rt cp cfg state) w (withBytes rt cp env state ()) := by
  unfold withBytes
  cases hb : commitBytes rt cp (env.clock .commit) state with
  | error e => exact .raised (commitUnlocked_error cfg hb w)
  | ok data =>
    have hrun := commitUnlocked_run cfg hb w
    constructor
    · exact fun e he => nomatch he
    · intro a' data' he
      cases he
      exact (atomicWrite_writes cfg.nt data w).of_run hrun
    · intro a' data' he
      rw [hrun]
      exact atomicWrite_library cfg.nt data w

theorem Body.then_pure {p : Prog Unit} {prepared : Except PyExc (Unit × Bytes)} {nt : Bool}
    (h : Body env nt p w prepared) (a : α) :
    Body env nt (p >>= fun _ => pure a) w (prepared.map fun x => (a, x.2)) := by
  cases prepared with
  | error e => exact .raised (exec_bind_error (h.error e rfl))
  | ok x =>
    obtain ⟨u, data⟩ := x
    constructor
    · exact fun e he => nomatch he
    · intro a' data' he
      cases he
      exact (h.writes u data rfl).then_pure
    · intro a' data' he
      rw [← h.library u data rfl]
      cases hr : p.run env w with
      | mk r w' =>
        cases r with
        | ok u' =>
          have hrun : (p >>= fun _ => pure a).run env w = (.ok a, w') := exec_bind_ok hr
          rw [hrun]
          exact iff_of_true (libraryOnly_ok a) (libraryOnly_ok u')
        | error e =>
          have hrun : (p >>= fun _ => pure a).run env w = (.error e, w') := exec_bind_error hr
          rw [hrun]
          exact (libraryOnly_error e).trans (libraryOnly_error e).symm

theorem commit_body (state : State) (a : α) :
    Body env cfg.nt (commitUnlocked rt cp cfg state >>= fun _ => pure a) w
      (withBytes rt cp env state a) := by
  have h := (@commitUnlocked_body env rt cp cfg w state).then_pure a
  have hmap : (withBytes rt cp env state ()).map (fun x => (a, x.2)) = withBytes rt cp env state a := by
    unfold withBytes
    cases commitBytes rt cp (env.clock .commit) state with
    | error e => rfl
    | ok data => rfl
  rw [hmap] at h
  exact h

theorem update_body (mutator : Op PyVal) (w : World) : Body env cfg.nt (do
    let state ← engineLoad rt cfg
    sys .compute
    let result ← lift (Op.result mutator state)
    commitUnlocked rt cp cfg result.2
    return result.1) w (updateBytes rt cp env cfg.nt mutator w) := by
  have hload := @engineLoad_run env rt cfg w
  have hcompute : (sys .compute).run env w = (.ok (), w) := rfl
  cases hl : env.loads rt cfg.nt w with
  | error e =>
    have hprep : updateBytes rt cp env cfg.nt mutator w = .error e := by
      unfold updateBytes
      rw [hl]
      rfl
    rw [hl] at hload
    rw [hprep]
    exact .raised (exec_bind_error hload)
  | ok state =>
    have hprep : updateBytes rt cp env cfg.nt mutator w =
        (Op.result mutator state >>= fun result => withBytes rt cp env result.2 result.1) := by
      unfold updateBytes
      rw [hl]
      rfl
    rw [hl] at hload
    rw [hprep]
    cases hm : Op.result mutator state with
    | error e =>
      refine .raised ((exec_bind_ok hload).trans ?_)
      refine (exec_bind_ok hcompute).trans ?_
      rw [hm]
      rfl
    | ok result =>
      refine (commit_body result.2 result.1).congr ((exec_bind_ok hload).trans ?_)
      refine (exec_bind_ok hcompute).trans ?_
      rw [hm]
      rfl

/-- **An update** is a whole write of what the mutator makes of the loaded state. -/
theorem update_attempt (mutator : Op PyVal) (w : World) :
    Attempt env cfg.nt (update rt cp cfg mutator) w none (env.acquires cfg w)
      (updateBytes rt cp env cfg.nt mutator w) (env.dirClosed cfg.nt ∧ env.releases w.handles) :=
  withLock_attempt (update_body mutator w.locked)

theorem createEmpty_body (force : Bool) (w : World) : Body env cfg.nt (do
    let present : Bool ← sys .pathExists
    if present && !force then raise alreadyExists
    else do
      let now ← sys (.now .create)
      let state ← lift (makeEmptyState rt now)
      commitUnlocked rt cp cfg state) w (emptyBytes rt cp env force w) := by
  have hn : (sys (.now .create)).run env w = (.ok (env.clock .create), w) := rfl
  unfold emptyBytes
  cases hf : env.fails .pathExists with
  | some f =>
    have hp : (sys .pathExists).run env w = (.error f.exc, w) := by
      show answer (env.fails .pathExists) _ _ _ = _
      rw [hf]
      rfl
    exact .raised (exec_bind_error hp)
  | none =>
    have hp : (sys .pathExists).run env w = (.ok w.file.isSome, w) := answer_ok hf _ _ _
    simp only
    cases hc : w.file.isSome && !force with
    | true =>
      rw [if_pos rfl]
      refine .raised ((exec_bind_ok hp).trans ?_)
      rw [hc, if_pos rfl]
      rfl
    | false =>
      rw [if_neg Bool.false_ne_true]
      cases hs : makeEmptyState rt (env.clock .create) with
      | error e =>
        refine .raised ((exec_bind_ok hp).trans ?_)
        rw [hc, if_neg Bool.false_ne_true]
        refine (exec_bind_ok hn).trans ?_
        rw [hs]
        rfl
      | ok state =>
        refine (commitUnlocked_body state).congr ((exec_bind_ok hp).trans ?_)
        rw [hc, if_neg Bool.false_ne_true]
        refine (exec_bind_ok hn).trans ?_
        rw [hs]
        rfl

/-- **`create_empty`** is a whole write of an empty state. -/
theorem createEmpty_attempt (force : Bool) (w : World) :
    Attempt env cfg.nt (createEmpty rt cp cfg force) w none (env.acquires cfg w)
      (emptyBytes rt cp env force w) (env.dirClosed cfg.nt ∧ env.releases w.handles) :=
  withLock_attempt (createEmpty_body force w.locked)

theorem exit_body (state : Except PyExc State) (w : World) : Body env cfg.nt (do
    let state ← lift state
    commitUnlocked rt cp cfg state) w (exitBytes rt cp env state) := by
  unfold exitBytes
  cases state with
  | error e => exact .raised rfl
  | ok state => exact (commitUnlocked_body state).congr rfl

/-- **A clean exit** is a whole write of the transaction's state. -/
theorem exit_attempt (own : Option Nat) (state : Except PyExc State) (w : World) :
    Attempt env cfg.nt (exitTransaction rt cp cfg own true state) w own True (exitBytes rt cp env state)
      (env.dirClosed cfg.nt ∧ env.releasesIfOpen own) :=
  (exit_body state w).attempt own

/-- An exit that does not commit leaves the file. -/
theorem rollback_run (own : Option Nat) (state : Except PyExc State) (w : World) :
    ∃ r w', (exitTransaction rt cp cfg own false state).run env w = (r, w') ∧ w'.file = w.file ∧
      Frees own w w' := by
  have hp : (pure () : Prog Unit).run env w = (.ok (), w) := rfl
  obtain ⟨r, w', hrun, hfile, hfrees, -, -⟩ := ensuring_release_run own hp
  exact ⟨r, w', hrun, hfile, hfrees⟩

/-! ## 3. Entering a transaction -/

/-- The state that a transaction starts with. -/
def enteredState (rt : Runtime) (cp : Copier) (env : Env) (nt : Bool) (w : World) :
    Except PyExc State := do
  let loaded ← env.loads rt nt w
  copyDict cp (.dict loaded)

/-- The lock file that the object still had open is closed. -/
def World.releaseIfOpen (w : World) : Option Nat → World
  | some handle => w.release handle
  | none => w

theorem enterTransaction_old (cp : Copier) (old : Option Nat) (w : World) :
    (enterTransaction rt cp cfg old).run env w =
      (enterTransaction rt cp cfg none).run env (w.releaseIfOpen old) := by
  cases old with
  | none => rfl
  | some handle =>
    have hclose : (quietly (sys (.closeLock handle))).run env w = (.ok (), w.release handle) := by
      show exec _ _ _ = _
      unfold quietly
      rw [exec_follow]
      have hw : (exec (perform env) (sys (.closeLock handle)) w).2 = w.release handle := by
        show (answer _ _ _ _).2 = _
        unfold answer
        split <;> rfl
      rw [hw]
      rfl
    exact exec_bind_ok hclose

/-- Loading and copying inside the lock; a failure releases it. -/
theorem enterBody_run (cp : Copier) (handle : Nat) (w : World) :
    (∀ state, enteredState rt cp env cfg.nt w = .ok state →
      (onRaise (do
        let loaded ← engineLoad rt cfg
        let state ← lift (copyDict cp (.dict loaded))
        return (handle, state)) (release handle)).run env w = (.ok (handle, state), w)) ∧
    (∀ e, enteredState rt cp env cfg.nt w = .error e → ∃ e', (onRaise (do
        let loaded ← engineLoad rt cfg
        let state ← lift (copyDict cp (.dict loaded))
        return (handle, state)) (release handle)).run env w = (.error e', w.release handle) ∧
          (e'.type.isJsonDBError = true ↔ env.releases handle ∧ e.type.isJsonDBError = true)) := by
  have hload := @engineLoad_run env rt cfg w
  have hbody : (do
      let loaded ← engineLoad rt cfg
      let state ← lift (copyDict cp (.dict loaded))
      return (handle, state) : Prog (Nat × State)).run env w =
        ((enteredState rt cp env cfg.nt w).map fun state => (handle, state), w) := by
    unfold enteredState
    cases hl : env.loads rt cfg.nt w with
    | error e =>
      rw [hl] at hload
      exact exec_bind_error hload
    | ok loaded =>
      rw [hl] at hload
      refine (exec_bind_ok hload).trans ?_
      cases hc : copyDict cp (.dict loaded) with
      | error e =>
        show _ = ((copyDict cp (.dict loaded)).map _, w)
        rw [hc]
        rfl
      | ok state =>
        show _ = ((copyDict cp (.dict loaded)).map _, w)
        rw [hc]
        rfl
  obtain ⟨hrel, hnot⟩ := @release_run env handle w
  constructor
  · intro state hs
    rw [hs] at hbody
    exact exec_rescue_ok hbody
  · intro e he
    rw [he] at hbody
    by_cases hr : env.releases handle
    · exact ⟨e, exec_onRaise_error hbody (hrel hr), by simp [hr]⟩
    · obtain ⟨e', hos, hrun⟩ := hnot hr
      refine ⟨e', (exec_rescue_error hbody).trans (exec_follow_eq hrun), ?_⟩
      exact iff_of_false (ExcType.not_isJsonDBError hos) fun h => hr h.1

/-- **Entering** gives a new lock file that holds the lock, or raises. -/
theorem enterTransaction_ok {cp : Copier} {handle : Nat} {state : State} {old : Option Nat}
    (h : (enterTransaction rt cp cfg old).run env w = (.ok (handle, state), w')) :
    w'.lock = some handle ∧ w.handles ≤ handle ∧ handle < w'.handles := by
  rw [enterTransaction_old] at h
  have hh : (w.releaseIfOpen old).handles = w.handles := by cases old <;> rfl
  obtain ⟨hacq, hnot⟩ := @acquire_run env cfg (w.releaseIfOpen old)
  by_cases ha : env.acquires cfg (w.releaseIfOpen old)
  · obtain ⟨hok, herr⟩ := @enterBody_run env rt cfg cp (w.releaseIfOpen old).handles
      (w.releaseIfOpen old).locked
    have hrun := h.symm.trans (exec_bind_ok (hacq ha))
    cases hs : enteredState rt cp env cfg.nt (w.releaseIfOpen old).locked with
    | ok state' =>
      obtain ⟨h1, h2⟩ := Prod.mk.inj (hrun.trans (hok state' hs))
      cases h1
      rw [h2]
      exact ⟨rfl, hh.ge, Nat.lt_succ_self _⟩
    | error e =>
      obtain ⟨e', he, -⟩ := herr e hs
      cases hrun.trans he
  · obtain ⟨e, w'', hrun, -⟩ := hnot ha
    cases h.symm.trans (exec_bind_error hrun)

end Whole

end

end JsonDatabase
