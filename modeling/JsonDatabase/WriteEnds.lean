/-
  File:      JsonDatabase/WriteEnds.lean
  Subject:   How a write can end.

  What a write raises after the file was replaced is a `StorageError` or an `OSError`: only syncing the
  directory and giving the lock up are left to do then.

  * `Late`, `RaisesLate` -- the exceptions that are raised after the file was replaced;
  * `WriteEnds` -- the end of a write, with what is in the file then.
-/
import JsonDatabase.WriteLaws

namespace JsonDatabase

open Interaction
open PyVal hiding none

/-! ## 1. Late exceptions -/

/-- What may be raised after the file was replaced. -/
def Late (t : ExcType) : Prop := t = .storageError ∨ t.isOSError = true

theorem Late.foreign {t : ExcType} (h : Late t) : t = .storageError ∨ t.isJsonDBError = false :=
  h.imp_right fun hos => Bool.eq_false_iff.mpr (ExcType.not_isJsonDBError hos)

section

variable {env : Env} {rt : Runtime} {cp : Copier} {cfg : Settings} {α : Type}

theorem atomicWrite_late (nt : Bool) (data : Bytes) (w : World) :
    ∃ R T, Writes env Late (atomicWrite nt data) w () data R T :=
  ⟨_, _, Writes.after_settles (Settles.side .makeParent) (fun _ h => Or.inr h) fun _ =>
    (writeThrough_writes nt data w).weaken fun _ h => Or.inl h⟩

/-- The program leaves the file, or raises late, or returns. -/
def RaisesLate (env : Env) (p : Prog α) : Prop :=
  ∀ w e w', p.run env w = (.error e, w') → w'.file = w.file ∨ Late e.type

theorem commitUnlocked_late (state : State) : RaisesLate env (commitUnlocked rt cp cfg state) := by
  intro w e w' h
  cases hb : commitBytes rt cp (env.clock .commit) state with
  | error e' =>
    rw [commitUnlocked_error cfg hb] at h
    cases h
    exact Or.inl rfl
  | ok data =>
    rw [commitUnlocked_run cfg hb] at h
    obtain ⟨R, T, hw⟩ := @atomicWrite_late env cfg.nt data w
    by_cases hR : R
    · by_cases hT : T
      · rw [hw.done hR hT] at h
        cases h
      · obtain ⟨e', hk, he⟩ := hw.late hR hT
        rw [he] at h
        cases h
        exact Or.inr hk
    · obtain ⟨e', hk, he⟩ := hw.before hR
      rw [he] at h
      cases h
      exact Or.inl rfl

/-- Calls that leave the world, then a program that raises late. -/
theorem RaisesLate.after {β : Type} {p : Prog β} {f : β → Prog α} (hp : ∀ w, (p.run env w).2 = w)
    (hf : ∀ b, RaisesLate env (f b)) : RaisesLate env (p >>= f) := by
  intro w e w' h
  cases hr : p.run env w with
  | mk r w₁ =>
    obtain rfl : w₁ = w := (congrArg Prod.snd hr).symm.trans (hp w)
    cases r with
    | ok b =>
      have hrun : (p >>= f).run env w₁ = (f b).run env w₁ := exec_bind_ok hr
      exact hf b w₁ e w' (hrun.symm.trans h)
    | error e' =>
      have hrun : (p >>= f).run env w₁ = (.error e', w₁) := exec_bind_error hr
      cases hrun.symm.trans h
      exact Or.inl rfl

theorem RaisesLate.raise (e : PyExc) : RaisesLate env (JsonDatabase.raise e : Prog α) := by
  intro w e' w' h
  cases h
  exact Or.inl rfl

theorem RaisesLate.then_pure {p : Prog Unit} (hp : RaisesLate env p) (a : α) :
    RaisesLate env (p >>= fun _ => pure a) := by
  intro w e w' h
  cases hr : p.run env w with
  | mk r w₁ =>
    cases r with
    | ok u =>
      have hrun : (p >>= fun _ => pure a).run env w = (.ok a, w₁) := exec_bind_ok hr
      cases hrun.symm.trans h
    | error e' =>
      have hrun : (p >>= fun _ => pure a).run env w = (.error e', w₁) := exec_bind_error hr
      cases hrun.symm.trans h
      exact hp w e w' hr

/-- Releasing leaves the file, and raises only an `OSError`. -/
theorem ensuring_late {body : Prog α} (hb : RaisesLate env body) (own : Option Nat) :
    RaisesLate env (ensuring body (releaseIfOpen own)) := by
  intro w e w' h
  cases hr : body.run env w with
  | mk r w₁ =>
    obtain ⟨r', w'', hrun, hfile, -, hok, herr⟩ := ensuring_release_run own hr
    cases hrun.symm.trans h
    rw [hfile]
    by_cases hrel : env.releasesIfOpen own
    · exact hb w e w₁ ((hok hrel).symm ▸ hr)
    · obtain ⟨e', he, hos⟩ := herr hrel
      cases he
      exact Or.inr (Or.inr hos)

/-- Acquiring leaves the file. -/
theorem withLock_late {body : Prog α} (hb : RaisesLate env body) :
    RaisesLate env (withLock cfg body) := by
  intro w e w' h
  obtain ⟨hacq, hnot⟩ := @acquire_run env cfg w
  by_cases ha : env.acquires cfg w
  · have hrun : (withLock cfg body).run env w =
        (ensuring body (releaseIfOpen (some w.handles))).run env w.locked := exec_bind_ok (hacq ha)
    exact ensuring_late hb (some w.handles) w.locked e w' (hrun.symm.trans h)
  · obtain ⟨e', w₁, hrun, hw, -⟩ := hnot ha
    have hens : (withLock cfg body).run env w = (.error e', w₁) := exec_bind_error hrun
    rw [hens] at h
    cases h
    rcases hw with rfl | rfl
    · exact Or.inl rfl
    · exact Or.inl rfl

theorem pathExists_run (w : World) : ((sys .pathExists).run env w).2 = w := by
  show (answer (env.fails .pathExists) _ w w).2 = w
  unfold answer
  split <;> rfl

theorem engineLoad_world (rt : Runtime) (cfg : Settings) (w : World) :
    ((engineLoad rt cfg).run env w).2 = w := congrArg Prod.snd (engineLoad_run rt cfg w)

theorem update_late (mutator : Op PyVal) : RaisesLate env (update rt cp cfg mutator) :=
  withLock_late (.after (engineLoad_world rt cfg) fun _ => .after (fun _ => rfl) fun _ =>
    .after (fun _ => by unfold lift; rfl) fun r => (commitUnlocked_late r.2).then_pure r.1)

theorem createEmpty_late (force : Bool) : RaisesLate env (createEmpty rt cp cfg force) :=
  withLock_late (.after pathExists_run fun present => by
    split
    · exact .raise _
    · exact .after (fun _ => rfl) fun _ => .after (fun _ => by unfold lift; rfl) fun _ =>
        commitUnlocked_late _)

/-- A clean exit of a transaction. -/
theorem exitTransaction_late (own : Option Nat) (state : Except PyExc State) :
    RaisesLate env (exitTransaction rt cp cfg own true state) :=
  ensuring_late (.after (fun _ => by unfold lift; rfl) fun s => commitUnlocked_late s) own

/-! ## 2. A write -/

theorem withBytes_ok {state : State} {a a' : α} {data : Bytes} :
    withBytes rt cp env state a = .ok (a', data) ↔
      commitBytes rt cp (env.clock .commit) state = .ok data ∧ a' = a := by
  unfold withBytes
  rw [bind_ok]
  constructor
  · intro h
    obtain ⟨data', hc, e⟩ := h
    cases e
    exact ⟨hc, rfl⟩
  · intro h
    obtain ⟨hc, rfl⟩ := h
    exact ⟨data, hc, rfl⟩

theorem updateBytes_ok {nt : Bool} {mutator : Op PyVal} {w : World} {a : PyVal} {data : Bytes} :
    updateBytes rt cp env nt mutator w = .ok (a, data) ↔ ∃ s s', env.loads rt nt w = .ok s ∧
      mutator s = .ok a s' ∧ commitBytes rt cp (env.clock .commit) s' = .ok data := by
  unfold updateBytes
  simp only [bind_ok, withBytes_ok, Prod.exists, Op.result_iff]
  constructor
  · intro h
    obtain ⟨s, hs, a', s', hr, hc, rfl⟩ := h
    exact ⟨s, s', hs, hr, hc⟩
  · intro h
    obtain ⟨s, s', hs, hr, hc⟩ := h
    exact ⟨s, hs, a, s', hr, hc, rfl⟩

theorem emptyBytes_ok {force : Bool} {w : World} {u : Unit} {data : Bytes} :
    emptyBytes rt cp env force w = .ok (u, data) → (force = false → w.file = none) ∧
      ∃ s, makeEmptyState rt (env.clock .create) = .ok s ∧
        commitBytes rt cp (env.clock .commit) s = .ok data := by
  intro h
  unfold emptyBytes at h
  split at h
  · cases h
  · split at h
    · cases h
    · rename_i hforce
      obtain ⟨s, hs, hb⟩ := bind_ok.mp h
      obtain ⟨hc, -⟩ := withBytes_ok.mp hb
      refine ⟨fun hf => ?_, s, hs, hc⟩
      cases hw : w.file with
      | none => rfl
      | some raw =>
        rw [hw, hf] at hforce
        exact absurd rfl hforce

theorem exitBytes_ok {state : Except PyExc State} {u : Unit} {data : Bytes} :
    exitBytes rt cp env state = .ok (u, data) →
      ∃ s, state = .ok s ∧ commitBytes rt cp (env.clock .commit) s = .ok data := by
  intro h
  obtain ⟨s, hs, hb⟩ := bind_ok.mp h
  exact ⟨s, hs, (withBytes_ok.mp hb).1⟩

/-- The end of a write that would return `a` and leave `data` in the file: it returned, and the file
    holds the bytes, or it raised, and the file is as it was unless that was late. -/
structure WriteEnds (own : Option Nat) (prepared : Except PyExc (α × Bytes)) (w : World)
    (r : Except PyExc α) (w' : World) : Prop where
  lock : Frees own w w'
  returned : ∀ a, r = .ok a → ∃ data, prepared = .ok (a, data) ∧ w'.file = some data
  raised : ∀ e, r = .error e → w'.file = w.file ∨
    Late e.type ∧ ∃ a data, prepared = .ok (a, data) ∧ w'.file = some data

theorem Attempt.ends {nt : Bool} {p : Prog α} {w : World} {own : Option Nat} {begun ends : Prop}
    {prepared : Except PyExc (α × Bytes)} (h : Attempt env nt p w own begun prepared ends)
    (hlate : RaisesLate env p) :
    WriteEnds own prepared w (p.run env w).1 (p.run env w).2 := by
  by_cases hw : begun ∧ ∃ a data, prepared = .ok (a, data) ∧ env.replaces nt data
  · obtain ⟨hbegun, a, data, hprep, hreplaces⟩ := hw
    obtain ⟨r, w', hrun, hfile, hfrees, hok, herr⟩ := h.replaced a data hbegun hprep hreplaces
    rw [hrun]
    refine ⟨hfrees, fun a' he => ?_, fun e he => ?_⟩
    · by_cases hends : ends
      · cases (hok hends).symm.trans he
        exact ⟨data, hprep, hfile⟩
      · obtain ⟨e, he'⟩ := herr hends
        cases he'.symm.trans he
    · cases he
      exact (hlate w e w' hrun).imp_right fun hl => ⟨hl, a, data, hprep, hfile⟩
  · obtain ⟨e, w', hrun, hfile, hfrees⟩ := h.failed hw
    rw [hrun]
    refine ⟨hfrees, fun a he => ?_, fun _ _ => Or.inl hfile⟩
    cases he

theorem update_ends (mutator : Op PyVal) (w : World) :
    WriteEnds none (updateBytes rt cp env cfg.nt mutator w) w ((update rt cp cfg mutator).run env w).1
      ((update rt cp cfg mutator).run env w).2 :=
  (update_attempt mutator w).ends (update_late mutator)

theorem createEmpty_ends (force : Bool) (w : World) :
    WriteEnds none (emptyBytes rt cp env force w) w ((createEmpty rt cp cfg force).run env w).1
      ((createEmpty rt cp cfg force).run env w).2 :=
  (createEmpty_attempt force w).ends (createEmpty_late force)

theorem exitTransaction_ends (own : Option Nat) (state : Except PyExc State) (w : World) :
    WriteEnds own (exitBytes rt cp env state) w ((exitTransaction rt cp cfg own true state).run env w).1
      ((exitTransaction rt cp cfg own true state).run env w).2 :=
  (exit_attempt own state w).ends (exitTransaction_late own state)

end

end JsonDatabase
