/-
  File:      JsonDatabase/Isolation.lean
  Subject:   One `Database` object as a committed store and a working copy.

  A running transaction works on a copy of the store that it found; reads of the database see the copy
  while it runs, and the file otherwise. The copy becomes the store in whole, or it is dropped.

  * `Workspace`, `Call.Does` -- the abstract machine, and what each call may do to it;
  * `Session.Goes`, `Workspace.Goes` -- what is seen in a run of the one and of the other;
  * `session_refines` -- whatever is seen of a session is seen of the machine.
-/
import JsonDatabase.History
import JsonDatabase.WriteEnds

namespace JsonDatabase

open Interaction
open PyVal hiding none

/-! ## 1. The abstract machine -/

/-- The store in the file, and the running transaction with the store it works on. -/
structure Workspace where
  committed : Shown
  working : Option (Nat × Shown)

/-- The store that a read sees. -/
def Workspace.current (g : Workspace) : Shown :=
  match g.working with
  | some (_, m) => m
  | none => g.committed

/-- **What a call may do, and what it ends with.** A call that raises changes nothing, except that a
    write or a commit may raise late, when the store was written already, that an operation may have
    done a first part of itself, and that leaving a transaction ends it in any case. -/
inductive Call.Does (rt : Runtime) : Call → Workspace → Except PyExc PyVal → Workspace → Prop
  | raised {c : Call} {e : PyExc} {g : Workspace} (hc : ∀ t clean, c ≠ .exit t clean)
      (hl : ∀ clean, c ≠ .leave clean) : Does rt c g (.error e) g
  | write {cp : Copier} {call : OpCall} {r : PyVal} {m m' : Shown} (he : call.Effect rt m r m') :
      Does rt (.write (call.run rt cp)) ⟨m, none⟩ (.ok r) ⟨m', none⟩
  | writeLate {cp : Copier} {call : OpCall} {r : PyVal} {e : PyExc} {m m' : Shown} (hl : Late e.type)
      (he : call.Effect rt m r m') : Does rt (.write (call.run rt cp)) ⟨m, none⟩ (.error e) ⟨m', none⟩
  | init {force : Bool} {m : Shown} (hm : force = false → m = .empty) :
      Does rt (.init force) ⟨m, none⟩ (.ok .none) ⟨.empty, none⟩
  | initLate {force : Bool} {e : PyExc} {m : Shown} (hl : Late e.type) (hm : force = false → m = .empty) :
      Does rt (.init force) ⟨m, none⟩ (.error e) ⟨.empty, none⟩
  | enter {t : Nat} {m : Shown} : Does rt (.enter t) ⟨m, none⟩ (.ok .none) ⟨m, some (t, m)⟩
  | operate {t : Nat} {cp : Copier} {call : OpCall} {r : PyVal} {m k k' : Shown}
      (he : call.Effect rt k r k') :
      Does rt (.operate t (call.run rt cp)) ⟨m, some (t, k)⟩ (.ok r) ⟨m, some (t, k')⟩
  | interrupted {t : Nat} {cp : Copier} {call part : OpCall} {r : PyVal} {e : PyExc} {m k k' : Shown}
      (hf : ∃ v, cp.fails v = some e) (hp : part.PartOf call) (he : part.Effect rt k r k') :
      Does rt (.operate t (call.run rt cp)) ⟨m, some (t, k)⟩ (.error e) ⟨m, some (t, k')⟩
  | commit {t : Nat} {m k : Shown} : Does rt (.exit t true) ⟨m, some (t, k)⟩ (.ok .none) ⟨k, none⟩
  | commitLate {t : Nat} {e : PyExc} {m k : Shown} (hl : Late e.type) :
      Does rt (.exit t true) ⟨m, some (t, k)⟩ (.error e) ⟨k, none⟩
  | commitRaised {t : Nat} {e : PyExc} {g : Workspace} :
      Does rt (.exit t true) g (.error e) ⟨g.committed, none⟩
  | rollback {t : Nat} {r : Except PyExc PyVal} {g : Workspace} :
      Does rt (.exit t false) g r ⟨g.committed, none⟩
  | leaveIdle {clean : Bool} {m : Shown} : Does rt (.leave clean) ⟨m, none⟩ (.ok .none) ⟨m, none⟩
  | leave {clean : Bool} {m k : Shown} {t : Nat} : Does rt (.leave clean) ⟨m, some (t, k)⟩
      (if clean then .error leakedTransaction else .ok .none) ⟨m, none⟩

/-! ## 2. What is seen -/

/-- What a call ends with; a method that returns nothing returns `None`. -/
def Session.outcome (rt : Runtime) (cp : Copier) (cfg : Settings) (env : Env) (s : Session) :
    Call → Except PyExc PyVal
  | .enter t => (s.enter rt cp cfg env t).1.map fun _ => .none
  | .exit t clean => (s.exit rt cp cfg env t clean).1.map fun _ => .none
  | .leave clean => (s.leave rt cp cfg env clean).1.map fun _ => .none
  | .write mutator => (s.write rt cp cfg env mutator).1
  | .init force => (s.init rt cp cfg env force).1.map fun _ => .none
  | .operate t op => (s.operate t op).1

/-- The calls of the API; its writes store nothing under the reserved key. -/
inductive Call.Library (rt : Runtime) : Call → Prop
  | enter (t : Nat) : Library rt (.enter t)
  | exit (t : Nat) (clean : Bool) : Library rt (.exit t clean)
  | leave (clean : Bool) : Library rt (.leave clean)
  | init (force : Bool) : Library rt (.init force)
  | write {cp : Copier} {call : OpCall} (h : call.Avoids) : Library rt (.write (call.run rt cp))
  | operate {t : Nat} {cp : Copier} {call : OpCall} (h : call.Avoids) :
      Library rt (.operate t (call.run rt cp))

/-- What is seen in a run: a call with its end, the state that a read got, or that others were at
    work. -/
inductive Seen where
  | call (c : Call) (r : Except PyExc PyVal)
  | read (state : State)
  | others

/-- What is seen of a session. Others leave files that can be read; while a transaction has the lock
    they leave the file alone. -/
inductive Session.Goes (rt : Runtime) (cp : Copier) (s₀ : Session) : List Seen → Session → Prop
  | start : Goes rt cp s₀ [] s₀
  | call {seen : List Seen} {s : Session} (cfg : Settings) (env : Env) (c : Call) :
      Goes rt cp s₀ seen s → s.OwnExit c → c.Library rt →
        Goes rt cp s₀ (seen ++ [.call c (s.outcome rt cp cfg env c)]) (s.after rt cp cfg env c)
  | read {seen : List Seen} {s : Session} {state : State} (cp' : Copier) (cfg : Settings) (env : Env) :
      Goes rt cp s₀ seen s → s.readState rt cp' cfg env = .ok state →
        Goes rt cp s₀ (seen ++ [.read state]) s
  | others {seen : List Seen} {s : Session} {w : World} : Goes rt cp s₀ seen s → s.Yields w →
      Readable rt (onDisk w.file) → (s.activeTransaction ≠ none → w.file = s.world.file) →
        Goes rt cp s₀ (seen ++ [.others]) { s with world := w }

/-- What is seen of the machine: a read gets a state that shows the current store, and others change
    the committed store only while there is no working copy. -/
inductive Workspace.Goes (rt : Runtime) (m₀ : Shown) : List Seen → Workspace → Prop
  | start : Goes rt m₀ [] ⟨m₀, none⟩
  | call {seen : List Seen} {g g' : Workspace} {c : Call} {r : Except PyExc PyVal} : Goes rt m₀ seen g →
      c.Does rt g r g' → Goes rt m₀ (seen ++ [.call c r]) g'
  | read {seen : List Seen} {g : Workspace} {state : State} : Goes rt m₀ seen g →
      shown state = g.current → Goes rt m₀ (seen ++ [.read state]) g
  | others {seen : List Seen} {m m' : Shown} {working : Option (Nat × Shown)} :
      Goes rt m₀ seen ⟨m, working⟩ → (working ≠ none → m' = m) →
        Goes rt m₀ (seen ++ [.others]) ⟨m', working⟩

/-! ## 3. A session shows a workspace -/

/-- The file stores the committed store, and the state of the running transaction, which was loaded
    and written to, shows the working copy. -/
structure Session.Shows (rt : Runtime) (s : Session) (g : Workspace) : Prop where
  inv : s.Inv
  file : Stores rt (onDisk s.world.file) g.committed
  idle : s.activeTransaction = none → g.working = none
  running : ∀ t, s.activeTransaction = some t → ∃ base state, (s.txs t).state = some state ∧
    (s.txs t).active = true ∧ Loaded rt base ∧ Tidy rt base state ∧ g.working = some (t, shown state)

section

variable {rt : Runtime} {cp : Copier} {cfg : Settings} {env : Env} {s : Session} {g : Workspace}

/-- A load finds what is on disk, or raises. -/
theorem loads_onDisk {nt : Bool} {w : World} {state : State} (h : env.loads rt nt w = .ok state) :
    load rt (env.clock .load) (onDisk w.file) = .ok state := by
  unfold Env.loads at h
  cases hf : env.fails .pathExists with
  | some f =>
    rw [hf] at h
    cases h
  | none =>
    rw [hf] at h
    unfold Env.found at h
    cases hw : w.file with
    | none =>
      rw [hw] at h
      exact h
    | some raw =>
      rw [hw] at h
      simp only at h
      split at h
      · exact h
      · cases h

/-- **A read sees the current store.** -/
theorem Session.Shows.reads (h : s.Shows rt g) {cp' : Copier} {state : State}
    (hr : s.readState rt cp' cfg env = .ok state) : shown state = g.current := by
  unfold Session.readState at hr
  cases ha : s.activeTransaction with
  | none =>
    rw [ha] at hr
    have hload : env.loads rt cfg.nt s.world = .ok state := by
      simpa only [engineLoad_run] using hr
    unfold Workspace.current
    rw [h.idle ha]
    exact h.file.shows _ _ (loads_onDisk hload)
  | some t =>
    rw [ha] at hr
    obtain ⟨base, inner, hs, hactive, -, -, hg⟩ := h.running t ha
    obtain ⟨state', href, hcopy⟩ := bind_ok.mp hr
    unfold Tx.stateRef at href
    rw [hactive, hs] at href
    cases href
    obtain ⟨-, e⟩ := copyDict_ok.mp hcopy
    unfold Workspace.current
    rw [hg, ← PyVal.dict.inj e]

/-! ## 4. What each call does -/

/-- A workspace without a working copy. -/
theorem Session.Shows.without (h : s.Shows rt g) (ha : s.activeTransaction = none) :
    g = ⟨g.committed, none⟩ := by
  obtain ⟨m, working⟩ := g
  obtain rfl : working = none := h.idle ha
  rfl

/-- The same transactions over another file. -/
theorem Session.Shows.refile (h : s.Shows rt g) {w : World} {m : Shown}
    (hinv : Session.Inv { s with world := w }) (hm : Stores rt (onDisk w.file) m) :
    Session.Shows rt { s with world := w } ⟨m, g.working⟩ :=
  ⟨hinv, hm, h.idle, h.running⟩

/-- A write while no transaction is running. -/
theorem write_idle (ha : s.activeTransaction = none) (mutator : Op PyVal) :
    s.write rt cp cfg env mutator = (((update rt cp cfg mutator).run env s.world).1,
      { s with world := ((update rt cp cfg mutator).run env s.world).2 }) := by
  unfold Session.write
  split
  · rename_i t ht
    cases ha.symm.trans ht
  · rfl

theorem Session.Shows.write (h : s.Shows rt g) {cp' : Copier} {call : OpCall}
    (hcall : call.Avoids) :
    ∃ g', (Call.write (call.run rt cp')).Does rt g (s.write rt cp cfg env (call.run rt cp')).1 g' ∧
      (s.write rt cp cfg env (call.run rt cp')).2.Shows rt g' := by
  by_cases ha : s.activeTransaction = none
  · have hinv := @write_inv rt cp cfg env s h.inv (call.run rt cp')
    have hends := @update_ends env rt cp cfg (call.run rt cp') s.world
    rw [write_idle ha] at hinv ⊢
    generalize (update rt cp cfg (call.run rt cp')).run env s.world = x at hinv hends ⊢
    obtain ⟨r, w'⟩ := x
    have hwritten {a : PyVal} {data : Bytes}
        (hp : updateBytes rt cp env cfg.nt (call.run rt cp') s.world = .ok (a, data))
        (hfile : w'.file = some data) : ∃ m', call.Effect rt g.committed a m' ∧
          Session.Shows rt { s with world := w' } ⟨m', none⟩ := by
      obtain ⟨state, state', hload, hrun, hc⟩ := updateBytes_ok.mp hp
      obtain ⟨heffect, hstores⟩ :=
        OpCall.committed hcall h.file (loads_onDisk hload) (Op.result_iff.mpr hrun) hc
      rw [← hfile] at hstores
      have hs := h.refile hinv hstores
      rw [h.idle ha] at hs
      exact ⟨_, heffect, hs⟩
    rw [h.without ha]
    cases r with
    | ok a =>
      obtain ⟨data, hp, hfile⟩ := hends.returned a rfl
      obtain ⟨m', heffect, hs⟩ := hwritten hp hfile
      exact ⟨_, .write heffect, hs⟩
    | error e =>
      rcases hends.raised e rfl with hfile | ⟨hlate, a, data, hp, hfile⟩
      · refine ⟨_, .raised nofun nofun, ?_⟩
        have hs := h.refile hinv (hfile ▸ h.file : Stores rt (onDisk w'.file) g.committed)
        rwa [h.idle ha] at hs
      · obtain ⟨m', heffect, hs⟩ := hwritten hp hfile
        exact ⟨_, .writeLate hlate heffect, hs⟩
  · obtain ⟨t, ht⟩ := Option.ne_none_iff_exists'.mp ha
    unfold Session.write
    rw [ht]
    exact ⟨g, .raised nofun nofun, h⟩

theorem Session.Shows.init (h : s.Shows rt g) (force : Bool) :
    ∃ g', (Call.init force).Does rt g ((s.init rt cp cfg env force).1.map fun _ => .none) g' ∧
      (s.init rt cp cfg env force).2.Shows rt g' := by
  have hinv := @init_inv rt cp cfg env s h.inv force
  have hends := @createEmpty_ends env rt cp cfg force s.world
  -- the running transaction has the lock
  have hheld : s.activeTransaction ≠ none → ((createEmpty rt cp cfg force).run env s.world).2.file =
      s.world.file ∧ ∃ e, ((createEmpty rt cp cfg force).run env s.world).1 = .error e := by
    intro ha
    obtain ⟨handle, hlock⟩ : ∃ handle, s.world.lock = some handle := by
      cases h.inv with
      | idle => exact absurd rfl ha
      | running _ _ hlock _ => exact ⟨_, hlock⟩
    obtain ⟨e, w', hrun, hfile, -⟩ :=
      (@createEmpty_attempt env rt cp cfg force s.world).failed fun hn => by
        cases hn.1.2.2.2.1.symm.trans hlock
    rw [hrun]
    exact ⟨hfile, e, rfl⟩
  unfold Session.init at hinv ⊢
  simp only at hinv ⊢
  cases hr : (createEmpty rt cp cfg force).run env s.world with
  | mk r w' =>
    rw [hr] at hends hinv hheld
    have hwritten {data : Bytes} (hp : emptyBytes rt cp env force s.world = .ok ((), data))
        (hfile : w'.file = some data) (ha : s.activeTransaction = none) :
        (force = false → g.committed = .empty) ∧ Session.Shows rt { s with world := w' } ⟨.empty, none⟩ := by
      obtain ⟨hforce, state, hmake, hc⟩ := emptyBytes_ok hp
      have hstores := empty_committed hmake hc
      rw [← hfile] at hstores
      have hs := h.refile hinv hstores
      rw [h.idle ha] at hs
      refine ⟨fun hf => ?_, hs⟩
      have hm := h.file
      rw [hforce hf] at hm
      exact hm.unique (stores_missing rt)
    have hsame (hfile : w'.file = s.world.file) : Session.Shows rt { s with world := w' } g :=
      h.refile hinv (hfile ▸ h.file)
    cases r with
    | ok u =>
      have ha : s.activeTransaction = none := by
        by_contra ha
        obtain ⟨-, e, he⟩ := hheld ha
        cases he
      obtain ⟨data, hp, hfile⟩ := hends.returned () rfl
      obtain ⟨hforce, hs⟩ := hwritten hp hfile ha
      rw [h.without ha]
      exact ⟨_, .init hforce, hs⟩
    | error e =>
      rcases hends.raised e rfl with hfile | ⟨hlate, u, data, hp, hfile⟩
      · exact ⟨g, .raised nofun nofun, hsame hfile⟩
      · by_cases ha : s.activeTransaction = none
        · obtain ⟨hforce, hs⟩ := hwritten hp hfile ha
          rw [h.without ha]
          exact ⟨_, .initLate hlate hforce, hs⟩
        · exact ⟨g, .raised nofun nofun, hsame (hheld ha).1⟩

/-- Entering leaves the file; the state is a copy of what was loaded. -/
theorem enterTransaction_file {old : Option Nat} {w w' : World} {r : Except PyExc (Nat × State)}
    (h : (enterTransaction rt cp cfg old).run env w = (r, w')) : w'.file = w.file ∧
      ∀ handle state, r = .ok (handle, state) → ∃ t, load rt t (onDisk w.file) = .ok state := by
  rw [enterTransaction_old] at h
  have hf : (w.releaseIfOpen old).file = w.file := by cases old <;> rfl
  obtain ⟨hacq, hnot⟩ := @acquire_run env cfg (w.releaseIfOpen old)
  by_cases ha : env.acquires cfg (w.releaseIfOpen old)
  · obtain ⟨hok, herr⟩ := @enterBody_run env rt cfg cp (w.releaseIfOpen old).handles
      (w.releaseIfOpen old).locked
    have hrun := h.symm.trans (exec_bind_ok (hacq ha))
    cases hs : enteredState rt cp env cfg.nt (w.releaseIfOpen old).locked with
    | ok state' =>
      obtain ⟨rfl, rfl⟩ := Prod.mk.inj (hrun.trans (hok state' hs))
      refine ⟨hf, fun handle state he => ?_⟩
      cases he
      obtain ⟨loaded, hload, hcopy⟩ := bind_ok.mp hs
      obtain ⟨-, e⟩ := copyDict_ok.mp hcopy
      obtain rfl := PyVal.dict.inj e
      have hdisk := loads_onDisk hload
      exact ⟨_, hf ▸ hdisk⟩
    | error e =>
      obtain ⟨e', he, -⟩ := herr e hs
      obtain ⟨rfl, rfl⟩ := Prod.mk.inj (hrun.trans he)
      exact ⟨hf, nofun⟩
  · obtain ⟨e, w'', hrun, hw'', -⟩ := hnot ha
    obtain ⟨rfl, rfl⟩ := Prod.mk.inj (h.symm.trans (exec_bind_error hrun))
    rcases hw'' with rfl | rfl
    · exact ⟨hf, nofun⟩
    · exact ⟨hf, nofun⟩

theorem Session.Shows.enter (h : s.Shows rt g) (t : Nat) :
    ∃ g', (Call.enter t).Does rt g ((s.enter rt cp cfg env t).1.map fun _ => .none) g' ∧
      (s.enter rt cp cfg env t).2.Shows rt g' := by
  have hinv := @enter_inv rt cp cfg env s h.inv t
  unfold Session.enter at hinv ⊢
  cases ha : s.activeTransaction with
  | some t' => exact ⟨g, .raised nofun nofun, h⟩
  | none =>
    rw [ha] at hinv
    simp only at hinv ⊢
    rw [h.without ha]
    cases hr : (enterTransaction rt cp cfg (s.txs t).lock).run env s.world with
    | mk r w' =>
      rw [hr] at hinv
      obtain ⟨hfile, hload⟩ := enterTransaction_file hr
      have hstores : Stores rt (onDisk w'.file) g.committed := hfile ▸ h.file
      cases r with
      | error e => exact ⟨_, .raised nofun nofun, hinv, hstores, fun _ => rfl, nofun⟩
      | ok x =>
        obtain ⟨handle, state⟩ := x
        obtain ⟨now, hstate⟩ := hload handle state rfl
        have hb := load_loaded hstate
        refine ⟨_, .enter (t := t), hinv, hstores, nofun, fun t' ht => ?_⟩
        obtain rfl := Option.some.inj ht
        have htx := setTx_self s t ⟨true, some state, some handle⟩
        exact ⟨state, state, congrArg Tx.state htx, congrArg Tx.active htx, hb, hb.tidy,
          by rw [h.file.shows now state hstate]⟩

/-- The transaction that is active, and its state. -/
theorem Session.Shows.active (h : s.Shows rt g) {t : Nat} {state : State}
    (href : (s.txs t).stateRef = .ok state) : s.activeTransaction = some t ∧
      (s.txs t).state = some state ∧ ∃ base, Loaded rt base ∧ Tidy rt base state ∧
        g = ⟨g.committed, some (t, shown state)⟩ := by
  have hactive : (s.txs t).active = true ∧ (s.txs t).state = some state := by
    unfold Tx.stateRef at href
    split at href
    · rename_i ha hs
      cases href
      exact ⟨ha, hs⟩
    · cases href
  have hp := (h.inv.agrees.pointer t).mp hactive.1
  obtain ⟨base, state', hs, -, hb, htidy, hg⟩ := h.running t hp
  obtain rfl : state = state' := Option.some.inj (hactive.2.symm.trans hs)
  obtain ⟨m, working⟩ := g
  obtain rfl : working = _ := hg
  exact ⟨hp, hs, base, hb, htidy, rfl⟩

/-- The running transaction with another state. -/
theorem Session.Shows.setState (h : s.Shows rt g) {t : Nat} (ha : s.activeTransaction = some t)
    {base state' : State} (hb : Loaded rt base) (htidy : Tidy rt base state')
    (hinv : Session.Inv (s.setTx t { s.txs t with state := some state' })) :
    (s.setTx t { s.txs t with state := some state' }).Shows rt
      ⟨g.committed, some (t, shown state')⟩ := by
  refine ⟨hinv, h.file, fun hn => (nomatch ha.symm.trans hn), fun t' ht => ?_⟩
  obtain rfl : t = t' := Option.some.inj (ha.symm.trans ht)
  have htx := setTx_self s t { s.txs t with state := some state' }
  obtain ⟨-, -, -, hactive, -⟩ := h.running t ha
  exact ⟨base, state', congrArg Tx.state htx, (congrArg Tx.active htx).trans hactive, hb, htidy, rfl⟩

theorem Session.Shows.operate (h : s.Shows rt g) (t : Nat) {call : OpCall} (hcall : call.Avoids) :
    ∃ g', (Call.operate t (call.run rt cp)).Does rt g (s.operate t (call.run rt cp)).1 g' ∧
      (s.operate t (call.run rt cp)).2.Shows rt g' := by
  have hinv := operate_inv h.inv t (call.run rt cp)
  unfold Session.operate at hinv ⊢
  cases href : (s.txs t).stateRef with
  | error e => exact ⟨g, .raised nofun nofun, h⟩
  | ok state =>
    rw [href] at hinv
    simp only at hinv ⊢
    obtain ⟨hp, hstate, base, hb, htidy, hg⟩ := h.active href
    have hw := htidy.rep.wellFormed hb
    have hkeeps := (@OpCall.keeps_tidy rt cp base call hcall).run htidy
    cases hr : call.run rt cp state with
    | ok r state' =>
      have hr' : EStateM.run (call.run rt cp) state = .ok r state' := hr
      rw [hr'] at hinv
      rw [hr] at hkeeps
      rw [hr', hg]
      exact ⟨_, .operate (OpCall.effect hw hr), h.setState hp hb hkeeps hinv⟩
    | error e state' =>
      have hr' : EStateM.run (call.run rt cp) state = .error e state' := hr
      rw [hr'] at hinv
      rw [hr] at hkeeps
      rw [hr', hg]
      have hs := h.setState hp hb hkeeps hinv
      rcases OpCall.raises hw hr with ⟨rfl, -⟩ | ⟨hf, -, part, r, hpart, heffect⟩
      · exact ⟨_, .raised nofun nofun, hs⟩
      · exact ⟨_, .interrupted hf hpart heffect, hs⟩

/-- Nothing is running after an exit. -/
theorem Session.Shows.exited {w : World} {txs : Nat → Tx} {m : Shown} (hinv : Session.Inv ⟨w, txs, none⟩)
    (hm : Stores rt (onDisk w.file) m) : Session.Shows rt ⟨w, txs, none⟩ ⟨m, none⟩ :=
  ⟨hinv, hm, fun _ => rfl, nofun⟩

theorem Session.Shows.exit (h : s.Shows rt g) {t : Nat} {clean : Bool} (hown : s.OwnExit (.exit t clean)) :
    ∃ g', (Call.exit t clean).Does rt g ((s.exit rt cp cfg env t clean).1.map fun _ => .none) g' ∧
      (s.exit rt cp cfg env t clean).2.Shows rt g' := by
  have hinv := @exit_inv rt cp cfg env s h.inv t hown clean
  cases clean with
  | false =>
    obtain ⟨r, w', hrun, hfile, -⟩ :=
      @rollback_run env rt cp cfg (s.txs t).lock (s.txs t).stateRef s.world
    rw [exit_eq hrun] at hinv ⊢
    exact ⟨_, .rollback, .exited hinv (hfile ▸ h.file)⟩
  | true =>
    have hends := @exitTransaction_ends env rt cp cfg (s.txs t).lock (s.txs t).stateRef s.world
    cases hr : (exitTransaction rt cp cfg (s.txs t).lock true (s.txs t).stateRef).run env s.world with
    | mk r w' =>
      rw [hr] at hends
      rw [exit_eq hr] at hinv ⊢
      have hwritten {data : Bytes} (hp : exitBytes rt cp env (s.txs t).stateRef = .ok ((), data))
          (hfile : w'.file = some data) : ∃ k, g = ⟨g.committed, some (t, k)⟩ ∧
            Session.Shows rt ⟨w', (s.setTx t .fresh).txs, none⟩ ⟨k, none⟩ := by
        obtain ⟨state, href, hc⟩ := exitBytes_ok hp
        obtain ⟨-, -, base, hb, htidy, hg⟩ := h.active href
        refine ⟨_, hg, .exited hinv ?_⟩
        rw [hfile]
        exact htidy.stores hb hc
      cases r with
      | ok u =>
        obtain ⟨data, hp, hfile⟩ := hends.returned () rfl
        obtain ⟨k, hg, hs⟩ := hwritten hp hfile
        rw [hg]
        exact ⟨_, .commit, hs⟩
      | error e =>
        rcases hends.raised e rfl with hfile | ⟨hlate, u, data, hp, hfile⟩
        · exact ⟨_, .commitRaised, .exited hinv (hfile ▸ h.file)⟩
        · obtain ⟨k, hg, hs⟩ := hwritten hp hfile
          rw [hg]
          exact ⟨_, .commitLate hlate, hs⟩

theorem Session.Shows.leave (h : s.Shows rt g) (clean : Bool) :
    ∃ g', (Call.leave clean).Does rt g ((s.leave rt cp cfg env clean).1.map fun _ => .none) g' ∧
      (s.leave rt cp cfg env clean).2.Shows rt g' := by
  unfold Session.leave
  cases ha : s.activeTransaction with
  | none =>
    have hs := h
    rw [h.without ha] at hs ⊢
    exact ⟨_, .leaveIdle, hs⟩
  | some t =>
    obtain ⟨base, state, -, -, -, -, hg⟩ := h.running t ha
    have hinv := @exit_inv rt cp cfg env s h.inv t (Or.inr ha) false
    obtain ⟨r, w', hrun, hfile, -⟩ :=
      @rollback_run env rt cp cfg (s.txs t).lock (s.txs t).stateRef s.world
    rw [exit_eq hrun] at hinv
    simp only [exit_eq hrun]
    have hs := Session.Shows.exited hinv (hfile ▸ h.file : Stores rt (onDisk w'.file) g.committed)
    obtain ⟨m, working⟩ := g
    obtain rfl : working = _ := hg
    refine ⟨_, ?_, hs⟩
    have hleave := @Call.Does.leave rt clean m (shown state) t
    cases clean with
    | true => exact hleave
    | false => exact hleave

/-- **One call**: what it ends with is what the machine allows, and the session shows the workspace that
    the machine goes to. -/
theorem Session.Shows.after (h : s.Shows rt g) {c : Call} (hown : s.OwnExit c) (hlib : c.Library rt) :
    ∃ g', c.Does rt g (s.outcome rt cp cfg env c) g' ∧ (s.after rt cp cfg env c).Shows rt g' := by
  cases hlib with
  | enter t => exact h.enter t
  | exit t clean => exact h.exit hown
  | leave clean => exact h.leave clean
  | init force => exact h.init force
  | write hcall => exact h.write hcall
  | operate hcall => exact h.operate _ hcall

/-- What others do. -/
theorem Session.Shows.others (h : s.Shows rt g) {w : World} (hw : s.Yields w)
    (hfile : Readable rt (onDisk w.file)) (hlocked : s.activeTransaction ≠ none → w.file = s.world.file) :
    ∃ m, (g.working ≠ none → m = g.committed) ∧ Session.Shows rt { s with world := w } ⟨m, g.working⟩ := by
  obtain ⟨m, hm⟩ := hfile.stores
  refine ⟨m, fun hg => ?_, h.refile (others_inv h.inv hw) hm⟩
  have ha : s.activeTransaction ≠ none := fun ha => hg (h.idle ha)
  rw [hlocked ha] at hm
  exact hm.unique h.file

end

/-! ## 5. The result -/

/-- **A session is a committed store and a working copy**: in every run of calls on a `Database` and
    its transactions, in any order but that `__exit__` is called on the running transaction only,
    whatever the system calls answer and whatever others do to the file meanwhile, everything that
    is seen is seen of the abstract machine. -/
theorem session_refines {rt : Runtime} {cp : Copier} {w : World} {seen : List Seen} {s : Session}
    {m₀ : Shown} (h : Session.Goes rt cp (.start w) seen s) (hw : Stores rt (onDisk w.file) m₀) :
    ∃ g, Workspace.Goes rt m₀ seen g ∧ s.Shows rt g := by
  induction h with
  | start => exact ⟨_, .start, Session.start_inv w, hw, fun _ => rfl, nofun⟩
  | call cfg env c _ hown hlib ih =>
    obtain ⟨g, hg, hs⟩ := ih
    obtain ⟨g', hdoes, hs'⟩ := hs.after hown hlib
    exact ⟨g', hg.call hdoes, hs'⟩
  | read cp' cfg env _ hr ih =>
    obtain ⟨g, hg, hs⟩ := ih
    exact ⟨g, hg.read (hs.reads hr), hs⟩
  | others _ hy hfile hlocked ih =>
    obtain ⟨g, hg, hs⟩ := ih
    obtain ⟨m, hm, hs'⟩ := hs.others hy hfile hlocked
    exact ⟨_, .others hg hm, hs'⟩

def insertion (call : OpCall) : Op PyVal := call.run interpreter .total

/-- A document is inserted in a transaction and, when it has ended, another one without. -/
def insertedBoth : Session :=
  Session.after interpreter .total posix quietSystem committedSession (.write (insertion insertTagged))

/-- The documents of a state, of the two that are inserted. -/
def bothFound (s : State) : Bool × Bool :=
  (((shown s).find (lit "users") (Uuid.text ⟨0⟩)).isSome,
    ((shown s).find (lit "users") (Uuid.text ⟨1⟩)).isSome)

set_option maxRecDepth 20000 in
/-- Every call returns. The transaction sees its document, and the end sees both. -/
theorem insertedBoth_eq :
    raised ((Session.start ⟨none, none, 0⟩).outcome interpreter .total posix quietSystem
      (.enter 0)) = none ∧
    raised (enteredSession.outcome interpreter .total posix quietSystem
      (.operate 0 (insertion (insertName (lit "Ava"))))) = none ∧
    (insertedSession.readState interpreter .total posix quietSystem).toOption.map bothFound =
      some (true, false) ∧
    raised (insertedSession.outcome interpreter .total posix quietSystem (.exit 0 true)) = none ∧
    raised (committedSession.outcome interpreter .total posix quietSystem
      (.write (insertion insertTagged))) = none ∧
    (insertedBoth.readState interpreter .total posix quietSystem).toOption.map bothFound =
      some (true, true) ∧
    insertedBoth.activeTransaction = none := by
  decide +kernel

/-- A transaction that inserts, reads and commits, and then a write: the machine does the same, and
    its store is what the last read shows. -/
theorem transaction_then_write : ∃ seen g r₀ r₁ r₂ r₃ state state',
    Session.Goes interpreter .total (.start ⟨none, none, 0⟩) seen insertedBoth ∧
    seen = [.call (.enter 0) (.ok r₀), .call (.operate 0 (insertion (insertName (lit "Ava")))) (.ok r₁),
      .read state, .call (.exit 0 true) (.ok r₂), .call (.write (insertion insertTagged)) (.ok r₃),
      .read state'] ∧
    Workspace.Goes interpreter .empty seen g ∧ g.working = none ∧ shown state' = g.committed ∧
    bothFound state = (true, false) ∧ bothFound state' = (true, true) := by
  obtain ⟨henter, hinsert, hread, hexit, hwrite, hread', hidle⟩ := insertedBoth_eq
  obtain ⟨r₀, h₀⟩ := raised_eq_none.mp henter
  obtain ⟨r₁, h₁⟩ := raised_eq_none.mp hinsert
  obtain ⟨r₂, h₂⟩ := raised_eq_none.mp hexit
  obtain ⟨r₃, h₃⟩ := raised_eq_none.mp hwrite
  obtain ⟨state, hstate, hfound⟩ := Option.map_eq_some_iff.mp hread
  obtain ⟨state', hstate', hfound'⟩ := Option.map_eq_some_iff.mp hread'
  have hentered := (@Session.Goes.start interpreter .total (.start ⟨none, none, 0⟩)).call posix
    quietSystem (.enter 0) trivial (.enter 0)
  have hinserted := hentered.call posix quietSystem
    (.operate 0 (insertion (insertName (lit "Ava")))) trivial (.operate trivial)
  have hcommitted := (hinserted.read .total posix quietSystem (toOption_eq_some.mp hstate)).call posix
    quietSystem (.exit 0 true) (Or.inr insertedSession_pointer) (.exit 0 true)
  have hwritten := hcommitted.call posix quietSystem (.write (insertion insertTagged)) trivial
    (.write trivial)
  have hgoes := hwritten.read .total posix quietSystem (toOption_eq_some.mp hstate')
  obtain ⟨g, hg, hs⟩ := session_refines hgoes (stores_missing interpreter)
  have hshown := hs.reads (toOption_eq_some.mp hstate')
  rw [Workspace.current, hs.idle hidle] at hshown
  rw [h₀] at hgoes hg
  refine ⟨_, g, r₀, r₁, r₂, r₃, state, state', hgoes, ?_, hg, hs.idle hidle, hshown, hfound, hfound'⟩
  show [Seen.call _ _, .call _ (enteredSession.outcome _ _ _ _ _), .read _,
    .call _ (insertedSession.outcome _ _ _ _ _), .call _ (committedSession.outcome _ _ _ _ _),
    .read _] = _
  rw [h₁, h₂, h₃]

end JsonDatabase
