/-
  File:      JsonDatabase/History.lean
  Subject:   What many clients do to one file, as a history of the store.

  The clients interleave system call by system call, and crash between them; the store goes from one
  operation to the next. Each commit is the whole effect of its operation on what the commit before
  left, and each load shows what some commit left.

  * `Stores` -- a file as a store; `Job.Library.effect` -- one commit;
  * `System.Labelled`, `System.Since` -- which operation is whose, and which came first;
  * `refines_store` -- every interleaving has a history, in the order of real time.
-/
import JsonDatabase.Shown
import JsonDatabase.Metadata

namespace JsonDatabase

open PyVal hiding none

/-! ## 1. Files as stores -/

/-- The content can be loaded, and whenever it is, it shows `m`. -/
structure Stores (rt : Runtime) (file : FileRead) (m : Shown) : Prop where
  readable : Readable rt file
  shows : ∀ t s, load rt t file = .ok s → shown s = m

section

variable {rt : Runtime} {cp : Copier} {file : FileRead} {m m' : Shown}

theorem Stores.unique (h : Stores rt file m) (h' : Stores rt file m') : m = m' := by
  obtain ⟨s, hs⟩ := h.readable epoch
  exact (h.shows epoch s hs).symm.trans (h'.shows epoch s hs)

theorem Loaded.wellFormed {s : State} (h : Loaded rt s) : WellFormed s := h.rep.wellFormed h

/-- What can be read is a store. -/
theorem Readable.stores (h : Readable rt file) : ∃ m, Stores rt file m := by
  obtain ⟨s, hs⟩ := h epoch
  refine ⟨shown s, h, fun t s' hs' => ?_⟩
  exact (load_parallel hs' hs).shown (load_loaded hs').wellFormed (load_loaded hs).wellFormed

theorem Stores.of_load {t : DateTime} {s : State} (h : Readable rt file) (hs : load rt t file = .ok s) :
    Stores rt file (shown s) := by
  obtain ⟨m, hm⟩ := h.stores
  rw [hm.shows t s hs]
  exact hm

theorem stores_missing (rt : Runtime) : Stores rt .missing .empty := by
  refine ⟨readable_missing rt, fun t s hs => ?_⟩
  obtain ⟨d, -, rfl⟩ := makeEmptyState_ok.mp hs
  rfl

/-- What is committed of a state that was loaded and written to. -/
theorem Tidy.stores {base s : State} (hb : Loaded rt base) (h : Tidy rt base s) {now : DateTime}
    {data : Bytes} (hc : commitBytes rt cp now s = .ok data) : Stores rt (.bytes data) (shown s) := by
  have hread := h.readable hb hc
  obtain ⟨w, hw⟩ := hread epoch
  rw [(h.rep.parallel_read_back hb hc hw).shown (h.rep.wellFormed hb) (load_loaded hw).wellFormed]
  exact .of_load hread hw

/-- A write that was made to what was loaded, and committed. -/
theorem OpCall.committed {cp' : Copier} {call : OpCall} {s s' : State} {r : PyVal} {file : Option Bytes}
    {t now : DateTime} {data : Bytes} (hcall : call.Avoids) (hm : Stores rt (onDisk file) m)
    (hload : load rt t (onDisk file) = .ok s) (hr : Op.result (call.run rt cp') s = .ok (r, s'))
    (hc : commitBytes rt cp now s' = .ok data) :
    call.Effect rt m r (shown s') ∧ Stores rt (onDisk (some data)) (shown s') := by
  have hb := load_loaded hload
  obtain rfl := hm.shows t s hload
  exact ⟨OpCall.effect hb.wellFormed (Op.result_iff.mp hr),
    (hb.tidy.after (OpCall.keeps_tidy hcall) hr).stores hb hc⟩

/-- The empty database, committed. -/
theorem empty_committed {s : State} {t now : DateTime} {data : Bytes}
    (hmake : makeEmptyState rt t = .ok s) (hc : commitBytes rt cp now s = .ok data) :
    Stores rt (onDisk (some data)) .empty := by
  have hload : load rt t .missing = .ok s := hmake
  have hb := load_loaded hload
  rw [← (stores_missing rt).shows t s hload]
  exact hb.tidy.stores hb hc

/-- **One commit**: what an operation leaves in the file stores its effect. -/
theorem Job.Library.effect {job : Job} (h : job.Library rt) {file : Option Bytes} {data : Bytes}
    (hc : job.Commits rt cp file data) (hm : Stores rt (onDisk file) m) :
    ∃ m', job.Effect rt m m' ∧ Stores rt (onDisk (some data)) m' := by
  cases h with
  | write hcall =>
    obtain ⟨now, t, s, r, s', hload, hr, hbytes⟩ := hc
    obtain ⟨heffect, hstores⟩ := OpCall.committed hcall hm hload hr hbytes
    exact ⟨_, .write heffect, hstores⟩
  | init force =>
    obtain ⟨now, hforce, t, s, hmake, hbytes⟩ := hc
    refine ⟨_, .init fun hf => ?_, empty_committed hmake hbytes⟩
    obtain rfl := hforce hf
    exact hm.unique (stores_missing rt)
  | @transaction body hbody =>
    obtain ⟨now, t, loaded, s, r, s', hload, hcopy, hr, hbytes⟩ := hc
    have hb := load_loaded hload
    obtain ⟨-, e⟩ := copyDict_ok.mp hcopy
    obtain rfl := PyVal.dict.inj e
    obtain rfl := hm.shows t loaded hload
    have hkeeps : Keeps (Tidy rt loaded) _ := TxBody.op_keeps (fun _ _ => OpCall.keeps_tidy) hbody
    obtain ⟨hacts, -⟩ := @TxBody.acts rt body _ hb.wellFormed
    have hrun := Op.result_iff.mp hr
    unfold TxBody.op at hrun
    cases hexec : body.exec (TxCall.perform rt) loaded with
    | mk out s₁ =>
      rw [hexec] at hrun hacts
      cases out with
      | ok a =>
        cases hrun
        exact ⟨_, .transaction hacts, (hb.tidy.after hkeeps hr).stores hb hbytes⟩
      | error e => cases hrun
  | load => exact hc.elim fun _ h => h.elim

end

/-! ## 2. Which operation is whose -/

namespace System

variable {rt : Runtime} {cp : Copier} {allowed : Job → Prop} {s₀ s s' s'' : System}

/-- The numbers say which operation is meant. -/
def Labelled (s : System) : Prop :=
  ∃ job : Nat → Job, (∀ i run, s.clients i = some run → job run.op = run.job ∧ run.op < s.nextOp) ∧
    (∀ c ∈ s.log, job c.op = c.job ∧ c.op < s.nextOp) ∧
    ∀ e ∈ s.finished, job e.op = e.job ∧ e.op < s.nextOp

/-- A commit in the log is an old one, or one of the client that called. -/
theorem mem_logAfter {run : Running} {c : Syscall} {r : Except PyExc c.Reply} {commit : Commit}
    (h : commit ∈ s.logAfter run c r) : commit ∈ s.log ∨ commit.op = run.op ∧ commit.job = run.job := by
  unfold logAfter at h
  split at h
  · rcases List.mem_append.mp h with h | h
    · exact Or.inl h
    · rw [List.mem_singleton.mp h]
      exact Or.inr ⟨rfl, rfl⟩
  · exact Or.inl h

theorem Labelled.step (h : s.Labelled) (hs : Step rt cp s s') : s'.Labelled := by
  obtain ⟨job, hclients, hlog, hfinished⟩ := h
  cases hs with
  | start i cfg new hi =>
    -- the new operation gets a number that none has
    have hold {n : Nat} (hn : n < s.nextOp) : Function.update job s.nextOp new n = job n :=
      Function.update_of_ne hn.ne ..
    refine ⟨Function.update job s.nextOp new, fun j run hj => ?_, fun c hc => ?_, fun e he => ?_⟩
    · rcases update_some hj with ⟨-, hv⟩ | ⟨-, hj⟩
      · cases hv
        exact ⟨Function.update_self .., Nat.lt_succ_self _⟩
      · obtain ⟨hjob, hn⟩ := hclients j run hj
        exact ⟨(hold hn).trans hjob, hn.trans (Nat.lt_succ_self _)⟩
    · obtain ⟨hjob, hn⟩ := hlog c hc
      exact ⟨(hold hn).trans hjob, hn.trans (Nat.lt_succ_self _)⟩
    · obtain ⟨hjob, hn⟩ := hfinished e he
      exact ⟨(hold hn).trans hjob, hn.trans (Nat.lt_succ_self _)⟩
  | @call i run c k r w' hrun hrest ha =>
    refine ⟨job, fun j run' hj => ?_, fun c' hc' => ?_, hfinished⟩
    · rcases update_some hj with ⟨-, hv⟩ | ⟨-, hj⟩
      · cases hv
        exact hclients i run hrun
      · exact hclients j run' hj
    · rcases mem_logAfter hc' with hc' | ⟨hop, hjob⟩
      · exact hlog c' hc'
      · rw [hop, hjob]
        exact hclients i run hrun
  | @finish i run r hrun hdone =>
    refine ⟨job, fun j run' hj => ?_, hlog, List.forall_mem_cons.mpr ⟨hclients i run hrun, hfinished⟩⟩
    rcases update_some hj with ⟨-, hv⟩ | ⟨-, hj⟩
    · cases hv
    · exact hclients j run' hj
  | crash i =>
    refine ⟨job, fun j run' hj => ?_, hlog, hfinished⟩
    rcases update_some hj with ⟨-, hv⟩ | ⟨-, hj⟩
    · cases hv
    · exact hclients j run' hj

theorem Reachable.labelled {file : Option Bytes} (h : Reachable rt cp (.start file) s) : s.Labelled := by
  induction h with
  | start => exact ⟨fun _ => .load, nofun, nofun, nofun⟩
  | step _ hs ih => exact ih.step hs

/-! ## 3. Which came first -/

theorem Runs.trans (h : Runs rt cp allowed s₀ s) (h' : Runs rt cp allowed s s') :
    Runs rt cp allowed s₀ s' := by
  induction h' with
  | start => exact h
  | step _ hs hnew ih => exact ih.step hs hnew

theorem prefix_logAfter (s : System) (run : Running) (c : Syscall) (r : Except PyExc c.Reply) :
    s.log <+: s.logAfter run c r := by
  unfold logAfter
  split
  · exact List.prefix_append _ _
  · exact List.prefix_rfl

/-- What has happened since the moment `s`: commits are added, and what started since then, with a
    number that was not given yet, has looked at the file and committed since then. -/
structure Since (s s' : System) : Prop where
  log : s.log <+: s'.log
  number : s.nextOp ≤ s'.nextOp
  running : ∀ i run, s'.clients i = some run → s.nextOp ≤ run.op → s.log.length ≤ run.point
  finished : ∀ e ∈ s'.finished, s.nextOp ≤ e.op → s.log.length ≤ e.point

theorem Labelled.since (h : s.Labelled) : s.Since s := by
  obtain ⟨job, hclients, -, hfinished⟩ := h
  refine ⟨List.prefix_rfl, le_rfl, fun i run hi hn => ?_, fun e he hn => ?_⟩
  · exact absurd (hclients i run hi).2 (Nat.not_lt.mpr hn)
  · exact absurd (hfinished e he).2 (Nat.not_lt.mpr hn)

theorem Since.step (h : s.Since s') (hs : Step rt cp s' s'') : s.Since s'' := by
  cases hs with
  | start i cfg job hi =>
    refine { h with number := h.number.trans (Nat.le_succ _), running := fun j run hj hn => ?_ }
    rcases update_some hj with ⟨-, hv⟩ | ⟨-, hj⟩
    · cases hv
      exact h.log.length_le
    · exact h.running j run hj hn
  | @call i run c k r w' hrun hrest ha =>
    refine { h with log := h.log.trans (prefix_logAfter s' run c r), running := fun j run' hj hn => ?_ }
    rcases update_some hj with ⟨-, hv⟩ | ⟨-, hj⟩
    · cases hv
      show s.log.length ≤ if looks c then s'.log.length else run.point
      split
      · exact h.log.length_le
      · exact h.running i run hrun hn
    · exact h.running j run' hj hn
  | @finish i run r hrun hdone =>
    refine { h with
      running := fun j run' hj hn => ?_
      finished := List.forall_mem_cons.mpr ⟨h.running i run hrun, h.finished⟩ }
    rcases update_some hj with ⟨-, hv⟩ | ⟨-, hj⟩
    · cases hv
    · exact h.running j run' hj hn
  | crash i =>
    refine { h with running := fun j run' hj hn => ?_ }
    rcases update_some hj with ⟨-, hv⟩ | ⟨-, hj⟩
    · cases hv
    · exact h.running j run' hj hn

theorem Runs.since (h : s.Labelled) (h' : Runs rt cp allowed s s') : s.Since s' := by
  induction h' with
  | start => exact h.since
  | step _ hs _ ih => exact ih.step hs

end System

/-! ## 4. The result -/

/-- **A history of the store** for what the clients have done: the store that each content of the
    file is, and between them the effects of the operations. -/
structure History (rt : Runtime) (file : Option Bytes) (s : System) (ms : Nat → Shown) : Prop where
  stores : ∀ n, n ≤ s.log.length → Stores rt (onDisk (fileAfter file (s.log.take n))) (ms n)
  current : Stores rt (onDisk s.world.file) (ms s.log.length)
  effects : ∀ (n : Nat) (c : Commit), s.log[n]? = some c → c.job.Effect rt (ms n) (ms (n + 1))
  /-- An operation that returned has had its effect, once. -/
  returned : ∀ e ∈ s.finished, e.job ≠ .load → (∃ a, e.result = .ok a) →
    ∃ (n : Nat) (c : Commit), s.log[n]? = some c ∧ c.op = e.op ∧ c.job = e.job
  once : ∀ (n n' : Nat) (c c' : Commit), s.log[n]? = some c → s.log[n']? = some c' →
    c.op = c'.op → n = n'
  /-- A load shows the store of one moment. -/
  loads : ∀ e ∈ s.finished, e.job = .load → ∀ state, e.result = .ok (some state) →
    e.point ≤ s.log.length ∧ shown state = ms e.point

/-- The history is in the order of real time: what had ended at the moment `s` lies before what
    started after it. -/
structure InOrder (s s' : System) : Prop where
  log : s.log <+: s'.log
  commits : ∀ (n : Nat) (c : Commit), s'.log[n]? = some c → s.nextOp ≤ c.op → s.log.length ≤ n
  loads : ∀ e ∈ s'.finished, s.nextOp ≤ e.op → s.log.length ≤ e.point

section

variable {rt : Runtime} {cp : Copier} {file : Option Bytes} {s s' : System}

theorem System.Since.inOrder (hl : s.Labelled) (h : s.Since s') : InOrder s s' := by
  obtain ⟨job, -, hlog, -⟩ := hl
  refine ⟨h.log, fun n c hc hn => ?_, h.finished⟩
  -- an older place in the log is taken by an older number
  by_contra hlt
  obtain ⟨ext, hext⟩ := h.log
  rw [← hext, List.getElem?_append_left (Nat.lt_of_not_le hlt)] at hc
  exact absurd (hlog c (List.mem_of_getElem? hc)).2 (Nat.not_lt.mpr hn)

theorem System.Runs.history (h : System.Runs rt cp (Job.Library rt) (.start file) s) {ms : Nat → Shown}
    (hms : ∀ n, n ≤ s.log.length → Stores rt (onDisk (fileAfter file (s.log.take n))) (ms n)) :
    History rt file s ms := by
  have hinv := reachable_inv h.reachable
  obtain ⟨job, -, hlog, hfinished⟩ := h.reachable.labelled
  refine ⟨hms, ?_, fun n c hn => ?_, fun e he hjob hres => ?_, fun n n' c c' hn hn' hop => ?_,
    fun e he hjob state hres => ?_⟩
  · have hlast := hms s.log.length le_rfl
    rwa [List.take_length, ← hinv.current] at hlast
  · obtain ⟨hcommits, hafter⟩ := hinv.replay.commit_at hn
    have hlt := (List.getElem?_eq_some_iff.mp hn).1
    obtain ⟨m', heffect, hstores⟩ :=
      (h.log.1 c (List.mem_of_getElem? hn)).effect hcommits (hms n (Nat.le_of_lt hlt))
    have hnext := hms (n + 1) hlt
    rw [hafter] at hnext
    rwa [hnext.unique hstores]
  · obtain ⟨c, hc, hop⟩ := List.mem_map.mp (h.reachable.committed he hjob hres)
    obtain ⟨n, hn⟩ := List.getElem?_of_mem hc
    exact ⟨n, c, hn, hop, by rw [← (hlog c hc).1, hop, (hfinished e he).1]⟩
  · have hops {i : Nat} {d : Commit} (hi : s.log[i]? = some d) : (opsOf s.log)[i]? = some d.op := by
      rw [opsOf, List.getElem?_map, hi]
      rfl
    have hlt : n < (opsOf s.log).length := (List.getElem?_eq_some_iff.mp (hops hn)).1
    exact (List.getElem?_inj hlt hinv.once).mp ((hops hn).trans (hop ▸ (hops hn').symm))
  · obtain ⟨hpoint, state', t, hsome, hload⟩ := h.reachable.loaded he hjob hres
    obtain rfl := Option.some.inj hsome
    exact ⟨hpoint, (hms e.point hpoint).shows t state hload⟩

/-- **The clients refine the store**: whatever they do through the API, interleaved in any way and
    crashing anywhere, from no file or one that can be read, there is one history of the store that
    explains the system at a moment `s` and at a later moment `s'`: every content of the file stores
    one of its moments, every commit is the whole effect of its operation on the store that the one
    before left, and every load shows one of its moments. It is in the order of real time. -/
theorem refines_store (h : System.Runs rt cp (Job.Library rt) (.start file) s)
    (h' : System.Runs rt cp (Job.Library rt) s s') (hfile : Readable rt (onDisk file)) :
    ∃ ms, History rt file s ms ∧ History rt file s' ms ∧ InOrder s s' := by
  have hall := h.trans h'
  choose ms hms using fun n => (hall.readable hfile n).stores
  have hsince := h'.since h.reachable.labelled
  obtain ⟨ext, hext⟩ := hsince.log
  refine ⟨ms, h.history fun n hn => ?_, hall.history fun n _ => hms n,
    hsince.inOrder h.reachable.labelled⟩
  have hn' := hms n
  rwa [← hext, List.take_append_of_le_length hn] at hn'

/-- The second client has started its insertion. -/
def amidTwoClients : System :=
  System.play interpreter .total posix quietSystem (twoClients.take 87) (.start none)

theorem afterTwoClients_split : afterTwoClients =
    amidTwoClients.play interpreter .total posix quietSystem (twoClients.drop 87) := by
  unfold afterTwoClients amidTwoClients
  rw [← System.play_append, List.take_append_drop]

theorem amidTwoClients_runs :
    System.Runs interpreter .total (Job.Library interpreter) (.start none) amidTwoClients ∧
    System.Runs interpreter .total (Job.Library interpreter) amidTwoClients afterTwoClients := by
  have h : System.Runs interpreter .total (Job.Library interpreter) (.start none) amidTwoClients :=
    System.Runs.start.play nofun fun _ _ hm => twoClients_library (List.mem_of_mem_take hm)
  refine ⟨h, ?_⟩
  rw [afterTwoClients_split]
  exact System.Runs.start.play h.log.2 fun _ _ hm => twoClients_library (List.mem_of_mem_drop hm)

set_option maxRecDepth 20000 in
theorem amidTwoClients_log : amidTwoClients.log.length = 1 := by decide +kernel

/-- Two moments of a run of two clients, the first when an insertion has started: what is committed
    after it are two insertions, each with its effect, and the last load shows both. -/
theorem two_clients_store : ∃ (s s' : System) (ms : Nat → Shown) (c₁ c₂ : Commit) (e : Finished),
    System.Runs interpreter .total (Job.Library interpreter) (.start none) s ∧
    System.Runs interpreter .total (Job.Library interpreter) s s' ∧ InOrder s s' ∧
    s.log.length = 1 ∧ s'.log.length = 3 ∧ s'.log[1]? = some c₁ ∧ s'.log[2]? = some c₂ ∧
    ms 0 = .empty ∧ c₁.job.Effect interpreter (ms 1) (ms 2) ∧ c₂.job.Effect interpreter (ms 2) (ms 3) ∧
    e ∈ s'.finished ∧ ∃ state, e.result = .ok (some state) ∧ shown state = ms 3 := by
  obtain ⟨h, h'⟩ := amidTwoClients_runs
  obtain ⟨ms, -, hms, horder⟩ := refines_store h h' (readable_missing interpreter)
  obtain ⟨c₀, c₁, c₂, hlog, -⟩ := afterTwoClients_log
  have hzero := hms.stores 0 (Nat.zero_le _)
  rw [List.take_zero] at hzero
  obtain ⟨e, rest, hf, he, -⟩ := List.map_eq_cons_iff.mp afterTwoClients_eq.2.1
  simp only [Prod.mk.injEq] at he
  obtain ⟨-, hload, hpoint, hok⟩ := he
  obtain ⟨r, hr⟩ := isOk_iff.mp hok
  have hmem : e ∈ afterTwoClients.finished := hf ▸ List.mem_cons_self
  obtain ⟨-, state, t, rfl, -⟩ := afterTwoClients_reachable.loaded hmem (Job.kind_load hload) hr
  have hc₁ : afterTwoClients.log[1]? = some c₁ := by rw [hlog]; rfl
  have hc₂ : afterTwoClients.log[2]? = some c₂ := by rw [hlog]; rfl
  refine ⟨_, _, ms, c₁, c₂, e, h, h', horder, amidTwoClients_log, by rw [hlog]; rfl, hc₁, hc₂,
    hzero.unique (stores_missing interpreter), hms.effects 1 c₁ hc₁, hms.effects 2 c₂ hc₂, hmem, state,
    hr, ?_⟩
  rw [(hms.loads e hmem (Job.kind_load hload) state hr).2, hpoint]

end

end JsonDatabase
