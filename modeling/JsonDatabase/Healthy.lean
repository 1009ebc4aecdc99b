/-
  File:      JsonDatabase/Healthy.lean
  Subject:   The database file passes its own check, whoever writes it.

  Any number of clients write through the API: single writes, `init`, and transactions whose bodies
  may read, catch exceptions and go on. What they leave at the path is never half of a commit, and
  never a text that the next load rejects.

  * `TxBody`, `TxBody.op` -- the body of a transaction as a program of its writes and reads;
  * `OpCall.Avoids` -- the writes that store nothing under the reserved key;
  * `Job.Library` -- the operations of the API;
  * `always_healthy` -- in every interleaving, `check_integrity` reports no defect of the file.
-/
import JsonDatabase.Autocommit
import JsonDatabase.Clients

namespace JsonDatabase

open PyVal hiding none

/-! ## 1. The operations of the API -/

/-- What the body of a transaction does with the state: one of the seven writes, or reading. -/
inductive TxCall where
  | write (cp : Copier) (call : OpCall)
  | read (f : State → Except PyExc PyVal)

/-- The body of a transaction; it sees what each call returned or raised. -/
abbrev TxBody := Interaction PyExc TxCall (fun _ => PyVal) PyVal

/-- A call of the body on the state of the transaction. -/
def TxCall.perform (rt : Runtime) : TxCall → State → Except PyExc PyVal × State
  | .write cp call, s =>
    match call.run rt cp s with
    | .ok r s' => (.ok r, s')
    | .error e s' => (.error e, s')
  | .read f, s => (f s, s)

/-- The body as a function of the state. -/
def TxBody.op (rt : Runtime) (body : TxBody) : Op PyVal := fun s =>
  match body.exec (TxCall.perform rt) s with
  | (.ok r, s') => .ok r s'
  | (.error e, s') => .error e s'

/-- Nothing is stored under the reserved key: only `upsert` names an identifier that need not be
    there yet. -/
def OpCall.Avoids : OpCall → Prop
  | .upsert _ documentId _ => documentId.val ≠ .str TYPE_KEY
  | _ => True

def TxCall.Avoids : TxCall → Prop
  | .write _ call => call.Avoids
  | .read _ => True

/-- Every write of the body, whatever the earlier calls returned. -/
def TxBody.Avoids (body : TxBody) : Prop :=
  Interaction.Conforms (fun (_ : Unit) c => TxCall.Avoids c) (fun _ _ _ _ => True) body () fun _ _ => True

/-- The operations of the API. -/
inductive Job.Library (rt : Runtime) : Job → Prop
  | write {cp : Copier} {call : OpCall} (h : call.Avoids) : Library rt (.update (call.run rt cp))
  | init (force : Bool) : Library rt (.createEmpty force)
  | transaction {body : TxBody} (h : body.Avoids) : Library rt (.transaction (body.op rt))
  | load : Library rt .load

/-! ## 2. Writes that avoid the reserved key -/

/-- The collections that are not made up. -/
theorem get_of_collectionsOf {s : State} {c : PyDict} (hc : collectionsOf s = .ok c)
    {entry : PyKey × PyVal} (hm : entry ∈ c) : Dict.get s COLLECTIONS = some (.dict c) := by
  unfold collectionsOf at hc
  cases hs : Dict.get s COLLECTIONS with
  | none =>
    rw [hs] at hc
    cases hc
    cases hm
  | some v =>
    rw [hs] at hc
    obtain rfl := asDict_ok.mp hc
    rfl

theorem noReservedId_writeDocs {s : State} (h : NoReservedId s) {c docs : PyDict} {name : PyKey}
    (hc : collectionsOf s = .ok c) (hd : Dict.contains docs (.str TYPE_KEY) = false) :
    NoReservedId (writeDocs s c name docs) := by
  intro c' name' docs' hget hm
  rw [writeDocs, Dict.get_put_self] at hget
  cases hget
  rcases Dict.mem_put hm with e | hm
  · cases e
    exact hd
  · exact h c name' docs' (get_of_collectionsOf hc hm) hm

/-- The documents of a collection, none if it is missing. -/
theorem NoReservedId.docs {s : State} (h : NoReservedId s) {c docs : PyDict} {name : PyKey}
    (hc : collectionsOf s = .ok c)
    (hd : asDict ((Dict.get c name).getD (.dict [])) = .ok docs) :
    Dict.contains docs (.str TYPE_KEY) = false := by
  cases hn : Dict.get c name with
  | none =>
    rw [hn] at hd
    cases hd
    rfl
  | some v =>
    rw [hn] at hd
    obtain rfl := asDict_ok.mp hd
    have hm := Dict.mem_of_get hn
    exact h c name docs (get_of_collectionsOf hc hm) hm

theorem contains_put_ne {docs : PyDict} {k k' : PyKey} {v : PyVal} (hk : k ≠ k')
    (h : Dict.contains docs k' = false) : Dict.contains (Dict.put docs k v) k' = false := by
  rw [Dict.contains, Dict.get_put_ne _ hk]
  exact h

section Avoid

variable {rt : Runtime} {cp : Copier} {collection id : PyVal}

theorem avoids_ensureCollection : Keeps NoReservedId (ensureCollection collection) :=
  .bind (.lift _) fun _ => .bind_get fun _ hs => .bind_lift fun _ hc => .bind_lift fun _ hd =>
    .bind (.set (noReservedId_writeDocs hs hc (hs.docs hc hd))) fun _ => .pure _

theorem avoids_assignDocument (hid : id.toKey ≠ .str TYPE_KEY) {document : PyDict} :
    Keeps NoReservedId (assignDocument collection id document) :=
  .bind_get fun _ hs => .bind_lift fun _ hc => .bind_lift fun _ hd =>
    .set (noReservedId_writeDocs hs hc (contains_put_ne hid (hs.docs hc hd)))

theorem length_hexDigits (n m : Nat) : (hexDigits n m).length = n := by
  induction n generalizing m with
  | zero => rfl
  | succ n ih => rw [hexDigits, List.length_append, ih, List.length_singleton]

/-- A generated identifier is longer than the reserved key. -/
theorem Uuid.text_ne_typeKey (u : Uuid) : PyKey.str u.text ≠ .str TYPE_KEY := by
  have hlen : u.text.length = 36 := by
    simp only [Uuid.text, List.length_append, List.length_cons, length_hexDigits]
  intro h
  rw [PyKey.str.inj h] at hlen
  cases hlen

/-- A document is stored under a generated identifier. -/
theorem avoids_generated (uuid : Uuid) {document : PyDict} :
    Keeps NoReservedId (assignDocument collection (.str uuid.text) document) :=
  @avoids_assignDocument collection (.str uuid.text) uuid.text_ne_typeKey document

/-- A document that is there is not under the reserved key. -/
theorem NoReservedId.found {s : State} (h : NoReservedId s) {document : PyDict}
    (hd : getDocumentRef s collection id = .ok document) : id.toKey ≠ .str TYPE_KEY := by
  obtain ⟨-, docs, href, hget⟩ := getDocumentRef_ok.mp hd
  obtain ⟨-, c, hc, hn⟩ := getCollectionRef_ok.mp href
  have hm := Dict.mem_of_get hn
  intro hid
  have hfree := h c _ docs (get_of_collectionsOf hc hm) hm
  rw [← hid, Dict.contains, hget] at hfree
  cases hfree

theorem avoids_insertDocument {document : PyVal} {uuid : Uuid} :
    Keeps NoReservedId (insertDocument rt cp collection document uuid) :=
  .bind (.lift _) fun _ => .bind (.lift _) fun _ => .bind (.lift _) fun _ => .bind (.lift _) fun _ =>
    .bind avoids_ensureCollection fun _ =>
      .bind (avoids_generated uuid) fun _ => .pure _

theorem avoids_updateDocument {updates : PyVal} :
    Keeps NoReservedId (updateDocument rt cp collection id updates) :=
  .bind (.lift _) fun _ => .bind (.lift _) fun _ => .bind (.lift _) fun _ =>
    .bind_get fun _ hs => .bind_lift fun _ hd => .bind (.lift _) fun _ =>
      .bind (avoids_assignDocument (hs.found hd)) fun _ => .lift _

theorem avoids_replaceDocument {document : PyVal} :
    Keeps NoReservedId (replaceDocument rt cp collection id document) :=
  .bind (.lift _) fun _ => .bind (.lift _) fun _ => .bind (.lift _) fun _ =>
    .bind_get fun _ hs => .bind_lift fun _ hd => .bind avoids_ensureCollection fun _ =>
      .bind (avoids_assignDocument (hs.found hd)) fun _ => .lift _

theorem avoids_deleteDocument : Keeps NoReservedId (deleteDocument collection id) := by
  refine .bind (.lift _) fun _ => .bind_get fun s hs => .bind_lift fun docs hd =>
    .bind (.lift _) fun _ => .bind_lift fun c hc => .bind (.set ?_) fun _ => .pure _
  obtain ⟨-, c', hc', hn⟩ := getCollectionRef_ok.mp hd
  obtain rfl : c = c' := Except.ok.inj (hc.symm.trans hc')
  refine noReservedId_writeDocs hs hc ?_
  have hm := Dict.mem_of_get hn
  have hfree := hs c _ docs (get_of_collectionsOf hc hm) hm
  exact contains_eq_false.mpr fun hk => contains_eq_false.mp hfree
    ((Dict.drop_sublist docs id.toKey).map _ |>.subset hk)

theorem avoids_upsertDocument {document : PyVal} (hid : id ≠ .str TYPE_KEY) :
    Keeps NoReservedId (upsertDocument rt cp collection id document) := by
  refine .bind_lift fun _ hi => .bind (.lift _) fun _ => .bind (.lift _) fun _ =>
    .bind (.lift _) fun _ => .bind avoids_ensureCollection fun _ =>
      .bind (avoids_assignDocument ?_) fun _ => .pure _
  obtain ⟨i, rfl, -⟩ := validateDocumentId_ok.mp hi
  exact fun h => hid (congrArg PyVal.str (PyKey.str.inj h))

theorem avoids_storeInserts : ∀ {inserts : List (Uuid × PyVal)},
    Keeps NoReservedId (storeInserts cp collection inserts)
  | [] => .pure _
  | (uuid, _) :: _ =>
      .bind (.lift _) fun _ =>
        .bind (avoids_generated uuid) fun _ =>
          avoids_storeInserts

theorem avoids_bulkInsertDocuments {documents : PyVal} {uuids : Nat → Uuid} :
    Keeps NoReservedId (bulkInsertDocuments rt cp collection documents uuids) := by
  cases documents with
  | list documents =>
    exact .bind (.lift _) fun _ => .bind avoids_ensureCollection fun _ =>
      .bind avoids_storeInserts fun _ => .pure _
  | _ => exact .throw _

theorem avoids_applyUpdates : ∀ {pairs : List (PyVal × PyVal)},
    Keeps NoReservedId (applyUpdates cp collection pairs)
  | [] => .pure _
  | _ :: _ =>
      .bind_get fun _ hs => .bind_lift fun _ hd => .bind (.lift _) fun _ =>
        .bind (avoids_assignDocument (hs.found hd)) fun _ => avoids_applyUpdates

theorem avoids_bulkUpdateDocuments {updates : PyVal} :
    Keeps NoReservedId (bulkUpdateDocuments rt cp collection updates) := by
  cases updates with
  | list updates =>
    exact .bind_get fun _ _ => .bind (.lift _) fun _ => .bind (.lift _) fun _ =>
      .bind avoids_applyUpdates fun _ => .pure _
  | _ => exact .throw _

theorem OpCall.avoids {call : OpCall} (h : call.Avoids) : Keeps NoReservedId (call.run rt cp) := by
  cases call with
  | insert c d u => exact avoids_insertDocument
  | update c i u => exact avoids_updateDocument
  | replace c i d => exact avoids_replaceDocument
  | delete c i => exact avoids_deleteDocument
  | upsert c i d => exact avoids_upsertDocument h
  | bulkInsert c ds us => exact avoids_bulkInsertDocuments
  | bulkUpdate c us => exact avoids_bulkUpdateDocuments

end Avoid

/-! ## 3. What an operation writes -/

section

variable {rt : Runtime} {cp : Copier}

/-- What the writes keep, every body keeps, however it ends. -/
theorem TxBody.op_keeps {P : State → Prop}
    (hP : ∀ cp (call : OpCall), call.Avoids → Keeps P (call.run rt cp)) {body : TxBody}
    (h : body.Avoids) : Keeps P (body.op rt) := by
  intro s hs
  have hstep (c : TxCall) (s : State) (hc : c.Avoids) (hs : P s) : P (c.perform rt s).2 := by
    cases c with
    | read f => exact hs
    | write cp call =>
      have hk := (hP cp call hc).run hs
      cases hr : call.run rt cp s with
      | ok r s' =>
        rw [hr] at hk
        simpa only [TxCall.perform, hr] using hk
      | error e s' =>
        rw [hr] at hk
        simpa only [TxCall.perform, hr] using hk
  have hfits (_ : Unit) (c : TxCall) (s : State) (hc : c.Avoids) (hs : P s) :
      ∃ _ : Unit, True ∧ P (c.perform rt s).2 := ⟨(), trivial, hstep c s hc hs⟩
  obtain ⟨_, -, hend⟩ := Interaction.Conforms.exec hfits h hs
  unfold TxBody.op
  cases hr : body.exec (TxCall.perform rt) s with
  | mk r s' =>
    rw [hr] at hend
    cases r with
    | ok a => exact hend
    | error e => exact hend

/-- Every load of this content returns. -/
def Readable (rt : Runtime) (file : FileRead) : Prop := ∀ t, ∃ s, load rt t file = .ok s

/-- A state of a loaded file after some writes that avoid the reserved key. -/
structure Tidy (rt : Runtime) (base s : State) : Prop where
  rep : Rep rt base s
  free : NoReservedId s

theorem Loaded.tidy {base : State} (h : Loaded rt base) : Tidy rt base base :=
  ⟨h.rep, (h.rep.unreserved_iff h).mpr h.decoded.unreserved⟩

theorem OpCall.keeps_tidy {base : State} {call : OpCall} (h : call.Avoids) :
    Keeps (Tidy rt base) (call.run rt cp) := by
  intro s hs
  have hrep := (@OpCall.keeps rt cp base call).run hs.rep
  have hfree := (@OpCall.avoids rt cp call h).run hs.free
  cases hr : call.run rt cp s with
  | ok r s' =>
    rw [hr] at hrep hfree
    exact ⟨hrep, hfree⟩
  | error e s' =>
    rw [hr] at hrep hfree
    exact ⟨hrep, hfree⟩

/-- What is committed of such a state is read back. -/
theorem Tidy.readable {base s : State} (hb : Loaded rt base) (h : Tidy rt base s) {now : DateTime}
    {b : Bytes} (hc : commitBytes rt cp now s = .ok b) : Readable rt (.bytes b) := fun _ =>
  (h.rep.readable_iff hb hc).mpr h.free

/-- The state a function leaves that keeps this. -/
theorem Tidy.after {base s s' : State} (h : Tidy rt base s) {op : Op PyVal}
    (hop : Keeps (Tidy rt base) op) {r : PyVal} (hr : Op.result op s = .ok (r, s')) :
    Tidy rt base s' := by
  have hk := hop.run h
  rw [show op s = _ from Op.result_iff.mp hr] at hk
  exact hk

/-- The bytes of a commit of such a state. -/
def Saved (rt : Runtime) (cp : Copier) (s : State) (data : Bytes) : Prop :=
  ∃ base now, Loaded rt base ∧ Tidy rt base s ∧ commitBytes rt cp now s = .ok data

theorem Saved.readable {s : State} {data : Bytes} (h : Saved rt cp s data) :
    Readable rt (.bytes data) := by
  obtain ⟨base, now, hb, ht, hc⟩ := h
  exact ht.readable hb hc

/-- The content an operation starts from: `init` starts from nothing. -/
def Job.source (file : Option Bytes) : Job → Option Bytes
  | .createEmpty _ => none
  | _ => file

/-- **An operation of the API** commits such a state of what it started from. -/
theorem Job.Library.commitsAt {job : Job} (h : job.Library rt) {file : Option Bytes} {data : Bytes}
    {now : DateTime} (hc : job.CommitsAt rt cp file now data) : ∃ t base s,
      JsonDatabase.load rt t (onDisk (job.source file)) = .ok base ∧ Tidy rt base s ∧
        commitBytes rt cp now s = .ok data := by
  cases h with
  | write hcall =>
    obtain ⟨t, state, r, state', hload, hr, hbytes⟩ := hc
    have hb := load_loaded hload
    exact ⟨t, state, state', hload, hb.tidy.after (OpCall.keeps_tidy hcall) hr, hbytes⟩
  | init force =>
    obtain ⟨-, t, state, hmake, hbytes⟩ := hc
    have hb : Loaded rt state := @load_loaded rt t .missing state hmake
    exact ⟨t, state, state, hmake, hb.tidy, hbytes⟩
  | transaction hbody =>
    obtain ⟨t, loaded, state, r, state', hload, hcopy, hr, hbytes⟩ := hc
    have hb := load_loaded hload
    obtain ⟨-, e⟩ := copyDict_ok.mp hcopy
    obtain rfl := PyVal.dict.inj e
    have hkeeps : Keeps (Tidy rt loaded) _ := TxBody.op_keeps (fun _ _ => OpCall.keeps_tidy) hbody
    exact ⟨t, loaded, state', hload, hb.tidy.after hkeeps hr, hbytes⟩
  | load => exact hc.elim

theorem Job.Library.commits {job : Job} (h : job.Library rt) {file : Option Bytes} {data : Bytes}
    (hc : job.Commits rt cp file data) : ∃ t now base s,
      JsonDatabase.load rt t (onDisk (job.source file)) = .ok base ∧ Tidy rt base s ∧
        commitBytes rt cp now s = .ok data := by
  obtain ⟨now, hc⟩ := hc
  obtain ⟨t, base, s, hcommits⟩ := h.commitsAt hc
  exact ⟨t, now, base, s, hcommits⟩

theorem Job.Library.saved {job : Job} (h : job.Library rt) {file : Option Bytes} {data : Bytes}
    (hc : job.Commits rt cp file data) : ∃ s, Saved rt cp s data := by
  obtain ⟨t, now, base, s, hload, ht, hbytes⟩ := h.commits hc
  exact ⟨s, base, now, load_loaded hload, ht, hbytes⟩

end

/-! ## 4. Clients that use nothing but the API -/

namespace System

/-- The systems that steps lead to when only such operations are started. -/
inductive Runs (rt : Runtime) (cp : Copier) (allowed : Job → Prop) (s₀ : System) : System → Prop
  | start : Runs rt cp allowed s₀ s₀
  | step {s s' : System} : Runs rt cp allowed s₀ s → Step rt cp s s' →
      (∀ i run, s'.clients i = some run → allowed run.job) → Runs rt cp allowed s₀ s'

variable {rt : Runtime} {cp : Copier} {allowed : Job → Prop} {file : Option Bytes}
  {s₀ s s' : System}

theorem Runs.reachable (h : Runs rt cp allowed s₀ s) : Reachable rt cp s₀ s := by
  induction h with
  | start => exact .start
  | step _ hs _ ih => exact ih.step hs

/-- A commit is made by an operation that is running. -/
theorem Step.log (hs : Step rt cp s s') {P : Job → Prop} (hlog : ∀ c ∈ s.log, P c.job)
    (hrun : ∀ i run, s.clients i = some run → P run.job) : ∀ c ∈ s'.log, P c.job := by
  cases hs with
  | start i cfg job _ => exact hlog
  | finish _ _ => exact hlog
  | crash i => exact hlog
  | @call i run c k r w' hi hrest ha =>
    intro commit hc
    have hcases : commit ∈ s.log ∨ commit.job = run.job := by
      have hc : commit ∈ s.logAfter run c r := hc
      unfold logAfter at hc
      split at hc
      · rcases List.mem_append.mp hc with hc | hc
        · exact Or.inl hc
        · exact Or.inr (congrArg Commit.job (List.mem_singleton.mp hc))
      · exact Or.inl hc
    rcases hcases with hc | hc
    · exact hlog commit hc
    · rw [hc]
      exact hrun i run hi

/-- Every commit of such a run was made by such an operation. -/
theorem Runs.log (h : Runs rt cp allowed (.start file) s) :
    (∀ c ∈ s.log, allowed c.job) ∧ ∀ i run, s.clients i = some run → allowed run.job := by
  induction h with
  | start => exact ⟨nofun, nofun⟩
  | step _ hs hnew ih => exact ⟨hs.log ih.1 ih.2, hnew⟩

/-- A client runs after a move what it ran before, or what the move has started. -/
theorem move_clients {cfg : Settings} {env : Env} {m : Move} {j : Nat} {run : Running}
    (hj : (s.move rt cp cfg env m).clients j = some run) :
    (∃ run', s.clients j = some run' ∧ run'.job = run.job) ∨ ∃ i, m = .start i run.job := by
  have same (h : s.clients j = some run) :
      (∃ run', s.clients j = some run' ∧ run'.job = run.job) ∨ ∃ i, m = .start i run.job :=
    Or.inl ⟨run, h, rfl⟩
  cases m with
  | start i job =>
    simp only [move] at hj
    split at hj
    · exact same hj
    · rcases update_some hj with ⟨-, hv⟩ | ⟨-, hj⟩
      · cases hv
        exact Or.inr ⟨i, rfl⟩
      · exact same hj
  | call i =>
    simp only [move] at hj
    split at hj
    · exact same hj
    · next run' hi =>
      split at hj
      · exact same hj
      · rcases update_some hj with ⟨rfl, hv⟩ | ⟨-, hj⟩
        · cases hv
          exact Or.inl ⟨run', hi, rfl⟩
        · exact same hj
  | finish i =>
    simp only [move] at hj
    split at hj
    · exact same hj
    · split at hj
      · exact same hj
      · rcases update_some hj with ⟨-, hv⟩ | ⟨-, hj⟩
        · cases hv
        · exact same hj
  | crash i =>
    rcases update_some hj with ⟨-, hv⟩ | ⟨-, hj⟩
    · cases hv
    · exact same hj

/-- **Whatever is played can happen**, and starts nothing but what the moves start. -/
theorem Runs.play {cfg : Settings} {env : Env} {moves : List Move} (h : Runs rt cp allowed s₀ s)
    (hnow : ∀ j run, s.clients j = some run → allowed run.job)
    (hmoves : ∀ i job, Move.start i job ∈ moves → allowed job) :
    Runs rt cp allowed s₀ (s.play rt cp cfg env moves) := by
  induction moves generalizing s with
  | nil => exact h
  | cons m ms ih =>
    have hnow' (j run) (hj : (s.move rt cp cfg env m).clients j = some run) : allowed run.job := by
      rcases move_clients hj with ⟨run', hrun, hjob⟩ | ⟨i, rfl⟩
      · exact hjob ▸ hnow j run' hrun
      · exact hmoves i _ List.mem_cons_self
    refine ih ?_ hnow' fun i job hm => hmoves i job (List.mem_cons_of_mem _ hm)
    rcases @move_step rt cp cfg env s m with he | hs
    · exact he.symm ▸ h
    · exact h.step hs hnow'

end System

/-! ## 5. Every interleaving -/

/-- A file that can be read, or none. -/
theorem readable_missing (rt : Runtime) : Readable rt .missing := fun t => makeEmptyState_isOk rt t

/-- **What holds of the first content and of every commit of the API** holds at every moment. -/
theorem replay_all {rt : Runtime} {cp : Copier} {file : Option Bytes} {log : List Commit}
    {P : Option Bytes → Prop} (h : Replay rt cp file log) (hjobs : ∀ c ∈ log, c.job.Library rt)
    (hfile : P file) (hsaved : ∀ s data, Saved rt cp s data → P (some data)) :
    ∀ n, P (fileAfter file (log.take n)) := by
  induction h with
  | nil =>
    intro n
    rw [List.take_nil]
    exact hfile
  | @snoc log c hlog hc ih =>
    intro n
    by_cases hn : n ≤ log.length
    · rw [List.take_append_of_le_length hn]
      exact ih (fun c hc => hjobs c (List.mem_append_left _ hc)) n
    · have hall : (log ++ [c]).length ≤ n := by
        rw [List.length_append]
        exact Nat.lt_of_not_le hn
      rw [List.take_of_length_le hall, fileAfter_snoc]
      have hmem := List.mem_append_right log (List.mem_singleton.mpr (rfl : c = c))
      obtain ⟨state, hs⟩ := (hjobs c hmem).saved hc
      exact hsaved state _ hs

/-- What `check_integrity` says of a content that can be read. -/
theorem Readable.checkIntegrity {rt : Runtime} {raw : Bytes} (h : Readable rt (.bytes raw))
    (t : DateTime) : ∃ report, checkIntegrity rt t (.bytes raw) = .ok report ∧ report.ok = true ∧
      report.status = .ok := by
  obtain ⟨s, hs⟩ := h t
  refine ⟨⟨true, .ok, [.text "integrity check passed"], none, none⟩, ?_, rfl, rfl⟩
  unfold JsonDatabase.checkIntegrity
  simp only [hs]

/-- Every content that the path has had can be read. -/
theorem System.Runs.readable {rt : Runtime} {cp : Copier} {file : Option Bytes} {s : System}
    (h : System.Runs rt cp (Job.Library rt) (.start file) s) (hfile : Readable rt (onDisk file)) :
    ∀ n, Readable rt (onDisk (fileAfter file (s.log.take n))) :=
  replay_all (P := fun content => Readable rt (onDisk content)) (reachable_inv h.reachable).replay h.log.1
    hfile fun _ _ hs => hs.readable

/-- **The file is healthy in every interleaving**: if there was no file, or one that can be read, and
    the clients start nothing but operations of the API that avoid the reserved key, then whatever
    they did and where they crashed, every content that the path has had can be read, and
    `check_integrity` finds the file in order at any moment, or finds none because nothing has been
    committed. -/
theorem always_healthy {rt : Runtime} {cp : Copier} {file : Option Bytes} {s : System}
    (h : System.Runs rt cp (Job.Library rt) (.start file) s) (hfile : Readable rt (onDisk file)) :
    (∀ n, Readable rt (onDisk (fileAfter file (s.log.take n)))) ∧
    ∀ t, ∃ report, checkIntegrity rt t (onDisk s.world.file) = .ok report ∧
      (report.status = .ok ∧ report.ok = true ∧ s.world.file.isSome = true ∨
        report.status = .missing ∧ s.world.file = none ∧ file = none ∧ s.log = []) := by
  have hcurrent := (reachable_inv h.reachable).current
  refine ⟨h.readable hfile, fun t => ?_⟩
  have hnow := h.readable hfile s.log.length
  rw [List.take_length, ← hcurrent] at hnow
  cases hf : s.world.file with
  | none =>
    obtain ⟨hlog, hnone⟩ := fileAfter_eq_none (hcurrent.symm.trans hf)
    exact ⟨_, rfl, Or.inr ⟨rfl, rfl, hnone, hlog⟩⟩
  | some raw =>
    rw [hf] at hnow
    obtain ⟨report, hr, hok, hstatus⟩ := hnow.checkIntegrity t
    exact ⟨report, hr, Or.inl ⟨hstatus, hok, rfl⟩⟩

/-- The two clients use nothing but the API, and avoid the reserved key. -/
theorem twoClients_library {i : Nat} {job : Job} (hm : .start i job ∈ twoClients) :
    job.Library interpreter := by
  simp only [twoClients, whole, List.mem_append, List.mem_cons, List.mem_replicate, Move.start.injEq,
    List.not_mem_nil, reduceCtorEq, and_false, or_false, false_or] at hm
  obtain (((⟨-, rfl⟩ | ⟨-, rfl⟩) | ⟨-, rfl⟩) | ⟨-, rfl⟩) | ⟨-, rfl⟩ := hm
  · exact .init false
  · exact .load
  · exact @Job.Library.write _ _ insertTagged trivial
  · exact @Job.Library.write _ _ (insertName (lit "Ava")) trivial
  · exact .load

theorem afterTwoClients_runs :
    System.Runs interpreter .total (Job.Library interpreter) (.start none) afterTwoClients :=
  System.Runs.start.play nofun fun _ _ => twoClients_library

/-- Two clients, three commits and two documents. -/
theorem two_clients_healthy : ∃ s,
    System.Runs interpreter .total (Job.Library interpreter) (.start none) s ∧
    s.log.length = 3 ∧ (∀ n, Readable interpreter (onDisk (fileAfter none (s.log.take n)))) ∧
    ∀ t, ∃ report, checkIntegrity interpreter t (onDisk s.world.file) = .ok report ∧
      report.ok = true := by
  obtain ⟨hall, hnow⟩ := always_healthy afterTwoClients_runs (readable_missing interpreter)
  have hlog : afterTwoClients.log.length = 3 := by
    obtain ⟨c₀, c₁, c₂, hlog, -⟩ := afterTwoClients_log
    rw [hlog]
    rfl
  refine ⟨_, afterTwoClients_runs, hlog, hall, fun t => ?_⟩
  obtain ⟨report, hr, ⟨-, hok, -⟩ | ⟨-, -, -, hnil⟩⟩ := hnow t
  · exact ⟨report, hr, hok⟩
  · rw [hnil] at hlog
    cases hlog

end JsonDatabase
