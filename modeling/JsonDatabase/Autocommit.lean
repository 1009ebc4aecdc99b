/-
  File:      JsonDatabase/Autocommit.lean
  Subject:   A transaction and the same operations one at a time.

  In autocommit mode every operation loads the file, changes what it loaded and commits. In a
  transaction all operations change one copy in memory, and what they make of it is committed
  once.

  * `autocommitAll`, `transaction` -- the two ways to run a sequence of writes;
  * `Follows`, `follows_step` -- the state in memory follows the file on disk;
  * `transaction_equals_autocommit` -- what returns in autocommit mode returns in a transaction.
-/
import JsonDatabase.Alike

namespace JsonDatabase

open PyVal hiding none

/-! ## 1. The two ways -/

/-- A call on a state: what it returns and the state it leaves, if it returns. -/
def OpCall.result (rt : Runtime) (cp : Copier) (call : OpCall) (s : State) :
    Except PyExc (PyVal × State) :=
  Op.result (call.run rt cp) s

/-- A call in autocommit mode, with the times of its load and of its commit. -/
structure Timed where
  call : OpCall
  loaded : DateTime
  committed : DateTime

/-- `StorageEngine.update` with the call as its mutator. -/
def autocommit (rt : Runtime) (step : Timed) (file : FileRead) :
    Except PyExc (PyVal × FileRead) := do
  let state ← load rt step.loaded file
  let (r, state) ← step.call.result rt .total state
  let b ← commitBytes rt .total step.committed state
  return (r, .bytes b)

def autocommitAll (rt : Runtime) : List Timed → FileRead → Except PyExc (List PyVal × FileRead)
  | [], file => .ok ([], file)
  | step :: steps, file => do
    let (r, file) ← autocommit rt step file
    let (rs, file) ← autocommitAll rt steps file
    return (r :: rs, file)

/-- The calls one after another on one state. -/
def callAll (rt : Runtime) : List OpCall → State → Except PyExc (List PyVal × State)
  | [], s => .ok ([], s)
  | call :: calls, s => do
    let (r, s) ← call.result rt .total s
    let (rs, s) ← callAll rt calls s
    return (r :: rs, s)

/-- `Transaction.__enter__` at `entered`, the calls, and a clean `__exit__` at `committed`. -/
def transaction (rt : Runtime) (entered committed : DateTime) (calls : List OpCall)
    (file : FileRead) : Except PyExc (List PyVal × FileRead) := do
  let loaded ← load rt entered file
  let state ← copyDict .total (.dict loaded)
  let (rs, state) ← callAll rt calls state
  let b ← commitBytes rt .total committed state
  return (rs, .bytes b)

theorem result_ok {rt : Runtime} {cp : Copier} {call : OpCall} {s s' : State} {r : PyVal} :
    call.result rt cp s = .ok (r, s') ↔ call.run rt cp s = .ok r s' := by
  unfold OpCall.result Op.result
  cases call.run rt cp s with
  | ok r' s'' => simp
  | error e s'' => simp

theorem autocommit_ok {rt : Runtime} {step : Timed} {file file' : FileRead} {r : PyVal} :
    autocommit rt step file = .ok (r, file') ↔ ∃ w w' b, load rt step.loaded file = .ok w ∧
      step.call.run rt .total w = .ok r w' ∧ commitBytes rt .total step.committed w' = .ok b ∧
        file' = .bytes b := by
  unfold autocommit
  simp only [bind_ok, Prod.exists, result_ok]
  constructor
  · intro h
    obtain ⟨w, hw, r', w', hr, b, hb, e⟩ := h
    cases e
    exact ⟨w, w', b, hw, hr, hb, rfl⟩
  · intro h
    obtain ⟨w, w', b, hw, hr, hb, rfl⟩ := h
    exact ⟨w, hw, r, w', hr, b, hb, rfl⟩

/-! ## 2. What passes between parallel states -/

theorem AlikeDicts.symm {c d : PyDict} (h : AlikeDicts c d) : AlikeDicts d c :=
  ⟨h.right, h.left, h.alike.symm⟩

theorem AlikeDicts.trans {c d e : PyDict} (h : AlikeDicts c d) (h' : AlikeDicts d e) :
    AlikeDicts c e := ⟨h.left, h'.right, h.alike.trans h'.alike⟩

theorem Parallel.symm {s t : State} (h : Parallel s t) : Parallel t s := by
  obtain ⟨c, d, hc, hd, ha⟩ := h
  exact ⟨d, c, hd, hc, ha.symm⟩

theorem Parallel.trans {s t u : State} (h : Parallel s t) (h' : Parallel t u) : Parallel s u := by
  obtain ⟨c, d, hc, hd, ha⟩ := h
  obtain ⟨d', e, hd', he, ha'⟩ := h'
  obtain rfl : d = d' := PyVal.dict.inj (Option.some.inj (hd.symm.trans hd'))
  exact ⟨c, e, hc, he, ha.trans ha'⟩

theorem orderFree_localClean : OrderFree localClean where
  dict h hd k hk := hd k (h.mem_iff.mpr hk)
  set _ _ := trivial
  list _ := trivial
  tuple _ := trivial

/-- Reading back makes nothing clean or unclean. -/
theorem clean_stored {v : PyVal} : clean (stored v) ↔ clean v := by
  induction v using PyVal.induct with
  | list xs ih =>
    simp only [stored_list, clean, everywhere_list, List.forall_mem_map]
    exact and_congr_right fun _ => forall₂_congr ih
  | tuple xs ih =>
    simp only [stored_tuple, clean, everywhere_list, everywhere_tuple, List.forall_mem_map]
    exact and_congr_right fun _ => forall₂_congr ih
  | dict kvs ih =>
    simp only [stored_dict, clean_dict, List.forall_mem_map]
    exact forall₂_congr fun kv hkv => and_congr_right fun _ => ih kv.1 kv.2 hkv
  | _ => exact Iff.rfl

theorem Alike.clean_iff {v w : PyVal} (h : Alike v w) : clean v ↔ clean w := by
  rw [← @clean_stored v, ← @clean_stored w]
  exact Same.everywhere orderFree_localClean h

theorem Parallel.cleanDocuments {rt : Runtime} {base base' s t : State}
    (hs : Rep rt base s) (hb' : Loaded rt base') (ht : Rep rt base' t) (h : Parallel s t)
    (hc : CleanDocuments t) : CleanDocuments s := by
  obtain ⟨c, d, hc', hd, ha⟩ := h
  obtain ⟨c₀, hg, hgood⟩ := hs.collections
  obtain rfl : c = c₀ := PyVal.dict.inj (Option.some.inj (hc'.symm.trans hg))
  have hd := ha.alike.clean_iff.mpr (putClosed_clean.get ((ht.cleanDocuments_iff hb').mp hc) hd)
  intro c' name docs id document hget hn hm
  obtain rfl : c = c' := PyVal.dict.inj (Option.some.inj (hc'.symm.trans hget))
  exact hgood.clean_iff.mp hd name docs id document hn hm

theorem Parallel.noReservedId {s t : State} (h : Parallel s t) (ht : NoReservedId t) :
    NoReservedId s := by
  obtain ⟨c, d, hc, hd, ha⟩ := h
  intro c' name docs hget hn
  obtain rfl : c = c' := PyVal.dict.inj (Option.some.inj (hc.symm.trans hget))
  obtain ⟨docs', hdocs, ha'⟩ := ha.symm.get (Dict.get_of_mem ha.distinct hn)
  rw [← ha'.alike.contains ha'.distinct]
  exact ht d name docs' hd (Dict.mem_of_get hdocs)

/-- What two loads of one file return. -/
theorem load_parallel {rt : Runtime} {t t' : DateTime} {file : FileRead} {s s' : State}
    (h : load rt t file = .ok s) (h' : load rt t' file = .ok s') : Parallel s s' := by
  have refl {s : State} (h : Loaded rt s) : Parallel s s := by
    obtain ⟨fields, c, hs⟩ := h.shape
    have hw := putClosed_wf.get h.decoded.wf hs.collectionsIs
    exact ⟨c, c, hs.collectionsIs, hs.collectionsIs, hw, hw, .refl _⟩
  cases file with
  | missing =>
    obtain ⟨d, -, rfl⟩ := makeEmptyState_ok.mp h
    obtain ⟨d', -, rfl⟩ := makeEmptyState_ok.mp h'
    exact ⟨[], [], rfl, rfl, wf_empty, wf_empty, .refl _⟩
  | unreadable => cases h
  | bytes raw =>
    obtain rfl : s = s' := Except.ok.inj (h.symm.trans h')
    exact refl (load_loaded h)

/-! ## 3. The text of the collections -/

/-- The collections as they stand in the text of a file. -/
def collectionsText (rt : Runtime) (raw : Bytes) : Option Json :=
  match parseBytes rt raw with
  | .ok (.obj fields) => Dict.get fields (lit "collections")
  | _ => none

theorem Rep.collectionsText {rt : Runtime} {cp : Copier} {base s : State} (hb : Loaded rt base)
    (h : Rep rt base s) {now : DateTime} {b : Bytes} (hc : commitBytes rt cp now s = .ok b) :
    ∃ c j, Dict.get s COLLECTIONS = some (.dict c) ∧ collectionsText rt b = some j ∧
      j.scalar = true ∧ Encodes rt (stored (.dict c)) j := by
  obtain ⟨p, hp, hdump⟩ := bind_ok.mp hc
  obtain ⟨fields, c, hs, hg⟩ := h.shape hb
  obtain ⟨-, d, hd, rfl⟩ := (prepareForCommit_ok hs).mp hp
  obtain ⟨e, he, hj, hsc, rfl⟩ := dumpBytes_ok.mp hdump
  have hpw := putClosed_wf.prepared (h.wf hb) hs.metaIs now (computeChecksum_ascii hd)
  have hparse := @parseBytes_textBytes rt indented _
    (Json.distinct_sortKeys (distinct_encode hpw he)) (by rw [Json.dumpable_sortKeys, hj])
    (by rw [Json.scalar_sortKeys, hsc])
  obtain ⟨es, y, hes, hy, hget⟩ := get_sorted hpw he (prepared_collections.trans hs.collectionsIs)
  have hes' : (Json.obj es).scalar = true := by rw [← hes, Json.scalar_sortKeys, hsc]
  refine ⟨c, Json.sortKeys y, hs.collectionsIs, ?_,
    (Json.scalar_obj.mp hes' _ _ (Dict.mem_of_get hget)).2, wf_stored hg.wf, y, ?_, rfl⟩
  · rw [JsonDatabase.collectionsText, hparse, hes]
    exact hget
  · rw [encode_stored, hy]

theorem Encodes.unique {rt : Runtime} {v : PyVal} {j j' : Json} (h : Encodes rt v j)
    (h' : Encodes rt v j') : j = j' := by
  obtain ⟨-, e, he, rfl⟩ := h
  obtain ⟨-, e', he', rfl⟩ := h'
  rw [Except.ok.inj (he.symm.trans he')]

/-- **Commits of parallel states write the same collections.** -/
theorem Parallel.collectionsText {rt : Runtime} {cp : Copier} {base base' s t : State}
    (hb : Loaded rt base) (hs : Rep rt base s) (hb' : Loaded rt base') (ht : Rep rt base' t)
    (h : Parallel s t)
    {now now' : DateTime} {b b' : Bytes} (hc : commitBytes rt cp now s = .ok b)
    (hc' : commitBytes rt cp now' t = .ok b') : collectionsText rt b = collectionsText rt b' := by
  obtain ⟨c, d, hsc, htd, ha⟩ := h
  obtain ⟨c', j, hsc', hj, hsj, he⟩ := hs.collectionsText hb hc
  obtain ⟨d', j', htd', hj', hsj', he'⟩ := ht.collectionsText hb' hc'
  obtain rfl : c = c' := PyVal.dict.inj (Option.some.inj (hsc.symm.trans hsc'))
  obtain rfl : d = d' := PyVal.dict.inj (Option.some.inj (htd.symm.trans htd'))
  rw [hj, hj', he.unique ((Same.encodes ha.alike (Json.unsplit_of_scalar hsj')).mpr he')]

/-! ## 4. The state in memory follows the file -/

/-- A commit of a parallel state has written the file. -/
def Written (rt : Runtime) (s : State) (file : FileRead) : Prop :=
  ∃ base w now b, Loaded rt base ∧ Rep rt base w ∧ commitBytes rt .total now w = .ok b ∧
    file = .bytes b ∧ Parallel s w

/-- The file was accepted as it stood, or it has been written. -/
inductive Holds (rt : Runtime) (s : State) (file : FileRead) : Prop where
  | accepted (readable : ∀ t, ∃ w, load rt t file = .ok w)
      (reads : ∀ t w, load rt t file = .ok w → Parallel s w) (free : NoReservedId s)
  | written (h : Written rt s file)

theorem Holds.parallel {rt : Runtime} {s : State} {file : FileRead} (h : Holds rt s file)
    {t : DateTime} {w : State} (hw : load rt t file = .ok w) : Parallel s w := by
  cases h with
  | accepted _ reads _ => exact reads t w hw
  | written h =>
    obtain ⟨base, w', now, b, hb, hr, hc, rfl, hp⟩ := h
    exact hp.trans (hr.parallel_read_back hb hc hw)

theorem Rep.readable_iff {rt : Runtime} {cp : Copier} {base s : State} (hb : Loaded rt base)
    (h : Rep rt base s) {now : DateTime} {b : Bytes} (hc : commitBytes rt cp now s = .ok b) :
    (∃ w, loadBytes rt b = .ok w) ↔ NoReservedId s := by
  obtain ⟨p, hp, hdump⟩ := bind_ok.mp hc
  constructor
  · intro hw
    obtain ⟨w, hw⟩ := hw
    exact h.noReservedId_of_load hb hp hdump hw
  · intro hn
    obtain ⟨w, hw, -⟩ := h.load_commit hb hn hp hdump
    exact ⟨w, hw⟩

/-- The file can be read iff no document of the state is under the reserved key. -/
theorem Holds.readable_iff {rt : Runtime} {s : State} {file : FileRead} (h : Holds rt s file)
    (t : DateTime) : (∃ w, load rt t file = .ok w) ↔ NoReservedId s := by
  cases h with
  | accepted readable _ free => exact iff_of_true (readable t) free
  | written h =>
    obtain ⟨base, w, now, b, hb, hr, hc, rfl, hp⟩ := h
    exact (hr.readable_iff hb hc).trans ⟨hp.noReservedId, hp.symm.noReservedId⟩

/-- A transaction's state against the file autocommit mode has made. -/
structure Follows (rt : Runtime) (base s : State) (file : FileRead) : Prop where
  rep : Rep rt base s
  clean : CleanDocuments s
  holds : Holds rt s file

theorem follows_start {rt : Runtime} {t : DateTime} {file : FileRead} {base : State}
    (h : load rt t file = .ok base) : Follows rt base base file := by
  have hb := load_loaded h
  refine ⟨hb.rep, (hb.rep.cleanDocuments_iff hb).mpr hb.storable.2, .accepted (fun t' => ?_)
    (fun t' w hw => load_parallel h hw) ((hb.rep.unreserved_iff hb).mpr hb.decoded.unreserved)⟩
  cases file with
  | missing => exact makeEmptyState_isOk rt t'
  | unreadable => cases h
  | bytes raw => exact ⟨base, h⟩

/-- **One operation**: where it returns in autocommit mode it returns in the transaction. -/
theorem follows_step {rt : Runtime} {base s : State} {file file' : FileRead}
    (h : Follows rt base s file) {step : Timed} {r : PyVal}
    (hstep : autocommit rt step file = .ok (r, file')) :
    ∃ r' s', step.call.result rt .total s = .ok (r', s') ∧ Alike r' r ∧
      Follows rt base s' file' ∧ Written rt s' file' := by
  obtain ⟨w, w', b, hw, hr, hc, rfl⟩ := autocommit_ok.mp hstep
  have hbw := load_loaded hw
  obtain ⟨r', s', hr', ha, hp⟩ := step.call.lockstep s w (h.holds.parallel hw) r w' hr
  have hs' := (@OpCall.keeps rt .total base step.call).run h.rep
  rw [hr'] at hs'
  have hw' := (@OpCall.keeps rt .total w step.call).run hbw.rep
  rw [hr] at hw'
  have hclean := ((hw'.commitBytes_isOk hbw .total step.committed).mp ⟨b, hc⟩).1
  have hwritten : Written rt s' (.bytes b) := ⟨w, w', step.committed, b, hbw, hw', hc, rfl, hp⟩
  exact ⟨r', s', result_ok.mpr hr', ha,
    ⟨hs', hp.cleanDocuments hs' hbw hw' hclean, .written hwritten⟩, hwritten⟩

/-- All operations, by induction on the sequence. -/
theorem follows_run {rt : Runtime} {base : State} : ∀ {steps : List Timed}
    {s : State} {file file' : FileRead} {rs : List PyVal}, Follows rt base s file →
      autocommitAll rt steps file = .ok (rs, file') →
      ∃ rs' s', callAll rt (steps.map (·.call)) s = .ok (rs', s') ∧ List.Forall₂ Alike rs' rs ∧
        Follows rt base s' file' ∧ (steps ≠ [] → Written rt s' file')
  | [], s, file, file', rs, h, hrun => by
      cases hrun
      exact ⟨[], s, rfl, .nil, h, fun h => absurd rfl h⟩
  | step :: steps, s, file, file', rs, h, hrun => by
      obtain ⟨⟨r, f⟩, hstep, hrun⟩ := bind_ok.mp hrun
      obtain ⟨⟨rs₁, f'⟩, hrest, hrun⟩ := bind_ok.mp hrun
      cases hrun
      obtain ⟨r', s₁, hr, ha, hf, hwritten⟩ := follows_step h hstep
      obtain ⟨rs', s', hrs, has, hf', hw⟩ := follows_run hf hrest
      refine ⟨r' :: rs', s', bind_ok.mpr ⟨_, hr, bind_ok.mpr ⟨_, hrs, rfl⟩⟩, .cons ha has, hf',
        fun _ => ?_⟩
      by_cases hs : steps = []
      · subst hs
        cases hrest
        cases hrs
        exact hwritten
      · exact hw hs

/-! ## 5. The result -/

/-- The same collections in two files: both are readable or neither is, and what is read of them
    maps the same names and identifiers to the same documents. -/
structure SameOnDisk (rt : Runtime) (file file' : FileRead) : Prop where
  readable : ∀ t t', (∃ w, load rt t file = .ok w) ↔ ∃ w, load rt t' file' = .ok w
  collections : ∀ t t' w w', load rt t file = .ok w → load rt t' file' = .ok w' →
    ∃ c c', Dict.get w COLLECTIONS = some (.dict c) ∧ Dict.get w' COLLECTIONS = some (.dict c') ∧
      Same (.dict c) (.dict c')

theorem Parallel.same {rt : Runtime} {s t : State} (hs : Loaded rt s) (ht : Loaded rt t)
    (h : Parallel s t) : ∃ c c', Dict.get s COLLECTIONS = some (.dict c) ∧
      Dict.get t COLLECTIONS = some (.dict c') ∧ Same (.dict c) (.dict c') := by
  obtain ⟨c, d, hc, hd, ha⟩ := h
  have h := ha.alike
  rw [Alike, putClosed_stored.get hs.decoded.stored hc,
    putClosed_stored.get ht.decoded.stored hd] at h
  exact ⟨c, d, hc, hd, h⟩

theorem Holds.sameOnDisk {rt : Runtime} {s : State} {file file' : FileRead} (h : Holds rt s file)
    (h' : Holds rt s file') : SameOnDisk rt file file' where
  readable t t' := (h.readable_iff t).trans (h'.readable_iff t').symm
  collections _ _ _ _ hw hw' := ((h.parallel hw).symm.trans (h'.parallel hw')).same
    (load_loaded hw) (load_loaded hw')

/-- **A transaction equals the same operations in autocommit mode**: where every call returns in
    autocommit mode, the transaction returns and commits, its calls return values that are alike,
    and the collections on disk are the same. -/
theorem transaction_equals_autocommit (rt : Runtime) (file : FileRead) (entered committed : DateTime)
    (base : State) (hload : load rt entered file = .ok base) (steps : List Timed) (rs : List PyVal)
    (file' : FileRead) (hauto : autocommitAll rt steps file = .ok (rs, file')) :
    ∃ rs' b, transaction rt entered committed (steps.map (·.call)) file = .ok (rs', .bytes b) ∧
      List.Forall₂ Alike rs' rs ∧ SameOnDisk rt file' (.bytes b) ∧
      (steps ≠ [] → ∃ raw, file' = .bytes raw ∧ collectionsText rt raw = collectionsText rt b) := by
  have hb := load_loaded hload
  obtain ⟨rs', s, hrun, ha, hf, hwritten⟩ := follows_run (follows_start hload) hauto
  obtain ⟨b, hc⟩ := (hf.rep.commitBytes_isOk hb .total committed).mpr ⟨hf.clean, .total _ _⟩
  have hself : Parallel s s := by
    obtain ⟨c, hc, hg⟩ := hf.rep.collections
    exact ⟨c, c, hc, hc, hg.wf, hg.wf, .refl _⟩
  refine ⟨rs', b, bind_ok.mpr ⟨base, hload, bind_ok.mpr ⟨base, copyDict_ok.mpr ⟨rfl, rfl⟩,
    bind_ok.mpr ⟨_, hrun, bind_ok.mpr ⟨b, hc, rfl⟩⟩⟩⟩, ha,
    hf.holds.sameOnDisk (.written ⟨base, s, committed, b, hb, hf.rep, hc, rfl, hself⟩),
    fun hs => ?_⟩
  obtain ⟨base', w, now', raw, hb', hw, hc', rfl, hp⟩ := hwritten hs
  exact ⟨raw, rfl, hp.symm.collectionsText hb' hw hb hf.rep hc' hc⟩

/-- A document with a tuple is stored and updated, and a second one is inserted. -/
def tupleThenMore : List OpCall :=
  [insertTagged, .update (.str (lit "users")) (.str (Uuid.text ⟨1⟩))
    (.field (lit "name") (lit "Cy")), insertName (lit "Ava")]

/-- Three operations both ways: the second reads from the file what the first has stored. -/
theorem tuple_both_ways : ∃ rs file' rs' b,
    autocommitAll interpreter (tupleThenMore.map fun call => ⟨call, epoch, epoch⟩) .missing =
      .ok (rs, file') ∧
    transaction interpreter epoch epoch tupleThenMore .missing = .ok (rs', .bytes b) ∧
    List.Forall₂ Alike rs' rs ∧ SameOnDisk interpreter file' (.bytes b) := by
  have hok : (autocommitAll interpreter (tupleThenMore.map fun call => ⟨call, epoch, epoch⟩)
      .missing).isOk = true := by decide +kernel
  obtain ⟨d, -, hload⟩ := loaded_empty interpreter epoch
  cases hauto : autocommitAll interpreter (tupleThenMore.map fun call => ⟨call, epoch, epoch⟩)
      .missing with
  | error e =>
    rw [hauto] at hok
    cases hok
  | ok r =>
    obtain ⟨rs, file'⟩ := r
    obtain ⟨rs', b, htx, ha, hsame, -⟩ := transaction_equals_autocommit interpreter .missing epoch
      epoch _ hload _ rs file' hauto
    exact ⟨rs, file', rs', b, rfl, htx, ha, hsame⟩

end JsonDatabase
