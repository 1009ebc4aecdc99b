/-
  File:      JsonDatabase/Durability.lean
  Subject:   What can be committed, what is read after a commit, and what a checksum fixes.

  * `commit_succeeds` -- a reachable state is committed iff its documents are clean and it can be
    copied;
  * `commit_then_load` -- what was committed is read back iff no document is stored under the
    reserved key;
  * `tamper_detection` -- two accepted files with one checksum hold the same state.
-/
import JsonDatabase.RoundTrip
import JsonDatabase.Writable
import JsonDatabase.Interpreter

namespace JsonDatabase

open PyVal hiding none

/-! ## 1. One document -/

/-- The empty state with these documents in `users`. -/
def usersOnly (now : DateTime) (d : PyVal) (docs : PyDict) : State :=
  [(META, .dict (emptyMeta now d)), (COLLECTIONS, .dict [(.str (lit "users"), .dict docs)])]

/-- The document that `insertName` stores, -/
def named (s : Str) : PyKey × PyVal :=
  (.str (Uuid.text ⟨0⟩), .dict [(.str (lit "name"), .str s), (ID, .str (Uuid.text ⟨0⟩))])

/-- and the one that `insertTagged` stores. -/
def tagged : PyKey × PyVal :=
  (.str (Uuid.text ⟨1⟩), .dict [(.str (lit "name"), .str (lit "Bo")),
    (.str (lit "tags"), .tuple [.str (lit "x"), .str (lit "y")]), (ID, .str (Uuid.text ⟨1⟩))])

theorem insertName_after (now : DateTime) (d : PyVal) (s : Str) :
    runCalls interpreter .total [insertName s] (emptyState now d) =
      usersOnly now d [named s] := rfl

theorem both_after (now : DateTime) (d : PyVal) (s : Str) :
    runCalls interpreter .total [insertName s, insertTagged] (emptyState now d) =
      usersOnly now d [named s, tagged] := rfl

theorem usersOnly_collections {now : DateTime} {d : PyVal} {docs c docs' : PyDict} {name : PyKey}
    (h : Dict.get (usersOnly now d docs) COLLECTIONS = some (.dict c))
    (hm : (name, .dict docs') ∈ c) : docs' = docs := by
  cases h
  cases List.mem_singleton.mp hm
  rfl

theorem cleanDocuments_usersOnly {now : DateTime} {d : PyVal} {docs : PyDict}
    (h : ∀ p ∈ docs, clean p.2) : CleanDocuments (usersOnly now d docs) := by
  intro c name docs' id document hget hn hd
  rw [usersOnly_collections hget hn] at hd
  exact h _ hd

theorem clean_str {s : Str} : clean (.str s) ↔ scalarOnly s = true := Iff.rfl

theorem clean_named {s : Str} (hs : scalarOnly s = true) : clean (named s).2 := by
  refine clean_dict.mpr fun kv hkv => ?_
  simp only [List.mem_cons, List.not_mem_nil, or_false] at hkv
  obtain rfl | rfl := hkv
  · exact ⟨fun s e => by cases e; decide, hs⟩
  · exact ⟨fun s e => by cases e; decide, clean_str.mpr (by decide)⟩

theorem clean_tagged : clean tagged.2 := by
  refine clean_dict.mpr fun kv hkv => ?_
  simp only [List.mem_cons, List.not_mem_nil, or_false] at hkv
  obtain rfl | rfl | rfl := hkv
  · exact ⟨fun s e => by cases e; decide, clean_str.mpr (by decide)⟩
  · exact ⟨fun s e => by cases e; decide, everywhere_tuple.mpr ⟨trivial, fun x hx => by
      obtain rfl | rfl := List.mem_pair.mp hx <;> exact clean_str.mpr (by decide)⟩⟩
  · exact ⟨fun s e => by cases e; decide, clean_str.mpr (by decide)⟩

theorem cleanDocuments_both {now : DateTime} {d : PyVal} {s : Str} (hs : scalarOnly s = true) :
    CleanDocuments (usersOnly now d [named s, tagged]) :=
  cleanDocuments_usersOnly fun p hp => by
    obtain rfl | rfl := List.mem_pair.mp hp
    · exact clean_named hs
    · exact clean_tagged

theorem loaded_empty (rt : Runtime) (now : DateTime) : ∃ d, isAscii d = true ∧
    load rt now .missing = .ok (emptyState now (.str d)) := by
  obtain ⟨base, hload⟩ := makeEmptyState_isOk rt now
  obtain ⟨d, hd, rfl⟩ := makeEmptyState_ok.mp hload
  exact ⟨d, computeChecksum_ascii hd, hload⟩

/-- The state a write makes of an empty database. -/
def firstWrite (call : OpCall) : Except PyExc State := do
  let base ← load interpreter epoch .missing
  match call.run interpreter .total base with
  | .ok _ s => .ok s
  | .error e _ => .error e

/-! ## 2. Committing -/

/-- **Whatever was loaded and whichever writes were made**, returning or raising, names are
    valid, documents are stored under their own identifiers with nothing reserved inside, the
    meta block is the one that was loaded, and neither of the two shape checks of a commit
    raises. -/
theorem representation_invariant (rt : Runtime) (cp : Copier) (t₀ : DateTime) (file : FileRead)
    (base : State) (hload : load rt t₀ file = .ok base) (calls : List OpCall) :
    Represents base (runCalls rt cp calls base) ∧
      validateStateShape false (.dict (runCalls rt cp calls base)) = .ok () ∧
      (∀ now s p d, stampState now (runCalls rt cp calls base) = .ok s →
        setChecksum s (.str d) = .ok p → validateStateShape true (.dict p) = .ok ()) ∧
      ∀ copier now e, prepareForCommit rt copier now (runCalls rt cp calls base) = .error e →
        e.type = .databaseFormatError → ∃ v, copier.fails v = some e := by
  have hb := load_loaded hload
  have hr := runCalls_rep cp calls hb.rep
  obtain ⟨fields, c, hs, -⟩ := hr.shape hb
  refine ⟨hr.represents, validateStateShape_ok.mpr ⟨_, _, _, rfl, hs⟩, fun now s p d h1 h2 => ?_,
    fun copier now e he ht => ?_⟩
  · rw [stampState_of_meta hs.metaIs] at h1
    cases h1
    rw [setChecksum_of_meta (stamped_meta _ _ _)] at h2
    cases h2
    exact validateStateShape_ok.mpr ⟨_, _, _, rfl, hs.prepared now d⟩
  · by_cases hc : CommitCopies copier now (runCalls rt cp calls base)
    · rw [prepareForCommit_copied hs hc] at he
      rw [computeChecksum_error (stamped_meta _ _ _) (map_error he)] at ht
      cases ht
    · obtain ⟨e', v, he', hv⟩ := @prepareForCommit_notCopied rt _ _ _ _ _ hs hc
      rw [he'] at he
      cases he
      exact ⟨v, hv⟩

/-- A write that returned and a write that raised. -/
theorem representation_invariant_two : ∃ base, load interpreter epoch .missing = .ok base ∧
    Represents base (runCalls interpreter .total
      [insertName (lit "Ava"), .delete (.str (lit "users")) (.str [])] base) := by
  obtain ⟨d, -, hload⟩ := loaded_empty interpreter epoch
  exact ⟨_, hload, (representation_invariant interpreter .total epoch .missing _ hload _).1⟩

/-- **The commit of a reachable state succeeds iff its documents are clean and the state can be
    copied**, as it is and stamped. It raises `SerializationError` if the copies succeed, and what
    `copy.deepcopy` raises if one of them does not. -/
theorem commit_succeeds (rt : Runtime) (cp : Copier) (t₀ now : DateTime) (file : FileRead)
    (base : State) (hload : load rt t₀ file = .ok base) (calls : List OpCall) :
    ((∃ b, commitBytes rt cp now (runCalls rt cp calls base) = .ok b) ↔
      CleanDocuments (runCalls rt cp calls base) ∧
        CommitCopies cp now (runCalls rt cp calls base)) ∧
    (CommitCopies cp now (runCalls rt cp calls base) →
      ∀ e, commitBytes rt cp now (runCalls rt cp calls base) = .error e →
        e.type = .serializationError) ∧
    (¬ CommitCopies cp now (runCalls rt cp calls base) →
      ∃ e v, commitBytes rt cp now (runCalls rt cp calls base) = .error e ∧ cp.fails v = some e) := by
  have hb := load_loaded hload
  have hr := runCalls_rep cp calls hb.rep
  exact ⟨hr.commitBytes_isOk hb cp now, fun hc e he => hr.commitBytes_error hb hc he,
    fun hc => hr.commitBytes_notCopied hb hc⟩

/-- A plain name and a tuple are committed. -/
theorem name_committed : ∃ base b, load interpreter epoch .missing = .ok base ∧
    commitBytes interpreter .total epoch
      (runCalls interpreter .total [insertName (lit "Ava"), insertTagged] base) = .ok b := by
  obtain ⟨d, -, hload⟩ := loaded_empty interpreter epoch
  have hiff := (commit_succeeds interpreter .total epoch epoch .missing _ hload
    [insertName (lit "Ava"), insertTagged]).1
  obtain ⟨b, hb⟩ := hiff.mpr ⟨by
    rw [both_after]
    exact cleanDocuments_both (by decide), .total _ _⟩
  exact ⟨_, b, hload, hb⟩

/-- A lone surrogate is accepted and then makes the commit fail. -/
theorem surrogate_not_committed : (firstWrite (insertName [0xD800])).toOption.map
    (fun s => raised (commitBytes interpreter .total epoch s)) = some (some .serializationError) := by
  decide +kernel

/-! ## 3. Reading what was committed -/

/-- No document is stored under the reserved key. -/
def NoReservedId (s : State) : Prop :=
  ∀ c name docs, Dict.get s COLLECTIONS = some (.dict c) → (name, .dict docs) ∈ c →
    Dict.contains docs (.str TYPE_KEY) = false

/-- **The one place for a reserved key** in a reachable state is a document's identifier. -/
theorem Rep.unreserved_iff {rt : Runtime} {base s : State} (hb : Loaded rt base)
    (h : Rep rt base s) : NoReservedId s ↔ unreserved (.dict s) := by
  obtain ⟨c, rfl, hg⟩ := h
  constructor
  · intro hn
    refine putClosed_unreserved.put hb.decoded.unreserved (fixedKey_of_mem (by simp))
      (everywhere_dict.mpr ⟨?_, fun name v hv => ?_⟩)
    · refine contains_eq_false.mpr fun hk => ?_
      obtain ⟨⟨name, v⟩, hv, e⟩ := List.mem_map.mp hk
      obtain ⟨n, hn, hne⟩ := ne_typeKey_of_validName (hg.valid name v hv)
      exact hne (PyKey.str.inj (hn.symm.trans e))
    · obtain ⟨docs, rfl, hd⟩ := hg.good name v hv
      exact everywhere_dict.mpr ⟨hn c name docs (Dict.get_put_self _ _ _) hv,
        fun id document hm => (hd.good id document hm).unreserved⟩
  · intro hr c' name docs hget hn
    exact (everywhere_dict.mp (putClosed_unreserved.mem (putClosed_unreserved.get hr hget) hn)).1

/-- A prepared state has the collections it was made from. -/
theorem prepared_collections {now : DateTime} {s : State} {fields : PyDict} {d : Str} :
    Dict.get (prepared now s fields d) COLLECTIONS = Dict.get s COLLECTIONS := by
  rw [prepared_eq_put, Dict.get_put_ne _ collections_ne_meta.symm]

/-- **What was committed is read back**, as long as no identifier is the reserved key. -/
theorem Rep.load_commit {rt : Runtime} {cp : Copier} {base s : State} (hb : Loaded rt base)
    (h : Rep rt base s) (hn : NoReservedId s) {now : DateTime} {p : State}
    (hp : prepareForCommit rt cp now s = .ok p) {σ : Style} {b : Bytes}
    (hdump : dumpBytes rt σ (.dict p) = .ok b) :
    ∃ w, loadBytes rt b = .ok w ∧ ReadsAs (.dict p) (.dict w) := by
  obtain ⟨fields, c, hs, -⟩ := h.shape hb
  obtain ⟨-, d, hd, rfl⟩ := (prepareForCommit_ok hs).mp hp
  have hm := stamped_meta now s fields
  have ha := computeChecksum_ascii hd
  refine load_written (hs.prepared now d) (putClosed_wf.prepared (h.wf hb) hs.metaIs now ha)
    (putClosed_unreserved.prepared ((h.unreserved_iff hb).mp hn) hs.metaIs now ha) ?_
    (Dict.get_put_self _ _ _) hdump
  rw [prepared, computeChecksum_withChecksum rt hm]
  exact hd

/-- If something is read back as `p` is, `p` has no reserved key. -/
theorem unreserved_of_readsAs {rt : Runtime} {p : PyVal} {w : State} (hw : Loaded rt w)
    (h : ReadsAs p (.dict w)) : unreserved p :=
  unreserved_of_stored ((Same.everywhere orderFree_localUnreserved h).mpr hw.decoded.unreserved)

theorem Rep.noReservedId {rt : Runtime} {cp : Copier} {base s : State} (hb : Loaded rt base)
    (h : Rep rt base s) {now : DateTime} {p w : State} (hp : prepareForCommit rt cp now s = .ok p)
    (hw : Loaded rt w)
    (hs : ReadsAs (.dict p) (.dict w)) : NoReservedId s := by
  obtain ⟨fields, c, hshape, -⟩ := h.shape hb
  obtain ⟨-, d, hd, rfl⟩ := (prepareForCommit_ok hshape).mp hp
  have hu := unreserved_of_readsAs hw hs
  intro c' name docs hget hm
  rw [← @prepared_collections now s fields d] at hget
  exact (everywhere_dict.mp (putClosed_unreserved.mem (putClosed_unreserved.get hu hget) hm)).1

/-- **Commit then load**: whatever was loaded and whichever writes were made, what a commit has
    written is read back as the state it was made of iff no document is stored under the
    reserved key. -/
theorem commit_then_load (rt : Runtime) (cp : Copier) (t₀ now t₁ : DateTime) (file : FileRead)
    (base : State) (hload : load rt t₀ file = .ok base) (calls : List OpCall) (p : State)
    (hp : prepareForCommit rt cp now (runCalls rt cp calls base) = .ok p) (b : Bytes)
    (hdump : dumpBytes rt indented (.dict p) = .ok b) :
    (∃ w, load rt t₁ (.bytes b) = .ok w ∧ ReadsAs (.dict p) (.dict w)) ↔
      NoReservedId (runCalls rt cp calls base) := by
  have hb := load_loaded hload
  have hr := runCalls_rep cp calls hb.rep
  refine ⟨fun h => ?_, fun hn => hr.load_commit hb hn hp hdump⟩
  obtain ⟨w, hw, hs⟩ := h
  exact hr.noReservedId hb hp (loadBytes_loaded hw) hs

/-- What a commit of a clean state writes. -/
theorem Rep.committed {rt : Runtime} {base s : State} (hb : Loaded rt base) (h : Rep rt base s)
    (hc : CleanDocuments s) (now : DateTime) : ∃ p b, prepareForCommit rt .total now s = .ok p ∧
      dumpBytes rt indented (.dict p) = .ok b := by
  obtain ⟨b, hok⟩ := (h.commitBytes_isOk hb .total now).mpr ⟨hc, .total now s⟩
  obtain ⟨p, hp, hdump⟩ := bind_ok.mp hok
  exact ⟨p, b, hp, hdump⟩

theorem noReservedId_usersOnly {now : DateTime} {d : PyVal} {docs : PyDict}
    (h : Dict.contains docs (.str TYPE_KEY) = false) : NoReservedId (usersOnly now d docs) := by
  intro c name docs' hget hm
  rw [usersOnly_collections hget hm]
  exact h

/-- Two insertions, one of a document that holds a tuple. -/
theorem inserts_then_load : ∃ base p b w, load interpreter epoch .missing = .ok base ∧
    prepareForCommit interpreter .total epoch
      (runCalls interpreter .total [insertName (lit "Ava"), insertTagged] base) = .ok p ∧
    dumpBytes interpreter indented (.dict p) = .ok b ∧
    load interpreter epoch (.bytes b) = .ok w ∧ ReadsAs (.dict p) (.dict w) := by
  obtain ⟨d, -, hload⟩ := loaded_empty interpreter epoch
  have hb := load_loaded hload
  have hr := runCalls_rep .total [insertName (lit "Ava"), insertTagged] hb.rep
  have hafter := both_after epoch (.str d) (lit "Ava")
  obtain ⟨p, b, hp, hdump⟩ := hr.committed hb
    (by rw [hafter]; exact cleanDocuments_both (by decide)) epoch
  obtain ⟨w, hw, hs⟩ := (commit_then_load interpreter .total epoch epoch epoch .missing _ hload
    [insertName (lit "Ava"), insertTagged] p hp b hdump).mpr
    (by rw [hafter]; exact noReservedId_usersOnly (by decide))
  exact ⟨_, p, b, w, hload, hp, hdump, hw, hs⟩

/-- `upsert("users", "__jsondb_type__", {"name": "Ava"})`. -/
def upsertReserved : OpCall :=
  .upsert (.str (lit "users")) (.str TYPE_KEY) (.field (lit "name") (lit "Ava"))

/-- A document stored under the reserved key is committed, and the file is not read back. -/
theorem reserved_id_not_read_back : ((firstWrite upsertReserved).toOption.bind
    fun s => (commitBytes interpreter .total epoch s).toOption).map
      (fun b => raised (load interpreter epoch (.bytes b))) = some (some .databaseFormatError) := by
  decide +kernel

/-! ## 4. Tampering -/

theorem putClosed_stored : PutClosed fun v => stored v = v where
  mem {d k v} h hm := by
    rw [stored_dict, PyVal.dict.injEq] at h
    exact congrArg Prod.snd (List.map_inj_left.mp (h.trans (List.map_id d).symm) (k, v) hm)
  put {d k v} h _ hv := by
    rw [stored_dict, PyVal.dict.injEq] at h
    rw [stored_put, h, hv]
  none := rfl
  str _ := rfl
  version := rfl
  datetime _ := rfl

/-- The value in the checksum field. -/
def contentSha256 (s : State) : Option PyVal :=
  match Dict.get s META with
  | some (.dict fields) => Dict.get fields CONTENT_SHA256
  | _ => none

/-- **States with one canonical form are the same**, but for their checksum fields. -/
theorem same_of_canonicalBytes {rt : Runtime} {s s' : State} (h : Decoded (.dict s))
    (h' : Decoded (.dict s')) {fields fields' : PyDict}
    (hm : Dict.get s META = some (.dict fields)) (hm' : Dict.get s' META = some (.dict fields'))
    {b : Bytes} (hb : canonicalBytes rt s = .ok b) (hb' : canonicalBytes rt s' = .ok b) :
    Same (.dict (withChecksum s fields .none)) (.dict (withChecksum s' fields' .none)) := by
  obtain ⟨e, he, hj, hs, hbe⟩ := (canonicalBytes_ok hm).mp hb
  obtain ⟨e', he', hj', hs', hbe'⟩ := (canonicalBytes_ok hm').mp hb'
  have hw := putClosed_wf.withChecksum h.wf hm putClosed_wf.none
  have hw' := putClosed_wf.withChecksum h'.wf hm' putClosed_wf.none
  have heq : Json.sortKeys e = Json.sortKeys e' :=
    textBytes_injective (Json.distinct_sortKeys (distinct_encode hw he))
      (by rw [Json.dumpable_sortKeys, hj]) (by rw [Json.scalar_sortKeys, hs])
      (Json.distinct_sortKeys (distinct_encode hw' he')) (by rw [Json.dumpable_sortKeys, hj'])
      (by rw [Json.scalar_sortKeys, hs']) (hbe.symm.trans hbe')
  obtain ⟨v, hv, hsame⟩ := decode_sorted hw
    (putClosed_unreserved.withChecksum h.unreserved hm putClosed_unreserved.none) he
  obtain ⟨v', hv', hsame'⟩ := decode_sorted hw'
    (putClosed_unreserved.withChecksum h'.unreserved hm' putClosed_unreserved.none) he'
  rw [heq, hv'] at hv
  cases hv
  rw [putClosed_stored.withChecksum h.stored hm rfl] at hsame
  rw [putClosed_stored.withChecksum h'.stored hm' rfl] at hsame'
  exact hsame.trans hsame'.symm

/-- The same states stay the same when one value is put in both checksum fields. -/
theorem Same.restore {s s' : State} {fields fields' : PyDict} (hw : (PyVal.dict s).wf)
    (hm : Dict.get s META = some (.dict fields)) {v : PyVal}
    (h : Same (.dict (withChecksum s fields .none)) (.dict (withChecksum s' fields' .none))) :
    Same (.dict (withChecksum s fields v)) (.dict (withChecksum s' fields' v)) := by
  have hn := putClosed_wf.withChecksum hw hm putClosed_wf.none
  have hmeta := h.get (everywhere_dict.mp hn).1 META
  rw [withChecksum_meta, withChecksum_meta] at hmeta
  cases hmeta with
  | some hf =>
    have hd := (everywhere_dict.mp (putClosed_wf.get hn (withChecksum_meta _ _ _))).1
    have := h.put (everywhere_dict.mp hn).1 META (hf.put hd CONTENT_SHA256 (.refl v))
    simp only [withChecksum, Dict.put_put] at this
    exact this

/-- **Tamper detection**: two files that are accepted and carry one checksum hold the same state,
    unless their canonical forms are a collision. -/
theorem tamper_detection (rt : Runtime) (t t' : DateTime) (raw raw' : Bytes) (s s' : State)
    (h : load rt t (.bytes raw) = .ok s) (h' : load rt t' (.bytes raw') = .ok s')
    (hsum : contentSha256 s = contentSha256 s')
    (hcoll : ∀ b b', canonicalBytes rt s = .ok b → canonicalBytes rt s' = .ok b' →
      rt.sha256 b = rt.sha256 b' → b = b') : Same (.dict s) (.dict s') := by
  obtain ⟨hd, ⟨fields, c, hs⟩, hc⟩ := loadBytes_loaded h
  obtain ⟨hd', ⟨fields', c', hs'⟩, hc'⟩ := loadBytes_loaded h'
  obtain ⟨d, hsum₁, hg⟩ := (verifyChecksum_ok hs.metaIs).mp hc
  obtain ⟨d', hsum₂, hg'⟩ := (verifyChecksum_ok hs'.metaIs).mp hc'
  rw [contentSha256, hs.metaIs, contentSha256, hs'.metaIs] at hsum
  obtain rfl : d = d' := by
    have := hg.symm.trans (Eq.trans hsum hg')
    cases this
    rfl
  obtain ⟨b, hb, e⟩ := computeChecksum_ok.mp hsum₁
  obtain ⟨b', hb', e'⟩ := computeChecksum_ok.mp hsum₂
  obtain rfl := hcoll b b' hb hb' (e.trans e'.symm)
  have hsame := (same_of_canonicalBytes hd hd' hs.metaIs hs'.metaIs hb hb').restore hd.wf hs.metaIs
    (v := .str d)
  rwa [withChecksum_self hs.metaIs hg, withChecksum_self hs'.metaIs hg'] at hsame

theorem ReadsAs.contentSha256 {s w : State} (h : ReadsAs (.dict s) (.dict w))
    (hw : (PyVal.dict s).wf) {fields : PyDict} (hm : Dict.get s META = some (.dict fields)) {d : Str}
    (hd : Dict.get fields CONTENT_SHA256 = some (.str d)) : contentSha256 w = some (.str d) := by
  obtain ⟨hds, hws⟩ := everywhere_dict.mp hw
  obtain ⟨m, hm', hf⟩ := h.get_left hds hm
  obtain ⟨fields', rfl⟩ := hf.dict_left
  have hfd := (everywhere_dict.mp (hws _ _ (Dict.mem_of_get hm))).1
  obtain ⟨v, hv, hsv⟩ := hf.get_left hfd hd
  rw [JsonDatabase.contentSha256, hm']
  exact hv.trans (congrArg some (hsv.atom rfl))

/-- One state written in the two styles. -/
theorem two_styles : ∃ b b' s s', load interpreter epoch (.bytes b) = .ok s ∧
    load interpreter epoch (.bytes b') = .ok s' ∧ Same (.dict s) (.dict s') := by
  obtain ⟨d, -, hload⟩ := loaded_empty interpreter epoch
  have hb := load_loaded hload
  have hr := runCalls_rep .total [insertName (lit "Ava")] hb.rep
  rw [insertName_after] at hr
  obtain ⟨p, b, hp, hdump⟩ := hr.committed hb
    (cleanDocuments_usersOnly fun q hq => by
      rw [List.mem_singleton.mp hq]
      exact clean_named (by decide)) epoch
  obtain ⟨b', hdump'⟩ := (@dumpBytes_isOk _ compact _).mpr (dumpBytes_isOk.mp ⟨b, hdump⟩)
  have hn := @noReservedId_usersOnly epoch (.str d) [named (lit "Ava")] (by decide)
  obtain ⟨w, hw, hs⟩ := hr.load_commit hb hn hp hdump
  obtain ⟨w', hw', hs'⟩ := hr.load_commit hb hn hp hdump'
  obtain ⟨fields, c, hshape, -⟩ := hr.shape hb
  obtain ⟨-, d', hd', rfl⟩ := (prepareForCommit_ok hshape).mp hp
  have hpw := putClosed_wf.prepared (hr.wf hb) hshape.metaIs epoch (computeChecksum_ascii hd')
  have hm := (hshape.prepared epoch d').metaIs
  have hsum := hs.contentSha256 hpw hm (Dict.get_put_self _ _ _)
  have hsum' := hs'.contentSha256 hpw hm (Dict.get_put_self _ _ _)
  refine ⟨b, b', w, w', hw, hw', tamper_detection interpreter epoch epoch b b' w w' hw hw'
    (hsum.trans hsum'.symm) fun x x' hx hx' _ => ?_⟩
  -- both states have the canonical form of the one they were written from
  rw [← computeChecksum_withChecksum interpreter (stamped_meta _ _ _) (.str d')] at hd'
  obtain ⟨y, hy, -⟩ := computeChecksum_ok.mp hd'
  rw [hs.canonicalBytes hpw hm hy] at hx
  rw [hs'.canonicalBytes hpw hm hy] at hx'
  exact (Except.ok.inj hx).symm.trans (Except.ok.inj hx')

end JsonDatabase
