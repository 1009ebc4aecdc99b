/-
  File:      JsonDatabase/Writable.lean
  Subject:   Which values can be written.

  The encoder's dry run is not the whole of a write: the text is generated and encoded in UTF-8
  after it, and an integer of too many digits or a lone surrogate is found only then.

  * `clean`, `encode_clean` -- what the stages after the encoder ask for;
  * `dumpBytes_isOk`, `computeChecksum_isOk` -- a value is written iff it is encodable and clean;
  * `Rep.commitBytes_isOk` -- a reachable state is committed iff its documents are clean and it can
    be copied.
-/
import JsonDatabase.Commit

namespace JsonDatabase

open PyVal hiding none

/-! ## 1. Clean values -/

/-- No surrogate in a string or a key, no integer of too many digits. -/
def localClean : PyVal → Prop
  | .str s => scalarOnly s = true
  | .int i => Json.intFits i = true
  | .dict kvs => ∀ k, PyKey.str k ∈ Dict.keys kvs → scalarOnly k = true
  | _ => True

/-- Clean at every depth. -/
def clean (v : PyVal) : Prop := everywhere localClean v

theorem putClosed_clean : PutClosed clean := by
  refine putClosed_everywhere (fun {d k v} h hk => ?_) trivial
    (fun h => scalarOnly_of_isAscii h)
    (show Json.intFits VERSION = true by decide) fun _ => trivial
  obtain ⟨s, rfl, hs, -⟩ := hk
  intro k' hm
  rcases Dict.mem_keys_put.mp hm with e | hm
  · cases e
    exact scalarOnly_of_isAscii hs
  · exact h k' hm

/-- The JSON value gets through the stages after the encoder. -/
def Json.writable (j : Json) : Prop := j.dumpable = true ∧ j.scalar = true

theorem writable_envelope {tag : String} {v : Json} (ht : scalarOnly (lit tag) = true) :
    (envelope tag v).writable ↔ v.writable := by
  rw [Json.writable, Json.writable, dumpable_envelope, scalar_envelope ht]

theorem writable_arr {xs : List Json} : (Json.arr xs).writable ↔ ∀ x ∈ xs, x.writable := by
  simp only [Json.writable, Json.dumpable_arr, Json.scalar_arr]
  exact ⟨fun h x hx => ⟨h.1 x hx, h.2 x hx⟩, fun h => ⟨fun x hx => (h x hx).1, fun x hx => (h x hx).2⟩⟩

theorem writable_obj {kvs : Dict Str Json} : (Json.obj kvs).writable ↔
    ∀ kv ∈ kvs, scalarOnly kv.1 = true ∧ kv.2.writable := by
  simp only [Json.writable, Json.dumpable_obj, Json.scalar_obj]
  refine ⟨fun h kv hkv => ⟨(h.2 kv.1 kv.2 hkv).1, h.1 kv.1 kv.2 hkv, (h.2 kv.1 kv.2 hkv).2⟩,
    fun h => ⟨fun k v hm => (h (k, v) hm).2.1, fun k v hm => ⟨(h (k, v) hm).1, (h (k, v) hm).2.2⟩⟩⟩

/-- The text in an envelope. -/
theorem writable_text {tag : String} {s : Str} (ht : scalarOnly (lit tag) = true)
    (hs : isAscii s = true) : (envelope tag (.str s)).writable :=
  (writable_envelope ht).mpr ⟨rfl, scalarOnly_of_isAscii hs⟩

theorem clean_dict {kvs : PyDict} : clean (.dict kvs) ↔
    ∀ kv ∈ kvs, (∀ s, kv.1 = .str s → scalarOnly s = true) ∧ clean kv.2 := by
  rw [clean, everywhere_dict]
  constructor
  · intro h kv hkv
    refine ⟨fun s hs => h.1 s ?_, h.2 kv.1 kv.2 hkv⟩
    rw [← hs]
    exact Dict.mem_keys_of_mem hkv
  · intro h
    refine ⟨fun s hs => ?_, fun k v hm => (h (k, v) hm).2⟩
    obtain ⟨kv, hkv, e⟩ := List.mem_map.mp hs
    exact (h kv hkv).1 s e

/-- **What was encoded gets through the later stages iff it is clean.** -/
theorem encode_clean {rt : Runtime} {v : PyVal} {e : Json} (he : encode rt v = .ok e) :
    clean v ↔ e.writable := by
  have carried : Carried rt (fun s => scalarOnly s = true) localClean Json.writable := {
    list _ := trivial
    tuple _ := trivial
    set _ := trivial
    dict _ := Iff.rfl
    arr _ := writable_arr
    obj _ := writable_obj
    envelope _ := writable_envelope (by decide)
    atom v e hv he := by
      cases encode_atom hv he with
      | none => exact iff_of_true trivial ⟨rfl, rfl⟩
      | bool b => exact iff_of_true trivial ⟨rfl, rfl⟩
      | int i => exact ⟨fun h => ⟨h, rfl⟩, fun h => h.1⟩
      | float hf => exact iff_of_true trivial ⟨hf, rfl⟩
      | str s => exact ⟨fun h => ⟨rfl, h⟩, fun h => h.2⟩
      | text tag s hv ht hs =>
        refine iff_of_true ?_ (writable_text (scalarOnly_of_isAscii ht) hs)
        cases v <;> trivial }
  exact carried.encode he

/-! ## 2. What is written -/

/-- **A value is written iff the encoder accepts it and it is clean.** -/
theorem dumpBytes_isOk {rt : Runtime} {σ : Style} {v : PyVal} :
    (∃ b, dumpBytes rt σ v = .ok b) ↔ Encodable rt v ∧ clean v := by
  constructor
  · intro h
    obtain ⟨b, hb⟩ := h
    obtain ⟨e, he, hj, hs, -⟩ := dumpBytes_ok.mp hb
    exact ⟨⟨e, he⟩, (encode_clean he).mpr ⟨hj, hs⟩⟩
  · intro h
    obtain ⟨⟨e, he⟩, hc⟩ := h
    obtain ⟨hj, hs⟩ := (encode_clean he).mp hc
    exact ⟨_, dumpBytes_ok.mpr ⟨e, he, hj, hs, rfl⟩⟩

theorem computeChecksum_isOk {rt : Runtime} {s : State} {fields : PyDict}
    (hm : Dict.get s META = some (.dict fields)) : (∃ d, computeChecksum rt .total s = .ok d) ↔
      Encodable rt (.dict (withChecksum s fields .none)) ∧
        clean (.dict (withChecksum s fields .none)) := by
  rw [← @dumpBytes_isOk rt compact, computeChecksum_total, setChecksum_of_meta hm]
  simp only [bind_ok, Except.ok.injEq, exists_eq_left']
  constructor
  · intro h
    obtain ⟨d, b, hb, -⟩ := h
    exact ⟨b, hb⟩
  · intro h
    obtain ⟨b, hb⟩ := h
    exact ⟨rt.sha256 b, b, hb, rfl⟩

theorem computeChecksum_ascii {rt : Runtime} {s : State} {d : Str}
    (hd : computeChecksum rt .total s = .ok d) : isAscii d = true := by
  obtain ⟨b, -, rfl⟩ := computeChecksum_ok.mp hd
  exact rt.sha256_ascii b

/-- The empty state can always be made. -/
theorem makeEmptyState_isOk (rt : Runtime) (now : DateTime) :
    ∃ s, makeEmptyState rt now = .ok s := by
  have hc {p : PyVal → Prop} (hp : PutClosed p) (h : p (.dict [])) :
      p (.dict (emptyState now .none)) := by
    have fixed {k : PyKey} (hk : k ∈ [META, COLLECTIONS, FORMAT_KEY, VERSION_KEY, CREATED_AT,
      UPDATED_AT, CONTENT_SHA256]) := fixedKey_of_mem hk
    have format : p (.str FORMAT) := hp.str (by decide)
    exact hp.put (hp.put h (fixed (k := META) (by simp)) (hp.put (hp.put (hp.put (hp.put (hp.put h
      (fixed (k := FORMAT_KEY) (by simp)) format) (fixed (k := VERSION_KEY) (by simp)) hp.version)
      (fixed (k := CREATED_AT) (by simp)) (hp.datetime now))
      (fixed (k := UPDATED_AT) (by simp)) (hp.datetime now))
      (fixed (k := CONTENT_SHA256) (by simp)) hp.none)) (fixed (k := COLLECTIONS) (by simp)) h
  have hm := emptyState_meta now .none
  obtain ⟨d, hd⟩ := (@computeChecksum_isOk rt _ _ hm).mpr
    ⟨(putClosed_encodable rt).withChecksum (hc (putClosed_encodable rt) ⟨_, rfl⟩) hm ⟨_, rfl⟩,
      putClosed_clean.withChecksum (hc putClosed_clean (everywhere_dict.mpr ⟨nofun, nofun⟩)) hm trivial⟩
  exact ⟨_, makeEmptyState_ok.mpr ⟨d, hd, rfl⟩⟩

/-! ## 3. What is committed -/

/-- What was loaded can be written again. -/
theorem Loaded.storable {rt : Runtime} {base : State} (h : Loaded rt base) :
    Encodable rt (.dict base) ∧ clean (.dict base) := by
  obtain ⟨-, ⟨fields, collections, hs⟩, hc⟩ := h
  obtain ⟨d, hd, hg⟩ := (verifyChecksum_ok hs.metaIs).mp hc
  obtain ⟨he, hc⟩ := (computeChecksum_isOk hs.metaIs).mp ⟨d, hd⟩
  have ha := computeChecksum_ascii hd
  have back := withChecksum_withChecksum base fields .none (.str d)
  rw [withChecksum_self hs.metaIs hg] at back
  rw [← back]
  exact ⟨(putClosed_encodable rt).withChecksum he (withChecksum_meta _ _ _)
    ((putClosed_encodable rt).str ha),
    putClosed_clean.withChecksum hc (withChecksum_meta _ _ _) (putClosed_clean.str ha)⟩

theorem isAscii_of_validName {n : Str} (h : validateCollectionName (.str n) = .ok ()) :
    isAscii n = true := by
  have ascii {s : Str} (h : s.all nameChar = true) : isAscii s = true := by
    refine List.all_eq_true.mpr fun c hc => decide_eq_true ?_
    have := of_decide_eq_true (List.all_eq_true.mp h c hc)
    omega
  obtain ⟨_, e, -, hre⟩ := validName_str h
  cases e
  unfold collectionRe at hre
  simp only [Bool.and_eq_true] at hre
  split at hre
  · rename_i hl
    -- the newline that `$` lets through is ASCII as well
    rw [← List.dropLast_append_getLast? _ hl, isAscii_append, ascii hre.2]
    rfl
  · exact ascii hre.2

theorem GoodCollections.encodable {rt : Runtime} {c : PyDict} (h : GoodCollections rt c) :
    Encodable rt (.dict c) := by
  refine encodable_dict.mpr fun name v hv => ⟨?_, ?_⟩
  · obtain ⟨n, rfl, -⟩ := ne_typeKey_of_validName (h.valid name v hv)
    exact ⟨n, rfl⟩
  · obtain ⟨docs, rfl, hd⟩ := h.good name v hv
    refine encodable_dict.mpr fun key document hm => ?_
    obtain ⟨⟨id, fields, e, -, -⟩, -, -, he⟩ := hd.good key document hm
    cases e
    exact ⟨⟨id, rfl⟩, he⟩

/-- Every document is clean. -/
def CleanDocuments (s : State) : Prop :=
  ∀ c name docs id document, Dict.get s COLLECTIONS = some (.dict c) → (name, .dict docs) ∈ c →
    (id, document) ∈ docs → clean document

theorem GoodCollections.clean_iff {rt : Runtime} {c : PyDict} (h : GoodCollections rt c) :
    clean (.dict c) ↔ ∀ name docs id document, (name, .dict docs) ∈ c → (id, document) ∈ docs →
      clean document := by
  constructor
  · intro hc name docs id document hn hd
    exact putClosed_clean.mem (putClosed_clean.mem hc hn) hd
  · intro hc
    refine clean_dict.mpr fun ⟨name, v⟩ hv => ⟨fun n e => ?_, ?_⟩
    · obtain rfl : name = .str n := e
      exact scalarOnly_of_isAscii (isAscii_of_validName (h.valid _ v hv))
    · obtain ⟨docs, rfl, hd⟩ := h.good name v hv
      refine clean_dict.mpr fun ⟨key, document⟩ hm => ⟨fun i e => ?_, hc name docs key document hv hm⟩
      obtain rfl : key = .str i := e
      -- the identifier is a string inside the document
      obtain ⟨id, fields, e, -, hg⟩ := (hd.good _ document hm).shape
      cases e
      exact (putClosed_clean.get (hc name docs _ _ hv hm) hg : clean (.str i))

theorem Rep.cleanDocuments_iff {rt : Runtime} {base s : State} (hb : Loaded rt base)
    (h : Rep rt base s) : CleanDocuments s ↔ clean (.dict s) := by
  obtain ⟨c, rfl, hg⟩ := h
  constructor
  · intro hc
    refine putClosed_clean.put hb.storable.2 (fixedKey_of_mem (by simp)) (hg.clean_iff.mpr ?_)
    exact fun name docs id document => hc c name docs id document (Dict.get_put_self _ _ _)
  · intro hc c' name docs id document hget hn hd
    exact putClosed_clean.mem (putClosed_clean.mem (putClosed_clean.get hc hget) hn) hd

theorem Rep.encodable {rt : Runtime} {base s : State} (hb : Loaded rt base) (h : Rep rt base s) :
    Encodable rt (.dict s) := by
  obtain ⟨c, rfl, hg⟩ := h
  exact (putClosed_encodable rt).put hb.storable.1 (fixedKey_of_mem (by simp)) hg.encodable

/-- **A reachable state is committed iff its documents are clean**, as far as it can be copied. -/
theorem Rep.commitBytes_isOk {rt : Runtime} {base s : State} (hb : Loaded rt base)
    (h : Rep rt base s) (cp : Copier) (now : DateTime) :
    (∃ b, commitBytes rt cp now s = .ok b) ↔ CleanDocuments s ∧ CommitCopies cp now s := by
  obtain ⟨fields, c, hs, -⟩ := h.shape hb
  have hm := stamped_meta now s fields
  constructor
  · intro hok
    obtain ⟨b, hok⟩ := hok
    obtain ⟨p, hp, -⟩ := bind_ok.mp hok
    obtain ⟨hcopies, d, hd, rfl⟩ := (prepareForCommit_ok hs).mp hp
    obtain ⟨-, hc⟩ := (computeChecksum_isOk hm).mp ⟨d, hd⟩
    refine ⟨fun c' name docs id document hget hn hd => ?_, hcopies⟩
    have hget' : Dict.get (withChecksum (stamped now s fields) (stampMeta now fields) .none)
        COLLECTIONS = some (.dict c') := by
      rw [withChecksum, Dict.get_put_ne _ collections_ne_meta.symm, stamped,
        Dict.get_put_ne _ collections_ne_meta.symm]
      exact hget
    exact putClosed_clean.mem (putClosed_clean.mem (putClosed_clean.get hc hget') hn) hd
  · intro hok
    obtain ⟨hc, hcopies⟩ := hok
    rw [h.cleanDocuments_iff hb] at hc
    have he := h.encodable hb
    have he' := (putClosed_encodable rt).stamped he hs.metaIs now
    have hc' := putClosed_clean.stamped hc hs.metaIs now
    obtain ⟨d, hd⟩ := (computeChecksum_isOk hm).mpr
      ⟨(putClosed_encodable rt).withChecksum he' hm ⟨_, rfl⟩,
        putClosed_clean.withChecksum hc' hm trivial⟩
    have ha := computeChecksum_ascii hd
    obtain ⟨b, hb⟩ := dumpBytes_isOk.mpr ⟨(putClosed_encodable rt).prepared he hs.metaIs now ha,
      putClosed_clean.prepared hc hs.metaIs now ha⟩
    exact ⟨b, bind_ok.mpr ⟨_, (prepareForCommit_ok hs).mpr ⟨hcopies, d, hd, rfl⟩, hb⟩⟩

/-- **The commit of a reachable state raises nothing but `SerializationError`** if it is copied, -/
theorem Rep.commitBytes_error {rt : Runtime} {base s : State} (hb : Loaded rt base)
    (h : Rep rt base s) {cp : Copier} {now : DateTime} (hc : CommitCopies cp now s) {e : PyExc}
    (he : commitBytes rt cp now s = .error e) : e.type = .serializationError := by
  obtain ⟨fields, c, hs, -⟩ := h.shape hb
  rw [commitBytes, prepareForCommit_copied hs hc] at he
  rcases bind_error he with he | ⟨p, -, he⟩
  · exact computeChecksum_error (stamped_meta _ _ _) (map_error he)
  · exact dumpBytes_error he

/-- and what copying raises if it is not. -/
theorem Rep.commitBytes_notCopied {rt : Runtime} {base s : State} (hb : Loaded rt base)
    (h : Rep rt base s) {cp : Copier} {now : DateTime} (hc : ¬ CommitCopies cp now s) :
    ∃ e v, commitBytes rt cp now s = .error e ∧ cp.fails v = some e := by
  obtain ⟨fields, c, hs, -⟩ := h.shape hb
  obtain ⟨e, v, he, hv⟩ := @prepareForCommit_notCopied rt _ _ _ _ _ hs hc
  refine ⟨e, v, ?_, hv⟩
  rw [commitBytes, he]
  rfl

end JsonDatabase
