/-
  File:      JsonDatabase/Representation.lean
  Subject:   The representation invariant of a database state.

  Whatever is loaded, and whatever the seven writes make of it, is a dictionary with its meta
  block as it was loaded and, under `collections`, valid names with documents that are stored
  under their own identifiers and have no reserved key inside.

  * `Loaded`, `load_loaded` -- what `load` returns;
  * `Rep` -- the invariant, relative to the state that was loaded;
  * `OpCall.keeps`, `runCalls_rep` -- one write keeps it, and so does any sequence of them.
-/
import JsonDatabase.StorageLaws

namespace JsonDatabase

open PyVal hiding none

/-! ## 1. The invariant -/

/-- A document under its identifier, with nothing reserved inside, that the encoder accepts. -/
structure GoodDoc (rt : Runtime) (id : PyKey) (document : PyVal) : Prop where
  shape : DocShape (id, document)
  wf : document.wf
  unreserved : unreserved document
  encodable : Encodable rt document

structure GoodDocs (rt : Runtime) (docs : PyDict) : Prop where
  distinct : Dict.Distinct docs
  good : ∀ id document, (id, document) ∈ docs → GoodDoc rt id document

structure GoodCollections (rt : Runtime) (collections : PyDict) : Prop where
  distinct : Dict.Distinct collections
  valid : ∀ name v, (name, v) ∈ collections → validateCollectionName name.toVal = .ok ()
  good : ∀ name v, (name, v) ∈ collections → ∃ docs, v = .dict docs ∧ GoodDocs rt docs

/-- **The representation invariant**: the state that was loaded, with other collections in it. -/
def Rep (rt : Runtime) (base s : State) : Prop :=
  ∃ c, s = Dict.put base COLLECTIONS (.dict c) ∧ GoodCollections rt c

theorem Rep.frame {rt : Runtime} {base s : State} (h : Rep rt base s) {k : PyKey}
    (hk : k ≠ COLLECTIONS) : Dict.get s k = Dict.get base k := by
  obtain ⟨c, rfl, -⟩ := h
  exact Dict.get_put_ne _ hk.symm _

theorem Rep.collections {rt : Runtime} {base s : State} (h : Rep rt base s) :
    ∃ c, Dict.get s COLLECTIONS = some (.dict c) ∧ GoodCollections rt c := by
  obtain ⟨c, rfl, hc⟩ := h
  exact ⟨c, Dict.get_put_self _ _ _, hc⟩

/-! ## 2. What is loaded -/

/-- A state as `load` returns it. -/
structure Loaded (rt : Runtime) (base : State) : Prop where
  decoded : Decoded (.dict base)
  shape : ∃ fields collections, StateShape false base fields collections
  checksum : verifyChecksum rt base = .ok ()

theorem StateShape.weaken {r : Bool} {s : State} {fields collections : PyDict}
    (h : StateShape r s fields collections) : StateShape false s fields collections :=
  ⟨h.metaIs, h.metaShape, nofun, h.collectionsIs, h.shapes⟩

theorem loadBytes_loaded {rt : Runtime} {raw : Bytes} {s : State} (h : loadBytes rt raw = .ok s) :
    Loaded rt s := by
  obtain ⟨-, j, hj, -, hd, hs, hc⟩ := loadBytes_ok.mp h
  obtain ⟨s', fields, collections, e, hs⟩ := validateStateShape_ok.mp hs
  cases e
  exact ⟨decoded (parseBytes_distinct hj) hd, ⟨fields, collections, hs.weaken⟩, hc⟩

theorem decoded_atom {v : PyVal} (hv : isAtom v = true) : Decoded v := by
  cases v with
  | frozenset xs => cases hv
  | set xs => cases hv
  | dict kvs => cases hv
  | list xs => cases hv
  | tuple xs => cases hv
  | _ => exact ⟨trivial, trivial, rfl⟩

theorem decoded_dict {kvs : PyDict} (hd : Dict.Distinct kvs)
    (hr : Dict.contains kvs (.str TYPE_KEY) = false) (h : ∀ k v, (k, v) ∈ kvs → Decoded v) :
    Decoded (.dict kvs) where
  wf := everywhere_dict.mpr ⟨hd, fun k v hm => (h k v hm).wf⟩
  unreserved := everywhere_dict.mpr ⟨hr, fun k v hm => (h k v hm).unreserved⟩
  stored := by
    rw [stored_dict]
    refine congrArg PyVal.dict ((List.map_congr_left fun kv hkv => ?_).trans (List.map_id kvs))
    exact Prod.ext rfl (h kv.1 kv.2 hkv).stored

/-- The meta block of the empty state at `now`, with `d` for its checksum. -/
def emptyMeta (now : DateTime) (d : PyVal) : PyDict :=
  [(FORMAT_KEY, .str FORMAT), (VERSION_KEY, .int VERSION), (CREATED_AT, .datetime now),
    (UPDATED_AT, .datetime now), (CONTENT_SHA256, d)]

/-- The empty state at `now`. -/
def emptyState (now : DateTime) (d : PyVal) : State :=
  [(META, .dict (emptyMeta now d)), (COLLECTIONS, .dict [])]

theorem emptyState_meta (now : DateTime) (d : PyVal) :
    Dict.get (emptyState now d) META = some (.dict (emptyMeta now d)) := rfl

theorem withChecksum_emptyState (now : DateTime) (d d' : PyVal) :
    withChecksum (emptyState now d) (emptyMeta now d) d' = emptyState now d' := rfl

theorem makeEmptyState_ok {rt : Runtime} {now : DateTime} {s : State} :
    makeEmptyState rt now = .ok s ↔ ∃ d, computeChecksum rt .total (emptyState now .none) = .ok d ∧
      s = emptyState now (.str d) := by
  show (computeChecksum rt .total (emptyState now .none) >>= fun d =>
    setChecksum (emptyState now .none) (.str d)) = _ ↔ _
  rw [bind_ok]
  refine exists_congr fun d => and_congr_right fun _ => ?_
  rw [setChecksum_of_meta (emptyState_meta now .none), withChecksum_emptyState, Except.ok.injEq,
    eq_comm]

theorem eqVals_version : eqVals (.int VERSION) (.int VERSION) = .ok true := by
  simp [eqVals, eqRaises, numRaises, isSNaN, pyEq, numEq, num, PyNum.eq]

theorem emptyState_decoded (now : DateTime) {d : PyVal} (hd : isAtom d = true) :
    Decoded (.dict (emptyState now d)) := by
  have hkeys : [META, COLLECTIONS].Nodup := by decide
  have hfields : [FORMAT_KEY, VERSION_KEY, CREATED_AT, UPDATED_AT, CONTENT_SHA256].Nodup := by
    decide
  refine decoded_dict hkeys rfl fun k v hm => ?_
  simp only [emptyState, List.mem_cons, Prod.mk.injEq, List.not_mem_nil, or_false] at hm
  obtain ⟨-, rfl⟩ | ⟨-, rfl⟩ := hm
  · refine decoded_dict hfields rfl fun k v hm => ?_
    simp only [emptyMeta, List.mem_cons, Prod.mk.injEq, List.not_mem_nil, or_false] at hm
    obtain ⟨-, rfl⟩ | ⟨-, rfl⟩ | ⟨-, rfl⟩ | ⟨-, rfl⟩ | ⟨-, rfl⟩ := hm
    all_goals first | exact decoded_atom rfl | exact decoded_atom hd
  · exact decoded_dict List.nodup_nil rfl fun _ _ h => absurd h List.not_mem_nil

theorem emptyState_shape (now : DateTime) (d : PyVal) :
    StateShape false (emptyState now d) (emptyMeta now d) [] :=
  ⟨rfl, ⟨rfl, eqVals_version⟩, nofun, rfl, fun _ h => absurd h List.not_mem_nil⟩

/-- **Whatever the file, a state that is loaded is like this.** -/
theorem load_loaded {rt : Runtime} {now : DateTime} {file : FileRead} {s : State}
    (h : load rt now file = .ok s) : Loaded rt s := by
  cases file with
  | missing =>
    obtain ⟨d, hd, rfl⟩ := makeEmptyState_ok.mp h
    refine ⟨emptyState_decoded now rfl, ⟨_, _, emptyState_shape now _⟩,
      (verifyChecksum_ok (emptyState_meta _ _)).mpr ⟨d, ?_, rfl⟩⟩
    rw [← withChecksum_emptyState now .none, computeChecksum_withChecksum rt (emptyState_meta _ _)]
    exact hd
  | unreadable => cases h
  | bytes raw => exact loadBytes_loaded h

/-- What went into a checksum can be encoded. -/
theorem encodable_of_checksum {rt : Runtime} {s : State} {fields : PyDict}
    (hm : Dict.get s META = some (.dict fields)) {d : Str} (hd : computeChecksum rt .total s = .ok d)
    {k : PyKey} (hk : k ≠ META) {v : PyVal} (hv : Dict.get s k = some v) : Encodable rt v := by
  obtain ⟨b, hb, -⟩ := computeChecksum_ok.mp hd
  obtain ⟨e, he, -⟩ := (canonicalBytes_ok hm).mp hb
  refine (encodable_dict.mp ⟨e, he⟩ k v (Dict.mem_of_get ?_)).2
  rw [withChecksum, Dict.get_put_ne _ hk.symm]
  exact hv

theorem collections_ne_meta : COLLECTIONS ≠ META := by decide

theorem Loaded.rep {rt : Runtime} {base : State} (h : Loaded rt base) : Rep rt base base := by
  obtain ⟨⟨hw, hr, -⟩, ⟨fields, collections, hs⟩, hc⟩ := h
  obtain ⟨d, hc, -⟩ := (verifyChecksum_ok hs.metaIs).mp hc
  obtain ⟨hd, hw⟩ := everywhere_dict.mp hw
  obtain ⟨-, hr⟩ := everywhere_dict.mp hr
  have hm := Dict.mem_of_get hs.collectionsIs
  have he := encodable_of_checksum hs.metaIs hc collections_ne_meta hs.collectionsIs
  obtain ⟨hcd, hcw⟩ := everywhere_dict.mp (hw _ _ hm)
  obtain ⟨-, hcr⟩ := everywhere_dict.mp (hr _ _ hm)
  refine ⟨collections, (Dict.put_of_get hs.collectionsIs).symm, hcd,
    fun name v hv => (hs.shapes _ hv).1, fun name v hv => ?_⟩
  obtain ⟨-, docs, e, hdocs⟩ := hs.shapes _ hv
  cases e
  obtain ⟨hdd, hdw⟩ := everywhere_dict.mp (hcw _ _ hv)
  obtain ⟨-, hdr⟩ := everywhere_dict.mp (hcr _ _ hv)
  have hde := encodable_dict.mp (encodable_dict.mp he _ _ hv).2
  exact ⟨docs, rfl, hdd, fun id doc hdoc =>
    ⟨hdocs _ hdoc, hdw id doc hdoc, hdr id doc hdoc, (hde id doc hdoc).2⟩⟩

/-! ## 3. Documents -/

theorem reservedInsideList_iff : ∀ {xs : List PyVal},
    reservedInsideList xs = false ↔ ∀ x ∈ xs, reservedInside x = false
  | [] => by simp [reservedInsideList]
  | x :: xs => by simp [reservedInsideList, @reservedInsideList_iff xs]

theorem reservedInsideEntries_iff : ∀ {kvs : List (PyKey × PyVal)},
    reservedInsideEntries kvs = false ↔ ∀ k v, (k, v) ∈ kvs → reservedInside v = false
  | [] => by simp [reservedInsideEntries]
  | (k₀, v₀) :: kvs => by
      simp only [reservedInsideEntries, Bool.or_eq_false_iff, @reservedInsideEntries_iff kvs,
        List.mem_cons, Prod.mk.injEq]
      constructor
      · intro h k v hm
        rcases hm with ⟨-, rfl⟩ | hm
        · exact h.1
        · exact h.2 k v hm
      · intro h
        exact ⟨h k₀ v₀ (Or.inl ⟨rfl, rfl⟩), fun k v hm => h k v (Or.inr hm)⟩

/-- **The check on reserved keys and the dry run leave nothing reserved**: the check does not
    look inside a frozenset, and the encoder refuses it. -/
theorem unreserved_of_encode {rt : Runtime} {v : PyVal} (hr : reservedInside v = false) {e : Json}
    (he : encode rt v = .ok e) : unreserved v := by
  induction v using PyVal.induct generalizing e with
  | list xs ih =>
    obtain ⟨es, hes, -⟩ := encode_list_ok.mp he
    refine everywhere_list.mpr ⟨trivial, fun x hx => ?_⟩
    obtain ⟨y, -, hy⟩ := forall₂_mem_left hes hx
    exact ih x hx (reservedInsideList_iff.mp hr x hx) hy
  | tuple xs ih =>
    obtain ⟨es, hes, -⟩ := encode_tuple_ok.mp he
    refine everywhere_tuple.mpr ⟨trivial, fun x hx => ?_⟩
    obtain ⟨y, -, hy⟩ := forall₂_mem_left hes hx
    exact ih x hx (reservedInsideList_iff.mp hr x hx) hy
  | set xs ih =>
    obtain ⟨es, hes, -⟩ := encode_set_ok.mp he
    refine everywhere_set.mpr ⟨trivial, fun x hx => ?_⟩
    obtain ⟨y, -, hy⟩ := forall₂_mem_left hes hx
    exact ih x hx (reservedInsideList_iff.mp hr x hx) hy
  | dict kvs ih =>
    obtain ⟨es, hes, -⟩ := encode_dict_ok.mp he
    rw [reservedInside, Bool.or_eq_false_iff] at hr
    refine everywhere_dict.mpr ⟨hr.1, fun k v hkv => ?_⟩
    obtain ⟨y, -, -, hy⟩ := forall₂_mem_left hes hkv
    exact ih k v hkv (reservedInsideEntries_iff.mp hr.2 k v hkv) hy
  | frozenset xs ih => cases he
  | _ => trivial

/-- **What `validate_document` accepts.** -/
theorem validateDocument_ok {rt : Runtime} {v : PyVal} : validateDocument rt v = .ok () ↔
    ∃ fields e, v = .dict fields ∧ reservedInside v = false ∧ encode rt v = .ok e := by
  constructor
  · intro h
    unfold validateDocument at h
    split at h
    · rename_i fields
      obtain ⟨hr, h⟩ := bind_unit_ok.mp h
      obtain ⟨e, he, -⟩ := map_ok.mp (Except.handle_ok.mp h)
      exact ⟨fields, e, rfl, raiseIf_ok.mp hr, he⟩
    · cases h
  · intro h
    obtain ⟨fields, e, rfl, hr, he⟩ := h
    exact bind_unit_ok.mpr ⟨raiseIf_ok.mpr hr, Except.handle_ok.mpr (map_ok.mpr ⟨e, he, rfl⟩)⟩

theorem id_ne_typeKey : ID ≠ PyKey.str TYPE_KEY := by decide

/-- A validated document with its identifier set. -/
theorem goodDoc_put {rt : Runtime} {fields : PyDict} (hw : (PyVal.dict fields).wf)
    (hv : validateDocument rt (.dict fields) = .ok ()) {id : Str} (hid : id ≠ []) :
    GoodDoc rt (.str id) (.dict (Dict.put fields ID (.str id))) := by
  obtain ⟨_, e, h, hr, he⟩ := validateDocument_ok.mp hv
  cases h
  have hen := encodable_dict.mp ⟨e, he⟩
  obtain ⟨hd, hw⟩ := everywhere_dict.mp hw
  obtain ⟨hrk, hr⟩ := everywhere_dict.mp (unreserved_of_encode hr he)
  refine ⟨⟨id, _, rfl, hid, by rw [Dict.get_put, if_pos rfl]⟩,
    everywhere_dict.mpr ⟨Dict.distinct_put _ _ hd, Dict.forall_put hw trivial⟩,
    everywhere_dict.mpr ⟨?_, Dict.forall_put hr trivial⟩,
    encodable_dict.mpr (Dict.forall_put hen ⟨⟨_, rfl⟩, _, rfl⟩)⟩
  show Dict.contains (Dict.put fields ID (.str id)) (.str TYPE_KEY) = false
  rw [Dict.contains, Dict.get_put_ne _ id_ne_typeKey]
  exact hrk

/-- A stored document updated with validated fields that leave the identifier alone. -/
theorem goodDoc_merge {rt : Runtime} {id : PyKey} {fields updates : PyDict}
    (hg : GoodDoc rt id (.dict fields)) (hw : (PyVal.dict updates).wf)
    (hv : validateDocument rt (.dict updates) = .ok ()) (hid : Dict.contains updates ID = false) :
    GoodDoc rt id (.dict (Dict.merge fields updates)) := by
  obtain ⟨⟨i, f, h, hi, hget⟩, hgw, hgr, hge⟩ := hg
  cases h
  obtain ⟨_, e, h, hr, he⟩ := validateDocument_ok.mp hv
  cases h
  have hen := encodable_dict.mp ⟨e, he⟩
  obtain ⟨hd, hw⟩ := everywhere_dict.mp hw
  obtain ⟨hrk, hr⟩ := everywhere_dict.mp (unreserved_of_encode hr he)
  obtain ⟨hgd, hgw⟩ := everywhere_dict.mp hgw
  obtain ⟨hgk, hgr⟩ := everywhere_dict.mp hgr
  have absent {k : PyKey} (h : Dict.contains updates k = false) : Dict.get updates k = none := by
    rw [Dict.contains] at h
    exact Option.not_isSome_iff_eq_none.mp (by rw [h]; exact Bool.false_ne_true)
  refine ⟨⟨i, _, rfl, hi, ?_⟩,
    everywhere_dict.mpr ⟨Dict.distinct_merge _ hgd, Dict.forall_merge hgw hw⟩,
    everywhere_dict.mpr ⟨?_, Dict.forall_merge hgr hr⟩,
    encodable_dict.mpr (Dict.forall_merge (encodable_dict.mp hge) hen)⟩
  · rw [Dict.get_merge _ hd, absent hid]
    exact hget
  · show Dict.contains (Dict.merge fields updates) (.str TYPE_KEY) = false
    rw [Dict.contains, Dict.get_merge _ hd, absent hrk]
    exact hgk

/-! ## 4. Collections -/

theorem GoodDocs.empty {rt : Runtime} : GoodDocs rt [] := ⟨List.nodup_nil, fun _ _ h => absurd h List.not_mem_nil⟩

theorem GoodDocs.put {rt : Runtime} {docs : PyDict} (h : GoodDocs rt docs) {id : PyKey}
    {document : PyVal} (hd : GoodDoc rt id document) : GoodDocs rt (Dict.put docs id document) := by
  refine ⟨Dict.distinct_put _ _ h.distinct, fun k v hm => ?_⟩
  rcases Dict.mem_put hm with hm | hm
  · cases hm
    exact hd
  · exact h.good k v hm

theorem GoodDocs.drop {rt : Runtime} {docs : PyDict} (h : GoodDocs rt docs) (id : PyKey) :
    GoodDocs rt (Dict.drop docs id) :=
  ⟨Dict.distinct_drop id h.distinct, fun k v hm => h.good k v (Dict.mem_of_mem_drop hm)⟩

theorem GoodCollections.put {rt : Runtime} {c : PyDict} (h : GoodCollections rt c) {name : PyKey}
    {docs : PyDict} (hn : validateCollectionName name.toVal = .ok ()) (hd : GoodDocs rt docs) :
    GoodCollections rt (Dict.put c name (.dict docs)) := by
  refine ⟨Dict.distinct_put _ _ h.distinct, fun k v hm => ?_, fun k v hm => ?_⟩
  · rcases Dict.mem_put hm with hm | hm
    · cases hm
      exact hn
    · exact h.valid k v hm
  · rcases Dict.mem_put hm with hm | hm
    · cases hm
      exact ⟨docs, rfl, hd⟩
    · exact h.good k v hm

theorem Rep.writeDocs {rt : Runtime} {base s : State} (h : Rep rt base s) {c : PyDict}
    (hc : GoodCollections rt c) {name : PyKey} {docs : PyDict}
    (hn : validateCollectionName name.toVal = .ok ()) (hd : GoodDocs rt docs) :
    Rep rt base (writeDocs s c name docs) := by
  obtain ⟨c', rfl, -⟩ := h
  exact ⟨_, Dict.put_put _ _ _ _, hc.put hn hd⟩

theorem Rep.collectionsOf {rt : Runtime} {base s : State} (h : Rep rt base s) {c : PyDict}
    (hc : collectionsOf s = .ok c) : Dict.get s COLLECTIONS = some (.dict c) ∧
      GoodCollections rt c := by
  obtain ⟨c', hc', hg⟩ := h.collections
  rw [JsonDatabase.collectionsOf, hc'] at hc
  cases hc
  exact ⟨hc', hg⟩

/-- The documents under a name, none if the collection is missing. -/
theorem GoodCollections.docs {rt : Runtime} {c : PyDict} (h : GoodCollections rt c) {name : PyKey}
    {docs : PyDict} (hd : asDict ((Dict.get c name).getD (.dict [])) = .ok docs) :
    GoodDocs rt docs := by
  cases hg : Dict.get c name with
  | none =>
    rw [hg] at hd
    cases hd
    exact .empty
  | some v =>
    obtain ⟨docs', rfl, hd'⟩ := h.good name v (Dict.mem_of_get hg)
    rw [hg] at hd
    cases hd
    exact hd'

/-- A valid name is its own key. -/
theorem toVal_toKey_of_valid {name : PyVal} (h : validateCollectionName name = .ok ()) :
    validateCollectionName name.toKey.toVal = .ok () := by
  obtain ⟨n, rfl, -⟩ := validName_str h
  exact h

theorem getCollectionRef_ok {s : State} {collection : PyVal} {docs : PyDict} :
    getCollectionRef s collection = .ok docs ↔ validateCollectionName collection = .ok () ∧
      ∃ c, collectionsOf s = .ok c ∧ Dict.get c collection.toKey = some (.dict docs) := by
  unfold getCollectionRef
  rw [bind_unit_ok, bind_ok]
  refine and_congr_right fun _ => exists_congr fun c => and_congr_right fun _ => ?_
  cases Dict.get c collection.toKey with
  | none => exact ⟨nofun, nofun⟩
  | some v => simp only [asDict_ok, Option.some.injEq]

theorem validateDocumentId_ok {id : PyVal} :
    validateDocumentId id = .ok () ↔ ∃ i, id = .str i ∧ i ≠ [] := by
  unfold validateDocumentId
  split
  · rename_i i
    split
    · rename_i h
      refine ⟨fun h' => (by cases h'), fun h' => ?_⟩
      obtain ⟨j, e, hj⟩ := h'
      cases e
      exact absurd h hj
    · rename_i h
      exact ⟨fun _ => ⟨i, rfl, h⟩, fun _ => rfl⟩
  · rename_i h
    refine ⟨fun h' => (by cases h'), fun h' => ?_⟩
    obtain ⟨j, e, -⟩ := h'
    exact absurd e (h j)

theorem getDocumentRef_ok {s : State} {collection id : PyVal} {fields : PyDict} :
    getDocumentRef s collection id = .ok fields ↔ validateDocumentId id = .ok () ∧
      ∃ docs, getCollectionRef s collection = .ok docs ∧
        Dict.get docs id.toKey = some (.dict fields) := by
  unfold getDocumentRef
  rw [bind_unit_ok, bind_ok]
  refine and_congr_right fun _ => exists_congr fun docs => and_congr_right fun _ => ?_
  cases Dict.get docs id.toKey with
  | none => exact ⟨nofun, nofun⟩
  | some v => simp only [asDict_ok, Option.some.injEq]

theorem Rep.getCollectionRef {rt : Runtime} {base s : State} (h : Rep rt base s)
    {collection : PyVal} {docs : PyDict} (hd : getCollectionRef s collection = .ok docs) :
    GoodDocs rt docs := by
  obtain ⟨-, c, hc, hg⟩ := getCollectionRef_ok.mp hd
  obtain ⟨docs', e, hd'⟩ := (h.collectionsOf hc).2.good _ _ (Dict.mem_of_get hg)
  cases e
  exact hd'

theorem Rep.getDocumentRef {rt : Runtime} {base s : State} (h : Rep rt base s) {collection id : PyVal}
    {fields : PyDict} (hd : getDocumentRef s collection id = .ok fields) :
    validateCollectionName collection = .ok () ∧ GoodDoc rt id.toKey (.dict fields) := by
  obtain ⟨-, docs, hdocs, hg⟩ := getDocumentRef_ok.mp hd
  exact ⟨(getCollectionRef_ok.mp hdocs).1,
    (h.getCollectionRef hdocs).good _ _ (Dict.mem_of_get hg)⟩

/-! ## 5. Each write keeps the invariant -/

theorem Uuid.text_ne_nil (u : Uuid) : u.text ≠ [] := by
  unfold Uuid.text
  simp

theorem deepcopy_ok {cp : Copier} {v w : PyVal} :
    deepcopy cp v = .ok w ↔ cp.fails v = none ∧ w = v := by
  unfold deepcopy
  cases cp.fails v with
  | none => simp [eq_comm]
  | some e => simp

theorem copyDict_ok {cp : Copier} {v : PyVal} {d : PyDict} :
    copyDict cp v = .ok d ↔ cp.fails v = none ∧ v = .dict d := by
  unfold copyDict deepcopy
  rw [bind_ok]
  cases cp.fails v with
  | none => simp only [Except.ok.injEq, exists_eq_left', asDict_ok, true_and]
  | some e => simp

theorem copyDict_error {cp : Copier} {fields : PyDict} {e : PyExc} :
    copyDict cp (.dict fields) = .error e ↔ cp.fails (.dict fields) = some e := by
  unfold copyDict deepcopy
  cases cp.fails (.dict fields) with
  | none => exact ⟨nofun, nofun⟩
  | some e' => exact ⟨fun h => (by cases h; rfl), fun h => (by cases h; rfl)⟩

section Keeps

variable {rt : Runtime} {cp : Copier} {base : State}

theorem keeps_ensureCollection {collection : PyVal} {β : Type} {f : PyDict → Op β}
    (hf : ∀ docs, validateCollectionName collection = .ok () → Keeps (Rep rt base) (f docs)) :
    Keeps (Rep rt base) (ensureCollection collection >>= f) := by
  unfold ensureCollection
  simp only [bind_assoc]
  refine .bind_lift fun _ hn => .bind_get fun s hs => .bind_lift fun c hc =>
    .bind_lift fun docs hd => .bind (.set ?_) fun _ => ?_
  · have hg := (hs.collectionsOf hc).2
    exact hs.writeDocs hg (toVal_toKey_of_valid hn) (hg.docs hd)
  · rw [pure_bind]
    exact hf docs hn

theorem keeps_assignDocument {collection id : PyVal} {document : PyDict}
    (hn : validateCollectionName collection = .ok ()) (hd : GoodDoc rt id.toKey (.dict document)) :
    Keeps (Rep rt base) (assignDocument collection id document) :=
  .bind_get fun _ hs => .bind_lift fun _ hc => .bind_lift fun _ hdocs => .set
    (hs.writeDocs (hs.collectionsOf hc).2 (toVal_toKey_of_valid hn)
      (((hs.collectionsOf hc).2.docs hdocs).put hd))

theorem keeps_insertDocument {collection document : PyVal} {uuid : Uuid} (hw : document.wf) :
    Keeps (Rep rt base) (insertDocument rt cp collection document uuid) := by
  refine .bind_lift fun _ hv => .bind_lift fun fields _ => .bind_lift fun _ _ =>
    .bind_lift fun stored hs => keeps_ensureCollection fun _ hn => ?_
  obtain ⟨-, rfl⟩ := copyDict_ok.mp hs
  exact .bind (keeps_assignDocument hn (goodDoc_put hw hv uuid.text_ne_nil)) fun _ => .pure _

theorem keeps_updateDocument {collection id updates : PyVal} (hw : updates.wf) :
    Keeps (Rep rt base) (updateDocument rt cp collection id updates) := by
  refine .bind_lift fun _ hv => .bind_lift fun fields hf => .bind_lift fun _ hid =>
    .bind_get fun s hs => .bind_lift fun document hd => .bind_lift fun copied hc => ?_
  obtain ⟨-, rfl⟩ := copyDict_ok.mp hc
  cases asDict_ok.mp hf
  obtain ⟨hn, hg⟩ := hs.getDocumentRef hd
  exact .bind (keeps_assignDocument hn (goodDoc_merge hg hw hv (raiseIf_ok.mp hid))) fun _ => .lift _

theorem keeps_replaceDocument {collection id document : PyVal} (hw : document.wf) :
    Keeps (Rep rt base) (replaceDocument rt cp collection id document) := by
  refine .bind_lift fun _ hv => .bind_lift fun stored hs => .bind_lift fun _ _ =>
    .bind_get fun s hs' => .bind_lift fun old hd => keeps_ensureCollection fun _ hn => ?_
  obtain ⟨-, rfl⟩ := copyDict_ok.mp hs
  obtain ⟨i, rfl, hi⟩ := validateDocumentId_ok.mp (getDocumentRef_ok.mp hd).1
  exact .bind (keeps_assignDocument hn (goodDoc_put hw hv hi)) fun _ => .lift _

theorem keeps_deleteDocument {collection id : PyVal} :
    Keeps (Rep rt base) (deleteDocument collection id) := by
  refine .bind_lift fun _ _ => .bind_get fun s hs => .bind_lift fun docs hd => .bind_lift fun _ _ =>
    .bind_lift fun c hc => .bind (.set ?_) fun _ => .pure _
  exact hs.writeDocs (hs.collectionsOf hc).2
    (toVal_toKey_of_valid (getCollectionRef_ok.mp hd).1) ((hs.getCollectionRef hd).drop _)

theorem keeps_upsertDocument {collection id document : PyVal} (hw : document.wf) :
    Keeps (Rep rt base) (upsertDocument rt cp collection id document) := by
  refine .bind_lift fun _ hid => .bind_lift fun _ hv => .bind_lift fun stored hs =>
    .bind_lift fun _ _ => keeps_ensureCollection fun _ hn => ?_
  obtain ⟨-, rfl⟩ := copyDict_ok.mp hs
  obtain ⟨i, rfl, hi⟩ := validateDocumentId_ok.mp hid
  exact .bind (keeps_assignDocument hn (goodDoc_put hw hv hi)) fun _ => .pure _

theorem keeps_storeInserts {collection : PyVal} (hn : validateCollectionName collection = .ok ()) :
    ∀ {inserts : List (Uuid × PyVal)},
      (∀ p ∈ inserts, p.2.wf ∧ validateDocument rt p.2 = .ok ()) →
        Keeps (Rep rt base) (storeInserts cp collection inserts)
  | [], _ => .pure _
  | (uuid, document) :: rest, h => by
      obtain ⟨hw, hv⟩ := h (uuid, document) List.mem_cons_self
      refine .bind_lift fun stored hs => ?_
      obtain ⟨-, rfl⟩ := copyDict_ok.mp hs
      refine .bind (keeps_assignDocument hn (goodDoc_put hw hv uuid.text_ne_nil)) fun _ => ?_
      exact keeps_storeInserts hn fun p hp => h p (List.mem_cons_of_mem _ hp)

theorem keeps_bulkInsertDocuments {collection documents : PyVal} {uuids : Nat → Uuid}
    (hw : documents.wf) : Keeps (Rep rt base) (bulkInsertDocuments rt cp collection documents uuids) := by
  cases documents with
  | list documents =>
    refine .bind_lift fun _ hc => keeps_ensureCollection fun _ hn =>
      .bind (@keeps_storeInserts rt cp base _ hn _ fun p hp => ?_) fun _ => .pure _
    have hm := (List.of_mem_zip hp).2
    exact ⟨(everywhere_list.mp hw).2 _ hm, (bind_unit_ok.mp (forEach_ok.mp hc _ hm)).1⟩
  | _ => exact .throw _

theorem checkUpdate_ok {collection item : PyVal} {docs : PyDict} {id update : PyVal}
    (h : checkUpdate rt collection docs item = .ok (id, update)) :
    (item = .tuple [id, update] ∨ item = .list [id, update]) ∧
      validateDocumentId id = .ok () ∧ Dict.contains docs id.toKey = true ∧
      ∃ fields, update = .dict fields ∧ validateDocument rt update = .ok () ∧
        Dict.contains fields ID = false := by
  have body {id' update' : PyVal} (h : (do
      validateDocumentId id'
      raiseIf (!Dict.contains docs id'.toKey) (documentNotFound collection id')
      validateDocument rt update'
      let fields ← asDict update'
      raiseIf (Dict.contains fields ID) (validationError "bulk_update() cannot change document id")
      return (id', update') : Except PyExc (PyVal × PyVal)) = .ok (id, update)) :
      id' = id ∧ update' = update ∧ validateDocumentId id = .ok () ∧
        Dict.contains docs id.toKey = true ∧ ∃ fields, update = .dict fields ∧
          validateDocument rt update = .ok () ∧ Dict.contains fields ID = false := by
    obtain ⟨hi, h⟩ := bind_unit_ok.mp h
    obtain ⟨hm, h⟩ := bind_unit_ok.mp h
    obtain ⟨hv, h⟩ := bind_unit_ok.mp h
    obtain ⟨fields, hf, h⟩ := bind_ok.mp h
    obtain ⟨hid, h⟩ := bind_unit_ok.mp h
    cases h
    exact ⟨rfl, rfl, hi, by simpa using raiseIf_ok.mp hm, fields, asDict_ok.mp hf, hv,
      raiseIf_ok.mp hid⟩
  unfold checkUpdate at h
  split at h
  · obtain ⟨rfl, rfl, h⟩ := body h
    exact ⟨Or.inl rfl, h⟩
  · obtain ⟨rfl, rfl, h⟩ := body h
    exact ⟨Or.inr rfl, h⟩
  · cases h

theorem keeps_applyUpdates {collection : PyVal} : ∀ {pairs : List (PyVal × PyVal)},
    (∀ p ∈ pairs, p.2.wf ∧ validateDocument rt p.2 = .ok () ∧
      ∃ fields, p.2 = .dict fields ∧ Dict.contains fields ID = false) →
    Keeps (Rep rt base) (applyUpdates cp collection pairs)
  | [], _ => .pure _
  | (id, update) :: rest, h => by
      obtain ⟨hw, hv, fields, hf, hid⟩ := h (id, update) List.mem_cons_self
      refine .bind_get fun s hs => .bind_lift fun document hd => .bind_lift fun copied hc => ?_
      obtain ⟨-, hc⟩ := copyDict_ok.mp hc
      simp only at hw hv hf hid
      subst hf
      cases hc
      obtain ⟨hn, hg⟩ := hs.getDocumentRef hd
      refine .bind (keeps_assignDocument hn (goodDoc_merge hg hw hv hid)) fun _ => ?_
      exact keeps_applyUpdates fun p hp => h p (List.mem_cons_of_mem _ hp)

theorem keeps_bulkUpdateDocuments {collection updates : PyVal} (hw : updates.wf) :
    Keeps (Rep rt base) (bulkUpdateDocuments rt cp collection updates) := by
  cases updates with
  | list updates =>
    refine .bind_get fun s hs => .bind_lift fun docs _ => .bind_lift fun normalized hm =>
      .bind (@keeps_applyUpdates rt cp base _ _ fun p hp => ?_) fun _ => .pure _
    obtain ⟨item, hitem, hc⟩ := forall₂_mem_right (mapM_ok.mp hm) hp
    obtain ⟨id, update⟩ := p
    obtain ⟨hi, -, -, fields, hf, hv, hid⟩ := checkUpdate_ok hc
    have hwi := (everywhere_list.mp hw).2 item hitem
    exact ⟨wf_second hwi hi, hv, fields, hf, hid⟩
  | _ => exact .throw _

/-- **Every write keeps the invariant, whether it returns or raises.** -/
theorem OpCall.keeps (call : OpCall) : Keeps (Rep rt base) (call.run rt cp) := by
  cases call with
  | insert c d u => exact keeps_insertDocument d.wf
  | update c i u => exact keeps_updateDocument u.wf
  | replace c i d => exact keeps_replaceDocument d.wf
  | delete c i => exact keeps_deleteDocument
  | upsert c i d => exact keeps_upsertDocument d.wf
  | bulkInsert c ds us => exact keeps_bulkInsertDocuments ds.wf
  | bulkUpdate c us => exact keeps_bulkUpdateDocuments us.wf

end Keeps

/-! ## 6. Sequences of writes -/

/-- The state a write leaves, however it ended. -/
def OpCall.after (rt : Runtime) (cp : Copier) (call : OpCall) (s : State) : State :=
  match call.run rt cp s with
  | .ok _ s' => s'
  | .error _ s' => s'

/-- The state a sequence of writes leaves, exceptions caught between them. -/
def runCalls (rt : Runtime) (cp : Copier) (calls : List OpCall) (s : State) : State :=
  calls.foldl (fun s call => call.after rt cp s) s

theorem OpCall.after_rep {rt : Runtime} {cp : Copier} {base s : State} (call : OpCall)
    (h : Rep rt base s) : Rep rt base (call.after rt cp s) := by
  have hk := (@OpCall.keeps rt cp base call).run h
  unfold OpCall.after
  split <;> rename_i hr <;> rw [hr] at hk <;> exact hk

/-- **Any sequence of writes keeps the invariant.** -/
theorem runCalls_rep {rt : Runtime} (cp : Copier) {base : State} (calls : List OpCall) {s : State}
    (h : Rep rt base s) : Rep rt base (runCalls rt cp calls s) := by
  induction calls generalizing s with
  | nil => exact h
  | cons call calls ih => exact ih (call.after_rep h)

end JsonDatabase
