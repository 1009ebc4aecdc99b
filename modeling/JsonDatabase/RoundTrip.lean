/-
  File:      JsonDatabase/RoundTrip.lean
  Subject:   What a commit writes is what a load reads.

  The writer's checks and the reader's are separate code. On a state that is well-formed and has
  no reserved key anywhere they agree: `load_written`. A document identifier that is the reserved
  key is the one thing the writer's checks let through: `commit_then_load`.

  * `rawValueOk_encode`, `validateRawDocumentFields_encode` -- the raw scan accepts what is written;
  * `StateShape.same`, `ReadsAs.canonicalBytes` -- the shape check and the checksum do not see the
    difference between a state and what is read back of it.
-/
import JsonDatabase.Commit

namespace JsonDatabase

open PyVal hiding none

/-! ## 1. Values that are read back -/

theorem wf_stored {v : PyVal} (h : v.wf) : (stored v).wf := by
  have items {xs : List PyVal} (ih : ∀ x ∈ xs, x.wf → (stored x).wf) (h : ∀ x ∈ xs, x.wf) :
      ∀ y ∈ xs.map stored, y.wf := by
    intro y hy
    obtain ⟨x, hx, rfl⟩ := List.mem_map.mp hy
    exact ih x hx (h x hx)
  induction v using PyVal.induct with
  | list xs ih =>
    rw [stored_list]
    exact everywhere_list.mpr ⟨trivial, items ih (everywhere_list.mp h).2⟩
  | tuple xs ih =>
    rw [stored_tuple]
    exact everywhere_list.mpr ⟨trivial, items ih (everywhere_tuple.mp h).2⟩
  | dict kvs ih =>
    obtain ⟨hd, h⟩ := everywhere_dict.mp h
    rw [stored_dict]
    refine everywhere_dict.mpr ⟨?_, fun k v hm => ?_⟩
    · show (Dict.keys _).Nodup
      rw [Dict.keys_map]
      exact hd
    · obtain ⟨⟨k', v'⟩, hv, e⟩ := List.mem_map.mp hm
      cases e
      exact ih k' v' hv (h k' v' hv)
  | _ => exact h

theorem unreserved_of_stored {v : PyVal} (h : unreserved (stored v)) : unreserved v := by
  induction v using PyVal.induct with
  | list xs ih =>
    rw [stored_list] at h
    exact everywhere_list.mpr ⟨trivial, fun x hx =>
      ih x hx ((everywhere_list.mp h).2 _ (List.mem_map_of_mem hx))⟩
  | tuple xs ih =>
    rw [stored_tuple] at h
    exact everywhere_tuple.mpr ⟨trivial, fun x hx =>
      ih x hx ((everywhere_list.mp h).2 _ (List.mem_map_of_mem hx))⟩
  | dict kvs ih =>
    rw [stored_dict] at h
    obtain ⟨hk, h⟩ := everywhere_dict.mp h
    refine everywhere_dict.mpr ⟨?_, fun k v hm =>
      ih k v hm (h k (stored v) (List.mem_map.mpr ⟨(k, v), hm, rfl⟩))⟩
    show Dict.contains kvs (.str TYPE_KEY) = false
    rw [contains_eq_false, ← Dict.keys_map stored, ← contains_eq_false]
    exact hk
  | _ => exact h

theorem orderFree_localUnreserved : OrderFree localUnreserved where
  dict h hd := by
    have hd := contains_eq_false.mp hd
    exact contains_eq_false.mpr fun hk => hd (h.mem_iff.mpr hk)
  set _ _ := trivial
  list _ := trivial
  tuple _ := trivial

/-- `w` is what is read back of `v`: its stored form, in some order. -/
def ReadsAs (v w : PyVal) : Prop := Same (stored v) w

theorem ReadsAs.dict_left {d : PyDict} {w : PyVal} (h : ReadsAs (.dict d) w) :
    ∃ d', w = .dict d' := by
  rw [ReadsAs, stored_dict] at h
  exact Same.dict_left h

theorem Same.atom {v w : PyVal} (h : Same v w) (hv : isAtom v = true) : w = v := by
  cases h.inversion with
  | eq => rfl
  | list h => cases hv
  | tuple h => cases hv
  | set h => cases hv
  | dict h h' => cases hv

theorem stored_atom {v : PyVal} (hv : isAtom v = true) : stored v = v := by
  cases v with
  | list xs => cases hv
  | tuple xs => cases hv
  | dict kvs => cases hv
  | _ => rfl

/-- An atom is read back as itself. -/
theorem ReadsAs.atom {v w : PyVal} (h : ReadsAs v w) (hv : isAtom v = true) : w = v := by
  rw [ReadsAs, stored_atom hv] at h
  exact h.atom hv

theorem readsAs_atom {v : PyVal} (hv : isAtom v = true) : ReadsAs v v := by
  rw [ReadsAs, stored_atom hv]
  exact .refl v

theorem distinct_stored {d : PyDict} (h : Dict.Distinct d) :
    Dict.Distinct (d.map fun kv => (kv.1, stored kv.2)) := by
  show (Dict.keys _).Nodup
  rw [Dict.keys_map]
  exact h

/-- **A dictionary and what is read back of it answer alike.** -/
theorem ReadsAs.get {d w : PyDict} (h : ReadsAs (.dict d) (.dict w))
    (hd : Dict.Distinct d) (k : PyKey) :
    Option.Rel Same ((Dict.get d k).map stored) (Dict.get w k) := by
  rw [ReadsAs, stored_dict] at h
  have h := Same.get h (distinct_stored hd) k
  rwa [Dict.get_map] at h

theorem ReadsAs.get_left {d w : PyDict} (h : ReadsAs (.dict d) (.dict w)) (hd : Dict.Distinct d)
    {k : PyKey} {v : PyVal} (hv : Dict.get d k = some v) :
    ∃ v', Dict.get w k = some v' ∧ ReadsAs v v' := by
  have h := h.get hd k
  rw [hv] at h
  generalize Dict.get w k = o at h
  cases h with
  | some h => exact ⟨_, rfl, h⟩

theorem ReadsAs.get_right {d w : PyDict} (h : ReadsAs (.dict d) (.dict w)) (hd : Dict.Distinct d)
    {k : PyKey} {v' : PyVal} (hv : Dict.get w k = some v') :
    ∃ v, Dict.get d k = some v ∧ ReadsAs v v' := by
  have h := h.get hd k
  rw [hv] at h
  generalize Dict.get d k = o at h
  cases o with
  | none => cases h
  | some v =>
    cases h with
    | some h => exact ⟨v, rfl, h⟩

theorem ReadsAs.distinct {d w : PyDict} (h : ReadsAs (.dict d) (.dict w))
    (hd : Dict.Distinct d) : Dict.Distinct w := by
  rw [ReadsAs, stored_dict] at h
  exact Same.distinct h (distinct_stored hd)

theorem ReadsAs.mem_right {d w : PyDict} (h : ReadsAs (.dict d) (.dict w)) (hd : Dict.Distinct d)
    {k : PyKey} {v' : PyVal} (hv : (k, v') ∈ w) : ∃ v, (k, v) ∈ d ∧ ReadsAs v v' := by
  obtain ⟨v, hv, hs⟩ := h.get_right hd (Dict.get_of_mem (h.distinct hd) hv)
  exact ⟨v, Dict.mem_of_get hv, hs⟩

theorem Same.put {a b : PyDict} (h : Same (.dict a) (.dict b)) (ha : Dict.Distinct a) (k : PyKey)
    {v w : PyVal} (hv : Same v w) : Same (.dict (Dict.put a k v)) (.dict (Dict.put b k w)) :=
  same_congruence.put ha (h.distinct ha) (h.get ha) k hv

theorem stored_put (d : PyDict) (k : PyKey) (v : PyVal) : stored (.dict (Dict.put d k v)) =
    .dict (Dict.put (d.map fun kv => (kv.1, stored kv.2)) k (stored v)) := by
  rw [stored_dict, Dict.map_put]

/-- What is read back stays so when one entry is changed on both sides. -/
theorem ReadsAs.put {d w : PyDict} (h : ReadsAs (.dict d) (.dict w))
    (hd : Dict.Distinct d) (k : PyKey) {v v' : PyVal} (hv : ReadsAs v v') :
    ReadsAs (.dict (Dict.put d k v)) (.dict (Dict.put w k v')) := by
  rw [ReadsAs, stored_dict] at h
  rw [ReadsAs, stored_put]
  exact Same.put h (distinct_stored hd) k hv

/-! ## 2. The raw scan accepts what is written -/

theorem rawListOk_iff : ∀ {xs : List Json}, rawListOk xs = true ↔ ∀ x ∈ xs, rawValueOk x = true
  | [] => by simp [rawListOk]
  | x :: xs => by simp [rawListOk, @rawListOk_iff xs]

theorem rawEntriesOk_iff : ∀ {kvs : List (Str × Json)},
    rawEntriesOk kvs = true ↔ ∀ kv ∈ kvs, rawValueOk kv.2 = true
  | [] => by simp [rawEntriesOk]
  | (k, v) :: kvs => by simp [rawEntriesOk, @rawEntriesOk_iff kvs]

theorem rawValueOk_envelope (tag : String) (v : Json) : rawValueOk (envelope tag v) = true := by
  have h : Dict.get [(TYPE_KEY, Json.str (lit tag)), (VALUE_KEY, v)] VALUE_KEY = some v := by
    rw [Dict.get_cons_ne typeKey_ne_valueKey, Dict.get_cons_self]
  simp [envelope, rawValueOk, Dict.contains, h, Dict.keys]

/-- The entries of an encoded dictionary, with their keys sorted. -/
theorem sorted_encoded {rt : Runtime} {kvs : PyDict} {e : Json}
    (he : encode rt (.dict kvs) = .ok e) : ∃ es, Json.sortKeys e = .obj es ∧
      ∀ k x, (k, x) ∈ es → ∃ v, (PyKey.str k, v) ∈ kvs ∧
        ∃ y, encode rt v = .ok y ∧ x = Json.sortKeys y := by
  obtain ⟨es, hes, rfl⟩ := encode_dict_ok.mp he
  refine ⟨_, Json.sortKeys_obj es, fun k x hm => ?_⟩
  have hm := (List.perm_insertionSort Json.KeyLe _).mem_iff.mp hm
  obtain ⟨⟨k', y⟩, hky, e⟩ := List.mem_map.mp hm
  cases e
  obtain ⟨⟨key, v⟩, hv, hk, hy⟩ := forall₂_mem_right hes hky
  obtain rfl : key = .str k' := hk
  exact ⟨v, hv, y, hy, rfl⟩

theorem contains_sorted {kvs : PyDict} {es : Dict Str Json}
    (h : ∀ k x, (k, x) ∈ es → ∃ v, (PyKey.str k, v) ∈ kvs) {k : Str}
    (hk : Dict.contains kvs (.str k) = false) : Dict.contains es k = false := by
  rw [contains_eq_false] at hk ⊢
  intro hm
  obtain ⟨⟨k', x⟩, hx, rfl⟩ := List.mem_map.mp hm
  obtain ⟨v, hv⟩ := h k' x hx
  exact hk (Dict.mem_keys_of_mem hv)

theorem rawValueOk_atom {rt : Runtime} {v : PyVal} (hv : isAtom v = true) {e : Json}
    (he : encode rt v = .ok e) : rawValueOk e = true := by
  cases encode_atom hv he with
  | text => exact rawValueOk_envelope _ _
  | _ => rfl

/-- **The raw scan accepts an encoded value** that has no reserved key. -/
theorem rawValueOk_encode {rt : Runtime} {v : PyVal} (hr : unreserved v) {e : Json}
    (he : encode rt v = .ok e) : rawValueOk (Json.sortKeys e) = true := by
  have items {xs : List PyVal} {es : List Json} (ih : ∀ x ∈ xs, unreserved x → ∀ {e : Json},
      encode rt x = .ok e → rawValueOk (Json.sortKeys e) = true) (hr : ∀ x ∈ xs, unreserved x)
      (h : List.Forall₂ (fun x y => encode rt x = .ok y) xs es) :
      rawValueOk (Json.sortKeys (.arr es)) = true := by
    rw [Json.sortKeys_arr, rawValueOk, rawListOk_iff]
    intro y hy
    obtain ⟨y', hy', rfl⟩ := List.mem_map.mp hy
    obtain ⟨x, hx, hxy⟩ := forall₂_mem_right h hy'
    exact ih x hx (hr x hx) hxy
  induction v using PyVal.induct generalizing e with
  | list xs ih =>
    obtain ⟨es, hes, rfl⟩ := encode_list_ok.mp he
    exact items ih (everywhere_list.mp hr).2 hes
  | tuple xs ih =>
    obtain ⟨es, hes, rfl⟩ := encode_tuple_ok.mp he
    exact items ih (everywhere_tuple.mp hr).2 hes
  | set xs ih =>
    obtain ⟨es, hes, keyed, hk, rfl⟩ := encode_set_ok.mp he
    rw [sortKeys_envelope]
    exact rawValueOk_envelope _ _
  | dict kvs ih =>
    obtain ⟨hk, hr⟩ := everywhere_dict.mp hr
    obtain ⟨es, hes, hm⟩ := sorted_encoded he
    have hc := contains_sorted (fun k x hx => (hm k x hx).imp fun _ h => h.1) hk
    rw [hes, rawValueOk, hc, if_neg Bool.false_ne_true, rawEntriesOk_iff]
    intro kx hkx
    obtain ⟨v, hv, y, hy, hx⟩ := hm kx.1 kx.2 hkx
    rw [hx]
    exact ih _ v hv (hr _ v hv) hy
  | frozenset xs ih => cases he
  | _ =>
    rw [(decode_encode_atom rfl he).1]
    exact rawValueOk_atom rfl he

/-- What the raw scan asks of one document. -/
theorem validateRawDocument_ok {id : Str} {fields : Dict Str Json} :
    validateRawDocument (id, .obj fields) = .ok () ↔ id ≠ [] ∧
      isEmptyStr (Dict.get fields (lit "id")) = false ∧ Dict.contains fields TYPE_KEY = false ∧
        rawEntriesOk fields = true := by
  rw [validateRawDocument, bind_unit_ok, bind_unit_ok, raiseIf_ok, raiseIf_ok,
    decide_eq_false_iff_not, validateRawDocumentTree]
  refine and_congr_right fun _ => and_congr_right fun _ => ?_
  cases Dict.contains fields TYPE_KEY with
  | true => simp
  | false => cases rawEntriesOk fields <;> simp

/-- One document, as it is written. -/
theorem validateRawDocument_encode {rt : Runtime} {id : Str} {document : PyVal}
    (hs : DocShape (.str id, document)) (hw : document.wf) (hr : unreserved document) {e : Json}
    (he : encode rt document = .ok e) : validateRawDocument (id, Json.sortKeys e) = .ok () := by
  obtain ⟨id', fields, h, hid, hget⟩ := hs
  cases h
  obtain ⟨hd, -⟩ := everywhere_dict.mp hw
  obtain ⟨es, hes, hm⟩ := sorted_encoded he
  have hraw := rawValueOk_encode hr he
  have hc := contains_sorted (fun k x hx => (hm k x hx).imp fun _ h => h.1) (everywhere_dict.mp hr).1
  rw [hes, rawValueOk, hc, if_neg Bool.false_ne_true] at hraw
  have hempty : isEmptyStr (Dict.get es (lit "id")) = false := by
    cases hg : Dict.get es (lit "id") with
    | none => rfl
    | some x =>
      -- the identifier field is written as the identifier, which is not empty
      obtain ⟨v, hv, y, hy, rfl⟩ := hm _ x (Dict.mem_of_get hg)
      obtain rfl : v = .str id := Option.some.inj ((Dict.get_of_mem hd hv).symm.trans hget)
      cases hy
      unfold isEmptyStr
      split
      · rename_i h
        cases h
        exact absurd rfl hid
      · rfl
  rw [hes]
  exact validateRawDocument_ok.mpr ⟨hid, hempty, hc, hraw⟩

theorem validateRawCollection_encode {rt : Runtime} {name : Str} {v : PyVal}
    (hs : CollShape (.str name, v)) (hw : v.wf) (hr : unreserved v) {e : Json}
    (he : encode rt v = .ok e) : validateRawCollection (name, Json.sortKeys e) = .ok () := by
  obtain ⟨hn, docs, h, hdocs⟩ := hs
  cases h
  obtain ⟨es, hes, hm⟩ := sorted_encoded he
  refine bind_unit_ok.mpr ⟨validateStoredName_ok.mpr hn, ?_⟩
  rw [hes]
  refine forEach_ok.mpr fun kx hkx => ?_
  obtain ⟨v, hv, y, hy, hx⟩ := hm kx.1 kx.2 hkx
  have h := validateRawDocument_encode (hdocs _ hv) ((everywhere_dict.mp hw).2 _ v hv)
    ((everywhere_dict.mp hr).2 _ v hv) hy
  rwa [← hx] at h

/-- **The raw scan accepts what is written** of a state of the right shape. -/
theorem validateRawDocumentFields_encode {rt : Runtime} {r : Bool} {s : State}
    {fields collections : PyDict} (hs : StateShape r s fields collections)
    (hw : (PyVal.dict s).wf) (hr : unreserved (.dict s)) {e : Json}
    (he : encode rt (.dict s) = .ok e) : validateRawDocumentFields (Json.sortKeys e) = .ok () := by
  obtain ⟨es, hes, hm⟩ := sorted_encoded he
  rw [hes, validateRawDocumentFields]
  split
  · rename_i cs hg
    obtain ⟨v, hv, y, hy, hx⟩ := hm _ _ (Dict.mem_of_get hg)
    obtain ⟨hd, hw⟩ := everywhere_dict.mp hw
    obtain rfl : v = .dict collections :=
      Option.some.inj ((Dict.get_of_mem hd hv).symm.trans hs.collectionsIs)
    have hw := (everywhere_dict.mp (hw _ _ hv)).2
    have hr := (everywhere_dict.mp ((everywhere_dict.mp hr).2 _ _ hv)).2
    obtain ⟨cs', hcs, hm⟩ := sorted_encoded hy
    obtain rfl : cs = cs' := Json.obj.inj (hx.trans hcs)
    refine forEach_ok.mpr fun kx hkx => ?_
    obtain ⟨v, hv, y, hy, hx⟩ := hm kx.1 kx.2 hkx
    have h := validateRawCollection_encode (hs.shapes _ hv) (hw _ v hv) (hr _ v hv) hy
    rwa [← hx] at h
  · rfl

/-! ## 3. The shape check and the checksum on what is read back -/

theorem isAtom_of_version {v : PyVal} (h : eqVals v (.int VERSION) = .ok true) :
    isAtom v = true := by
  cases v with
  | frozenset xs => simp [eqVals, eqRaises, pyEq, members] at h
  | set xs => simp [eqVals, eqRaises, pyEq, members] at h
  | dict kvs => simp [eqVals, eqRaises, pyEq] at h
  | list xs => simp [eqVals, eqRaises, pyEq] at h
  | tuple xs => simp [eqVals, eqRaises, pyEq] at h
  | _ => rfl

theorem MetaShape.same {fields fields' : PyDict} (h : MetaShape fields)
    (hd : Dict.Distinct fields) (hs : ReadsAs (.dict fields) (.dict fields')) :
    MetaShape fields' := by
  constructor
  · obtain ⟨v, hv, hsv⟩ := hs.get_left hd h.format
    rw [hv, hsv.atom rfl]
  · cases hg : Dict.get fields VERSION_KEY with
    | none =>
      have hv := h.version
      rw [hg] at hv
      exact absurd hv (by simp [eqVals, eqRaises, pyEq])
    | some v =>
      have hv := h.version
      rw [hg] at hv
      obtain ⟨v', hv', hsv⟩ := hs.get_left hd hg
      rw [hv', hsv.atom (isAtom_of_version hv)]
      exact hv

theorem DocShape.same {key : PyKey} {v v' : PyVal} (h : DocShape (key, v)) (hw : v.wf)
    (hs : ReadsAs v v') : DocShape (key, v') := by
  obtain ⟨id, fields, e, hid, hg⟩ := h
  cases e
  obtain ⟨fields', rfl⟩ := hs.dict_left
  obtain ⟨x, hx, hsx⟩ := hs.get_left (everywhere_dict.mp hw).1 hg
  refine ⟨id, fields', rfl, hid, ?_⟩
  rw [hx, hsx.atom rfl]

theorem CollShape.same {key : PyKey} {v v' : PyVal} (h : CollShape (key, v)) (hw : v.wf)
    (hs : ReadsAs v v') : CollShape (key, v') := by
  obtain ⟨hn, docs, e, hdocs⟩ := h
  cases e
  obtain ⟨docs', rfl⟩ := hs.dict_left
  obtain ⟨hd, hw⟩ := everywhere_dict.mp hw
  refine ⟨hn, docs', rfl, fun doc hdoc => ?_⟩
  obtain ⟨d, hm, hsd⟩ := hs.mem_right hd hdoc
  exact (hdocs _ hm).same (hw _ d hm) hsd

/-- **A state and what is read back of it have the same shape.** -/
theorem StateShape.same {r : Bool} {s w : State} {fields collections : PyDict}
    (h : StateShape r s fields collections) (hw : (PyVal.dict s).wf)
    (hs : ReadsAs (.dict s) (.dict w)) : ∃ fields' collections',
      StateShape r w fields' collections' ∧ ReadsAs (.dict fields) (.dict fields') ∧
        ReadsAs (.dict collections) (.dict collections') := by
  obtain ⟨hd, hw⟩ := everywhere_dict.mp hw
  obtain ⟨m, hm, hsm⟩ := hs.get_left hd h.metaIs
  obtain ⟨fields', rfl⟩ := hsm.dict_left
  obtain ⟨c, hc, hsc⟩ := hs.get_left hd h.collectionsIs
  obtain ⟨collections', rfl⟩ := hsc.dict_left
  have hwm := (everywhere_dict.mp (hw _ _ (Dict.mem_of_get h.metaIs))).1
  obtain ⟨hdc, hwc⟩ := everywhere_dict.mp (hw _ _ (Dict.mem_of_get h.collectionsIs))
  refine ⟨fields', collections', ⟨hm, h.metaShape.same hwm hsm, fun hr => ?_, hc, fun entry he => ?_⟩,
    hsm, hsc⟩
  · obtain ⟨d, hd⟩ := h.checksum hr
    obtain ⟨v, hv, hsv⟩ := hsm.get_left hwm hd
    exact ⟨d, by rw [hv, hsv.atom rfl]⟩
  · obtain ⟨v, hv, hsv⟩ := hsc.mem_right hdc he
    exact (h.shapes _ hv).same (hwc _ v hv) hsv

theorem ReadsAs.withChecksum {s w : State} {fields fields' : PyDict}
    (hs : ReadsAs (.dict s) (.dict w)) (hd : Dict.Distinct s)
    (hf : ReadsAs (.dict fields) (.dict fields')) (hfd : Dict.Distinct fields) (v : PyVal)
    (hv : isAtom v = true) : ReadsAs (.dict (JsonDatabase.withChecksum s fields v))
      (.dict (JsonDatabase.withChecksum w fields' v)) :=
  hs.put hd META (hf.put hfd CONTENT_SHA256 (readsAs_atom hv))

/-- **The same values are written as the same bytes.** -/
theorem Same.dumpBytes {rt : Runtime} {σ : Style} {v w : PyVal} (h : Same v w) (hv : v.wf)
    {b : Bytes} (hb : dumpBytes rt σ v = .ok b) : JsonDatabase.dumpBytes rt σ w = .ok b := by
  obtain ⟨e, he, hj, hsc, rfl⟩ := dumpBytes_ok.mp hb
  have hu : (Json.sortKeys e).unsplit := (Json.texts_sortKeys e).mpr (Json.unsplit_of_scalar hsc)
  obtain ⟨-, e', he', hee⟩ := (Same.encodes h hu).mp ⟨hv, e, he, rfl⟩
  refine dumpBytes_ok.mpr ⟨e', he', ?_, ?_, by rw [hee]⟩
  · rw [← Json.dumpable_sortKeys, hee, Json.dumpable_sortKeys, hj]
  · rw [← Json.scalar_sortKeys, hee, Json.scalar_sortKeys, hsc]

/-- **A state and what is read back of it have the same canonical form.** -/
theorem ReadsAs.canonicalBytes {rt : Runtime} {s w : State} {fields : PyDict}
    (hs : ReadsAs (.dict s) (.dict w)) (hw : (PyVal.dict s).wf)
    (hm : Dict.get s META = some (.dict fields)) {b : Bytes}
    (hb : canonicalBytes rt s = .ok b) : JsonDatabase.canonicalBytes rt w = .ok b := by
  obtain ⟨hds, hws⟩ := everywhere_dict.mp hw
  obtain ⟨m, hm', hf⟩ := hs.get_left hds hm
  obtain ⟨fields', rfl⟩ := hf.dict_left
  have hwf := hws _ _ (Dict.mem_of_get hm)
  have hsame := hs.withChecksum hds hf (everywhere_dict.mp hwf).1 .none rfl
  rw [JsonDatabase.canonicalBytes, setChecksum_of_meta hm] at hb
  rw [JsonDatabase.canonicalBytes, setChecksum_of_meta hm']
  refine Same.dumpBytes hsame (wf_stored (putClosed_wf.withChecksum hw hm putClosed_wf.none)) ?_
  rw [dumpBytes_stored]
  exact hb

/-! ## 4. What was written is read -/

/-- **Reading what was written**: a state of the right shape, with its checksum and without
    reserved keys, comes back as its stored form. -/
theorem load_written {rt : Runtime} {p : State} {fields collections : PyDict}
    (hs : StateShape true p fields collections) (hw : (PyVal.dict p).wf)
    (hr : unreserved (.dict p)) {d : Str} (hc : computeChecksum rt .total p = .ok d)
    (hd : Dict.get fields CONTENT_SHA256 = some (.str d)) {σ : Style} {b : Bytes}
    (hb : dumpBytes rt σ (.dict p) = .ok b) :
    ∃ w, loadBytes rt b = .ok w ∧ ReadsAs (.dict p) (.dict w) := by
  obtain ⟨e, he, hj, hsc, rfl⟩ := dumpBytes_ok.mp hb
  obtain ⟨bc, hbc, hdc⟩ := computeChecksum_ok.mp hc
  obtain ⟨v, hv, hsame⟩ := decode_sorted hw hr he
  have hsame : ReadsAs (.dict p) v := hsame
  obtain ⟨w, rfl⟩ := hsame.dict_left
  obtain ⟨fields', collections', hs', hf, -⟩ := hs.same hw hsame
  have hsc' : (Json.sortKeys e).scalar = true := by rw [Json.scalar_sortKeys, hsc]
  have hfd := (everywhere_dict.mp ((everywhere_dict.mp hw).2 _ _ (Dict.mem_of_get hs.metaIs))).1
  obtain ⟨v, hv', hsv⟩ := hf.get_left hfd hd
  refine ⟨w, loadBytes_ok.mpr ⟨textBytes_ne_nil hsc', _, parseBytes_textBytes
    (Json.distinct_sortKeys (distinct_encode hw he)) (by rw [Json.dumpable_sortKeys, hj]) hsc',
    validateRawDocumentFields_encode hs hw hr he, hv,
    validateStateShape_ok.mpr ⟨w, _, _, rfl, hs'⟩,
    (verifyChecksum_ok hs'.metaIs).mpr ⟨d, computeChecksum_ok.mpr
      ⟨bc, hsame.canonicalBytes hw hs.metaIs hbc, hdc⟩, ?_⟩⟩, hsame⟩
  rw [hv', hsv.atom rfl]

end JsonDatabase
