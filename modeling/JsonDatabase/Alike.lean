/-
  File:      JsonDatabase/Alike.lean
  Subject:   States that hold the same documents, up to tuples outside sets.

  A transaction works on the values it was given; in autocommit mode every operation starts from
  what was written and read again. The two states differ in tuples, in orders and in their meta
  blocks, and no write sees the difference.

  * `Alike`, `Parallel` -- the relation on values and on states;
  * `OpCall.lockstep` -- a write that returns on one of two such states returns on the other;
  * `Rep.read_back` -- what a commit wrote, if it can be read at all.
-/
import JsonDatabase.Durability

namespace JsonDatabase

open PyVal hiding none

/-! ## 1. Values -/

/-- Read back, the two values are the same. -/
def Alike (v w : PyVal) : Prop := Same (stored v) (stored w)

namespace Alike

theorem refl (v : PyVal) : Alike v v := Same.refl _

theorem symm {v w : PyVal} (h : Alike v w) : Alike w v := Same.symm h

theorem trans {u v w : PyVal} (h : Alike u v) (h' : Alike v w) : Alike u w := Same.trans h h'

theorem of_readsAs {v w : PyVal} (h : ReadsAs v w) : Alike v w := by
  have h := Same.stored h
  rwa [stored_idem] at h

theorem dict_right {v : PyVal} {d : PyDict} (h : Alike v (.dict d)) : ∃ c, v = .dict c := by
  rw [Alike, stored_dict] at h
  obtain ⟨c, hc⟩ := Same.dict_left h.symm
  cases v with
  | dict c => exact ⟨c, rfl⟩
  | list xs => rw [stored_list] at hc; cases hc
  | tuple xs => rw [stored_tuple] at hc; cases hc
  | _ => cases hc

variable {c d : PyDict}

theorem get (h : Alike (.dict c) (.dict d)) (hc : Dict.Distinct c) (k : PyKey) :
    Option.Rel Alike (Dict.get c k) (Dict.get d k) := by
  rw [Alike, stored_dict, stored_dict] at h
  have h := Same.get h (distinct_stored hc) k
  rw [Dict.get_map, Dict.get_map] at h
  generalize Dict.get c k = o at h ⊢
  generalize Dict.get d k = o' at h ⊢
  cases o with
  | none =>
    cases o' with
    | none => exact .none
    | some w => cases h
  | some v =>
    cases o' with
    | none => cases h
    | some w =>
      cases h with
      | some h => exact .some h

theorem contains (h : Alike (.dict c) (.dict d)) (hc : Dict.Distinct c) (k : PyKey) :
    Dict.contains c k = Dict.contains d k := by
  have h := h.get hc k
  unfold Dict.contains
  generalize Dict.get c k = o at h
  generalize Dict.get d k = o' at h
  cases h <;> rfl

theorem getD (h : Alike (.dict c) (.dict d)) (hc : Dict.Distinct c) (k : PyKey) (v : PyVal) :
    Alike ((Dict.get c k).getD v) ((Dict.get d k).getD v) := by
  have h := h.get hc k
  generalize Dict.get c k = o at h
  generalize Dict.get d k = o' at h
  cases h with
  | none => exact .refl v
  | some h => exact h

theorem get_right (h : Alike (.dict c) (.dict d)) (hc : Dict.Distinct c) {k : PyKey} {w : PyVal}
    (hw : Dict.get d k = some w) : ∃ v, Dict.get c k = some v ∧ Alike v w := by
  have h := h.get hc k
  rw [hw] at h
  generalize Dict.get c k = o at h
  cases h with
  | some h => exact ⟨_, rfl, h⟩

theorem put (h : Alike (.dict c) (.dict d)) (hc : Dict.Distinct c) (k : PyKey) {v w : PyVal}
    (hv : Alike v w) : Alike (.dict (Dict.put c k v)) (.dict (Dict.put d k w)) := by
  rw [Alike, stored_dict, stored_dict] at h
  rw [Alike, stored_put, stored_put]
  exact Same.put h (distinct_stored hc) k hv

theorem merge (h : Alike (.dict c) (.dict d)) (hc : Dict.Distinct c) :
    ∀ updates : PyDict, Alike (.dict (Dict.merge c updates)) (.dict (Dict.merge d updates)) := by
  intro updates
  induction updates generalizing c d with
  | nil => exact h
  | cons kv updates ih => exact ih (h.put hc kv.1 (.refl kv.2)) (Dict.distinct_put _ _ hc)

/-- Dictionaries that answer alike are alike. -/
theorem of_get (hc : Dict.Distinct c) (hd : Dict.Distinct d)
    (h : ∀ k, Option.Rel Alike (Dict.get c k) (Dict.get d k)) : Alike (.dict c) (.dict d) := by
  rw [Alike, stored_dict, stored_dict]
  refine same_dict (distinct_stored hc) (distinct_stored hd) fun k => ?_
  have h := h k
  rw [Dict.get_map, Dict.get_map]
  generalize Dict.get c k = o at h ⊢
  generalize Dict.get d k = o' at h ⊢
  cases h with
  | none => exact .none
  | some h => exact .some h

theorem drop (h : Alike (.dict c) (.dict d)) (hc : Dict.Distinct c) (hd : Dict.Distinct d)
    (k : PyKey) : Alike (.dict (Dict.drop c k)) (.dict (Dict.drop d k)) := by
  refine of_get (Dict.distinct_drop k hc) (Dict.distinct_drop k hd) fun k' => ?_
  rw [Dict.get_drop k k' hc, Dict.get_drop k k' hd]
  split
  · exact .none
  · exact h.get hc k'

end Alike

/-! ## 2. Dictionaries -/

/-- Two dictionaries the interpreter can build that are alike. -/
structure AlikeDicts (c d : PyDict) : Prop where
  left : (PyVal.dict c).wf
  right : (PyVal.dict d).wf
  alike : Alike (.dict c) (.dict d)

namespace AlikeDicts

variable {c d : PyDict}

theorem distinct (h : AlikeDicts c d) : Dict.Distinct c := (everywhere_dict.mp h.left).1

theorem put (h : AlikeDicts c d) (k : PyKey) {v w : PyVal} (hv : v.wf) (hw : w.wf)
    (hvw : Alike v w) : AlikeDicts (Dict.put c k v) (Dict.put d k w) :=
  ⟨wf_put h.left k hv, wf_put h.right k hw, h.alike.put h.distinct k hvw⟩

theorem drop (h : AlikeDicts c d) (k : PyKey) : AlikeDicts (Dict.drop c k) (Dict.drop d k) := by
  obtain ⟨hc, hcs⟩ := everywhere_dict.mp h.left
  obtain ⟨hd, hds⟩ := everywhere_dict.mp h.right
  exact ⟨everywhere_dict.mpr ⟨Dict.distinct_drop k hc, fun k v hm => hcs k v (Dict.mem_of_mem_drop hm)⟩,
    everywhere_dict.mpr ⟨Dict.distinct_drop k hd, fun k v hm => hds k v (Dict.mem_of_mem_drop hm)⟩,
    h.alike.drop hc hd k⟩

theorem merge (h : AlikeDicts c d) {updates : PyDict} (hu : (PyVal.dict updates).wf) :
    AlikeDicts (Dict.merge c updates) (Dict.merge d updates) := by
  obtain ⟨hc, hcs⟩ := everywhere_dict.mp h.left
  obtain ⟨hd, hds⟩ := everywhere_dict.mp h.right
  obtain ⟨-, hus⟩ := everywhere_dict.mp hu
  exact ⟨everywhere_dict.mpr ⟨Dict.distinct_merge _ hc, Dict.forall_merge hcs hus⟩,
    everywhere_dict.mpr ⟨Dict.distinct_merge _ hd, Dict.forall_merge hds hus⟩,
    h.alike.merge hc updates⟩

/-- A dictionary inside, or the empty one. -/
theorem getD (h : AlikeDicts c d) (k : PyKey) {d' : PyDict}
    (hd' : asDict ((Dict.get d k).getD (.dict [])) = .ok d') :
    ∃ c', asDict ((Dict.get c k).getD (.dict [])) = .ok c' ∧ AlikeDicts c' d' := by
  have ha := h.alike.getD h.distinct k (.dict [])
  have hr := wf_getD h.right k wf_empty
  have hl := wf_getD h.left k wf_empty
  rw [asDict_ok.mp hd'] at ha hr
  obtain ⟨c', hc'⟩ := ha.dict_right
  rw [hc'] at ha hl
  exact ⟨c', asDict_ok.mpr hc', hl, hr, ha⟩

/-- A dictionary inside. -/
theorem get (h : AlikeDicts c d) {k : PyKey} {d' : PyDict}
    (hd' : Dict.get d k = some (.dict d')) :
    ∃ c', Dict.get c k = some (.dict c') ∧ AlikeDicts c' d' := by
  obtain ⟨v, hv, ha⟩ := h.alike.get_right h.distinct hd'
  obtain ⟨c', rfl⟩ := ha.dict_right
  exact ⟨c', hv, (everywhere_dict.mp h.left).2 _ _ (Dict.mem_of_get hv),
    (everywhere_dict.mp h.right).2 _ _ (Dict.mem_of_get hd'), ha⟩

end AlikeDicts

/-! ## 3. States -/

/-- Their collections are alike. -/
def Parallel (s t : State) : Prop :=
  ∃ c d, Dict.get s COLLECTIONS = some (.dict c) ∧ Dict.get t COLLECTIONS = some (.dict d) ∧
    AlikeDicts c d

namespace Parallel

variable {s t : State}

theorem collectionsOf (h : Parallel s t) {d : PyDict} (hd : collectionsOf t = .ok d) :
    ∃ c, JsonDatabase.collectionsOf s = .ok c ∧ AlikeDicts c d := by
  obtain ⟨c, d', hc, hd', ha⟩ := h
  rw [JsonDatabase.collectionsOf, hd'] at hd
  cases hd
  exact ⟨c, by rw [JsonDatabase.collectionsOf, hc]; rfl, ha⟩

theorem writeDocs {c d : PyDict} (h : AlikeDicts c d) (name : PyKey) {docs docs' : PyDict}
    (hd : AlikeDicts docs docs') : Parallel (writeDocs s c name docs) (writeDocs t d name docs') :=
  ⟨_, _, Dict.get_put_self _ _ _, Dict.get_put_self _ _ _, h.put name hd.left hd.right hd.alike⟩

theorem getCollectionRef (h : Parallel s t) {collection : PyVal} {docs' : PyDict}
    (hd : getCollectionRef t collection = .ok docs') :
    ∃ docs, JsonDatabase.getCollectionRef s collection = .ok docs ∧ AlikeDicts docs docs' := by
  obtain ⟨hn, d, hd, hg⟩ := getCollectionRef_ok.mp hd
  obtain ⟨c, hc, ha⟩ := h.collectionsOf hd
  obtain ⟨docs, hdocs, ha'⟩ := ha.get hg
  exact ⟨docs, getCollectionRef_ok.mpr ⟨hn, c, hc, hdocs⟩, ha'⟩

theorem getDocumentRef (h : Parallel s t) {collection id : PyVal} {fields' : PyDict}
    (hd : getDocumentRef t collection id = .ok fields') :
    ∃ fields, JsonDatabase.getDocumentRef s collection id = .ok fields ∧
      AlikeDicts fields fields' := by
  obtain ⟨hi, docs', hd, hg⟩ := getDocumentRef_ok.mp hd
  obtain ⟨docs, hdocs, ha⟩ := h.getCollectionRef hd
  obtain ⟨fields, hf, ha'⟩ := ha.get hg
  exact ⟨fields, getDocumentRef_ok.mpr ⟨hi, docs, hdocs, hf⟩, ha'⟩

end Parallel

/-! ## 4. The writes -/

/-- Nothing is asked of what the two return. -/
def Any {α β : Type} (_ : α) (_ : β) : Prop := True

section Lockstep

variable {rt : Runtime} {collection id : PyVal}

theorem lockstep_ensureCollection :
    Lockstep Parallel Any (ensureCollection collection) (ensureCollection collection) := by
  refine .bind_same fun _ _ => .bind_get fun s t h => .bind_lift fun d hd => ?_
  obtain ⟨c, hc, ha⟩ := h.collectionsOf hd
  refine ⟨c, hc, .bind_lift fun docs' hd' => ?_⟩
  obtain ⟨docs, hdocs, ha'⟩ := ha.getD _ hd'
  exact ⟨docs, hdocs, .bind (Q := Any) (.set (.writeDocs ha _ ha') trivial) fun _ _ _ => .pure trivial⟩

theorem lockstep_assignDocument {document document' : PyDict}
    (h : AlikeDicts document document') : Lockstep Parallel Any
      (assignDocument collection id document) (assignDocument collection id document') := by
  refine .bind_get fun s t hst => .bind_lift fun d hd => ?_
  obtain ⟨c, hc, ha⟩ := hst.collectionsOf hd
  refine ⟨c, hc, .bind_lift fun docs' hd' => ?_⟩
  obtain ⟨docs, hdocs, ha'⟩ := ha.getD _ hd'
  exact ⟨docs, hdocs, .set (.writeDocs ha _ (ha'.put _ h.left h.right h.alike)) trivial⟩

/-- The collection is created if it is missing, the document stored, and `v` returned. -/
theorem lockstep_store {document : PyDict} (hw : (PyVal.dict document).wf) {v : PyVal} :
    Lockstep Parallel Alike
      (ensureCollection collection >>= fun _ => assignDocument collection id document >>= fun _ =>
        pure v)
      (ensureCollection collection >>= fun _ => assignDocument collection id document >>= fun _ =>
        pure v) :=
  .bind lockstep_ensureCollection fun _ _ _ =>
    .bind (lockstep_assignDocument ⟨hw, hw, .refl _⟩) fun _ _ _ => .pure (.refl v)

theorem copyDict_total {v : PyVal} {d : PyDict} (h : copyDict .total v = .ok d) : v = .dict d :=
  (copyDict_ok.mp h).2

theorem lockstep_insertDocument {document : PyVal} (hw : document.wf) {uuid : Uuid} :
    Lockstep Parallel Alike (insertDocument rt .total collection document uuid)
      (insertDocument rt .total collection document uuid) := by
  refine .bind_same fun _ _ => .bind_same fun _ _ => .bind_same fun _ _ => .bind_same fun stored hs => ?_
  obtain rfl := copyDict_total hs
  exact lockstep_store (wf_put hw ID (v := .str uuid.text) trivial)

theorem lockstep_updateDocument {updates : PyVal} (hw : updates.wf) :
    Lockstep Parallel Alike (updateDocument rt .total collection id updates)
      (updateDocument rt .total collection id updates) := by
  refine .bind_same fun _ _ => .bind_same fun _ _ => .bind_same fun _ _ => .bind_get fun s t h =>
    .bind_lift fun fields' hf => ?_
  obtain ⟨fields, hf, ha⟩ := h.getDocumentRef hf
  refine ⟨fields, hf, .bind_same fun copied hc => ?_⟩
  obtain rfl := copyDict_total hc
  have hm := ha.merge hw
  refine .bind (lockstep_assignDocument hm) fun _ _ _ => .lift fun v hv => ?_
  cases hv
  exact ⟨_, rfl, hm.alike⟩

theorem lockstep_replaceDocument {document : PyVal} (hw : document.wf) (hi : id.wf) :
    Lockstep Parallel Alike (replaceDocument rt .total collection id document)
      (replaceDocument rt .total collection id document) := by
  refine .bind_same fun _ _ => .bind_same fun stored hs => .bind_same fun _ _ =>
    .bind_get fun s t h => .bind_lift fun fields' hf => ?_
  obtain rfl := copyDict_total hs
  obtain ⟨fields, hf, -⟩ := h.getDocumentRef hf
  have hw := wf_put hw ID hi
  refine ⟨fields, hf, .bind lockstep_ensureCollection fun _ _ _ =>
    .bind (lockstep_assignDocument ⟨hw, hw, .refl _⟩) fun _ _ _ => .lift fun v hv => ?_⟩
  exact ⟨v, hv, .refl v⟩

theorem lockstep_deleteDocument : Lockstep Parallel Alike (deleteDocument collection id)
    (deleteDocument collection id) := by
  refine .bind_same fun _ _ => .bind_get fun s t h => .bind_lift fun docs' hd => ?_
  obtain ⟨docs, hd, ha⟩ := h.getCollectionRef hd
  refine ⟨docs, hd, .bind_lift fun _ hm => ?_⟩
  rw [← ha.alike.contains ha.distinct] at hm
  refine ⟨(), hm, .bind_lift fun d hd => ?_⟩
  obtain ⟨c, hc, ha'⟩ := h.collectionsOf hd
  exact ⟨c, hc, .bind (Q := Any) (.set (.writeDocs ha' _ (ha.drop _)) trivial) fun _ _ _ => .pure (.refl _)⟩

theorem lockstep_upsertDocument {document : PyVal} (hw : document.wf) (hi : id.wf) :
    Lockstep Parallel Alike (upsertDocument rt .total collection id document)
      (upsertDocument rt .total collection id document) := by
  refine .bind_same fun _ _ => .bind_same fun _ _ => .bind_same fun stored hs => .bind_same fun _ _ => ?_
  obtain rfl := copyDict_total hs
  exact lockstep_store (wf_put hw ID hi)

theorem lockstep_storeInserts : ∀ {inserts : List (Uuid × PyVal)}, (∀ p ∈ inserts, p.2.wf) →
    Lockstep Parallel Any (storeInserts .total collection inserts)
      (storeInserts .total collection inserts)
  | [], _ => .pure trivial
  | (uuid, document) :: rest, h => by
      refine .bind_same fun stored hs => ?_
      obtain rfl := copyDict_total hs
      have hw := wf_put (h _ List.mem_cons_self) ID (v := .str uuid.text) trivial
      refine .bind (lockstep_assignDocument ⟨hw, hw, .refl _⟩) fun _ _ _ => ?_
      exact lockstep_storeInserts fun p hp => h p (List.mem_cons_of_mem _ hp)

theorem lockstep_bulkInsertDocuments {documents : PyVal} (hw : documents.wf)
    {uuids : Nat → Uuid} : Lockstep Parallel Alike
      (bulkInsertDocuments rt .total collection documents uuids)
      (bulkInsertDocuments rt .total collection documents uuids) := by
  cases documents with
  | list documents =>
    refine .bind_same fun _ _ => .bind lockstep_ensureCollection fun _ _ _ =>
      .bind (lockstep_storeInserts fun p hp => ?_) fun _ _ _ => .pure (.refl _)
    exact (everywhere_list.mp hw).2 _ (List.of_mem_zip hp).2
  | _ => exact .throw

theorem lockstep_applyUpdates : ∀ {pairs : List (PyVal × PyVal)}, (∀ p ∈ pairs, p.2.wf) →
    Lockstep Parallel Any (applyUpdates .total collection pairs)
      (applyUpdates .total collection pairs)
  | [], _ => .pure trivial
  | (id, update) :: rest, h => by
      refine .bind_get fun s t hst => .bind_lift fun fields' hf => ?_
      obtain ⟨fields, hf, ha⟩ := hst.getDocumentRef hf
      refine ⟨fields, hf, .bind_same fun copied hc => ?_⟩
      obtain rfl := copyDict_total hc
      refine .bind (lockstep_assignDocument (ha.merge (h _ List.mem_cons_self))) fun _ _ _ => ?_
      exact lockstep_applyUpdates fun p hp => h p (List.mem_cons_of_mem _ hp)

/-- The checks look at the documents of the collection only for whether one is there. -/
theorem checkUpdate_congr {docs docs' : PyDict}
    (h : ∀ k, Dict.contains docs k = Dict.contains docs' k) (item : PyVal) :
    checkUpdate rt collection docs item = checkUpdate rt collection docs' item := by
  unfold checkUpdate
  simp only [h]

/-- A checked item is part of what was passed. -/
theorem wf_of_checkUpdate {docs : PyDict} {item : PyVal} {p : PyVal × PyVal} (hw : item.wf)
    (h : checkUpdate rt collection docs item = .ok p) : p.2.wf := by
  obtain ⟨id, update⟩ := p
  obtain ⟨rfl | rfl, -⟩ := checkUpdate_ok h
  · exact (everywhere_tuple.mp hw).2 update (by simp)
  · exact (everywhere_list.mp hw).2 update (by simp)

theorem lockstep_bulkUpdateDocuments {updates : PyVal} (hw : updates.wf) :
    Lockstep Parallel Alike (bulkUpdateDocuments rt .total collection updates)
      (bulkUpdateDocuments rt .total collection updates) := by
  cases updates with
  | list updates =>
    refine .bind_get fun s t h => .bind_lift fun docs' hd => ?_
    obtain ⟨docs, hd, ha⟩ := h.getCollectionRef hd
    refine ⟨docs, hd, .bind_lift fun normalized hm => ?_⟩
    rw [← funext (checkUpdate_congr fun k => ha.alike.contains ha.distinct k)] at hm
    refine ⟨normalized, hm, .bind (lockstep_applyUpdates fun p hp => ?_) fun _ _ _ => .pure (.refl _)⟩
    obtain ⟨item, hitem, hc⟩ := forall₂_mem_right (mapM_ok.mp hm) hp
    exact wf_of_checkUpdate ((everywhere_list.mp hw).2 item hitem) hc
  | _ => exact .throw

/-- **A write that returns on one of two parallel states returns on the other**, with a result
    that is alike, and leaves parallel states. -/
theorem OpCall.lockstep (call : OpCall) :
    Lockstep Parallel Alike (call.run rt .total) (call.run rt .total) := by
  cases call with
  | insert c d u => exact lockstep_insertDocument d.wf
  | update c i u => exact lockstep_updateDocument u.wf
  | replace c i d => exact lockstep_replaceDocument d.wf i.wf
  | delete c i => exact lockstep_deleteDocument
  | upsert c i d => exact lockstep_upsertDocument d.wf i.wf
  | bulkInsert c ds us => exact lockstep_bulkInsertDocuments ds.wf
  | bulkUpdate c us => exact lockstep_bulkUpdateDocuments us.wf

end Lockstep

/-! ## 5. What was written, if it can be read -/

section ReadBack

variable {rt : Runtime} {cp : Copier}

/-- An entry of a dictionary in the text of the dictionary. -/
theorem mem_sorted {kvs : PyDict} {e : Json} (he : encode rt (.dict kvs) = .ok e) :
    ∃ es, Json.sortKeys e = .obj es ∧ ∀ k v, (PyKey.str k, v) ∈ kvs →
      ∃ y, encode rt v = .ok y ∧ (k, Json.sortKeys y) ∈ es := by
  obtain ⟨es, hes, rfl⟩ := encode_dict_ok.mp he
  refine ⟨_, Json.sortKeys_obj es, fun k v hm => ?_⟩
  obtain ⟨⟨k', y⟩, hy, hk, hv⟩ := forall₂_mem_left hes hm
  cases hk
  exact ⟨y, hv, (List.perm_insertionSort Json.KeyLe _).mem_iff.mpr (List.mem_map.mpr ⟨_, hy, rfl⟩)⟩

/-- The text of a dictionary looked up. -/
theorem get_sorted {kvs : PyDict} (hw : (PyVal.dict kvs).wf) {e : Json}
    (he : encode rt (.dict kvs) = .ok e) {k : Str} {v : PyVal}
    (hv : Dict.get kvs (.str k) = some v) : ∃ es y, Json.sortKeys e = .obj es ∧
      encode rt v = .ok y ∧ Dict.get es k = some (Json.sortKeys y) := by
  obtain ⟨es, hes, hm⟩ := mem_sorted he
  obtain ⟨y, hy, hky⟩ := hm k v (Dict.mem_of_get hv)
  have hd := Json.distinct_sortKeys (distinct_encode hw he)
  rw [hes] at hd
  exact ⟨es, y, hes, hy, Dict.get_of_mem (Json.distinct_obj.mp hd).1 hky⟩

/-- Where a dictionary without the reserved key is decoded, so are its values. -/
theorem decode_inside {kvs : PyDict} {e : Json} (he : encode rt (.dict kvs) = .ok e) {w : PyVal}
    (hd : decode rt (Json.sortKeys e) = .ok w) (hc : Dict.contains kvs (.str TYPE_KEY) = false)
    {k : Str} {v : PyVal} (hv : (PyKey.str k, v) ∈ kvs) :
    ∃ y w', encode rt v = .ok y ∧ decode rt (Json.sortKeys y) = .ok w' := by
  obtain ⟨es, hes, hm⟩ := mem_sorted he
  obtain ⟨es', hes', hm'⟩ := sorted_encoded he
  obtain rfl : es = es' := Json.obj.inj (hes.symm.trans hes')
  have hc := contains_sorted (fun k x hx => (hm' k x hx).imp fun _ h => h.1) hc
  rw [hes] at hd
  obtain ⟨vs, hvs, -⟩ := (decode_obj_ok hc).mp hd
  obtain ⟨y, hy, hky⟩ := hm k v hv
  obtain ⟨⟨k', w'⟩, -, -, hw'⟩ := forall₂_mem_left hvs hky
  exact ⟨y, w', hy, hw'⟩

/-- An object is no type tag. -/
theorem not_decoded_tag {kvs : PyDict} (hw : (PyVal.dict kvs).wf) {e : Json}
    (he : encode rt (.dict kvs) = .ok e) {w : PyVal} (hd : decode rt (Json.sortKeys e) = .ok w)
    (hdict : ∀ v, (PyKey.str TYPE_KEY, v) ∈ kvs → ∃ fields, v = .dict fields) :
    Dict.contains kvs (.str TYPE_KEY) = false := by
  cases hg : Dict.get kvs (.str TYPE_KEY) with
  | none => rw [Dict.contains, hg]; rfl
  | some v =>
    obtain ⟨es, y, hes, hy, hget⟩ := get_sorted hw he hg
    obtain ⟨fields, rfl⟩ := hdict v (Dict.mem_of_get hg)
    obtain ⟨ys, hys, -⟩ := mem_sorted hy
    rw [hes, decode, Dict.contains, hget, hys] at hd
    cases hd

/-- **What can be read back has no document under the reserved key.** -/
theorem Rep.noReservedId_of_load {base s : State} (hb : Loaded rt base) (h : Rep rt base s)
    {now : DateTime} {p : State} (hp : prepareForCommit rt cp now s = .ok p) {σ : Style} {b : Bytes}
    (hdump : dumpBytes rt σ (.dict p) = .ok b) {w : State} (hw : loadBytes rt b = .ok w) :
    NoReservedId s := by
  obtain ⟨fields, c, hs, hg⟩ := h.shape hb
  obtain ⟨-, d, hd, rfl⟩ := (prepareForCommit_ok hs).mp hp
  obtain ⟨e, he, hj, hsc, rfl⟩ := dumpBytes_ok.mp hdump
  have hpw := putClosed_wf.prepared (h.wf hb) hs.metaIs now (computeChecksum_ascii hd)
  obtain ⟨-, j, hparse, -, hdec, -⟩ := loadBytes_ok.mp hw
  rw [parseBytes_textBytes (Json.distinct_sortKeys (distinct_encode hpw he))
    (by rw [Json.dumpable_sortKeys, hj]) (by rw [Json.scalar_sortKeys, hsc])] at hparse
  cases hparse
  have hcp : Dict.get (prepared now s fields d) COLLECTIONS = some (.dict c) :=
    prepared_collections.trans hs.collectionsIs
  -- the top level and the names are free of the key
  have htop : Dict.contains (prepared now s fields d) (.str TYPE_KEY) = false := by
    obtain ⟨c', rfl, -⟩ := h
    have hm : META ≠ PyKey.str TYPE_KEY := by decide
    have hc : COLLECTIONS ≠ PyKey.str TYPE_KEY := by decide
    rw [prepared_eq_put, Dict.contains, Dict.get_put_ne _ hm, Dict.get_put_ne _ hc]
    exact (everywhere_dict.mp hb.decoded.unreserved).1
  obtain ⟨yc, wc, hyc, hwc⟩ := decode_inside he hdec htop (Dict.mem_of_get hcp)
  have hnames : Dict.contains c (.str TYPE_KEY) = false := by
    refine contains_eq_false.mpr fun hk => ?_
    obtain ⟨⟨name, v⟩, hv, e⟩ := List.mem_map.mp hk
    obtain ⟨n, hn, hne⟩ := ne_typeKey_of_validName (hg.valid name v hv)
    exact hne (PyKey.str.inj (hn.symm.trans e))
  intro c' name docs hget hn
  obtain rfl : c = c' := PyVal.dict.inj (Option.some.inj (hs.collectionsIs.symm.trans hget))
  obtain ⟨n, rfl, -⟩ := ne_typeKey_of_validName (hg.valid name _ hn)
  obtain ⟨yd, wd, hyd, hwd⟩ := decode_inside hyc hwc hnames hn
  obtain ⟨docs', e, hdocs⟩ := hg.good _ _ hn
  cases e
  refine not_decoded_tag ((everywhere_dict.mp hg.wf).2 _ _ hn) hyd hwd fun v hv => ?_
  obtain ⟨_, fields, e, -⟩ := (hdocs.good _ v hv).shape
  exact ⟨fields, congrArg Prod.snd e⟩

/-- **What a commit wrote, if it can be read at all**: the collections, read back. -/
theorem Rep.read_back {base s : State} (hb : Loaded rt base) (h : Rep rt base s) {now : DateTime}
    {b : Bytes} (hc : commitBytes rt cp now s = .ok b) {w : State} (hw : loadBytes rt b = .ok w) :
    ∃ c c', Dict.get s COLLECTIONS = some (.dict c) ∧ Dict.get w COLLECTIONS = some (.dict c') ∧
      (PyVal.dict c).wf ∧ ReadsAs (.dict c) (.dict c') := by
  obtain ⟨p, hp, hdump⟩ := bind_ok.mp hc
  obtain ⟨w', hw', hr⟩ := h.load_commit hb (h.noReservedId_of_load hb hp hdump hw) hp hdump
  obtain rfl : w' = w := Except.ok.inj (hw'.symm.trans hw)
  obtain ⟨fields, c, hs, hg⟩ := h.shape hb
  obtain ⟨-, d, hd, rfl⟩ := (prepareForCommit_ok hs).mp hp
  have hpw := putClosed_wf.prepared (h.wf hb) hs.metaIs now (computeChecksum_ascii hd)
  obtain ⟨v, hv, hcv⟩ := hr.get_left (everywhere_dict.mp hpw).1
    (prepared_collections.trans hs.collectionsIs)
  obtain ⟨c', rfl⟩ := hcv.dict_left
  exact ⟨c, c', hs.collectionsIs, hv, hg.wf, hcv⟩

theorem Rep.parallel_read_back {base s : State} (hb : Loaded rt base) (h : Rep rt base s)
    {now : DateTime} {b : Bytes} (hc : commitBytes rt cp now s = .ok b) {w : State}
    (hw : loadBytes rt b = .ok w) : Parallel s w := by
  obtain ⟨c, c', hsc, hwc, hcw, hr⟩ := h.read_back hb hc hw
  exact ⟨c, c', hsc, hwc, hcw, putClosed_wf.get (loadBytes_loaded hw).decoded.wf hwc, .of_readsAs hr⟩

end ReadBack

end JsonDatabase
