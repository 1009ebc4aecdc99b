/-
  File:      JsonDatabase/BulkWrites.lean
  Subject:   The bulk writes against their single counterparts, one after the other.

  A bulk write checks every item before it stores the first one, and checks an update against the
  documents there are before any is applied. One after the other the single writes check each item
  against what the ones before it have left. Copies always succeed here.

  * `updateEach`, `insertEach` -- the single writes, one after the other;
  * `updateEach_ok`, `insertEach_ok` -- when all of them return, and what they leave;
  * `bulk_equals_each` -- the bulk writes do the same, or nothing.
-/
import JsonDatabase.FailedWrites

namespace JsonDatabase

open PyVal hiding none

/-! ## 1. One after the other -/

section Each

variable (rt : Runtime) (cp : Copier)

/-- `update_document` for each pair. -/
def updateEach (collection : PyVal) : List (PyVal × PyVal) → Op Unit
  | [] => return ()
  | (documentId, updates) :: rest => do
    let _ ← updateDocument rt cp collection documentId updates
    updateEach collection rest

/-- `insert_document` for each document, which is given the identifier next to it. -/
def insertEach (collection : PyVal) : List (Uuid × PyVal) → Op (List PyVal)
  | [] => return []
  | (uuid, document) :: rest => do
    let id ← insertDocument rt cp collection document uuid
    let ids ← insertEach collection rest
    return id :: ids

end Each

section

variable {rt : Runtime} {s s' : State} {name : Str}

/-! ## 2. Updates -/

/-- Replacing a document that is there leaves the others where they are, and itself. -/
theorem Applicable.stored_iff {id : Str} {fields : PyDict} {p : Str × PyDict}
    (hid : ((view s).find name id).isSome = true) :
    Applicable rt (storedDoc s name id fields) name p ↔ Applicable rt s name p := by
  refine ⟨fun ha => ⟨ha.id, ha.wf, ha.valid, ha.noId, ?_⟩, Applicable.stored⟩
  have hfound := ha.found
  rw [view_stored, Catalog.find_store] at hfound
  by_cases h : name = name ∧ p.1 = id
  · rw [h.2]
    exact hid
  · rwa [if_neg h] at hfound

/-- **All updates return** iff each may be applied to the state before the first one. -/
theorem updateEach_ok (hn : validateCollectionName (.str name) = .ok ()) {u : Unit} :
    ∀ {pairs : List (PyVal × PyVal)} {s s' : State}, WellFormed s → (∀ p ∈ pairs, p.2.wf) →
      (updateEach rt .total (.str name) pairs s = .ok u s' ↔ ∃ ps : List (Str × PyDict),
        pairs = ps.map (fun p => (.str p.1, .dict p.2)) ∧ (∀ p ∈ ps, Applicable rt s name p) ∧
          s' = updatedAll s name ps)
  | [], s, _, _, _ => by
      constructor
      · intro h₀
        obtain ⟨-, rfl⟩ := run_pure_ok.mp h₀
        exact ⟨[], rfl, nofun, rfl⟩
      · intro hr
        obtain ⟨ps, hnil, -, rfl⟩ := hr
        obtain rfl := List.map_eq_nil_iff.mp hnil.symm
        rfl
  | (documentId, updates) :: pairs, s, _, h, hw => by
      obtain ⟨hwu, hwp⟩ := List.forall_mem_cons.mp hw
      constructor
      · intro h₀
        obtain ⟨r, s₁, hupd, h₁⟩ := run_bind_ok.mp h₀
        obtain ⟨name', id, fields, old, ⟨hname, -⟩, ⟨rfl, hi⟩, ⟨rfl, hv⟩, hid, hget, -, -, -, rfl⟩ :=
          (updateDocument_ok h).mp hupd
        cases hname
        have hfind : ((view s).find name id).isSome = true :=
          Option.isSome_iff_exists.mpr ⟨_, find_view.mpr ⟨old, hget, rfl⟩⟩
        obtain ⟨ps, rfl, hps, rfl⟩ := (updateEach_ok hn (h.updated hn hget hwu hid) hwp).mp h₁
        have ha : Applicable rt s name (id, fields) := ⟨hi, hwu, hv, hid, hfind⟩
        refine ⟨(id, fields) :: ps, rfl, List.forall_mem_cons.mpr ⟨ha, fun p hm =>
          (Applicable.stored_iff hfind).mp (hps p hm)⟩, ?_⟩
        have hold : docIn s name id = old := by
          rw [docIn, hget]
        show _ = updatedAll (storedDoc s name id (Dict.merge (docIn s name id) fields)) name ps
        rw [hold]
      · intro hr
        obtain ⟨ps, hps, happl, rfl⟩ := hr
        cases ps with
        | nil => cases hps
        | cons p ps =>
          cases hps
          obtain ⟨ha, happl⟩ := List.forall_mem_cons.mp happl
          refine run_bind_ok.mpr ⟨_, _, (updateDocument_ok h).mpr ⟨name, p.1, p.2, _, ⟨rfl, hn⟩,
            ⟨rfl, ha.id⟩, ⟨rfl, ha.valid⟩, ha.noId, ha.get, rfl, rfl, rfl, rfl⟩, ?_⟩
          exact (updateEach_ok hn (h.updated hn ha.get ha.wf ha.noId) hwp).mpr ⟨ps, rfl,
            fun q hq => (happl q hq).stored, rfl⟩

/-- **A bulk update is the updates one after the other.** -/
theorem bulkUpdate_iff_updateEach (h : WellFormed s) (hc : (view s name).isSome = true)
    {updates : PyObj} {items : List PyVal} (hu : updates.val = .list items)
    {pairs : List (PyVal × PyVal)} (hp : List.Forall₂ PairItem items pairs) (r : PyVal) :
    bulkUpdateDocuments rt .total (.str name) updates.val s = .ok r s' ↔
      r = .int pairs.length ∧ updateEach rt .total (.str name) pairs s = .ok () s' := by
  have hn : validateCollectionName (.str name) = .ok () := by
    obtain ⟨v, hv⟩ := Option.isSome_iff_exists.mp ((Option.isSome_map).symm.trans hc)
    exact (h.entry (Dict.mem_of_get hv)).1
  have hwp (p : PyVal × PyVal) (hm : p ∈ pairs) : p.2.wf := by
    obtain ⟨item, hitem, hi⟩ := forall₂_mem_right hp hm
    have hws := updates.wf
    rw [hu] at hws
    exact wf_second ((everywhere_list.mp hws).2 item hitem) hi
  rw [bulkUpdateDocuments_ok h updates.wf, updateEach_ok hn h hwp]
  constructor
  · intro hr
    obtain ⟨name', items', ps, ⟨hname, -⟩, hitems, hps, -, happl, -, rfl, rfl⟩ := hr
    cases hname
    cases hu.symm.trans hitems
    obtain rfl := (forall₂_isPair hp).mp hps
    exact ⟨by rw [List.length_map], ps, rfl, happl, rfl⟩
  · intro hr
    obtain ⟨rfl, ps, rfl, happl, rfl⟩ := hr
    exact ⟨name, items, ps, ⟨rfl, hn⟩, hu, (forall₂_isPair hp).mpr rfl, hc, happl, fun _ _ => rfl,
      by rw [List.length_map], rfl⟩

/-! ## 3. Insertions -/

/-- The pairs of identifiers and fields, as values. -/
def asItems (ps : List (Uuid × PyDict)) : List (Uuid × PyVal) := ps.map fun p => (p.1, .dict p.2)

/-- **All insertions return** iff each document may be inserted. -/
theorem insertEach_ok (hn : validateCollectionName (.str name) = .ok ()) :
    ∀ {items : List (Uuid × PyVal)} {ids : List PyVal} {s s' : State}, WellFormed s →
      (∀ p ∈ items, p.2.wf) →
      (insertEach rt .total (.str name) items s = .ok ids s' ↔ ∃ ps, items = asItems ps ∧
        (∀ p ∈ ps, validateDocument rt (.dict p.2) = .ok () ∧ Dict.get p.2 ID = none) ∧
          ids = ps.map (fun p => .str p.1.text) ∧ s' = storedAll s name ps)
  | [], _, s, _, _, _ => by
      constructor
      · intro h₀
        obtain ⟨rfl, rfl⟩ := run_pure_ok.mp h₀
        exact ⟨[], rfl, nofun, rfl, rfl⟩
      · intro hr
        obtain ⟨ps, hnil, -, rfl, rfl⟩ := hr
        obtain rfl := List.map_eq_nil_iff.mp hnil.symm
        rfl
  | (uuid, document) :: items, _, s, _, h, hw => by
      obtain ⟨hwd, hwi⟩ := List.forall_mem_cons.mp hw
      constructor
      · intro h₀
        obtain ⟨id, s₁, hins, h₁⟩ := run_bind_ok.mp h₀
        obtain ⟨ids, s₂, heach, h₂⟩ := run_bind_ok.mp h₁
        obtain ⟨rfl, rfl⟩ := run_pure_ok.mp h₂
        obtain ⟨name', fields, ⟨hname, -⟩, ⟨rfl, hv⟩, hid, -, rfl, rfl⟩ := (insertDocument_ok h).mp hins
        cases hname
        have hs := h.stored hn uuid.text_ne_nil (wf_putId hwd uuid.text) (Dict.get_put_self _ _ _)
        obtain ⟨ps, rfl, hps, rfl, rfl⟩ := (insertEach_ok hn hs hwi).mp heach
        exact ⟨(uuid, fields) :: ps, rfl, List.forall_mem_cons.mpr ⟨⟨hv, hid⟩, hps⟩, rfl, rfl⟩
      · intro hr
        obtain ⟨ps, hitems, hps, rfl, rfl⟩ := hr
        cases ps with
        | nil => cases hitems
        | cons p ps =>
          cases hitems
          obtain ⟨⟨hv, hid⟩, hps⟩ := List.forall_mem_cons.mp hps
          have hs := h.stored hn p.1.text_ne_nil (wf_putId hwd p.1.text) (Dict.get_put_self _ _ _)
          exact run_bind_ok.mpr ⟨_, _, (insertDocument_ok h).mpr ⟨name, p.2, ⟨rfl, hn⟩, ⟨rfl, hv⟩,
            hid, rfl, rfl, rfl⟩, run_bind_ok.mpr ⟨_, _,
              (insertEach_ok hn hs hwi).mpr ⟨ps, rfl, hps, rfl, rfl⟩, rfl⟩⟩

theorem insertEach_named (h : WellFormed s) {collection : PyVal} {p : Uuid × PyVal}
    {items : List (Uuid × PyVal)} {ids : List PyVal}
    (h₀ : insertEach rt .total collection (p :: items) s = .ok ids s') :
    ∃ name, Named collection name := by
  obtain ⟨id, s₁, hins, -⟩ := run_bind_ok.mp h₀
  obtain ⟨name, fields, hn, -⟩ := (insertDocument_ok h).mp hins
  exact ⟨name, hn⟩

/-- The collection that a bulk insertion creates is the one its first document creates. -/
theorem storedAll_ensured {ps : List (Uuid × PyDict)} (hne : ps ≠ []) :
    storedAll (setDocs s name (docsIn s name)) name ps = storedAll s name ps := by
  cases ps with
  | nil => exact absurd rfl hne
  | cons p ps =>
    show storedAll (storedDoc _ name _ _) name ps = _
    rw [storedDoc_eq]
    rfl

theorem length_generated (uuids : Nat → Uuid) (n : Nat) : (generated uuids n).length = n := by
  rw [generated, List.length_map, List.length_range]

theorem asItems_zip {us : List Uuid} {fs : List PyDict} :
    us.zip (fs.map PyVal.dict) = asItems (us.zip fs) := List.zip_map_right ..

theorem texts_zip {us : List Uuid} {fs : List PyDict} (hlen : us.length = fs.length) :
    (us.zip fs).map (fun p => PyVal.str p.1.text) = us.map fun u => PyVal.str u.text := by
  have hfst := congrArg (List.map fun u : Uuid => PyVal.str u.text)
    (List.map_fst_zip (Nat.le_of_eq hlen))
  rwa [List.map_map] at hfst

/-- The fields behind documents that are zipped with identifiers. -/
theorem zip_eq_asItems {us : List Uuid} {docs : List PyVal} (hlen : us.length = docs.length)
    {ps : List (Uuid × PyDict)} (h : us.zip docs = asItems ps) :
    ∃ fs : List PyDict, docs = fs.map PyVal.dict ∧ ps = us.zip fs := by
  have hfst : us = ps.map Prod.fst := by
    rw [← List.map_fst_zip (Nat.le_of_eq hlen), h, asItems, List.map_map]
    rfl
  have hsnd : docs = (ps.map Prod.snd).map PyVal.dict := by
    rw [← List.map_snd_zip (Nat.le_of_eq hlen.symm), h, asItems, List.map_map, List.map_map]
    rfl
  exact ⟨ps.map Prod.snd, hsnd, List.zip_of_prod hfst.symm rfl⟩

/-- **A bulk insertion is the insertions one after the other.** -/
theorem bulkInsert_iff_insertEach (h : WellFormed s) {collection documents : PyObj}
    {docs : List PyVal} (hd : documents.val = .list docs) (hne : docs ≠ []) (uuids : Nat → Uuid)
    (r : PyVal) :
    bulkInsertDocuments rt .total collection.val documents.val uuids s = .ok r s' ↔ ∃ ids,
      r = .list ids ∧ insertEach rt .total collection.val
        ((generated uuids docs.length).zip docs) s = .ok ids s' := by
  have hwf := documents.wf
  rw [hd] at hwf
  have hwd (p : Uuid × PyVal) (hp : p ∈ (generated uuids docs.length).zip docs) : p.2.wf :=
    (everywhere_list.mp hwf).2 _ (List.of_mem_zip hp).2
  have hlen := length_generated uuids docs.length
  have hzip : (generated uuids docs.length).zip docs ≠ [] := by
    rw [Ne, List.zip_eq_nil_iff, ← List.length_eq_zero_iff, hlen, List.length_eq_zero_iff, or_self]
    exact hne
  rw [bulkInsertDocuments_ok h documents.wf]
  constructor
  · intro hr
    obtain ⟨name, fs, ⟨hname, hn⟩, hlist, hfs, -, rfl, rfl⟩ := hr
    cases hd.symm.trans hlist
    rw [List.length_map] at hlen hwd hzip ⊢
    rw [asItems_zip] at hwd hzip ⊢
    rw [hname]
    refine ⟨_, rfl, (insertEach_ok hn h hwd).mpr ⟨_, rfl, fun p hp => hfs _ (List.of_mem_zip hp).2,
      (texts_zip hlen).symm, storedAll_ensured fun hnil => hzip ?_⟩⟩
    rw [hnil]
    rfl
  · intro hr
    obtain ⟨ids, rfl, heach⟩ := hr
    obtain ⟨name, hname, hn⟩ : ∃ name, Named collection.val name := by
      obtain ⟨p, items, hcons⟩ := List.exists_cons_of_ne_nil hzip
      rw [hcons] at heach
      exact insertEach_named h heach
    rw [hname] at heach
    obtain ⟨ps, hps, hvalid, rfl, rfl⟩ := (insertEach_ok hn h hwd).mp heach
    obtain ⟨fs, rfl, rfl⟩ := zip_eq_asItems hlen hps
    rw [List.length_map] at hlen hps hvalid ⊢
    have hmem (f : PyDict) (hf : f ∈ fs) : ∃ u, (u, f) ∈ (generated uuids fs.length).zip fs := by
      rw [← List.map_snd_zip (Nat.le_of_eq hlen.symm)] at hf
      obtain ⟨⟨u, f'⟩, hp, rfl⟩ := List.mem_map.mp hf
      exact ⟨u, hp⟩
    refine ⟨name, fs, ⟨hname, hn⟩, hd, fun f hf => ?_, fun _ _ => rfl, ?_, ?_⟩
    · obtain ⟨u, hp⟩ := hmem f hf
      exact hvalid _ hp
    · rw [texts_zip hlen]
    · refine (storedAll_ensured fun hnil => hzip ?_).symm
      rw [List.length_map, asItems_zip, hnil]
      rfl

/-- A bulk insertion returns iff each document might be inserted on its own. -/
theorem bulkInsert_ok_iff_each (h : WellFormed s) {collection documents : PyObj}
    {docs : List PyVal} (hd : documents.val = .list docs) (hne : docs ≠ []) (uuids : Nat → Uuid) :
    (∃ r s', bulkInsertDocuments rt .total collection.val documents.val uuids s = .ok r s') ↔
      ∀ k document, docs[k]? = some document →
        ∃ r s', insertDocument rt .total collection.val document (uuids k) s = .ok r s' := by
  constructor
  · intro hr k document hk
    obtain ⟨r, s', hr⟩ := hr
    obtain ⟨name, fs, hn, hlist, hfs, -⟩ := (bulkInsertDocuments_ok h documents.wf).mp hr
    cases hd.symm.trans hlist
    obtain ⟨f, hf, rfl⟩ := List.mem_map.mp (List.mem_of_getElem? hk)
    obtain ⟨hv, hid⟩ := hfs f hf
    exact ⟨_, _, (insertDocument_ok h).mpr ⟨name, f, hn, ⟨rfl, hv⟩, hid, rfl, rfl, rfl⟩⟩
  · intro heach
    have hdoc (document : PyVal) (hm : document ∈ docs) : ∃ name fields,
        Named collection.val name ∧ document = .dict fields ∧
          validateDocument rt (.dict fields) = .ok () ∧ Dict.get fields ID = none := by
      obtain ⟨k, hk⟩ := List.mem_iff_getElem?.mp hm
      obtain ⟨r, s', hr⟩ := heach k document hk
      obtain ⟨name, fields, hn, ⟨rfl, hv⟩, hid, -⟩ := (insertDocument_ok h).mp hr
      exact ⟨name, fields, hn, rfl, hv, hid⟩
    obtain ⟨fs, rfl, hfs⟩ := exists_fields fun x hx => by
      obtain ⟨name, fields, -, hfields, hrest⟩ := hdoc x hx
      exact ⟨fields, hfields, hrest⟩
    obtain ⟨f, rest, hcons⟩ := List.exists_cons_of_ne_nil hne
    obtain ⟨name, -, hn, -⟩ := hdoc f (hcons ▸ List.mem_cons_self)
    exact ⟨_, _, (bulkInsertDocuments_ok h documents.wf).mpr ⟨name, fs, hn, hd, hfs, fun _ _ => rfl,
      rfl, rfl⟩⟩

end

/-! ## 4. The result -/

/-- **The bulk writes are the single ones, one after the other**, or nothing: a bulk update of a
    collection returns iff each `update_document` in turn does, and then leaves the same state; if
    one of them would raise, it raises and the state stays. A bulk insertion returns iff each
    document might be inserted, and then leaves the state and returns the identifiers that the
    insertions do in turn. -/
theorem bulk_equals_each (rt : Runtime) {s : State} (h : WellFormed s) :
    (∀ (name : Str) (updates : PyObj) items pairs, (view s name).isSome = true →
      updates.val = .list items → List.Forall₂ PairItem items pairs →
        (∀ r s', bulkUpdateDocuments rt .total (.str name) updates.val s = .ok r s' ↔
          r = .int pairs.length ∧ updateEach rt .total (.str name) pairs s = .ok () s') ∧
        ((¬ ∃ s', updateEach rt .total (.str name) pairs s = .ok () s') →
          ∃ e, bulkUpdateDocuments rt .total (.str name) updates.val s = .error e s)) ∧
    ∀ (collection documents : PyObj) docs uuids, documents.val = .list docs → docs ≠ [] →
      ((∃ r s', bulkInsertDocuments rt .total collection.val documents.val uuids s = .ok r s') ↔
        ∀ k document, docs[k]? = some document →
          ∃ r s', insertDocument rt .total collection.val document (uuids k) s = .ok r s') ∧
      ∀ r s', bulkInsertDocuments rt .total collection.val documents.val uuids s = .ok r s' ↔
        ∃ ids, r = .list ids ∧ insertEach rt .total collection.val
          ((generated uuids docs.length).zip docs) s = .ok ids s' := by
  refine ⟨fun name updates items pairs hc hu hp => ⟨fun r s' => ?_, fun hnone => ?_⟩,
    fun collection documents docs uuids hd hne => ⟨?_, fun r s' => ?_⟩⟩
  · exact bulkUpdate_iff_updateEach h hc hu hp r
  · cases hr : bulkUpdateDocuments rt .total (.str name) updates.val s with
    | ok r s' => exact absurd ⟨s', ((bulkUpdate_iff_updateEach h hc hu hp r).mp hr).2⟩ hnone
    | error e s' =>
      have hundone := (@OpCall.error_undone_iff rt .total s (.bulkUpdate (.str name) updates) h).mpr
        OpCall.harmless_total
      exact ⟨e, congrArg _ (hundone e s' hr)⟩
  · exact bulkInsert_ok_iff_each h hd hne uuids
  · exact bulkInsert_iff_insertEach h hd hne uuids r

/-- A collection with one document. -/
def oneUser : State :=
  storedDoc (emptyState epoch (.str [])) (lit "users") (lit "u1")
    [(.str (lit "name"), .str (lit "Ava")), (ID, .str (lit "u1"))]

theorem oneUser_wellFormed : WellFormed oneUser := by
  have h : WellFormed (emptyState epoch (.str [])) := emptyState_wellFormed epoch rfl
  have hdistinct : Dict.Distinct [(PyKey.str (lit "name"), PyVal.str (lit "Ava")),
      (ID, .str (lit "u1"))] := by decide
  refine h.stored rfl (by decide) (everywhere_dict.mpr ⟨hdistinct, fun k v hm => ?_⟩) rfl
  rcases List.mem_cons.mp hm with hm | hm
  · cases hm
    trivial
  · cases List.mem_singleton.mp hm
    trivial

/-- Two updates of one document, as a tuple and as a list. -/
def twoUpdates : PyObj :=
  ⟨.list [.tuple [.str (lit "u1"), (PyObj.field (lit "name") (lit "Bo")).val],
      .list [.str (lit "u1"), (PyObj.field (lit "role") (lit "admin")).val]],
    everywhere_list.mpr ⟨trivial, by
      intro item hm
      rcases List.mem_cons.mp hm with rfl | hm
      · refine everywhere_tuple.mpr ⟨trivial, List.forall_mem_cons.mpr ⟨trivial, ?_⟩⟩
        exact List.forall_mem_singleton.mpr (PyObj.field _ _).wf
      · cases List.mem_singleton.mp hm
        refine everywhere_list.mpr ⟨trivial, List.forall_mem_cons.mpr ⟨trivial, ?_⟩⟩
        exact List.forall_mem_singleton.mpr (PyObj.field _ _).wf⟩⟩

set_option maxRecDepth 20000 in
theorem updated_twice : (∃ s', bulkUpdateDocuments interpreter .total (.str (lit "users"))
    twoUpdates.val oneUser = .ok (.int 2) s' ∧
    (view s').find (lit "users") (lit "u1") = some (Dict.get [(.str (lit "name"), .str (lit "Bo")),
      (ID, .str (lit "u1")), (.str (lit "role"), .str (lit "admin"))])) ∧
    ∃ r s', bulkInsertDocuments interpreter .total (.str (lit "users")) (shallowAndDeep 1).val
      (fun k => ⟨Fin.ofNat _ k⟩) oneUser = .ok r s' := by
  obtain ⟨hupdates, hinserts⟩ := bulk_equals_each interpreter oneUser_wellFormed
  obtain ⟨hok, -⟩ := hupdates (lit "users") twoUpdates _
    [(.str (lit "u1"), (PyObj.field (lit "name") (lit "Bo")).val),
      (.str (lit "u1"), (PyObj.field (lit "role") (lit "admin")).val)]
    rfl rfl (.cons (Or.inl rfl) (.cons (Or.inr rfl) .nil))
  obtain ⟨-, hins⟩ := hinserts (.str (lit "users")) (shallowAndDeep 1) _ (fun k => ⟨Fin.ofNat _ k⟩)
    rfl (List.cons_ne_nil _ _)
  exact ⟨⟨_, (hok _ _).mpr ⟨rfl, rfl⟩, rfl⟩, _, _, (hins _ _).mpr ⟨_, rfl, rfl⟩⟩

end JsonDatabase
