/-
  File:      JsonDatabase/Shown.lean
  Subject:   The store that a database is: records by collection and identifier.

  A record says what a document says, orders and tuples outside sets aside: that is all that outlives
  a commit. On this store the writes are seven effects, and a transaction is a sequence of them.

  * `Meaning`, `Record`, `Shown`, `shown` -- what a value, a document and a state say;
  * `OpCall.Effect` -- the writes on the store; `OpCall.refines` -- the code has just these effects;
  * `TxBody.Acts`, `Job.Effect` -- transactions and the other operations of a client.
-/
import JsonDatabase.Healthy
import JsonDatabase.FailedWrites

namespace JsonDatabase

open PyVal hiding none

/-! ## 1. What a value says -/

/-- Values that are read back the same. -/
def alikeSetoid : Setoid PyVal := ⟨Alike, Alike.refl, Alike.symm, Alike.trans⟩

/-- What a value says, orders and tuples outside sets aside. -/
def Meaning : Type := Quotient alikeSetoid

def meaning (v : PyVal) : Meaning := Quotient.mk alikeSetoid v

theorem meaning_eq {v w : PyVal} : meaning v = meaning w ↔ Alike v w :=
  ⟨Quotient.exact, @Quotient.sound _ alikeSetoid _ _⟩

/-- What the fields of a document say. -/
abbrev Record := PyKey → Option Meaning

def recordOf (fields : Fields) : Record := fun k => (fields k).map meaning

/-- The record of a dictionary. -/
def record (fields : PyDict) : Record := recordOf (Dict.get fields)

theorem map_meaning_eq {a b : Option PyVal} : a.map meaning = b.map meaning ↔ Option.Rel Alike a b := by
  cases a with
  | none =>
    cases b with
    | none => exact ⟨fun _ => .none, fun _ => rfl⟩
    | some w => exact ⟨nofun, nofun⟩
  | some v =>
    cases b with
    | none => exact ⟨nofun, nofun⟩
    | some w =>
      constructor
      · intro h
        exact .some (meaning_eq.mp (Option.some.inj h))
      · intro h
        cases h with
        | some h => exact congrArg some (meaning_eq.mpr h)

/-- **The record of a dictionary is what it says.** -/
theorem record_eq {c d : PyDict} (hc : Dict.Distinct c) (hd : Dict.Distinct d) :
    record c = record d ↔ meaning (.dict c) = meaning (.dict d) := by
  rw [meaning_eq]
  constructor
  · exact fun h => Alike.of_get hc hd fun k => map_meaning_eq.mp (congrFun h k)
  · exact fun h => funext fun k => map_meaning_eq.mpr (h.get hc k)

namespace Record

/-- The record with an identifier set. -/
def withId (r : Record) (id : Str) : Record := Function.update r ID (some (meaning (.str id)))

/-- The right-biased union. -/
def merge (r updates : Record) : Record := fun k => (updates k).or (r k)

end Record

theorem recordOf_withId (fields : PyDict) (id : Str) :
    recordOf (withId fields id) = (record fields).withId id := by
  funext k
  unfold recordOf withId Record.withId
  by_cases h : k = ID
  · rw [h, Function.update_self, Function.update_self]
    rfl
  · rw [Function.update_of_ne h, Function.update_of_ne h]
    rfl

theorem recordOf_merged (updates : PyDict) (fields : Fields) :
    recordOf (merged updates fields) = (recordOf fields).merge (record updates) := by
  funext k
  exact Option.map_or

/-! ## 2. What a state shows -/

/-- Records by collection and identifier. -/
abbrev Shown := Catalog Str Str Record

def shown (s : State) : Shown := (view s).map recordOf

/-- The store without collections. -/
def Shown.empty : Shown := fun _ => none

section

variable {s t : State} {name id : Str}

/-- What two alike collections show. -/
theorem viewDocs_alike (hs : WellFormed s) (ht : WellFormed t)
    (h : Alike (.dict (docsIn s name)) (.dict (docsIn t name))) (id : Str) :
    (viewDocs (docsIn s name) id).map recordOf = (viewDocs (docsIn t name) id).map recordOf := by
  have hrel := h.get (everywhere_dict.mp (hs.wf_docs name)).1 (.str id)
  unfold viewDocs
  cases hv : Dict.get (docsIn s name) (.str id) with
  | none =>
    rw [hv] at hrel
    cases hw : Dict.get (docsIn t name) (.str id) with
    | none => rfl
    | some w =>
      rw [hw] at hrel
      cases hrel
  | some v =>
    rw [hv] at hrel
    cases hw : Dict.get (docsIn t name) (.str id) with
    | none =>
      rw [hw] at hrel
      cases hrel
    | some w =>
      rw [hw] at hrel
      obtain ⟨_, fields, -, rfl, -⟩ := hs.get_doc hv
      obtain ⟨_, fields', -, rfl, -⟩ := ht.get_doc hw
      have hd {u : State} (hu : WellFormed u) {d : PyDict}
          (hd : Dict.get (docsIn u name) (.str id) = some (.dict d)) : Dict.Distinct d :=
        (everywhere_dict.mp ((everywhere_dict.mp (hu.wf_docs name)).2 _ _ (Dict.mem_of_get hd))).1
      cases hrel with
      | some hrel =>
        exact congrArg some ((record_eq (hd hs hv) (hd ht hw)).mpr (meaning_eq.mpr hrel))

/-- **States that hold the same documents show the same.** -/
theorem Parallel.shown (h : Parallel s t) (hs : WellFormed s) (ht : WellFormed t) :
    JsonDatabase.shown s = JsonDatabase.shown t := by
  obtain ⟨c, d, hc, hd, ha⟩ := h
  obtain rfl : c = collectionsIn s := PyVal.dict.inj (Option.some.inj (hc.symm.trans hs.get_collections))
  obtain rfl : d = collectionsIn t := PyVal.dict.inj (Option.some.inj (hd.symm.trans ht.get_collections))
  funext name
  have hrel := ha.alike.get ha.distinct (.str name)
  unfold JsonDatabase.shown Catalog.map view
  cases hv : Dict.get (collectionsIn s) (.str name) with
  | none =>
    rw [hv] at hrel
    cases hw : Dict.get (collectionsIn t) (.str name) with
    | none => rfl
    | some w =>
      rw [hw] at hrel
      cases hrel
  | some v =>
    rw [hv] at hrel
    cases hw : Dict.get (collectionsIn t) (.str name) with
    | none =>
      rw [hw] at hrel
      cases hrel
    | some w =>
      rw [hw] at hrel
      obtain rfl := hs.get_docs hv
      obtain rfl := ht.get_docs hw
      cases hrel with
      | some hrel => exact congrArg some (funext (viewDocs_alike hs ht hrel))

theorem find_shown {r : Record} : (shown s).find name id = some r ↔
    ∃ document, Dict.get (docsIn s name) (.str id) = some (.dict document) ∧ r = record document := by
  unfold shown
  rw [Catalog.find_map, Option.map_eq_some_iff]
  constructor
  · rintro ⟨fields, hf, rfl⟩
    obtain ⟨document, hd, rfl⟩ := find_view.mp hf
    exact ⟨document, hd, rfl⟩
  · rintro ⟨document, hd, rfl⟩
    exact ⟨_, find_view.mpr ⟨document, hd, rfl⟩, rfl⟩

theorem isSome_shown : (shown s name).isSome = (view s name).isSome := Catalog.isSome_map recordOf

end

/-! ## 3. The writes on the store -/

/-- **The effects of the writes**: which calls have one on a store, what they return and what they
    make of it. -/
inductive OpCall.Effect (rt : Runtime) (m : Shown) : OpCall → PyVal → Shown → Prop
  | insert {collection document : PyObj} {uuid : Uuid} {name : Str} {fields : PyDict}
      (hn : Named collection.val name) (hd : Accepted rt document.val fields)
      (hid : Dict.get fields ID = none) :
      Effect rt m (.insert collection document uuid) (.str uuid.text)
        (m.store name uuid.text ((record fields).withId uuid.text))
  | update {collection documentId updates : PyObj} {name id : Str} {fields result : PyDict}
      {old : Record} (hn : Named collection.val name) (hi : Identifies documentId.val id)
      (hu : Accepted rt updates.val fields) (hid : Dict.get fields ID = none)
      (hold : m.find name id = some old) (hr : record result = old.merge (record fields)) :
      Effect rt m (.update collection documentId updates) (.dict result)
        (m.store name id (old.merge (record fields)))
  | replace {collection documentId document : PyObj} {name id : Str} {fields result : PyDict}
      {old : Record} (hn : Named collection.val name) (hi : Identifies documentId.val id)
      (hd : Accepted rt document.val fields) (hid : ∀ v, Dict.get fields ID = some v → v = .str id)
      (hold : m.find name id = some old) (hr : record result = (record fields).withId id) :
      Effect rt m (.replace collection documentId document) (.dict result)
        (m.store name id ((record fields).withId id))
  | delete {collection documentId : PyObj} {name id : Str} {old : Record}
      (hn : Named collection.val name) (hi : Identifies documentId.val id)
      (hold : m.find name id = some old) :
      Effect rt m (.delete collection documentId) .none (m.erase name id)
  | upsert {collection documentId document : PyObj} {name id : Str} {fields : PyDict}
      (hn : Named collection.val name) (hi : Identifies documentId.val id)
      (hd : Accepted rt document.val fields) (hid : ∀ v, Dict.get fields ID = some v → v = .str id) :
      Effect rt m (.upsert collection documentId document) (.str id)
        (m.store name id ((record fields).withId id))
  | bulkInsert {collection documents : PyObj} {uuids : Nat → Uuid} {name : Str} {fs : List PyDict}
      (hn : Named collection.val name) (hd : documents.val = .list (fs.map PyVal.dict))
      (hf : ∀ f ∈ fs, Accepted rt (.dict f) f ∧ Dict.get f ID = none) :
      Effect rt m (.bulkInsert collection documents uuids)
        (.list ((generated uuids fs.length).map fun u => .str u.text))
        ((m.ensure name).storeAll name
          (((generated uuids fs.length).zip fs).map fun p => (p.1.text, (record p.2).withId p.1.text)))
  | bulkUpdate {collection updates : PyObj} {name : Str} {items : List PyVal}
      {ps : List (Str × PyDict)} (hn : Named collection.val name) (hu : updates.val = .list items)
      (hp : List.Forall₂ IsPair items ps) (hc : (m name).isSome = true)
      (hf : ∀ p ∈ ps, p.1 ≠ [] ∧ (m.find name p.1).isSome = true ∧ Accepted rt (.dict p.2) p.2 ∧
        Dict.get p.2 ID = none) :
      Effect rt m (.bulkUpdate collection updates) (.int ps.length)
        (m.modifyAll name (ps.map fun p => (p.1, fun r => Record.merge r (record p.2))))

section

variable {rt : Runtime} {cp : Copier} {call : OpCall} {r : PyVal} {s s' : State}

/-- The contract of the writes, on records. -/
theorem OpCall.Spec.effect {m m' : DocMap} (h : call.Spec rt m r m') :
    call.Effect rt (m.map recordOf) r (m'.map recordOf) := by
  have hfound {name id : Str} {old : Fields} (hold : m.find name id = some old) :
      (m.map recordOf).find name id = some (recordOf old) := by
    rw [Catalog.find_map, hold]
    rfl
  cases h with
  | insert hn hd hid =>
    rw [Catalog.map_store, recordOf_withId]
    exact .insert hn hd hid
  | @update collection documentId updates name id fields result old hn hi hu hid hold hr =>
    rw [Catalog.map_store, recordOf_merged]
    exact .update hn hi hu hid (hfound hold) (by rw [record, hr, recordOf_merged])
  | @replace collection documentId document name id fields result old hn hi hd hid hold hr =>
    rw [Catalog.map_store, recordOf_withId]
    exact .replace hn hi hd hid (hfound hold) (by rw [record, hr, recordOf_withId])
  | delete hn hi hold =>
    rw [Catalog.map_erase]
    exact .delete hn hi (hfound hold)
  | upsert hn hi hd hid =>
    rw [Catalog.map_store, recordOf_withId]
    exact .upsert hn hi hd hid
  | @bulkInsert collection documents uuids name fs hn hd hf =>
    rw [Catalog.map_storeAll, Catalog.map_ensure, List.map_map]
    have hitems : ((fun p : Str × Fields => (p.1, recordOf p.2)) ∘
        fun p : Uuid × PyDict => (p.1.text, withId p.2 p.1.text)) =
          fun p => (p.1.text, (record p.2).withId p.1.text) :=
      funext fun p => congrArg (Prod.mk p.1.text) (recordOf_withId p.2 p.1.text)
    rw [hitems]
    exact .bulkInsert hn hd hf
  | @bulkUpdate collection updates name items ps hn hu hp hc hf =>
    rw [Catalog.map_modifyAll (g := fun p r => Record.merge r (record p.2)) recordOf fun p old =>
      recordOf_merged p.2 old]
    refine .bulkUpdate hn hu hp ((Catalog.isSome_map recordOf).trans hc) fun p hp => ?_
    obtain ⟨hi, hfind, hrest⟩ := hf p hp
    rw [Catalog.find_map, Option.isSome_map]
    exact ⟨hi, hfind, hrest⟩

/-- An effect on what a state shows is one that the contract has. -/
theorem OpCall.Effect.spec {m' : Shown} (h : call.Effect rt (shown s) r m') :
    ∃ r' m'', call.Spec rt (view s) r' m'' := by
  have hfound {name id : Str} {old : Record} (hold : (shown s).find name id = some old) :
      ∃ document, (view s).find name id = some (Dict.get document) := by
    obtain ⟨document, hd, -⟩ := find_shown.mp hold
    exact ⟨document, find_view.mpr ⟨document, hd, rfl⟩⟩
  cases h with
  | insert hn hd hid => exact ⟨_, _, .insert hn hd hid⟩
  | @update collection documentId updates name id fields result old hn hi hu hid hold hr =>
    obtain ⟨document, hdoc⟩ := hfound hold
    have hdistinct : Dict.Distinct fields := (everywhere_dict.mp (hu.1 ▸ updates.wf)).1
    exact ⟨_, _, .update hn hi hu hid hdoc (get_merged hdistinct)⟩
  | replace hn hi hd hid hold hr =>
    obtain ⟨document, hdoc⟩ := hfound hold
    exact ⟨_, _, .replace hn hi hd hid hdoc get_withId⟩
  | delete hn hi hold =>
    obtain ⟨document, hdoc⟩ := hfound hold
    exact ⟨_, _, .delete hn hi hdoc⟩
  | upsert hn hi hd hid => exact ⟨_, _, .upsert hn hi hd hid⟩
  | bulkInsert hn hd hf => exact ⟨_, _, .bulkInsert hn hd hf⟩
  | bulkUpdate hn hu hp hc hf =>
    refine ⟨_, _, .bulkUpdate hn hu hp (isSome_shown.symm.trans hc) fun p hp => ?_⟩
    obtain ⟨hi, hfind, hrest⟩ := hf p hp
    unfold shown at hfind
    rw [Catalog.find_map, Option.isSome_map] at hfind
    exact ⟨hi, hfind, hrest⟩

/-- A write that returns has its effect. -/
theorem OpCall.effect (hs : WellFormed s) (hr : call.run rt cp s = .ok r s') :
    call.Effect rt (shown s) r (shown s') := (OpCall.sound hs hr).1.effect

/-- **A write returns exactly if it has an effect** on what the state shows and its copies succeed;
    what is shown then is that effect. -/
theorem OpCall.refines (hs : WellFormed s) :
    ((∃ r s', call.run rt cp s = .ok r s') ↔
      (∃ r m', call.Effect rt (shown s) r m') ∧ call.Copies cp s) ∧
    ∀ r s', call.run rt cp s = .ok r s' → call.Effect rt (shown s) r (shown s') := by
  refine ⟨⟨fun h => ?_, fun h => ?_⟩, fun r s' => effect hs⟩
  · obtain ⟨r, s', hr⟩ := h
    exact ⟨⟨r, _, effect hs hr⟩, (OpCall.sound hs hr).2.1⟩
  · obtain ⟨⟨r, m', he⟩, hcp⟩ := h
    obtain ⟨r', m'', hspec⟩ := he.spec
    exact OpCall.complete hs hspec hcp

/-- An effect is determined by the store and the call. -/
theorem OpCall.Effect.unique {m m₁ m₂ : Shown} {r₁ r₂ : PyVal} (h₁ : call.Effect rt m r₁ m₁)
    (h₂ : call.Effect rt m r₂ m₂) : m₁ = m₂ := by
  have hnames {collection : PyObj} {name name' : Str} (h : Named collection.val name)
      (h' : Named collection.val name') : name = name' := PyVal.str.inj (h.1.symm.trans h'.1)
  have hids {documentId : PyObj} {id id' : Str} (h : Identifies documentId.val id)
      (h' : Identifies documentId.val id') : id = id' := PyVal.str.inj (h.1.symm.trans h'.1)
  have hdocs {document : PyObj} {fields fields' : PyDict} (h : Accepted rt document.val fields)
      (h' : Accepted rt document.val fields') : fields = fields' :=
    PyVal.dict.inj (h.1.symm.trans h'.1)
  cases h₁ with
  | insert hn hd _ =>
    cases h₂ with
    | insert hn' hd' _ => rw [hnames hn hn', hdocs hd hd']
  | update hn hi hu _ hold _ =>
    cases h₂ with
    | update hn' hi' hu' _ hold' _ =>
      obtain rfl := hnames hn hn'
      obtain rfl := hids hi hi'
      rw [hdocs hu hu', Option.some.inj (hold.symm.trans hold')]
  | replace hn hi hd _ _ _ =>
    cases h₂ with
    | replace hn' hi' hd' _ _ _ => rw [hnames hn hn', hids hi hi', hdocs hd hd']
  | delete hn hi _ =>
    cases h₂ with
    | delete hn' hi' _ => rw [hnames hn hn', hids hi hi']
  | upsert hn hi hd _ =>
    cases h₂ with
    | upsert hn' hi' hd' _ => rw [hnames hn hn', hids hi hi', hdocs hd hd']
  | bulkInsert hn hd _ =>
    cases h₂ with
    | bulkInsert hn' hd' _ =>
      have hinj : Function.Injective PyVal.dict := fun a b hab => PyVal.dict.inj hab
      obtain rfl := List.map_injective_iff.mpr hinj (PyVal.list.inj (hd.symm.trans hd'))
      rw [hnames hn hn']
  | bulkUpdate hn hu hp _ _ =>
    cases h₂ with
    | bulkUpdate hn' hu' hp' _ _ =>
      obtain rfl := PyVal.list.inj (hu.symm.trans hu')
      rw [hnames hn hn', pairs_unique hp hp']

end

/-! ## 4. Writes that raise -/

/-- The calls that do a first part of a call: of a bulk write those for its first items, of another
    one the call itself. -/
inductive OpCall.PartOf : OpCall → OpCall → Prop
  | whole {call : OpCall} : PartOf call call
  | inserts {collection documents first : PyObj} {uuids : Nat → Uuid} {xs ys : List PyVal} :
      documents.val = .list (xs ++ ys) → first.val = .list xs →
        PartOf (.bulkInsert collection first uuids) (.bulkInsert collection documents uuids)
  | updates {collection updates first : PyObj} {xs ys : List PyVal} :
      updates.val = .list (xs ++ ys) → first.val = .list xs →
        PartOf (.bulkUpdate collection first) (.bulkUpdate collection updates)

section

variable {rt : Runtime} {cp : Copier} {call : OpCall} {s s' : State} {e : PyExc} {name : Str}
  {docs : PyDict}

theorem wf_first {xs ys : List PyVal} (h : (PyVal.list (xs ++ ys)).wf) : (PyVal.list xs).wf :=
  everywhere_list.mpr ⟨trivial, fun v hv => (everywhere_list.mp h).2 v (List.mem_append_left _ hv)⟩

theorem generated_append {uuids : Nat → Uuid} {us vs : List Uuid} {n : Nat}
    (h : generated uuids n = us ++ vs) : us = generated uuids us.length := by
  have htake := congrArg (List.take us.length) h
  rw [List.take_left, generated, ← List.map_take, List.take_range] at htake
  have hlen := congrArg List.length h
  rw [generated, List.length_map, List.length_range, List.length_append] at hlen
  rw [← htake, List.length_map, List.length_range, Nat.min_eq_left (by omega)]
  rfl

/-- **What an interrupted write has stored** is what a first part of it would have made. -/
theorem OpCall.interrupted_part (h : WellFormed s) (hi : call.Interrupted rt cp s e name docs) :
    ∃ (part : OpCall) (r : PyVal), part.PartOf call ∧ part.run rt .total s = .ok r (setDocs s name docs) := by
  cases hi with
  | update hn hi hu hid hold hcp he =>
    exact ⟨_, _, .whole, (updateDocument_ok h).mpr ⟨_, _, _, _, hn, hi, hu, hid, hold, rfl, rfl, rfl, rfl⟩⟩
  | replace hn hi hd hid hold hcp he =>
    exact ⟨_, _, .whole, (replaceDocument_ok h).mpr ⟨_, _, _, _, hn, hi, hd, hid, hold, rfl, rfl, rfl, rfl⟩⟩
  | @bulkInsert collection documents uuids name fs done e hn hd hf he =>
    obtain ⟨p, rest, hps, -, -⟩ := he
    obtain ⟨us, vs, fs₁, fs₂, hlen, hus, rfl, rfl, -⟩ := List.zip_eq_append_iff.mp hps
    have hwf := documents.wf
    rw [hd, List.map_append] at hwf
    have hfirst : us = generated uuids fs₁.length := hlen ▸ generated_append hus
    refine ⟨.bulkInsert collection ⟨_, wf_first hwf⟩ uuids, _, .inserts (by rw [hd, List.map_append]) rfl,
      (bulkInsertDocuments_ok h (wf_first hwf)).mpr ⟨name, fs₁, hn, rfl,
        fun f hm => hf f (List.mem_append_left _ hm), fun _ _ => rfl, rfl, ?_⟩⟩
    rw [storedAll_eq, hfirst]
  | @bulkUpdate collection updates name items ps done e hn hu hp hc hf he =>
    obtain ⟨p, rest, rfl, -, -⟩ := he
    have hfirst := List.forall₂_take_append items done (p :: rest) hp
    have hwf := updates.wf
    rw [hu, ← List.take_append_drop done.length items] at hwf
    refine ⟨.bulkUpdate collection ⟨_, wf_first hwf⟩, _,
      .updates (by rw [hu, List.take_append_drop]) rfl,
      (bulkUpdateDocuments_ok h (wf_first hwf)).mpr ⟨name, _, done, hn, rfl, hfirst, hc,
        fun q hq => hf q (List.mem_append_left _ hq), fun _ _ => rfl, rfl, ?_⟩⟩
    exact (h.updatedAll_eq hc done).symm

/-- Copies that all succeed. -/
theorem OpCall.copies_of_total (h : ∀ v, cp.fails v = none) : call.Copies cp s := by
  cases call with
  | insert => exact h _
  | update => exact ⟨h _, fun _ _ _ _ => h _⟩
  | replace => exact ⟨h _, fun _ _ => h _⟩
  | delete => trivial
  | upsert => exact h _
  | bulkInsert => exact fun _ _ _ _ => h _
  | bulkUpdate => exact fun _ _ _ _ _ _ => h _

/-- **A write that raises** leaves the state as it was, and has no effect on it unless a copy failed;
    or a copy failed, and a first part of it was done. -/
theorem OpCall.raises (h : WellFormed s) (hr : call.run rt cp s = .error e s') :
    s' = s ∧ ((∃ r m', call.Effect rt (shown s) r m') → ∃ v e', cp.fails v = some e') ∨
      (∃ v, cp.fails v = some e) ∧ WellFormed s' ∧
        ∃ (part : OpCall) (r : PyVal), part.PartOf call ∧ part.Effect rt (shown s) r (shown s') := by
  rcases OpCall.error_cases h hr with rfl | ⟨name, docs, hi, rfl⟩
  · refine Or.inl ⟨rfl, fun he => ?_⟩
    by_contra hnone
    have htotal (v : PyVal) : cp.fails v = none :=
      Option.eq_none_iff_forall_not_mem.mpr fun e' hv => hnone ⟨v, e', hv⟩
    obtain ⟨r, s', hok⟩ := (OpCall.refines h).1.mpr ⟨he, copies_of_total htotal⟩
    cases hr.symm.trans hok
  · obtain ⟨part, r, hpart, hrun⟩ := interrupted_part h hi
    have hfails : ∃ v, cp.fails v = some e := by
      cases hi with
      | update _ _ _ _ _ _ he => exact ⟨_, he⟩
      | replace _ _ _ _ _ _ he => exact ⟨_, he⟩
      | bulkInsert _ _ _ he =>
        obtain ⟨p, -, -, -, he⟩ := he
        exact ⟨_, he⟩
      | bulkUpdate _ _ _ _ _ he =>
        obtain ⟨p, -, -, -, he⟩ := he
        exact ⟨_, he⟩
    exact Or.inr ⟨hfails, (OpCall.sound h hrun).2.2.1, part, r, hpart, effect h hrun⟩

end

/-! ## 5. Transactions on the store -/

/-- **What the body of a transaction does to the store**, with what it ends with. A write has its
    effect, or it raises: without one, or with that of a first part of it if a copy failed. A read
    sees a state that shows the store. -/
inductive TxBody.Acts (rt : Runtime) : TxBody → Shown → Except PyExc PyVal → Shown → Prop
  | done {r : Except PyExc PyVal} {m : Shown} : Acts rt (.done r) m r m
  | returned {cp : Copier} {call : OpCall} {k : Except PyExc PyVal → TxBody} {r : PyVal}
      {out : Except PyExc PyVal} {m m₁ m' : Shown} (he : call.Effect rt m r m₁)
      (h : Acts rt (k (.ok r)) m₁ out m') : Acts rt (.call (.write cp call) k) m out m'
  | raised {cp : Copier} {call : OpCall} {k : Except PyExc PyVal → TxBody} {e : PyExc}
      {out : Except PyExc PyVal} {m m' : Shown}
      (hn : (∃ r m₁, call.Effect rt m r m₁) → ∃ v e', cp.fails v = some e')
      (h : Acts rt (k (.error e)) m out m') : Acts rt (.call (.write cp call) k) m out m'
  | interrupted {cp : Copier} {call part : OpCall} {k : Except PyExc PyVal → TxBody} {r : PyVal}
      {e : PyExc} {out : Except PyExc PyVal} {m m₁ m' : Shown} (hf : ∃ v, cp.fails v = some e)
      (hp : part.PartOf call) (he : part.Effect rt m r m₁) (h : Acts rt (k (.error e)) m₁ out m') :
      Acts rt (.call (.write cp call) k) m out m'
  | read {f : State → Except PyExc PyVal} {k : Except PyExc PyVal → TxBody} {s : State}
      {out : Except PyExc PyVal} {m m' : Shown} (hs : shown s = m) (h : Acts rt (k (f s)) m out m') :
      Acts rt (.call (.read f) k) m out m'

/-- **The body of a transaction** does to what its state shows what it does to the store. -/
theorem TxBody.acts {rt : Runtime} (body : TxBody) {s : State} (h : WellFormed s) :
    body.Acts rt (shown s) (body.exec (TxCall.perform rt) s).1
      (shown (body.exec (TxCall.perform rt) s).2) ∧
    WellFormed (body.exec (TxCall.perform rt) s).2 := by
  induction body generalizing s with
  | done r => exact ⟨.done, h⟩
  | call c k ih =>
    unfold Interaction.exec
    cases c with
    | read f =>
      obtain ⟨hacts, hw⟩ := ih (f s) h
      exact ⟨.read rfl hacts, hw⟩
    | write cp call =>
      cases hr : call.run rt cp s with
      | ok r s' =>
        obtain ⟨hacts, hw⟩ := ih (.ok r) (OpCall.sound h hr).2.2.1
        simp only [TxCall.perform, hr]
        exact ⟨.returned (OpCall.effect h hr) hacts, hw⟩
      | error e s' =>
        simp only [TxCall.perform, hr]
        rcases OpCall.raises h hr with ⟨rfl, hn⟩ | ⟨hf, hs', part, r, hp, he⟩
        · obtain ⟨hacts, hw⟩ := ih (.error e) h
          exact ⟨.raised hn hacts, hw⟩
        · obtain ⟨hacts, hw⟩ := ih (.error e) hs'
          exact ⟨.interrupted hf hp he hacts, hw⟩

/-- **What an operation of a client does to the store**; `init` leaves it empty, and without `force`
    it works on an empty one. -/
inductive Job.Effect (rt : Runtime) (m : Shown) : Job → Shown → Prop
  | write {cp : Copier} {call : OpCall} {r : PyVal} {m' : Shown} (h : call.Effect rt m r m') :
      Effect rt m (.update (call.run rt cp)) m'
  | init {force : Bool} (h : force = false → m = .empty) : Effect rt m (.createEmpty force) .empty
  | transaction {body : TxBody} {r : PyVal} {m' : Shown} (h : body.Acts rt m (.ok r) m') :
      Effect rt m (.transaction (body.op rt)) m'

end JsonDatabase
