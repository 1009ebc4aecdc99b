/-
  File:      JsonDatabase/FailedWrites.lean
  Subject:   What a write that raises leaves of the state of a transaction.

  A transaction goes on with the state in memory, whatever an operation did to it before it raised.
  The checks come first, but not all copies do: `update` and `replace` copy the document they return
  after they have stored it, and the two bulk operations copy one item after the other.

  * `OpCall.Interrupted` -- a copy raises after the checks, and what has been stored by then;
  * `OpCall.error_cases` -- a write that raises was interrupted or has left the state alone;
  * `failed_writes_undone` -- when nothing remains of a write that raised, exactly, and what a
    transaction then commits.
-/
import JsonDatabase.Contract
import JsonDatabase.Session

namespace JsonDatabase

open PyVal hiding none

/-! ## 1. Copies that raise -/

/-- Of the items copied one after the other, those in `done` are copied before one raises. -/
def StopsAfter {α : Type} (cp : Copier) (ps : List (α × PyDict)) (e : PyExc)
    (done : List (α × PyDict)) : Prop :=
  ∃ p rest, ps = done ++ p :: rest ∧ (∀ q ∈ done, cp.fails (.dict q.2) = none) ∧
    cp.fails (.dict p.2) = some e

theorem stopsAfter_cons {α : Type} {cp : Copier} {p : α × PyDict} {ps done : List (α × PyDict)}
    {e : PyExc} : StopsAfter cp (p :: ps) e done ↔
      (done = [] ∧ cp.fails (.dict p.2) = some e) ∨
        ∃ done', done = p :: done' ∧ cp.fails (.dict p.2) = none ∧ StopsAfter cp ps e done' := by
  constructor
  · intro h
    obtain ⟨q, rest, hps, hok, he⟩ := h
    cases done with
    | nil =>
      cases hps
      exact Or.inl ⟨rfl, he⟩
    | cons d done =>
      cases hps
      exact Or.inr ⟨done, rfl, hok p List.mem_cons_self, q, rest, rfl,
        fun r hr => hok r (List.mem_cons_of_mem _ hr), he⟩
  · rintro (⟨rfl, he⟩ | ⟨done', rfl, hp, q, rest, rfl, hok, he⟩)
    · exact ⟨p, ps, rfl, nofun, he⟩
    · exact ⟨q, rest, rfl, List.forall_mem_cons.mpr ⟨hp, hok⟩, he⟩

/-- The entry under which a new document is stored. -/
def entryOf (p : Uuid × PyDict) : PyKey × PyVal :=
  (.str p.1.text, .dict (Dict.put p.2 ID (.str p.1.text)))

/-- **A copy raises after the checks of the call**, when the documents of the collection `name` are
    `docs`. -/
inductive OpCall.Interrupted (rt : Runtime) (cp : Copier) (s : State) :
    OpCall → PyExc → Str → PyDict → Prop
  | update {collection documentId updates : PyObj} {name id : Str} {fields old : PyDict} {e : PyExc}
      (hn : Named collection.val name) (hi : Identifies documentId.val id)
      (hu : Accepted rt updates.val fields) (hid : Dict.get fields ID = none)
      (hold : Dict.get (docsIn s name) (.str id) = some (.dict old))
      (hcp : cp.fails updates.val = none)
      (he : cp.fails (.dict (Dict.merge old fields)) = some e) :
      Interrupted rt cp s (.update collection documentId updates) e name
        (Dict.put (docsIn s name) (.str id) (.dict (Dict.merge old fields)))
  | replace {collection documentId document : PyObj} {name id : Str} {fields old : PyDict} {e : PyExc}
      (hn : Named collection.val name) (hi : Identifies documentId.val id)
      (hd : Accepted rt document.val fields) (hid : ∀ v, Dict.get fields ID = some v → v = .str id)
      (hold : Dict.get (docsIn s name) (.str id) = some (.dict old))
      (hcp : cp.fails document.val = none)
      (he : cp.fails (.dict (Dict.put fields ID (.str id))) = some e) :
      Interrupted rt cp s (.replace collection documentId document) e name
        (Dict.put (docsIn s name) (.str id) (.dict (Dict.put fields ID (.str id))))
  | bulkInsert {collection documents : PyObj} {uuids : Nat → Uuid} {name : Str} {fs : List PyDict}
      {done : List (Uuid × PyDict)} {e : PyExc}
      (hn : Named collection.val name) (hd : documents.val = .list (fs.map PyVal.dict))
      (hf : ∀ f ∈ fs, validateDocument rt (.dict f) = .ok () ∧ Dict.get f ID = none)
      (he : StopsAfter cp ((generated uuids fs.length).zip fs) e done) :
      Interrupted rt cp s (.bulkInsert collection documents uuids) e name
        (Dict.merge (docsIn s name) (done.map entryOf))
  | bulkUpdate {collection updates : PyObj} {name : Str} {items : List PyVal}
      {ps done : List (Str × PyDict)} {e : PyExc}
      (hn : Named collection.val name) (hu : updates.val = .list items)
      (hp : List.Forall₂ IsPair items ps) (hc : (view s name).isSome = true)
      (hf : ∀ p ∈ ps, Applicable rt s name p) (he : StopsAfter cp ps e done) :
      Interrupted rt cp s (.bulkUpdate collection updates) e name
        (docsIn (updatedAll s name done) name)

/-! ## 2. Writes that raise -/

section Writes

variable {rt : Runtime} {cp : Copier} {s s' : State} {collection documentId document : PyVal}
  {e : PyExc}

theorem deepcopy_error {v : PyVal} : deepcopy cp v = .error e ↔ cp.fails v = some e := by
  unfold deepcopy
  cases cp.fails v with
  | none => simp
  | some e' => simp

/-- Creating the collection is the last thing that happens there. -/
theorem ensureCollection_error (h : ensureCollection collection s = .error e s') : s' = s := by
  rcases run_lift_bind_error.mp h with ⟨-, h⟩ | ⟨u, -, h⟩
  · exact h
  rcases run_lift_bind_error.mp h with ⟨-, h⟩ | ⟨collections, -, h⟩
  · exact h
  rcases run_lift_bind_error.mp h with ⟨-, h⟩ | ⟨docs, -, h⟩
  · exact h
  cases h

theorem assignDocument_error (h : WellFormed s) {name id : Str} {fields : PyDict} :
    ¬ assignDocument (.str name) (.str id) fields s = .error e s' := by
  intro he
  rw [(assignDocument_ok (u := ()) h).mpr rfl] at he
  cases he

/-- A document stored in a collection that was created for it if need be. -/
theorem ensure_assign_error (h : WellFormed s) {id : Str} {fields : PyDict} {α : Type}
    {k : Unit → Op α} (hk : ∀ name, Named collection name →
      ¬ k () (storedDoc s name id fields) = .error e s')
    (he : (ensureCollection collection >>= fun _ =>
      assignDocument collection (.str id) fields >>= k) s = .error e s') : s' = s := by
  rcases run_bind_error.mp he with he | ⟨docs, s₁, hens, he⟩
  · exact ensureCollection_error he
  obtain ⟨name, ⟨rfl, hn⟩, -, rfl⟩ := (ensureCollection_ok h).mp hens
  rcases run_bind_error.mp he with he | ⟨u, s₂, hasg, he⟩
  · exact absurd he (assignDocument_error (h.ensured hn))
  · obtain rfl := (ensure_assign h hn).mp hasg
    exact absurd he (hk name ⟨rfl, hn⟩)

theorem insertDocument_error (h : WellFormed s) {uuid : Uuid}
    (he : insertDocument rt cp collection document uuid s = .error e s') : s' = s := by
  rcases run_lift_bind_error.mp he with ⟨-, he⟩ | ⟨u, -, he⟩
  · exact he
  rcases run_lift_bind_error.mp he with ⟨-, he⟩ | ⟨fields, -, he⟩
  · exact he
  rcases run_lift_bind_error.mp he with ⟨-, he⟩ | ⟨u, -, he⟩
  · exact he
  rcases run_lift_bind_error.mp he with ⟨-, he⟩ | ⟨copied, -, he⟩
  · exact he
  exact ensure_assign_error h (fun _ _ hk => by cases hk) he

theorem upsertDocument_error (h : WellFormed s)
    (he : upsertDocument rt cp collection documentId document s = .error e s') : s' = s := by
  rcases run_lift_bind_error.mp he with ⟨-, he⟩ | ⟨u, hid, he⟩
  · exact he
  rcases run_lift_bind_error.mp he with ⟨-, he⟩ | ⟨u, -, he⟩
  · exact he
  rcases run_lift_bind_error.mp he with ⟨-, he⟩ | ⟨copied, -, he⟩
  · exact he
  rcases run_lift_bind_error.mp he with ⟨-, he⟩ | ⟨u, -, he⟩
  · exact he
  obtain ⟨id, rfl, -⟩ := validateDocumentId_ok.mp hid
  exact ensure_assign_error h (fun _ _ hk => by cases hk) he

theorem deleteDocument_error
    (he : deleteDocument collection documentId s = .error e s') : s' = s := by
  rcases run_lift_bind_error.mp he with ⟨-, he⟩ | ⟨u, -, he⟩
  · exact he
  rcases run_lift_bind_error.mp he with ⟨-, he⟩ | ⟨docs, -, he⟩
  · exact he
  rcases run_lift_bind_error.mp he with ⟨-, he⟩ | ⟨u, -, he⟩
  · exact he
  rcases run_lift_bind_error.mp he with ⟨-, he⟩ | ⟨collections, -, he⟩
  · exact he
  cases he

/-- Only the copy that is returned can raise after the document was stored. -/
theorem updateDocument_error (h : WellFormed s)
    (h₀ : updateDocument rt cp collection documentId document s = .error e s') :
    s' = s ∨ ∃ name id fields old, Named collection name ∧ Identifies documentId id ∧
      Accepted rt document fields ∧ Dict.get fields ID = none ∧
      Dict.get (docsIn s name) (.str id) = some (.dict old) ∧ cp.fails document = none ∧
      cp.fails (.dict (Dict.merge old fields)) = some e ∧
      s' = storedDoc s name id (Dict.merge old fields) := by
  rcases run_lift_bind_error.mp h₀ with ⟨-, hs⟩ | ⟨u, hv, h₁⟩
  · exact Or.inl hs
  rcases run_lift_bind_error.mp h₁ with ⟨-, hs⟩ | ⟨fields, hf, h₂⟩
  · exact Or.inl hs
  rcases run_lift_bind_error.mp h₂ with ⟨-, hs⟩ | ⟨u, hid, h₃⟩
  · exact Or.inl hs
  rcases run_lift_bind_error.mp h₃ with ⟨-, hs⟩ | ⟨old, hold, h₄⟩
  · exact Or.inl hs
  rcases run_lift_bind_error.mp h₄ with ⟨-, hs⟩ | ⟨copied, hc, h₅⟩
  · exact Or.inl hs
  obtain ⟨hcp, rfl⟩ := copyDict_ok.mp hc
  cases asDict_ok.mp hf
  obtain ⟨name, id, ⟨rfl, hn⟩, ⟨rfl, hi⟩, hget⟩ := h.getDocumentRef_ok.mp hold
  rcases run_bind_error.mp h₅ with h₆ | ⟨u, s₁, hasg, h₆⟩
  · exact absurd h₆ (assignDocument_error h)
  obtain ⟨hcopy, rfl⟩ := run_lift_error.mp h₆
  exact Or.inr ⟨name, id, _, old, ⟨rfl, hn⟩, ⟨rfl, hi⟩, ⟨rfl, hv⟩,
    contains_eq_false_iff.mp (raiseIf_ok.mp hid), hget, hcp, deepcopy_error.mp hcopy,
    (assignDocument_ok h).mp hasg⟩

theorem replaceDocument_error (h : WellFormed s)
    (h₀ : replaceDocument rt cp collection documentId document s = .error e s') :
    s' = s ∨ ∃ name id fields old, Named collection name ∧ Identifies documentId id ∧
      Accepted rt document fields ∧ (∀ v, Dict.get fields ID = some v → v = .str id) ∧
      Dict.get (docsIn s name) (.str id) = some (.dict old) ∧ cp.fails document = none ∧
      cp.fails (.dict (Dict.put fields ID (.str id))) = some e ∧
      s' = storedDoc s name id (Dict.put fields ID (.str id)) := by
  rcases run_lift_bind_error.mp h₀ with ⟨-, hs⟩ | ⟨u, hv, h₁⟩
  · exact Or.inl hs
  rcases run_lift_bind_error.mp h₁ with ⟨-, hs⟩ | ⟨copied, hc, h₂⟩
  · exact Or.inl hs
  rcases run_lift_bind_error.mp h₂ with ⟨-, hs⟩ | ⟨u, hid, h₃⟩
  · exact Or.inl hs
  rcases run_lift_bind_error.mp h₃ with ⟨-, hs⟩ | ⟨old, hold, h₄⟩
  · exact Or.inl hs
  obtain ⟨hcp, rfl⟩ := copyDict_ok.mp hc
  obtain ⟨name, id, ⟨rfl, hn⟩, ⟨rfl, hi⟩, hget⟩ := h.getDocumentRef_ok.mp hold
  rcases run_bind_error.mp h₄ with h₅ | ⟨docs, s₁, hens, h₅⟩
  · exact Or.inl (ensureCollection_error h₅)
  obtain ⟨name', ⟨hname, -⟩, -, rfl⟩ := (ensureCollection_ok h).mp hens
  cases hname
  rcases run_bind_error.mp h₅ with h₆ | ⟨u, s₂, hasg, h₆⟩
  · exact absurd h₆ (assignDocument_error (h.ensured hn))
  obtain ⟨hcopy, rfl⟩ := run_lift_error.mp h₆
  exact Or.inr ⟨name, id, _, old, ⟨rfl, hn⟩, ⟨rfl, hi⟩, ⟨rfl, hv⟩, validateBodyId_ok.mp hid, hget,
    hcp, deepcopy_error.mp hcopy, (ensure_assign h hn).mp hasg⟩

/-! ### The two loops -/

theorem storedDoc_eq {name id : Str} {fields : PyDict} {docs : PyDict} :
    storedDoc (setDocs s name docs) name id fields =
      setDocs s name (Dict.put docs (.str id) (.dict fields)) := by
  rw [storedDoc, docsIn_setDocs_self, setDocs_setDocs]

theorem storedAll_eq {name : Str} (ps : List (Uuid × PyDict)) {docs : PyDict} :
    storedAll (setDocs s name docs) name ps =
      setDocs s name (Dict.merge docs (ps.map entryOf)) := by
  induction ps generalizing docs with
  | nil => rfl
  | cons p ps ih =>
    show storedAll (storedDoc _ name _ _) name ps = _
    rw [storedDoc_eq, ih]
    rfl

/-- Updates change one collection only. -/
theorem updatedAll_setDocs {name : Str} (ps : List (Str × PyDict)) {docs : PyDict} :
    updatedAll (setDocs s name docs) name ps =
      setDocs s name (docsIn (updatedAll (setDocs s name docs) name ps) name) := by
  induction ps generalizing docs with
  | nil => exact congrArg _ docsIn_setDocs_self.symm
  | cons p ps ih =>
    show updatedAll (storedDoc _ name _ _) name ps =
      setDocs s name (docsIn (updatedAll (storedDoc _ name _ _) name ps) name)
    rw [storedDoc_eq]
    exact ih

theorem storeInserts_error {name : Str} (hn : validateCollectionName (.str name) = .ok ()) :
    ∀ {ps : List (Uuid × PyDict)} {s : State}, WellFormed s → (∀ p ∈ ps, (PyVal.dict p.2).wf) →
      (storeInserts cp (.str name) (ps.map fun p => (p.1, .dict p.2)) s = .error e s' ↔
        ∃ done, StopsAfter cp ps e done ∧ s' = storedAll s name done)
  | [], s, _, _ => by
      refine ⟨fun h₀ => (by cases h₀), fun hr => ?_⟩
      obtain ⟨done, ⟨p, rest, hnil, -⟩, -⟩ := hr
      cases done <;> cases hnil
  | (uuid, fields) :: ps, s, h, hw => by
      have hfields := hw _ List.mem_cons_self
      have hs := h.stored hn uuid.text_ne_nil (wf_putId hfields uuid.text) (Dict.get_put_self _ _ _)
      have ih := storeInserts_error hn hs fun p hp => hw p (List.mem_cons_of_mem _ hp)
      constructor
      · intro h₀
        rcases run_lift_bind_error.mp h₀ with ⟨hc, rfl⟩ | ⟨copied, hc, h₁⟩
        · exact ⟨[], stopsAfter_cons.mpr (Or.inl ⟨rfl, copyDict_error.mp hc⟩), rfl⟩
        obtain ⟨hcp, hf⟩ := copyDict_ok.mp hc
        cases hf
        rcases run_bind_error.mp h₁ with h₂ | ⟨v, s₁, hasg, h₂⟩
        · exact absurd h₂ (assignDocument_error h)
        obtain rfl := (assignDocument_ok h).mp hasg
        obtain ⟨done, hstop, rfl⟩ := ih.mp h₂
        exact ⟨_, stopsAfter_cons.mpr (Or.inr ⟨done, rfl, hcp, hstop⟩), rfl⟩
      · intro hr
        obtain ⟨done, hstop, rfl⟩ := hr
        rcases stopsAfter_cons.mp hstop with ⟨rfl, he⟩ | ⟨done', rfl, hcp, hstop⟩
        · exact run_lift_bind_error.mpr (Or.inl ⟨copyDict_error.mpr he, rfl⟩)
        · refine run_lift_then_error (copyDict_ok.mpr ⟨hcp, rfl⟩) ?_
          refine run_then_error ((assignDocument_ok (u := ()) h).mpr rfl) ?_
          exact ih.mpr ⟨done', hstop, rfl⟩

theorem applyUpdates_error {name : Str} (hn : validateCollectionName (.str name) = .ok ()) :
    ∀ {ps : List (Str × PyDict)} {s : State}, WellFormed s → (∀ p ∈ ps, Applicable rt s name p) →
      (applyUpdates cp (.str name) (ps.map fun p => (.str p.1, .dict p.2)) s = .error e s' ↔
        ∃ done, StopsAfter cp ps e done ∧ s' = updatedAll s name done)
  | [], s, _, _ => by
      refine ⟨fun h₀ => (by cases h₀), fun hr => ?_⟩
      obtain ⟨done, ⟨p, rest, hnil, -⟩, -⟩ := hr
      cases done <;> cases hnil
  | (id, updates) :: ps, s, h, hp => by
      have ha := hp _ List.mem_cons_self
      have hget := ha.get
      have hs := h.updated hn hget ha.wf ha.noId
      have href := h.getDocumentRef_ok.mpr ⟨name, id, ⟨rfl, hn⟩, ⟨rfl, ha.id⟩, hget⟩
      have ih := applyUpdates_error hn hs fun p hm => (hp p (List.mem_cons_of_mem _ hm)).stored
      constructor
      · intro h₀
        rcases run_lift_bind_error.mp h₀ with ⟨hold, -⟩ | ⟨old, hold, h₁⟩
        · cases href.symm.trans hold
        cases href.symm.trans hold
        rcases run_lift_bind_error.mp h₁ with ⟨hc, rfl⟩ | ⟨copied, hc, h₂⟩
        · exact ⟨[], stopsAfter_cons.mpr (Or.inl ⟨rfl, copyDict_error.mp hc⟩), rfl⟩
        obtain ⟨hcp, hf⟩ := copyDict_ok.mp hc
        cases hf
        rcases run_bind_error.mp h₂ with h₃ | ⟨v, s₁, hasg, h₃⟩
        · exact absurd h₃ (assignDocument_error h)
        obtain rfl := (assignDocument_ok h).mp hasg
        obtain ⟨done, hstop, rfl⟩ := ih.mp h₃
        exact ⟨_, stopsAfter_cons.mpr (Or.inr ⟨done, rfl, hcp, hstop⟩), rfl⟩
      · intro hr
        obtain ⟨done, hstop, rfl⟩ := hr
        refine run_lift_then_error href ?_
        rcases stopsAfter_cons.mp hstop with ⟨rfl, he⟩ | ⟨done', rfl, hcp, hstop⟩
        · exact run_lift_bind_error.mpr (Or.inl ⟨copyDict_error.mpr he, rfl⟩)
        · refine run_lift_then_error (copyDict_ok.mpr ⟨hcp, rfl⟩) ?_
          refine run_then_error ((assignDocument_ok (u := ()) h).mpr rfl) ?_
          exact ih.mpr ⟨done', hstop, rfl⟩

/-- The loop of a bulk insertion, when a copy raises. -/
theorem insertLoop_error (h : WellFormed s) {name : Str}
    (hn : validateCollectionName (.str name) = .ok ()) {uuids : Nat → Uuid} {fs : List PyDict}
    (hw : ∀ f ∈ fs, (PyVal.dict f).wf) :
    storeInserts cp (.str name) ((generated uuids (fs.map PyVal.dict).length).zip (fs.map PyVal.dict))
        (setDocs s name (docsIn s name)) = .error e s' ↔
      ∃ done, StopsAfter cp ((generated uuids fs.length).zip fs) e done ∧
        s' = setDocs s name (Dict.merge (docsIn s name) (done.map entryOf)) := by
  rw [List.length_map, List.zip_map_right]
  refine (storeInserts_error hn (h.ensured hn) fun p hp => hw _ (List.of_mem_zip hp).2).trans ?_
  exact exists_congr fun done => and_congr_right fun _ => by rw [storedAll_eq]

theorem bulkInsertDocuments_error (h : WellFormed s) (hw : document.wf) {uuids : Nat → Uuid}
    (h₀ : bulkInsertDocuments rt cp collection document uuids s = .error e s') :
    s' = s ∨ ∃ name, ∃ fs : List PyDict, ∃ done, Named collection name ∧
      document = .list (fs.map PyVal.dict) ∧
      (∀ f ∈ fs, validateDocument rt (.dict f) = .ok () ∧ Dict.get f ID = none) ∧
      StopsAfter cp ((generated uuids fs.length).zip fs) e done ∧
      s' = setDocs s name (Dict.merge (docsIn s name) (done.map entryOf)) := by
  cases document with
  | list documents =>
    have hwf := (everywhere_list.mp hw).2
    rcases run_lift_bind_error.mp h₀ with ⟨-, hs⟩ | ⟨u, hc, h₁⟩
    · exact Or.inl hs
    rcases run_bind_error.mp h₁ with h₂ | ⟨docs, s₁, hens, h₂⟩
    · exact Or.inl (ensureCollection_error h₂)
    obtain ⟨name, ⟨rfl, hn⟩, -, rfl⟩ := (ensureCollection_ok h).mp hens
    obtain ⟨fs, rfl, hfs⟩ := exists_fields fun x hx => checkInsert_ok.mp (forEach_ok.mp hc x hx)
    rcases run_bind_error.mp h₂ with h₃ | ⟨u, s₂, -, h₃⟩
    · obtain ⟨done, hstop, hs⟩ := (insertLoop_error h hn fun f hf =>
        hwf _ (List.mem_map.mpr ⟨f, hf, rfl⟩)).mp h₃
      exact Or.inr ⟨name, fs, done, ⟨rfl, hn⟩, rfl, hfs, hstop, hs⟩
    · cases h₃
  | _ =>
    cases h₀
    exact Or.inl rfl

theorem bulkUpdateDocuments_error (h : WellFormed s) (hw : document.wf)
    (h₀ : bulkUpdateDocuments rt cp collection document s = .error e s') :
    s' = s ∨ ∃ name, ∃ items : List PyVal, ∃ ps done : List (Str × PyDict), Named collection name ∧
      document = .list items ∧ List.Forall₂ IsPair items ps ∧ (view s name).isSome = true ∧
      (∀ p ∈ ps, Applicable rt s name p) ∧ StopsAfter cp ps e done ∧
      s' = updatedAll s name done := by
  cases document with
  | list items =>
    have hwf := (everywhere_list.mp hw).2
    rcases run_lift_bind_error.mp h₀ with ⟨-, hs⟩ | ⟨docs, hd, h₁⟩
    · exact Or.inl hs
    rcases run_lift_bind_error.mp h₁ with ⟨-, hs⟩ | ⟨normalized, hm, h₂⟩
    · exact Or.inl hs
    obtain ⟨name, ⟨rfl, hn⟩, hc, rfl⟩ := h.getCollectionRef_ok.mp hd
    obtain ⟨ps, rfl, hps⟩ := exists_pairs ((mapM_ok.mp hm).imp fun _ _ hc =>
      (checkUpdate_iff h).mp hc)
    have happl (p : Str × PyDict) (hp : p ∈ ps) : Applicable rt s name p := by
      obtain ⟨item, hitem, hi, hne, hf, hv, hno⟩ := forall₂_mem_right hps hp
      exact ⟨hne, wf_second (hwf item hitem) hi, hv, hno, hf⟩
    rcases run_bind_error.mp h₂ with h₃ | ⟨u, s₁, -, h₃⟩
    · obtain ⟨done, hstop, hs⟩ := (applyUpdates_error hn h happl).mp h₃
      exact Or.inr ⟨name, items, ps, done, ⟨rfl, hn⟩, rfl, hps.imp fun _ _ hp => hp.1, hc, happl,
        hstop, hs⟩
    · cases h₃
  | _ =>
    cases h₀
    exact Or.inl rfl

end Writes

/-! ## 3. Which writes raise with a change -/

section

variable {rt : Runtime} {cp : Copier} {s s' : State} {call : OpCall} {e : PyExc} {name : Str}
  {docs : PyDict}

/-- A state with a collection that has these documents. -/
theorem WellFormed.setDocs_eq_iff (h : WellFormed s) :
    JsonDatabase.setDocs s name docs = s ↔ (view s name).isSome = true ∧ docs = docsIn s name := by
  have hview : (view s name).isSome = (Dict.get (collectionsIn s) (.str name)).isSome :=
    Option.isSome_map
  constructor
  · intro hs
    refine ⟨?_, (@docsIn_setDocs_self s name docs).symm.trans (congrArg (docsIn · name) hs)⟩
    rw [hview, ← congrArg collectionsIn hs, collectionsIn_setDocs, Dict.get_put_self]
    rfl
  · intro hr
    obtain ⟨hsome, rfl⟩ := hr
    rw [hview] at hsome
    obtain ⟨v, hv⟩ := Option.isSome_iff_exists.mp hsome
    have hdocs := h.get_docs hv
    subst hdocs
    rw [JsonDatabase.setDocs, writeDocs, Dict.put_of_get hv, Dict.put_of_get h.get_collections]

theorem WellFormed.updatedAll_eq (h : WellFormed s) {name : Str} (hc : (view s name).isSome = true)
    (ps : List (Str × PyDict)) :
    JsonDatabase.updatedAll s name ps =
      JsonDatabase.setDocs s name (docsIn (JsonDatabase.updatedAll s name ps) name) := by
  have hs := @updatedAll_setDocs s name ps (docsIn s name)
  rwa [h.setDocs_eq_iff.mpr ⟨hc, rfl⟩] at hs

/-- **A write that raises has left the state alone or was interrupted.** -/
theorem OpCall.error_cases (h : WellFormed s) (h₀ : call.run rt cp s = .error e s') :
    s' = s ∨ ∃ name docs, call.Interrupted rt cp s e name docs ∧ s' = setDocs s name docs := by
  cases call with
  | insert collection document uuid => exact Or.inl (insertDocument_error h h₀)
  | update collection documentId updates =>
    rcases updateDocument_error h h₀ with hs | ⟨name, id, fields, old, hn, hi, hu, hid, hold, hcp, he, hs⟩
    · exact Or.inl hs
    · exact Or.inr ⟨name, _, .update hn hi hu hid hold hcp he, hs⟩
  | replace collection documentId document =>
    rcases replaceDocument_error h h₀ with hs | ⟨name, id, fields, old, hn, hi, hd, hid, hold, hcp, he, hs⟩
    · exact Or.inl hs
    · exact Or.inr ⟨name, _, .replace hn hi hd hid hold hcp he, hs⟩
  | delete collection documentId => exact Or.inl (deleteDocument_error h₀)
  | upsert collection documentId document => exact Or.inl (upsertDocument_error h h₀)
  | bulkInsert collection documents uuids =>
    rcases bulkInsertDocuments_error h documents.wf h₀ with hs | ⟨name, fs, done, hn, hd, hf, he, hs⟩
    · exact Or.inl hs
    · exact Or.inr ⟨name, _, .bulkInsert hn hd hf he, hs⟩
  | bulkUpdate collection updates =>
    rcases bulkUpdateDocuments_error h updates.wf h₀ with
      hs | ⟨name, items, ps, done, hn, hu, hp, hc, hf, he, hs⟩
    · exact Or.inl hs
    · refine Or.inr ⟨name, _, .bulkUpdate hn hu hp hc hf he, ?_⟩
      rw [hs]
      exact h.updatedAll_eq hc done

/-- A write that is interrupted raises with what was stored by then. -/
theorem OpCall.interrupted_raises (h : WellFormed s) (hi : call.Interrupted rt cp s e name docs) :
    call.run rt cp s = .error e (setDocs s name docs) := by
  cases hi with
  | @update collection documentId updates name id fields old e hn hi hu hid hold hcp he =>
    have href := h.getDocumentRef_ok.mpr ⟨name, id, hn, hi, hold⟩
    show updateDocument rt cp collection.val documentId.val updates.val s = _
    obtain ⟨hn, -⟩ := hn
    obtain ⟨hi, -⟩ := hi
    obtain ⟨hu, hv⟩ := hu
    rw [hu] at hv hcp
    rw [hn, hi] at href
    rw [hn, hi, hu]
    refine run_lift_then_error hv ?_
    refine run_lift_then_error rfl ?_
    refine run_lift_then_error (raiseIf_ok.mpr (contains_eq_false_iff.mpr hid)) ?_
    refine run_lift_then_error href ?_
    refine run_lift_then_error (copyDict_ok.mpr ⟨hcp, rfl⟩) ?_
    refine run_then_error ((assignDocument_ok (u := ()) h).mpr rfl) ?_
    exact run_lift_error.mpr ⟨deepcopy_error.mpr he, rfl⟩
  | @replace collection documentId document name id fields old e hn hi hd hid hold hcp he =>
    have href := h.getDocumentRef_ok.mpr ⟨name, id, hn, hi, hold⟩
    have hens := (ensureCollection_ok h).mpr ⟨name, hn, rfl, rfl⟩
    show replaceDocument rt cp collection.val documentId.val document.val s = _
    obtain ⟨hn, hname⟩ := hn
    obtain ⟨hi, -⟩ := hi
    obtain ⟨hd, hv⟩ := hd
    rw [hd] at hv hcp
    rw [hn, hi] at href
    rw [hn] at hens
    rw [hn, hi, hd]
    refine run_lift_then_error hv ?_
    refine run_lift_then_error (copyDict_ok.mpr ⟨hcp, rfl⟩) ?_
    refine run_lift_then_error (validateBodyId_ok.mpr hid) ?_
    refine run_lift_then_error href ?_
    refine run_then_error hens ?_
    refine run_then_error ((ensure_assign (u := ()) h hname).mpr rfl) ?_
    exact run_lift_error.mpr ⟨deepcopy_error.mpr he, rfl⟩
  | @bulkInsert collection documents uuids name fs done e hn hd hf he =>
    have hens := (ensureCollection_ok h).mpr ⟨name, hn, rfl, rfl⟩
    have hw := documents.wf
    show bulkInsertDocuments rt cp collection.val documents.val uuids s = _
    obtain ⟨hn, hname⟩ := hn
    rw [hn] at hens
    rw [hd] at hw
    rw [hn, hd]
    have hfw (f : PyDict) (hm : f ∈ fs) : (PyVal.dict f).wf :=
      (everywhere_list.mp hw).2 _ (List.mem_map.mpr ⟨f, hm, rfl⟩)
    refine run_lift_then_error (forEach_ok.mpr fun x hx => ?_) ?_
    · obtain ⟨f, hm, rfl⟩ := List.mem_map.mp hx
      exact checkInsert_ok.mpr ⟨f, rfl, hf f hm⟩
    · refine run_then_error hens ?_
      exact run_bind_error.mpr (Or.inl ((insertLoop_error h hname hfw).mpr ⟨done, he, rfl⟩))
  | @bulkUpdate collection updates name items ps done e hn hu hp hc hf he =>
    have hd := h.getCollectionRef_ok.mpr ⟨name, hn, hc, rfl⟩
    show bulkUpdateDocuments rt cp collection.val updates.val s = _
    obtain ⟨hn, hname⟩ := hn
    rw [hn] at hd
    rw [hn, hu]
    have hchecked : items.mapM (checkUpdate rt (.str name) (docsIn s name)) =
        .ok (ps.map fun p => (.str p.1, .dict p.2)) := by
      refine mapM_ok.mpr (List.forall₂_map_right_iff.mpr (forall₂_imp_mem hp fun item _ p hm hi => ?_))
      have ha := hf p hm
      exact (checkUpdate_iff h).mpr ⟨p, rfl, hi, ha.id, ha.found, ha.valid, ha.noId⟩
    refine run_lift_then_error hd ?_
    refine run_lift_then_error hchecked ?_
    refine run_bind_error.mpr (Or.inl ((applyUpdates_error hname h hf).mpr ⟨done, he, ?_⟩))
    exact (h.updatedAll_eq hc done).symm

/-- **Whatever is stored when a copy raises was there before.** -/
def OpCall.Harmless (rt : Runtime) (cp : Copier) (s : State) (call : OpCall) : Prop :=
  ∀ e name docs, call.Interrupted rt cp s e name docs →
    (view s name).isSome = true ∧ docs = docsIn s name

theorem OpCall.error_undone_iff (h : WellFormed s) :
    (∀ e s', call.run rt cp s = .error e s' → s' = s) ↔ call.Harmless rt cp s := by
  constructor
  · intro hundone e name docs hi
    exact h.setDocs_eq_iff.mp (hundone e _ (interrupted_raises h hi))
  · intro hh e s' h₀
    rcases error_cases h h₀ with rfl | ⟨name, docs, hi, rfl⟩
    · rfl
    · exact h.setDocs_eq_iff.mpr (hh e name docs hi)

/-- Copies that succeed do no harm. -/
theorem OpCall.harmless_total : call.Harmless rt .total s := by
  intro e name docs hi
  cases hi with
  | update hn hi hu hid hold hcp he => cases he
  | replace hn hi hd hid hold hcp he => cases he
  | bulkInsert hn hd hf he =>
    obtain ⟨p, rest, -, -, he⟩ := he
    cases he
  | bulkUpdate hn hu hp hc hf he =>
    obtain ⟨p, rest, -, -, he⟩ := he
    cases he

end

/-! ## 4. The body of a transaction -/

/-- A write with the copies it makes; how deep they may go depends on where it is called. -/
abbrev Attempted := Copier × OpCall

section Runs

variable (rt : Runtime)

/-- The state after the writes, exceptions caught between them. -/
def runBody (steps : List Attempted) (s : State) : State :=
  steps.foldl (fun s p => p.2.after rt p.1 s) s

/-- The writes that returned. -/
def returned : List Attempted → State → List Attempted
  | [], _ => []
  | p :: steps, s =>
    match p.2.run rt p.1 s with
    | .ok _ s' => p :: returned steps s'
    | .error _ s' => returned steps s'

/-- From `s` on each of the writes returns, and together they lead to `s'`. -/
inductive Effects : List Attempted → State → State → Prop
  | nil {s : State} : Effects [] s s
  | cons {p : Attempted} {steps : List Attempted} {r : PyVal} {s s₁ s' : State}
      (hr : p.2.run rt p.1 s = .ok r s₁) (h : Effects steps s₁ s') : Effects (p :: steps) s s'

/-- Each write does no harm where it is made. -/
def AllHarmless : List Attempted → State → Prop
  | [], _ => True
  | p :: steps, s => p.2.Harmless rt p.1 s ∧ AllHarmless steps (p.2.after rt p.1 s)

/-- The session after the body of a `with` statement. -/
def Session.body (t : Nat) (steps : List Attempted) (σ : Session) : Session :=
  steps.foldl (fun σ p => (σ.operate t (p.2.run rt p.1)).2) σ

end Runs

section

variable {rt : Runtime} {s : State}

theorem OpCall.after_ok {cp : Copier} {call : OpCall} {r : PyVal} {s' : State}
    (hr : call.run rt cp s = .ok r s') : call.after rt cp s = s' := by
  unfold OpCall.after
  rw [hr]

theorem OpCall.after_error {cp : Copier} {call : OpCall} {e : PyExc} {s' : State}
    (hr : call.run rt cp s = .error e s') : call.after rt cp s = s' := by
  unfold OpCall.after
  rw [hr]

/-- **One write**: it returns with its effect, or it raises without one. -/
theorem OpCall.after_cases (h : WellFormed s) {p : Attempted} (hh : p.2.Harmless rt p.1 s) :
    (∃ r, p.2.run rt p.1 s = .ok r (p.2.after rt p.1 s)) ∧ WellFormed (p.2.after rt p.1 s) ∨
      (∃ e, p.2.run rt p.1 s = .error e s) ∧ p.2.after rt p.1 s = s := by
  cases hr : p.2.run rt p.1 s with
  | ok r s' =>
    obtain ⟨-, -, hw, -⟩ := OpCall.sound h hr
    rw [after_ok hr]
    exact Or.inl ⟨⟨r, rfl⟩, hw⟩
  | error e s' =>
    obtain rfl := (error_undone_iff h).mpr hh e s' hr
    exact Or.inr ⟨⟨e, rfl⟩, after_error hr⟩

/-- **All of them**: what is left are the effects of those that returned. -/
theorem runBody_effects (steps : List Attempted) (h : WellFormed s) (hh : AllHarmless rt steps s) :
    Effects rt (returned rt steps s) s (runBody rt steps s) := by
  induction steps generalizing s with
  | nil => exact .nil
  | cons p steps ih =>
    obtain ⟨hp, hrest⟩ := hh
    rcases OpCall.after_cases h hp with ⟨⟨r, hr⟩, hw⟩ | ⟨⟨e, hr⟩, hs⟩
    · have hret : returned rt (p :: steps) s = p :: returned rt steps (p.2.after rt p.1 s) := by
        rw [returned, hr]
      rw [hret]
      exact .cons hr (ih hw hrest)
    · have hret : returned rt (p :: steps) s = returned rt steps s := by
        rw [returned, hr]
      rw [hret]
      rw [hs] at hrest
      show Effects rt _ s (runBody rt steps (p.2.after rt p.1 s))
      rw [hs]
      exact ih h hrest

theorem Session.setTx_setTx (σ : Session) (t : Nat) (tx tx' : Tx) :
    (σ.setTx t tx).setTx t tx' = σ.setTx t tx' := by
  unfold setTx
  simp only [Function.update_idem]

/-- The session holds the state that the writes lead to. -/
theorem Session.body_eq (t : Nat) (steps : List Attempted) {σ : Session} {lock : Option Nat}
    (htx : σ.txs t = ⟨true, some s, lock⟩) :
    σ.body rt t steps = σ.setTx t ⟨true, some (runBody rt steps s), lock⟩ := by
  induction steps generalizing σ s with
  | nil =>
    show σ = σ.setTx t ⟨true, some s, lock⟩
    rw [← htx]
    unfold setTx
    rw [Function.update_eq_self]
  | cons p steps ih =>
    have hstep : (σ.operate t (p.2.run rt p.1)).2 =
        σ.setTx t ⟨true, some (p.2.after rt p.1 s), lock⟩ := by
      unfold operate OpCall.after
      rw [htx]
      show (match p.2.run rt p.1 s with
        | .ok r s' => (Except.ok r, σ.setTx t ⟨true, some s', lock⟩)
        | .error e s' => (.error e, σ.setTx t ⟨true, some s', lock⟩) : Except PyExc PyVal × Session).2 = _
      cases p.2.run rt p.1 s with
      | ok r s' => rfl
      | error e s' => rfl
    show (σ.operate t (p.2.run rt p.1)).2.body rt t steps = _
    rw [hstep, ih (setTx_self _ _ _), setTx_setTx]
    rfl

end

/-- A clean exit that returns has written the state. -/
theorem Session.exit_commits {rt : Runtime} {cp : Copier} {cfg : Settings} {env : Env}
    {σ σ' : Session} {t : Nat} {s : State} {lock : Option Nat} (htx : σ.txs t = ⟨true, some s, lock⟩)
    (h : σ.exit rt cp cfg env t true = (.ok (), σ')) :
    ∃ data, commitBytes rt cp (env.clock .commit) s = .ok data ∧ σ'.world.file = some data := by
  have hatt := @exit_attempt env rt cp cfg lock (.ok s) σ.world
  have hrun : ((exitTransaction rt cp cfg lock true (.ok s)).run env σ.world).1 = .ok () ∧
      σ'.world = ((exitTransaction rt cp cfg lock true (.ok s)).run env σ.world).2 := by
    unfold exit at h
    rw [htx] at h
    exact ⟨congrArg Prod.fst h, (congrArg (fun x => x.2.world) h).symm⟩
  obtain ⟨hr, hw⟩ := hrun
  by_cases hdone : True ∧ ∃ a data, exitBytes rt cp env (.ok s) = .ok (a, data) ∧
      env.replaces cfg.nt data
  · obtain ⟨-, a, data, hbytes, hrep⟩ := hdone
    obtain ⟨r, w', hrun, hfile, -⟩ := hatt.replaced a data trivial hbytes hrep
    rw [hrun] at hw
    obtain ⟨data', hdata, hpair⟩ := bind_ok.mp (show (do
      let data ← commitBytes rt cp (env.clock .commit) s
      return ((), data)) = .ok (a, data) from hbytes)
    cases hpair
    exact ⟨data, hdata, hw ▸ hfile⟩
  · obtain ⟨e, w', hrun, -⟩ := hatt.failed hdone
    rw [hrun] at hr
    cases hr

/-! ## 5. The result -/

theorem AllHarmless.of_append {rt : Runtime} {first rest : List Attempted} {s : State}
    (h : AllHarmless rt (first ++ rest) s) :
    AllHarmless rt first s ∧ AllHarmless rt rest (runBody rt first s) := by
  induction first generalizing s with
  | nil => exact ⟨trivial, h⟩
  | cons p first ih =>
    obtain ⟨hp, h⟩ := h
    obtain ⟨hfirst, hrest⟩ := ih h
    exact ⟨⟨hp, hfirst⟩, hrest⟩

theorem runBody_wellFormed {rt : Runtime} (steps : List Attempted) {s : State} (h : WellFormed s)
    (hh : AllHarmless rt steps s) : WellFormed (runBody rt steps s) := by
  induction steps generalizing s with
  | nil => exact h
  | cons p steps ih =>
    obtain ⟨hp, hrest⟩ := hh
    refine ih (s := p.2.after rt p.1 s) ?_ hrest
    rcases OpCall.after_cases h hp with ⟨-, hw⟩ | ⟨-, hs⟩
    · exact hw
    · rw [hs]
      exact h

/-- **A write that raises is undone iff it is harmless**: no copy raises after something was stored
    that was not there. If that holds wherever a write is made in a transaction, then those that
    raise leave its state alone, and a clean exit commits the effects of those that returned. -/
theorem failed_writes_undone (rt : Runtime) :
    (∀ (cp : Copier) (s : State) (call : OpCall), WellFormed s →
      ((∀ e s', call.run rt cp s = .error e s' → s' = s) ↔ call.Harmless rt cp s)) ∧
    ∀ (σ : Session) t s lock steps, σ.txs t = ⟨true, some s, lock⟩ → WellFormed s →
      AllHarmless rt steps s →
      (∀ first p rest e s', steps = first ++ p :: rest →
        p.2.run rt p.1 (runBody rt first s) = .error e s' → s' = runBody rt first s) ∧
      ∃ s', Effects rt (returned rt steps s) s s' ∧
        (σ.body rt t steps).txs t = ⟨true, some s', lock⟩ ∧
        ∀ cp cfg env σ', (σ.body rt t steps).exit rt cp cfg env t true = (.ok (), σ') →
          ∃ data, commitBytes rt cp (env.clock .commit) s' = .ok data ∧ σ'.world.file = some data := by
  refine ⟨fun cp s call h => OpCall.error_undone_iff h, fun σ t s lock steps htx h hh => ⟨?_, ?_⟩⟩
  · rintro first p rest e s' rfl hr
    obtain ⟨hfirst, hp, -⟩ := hh.of_append
    exact (OpCall.error_undone_iff (runBody_wellFormed first h hfirst)).mpr hp e s' hr
  · refine ⟨_, runBody_effects steps h hh, ?_, fun cp cfg env σ' hexit => ?_⟩
    · rw [Session.body_eq t steps htx, Session.setTx_self]
    · rw [Session.body_eq t steps htx] at hexit
      exact Session.exit_commits (Session.setTx_self _ _ _) hexit

/-- An insertion that returns and a deletion that raises, then a clean exit. -/
theorem caught_delete : ∃ s', Effects interpreter
    [(.total, .insert (.str (lit "users")) (.field (lit "name") (lit "Ava")) ⟨0⟩)]
      (emptyState epoch (.str [])) s' ∧
    ((Session.body interpreter 0
      [(.total, .insert (.str (lit "users")) (.field (lit "name") (lit "Ava")) ⟨0⟩),
        (.total, .delete (.str (lit "users")) (.str (lit "nobody")))]
      ⟨⟨none, some 0, 1⟩, fun _ => ⟨true, some (emptyState epoch (.str [])), some 0⟩, some 0⟩).txs 0).state
        = some s' := by
  have h : WellFormed (emptyState epoch (.str [])) := emptyState_wellFormed epoch rfl
  obtain ⟨-, s', heff, htx, -⟩ := (failed_writes_undone interpreter).2
    ⟨⟨none, some 0, 1⟩, fun _ => ⟨true, some (emptyState epoch (.str [])), some 0⟩, some 0⟩ 0
    (emptyState epoch (.str [])) (some 0)
    [(.total, .insert (.str (lit "users")) (.field (lit "name") (lit "Ava")) ⟨0⟩),
      (.total, .delete (.str (lit "users")) (.str (lit "nobody")))] rfl h
    ⟨OpCall.harmless_total, OpCall.harmless_total, trivial⟩
  exact ⟨s', heff, congrArg Tx.state htx⟩

/-! ### A bulk insertion that stops half-way -/

mutual
/-- How deep a value is nested. -/
def nesting : PyVal → Nat
  | .dict kvs => nestingEntries kvs + 1
  | .list xs | .tuple xs => nestingAll xs + 1
  | _ => 0

def nestingAll : List PyVal → Nat
  | [] => 0
  | x :: xs => max (nesting x) (nestingAll xs)

def nestingEntries : List (PyKey × PyVal) → Nat
  | [] => 0
  | (_, v) :: kvs => max (nesting v) (nestingEntries kvs)
end

/-- `copy.deepcopy` takes two stack frames for each level, of a thousand. -/
def stackOfThousand : Copier :=
  ⟨fun v => if 500 ≤ nesting v then some (.builtin .recursionError) else none⟩

/-- `{"child": {"child": … {}}}`. -/
def nestedDict : Nat → PyDict
  | 0 => []
  | n + 1 => [(.str (lit "child"), .dict (nestedDict n))]

theorem nesting_nestedDict (n : Nat) : nesting (.dict (nestedDict n)) = n + 1 := by
  induction n with
  | zero => rfl
  | succ n ih =>
    show max (nesting (.dict (nestedDict n))) 0 + 1 = n + 1 + 1
    rw [ih, Nat.max_zero]

theorem wf_nestedDict (n : Nat) : (PyVal.dict (nestedDict n)).wf := by
  induction n with
  | zero => exact wf_empty
  | succ n ih => exact wf_entry ih

theorem validateDocument_nestedDict (rt : Runtime) (n : Nat) :
    validateDocument rt (.dict (nestedDict n)) = .ok () := by
  have hreserved : reservedInside (.dict (nestedDict n)) = false := by
    induction n with
    | zero => rfl
    | succ n ih =>
      have hstep : reservedInside (.dict (nestedDict (n + 1))) =
        (false || (reservedInside (.dict (nestedDict n)) || false)) := rfl
      rw [hstep, ih]
      rfl
  have hencode : Encodable rt (.dict (nestedDict n)) := by
    clear hreserved
    induction n with
    | zero => exact ⟨_, rfl⟩
    | succ n ih =>
      refine encodable_dict.mpr fun k v hm => ?_
      cases List.mem_singleton.mp hm
      exact ⟨⟨_, rfl⟩, ih⟩
  obtain ⟨e, he⟩ := hencode
  exact validateDocument_ok.mpr ⟨_, e, rfl, hreserved, he⟩

/-- A document with one field, and one that is nested. -/
def shallowAndDeep (n : Nat) : PyObj :=
  ⟨.list [.dict [(.str (lit "name"), .str (lit "Ava"))], .dict (nestedDict n)],
    everywhere_list.mpr ⟨trivial, by
      intro v hm
      rcases List.mem_cons.mp hm with rfl | hm
      · exact (PyObj.field (lit "name") (lit "Ava")).wf
      · cases List.mem_singleton.mp hm
        exact wf_nestedDict n⟩⟩

theorem shallowAndDeep_interrupted {n : Nat} (hn : 500 ≤ n + 1) {s : State} :
    (OpCall.bulkInsert (.str (lit "users")) (shallowAndDeep n) fun k => ⟨Fin.ofNat _ k⟩).Interrupted
      interpreter stackOfThousand s (.builtin .recursionError) (lit "users")
        (Dict.merge (docsIn s (lit "users"))
          [entryOf (⟨0⟩, [(.str (lit "name"), .str (lit "Ava"))])]) := by
  have hdeep : stackOfThousand.fails (.dict (nestedDict n)) = some (.builtin .recursionError) := by
    show (if 500 ≤ nesting _ then _ else _) = _
    rw [nesting_nestedDict]
    exact if_pos hn
  refine @OpCall.Interrupted.bulkInsert _ _ _ _ _ _ _
    [[(.str (lit "name"), .str (lit "Ava"))], nestedDict n]
    [(⟨0⟩, [(.str (lit "name"), .str (lit "Ava"))])] _ ⟨rfl, rfl⟩ rfl ?_
    ⟨(⟨1⟩, nestedDict n), [], rfl, ?_, hdeep⟩
  · refine List.forall_mem_cons.mpr ⟨⟨rfl, rfl⟩, List.forall_mem_singleton.mpr ⟨?_, ?_⟩⟩
    · exact validateDocument_nestedDict interpreter n
    · cases n <;> rfl
  · exact List.forall_mem_singleton.mpr rfl

/-- **The bulk insertion raises `RecursionError` on the second document and keeps the first.** -/
theorem half_inserted : ∃ e s', WellFormed (emptyState epoch (.str [])) ∧
    (OpCall.bulkInsert (.str (lit "users")) (shallowAndDeep 600) fun k => ⟨Fin.ofNat _ k⟩).run
      interpreter stackOfThousand (emptyState epoch (.str [])) = .error e s' ∧
    e.type = .recursionError ∧ s' ≠ emptyState epoch (.str []) ∧
    (view s').find (lit "users") (Uuid.text ⟨0⟩) =
      some (withId [(.str (lit "name"), .str (lit "Ava"))] (Uuid.text ⟨0⟩)) := by
  have h : WellFormed (emptyState epoch (.str [])) := emptyState_wellFormed epoch rfl
  have hnone : (view (emptyState epoch (.str [])) (lit "users")).isSome = false := rfl
  refine ⟨_, _, h, OpCall.interrupted_raises h (shallowAndDeep_interrupted (by decide)), rfl,
    fun hs => ?_, ?_⟩
  · obtain ⟨hsome, -⟩ := h.setDocs_eq_iff.mp hs
    cases hnone.symm.trans hsome
  · refine find_view.mpr ⟨_, ?_, get_withId.symm⟩
    rw [docsIn_setDocs_self]
    exact Dict.get_put_self _ _ _

/-! ### A document that is too deep to be committed -/

theorem nesting_get {kvs : PyDict} {k : PyKey} {v : PyVal} (h : Dict.get kvs k = some v) :
    nesting v + 1 ≤ nesting (.dict kvs) := by
  have hm := Dict.mem_of_get h
  clear h
  show nesting v + 1 ≤ nestingEntries kvs + 1
  refine Nat.succ_le_succ ?_
  induction kvs with
  | nil => cases hm
  | cons p kvs ih =>
    rcases List.mem_cons.mp hm with rfl | hm
    · exact Nat.le_max_left ..
    · exact (ih hm).trans (Nat.le_max_right ..)

/-- A state is three levels deeper than a document in it. -/
theorem nesting_state {s : State} (h : WellFormed s) {name id : Str} {fields : PyDict}
    (hget : Dict.get (docsIn s name) (.str id) = some (.dict fields)) :
    nesting (.dict fields) + 3 ≤ nesting (.dict s) := by
  have hdoc := nesting_get hget
  have hstate := nesting_get h.get_collections
  cases hn : Dict.get (collectionsIn s) (.str name) with
  | none =>
    rw [docsIn, hn] at hget
    cases hget
  | some v =>
    have hdocs := nesting_get hn
    rw [h.get_docs hn] at hdocs
    omega

/-- **A document that can be inserted and not committed**: it can be copied, and a state with it
    cannot. -/
theorem deep_not_committed (rt : Runtime) {n : Nat} (hn : 495 ≤ n) (hn' : n ≤ 497) : ∃ s,
    (OpCall.insert (.str (lit "users")) ⟨.dict (nestedDict (n + 1)), wf_nestedDict (n + 1)⟩ ⟨0⟩).run rt
      stackOfThousand (emptyState epoch (.str [])) = .ok (.str (Uuid.text ⟨0⟩)) s ∧
    ∀ now, commitBytes rt stackOfThousand now s = .error (.builtin .recursionError) := by
  have h : WellFormed (emptyState epoch (.str [])) := emptyState_wellFormed epoch rfl
  have hcopied : stackOfThousand.fails (.dict (nestedDict (n + 1))) = none := by
    show (if 500 ≤ nesting _ then _ else _) = _
    rw [nesting_nestedDict]
    exact if_neg (by omega)
  have hinsert : (OpCall.insert (.str (lit "users"))
      ⟨.dict (nestedDict (n + 1)), wf_nestedDict (n + 1)⟩ ⟨0⟩).run rt stackOfThousand
        (emptyState epoch (.str [])) = .ok (.str (Uuid.text ⟨0⟩)) _ :=
    (insertDocument_ok h).mpr ⟨lit "users", nestedDict (n + 1), ⟨rfl, rfl⟩,
      ⟨rfl, validateDocument_nestedDict rt (n + 1)⟩, rfl, hcopied, rfl, rfl⟩
  refine ⟨_, hinsert, fun now => ?_⟩
  obtain ⟨-, -, hw, hkept⟩ := OpCall.sound h hinsert
  have hshape := emptyState_shape epoch (.str [])
  have hshape' : StateShape false _ _ _ := ⟨(hkept META nofun).trans hshape.metaIs,
    hshape.metaShape, nofun, hw.get_collections, fun entry hm => hw.entry hm⟩
  -- the state is too deep
  have hchild := @nesting_get (Dict.put (nestedDict (n + 1)) ID (.str (Uuid.text ⟨0⟩)))
    (.str (lit "child")) (.dict (nestedDict n)) rfl
  rw [nesting_nestedDict] at hchild
  have hstate := @nesting_state _ hw (lit "users") (Uuid.text ⟨0⟩) _
    (by rw [storedDoc, docsIn_setDocs_self, Dict.get_put_self])
  have hdeep := le_trans (show 500 ≤ n + 1 + 1 + 3 by omega)
    ((Nat.add_le_add_right hchild 3).trans hstate)
  have hfails : stackOfThousand.fails _ = some (.builtin .recursionError) := if_pos hdeep
  rw [commitBytes, prepareForCommit_eq hshape', copyDict_error.mpr hfails]
  rfl

end JsonDatabase
