/-
  File:      JsonDatabase/Contract.lean
  Subject:   The seven writes as changes of a finite map.

  Of a state the API shows the collections and the documents under their identifiers. Each write
  succeeds under conditions on what is shown and on its arguments, and then changes what is shown in
  one way; the rest of the state stays.

  * `view` -- what a state shows; `WellFormed` -- the states the writes are made for;
  * `OpCall.Spec` -- the contract of the writes, one rule for each;
  * `writes_abstract_map` -- every write succeeds exactly when a rule applies, and does what it says.
-/
import JsonDatabase.Commit
import JsonDatabase.Interpreter
import JsonDatabase.Basis.Catalog

namespace JsonDatabase

open PyVal hiding none

/-! ## 1. What a state shows -/

/-- The fields of a document. -/
abbrev Fields := PyKey → Option PyVal

/-- Collections and documents by name and identifier. -/
abbrev DocMap := Catalog Str Str Fields

/-- The dictionary under `collections`. -/
def collectionsIn (s : State) : PyDict :=
  match Dict.get s COLLECTIONS with
  | some (.dict c) => c
  | _ => []

/-- The documents of a collection, none if it is missing. -/
def docsIn (s : State) (name : Str) : PyDict :=
  match Dict.get (collectionsIn s) (.str name) with
  | some (.dict docs) => docs
  | _ => []

def viewDocs (docs : PyDict) (id : Str) : Option Fields :=
  match Dict.get docs (.str id) with
  | some (.dict fields) => some (Dict.get fields)
  | _ => none

/-- The collections and documents of a state. -/
def view (s : State) : DocMap := fun name =>
  (Dict.get (collectionsIn s) (.str name)).map fun _ => viewDocs (docsIn s name)

/-- A state as `load` returns it: valid names, and documents under their own identifiers. -/
structure WellFormed (s : State) : Prop where
  wf : (PyVal.dict s).wf
  shape : ∃ c, Dict.get s COLLECTIONS = some (.dict c) ∧ ∀ entry ∈ c, CollShape entry

/-- The state with other documents in one collection. -/
def setDocs (s : State) (name : Str) (docs : PyDict) : State :=
  writeDocs s (collectionsIn s) (.str name) docs

section

variable {s : State} {name : Str} {docs : PyDict}

theorem get_setDocs {k : PyKey} (hk : k ≠ COLLECTIONS) :
    Dict.get (setDocs s name docs) k = Dict.get s k := Dict.get_put_ne _ hk.symm _

theorem collectionsIn_setDocs :
    collectionsIn (setDocs s name docs) = Dict.put (collectionsIn s) (.str name) (.dict docs) := by
  unfold collectionsIn
  rw [setDocs, writeDocs, Dict.get_put_self]
  rfl

theorem docsIn_setDocs (name' : Str) :
    docsIn (setDocs s name docs) name' = if name' = name then docs else docsIn s name' := by
  unfold docsIn
  rw [collectionsIn_setDocs]
  by_cases h : name' = name
  · rw [h, Dict.get_put_self, if_pos rfl]
  · rw [Dict.get_put_ne _ fun e => h (PyKey.str.inj e).symm, if_neg h]

theorem docsIn_setDocs_self : docsIn (setDocs s name docs) name = docs := by
  rw [docsIn_setDocs, if_pos rfl]

theorem setDocs_setDocs (docs' : PyDict) :
    setDocs (setDocs s name docs) name docs' = setDocs s name docs' := by
  show writeDocs _ (collectionsIn (setDocs s name docs)) _ _ = _
  rw [collectionsIn_setDocs]
  show Dict.put (Dict.put s _ _) _ _ = _
  rw [Dict.put_put, Dict.put_put]
  rfl

theorem items_view : (view s).items name = viewDocs (docsIn s name) := by
  unfold Catalog.items view docsIn
  cases Dict.get (collectionsIn s) (.str name) with
  | none => rfl
  | some v => rfl

theorem view_setDocs : view (setDocs s name docs) = (view s).put name (viewDocs docs) := by
  funext name'
  unfold Catalog.put view
  rw [docsIn_setDocs, collectionsIn_setDocs]
  by_cases h : name' = name
  · subst h
    rw [Dict.get_put_self, if_pos rfl, Function.update_self]
    rfl
  · rw [Dict.get_put_ne _ fun e => h (PyKey.str.inj e).symm, if_neg h, Function.update_of_ne h]

theorem viewDocs_put {id : Str} {fields : PyDict} :
    viewDocs (Dict.put docs (.str id) (.dict fields)) =
      Function.update (viewDocs docs) id (some (Dict.get fields)) := by
  funext id'
  unfold viewDocs
  by_cases h : id' = id
  · subst h
    rw [Dict.get_put_self, Function.update_self]
  · rw [Dict.get_put_ne _ fun e => h (PyKey.str.inj e).symm, Function.update_of_ne h]

theorem viewDocs_drop (hd : Dict.Distinct docs) {id : Str} :
    viewDocs (Dict.drop docs (.str id)) = Function.update (viewDocs docs) id none := by
  funext id'
  unfold viewDocs
  rw [Dict.get_drop _ _ hd]
  by_cases h : id' = id
  · subst h
    rw [if_pos rfl, Function.update_self]
  · rw [if_neg fun e => h (PyKey.str.inj e).symm, Function.update_of_ne h]

end

namespace WellFormed

variable {s : State} {name : Str}

theorem get_collections (h : WellFormed s) :
    Dict.get s COLLECTIONS = some (.dict (collectionsIn s)) := by
  obtain ⟨c, hc, -⟩ := h.shape
  rw [collectionsIn, hc]

theorem entry (h : WellFormed s) {k : PyKey} {v : PyVal} (hm : (k, v) ∈ collectionsIn s) :
    CollShape (k, v) := by
  obtain ⟨c, hc, hs⟩ := h.shape
  rw [collectionsIn, hc] at hm
  exact hs _ hm

theorem wf_collections (h : WellFormed s) : (PyVal.dict (collectionsIn s)).wf :=
  (everywhere_dict.mp h.wf).2 _ _ (Dict.mem_of_get h.get_collections)

/-- A collection that is there. -/
theorem get_docs (h : WellFormed s) {v : PyVal}
    (hv : Dict.get (collectionsIn s) (.str name) = some v) : v = .dict (docsIn s name) := by
  obtain ⟨-, docs, e, -⟩ := h.entry (Dict.mem_of_get hv)
  obtain rfl : v = .dict docs := e
  rw [docsIn, hv]

theorem docShape (h : WellFormed s) {doc : PyKey × PyVal} (hm : doc ∈ docsIn s name) :
    DocShape doc := by
  cases hg : Dict.get (collectionsIn s) (.str name) with
  | none =>
    rw [docsIn, hg] at hm
    cases hm
  | some v =>
    obtain ⟨-, docs, e, hs⟩ := h.entry (Dict.mem_of_get hg)
    obtain rfl : v = .dict docs := e
    rw [docsIn, hg] at hm
    exact hs doc hm

theorem wf_docs (h : WellFormed s) (name : Str) : (PyVal.dict (docsIn s name)).wf := by
  cases hg : Dict.get (collectionsIn s) (.str name) with
  | none =>
    rw [docsIn, hg]
    exact everywhere_dict.mpr ⟨List.nodup_nil, nofun⟩
  | some v =>
    have hv := h.get_docs hg
    subst hv
    exact (everywhere_dict.mp h.wf_collections).2 _ _ (Dict.mem_of_get hg)

/-- A document that is there. -/
theorem get_doc (h : WellFormed s) {id : PyKey} {v : PyVal}
    (hv : Dict.get (docsIn s name) id = some v) :
    ∃ i fields, id = .str i ∧ v = .dict fields ∧ i ≠ [] ∧ Dict.get fields ID = some (.str i) := by
  obtain ⟨i, fields, e, hi, hid⟩ := h.docShape (Dict.mem_of_get hv)
  cases e
  exact ⟨i, fields, rfl, rfl, hi, hid⟩

theorem setDocs (h : WellFormed s) (hn : validateCollectionName (.str name) = .ok ())
    {docs : PyDict} (hd : ∀ doc ∈ docs, DocShape doc) (hw : (PyVal.dict docs).wf) :
    WellFormed (setDocs s name docs) := by
  obtain ⟨hsd, hsw⟩ := everywhere_dict.mp h.wf
  obtain ⟨hcd, hcw⟩ := everywhere_dict.mp h.wf_collections
  refine ⟨everywhere_dict.mpr ⟨Dict.distinct_put _ _ hsd, Dict.forall_put hsw ?_⟩,
    _, Dict.get_put_self _ _ _, fun entry hm => ?_⟩
  · exact everywhere_dict.mpr ⟨Dict.distinct_put _ _ hcd, Dict.forall_put hcw hw⟩
  · rcases Dict.mem_put hm with rfl | hm
    · exact ⟨hn, docs, rfl, hd⟩
    · exact h.entry hm

end WellFormed

/-- A name that the API accepts. -/
def Named (collection : PyVal) (name : Str) : Prop :=
  collection = .str name ∧ validateCollectionName (.str name) = .ok ()

/-- A document that the API accepts, and its fields. -/
def Accepted (rt : Runtime) (document : PyVal) (fields : PyDict) : Prop :=
  document = .dict fields ∧ validateDocument rt document = .ok ()

/-- A non-empty string. -/
def Identifies (documentId : PyVal) (id : Str) : Prop := documentId = .str id ∧ id ≠ []

/-! ## 2. What the helpers do -/

section Helpers

variable {s s' : State} {collection documentId : PyVal}

theorem WellFormed.collectionsOf (h : WellFormed s) :
    collectionsOf s = .ok (collectionsIn s) := by
  rw [JsonDatabase.collectionsOf, h.get_collections]
  rfl

theorem WellFormed.docsOrNew (h : WellFormed s) (name : Str) :
    asDict ((Dict.get (collectionsIn s) (.str name)).getD (.dict [])) = .ok (docsIn s name) := by
  cases hg : Dict.get (collectionsIn s) (.str name) with
  | none =>
    rw [docsIn, hg]
    rfl
  | some v =>
    rw [h.get_docs hg]
    rfl

/-- The collection created if it is missing. -/
theorem WellFormed.ensured (h : WellFormed s) {name : Str}
    (hn : validateCollectionName (.str name) = .ok ()) :
    WellFormed (JsonDatabase.setDocs s name (docsIn s name)) :=
  h.setDocs hn (fun _ hm => h.docShape hm) (h.wf_docs name)

theorem ensureCollection_ok (h : WellFormed s) {docs : PyDict} :
    ensureCollection collection s = .ok docs s' ↔ ∃ name, Named collection name ∧
      docs = docsIn s name ∧ s' = setDocs s name (docsIn s name) := by
  constructor
  · intro hr
    obtain ⟨hn, hr⟩ := run_check_ok.mp hr
    obtain ⟨c, hc, hr⟩ := run_lift_bind_ok.mp hr
    obtain ⟨docs', hd, hr⟩ := run_lift_bind_ok.mp hr
    obtain ⟨name, rfl, -⟩ := validName_str hn
    cases h.collectionsOf.symm.trans hc
    cases (h.docsOrNew name).symm.trans hd
    cases hr
    exact ⟨name, ⟨rfl, hn⟩, rfl, rfl⟩
  · intro hr
    obtain ⟨name, ⟨rfl, hn⟩, rfl, rfl⟩ := hr
    exact run_check_ok.mpr ⟨hn, run_lift_bind_ok.mpr ⟨_, h.collectionsOf,
      run_lift_bind_ok.mpr ⟨_, h.docsOrNew name, rfl⟩⟩⟩

theorem assignDocument_ok (h : WellFormed s) {name id : Str} {document : PyDict} {u : Unit} :
    assignDocument (.str name) (.str id) document s = .ok u s' ↔
      s' = setDocs s name (Dict.put (docsIn s name) (.str id) (.dict document)) := by
  constructor
  · intro hr
    obtain ⟨c, hc, hr⟩ := run_lift_bind_ok.mp hr
    obtain ⟨docs, hd, hr⟩ := run_lift_bind_ok.mp hr
    cases h.collectionsOf.symm.trans hc
    cases (h.docsOrNew name).symm.trans hd
    cases hr
    rfl
  · rintro rfl
    exact run_lift_bind_ok.mpr ⟨_, h.collectionsOf, run_lift_bind_ok.mpr ⟨_, h.docsOrNew name, rfl⟩⟩

/-- A collection that is shown. -/
theorem WellFormed.getCollectionRef_ok (h : WellFormed s) {docs : PyDict} :
    getCollectionRef s collection = .ok docs ↔ ∃ name, Named collection name ∧
      (view s name).isSome = true ∧ docs = docsIn s name := by
  rw [JsonDatabase.getCollectionRef_ok]
  constructor
  · intro hr
    obtain ⟨hn, c, hc, hg⟩ := hr
    obtain ⟨name, rfl, -⟩ := validName_str hn
    rw [h.collectionsOf] at hc
    cases hc
    have hv := h.get_docs hg
    refine ⟨name, ⟨rfl, hn⟩, ?_, PyVal.dict.inj hv⟩
    rw [view, show Dict.get (collectionsIn s) (.str name) = _ from hg]
    rfl
  · intro hr
    obtain ⟨name, ⟨rfl, hn⟩, hs, rfl⟩ := hr
    refine ⟨hn, _, h.collectionsOf, ?_⟩
    rw [view, Option.isSome_map] at hs
    obtain ⟨v, hv⟩ := Option.isSome_iff_exists.mp hs
    exact hv.trans (congrArg some (h.get_docs hv))

/-- A document that is shown. -/
theorem find_view {name id : Str} {fields : Fields} : (view s).find name id = some fields ↔
    ∃ document, Dict.get (docsIn s name) (.str id) = some (.dict document) ∧
      fields = Dict.get document := by
  rw [Catalog.find, items_view, viewDocs]
  cases Dict.get (docsIn s name) (.str id) with
  | none => simp
  | some v =>
    cases v with
    | dict document => simp [eq_comm]
    | _ => simp

theorem WellFormed.getDocumentRef_ok (h : WellFormed s) {document : PyDict} :
    getDocumentRef s collection documentId = .ok document ↔ ∃ name id, Named collection name ∧
      Identifies documentId id ∧
        Dict.get (docsIn s name) (.str id) = some (.dict document) := by
  rw [JsonDatabase.getDocumentRef_ok]
  constructor
  · intro hr
    obtain ⟨hi, docs, hd, hg⟩ := hr
    obtain ⟨id, rfl, hne⟩ := validateDocumentId_ok.mp hi
    obtain ⟨name, hn, -, rfl⟩ := h.getCollectionRef_ok.mp hd
    exact ⟨name, id, hn, ⟨rfl, hne⟩, hg⟩
  · intro hr
    obtain ⟨name, id, hn, ⟨rfl, hne⟩, hg⟩ := hr
    refine ⟨validateDocumentId_ok.mpr ⟨id, rfl, hne⟩, _, h.getCollectionRef_ok.mpr ⟨name, hn, ?_, rfl⟩,
      hg⟩
    exact Catalog.isSome_of_find (find_view.mpr ⟨document, hg, rfl⟩)

/-- The check on an identifier in the body. -/
theorem validateBodyId_ok {operation : String} {stored : PyDict} {id : Str} :
    validateBodyId operation stored (.str id) = .ok () ↔
      ∀ v, Dict.get stored ID = some v → v = .str id := by
  unfold validateBodyId
  cases Dict.get stored ID with
  | none => exact ⟨fun _ => nofun, fun _ => rfl⟩
  | some v =>
    simp only [Option.some.injEq, forall_eq']
    rw [← eqVals_str]
    cases eqVals v (.str id) with
    | error t => exact ⟨nofun, nofun⟩
    | ok b => cases b <;> simp

theorem contains_eq_false_iff {d : PyDict} {k : PyKey} :
    Dict.contains d k = false ↔ Dict.get d k = none := by
  rw [Dict.contains, Option.isSome_eq_false_iff, Option.isNone_iff_eq_none]

end Helpers

/-! ## 3. What each write does -/

section Writes

variable {rt : Runtime} {cp : Copier} {s s' : State} {collection documentId document : PyVal}
  {r : PyVal}

/-- The state after a document was stored. -/
def storedDoc (s : State) (name id : Str) (fields : PyDict) : State :=
  setDocs s name (Dict.put (docsIn s name) (.str id) (.dict fields))

theorem ensure_assign (h : WellFormed s) {name id : Str}
    (hn : validateCollectionName (.str name) = .ok ()) {fields : PyDict} {u : Unit} :
    assignDocument (.str name) (.str id) fields (setDocs s name (docsIn s name)) = .ok u s' ↔
      s' = storedDoc s name id fields := by
  rw [assignDocument_ok (h.ensured hn), docsIn_setDocs_self, setDocs_setDocs, storedDoc]

theorem insertDocument_ok (h : WellFormed s) {uuid : Uuid} :
    insertDocument rt cp collection document uuid s = .ok r s' ↔ ∃ name fields,
      Named collection name ∧ Accepted rt document fields ∧ Dict.get fields ID = none ∧
      cp.fails document = none ∧ r = .str uuid.text ∧
      s' = storedDoc s name uuid.text (Dict.put fields ID (.str uuid.text)) := by
  constructor
  · intro h₀
    obtain ⟨hv, h₁⟩ := run_check_ok.mp h₀
    obtain ⟨fields, hf, h₂⟩ := run_lift_bind_ok.mp h₁
    obtain ⟨hid, h₃⟩ := run_check_ok.mp h₂
    obtain ⟨copied, hc, h₄⟩ := run_lift_bind_ok.mp h₃
    obtain ⟨docs, s₁, hens, h₅⟩ := run_bind_ok.mp h₄
    obtain ⟨u, s₂, hasg, h₆⟩ := run_bind_ok.mp h₅
    obtain ⟨rfl, rfl⟩ := run_pure_ok.mp h₆
    obtain ⟨hcp, rfl⟩ := copyDict_ok.mp hc
    cases asDict_ok.mp hf
    obtain ⟨name, ⟨rfl, hn⟩, -, rfl⟩ := (ensureCollection_ok h).mp hens
    exact ⟨name, _, ⟨rfl, hn⟩, ⟨rfl, hv⟩, contains_eq_false_iff.mp (raiseIf_ok.mp hid), hcp, rfl,
      (ensure_assign h hn).mp hasg⟩
  · intro hr
    obtain ⟨name, fields, ⟨rfl, hn⟩, ⟨rfl, hv⟩, hid, hcp, rfl, rfl⟩ := hr
    exact run_check_ok.mpr ⟨hv, run_lift_bind_ok.mpr ⟨fields, rfl, run_check_ok.mpr
      ⟨raiseIf_ok.mpr (contains_eq_false_iff.mpr hid), run_lift_bind_ok.mpr
        ⟨fields, copyDict_ok.mpr ⟨hcp, rfl⟩, run_bind_ok.mpr ⟨_, _,
          (ensureCollection_ok h).mpr ⟨name, ⟨rfl, hn⟩, rfl, rfl⟩,
          run_bind_ok.mpr ⟨(), _, (ensure_assign h hn).mpr rfl, rfl⟩⟩⟩⟩⟩⟩

theorem updateDocument_ok (h : WellFormed s) :
    updateDocument rt cp collection documentId document s = .ok r s' ↔ ∃ name id fields old,
      Named collection name ∧ Identifies documentId id ∧ Accepted rt document fields ∧
      Dict.get fields ID = none ∧ Dict.get (docsIn s name) (.str id) = some (.dict old) ∧
      cp.fails document = none ∧ cp.fails (.dict (Dict.merge old fields)) = none ∧
      r = .dict (Dict.merge old fields) ∧ s' = storedDoc s name id (Dict.merge old fields) := by
  constructor
  · intro h₀
    obtain ⟨hv, h₁⟩ := run_check_ok.mp h₀
    obtain ⟨fields, hf, h₂⟩ := run_lift_bind_ok.mp h₁
    obtain ⟨hid, h₃⟩ := run_check_ok.mp h₂
    obtain ⟨old, hold, h₄⟩ := run_lift_bind_ok.mp h₃
    obtain ⟨copied, hc, h₅⟩ := run_lift_bind_ok.mp h₄
    obtain ⟨u, s₁, hasg, h₆⟩ := run_bind_ok.mp h₅
    obtain ⟨hcopy, rfl⟩ := run_lift_ok.mp h₆
    obtain ⟨hcp, rfl⟩ := copyDict_ok.mp hc
    cases asDict_ok.mp hf
    obtain ⟨name, id, ⟨rfl, hn⟩, ⟨rfl, hi⟩, hget⟩ := h.getDocumentRef_ok.mp hold
    obtain ⟨hcp', rfl⟩ := deepcopy_ok.mp hcopy
    exact ⟨name, id, _, old, ⟨rfl, hn⟩, ⟨rfl, hi⟩, ⟨rfl, hv⟩,
      contains_eq_false_iff.mp (raiseIf_ok.mp hid), hget, hcp, hcp', rfl,
      (assignDocument_ok h).mp hasg⟩
  · intro hr
    obtain ⟨name, id, fields, old, hn, hi, ⟨rfl, hv⟩, hid, hget, hcp, hcp', rfl, rfl⟩ := hr
    have href := h.getDocumentRef_ok.mpr ⟨name, id, hn, hi, hget⟩
    obtain ⟨rfl, -⟩ := hn
    obtain ⟨rfl, -⟩ := hi
    exact run_check_ok.mpr ⟨hv, run_lift_bind_ok.mpr ⟨fields, rfl, run_check_ok.mpr
      ⟨raiseIf_ok.mpr (contains_eq_false_iff.mpr hid), run_lift_bind_ok.mpr ⟨old, href,
        run_lift_bind_ok.mpr ⟨fields, copyDict_ok.mpr ⟨hcp, rfl⟩, run_bind_ok.mpr
          ⟨(), _, (assignDocument_ok h).mpr rfl,
            run_lift_ok.mpr ⟨deepcopy_ok.mpr ⟨hcp', rfl⟩, rfl⟩⟩⟩⟩⟩⟩⟩

theorem replaceDocument_ok (h : WellFormed s) :
    replaceDocument rt cp collection documentId document s = .ok r s' ↔ ∃ name id fields old,
      Named collection name ∧ Identifies documentId id ∧ Accepted rt document fields ∧
      (∀ v, Dict.get fields ID = some v → v = .str id) ∧
      Dict.get (docsIn s name) (.str id) = some (.dict old) ∧ cp.fails document = none ∧
      cp.fails (.dict (Dict.put fields ID (.str id))) = none ∧
      r = .dict (Dict.put fields ID (.str id)) ∧
      s' = storedDoc s name id (Dict.put fields ID (.str id)) := by
  constructor
  · intro h₀
    obtain ⟨hv, h₁⟩ := run_check_ok.mp h₀
    obtain ⟨copied, hc, h₂⟩ := run_lift_bind_ok.mp h₁
    obtain ⟨hid, h₃⟩ := run_check_ok.mp h₂
    obtain ⟨old, hold, h₄⟩ := run_lift_bind_ok.mp h₃
    obtain ⟨docs, s₁, hens, h₅⟩ := run_bind_ok.mp h₄
    obtain ⟨u, s₂, hasg, h₆⟩ := run_bind_ok.mp h₅
    obtain ⟨hcopy, rfl⟩ := run_lift_ok.mp h₆
    obtain ⟨hcp, rfl⟩ := copyDict_ok.mp hc
    obtain ⟨name, id, ⟨rfl, hn⟩, ⟨rfl, hi⟩, hget⟩ := h.getDocumentRef_ok.mp hold
    obtain ⟨hcp', rfl⟩ := deepcopy_ok.mp hcopy
    obtain ⟨name', ⟨e, -⟩, -, rfl⟩ := (ensureCollection_ok h).mp hens
    cases e
    exact ⟨name, id, _, old, ⟨rfl, hn⟩, ⟨rfl, hi⟩, ⟨rfl, hv⟩, validateBodyId_ok.mp hid, hget, hcp,
      hcp', rfl, (ensure_assign h hn).mp hasg⟩
  · intro hr
    obtain ⟨name, id, fields, old, hn, hi, ⟨rfl, hv⟩, hid, hget, hcp, hcp', rfl, rfl⟩ := hr
    have href := h.getDocumentRef_ok.mpr ⟨name, id, hn, hi, hget⟩
    have hens := (ensureCollection_ok h).mpr ⟨name, hn, rfl, rfl⟩
    obtain ⟨rfl, hn⟩ := hn
    obtain ⟨rfl, -⟩ := hi
    exact run_check_ok.mpr ⟨hv, run_lift_bind_ok.mpr ⟨fields, copyDict_ok.mpr ⟨hcp, rfl⟩,
      run_check_ok.mpr ⟨validateBodyId_ok.mpr hid, run_lift_bind_ok.mpr ⟨old, href, run_bind_ok.mpr
        ⟨_, _, hens, run_bind_ok.mpr ⟨(), _, (ensure_assign h hn).mpr rfl,
          run_lift_ok.mpr ⟨deepcopy_ok.mpr ⟨hcp', rfl⟩, rfl⟩⟩⟩⟩⟩⟩⟩

theorem deleteDocument_ok (h : WellFormed s) :
    deleteDocument collection documentId s = .ok r s' ↔ ∃ name id old,
      Named collection name ∧ Identifies documentId id ∧
      Dict.get (docsIn s name) (.str id) = some (.dict old) ∧ r = .none ∧
      s' = setDocs s name (Dict.drop (docsIn s name) (.str id)) := by
  constructor
  · intro h₀
    obtain ⟨hi, h₁⟩ := run_check_ok.mp h₀
    obtain ⟨docs, hd, h₂⟩ := run_lift_bind_ok.mp h₁
    obtain ⟨hc, h₃⟩ := run_check_ok.mp h₂
    obtain ⟨c, hcs, h₄⟩ := run_lift_bind_ok.mp h₃
    obtain ⟨id, rfl, hne⟩ := validateDocumentId_ok.mp hi
    obtain ⟨name, ⟨rfl, hn⟩, -, rfl⟩ := h.getCollectionRef_ok.mp hd
    cases h.collectionsOf.symm.trans hcs
    have hcontains : Dict.contains (docsIn s name) (.str id) = true := by
      simpa using raiseIf_ok.mp hc
    obtain ⟨v, hget⟩ := Option.isSome_iff_exists.mp hcontains
    obtain ⟨-, old, -, rfl, -⟩ := h.get_doc hget
    cases h₄
    exact ⟨name, id, old, ⟨rfl, hn⟩, ⟨rfl, hne⟩, hget, rfl, rfl⟩
  · intro hr
    obtain ⟨name, id, old, hn, ⟨rfl, hne⟩, hget, rfl, rfl⟩ := hr
    have hd := h.getCollectionRef_ok.mpr
      ⟨name, hn, Catalog.isSome_of_find (find_view.mpr ⟨old, hget, rfl⟩), rfl⟩
    obtain ⟨rfl, -⟩ := hn
    have hcontains : Dict.contains (docsIn s name) (.str id) = true := by
      rw [Dict.contains, hget]
      rfl
    exact run_check_ok.mpr ⟨validateDocumentId_ok.mpr ⟨id, rfl, hne⟩, run_lift_bind_ok.mpr
      ⟨_, hd, run_check_ok.mpr ⟨raiseIf_ok.mpr (congrArg not hcontains),
        run_lift_bind_ok.mpr ⟨_, h.collectionsOf, rfl⟩⟩⟩⟩

theorem upsertDocument_ok (h : WellFormed s) :
    upsertDocument rt cp collection documentId document s = .ok r s' ↔ ∃ name id fields,
      Named collection name ∧ Identifies documentId id ∧ Accepted rt document fields ∧
      (∀ v, Dict.get fields ID = some v → v = .str id) ∧ cp.fails document = none ∧
      r = .str id ∧ s' = storedDoc s name id (Dict.put fields ID (.str id)) := by
  constructor
  · intro h₀
    obtain ⟨hi, h₁⟩ := run_check_ok.mp h₀
    obtain ⟨hv, h₂⟩ := run_check_ok.mp h₁
    obtain ⟨copied, hc, h₃⟩ := run_lift_bind_ok.mp h₂
    obtain ⟨hid, h₄⟩ := run_check_ok.mp h₃
    obtain ⟨docs, s₁, hens, h₅⟩ := run_bind_ok.mp h₄
    obtain ⟨u, s₂, hasg, h₆⟩ := run_bind_ok.mp h₅
    obtain ⟨rfl, rfl⟩ := run_pure_ok.mp h₆
    obtain ⟨hcp, rfl⟩ := copyDict_ok.mp hc
    obtain ⟨id, rfl, hne⟩ := validateDocumentId_ok.mp hi
    obtain ⟨name, ⟨rfl, hn⟩, -, rfl⟩ := (ensureCollection_ok h).mp hens
    exact ⟨name, id, _, ⟨rfl, hn⟩, ⟨rfl, hne⟩, ⟨rfl, hv⟩, validateBodyId_ok.mp hid, hcp, rfl,
      (ensure_assign h hn).mp hasg⟩
  · intro hr
    obtain ⟨name, id, fields, hn, ⟨rfl, hne⟩, ⟨rfl, hv⟩, hid, hcp, rfl, rfl⟩ := hr
    have hens := (ensureCollection_ok h).mpr ⟨name, hn, rfl, rfl⟩
    obtain ⟨rfl, hn⟩ := hn
    exact run_check_ok.mpr ⟨validateDocumentId_ok.mpr ⟨id, rfl, hne⟩, run_check_ok.mpr ⟨hv,
      run_lift_bind_ok.mpr ⟨fields, copyDict_ok.mpr ⟨hcp, rfl⟩, run_check_ok.mpr
        ⟨validateBodyId_ok.mpr hid, run_bind_ok.mpr ⟨_, _, hens,
          run_bind_ok.mpr ⟨(), _, (ensure_assign h hn).mpr rfl, rfl⟩⟩⟩⟩⟩⟩

theorem WellFormed.stored (h : WellFormed s) {name id : Str} {fields : PyDict}
    (hn : validateCollectionName (.str name) = .ok ()) (hi : id ≠ []) (hw : (PyVal.dict fields).wf)
    (hid : Dict.get fields ID = some (.str id)) :
    WellFormed (storedDoc s name id fields) := by
  obtain ⟨hd, hdocs⟩ := everywhere_dict.mp (h.wf_docs name)
  refine h.setDocs hn (fun doc hm => ?_) (everywhere_dict.mpr
    ⟨Dict.distinct_put _ _ hd, Dict.forall_put hdocs hw⟩)
  rcases Dict.mem_put hm with rfl | hm
  · exact ⟨id, fields, rfl, hi, hid⟩
  · exact h.docShape hm

theorem view_stored {name id : Str} {fields : PyDict} :
    view (storedDoc s name id fields) = (view s).store name id (Dict.get fields) := by
  rw [storedDoc, view_setDocs, viewDocs_put, Catalog.store, items_view]

theorem get_stored {name id : Str} {fields : PyDict} {k : PyKey} (hk : k ≠ COLLECTIONS) :
    Dict.get (storedDoc s name id fields) k = Dict.get s k := get_setDocs hk

theorem wf_putId {fields : PyDict} (hw : (PyVal.dict fields).wf) (id : Str) :
    (PyVal.dict (Dict.put fields ID (.str id))).wf := by
  obtain ⟨hd, hf⟩ := everywhere_dict.mp hw
  exact everywhere_dict.mpr ⟨Dict.distinct_put _ _ hd, Dict.forall_put hf trivial⟩

/-- The state after documents were stored one after the other. -/
def storedAll (s : State) (name : Str) (ps : List (Uuid × PyDict)) : State :=
  ps.foldl (fun s p => storedDoc s name p.1.text (Dict.put p.2 ID (.str p.1.text))) s

theorem storeInserts_ok {name : Str} (hn : validateCollectionName (.str name) = .ok ()) {u : Unit} :
    ∀ {ps : List (Uuid × PyDict)} {s : State}, WellFormed s → (∀ p ∈ ps, (PyVal.dict p.2).wf) →
      (storeInserts cp (.str name) (ps.map fun p => (p.1, .dict p.2)) s = .ok u s' ↔
        (∀ p ∈ ps, cp.fails (.dict p.2) = none) ∧ s' = storedAll s name ps)
  | [], s, _, _ => by
      refine (run_pure_ok).trans ⟨fun e => ⟨nofun, e.2⟩, fun e => ⟨rfl, e.2⟩⟩
  | (uuid, fields) :: ps, s, h, hw => by
      have hfields := hw _ List.mem_cons_self
      have hs := h.stored hn uuid.text_ne_nil (wf_putId hfields uuid.text) (Dict.get_put_self _ _ _)
      have ih := storeInserts_ok hn (u := u) hs fun p hp => hw p (List.mem_cons_of_mem _ hp)
      rw [List.forall_mem_cons, and_assoc]
      constructor
      · intro h₀
        obtain ⟨copied, hc, h₁⟩ := run_lift_bind_ok.mp h₀
        obtain ⟨v, s₁, hasg, h₂⟩ := run_bind_ok.mp h₁
        obtain ⟨hcp, e⟩ := copyDict_ok.mp hc
        cases e
        obtain rfl := (assignDocument_ok h).mp hasg
        exact ⟨hcp, ih.mp h₂⟩
      · intro hr
        obtain ⟨hcp, hr⟩ := hr
        exact run_lift_bind_ok.mpr ⟨fields, copyDict_ok.mpr ⟨hcp, rfl⟩, run_bind_ok.mpr
          ⟨(), _, (assignDocument_ok h).mpr rfl, ih.mpr hr⟩⟩

theorem WellFormed.storedAll (h : WellFormed s) {name : Str}
    (hn : validateCollectionName (.str name) = .ok ()) {ps : List (Uuid × PyDict)}
    (hw : ∀ p ∈ ps, (PyVal.dict p.2).wf) : WellFormed (JsonDatabase.storedAll s name ps) := by
  induction ps generalizing s with
  | nil => exact h
  | cons p ps ih =>
    refine ih (h.stored hn p.1.text_ne_nil (wf_putId (hw p List.mem_cons_self) _)
      (Dict.get_put_self _ _ _)) fun q hq => hw q (List.mem_cons_of_mem _ hq)

theorem get_storedAll {name : Str} {ps : List (Uuid × PyDict)} {k : PyKey} (hk : k ≠ COLLECTIONS) :
    Dict.get (storedAll s name ps) k = Dict.get s k := by
  induction ps generalizing s with
  | nil => rfl
  | cons p ps ih => exact ih.trans (get_stored hk)

/-- The fields with an identifier set. -/
def withId (fields : PyDict) (id : Str) : Fields :=
  Function.update (Dict.get fields) ID (some (.str id))

theorem get_withId {fields : PyDict} {id : Str} :
    Dict.get (Dict.put fields ID (.str id)) = withId fields id := by
  funext k
  unfold withId
  by_cases h : k = ID
  · rw [h, Dict.get_put_self, Function.update_self]
  · rw [Dict.get_put_ne _ (Ne.symm h), Function.update_of_ne h]

theorem view_storedAll {name : Str} {ps : List (Uuid × PyDict)} : view (storedAll s name ps) =
    (view s).storeAll name (ps.map fun p => (p.1.text, withId p.2 p.1.text)) := by
  induction ps generalizing s with
  | nil => rfl
  | cons p ps ih =>
    refine ih.trans ?_
    rw [view_stored, get_withId]
    rfl

theorem exists_fields {P : PyDict → Prop} : ∀ {xs : List PyVal},
    (∀ x ∈ xs, ∃ fields, x = .dict fields ∧ P fields) →
      ∃ fs : List PyDict, xs = fs.map PyVal.dict ∧ ∀ f ∈ fs, P f
  | [], _ => ⟨[], rfl, nofun⟩
  | x :: xs, h => by
      obtain ⟨f, rfl, hf⟩ := h x List.mem_cons_self
      obtain ⟨fs, rfl, hfs⟩ := exists_fields fun y hy => h y (List.mem_cons_of_mem _ hy)
      exact ⟨f :: fs, rfl, List.forall_mem_cons.mpr ⟨hf, hfs⟩⟩

theorem checkInsert_ok {document : PyVal} : checkInsert rt document = .ok () ↔
    ∃ fields, document = .dict fields ∧ validateDocument rt (.dict fields) = .ok () ∧
      Dict.get fields ID = none := by
  constructor
  · intro hc
    obtain ⟨hv, hc⟩ := bind_unit_ok.mp hc
    obtain ⟨fields, hf, hid⟩ := bind_ok.mp hc
    cases asDict_ok.mp hf
    exact ⟨fields, rfl, hv, contains_eq_false_iff.mp (raiseIf_ok.mp hid)⟩
  · intro hc
    obtain ⟨fields, rfl, hv, hid⟩ := hc
    exact bind_unit_ok.mpr ⟨hv, bind_ok.mpr ⟨fields, rfl,
      raiseIf_ok.mpr (contains_eq_false_iff.mpr hid)⟩⟩

/-- The identifiers that a bulk insertion generates. -/
def generated (uuids : Nat → Uuid) (n : Nat) : List Uuid := (List.range n).map uuids

theorem bulkInsertDocuments_ok (h : WellFormed s) (hw : document.wf) {uuids : Nat → Uuid} :
    bulkInsertDocuments rt cp collection document uuids s = .ok r s' ↔
      ∃ name, ∃ fs : List PyDict, Named collection name ∧ document = .list (fs.map PyVal.dict) ∧
        (∀ f ∈ fs, validateDocument rt (.dict f) = .ok () ∧ Dict.get f ID = none) ∧
        (∀ f ∈ fs, cp.fails (.dict f) = none) ∧
        r = .list ((generated uuids fs.length).map fun u => .str u.text) ∧
        s' = storedAll (setDocs s name (docsIn s name)) name
          ((generated uuids fs.length).zip fs) := by
  have hcopies {fs : List PyDict} : (∀ p ∈ (generated uuids fs.length).zip fs,
      cp.fails (.dict p.2) = none) ↔ ∀ f ∈ fs, cp.fails (.dict f) = none := by
    refine ⟨fun hp f hf => ?_, fun hf p hp => hf _ (List.of_mem_zip hp).2⟩
    have hlen : fs.length ≤ (generated uuids fs.length).length := by simp [generated]
    have hmap := List.map_snd_zip hlen
    obtain ⟨p, hpm, rfl⟩ := List.mem_map.mp (hmap.symm ▸ hf :
      f ∈ ((generated uuids fs.length).zip fs).map Prod.snd)
    exact hp p hpm
  have hloop {fs : List PyDict} {name : Str} (hn : validateCollectionName (.str name) = .ok ())
      (hfs : ∀ f ∈ fs, (PyVal.dict f).wf) (u : Unit) : storeInserts cp (.str name)
        ((generated uuids fs.length).zip (fs.map PyVal.dict)) (setDocs s name (docsIn s name)) =
          .ok u s' ↔ (∀ f ∈ fs, cp.fails (.dict f) = none) ∧
            s' = storedAll (setDocs s name (docsIn s name)) name
              ((generated uuids fs.length).zip fs) := by
    rw [List.zip_map_right, ← hcopies]
    exact storeInserts_ok hn (h.ensured hn) fun p hp => hfs _ (List.of_mem_zip hp).2
  cases document with
  | list documents =>
    have hwf := (everywhere_list.mp hw).2
    constructor
    · intro h₀
      obtain ⟨hc, h₁⟩ := run_check_ok.mp h₀
      obtain ⟨docs, s₁, hens, h₂⟩ := run_bind_ok.mp h₁
      obtain ⟨u, s₂, hst, h₃⟩ := run_bind_ok.mp h₂
      obtain ⟨rfl, rfl⟩ := run_pure_ok.mp h₃
      obtain ⟨name, ⟨rfl, hn⟩, -, rfl⟩ := (ensureCollection_ok h).mp hens
      obtain ⟨fs, rfl, hfs⟩ := exists_fields fun x hx => checkInsert_ok.mp (forEach_ok.mp hc x hx)
      have hfw (f : PyDict) (hf : f ∈ fs) : (PyVal.dict f).wf :=
        hwf _ (List.mem_map.mpr ⟨f, hf, rfl⟩)
      rw [List.length_map] at hst ⊢
      obtain ⟨hcp, hs'⟩ := (hloop hn hfw u).mp hst
      exact ⟨name, fs, ⟨rfl, hn⟩, rfl, hfs, hcp, rfl, hs'⟩
    · intro hr
      obtain ⟨name, fs, hn, e, hfs, hcp, rfl, rfl⟩ := hr
      cases e
      have hens := (ensureCollection_ok h).mpr ⟨name, hn, rfl, rfl⟩
      obtain ⟨rfl, hn⟩ := hn
      have hfw (f : PyDict) (hf : f ∈ fs) : (PyVal.dict f).wf :=
        hwf _ (List.mem_map.mpr ⟨f, hf, rfl⟩)
      have hlen : (fs.map PyVal.dict).length = fs.length := List.length_map _
      refine run_check_ok.mpr ⟨forEach_ok.mpr fun x hx => ?_, run_bind_ok.mpr ⟨_, _, hens,
        run_bind_ok.mpr ⟨(), _, ?_, run_pure_ok.mpr ⟨?_, rfl⟩⟩⟩⟩
      · obtain ⟨f, hf, rfl⟩ := List.mem_map.mp hx
        exact checkInsert_ok.mpr ⟨f, rfl, hfs f hf⟩
      · rw [hlen]
        exact (hloop hn hfw ()).mpr ⟨hcp, rfl⟩
      · rw [hlen]
        rfl
  | _ =>
    refine ⟨fun h₀ => (run_throw_ok.mp h₀).elim, fun hr => ?_⟩
    obtain ⟨name, fs, hn, e, hr⟩ := hr
    cases e

/-! ### Updates -/

/-- The fields of a document, none if it is missing. -/
def docIn (s : State) (name id : Str) : PyDict :=
  match Dict.get (docsIn s name) (.str id) with
  | some (.dict fields) => fields
  | _ => []

/-- The state after documents were updated one after the other. -/
def updatedAll (s : State) (name : Str) (ps : List (Str × PyDict)) : State :=
  ps.foldl (fun s p => storedDoc s name p.1 (Dict.merge (docIn s name p.1) p.2)) s

/-- The right-biased union. -/
def merged (updates : PyDict) (fields : Fields) : Fields := fun k =>
  (Dict.get updates k).or (fields k)

theorem get_merged {fields updates : PyDict} (hd : Dict.Distinct updates) :
    Dict.get (Dict.merge fields updates) = merged updates (Dict.get fields) :=
  funext fun k => Dict.get_merge fields hd k

/-- A document with updates that leave its identifier alone. -/
theorem WellFormed.updated (h : WellFormed s) {name id : Str}
    (hn : validateCollectionName (.str name) = .ok ()) {old updates : PyDict}
    (hold : Dict.get (docsIn s name) (.str id) = some (.dict old)) (hw : (PyVal.dict updates).wf)
    (hid : Dict.get updates ID = none) :
    WellFormed (storedDoc s name id (Dict.merge old updates)) := by
  obtain ⟨i, fields, e, e', hne, hget⟩ := h.get_doc hold
  cases e
  cases e'
  obtain ⟨hd, hu⟩ := everywhere_dict.mp hw
  obtain ⟨hod, hou⟩ := everywhere_dict.mp
    ((everywhere_dict.mp (h.wf_docs name)).2 _ _ (Dict.mem_of_get hold))
  refine h.stored hn hne (everywhere_dict.mpr ⟨Dict.distinct_merge _ hod, Dict.forall_merge hou hu⟩) ?_
  rw [Dict.get_merge _ hd, hid]
  exact hget

/-- An update that may be applied. -/
structure Applicable (rt : Runtime) (s : State) (name : Str) (p : Str × PyDict) : Prop where
  id : p.1 ≠ []
  wf : (PyVal.dict p.2).wf
  valid : validateDocument rt (.dict p.2) = .ok ()
  noId : Dict.get p.2 ID = none
  found : ((view s).find name p.1).isSome = true

theorem Applicable.get {name : Str} {p : Str × PyDict} (ha : Applicable rt s name p) :
    Dict.get (docsIn s name) (.str p.1) = some (.dict (docIn s name p.1)) := by
  obtain ⟨fields, hf⟩ := Option.isSome_iff_exists.mp ha.found
  obtain ⟨old, hold, -⟩ := find_view.mp hf
  rw [docIn, hold]

/-- Storing a document leaves what is there where it is. -/
theorem Applicable.stored {name id : Str} {fields : PyDict} {p : Str × PyDict}
    (ha : Applicable rt s name p) : Applicable rt (storedDoc s name id fields) name p := by
  refine ⟨ha.id, ha.wf, ha.valid, ha.noId, ?_⟩
  rw [view_stored, Catalog.find_store]
  split
  · rfl
  · exact ha.found

theorem applyUpdates_ok {name : Str} (hn : validateCollectionName (.str name) = .ok ()) {u : Unit} :
    ∀ {ps : List (Str × PyDict)} {s : State}, WellFormed s → (∀ p ∈ ps, Applicable rt s name p) →
      (applyUpdates cp (.str name) (ps.map fun p => (.str p.1, .dict p.2)) s = .ok u s' ↔
        (∀ p ∈ ps, cp.fails (.dict p.2) = none) ∧ s' = updatedAll s name ps)
  | [], s, _, _ => by
      refine (run_pure_ok).trans ⟨fun e => ⟨nofun, e.2⟩, fun e => ⟨rfl, e.2⟩⟩
  | (id, updates) :: ps, s, h, hp => by
      have ha := hp _ List.mem_cons_self
      have hget := ha.get
      have hs := h.updated hn hget ha.wf ha.noId
      have href := h.getDocumentRef_ok.mpr ⟨name, id, ⟨rfl, hn⟩, ⟨rfl, ha.id⟩, hget⟩
      have ih := applyUpdates_ok hn (u := u) hs fun p hm =>
        (hp p (List.mem_cons_of_mem _ hm)).stored
      rw [List.forall_mem_cons, and_assoc]
      constructor
      · intro h₀
        obtain ⟨old, hold, h₁⟩ := run_lift_bind_ok.mp h₀
        obtain ⟨copied, hc, h₂⟩ := run_lift_bind_ok.mp h₁
        obtain ⟨v, s₁, hasg, h₃⟩ := run_bind_ok.mp h₂
        obtain ⟨hcp, e⟩ := copyDict_ok.mp hc
        cases e
        cases href.symm.trans hold
        obtain rfl := (assignDocument_ok h).mp hasg
        exact ⟨hcp, ih.mp h₃⟩
      · intro hr
        obtain ⟨hcp, hr⟩ := hr
        exact run_lift_bind_ok.mpr ⟨_, href, run_lift_bind_ok.mpr ⟨updates,
          copyDict_ok.mpr ⟨hcp, rfl⟩, run_bind_ok.mpr ⟨(), _, (assignDocument_ok h).mpr rfl,
            ih.mpr hr⟩⟩⟩

theorem WellFormed.updatedAll (h : WellFormed s) {name : Str}
    (hn : validateCollectionName (.str name) = .ok ()) {ps : List (Str × PyDict)}
    (hp : ∀ p ∈ ps, Applicable rt s name p) : WellFormed (JsonDatabase.updatedAll s name ps) := by
  induction ps generalizing s with
  | nil => exact h
  | cons p ps ih =>
    have ha := hp p List.mem_cons_self
    exact ih (h.updated hn ha.get ha.wf ha.noId) fun q hq => (hp q (List.mem_cons_of_mem _ hq)).stored

theorem get_updatedAll {name : Str} {ps : List (Str × PyDict)} {k : PyKey} (hk : k ≠ COLLECTIONS) :
    Dict.get (updatedAll s name ps) k = Dict.get s k := by
  induction ps generalizing s with
  | nil => rfl
  | cons p ps ih => exact ih.trans (get_stored hk)

theorem view_updated {name : Str} {p : Str × PyDict} (ha : Applicable rt s name p) :
    view (storedDoc s name p.1 (Dict.merge (docIn s name p.1) p.2)) =
      (view s).modify name p.1 (merged p.2) := by
  have hfind : (view s).items name p.1 = some (Dict.get (docIn s name p.1)) :=
    find_view.mpr ⟨_, ha.get, rfl⟩
  rw [view_stored, get_merged (everywhere_dict.mp ha.wf).1, Catalog.modify, hfind]
  rfl

theorem view_updatedAll {name : Str} {ps : List (Str × PyDict)}
    (hp : ∀ p ∈ ps, Applicable rt s name p) : view (updatedAll s name ps) =
      (view s).modifyAll name (ps.map fun p => (p.1, merged p.2)) := by
  induction ps generalizing s with
  | nil => rfl
  | cons p ps ih =>
    refine (ih fun q hq => (hp q (List.mem_cons_of_mem _ hq)).stored).trans ?_
    rw [view_updated (hp p List.mem_cons_self)]
    rfl

/-- An item of a bulk update that is a pair, as a tuple or a list. -/
def PairItem (item : PyVal) (p : PyVal × PyVal) : Prop :=
  item = .tuple [p.1, p.2] ∨ item = .list [p.1, p.2]

/-- The pair is an identifier and updates. -/
def IsPair (item : PyVal) (p : Str × PyDict) : Prop := PairItem item (.str p.1, .dict p.2)

theorem checkUpdate_iff (h : WellFormed s) {name : Str} {item : PyVal} {pair : PyVal × PyVal} :
    checkUpdate rt (.str name) (docsIn s name) item = .ok pair ↔ ∃ p : Str × PyDict,
      pair = (.str p.1, .dict p.2) ∧ IsPair item p ∧ p.1 ≠ [] ∧
        ((view s).find name p.1).isSome = true ∧ validateDocument rt (.dict p.2) = .ok () ∧
          Dict.get p.2 ID = none := by
  have hfound {id : Str} : Dict.contains (docsIn s name) (.str id) = true ↔
      ((view s).find name id).isSome = true := by
    rw [Catalog.find, items_view, viewDocs, Dict.contains]
    cases hg : Dict.get (docsIn s name) (.str id) with
    | none => simp
    | some v =>
      obtain ⟨-, fields, -, rfl, -⟩ := h.get_doc hg
      simp
  constructor
  · intro hc
    obtain ⟨id, update⟩ := pair
    obtain ⟨hi, hid, hd, fields, rfl, hv, hno⟩ := checkUpdate_ok hc
    obtain ⟨i, rfl, hne⟩ := validateDocumentId_ok.mp hid
    exact ⟨(i, fields), rfl, hi, hne, hfound.mp hd, hv, contains_eq_false_iff.mp hno⟩
  · intro hc
    obtain ⟨⟨i, fields⟩, rfl, hi, hne, hd, hv, hno⟩ := hc
    have hbody : (do
        validateDocumentId (.str i)
        raiseIf (!Dict.contains (docsIn s name) (PyVal.str i).toKey)
          (documentNotFound (.str name) (.str i))
        validateDocument rt (.dict fields)
        let fields' ← asDict (.dict fields)
        raiseIf (Dict.contains fields' ID) (validationError "bulk_update() cannot change document id")
        return (.str i, .dict fields) : Except PyExc (PyVal × PyVal)) = .ok (.str i, .dict fields) :=
      bind_unit_ok.mpr ⟨validateDocumentId_ok.mpr ⟨i, rfl, hne⟩, bind_unit_ok.mpr
        ⟨raiseIf_ok.mpr (congrArg not (hfound.mpr hd)), bind_unit_ok.mpr ⟨hv, bind_ok.mpr
          ⟨fields, rfl, bind_unit_ok.mpr ⟨raiseIf_ok.mpr (contains_eq_false_iff.mpr hno), rfl⟩⟩⟩⟩⟩
    rcases hi with rfl | rfl <;> exact hbody

theorem exists_pairs {P : PyVal → Str × PyDict → Prop} : ∀ {xs : List PyVal}
    {ys : List (PyVal × PyVal)},
    List.Forall₂ (fun x y => ∃ p : Str × PyDict, y = (.str p.1, .dict p.2) ∧ P x p) xs ys →
      ∃ ps : List (Str × PyDict), ys = ps.map (fun p => (.str p.1, .dict p.2)) ∧
        List.Forall₂ P xs ps
  | _, _, .nil => ⟨[], rfl, .nil⟩
  | _, _, .cons hy h => by
      obtain ⟨p, rfl, hp⟩ := hy
      obtain ⟨ps, rfl, hps⟩ := exists_pairs h
      exact ⟨p :: ps, rfl, .cons hp hps⟩

theorem bulkUpdateDocuments_ok (h : WellFormed s) (hw : document.wf) :
    bulkUpdateDocuments rt cp collection document s = .ok r s' ↔
      ∃ name, ∃ items : List PyVal, ∃ ps : List (Str × PyDict), Named collection name ∧
        document = .list items ∧ List.Forall₂ IsPair items ps ∧ (view s name).isSome = true ∧
        (∀ p ∈ ps, Applicable rt s name p) ∧ (∀ p ∈ ps, cp.fails (.dict p.2) = none) ∧
        r = .int ps.length ∧ s' = updatedAll s name ps := by
  cases document with
  | list items =>
    have hwf := (everywhere_list.mp hw).2
    have hpair {item : PyVal} {p : Str × PyDict} (hi : IsPair item p) (hm : item ∈ items) :
        (PyVal.dict p.2).wf := wf_second (hwf item hm) hi
    constructor
    · intro h₀
      obtain ⟨docs, hd, h₁⟩ := run_lift_bind_ok.mp h₀
      obtain ⟨normalized, hm, h₂⟩ := run_lift_bind_ok.mp h₁
      obtain ⟨u, s₁, happ, h₃⟩ := run_bind_ok.mp h₂
      obtain ⟨rfl, rfl⟩ := run_pure_ok.mp h₃
      obtain ⟨name, ⟨rfl, hn⟩, hs, rfl⟩ := h.getCollectionRef_ok.mp hd
      obtain ⟨ps, rfl, hps⟩ := exists_pairs ((mapM_ok.mp hm).imp fun _ _ hc =>
        (checkUpdate_iff h).mp hc)
      have happl (p : Str × PyDict) (hp : p ∈ ps) : Applicable rt s name p := by
        obtain ⟨item, hitem, hi, hne, hf, hv, hno⟩ := forall₂_mem_right hps hp
        exact ⟨hne, hpair hi hitem, hv, hno, hf⟩
      obtain ⟨hcp, hs'⟩ := (applyUpdates_ok hn h happl).mp happ
      exact ⟨name, items, ps, ⟨rfl, hn⟩, rfl, hps.imp fun _ _ hp => hp.1, hs, happl, hcp,
        by rw [List.length_map], hs'⟩
    · intro hr
      obtain ⟨name, items', ps, hn, e, hps, hs, happl, hcp, rfl, rfl⟩ := hr
      cases e
      have hd := h.getCollectionRef_ok.mpr ⟨name, hn, hs, rfl⟩
      obtain ⟨rfl, hn⟩ := hn
      refine run_lift_bind_ok.mpr ⟨_, hd, run_lift_bind_ok.mpr
        ⟨ps.map fun p => (.str p.1, .dict p.2), mapM_ok.mpr ?_, run_bind_ok.mpr ⟨(), _,
          (applyUpdates_ok hn h happl).mpr ⟨hcp, rfl⟩, run_pure_ok.mpr ⟨?_, rfl⟩⟩⟩⟩
      · refine List.forall₂_map_right_iff.mpr (forall₂_imp_mem hps fun item _ p hp hi => ?_)
        have ha := happl p hp
        exact (checkUpdate_iff h).mpr ⟨p, rfl, hi, ha.id, ha.found, ha.valid, ha.noId⟩
      · rw [List.length_map]
  | _ =>
    refine ⟨fun h₀ => (run_throw_ok.mp h₀).elim, fun hr => ?_⟩
    obtain ⟨name, items, ps, hn, e, hr⟩ := hr
    cases e

end Writes

/-! ## 4. The contract -/

/-- **The contract of the writes**: which calls succeed on what is shown, what they return and what
    they make of it. -/
inductive OpCall.Spec (rt : Runtime) (m : DocMap) : OpCall → PyVal → DocMap → Prop
  | insert {collection document : PyObj} {uuid : Uuid} {name : Str} {fields : PyDict}
      (hn : Named collection.val name) (hd : Accepted rt document.val fields)
      (hid : Dict.get fields ID = none) :
      Spec rt m (.insert collection document uuid) (.str uuid.text)
        (m.store name uuid.text (withId fields uuid.text))
  | update {collection documentId updates : PyObj} {name id : Str} {fields result : PyDict}
      {old : Fields} (hn : Named collection.val name) (hi : Identifies documentId.val id)
      (hu : Accepted rt updates.val fields) (hid : Dict.get fields ID = none)
      (hold : m.find name id = some old) (hr : Dict.get result = merged fields old) :
      Spec rt m (.update collection documentId updates) (.dict result)
        (m.store name id (merged fields old))
  | replace {collection documentId document : PyObj} {name id : Str} {fields result : PyDict}
      {old : Fields} (hn : Named collection.val name) (hi : Identifies documentId.val id)
      (hd : Accepted rt document.val fields) (hid : ∀ v, Dict.get fields ID = some v → v = .str id)
      (hold : m.find name id = some old) (hr : Dict.get result = withId fields id) :
      Spec rt m (.replace collection documentId document) (.dict result)
        (m.store name id (withId fields id))
  | delete {collection documentId : PyObj} {name id : Str} {old : Fields}
      (hn : Named collection.val name) (hi : Identifies documentId.val id)
      (hold : m.find name id = some old) :
      Spec rt m (.delete collection documentId) .none (m.erase name id)
  | upsert {collection documentId document : PyObj} {name id : Str} {fields : PyDict}
      (hn : Named collection.val name) (hi : Identifies documentId.val id)
      (hd : Accepted rt document.val fields) (hid : ∀ v, Dict.get fields ID = some v → v = .str id) :
      Spec rt m (.upsert collection documentId document) (.str id)
        (m.store name id (withId fields id))
  | bulkInsert {collection documents : PyObj} {uuids : Nat → Uuid} {name : Str} {fs : List PyDict}
      (hn : Named collection.val name) (hd : documents.val = .list (fs.map PyVal.dict))
      (hf : ∀ f ∈ fs, Accepted rt (.dict f) f ∧ Dict.get f ID = none) :
      Spec rt m (.bulkInsert collection documents uuids)
        (.list ((generated uuids fs.length).map fun u => .str u.text))
        ((m.ensure name).storeAll name
          (((generated uuids fs.length).zip fs).map fun p => (p.1.text, withId p.2 p.1.text)))
  | bulkUpdate {collection updates : PyObj} {name : Str} {items : List PyVal}
      {ps : List (Str × PyDict)} (hn : Named collection.val name) (hu : updates.val = .list items)
      (hp : List.Forall₂ IsPair items ps) (hc : (m name).isSome = true)
      (hf : ∀ p ∈ ps, p.1 ≠ [] ∧ (m.find name p.1).isSome = true ∧ Accepted rt (.dict p.2) p.2 ∧
        Dict.get p.2 ID = none) :
      Spec rt m (.bulkUpdate collection updates) (.int ps.length)
        (m.modifyAll name (ps.map fun p => (p.1, merged p.2)))

/-- The copies that a write makes succeed. -/
def OpCall.Copies (cp : Copier) (s : State) : OpCall → Prop
  | .insert _ document _ | .upsert _ _ document => cp.fails document.val = none
  | .update collection documentId updates => cp.fails updates.val = none ∧
      ∀ old fields, getDocumentRef s collection.val documentId.val = .ok old →
        updates.val = .dict fields → cp.fails (.dict (Dict.merge old fields)) = none
  | .replace _ documentId document => cp.fails document.val = none ∧
      ∀ fields, document.val = .dict fields →
        cp.fails (.dict (Dict.put fields ID documentId.val)) = none
  | .delete _ _ => True
  | .bulkInsert _ documents _ => ∀ fs : List PyDict, documents.val = .list (fs.map PyVal.dict) →
      ∀ f ∈ fs, cp.fails (.dict f) = none
  | .bulkUpdate _ updates => ∀ items ps, updates.val = .list items →
      List.Forall₂ IsPair items ps → ∀ p ∈ ps, cp.fails (.dict p.2) = none

theorem pairItem_unique {items : List PyVal} {ps qs : List (PyVal × PyVal)}
    (hp : List.Forall₂ PairItem items ps) (hq : List.Forall₂ PairItem items qs) : ps = qs := by
  induction hp generalizing qs with
  | nil =>
    cases hq
    rfl
  | @cons item p items ps hi hp ih =>
    cases hq with
    | @cons _ q _ qs hi' hq =>
      refine congrArg₂ List.cons ?_ (ih hq)
      obtain ⟨a, b⟩ := p
      obtain ⟨c, d⟩ := q
      rcases hi with rfl | rfl <;> rcases hi' with e | e <;> cases e <;> rfl

/-- The pairs of a bulk update, when they are identifiers and documents. -/
theorem forall₂_isPair {items : List PyVal} {pairs : List (PyVal × PyVal)}
    (hi : List.Forall₂ PairItem items pairs) {ps : List (Str × PyDict)} :
    List.Forall₂ IsPair items ps ↔ pairs = ps.map fun p => (.str p.1, .dict p.2) := by
  constructor
  · intro hp
    exact pairItem_unique hi (List.forall₂_map_right_iff.mpr hp)
  · rintro rfl
    exact (List.forall₂_map_right_iff.mp hi).imp fun _ _ h => h

theorem pairs_unique {items : List PyVal} {ps qs : List (Str × PyDict)}
    (hp : List.Forall₂ IsPair items ps) (hq : List.Forall₂ IsPair items qs) : ps = qs := by
  have hmap := (forall₂_isPair (List.forall₂_map_right_iff.mpr hp)).mp hq
  refine (List.map_injective_iff.mpr fun p q h => ?_) hmap
  obtain ⟨i, f⟩ := p
  obtain ⟨j, g⟩ := q
  cases h
  rfl

/-- **A write that returned** kept to its contract, and changed nothing but what is shown. -/
theorem OpCall.sound {rt : Runtime} {cp : Copier} {s s' : State} (h : WellFormed s) {call : OpCall}
    {r : PyVal} (hr : call.run rt cp s = .ok r s') :
    call.Spec rt (view s) r (view s') ∧ call.Copies cp s ∧ WellFormed s' ∧
      ∀ k, k ≠ COLLECTIONS → Dict.get s' k = Dict.get s k := by
  cases call with
  | insert collection document uuid =>
    obtain ⟨name, fields, hn, hd, hid, hcp, rfl, rfl⟩ := (insertDocument_ok h).mp hr
    have hw : (PyVal.dict fields).wf := hd.1 ▸ document.wf
    rw [view_stored, get_withId]
    exact ⟨.insert hn hd hid, hcp, h.stored hn.2 uuid.text_ne_nil (wf_putId hw _)
      (Dict.get_put_self _ _ _), fun k => get_stored⟩
  | update collection documentId updates =>
    obtain ⟨name, id, fields, old, hn, hi, hu, hid, hold, hcp, hcp', rfl, rfl⟩ :=
      (updateDocument_ok h).mp hr
    have hw : (PyVal.dict fields).wf := hu.1 ▸ updates.wf
    have hm := @get_merged old _ (everywhere_dict.mp hw).1
    rw [view_stored, hm]
    refine ⟨.update hn hi hu hid (find_view.mpr ⟨old, hold, rfl⟩) hm, ⟨hcp, fun old' fields' ho hf => ?_⟩,
      h.updated hn.2 hold hw hid, fun k => get_stored⟩
    have href := h.getDocumentRef_ok.mpr ⟨name, id, hn, hi, hold⟩
    cases href.symm.trans ho
    cases hu.1.symm.trans hf
    exact hcp'
  | replace collection documentId document =>
    obtain ⟨name, id, fields, old, hn, hi, hd, hid, hold, hcp, hcp', rfl, rfl⟩ :=
      (replaceDocument_ok h).mp hr
    have hw : (PyVal.dict fields).wf := hd.1 ▸ document.wf
    rw [view_stored, get_withId]
    refine ⟨.replace hn hi hd hid (find_view.mpr ⟨old, hold, rfl⟩) get_withId, ⟨hcp, fun fields' hf => ?_⟩,
      h.stored hn.2 hi.2 (wf_putId hw _) (Dict.get_put_self _ _ _), fun k => get_stored⟩
    cases hd.1.symm.trans hf
    rw [hi.1]
    exact hcp'
  | delete collection documentId =>
    obtain ⟨name, id, old, hn, hi, hold, rfl, rfl⟩ := (deleteDocument_ok h).mp hr
    obtain ⟨hd, hw⟩ := everywhere_dict.mp (h.wf_docs name)
    have hview : view (setDocs s name (Dict.drop (docsIn s name) (.str id))) =
        (view s).erase name id := by
      rw [view_setDocs, viewDocs_drop hd, Catalog.erase, items_view]
    rw [hview]
    refine ⟨.delete hn hi (find_view.mpr ⟨old, hold, rfl⟩), trivial, h.setDocs hn.2
      (fun doc hm => h.docShape (Dict.mem_of_mem_drop hm)) (everywhere_dict.mpr
        ⟨Dict.distinct_drop _ hd, fun k v hm => hw k v (Dict.mem_of_mem_drop hm)⟩),
      fun k => get_setDocs⟩
  | upsert collection documentId document =>
    obtain ⟨name, id, fields, hn, hi, hd, hid, hcp, rfl, rfl⟩ := (upsertDocument_ok h).mp hr
    have hw : (PyVal.dict fields).wf := hd.1 ▸ document.wf
    rw [view_stored, get_withId]
    exact ⟨.upsert hn hi hd hid, hcp, h.stored hn.2 hi.2 (wf_putId hw _) (Dict.get_put_self _ _ _),
      fun k => get_stored⟩
  | bulkInsert collection documents uuids =>
    obtain ⟨name, fs, hn, hd, hfs, hcp, rfl, rfl⟩ := (bulkInsertDocuments_ok h documents.wf).mp hr
    have hw (p : Uuid × PyDict) (hp : p ∈ (generated uuids fs.length).zip fs) :
        (PyVal.dict p.2).wf := by
      have hdocs := documents.wf
      rw [hd] at hdocs
      exact (everywhere_list.mp hdocs).2 _ (List.mem_map.mpr ⟨p.2, (List.of_mem_zip hp).2, rfl⟩)
    rw [view_storedAll, view_setDocs, ← items_view]
    refine ⟨.bulkInsert hn hd fun f hf => ⟨⟨rfl, (hfs f hf).1⟩, (hfs f hf).2⟩, fun fs' hfs' f hf => ?_,
      (h.ensured hn.2).storedAll hn.2 hw, fun k hk => (get_storedAll hk).trans (get_setDocs hk)⟩
    have he : fs.map PyVal.dict = fs'.map PyVal.dict := PyVal.list.inj (hd.symm.trans hfs')
    have hinj : Function.Injective PyVal.dict := fun a b hab => PyVal.dict.inj hab
    rw [← List.map_injective_iff.mpr hinj he] at hf
    exact hcp f hf
  | bulkUpdate collection updates =>
    obtain ⟨name, items, ps, hn, hu, hp, hc, happl, hcp, rfl, rfl⟩ :=
      (bulkUpdateDocuments_ok h updates.wf).mp hr
    rw [view_updatedAll happl]
    refine ⟨.bulkUpdate hn hu hp hc fun p hm => ?_, fun items' ps' hu' hp' p hm => ?_,
      h.updatedAll hn.2 happl, fun k => get_updatedAll⟩
    · have ha := happl p hm
      exact ⟨ha.id, ha.found, ⟨rfl, ha.valid⟩, ha.noId⟩
    · cases hu.symm.trans hu'
      rw [pairs_unique hp' hp] at hm
      exact hcp p hm

/-- **A write to which a rule applies** returns, if the copies it makes succeed. -/
theorem OpCall.complete {rt : Runtime} {cp : Copier} {s : State} (h : WellFormed s) {call : OpCall}
    {r : PyVal} {m' : DocMap} (hs : call.Spec rt (view s) r m') (hcp : call.Copies cp s) :
    ∃ r' s', call.run rt cp s = .ok r' s' := by
  cases hs with
  | insert hn hd hid => exact ⟨_, _, (insertDocument_ok h).mpr ⟨_, _, hn, hd, hid, hcp, rfl, rfl⟩⟩
  | update hn hi hu hid hold hres =>
    obtain ⟨old, hget, -⟩ := find_view.mp hold
    have href := h.getDocumentRef_ok.mpr ⟨_, _, hn, hi, hget⟩
    exact ⟨_, _, (updateDocument_ok h).mpr ⟨_, _, _, old, hn, hi, hu, hid, hget, hcp.1,
      hcp.2 _ _ href hu.1, rfl, rfl⟩⟩
  | @replace collection documentId document name id fields result old hn hi hd hid hold hres =>
    obtain ⟨old, hget, -⟩ := find_view.mp hold
    have hcopy := hcp.2 _ hd.1
    rw [hi.1] at hcopy
    exact ⟨_, _, (replaceDocument_ok h).mpr ⟨_, _, _, old, hn, hi, hd, hid, hget, hcp.1, hcopy, rfl,
      rfl⟩⟩
  | delete hn hi hold =>
    obtain ⟨old, hget, -⟩ := find_view.mp hold
    exact ⟨_, _, (deleteDocument_ok h).mpr ⟨_, _, old, hn, hi, hget, rfl, rfl⟩⟩
  | upsert hn hi hd hid =>
    exact ⟨_, _, (upsertDocument_ok h).mpr ⟨_, _, _, hn, hi, hd, hid, hcp, rfl, rfl⟩⟩
  | @bulkInsert collection documents uuids name fs hn hd hf =>
    exact ⟨_, _, (bulkInsertDocuments_ok h documents.wf).mpr ⟨name, fs, hn, hd,
      fun f hm => ⟨(hf f hm).1.2, (hf f hm).2⟩, hcp fs hd, rfl, rfl⟩⟩
  | @bulkUpdate collection updates name items ps hn hu hp hc hf =>
    refine ⟨_, _, (bulkUpdateDocuments_ok h updates.wf).mpr ⟨name, items, ps, hn, hu, hp, hc,
      fun p hm => ?_, hcp items ps hu hp, rfl, rfl⟩⟩
    obtain ⟨hne, hfound, hv, hno⟩ := hf p hm
    obtain ⟨item, hitem, hi⟩ := forall₂_mem_right hp hm
    have hws := updates.wf
    rw [hu] at hws
    have hwi := (everywhere_list.mp hws).2 item hitem
    exact ⟨hne, wf_second hwi hi, hv.2, hno, hfound⟩

/-! ## 5. What stays -/

/-- The documents that a call is about. -/
def OpCall.Targets : OpCall → Str → Str → Prop
  | .insert collection _ uuid, name, id => collection.val = .str name ∧ id = uuid.text
  | .update collection documentId _, name, id | .replace collection documentId _, name, id
  | .delete collection documentId, name, id | .upsert collection documentId _, name, id =>
    collection.val = .str name ∧ documentId.val = .str id
  | .bulkInsert collection documents uuids, name, id => collection.val = .str name ∧
      ∃ docs k, documents.val = .list docs ∧ k < docs.length ∧ id = (uuids k).text
  | .bulkUpdate collection updates, name, id => collection.val = .str name ∧
      ∃ items item fields, updates.val = .list items ∧ item ∈ items ∧ IsPair item (id, fields)

/-- The collection that a call may create. -/
def OpCall.Creates : OpCall → Str → Prop
  | .insert collection _ _, name | .upsert collection _ _, name
  | .bulkInsert collection _ _, name => collection.val = .str name
  | _, _ => False

/-- All documents that a bulk call is about, one by one: those that are inserted under different
    identifiers, and those that are updated, by every update of theirs. -/
def OpCall.Bulk (m m' : DocMap) : OpCall → Prop
  | .bulkInsert collection documents uuids => ∀ name, ∀ fs : List PyDict,
      collection.val = .str name → documents.val = .list (fs.map PyVal.dict) →
      (∀ i j, i < fs.length → j < fs.length → (uuids i).text = (uuids j).text → i = j) →
      ∀ k f, fs[k]? = some f → m'.find name (uuids k).text = some (withId f (uuids k).text)
  | .bulkUpdate collection updates => ∀ name items ps, collection.val = .str name →
      updates.val = .list items → List.Forall₂ IsPair items ps →
      ∀ id, m'.find name id = (m.find name id).map fun old =>
        (ps.filter (·.1 = id)).foldl (fun fields p => merged p.2 fields) old
  | _ => True

/-- What a call leaves alone. -/
structure OpCall.Frame (call : OpCall) (m m' : DocMap) : Prop where
  rest : ∀ name id, ¬ call.Targets name id → m'.find name id = m.find name id
  kept : ∀ name, (m name).isSome = true → (m' name).isSome = true
  created : ∀ name, (m' name).isSome = true → (m name).isSome = true ∨ call.Creates name

section

variable {m m' : DocMap} {call : OpCall} {name id : Str}

/-- A change of one document. -/
theorem frame_put {o : Option Fields} (ht : call.Targets name id)
    (hc : (m name).isSome = true ∨ call.Creates name) :
    call.Frame m (m.put name (Function.update (m.items name) id o)) where
  rest name' id' hn := by
    rw [Catalog.find_update, if_neg]
    rintro ⟨rfl, rfl⟩
    exact hn ht
  kept name' hs := Catalog.isSome_put.mpr (.inr hs)
  created name' hs := by
    rcases Catalog.isSome_put.mp hs with rfl | hs
    · exact hc
    · exact .inl hs

theorem mem_generated {uuids : Nat → Uuid} {fs : List PyDict} {p : Uuid × PyDict}
    (hp : p ∈ (generated uuids fs.length).zip fs) : ∃ k, k < fs.length ∧ p.1 = uuids k := by
  obtain ⟨k, hk, e⟩ := List.mem_map.mp (List.of_mem_zip hp).1
  exact ⟨k, List.mem_range.mp hk, e.symm⟩

theorem OpCall.Spec.frame {rt : Runtime} {r : PyVal} (hs : call.Spec rt m r m') :
    call.Frame m m' := by
  cases hs with
  | insert hn hd hid => exact frame_put ⟨hn.1, rfl⟩ (.inr hn.1)
  | update hn hi hu hid hold hr =>
    exact frame_put ⟨hn.1, hi.1⟩ (.inl (Catalog.isSome_of_find hold))
  | replace hn hi hd hid hold hr =>
    exact frame_put ⟨hn.1, hi.1⟩ (.inl (Catalog.isSome_of_find hold))
  | delete hn hi hold => exact frame_put ⟨hn.1, hi.1⟩ (.inl (Catalog.isSome_of_find hold))
  | upsert hn hi hd hid => exact frame_put ⟨hn.1, hi.1⟩ (.inr hn.1)
  | @bulkInsert collection documents uuids name fs hn hd hf =>
    refine ⟨fun name' id' ht => ?_, fun name' h => ?_, fun name' h => ?_⟩
    · rw [Catalog.find_storeAll_ne, Catalog.find_ensure]
      rintro rfl q hq rfl
      obtain ⟨p, hp, rfl⟩ := List.mem_map.mp hq
      obtain ⟨k, hk, hpk⟩ := mem_generated hp
      exact ht ⟨hn.1, _, k, hd, by rwa [List.length_map], congrArg Uuid.text hpk⟩
    · exact Catalog.isSome_storeAll.mpr (.inr (Catalog.isSome_put.mpr (.inr h)))
    · rcases Catalog.isSome_storeAll.mp h with ⟨-, rfl⟩ | h
      · exact .inr hn.1
      · rcases Catalog.isSome_put.mp h with rfl | h
        · exact .inr hn.1
        · exact .inl h
  | @bulkUpdate collection updates name items ps hn hu hp hc hf =>
    refine ⟨fun name' id' ht => ?_, fun name' h => (Catalog.isSome_modifyAll hc).mpr h,
      fun name' h => .inl ((Catalog.isSome_modifyAll hc).mp h)⟩
    rw [Catalog.find_modifyAll]
    by_cases he : name' = name
    · subst he
      have hnone : (ps.map fun p => (p.1, merged p.2)).filter (·.1 = id') = [] := by
        refine List.filter_eq_nil_iff.mpr fun q hq hid => ?_
        obtain ⟨p, hpm, rfl⟩ := List.mem_map.mp hq
        obtain ⟨item, hitem, hi⟩ := forall₂_mem_right hp hpm
        obtain rfl : p.1 = id' := of_decide_eq_true hid
        exact ht ⟨hn.1, items, item, p.2, hu, hitem, hi⟩
      simp only [if_true, hnone, List.foldl_nil, Option.map_id']
    · simp only [if_neg he, Option.map_id']

theorem OpCall.Spec.bulk {rt : Runtime} {r : PyVal} (hs : call.Spec rt m r m') :
    call.Bulk m m' := by
  cases hs with
  | @bulkInsert collection documents uuids name fs hn hd hf =>
    intro name' fs' hn' hd' hdist k f hk
    cases hn.1.symm.trans hn'
    have hinj : Function.Injective PyVal.dict := fun a b hab => PyVal.dict.inj hab
    obtain rfl := List.map_injective_iff.mpr hinj (PyVal.list.inj (hd.symm.trans hd'))
    have hlen : (generated uuids fs.length).length = fs.length := by simp [generated]
    refine Catalog.find_storeAll ?_ (List.mem_map.mpr ⟨(uuids k, f), ?_, rfl⟩)
    · have hfst : ((generated uuids fs.length).zip fs).map (fun p => p.1.text) =
          (generated uuids fs.length).map Uuid.text := by
        rw [← List.map_fst_zip (Nat.le_of_eq hlen), List.map_map, List.map_fst_zip (Nat.le_of_eq hlen)]
        rfl
      rw [List.map_map]
      refine (congrArg List.Nodup hfst).mpr ?_
      rw [generated, List.map_map]
      refine List.Nodup.map_on (fun i hi j hj e => ?_) List.nodup_range
      exact hdist i j (List.mem_range.mp hi) (List.mem_range.mp hj) e
    · obtain ⟨hlt, rfl⟩ := List.getElem?_eq_some_iff.mp hk
      refine List.mem_iff_getElem.mpr ⟨k, ?_, ?_⟩
      · rw [List.length_zip, hlen, Nat.min_self]
        exact hlt
      · simp [generated]
  | @bulkUpdate collection updates name items ps hn hu hp hc hf =>
    intro name' items' ps' hn' hu' hp' id
    cases hn.1.symm.trans hn'
    cases hu.symm.trans hu'
    obtain rfl := pairs_unique hp hp'
    rw [Catalog.find_modifyAll]
    refine congrArg (fun g => (m.find name id).map g) (funext fun old => ?_)
    rw [if_pos rfl, List.filter_map, List.foldl_map]
    rfl
  | insert | update | replace | delete | upsert => trivial

end

/-! ## 6. The result -/

/-- **The seven writes are the seven changes of a finite map**: on a well-formed state a call
    returns iff a rule of the contract applies to what is shown (and the copies it makes succeed);
    then what is shown changes as the rule says, other documents and collections stay, and so does
    everything that is not shown. -/
theorem writes_abstract_map (rt : Runtime) (cp : Copier) {s : State} (h : WellFormed s)
    (call : OpCall) :
    ((∃ r s', call.run rt cp s = .ok r s') ↔
      (∃ r m', call.Spec rt (view s) r m') ∧ call.Copies cp s) ∧
    ∀ r s', call.run rt cp s = .ok r s' → call.Spec rt (view s) r (view s') ∧
      call.Bulk (view s) (view s') ∧ call.Frame (view s) (view s') ∧ WellFormed s' ∧
        ∀ k, k ≠ COLLECTIONS → Dict.get s' k = Dict.get s k := by
  refine ⟨⟨fun hr => ?_, fun hs => ?_⟩, fun r s' hr => ?_⟩
  · obtain ⟨r, s', hr⟩ := hr
    obtain ⟨hs, hcp, -⟩ := OpCall.sound h hr
    exact ⟨⟨r, _, hs⟩, hcp⟩
  · obtain ⟨⟨r, m', hs⟩, hcp⟩ := hs
    exact OpCall.complete h hs hcp
  · obtain ⟨hs, -, hw, hk⟩ := OpCall.sound h hr
    exact ⟨hs, hs.bulk, hs.frame, hw, hk⟩

/-- Every state that can be reached is well-formed. -/
theorem Rep.wellFormed {rt : Runtime} {base s : State} (hb : Loaded rt base) (h : Rep rt base s) :
    WellFormed s := by
  obtain ⟨c, hc, hg⟩ := h.collections
  refine ⟨h.wf hb, c, hc, fun entry hm => ⟨hg.valid entry.1 entry.2 hm, ?_⟩⟩
  obtain ⟨docs, hd, hgood⟩ := hg.good entry.1 entry.2 hm
  exact ⟨docs, hd, fun doc hdoc => (hgood.good doc.1 doc.2 hdoc).shape⟩

theorem runCalls_wellFormed {rt : Runtime} {cp : Copier} {t : DateTime} {file : FileRead}
    {base : State} (hload : load rt t file = .ok base) (calls : List OpCall) :
    WellFormed (runCalls rt cp calls base) :=
  (runCalls_rep cp calls (load_loaded hload).rep).wellFormed (load_loaded hload)

theorem emptyState_wellFormed (now : DateTime) {d : PyVal} (hd : isAtom d = true) :
    WellFormed (emptyState now d) :=
  ⟨(emptyState_decoded now hd).wf, [], rfl, nofun⟩

/-- The deletion of a document in `users`. -/
def deleteUser (uuid : Uuid) : OpCall := .delete (.str (lit "users")) (.str uuid.text)

/-- A second insertion leaves the first document; when that one is deleted the second stays, and it
    cannot be deleted again. -/
theorem insert_then_delete : ∃ s r s' s'' f, WellFormed s ∧
    (view s).find (lit "users") (Uuid.text ⟨0⟩) = some f ∧
    insertTagged.run interpreter .total s = .ok r s' ∧
    (view s').find (lit "users") (Uuid.text ⟨0⟩) = some f ∧
    ((view s').find (lit "users") (Uuid.text ⟨1⟩)).isSome = true ∧
    (deleteUser ⟨0⟩).run interpreter .total s' = .ok .none s'' ∧
    (view s'').find (lit "users") (Uuid.text ⟨0⟩) = none ∧
    ((view s'').find (lit "users") (Uuid.text ⟨1⟩)).isSome = true ∧
    (∀ k, k ≠ COLLECTIONS → Dict.get s'' k = Dict.get s k) ∧
    ¬ ∃ r t, (deleteUser ⟨0⟩).run interpreter .total s'' = .ok r t := by
  have hdistinct : Uuid.text ⟨1⟩ ≠ Uuid.text ⟨0⟩ := by decide
  obtain ⟨hiff, hdoes⟩ := writes_abstract_map interpreter .total
    (emptyState_wellFormed epoch rfl : WellFormed (emptyState epoch (.str []))) (insertName (lit "Ava"))
  obtain ⟨r, s, hr⟩ := hiff.mpr ⟨⟨_, _, .insert ⟨rfl, rfl⟩ ⟨rfl, rfl⟩ rfl⟩, rfl⟩
  obtain ⟨hspec, -, -, hw, -⟩ := hdoes r s hr
  have hfirst : ∃ f, (view s).find (lit "users") (Uuid.text ⟨0⟩) = some f := by
    generalize view s = m at hspec
    cases hspec with
    | insert hn hd hid =>
      cases hn.1
      exact ⟨_, Catalog.find_store.trans (if_pos ⟨rfl, rfl⟩)⟩
  obtain ⟨f, hf⟩ := hfirst
  obtain ⟨hiff', hdoes'⟩ := writes_abstract_map interpreter .total hw insertTagged
  obtain ⟨r', s', hr'⟩ := hiff'.mpr ⟨⟨_, _, .insert ⟨rfl, rfl⟩ ⟨rfl, rfl⟩ rfl⟩, rfl⟩
  obtain ⟨hspec', -, hframe', hw', hkeys'⟩ := hdoes' r' s' hr'
  have hf' : (view s').find (lit "users") (Uuid.text ⟨0⟩) = some f :=
    (hframe'.rest _ _ fun ht => hdistinct ht.2.symm).trans hf
  have hsecond : ((view s').find (lit "users") (Uuid.text ⟨1⟩)).isSome = true := by
    generalize view s' = m at hspec'
    cases hspec' with
    | insert hn hd hid =>
      cases hn.1
      rw [Catalog.find_store, if_pos ⟨rfl, rfl⟩]
      rfl
  obtain ⟨hiff'', hdoes''⟩ := writes_abstract_map interpreter .total hw' (deleteUser ⟨0⟩)
  obtain ⟨r'', s'', hr''⟩ := hiff''.mpr ⟨⟨_, _, .delete ⟨rfl, rfl⟩ ⟨rfl, by decide⟩ hf'⟩, trivial⟩
  obtain ⟨hspec'', -, hframe'', hw'', hkeys''⟩ := hdoes'' r'' s'' hr''
  have hgone : r'' = .none ∧ (view s'').find (lit "users") (Uuid.text ⟨0⟩) = none := by
    generalize view s'' = m at hspec''
    cases hspec'' with
    | delete hn hi hold =>
      cases hn.1
      cases hi.1
      exact ⟨rfl, Catalog.find_update.trans (if_pos ⟨rfl, rfl⟩)⟩
  obtain ⟨rfl, hgone⟩ := hgone
  refine ⟨s, r', s', s'', f, hw, hf, hr', hf', hsecond, hr'', hgone, ?_, fun k hk => ?_,
    fun hagain => ?_⟩
  · rw [hframe''.rest _ _ fun ht => hdistinct (PyVal.str.inj ht.2).symm]
    exact hsecond
  · rw [hkeys'' k hk, hkeys' k hk]
  · obtain ⟨⟨_, _, hspec⟩, -⟩ :=
      (writes_abstract_map interpreter .total hw'' (deleteUser ⟨0⟩)).1.mp hagain
    cases hspec with
    | delete hn hi hold =>
      cases hn.1
      cases hi.1
      cases hgone.symm.trans hold

end JsonDatabase
