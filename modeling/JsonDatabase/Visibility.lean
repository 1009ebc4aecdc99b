/-
  File:      JsonDatabase/Visibility.lean
  Subject:   What is read inside a transaction and after its commit.

  Inside a transaction a read works on the values in memory, afterwards on what was written and
  read again. Tuples are the difference that a query can see: they are lists when they come back.

  * `Database.find`, `Database.all` -- the reads of `database.py`;
  * `reads_agree` -- a document is found before the commit iff it is found after it, unless the
    criteria compare a tuple in it with a list or a tuple.
-/
import JsonDatabase.QueryLaws
import JsonDatabase.Alike

namespace JsonDatabase

open PyVal hiding none

/-! ## 1. The reads of a database -/

/-- `Database._read_state`: a copy of the active transaction's state, or what is on disk. -/
def readState (rt : Runtime) (cp : Copier) (active : Option State) (now : DateTime)
    (file : FileRead) : Except PyExc State :=
  match active with
  | some state => copyDict cp (.dict state)
  | none => load rt now file

/-- `Database._all`. -/
def Database.all (rt : Runtime) (cp : Copier) (active : Option State) (now : DateTime)
    (file : FileRead) (collection : PyVal) : Except PyExc (List PyVal) := do
  let state ← readState rt cp active now file
  allDocuments cp state collection

/-- `Database._find`. -/
def Database.find (rt : Runtime) (cp : Copier) (active : Option State) (now : DateTime)
    (file : FileRead) (collection criteria : PyVal) : Except PyExc (List PyVal) := do
  let state ← readState rt cp active now file
  findDocuments cp state collection criteria

/-- The `id` fields of documents. -/
def documentIds (documents : List PyVal) : List PyVal :=
  documents.filterMap fun document =>
    match document with
    | .dict fields => Dict.get fields ID
    | _ => none

theorem mem_documentIds {documents : List PyVal} {id : PyVal} : id ∈ documentIds documents ↔
    ∃ fields, PyVal.dict fields ∈ documents ∧ Dict.get fields ID = some id := by
  unfold documentIds
  rw [List.mem_filterMap]
  constructor
  · intro h
    obtain ⟨document, hm, h⟩ := h
    cases document with
    | dict fields => exact ⟨fields, hm, h⟩
    | _ => cases h
  · intro h
    obtain ⟨fields, hm, h⟩ := h
    exact ⟨_, hm, h⟩

/-! ## 2. What the reads return -/

theorem copies_eq {cp : Copier} {docs : PyDict} {ds : List PyVal}
    (h : List.Forall₂ (fun kv d => deepcopy cp kv.2 = .ok d) docs ds) : ds = docs.map (·.2) := by
  induction h with
  | nil => rfl
  | cons hd _ ih => rw [List.map_cons, ← ih, (deepcopy_ok.mp hd).2]

theorem allDocuments_ok {cp : Copier} {s : State} {collection : PyVal} {ds : List PyVal}
    (h : allDocuments cp s collection = .ok ds) : ∃ docs,
      getCollectionRefOrEmpty s collection = .ok docs ∧ ds = docs.map (·.2) := by
  obtain ⟨docs, hdocs, h⟩ := bind_ok.mp h
  exact ⟨docs, hdocs, copies_eq (mapM_ok.mp h)⟩

theorem selectDocuments_ok {criteria : PyVal} : ∀ {documents selected : List PyVal},
    selectDocuments criteria documents = .ok selected →
      (∀ d ∈ documents, ∃ ok, matchesCriteria d criteria = .ok ok) ∧
      ∀ d, d ∈ selected ↔ d ∈ documents ∧ matchesCriteria d criteria = .ok true
  | [], selected, h => by
      cases h
      simp
  | document :: rest, selected, h => by
      obtain ⟨ok, hok, h⟩ := bind_ok.mp h
      obtain ⟨later, hlater, h⟩ := bind_ok.mp h
      cases h
      obtain ⟨hall, hm⟩ := selectDocuments_ok hlater
      refine ⟨List.forall_mem_cons.mpr ⟨⟨ok, hok⟩, hall⟩, fun d => ?_⟩
      cases ok with
      | true =>
        rw [if_pos rfl, List.mem_cons, List.mem_cons, hm]
        refine ⟨fun h => ?_, fun h => ?_⟩
        · rcases h with rfl | ⟨hd, ht⟩
          · exact ⟨Or.inl rfl, hok⟩
          · exact ⟨Or.inr hd, ht⟩
        · obtain ⟨rfl | hd, ht⟩ := h
          · exact Or.inl rfl
          · exact Or.inr ⟨hd, ht⟩
      | false =>
        rw [if_neg Bool.false_ne_true, List.mem_cons, hm]
        refine ⟨fun h => ⟨Or.inr h.1, h.2⟩, fun h => ?_⟩
        obtain ⟨rfl | hd, ht⟩ := h
        · rw [hok] at ht
          cases ht
        · exact ⟨hd, ht⟩

theorem findDocuments_ok {cp : Copier} {s : State} {collection criteria : PyVal} {ds : List PyVal}
    (h : findDocuments cp s collection criteria = .ok ds) : ∃ docs,
      getCollectionRefOrEmpty s collection = .ok docs ∧
      (∀ id d, (id, d) ∈ docs → ∃ ok, matchesCriteria d criteria = .ok ok) ∧
      ∀ d, d ∈ ds ↔ (∃ id, (id, d) ∈ docs) ∧ matchesCriteria d criteria = .ok true := by
  obtain ⟨all, hall, h⟩ := bind_ok.mp h
  obtain ⟨docs, hdocs, rfl⟩ := allDocuments_ok hall
  obtain ⟨-, -, h⟩ := bind_ok.mp h
  obtain ⟨hok, hm⟩ := selectDocuments_ok h
  refine ⟨docs, hdocs, fun id d hd => hok d (List.mem_map.mpr ⟨_, hd, rfl⟩), fun d => ?_⟩
  rw [hm, List.mem_map]
  refine and_congr_left fun _ => ⟨fun h => ?_, fun h => ?_⟩
  · obtain ⟨⟨id, d'⟩, hd, rfl⟩ := h
    exact ⟨id, hd⟩
  · obtain ⟨id, hd⟩ := h
    exact ⟨_, hd, rfl⟩

theorem selectDocuments_isOk {criteria : PyVal} : ∀ {documents : List PyVal},
    (∀ d ∈ documents, ∃ ok, matchesCriteria d criteria = .ok ok) →
      ∃ selected, selectDocuments criteria documents = .ok selected
  | [], _ => ⟨[], rfl⟩
  | document :: rest, h => by
      obtain ⟨ok, hok⟩ := h document List.mem_cons_self
      obtain ⟨later, hlater⟩ := selectDocuments_isOk fun d hd => h d (List.mem_cons_of_mem _ hd)
      exact ⟨_, bind_ok.mpr ⟨ok, hok, bind_ok.mpr ⟨later, hlater, rfl⟩⟩⟩

theorem allDocuments_total {s : State} {collection : PyVal} {docs : PyDict}
    (h : getCollectionRefOrEmpty s collection = .ok docs) :
    allDocuments .total s collection = .ok (docs.map (·.2)) := by
  refine bind_ok.mpr ⟨docs, h, mapM_ok.mpr ?_⟩
  exact List.forall₂_map_right_iff.mpr (List.forall₂_same.mpr fun _ _ => rfl)

/-- Where copying does not fail, a query returns iff the criteria return on every document. -/
theorem findDocuments_isOk {s : State} {collection criteria : PyVal} {docs : PyDict}
    (h : getCollectionRefOrEmpty s collection = .ok docs) :
    (∃ ds, findDocuments .total s collection criteria = .ok ds) ↔
      (∃ ok, matchesCriteria (.dict []) criteria = .ok ok) ∧
        ∀ id d, (id, d) ∈ docs → ∃ ok, matchesCriteria d criteria = .ok ok := by
  constructor
  · intro hds
    obtain ⟨ds, hds⟩ := hds
    obtain ⟨all, hall, h'⟩ := bind_ok.mp hds
    obtain ⟨ok, hok, -⟩ := bind_ok.mp h'
    obtain ⟨docs', hdocs, hd, -⟩ := findDocuments_ok hds
    obtain rfl : docs' = docs := Except.ok.inj (hdocs.symm.trans h)
    exact ⟨⟨ok, hok⟩, hd⟩
  · intro hok
    obtain ⟨⟨ok, hok⟩, hd⟩ := hok
    obtain ⟨ds, hds⟩ := @selectDocuments_isOk criteria (docs.map (·.2)) fun d hm => by
      obtain ⟨⟨id, d'⟩, hm', rfl⟩ := List.mem_map.mp hm
      exact hd id d' hm'
    exact ⟨ds, bind_ok.mpr ⟨_, allDocuments_total h, bind_ok.mpr ⟨ok, hok, hds⟩⟩⟩

/-! ## 3. A collection and what is read back of it -/

/-- What the encoder accepts has no signaling NaN. -/
theorem quiet_of_encode {rt : Runtime} {v : PyVal} {e : Json} (he : encode rt v = .ok e) :
    quiet v := by
  induction v using PyVal.induct generalizing e with
  | list xs ih =>
    obtain ⟨es, hes, -⟩ := encode_list_ok.mp he
    refine everywhere_list.mpr ⟨rfl, fun x hx => ?_⟩
    obtain ⟨y, -, hy⟩ := forall₂_mem_left hes hx
    exact ih x hx hy
  | tuple xs ih =>
    obtain ⟨es, hes, -⟩ := encode_tuple_ok.mp he
    refine everywhere_tuple.mpr ⟨rfl, fun x hx => ?_⟩
    obtain ⟨y, -, hy⟩ := forall₂_mem_left hes hx
    exact ih x hx hy
  | set xs ih =>
    obtain ⟨es, hes, -⟩ := encode_set_ok.mp he
    refine everywhere_set.mpr ⟨rfl, fun x hx => ?_⟩
    obtain ⟨y, -, hy⟩ := forall₂_mem_left hes hx
    exact ih x hx hy
  | dict kvs ih =>
    obtain ⟨es, hes, -⟩ := encode_dict_ok.mp he
    refine everywhere_dict.mpr ⟨rfl, fun k v hkv => ?_⟩
    obtain ⟨y, -, -, hy⟩ := forall₂_mem_left hes hkv
    exact ih k v hkv hy
  | frozenset xs ih => cases he
  | decimal d =>
    cases d with
    | snan _ _ => cases he
    | _ => rfl
  | _ => rfl

theorem getCollectionRefOrEmpty_ok {s : State} {collection : PyVal} {docs : PyDict} :
    getCollectionRefOrEmpty s collection = .ok docs ↔
      validateCollectionName collection = .ok () ∧ ∃ c, collectionsOf s = .ok c ∧
        asDict ((Dict.get c collection.toKey).getD (.dict [])) = .ok docs := by
  unfold getCollectionRefOrEmpty
  rw [bind_unit_ok, bind_ok]
  refine and_congr_right fun _ => exists_congr fun c => and_congr_right fun _ => ?_
  cases Dict.get c collection.toKey with
  | none => exact Iff.rfl
  | some v => exact Iff.rfl

/-- The documents of a collection before a commit, and what is read of it afterwards. -/
structure CommittedDocs (rt : Runtime) (docs docs' : PyDict) : Prop where
  before : GoodDocs rt docs
  after : GoodDocs rt docs'
  readsAs : ReadsAs (.dict docs) (.dict docs')

theorem Rep.committedDocs {rt : Runtime} {cp : Copier} {base s : State} (hb : Loaded rt base)
    (h : Rep rt base s) {now : DateTime} {b : Bytes} (hc : commitBytes rt cp now s = .ok b)
    {w : State} (hw : loadBytes rt b = .ok w) {collection : PyVal} {docs : PyDict}
    (hd : getCollectionRefOrEmpty s collection = .ok docs) : ∃ docs',
      getCollectionRefOrEmpty w collection = .ok docs' ∧ CommittedDocs rt docs docs' := by
  obtain ⟨c, c', hsc, hwc, hcw, hr⟩ := h.read_back hb hc hw
  obtain ⟨hn, c₀, hc₀, hd⟩ := getCollectionRefOrEmpty_ok.mp hd
  obtain ⟨hget, hg⟩ := h.collectionsOf hc₀
  obtain rfl : c = c₀ := PyVal.dict.inj (Option.some.inj (hsc.symm.trans hget))
  have hwc' : JsonDatabase.collectionsOf w = .ok c' := by
    rw [JsonDatabase.collectionsOf, hwc]
    rfl
  have hg' := ((loadBytes_loaded hw).rep.collectionsOf hwc').2
  have hrel := hr.get hg.distinct collection.toKey
  cases hk : Dict.get c collection.toKey with
  | none =>
    rw [hk] at hd hrel
    cases hd
    have hk' : Dict.get c' collection.toKey = none := by
      generalize Dict.get c' collection.toKey = o at hrel
      cases hrel
      rfl
    exact ⟨[], getCollectionRefOrEmpty_ok.mpr ⟨hn, c', hwc', by rw [hk']; rfl⟩, .empty, .empty,
      Same.refl _⟩
  | some v =>
    obtain ⟨v', hv', hvv⟩ := hr.get_left hg.distinct hk
    have hgood := hg.docs hd
    rw [hk] at hd
    obtain rfl := asDict_ok.mp hd
    obtain ⟨docs', rfl⟩ := hvv.dict_left
    have hd' : asDict ((Dict.get c' collection.toKey).getD (.dict [])) = .ok docs' := by
      rw [hv']
      rfl
    exact ⟨docs', getCollectionRefOrEmpty_ok.mpr ⟨hn, c', hwc', hd'⟩, hgood, hg'.docs hd', hvv⟩

namespace CommittedDocs

variable {rt : Runtime} {docs docs' : PyDict}

/-- Each document has a counterpart after the commit, with the same identifier. -/
theorem left (h : CommittedDocs rt docs docs') {key : PyKey} {fields : PyDict}
    (hm : (key, PyVal.dict fields) ∈ docs) : ∃ fields', (key, PyVal.dict fields') ∈ docs' ∧
      ReadsAs (.dict fields) (.dict fields') ∧ Dict.get fields' ID = Dict.get fields ID := by
  have hg := h.before.good _ _ hm
  obtain ⟨v', hv', hr⟩ := h.readsAs.get_left h.before.distinct (Dict.get_of_mem h.before.distinct hm)
  obtain ⟨fields', rfl⟩ := hr.dict_left
  obtain ⟨id, f, e, -, hid⟩ := hg.shape
  cases e
  obtain ⟨i, hi, hri⟩ := hr.get_left (everywhere_dict.mp hg.wf).1 hid
  refine ⟨fields', Dict.mem_of_get hv', hr, ?_⟩
  rw [hi, hid, hri.atom rfl]

/-- Each document after the commit has a counterpart before it. -/
theorem right (h : CommittedDocs rt docs docs') {key : PyKey} {fields' : PyDict}
    (hm : (key, PyVal.dict fields') ∈ docs') : ∃ fields, (key, PyVal.dict fields) ∈ docs ∧
      ReadsAs (.dict fields) (.dict fields') ∧ Dict.get fields' ID = Dict.get fields ID := by
  obtain ⟨v, hv, hr⟩ := h.readsAs.mem_right h.before.distinct hm
  obtain ⟨_, fields, e, -⟩ := (h.before.good _ _ hv).shape
  obtain rfl : v = .dict fields := congrArg Prod.snd e
  obtain ⟨fields₁, hm₁, hr₁, hid⟩ := h.left hv
  have hd' := h.after.distinct
  obtain rfl : fields' = fields₁ := PyVal.dict.inj (Option.some.inj
    ((Dict.get_of_mem hd' hm).symm.trans (Dict.get_of_mem hd' hm₁)))
  exact ⟨fields, hv, hr, hid⟩

/-- The criteria on a document and on its counterpart. -/
theorem agree (h : CommittedDocs rt docs docs') {key : PyKey} {fields fields' : PyDict}
    (hm : (key, PyVal.dict fields) ∈ docs) (hr : ReadsAs (.dict fields) (.dict fields'))
    {criteria : PyVal} (hc : criteria.wf) (hu : Blind criteria fields) :
    Agree (quiet criteria) signaled (matchesCriteria (.dict fields) criteria)
      (matchesCriteria (.dict fields') criteria) := by
  have hg := h.before.good _ _ hm
  obtain ⟨e, he⟩ := hg.encodable
  exact matches_agree hr hg.wf (quiet_of_encode he) hc hu

/-- **A document is selected before iff it is selected after.** -/
theorem selected_iff (h : CommittedDocs rt docs docs') {criteria : PyVal} (hc : criteria.wf)
    {id : PyVal} (hu : ∀ key fields, (key, PyVal.dict fields) ∈ docs → Dict.get fields ID = some id →
      Blind criteria fields)
    (hok : ∀ key d, (key, d) ∈ docs → ∃ ok, matchesCriteria d criteria = .ok ok)
    (hok' : ∀ key d, (key, d) ∈ docs' → ∃ ok, matchesCriteria d criteria = .ok ok) :
    (∃ fields, (∃ key, (key, PyVal.dict fields) ∈ docs) ∧
      matchesCriteria (.dict fields) criteria = .ok true ∧ Dict.get fields ID = some id) ↔
    ∃ fields, (∃ key, (key, PyVal.dict fields) ∈ docs') ∧
      matchesCriteria (.dict fields) criteria = .ok true ∧ Dict.get fields ID = some id := by
  constructor
  · intro hs
    obtain ⟨fields, ⟨key, hm⟩, ht, hid⟩ := hs
    obtain ⟨fields', hm', hr, hid'⟩ := h.left hm
    obtain ⟨ok, hok⟩ := hok' key _ hm'
    have ha := h.agree hm hr hc (hu key fields hm hid)
    refine ⟨fields', ⟨key, hm'⟩, ?_, hid'.trans hid⟩
    rw [hok, ← ha.ok ht hok]
  · intro hs
    obtain ⟨fields', ⟨key, hm'⟩, ht, hid'⟩ := hs
    obtain ⟨fields, hm, hr, hid⟩ := h.right hm'
    rw [hid] at hid'
    obtain ⟨ok, hok⟩ := hok key _ hm
    have ha := h.agree hm hr hc (hu key fields hm hid')
    refine ⟨fields, ⟨key, hm⟩, ?_, hid'⟩
    rw [hok, ha.ok hok ht]

end CommittedDocs

/-! ## 4. Before and after a commit -/

/-- A document of the collection with that identifier. -/
def DocumentOf (s : State) (collection id : PyVal) (fields : PyDict) : Prop :=
  ∃ docs key, getCollectionRefOrEmpty s collection = .ok docs ∧
    (key, PyVal.dict fields) ∈ docs ∧ Dict.get fields ID = some id

/-- What `find` returns inside a transaction, through it or through the database. -/
def FoundInside (rt : Runtime) (cp : Copier) (s : State) (now : DateTime) (file : FileRead)
    (collection criteria : PyVal) (documents : List PyVal) : Prop :=
  findDocuments cp s collection criteria = .ok documents ∨
    Database.find rt cp (some s) now file collection criteria = .ok documents

/-- What `all` returns inside a transaction. -/
def AllInside (rt : Runtime) (cp : Copier) (s : State) (now : DateTime) (file : FileRead)
    (collection : PyVal) (documents : List PyVal) : Prop :=
  allDocuments cp s collection = .ok documents ∨
    Database.all rt cp (some s) now file collection = .ok documents

theorem FoundInside.direct {rt : Runtime} {cp : Copier} {s : State} {now : DateTime}
    {file : FileRead} {collection criteria : PyVal} {ds : List PyVal}
    (h : FoundInside rt cp s now file collection criteria ds) :
    findDocuments cp s collection criteria = .ok ds := by
  rcases h with h | h
  · exact h
  · obtain ⟨s', hs, h⟩ := bind_ok.mp h
    obtain ⟨-, e⟩ := copyDict_ok.mp hs
    cases e
    exact h

theorem AllInside.direct {rt : Runtime} {cp : Copier} {s : State} {now : DateTime}
    {file : FileRead} {collection : PyVal} {ds : List PyVal}
    (h : AllInside rt cp s now file collection ds) : allDocuments cp s collection = .ok ds := by
  rcases h with h | h
  · exact h
  · obtain ⟨s', hs, h⟩ := bind_ok.mp h
    obtain ⟨-, e⟩ := copyDict_ok.mp hs
    cases e
    exact h

/-- `all` is the query without criteria. -/
theorem findDocuments_none {cp : Copier} {s : State} {collection : PyVal} {ds : List PyVal}
    (h : allDocuments cp s collection = .ok ds) :
    findDocuments cp s collection .none = .ok ds := by
  have select : ∀ ds : List PyVal, selectDocuments .none ds = .ok ds := by
    intro ds
    induction ds with
    | nil => rfl
    | cons d ds ih => exact bind_ok.mpr ⟨true, rfl, bind_ok.mpr ⟨ds, ih, rfl⟩⟩
  exact bind_ok.mpr ⟨ds, h, bind_ok.mpr ⟨true, rfl, select ds⟩⟩

/-- The identifiers that a query returns. -/
theorem mem_documentIds_find {cp : Copier} {s : State} {collection criteria : PyVal}
    {ds : List PyVal} (h : findDocuments cp s collection criteria = .ok ds) {docs : PyDict}
    (hd : getCollectionRefOrEmpty s collection = .ok docs) {id : PyVal} :
    id ∈ documentIds ds ↔ ∃ fields, (∃ key, (key, PyVal.dict fields) ∈ docs) ∧
      matchesCriteria (.dict fields) criteria = .ok true ∧ Dict.get fields ID = some id := by
  obtain ⟨docs', hdocs, -, hm⟩ := findDocuments_ok h
  obtain rfl : docs = docs' := Except.ok.inj (hd.symm.trans hdocs)
  simp only [mem_documentIds, hm, and_assoc]

/-- One query before and after a commit. -/
theorem Rep.found_iff {rt : Runtime} {cp' : Copier} {base s : State} (hb : Loaded rt base)
    (h : Rep rt base s) {now : DateTime} {b : Bytes} (hc : commitBytes rt cp' now s = .ok b)
    {w : State} (hw : loadBytes rt b = .ok w) {cp : Copier} {collection criteria : PyVal}
    (hcw : criteria.wf)
    {ds ds' : List PyVal} (hds : findDocuments cp s collection criteria = .ok ds)
    (hds' : findDocuments cp w collection criteria = .ok ds') {id : PyVal}
    (hu : ∀ fields, DocumentOf s collection id fields → Blind criteria fields) :
    id ∈ documentIds ds ↔ id ∈ documentIds ds' := by
  obtain ⟨docs, hdocs, hok, -⟩ := findDocuments_ok hds
  obtain ⟨docs', hdocs', hcd⟩ := h.committedDocs hb hc hw hdocs
  obtain ⟨docs₁, hdocs₁, hok', -⟩ := findDocuments_ok hds'
  obtain rfl : docs' = docs₁ := Except.ok.inj (hdocs'.symm.trans hdocs₁)
  rw [mem_documentIds_find hds hdocs, mem_documentIds_find hds' hdocs']
  exact hcd.selected_iff hcw (fun key fields hm hid => hu fields ⟨docs, key, hdocs, hm, hid⟩) hok hok'

/-- Where the criteria compare no tuple with a sequence and hold no signaling NaN, the query returns
    before the commit iff it returns after it. -/
theorem Rep.find_isOk_iff {rt : Runtime} {cp : Copier} {base s : State} (hb : Loaded rt base)
    (h : Rep rt base s) {now : DateTime} {b : Bytes} (hc : commitBytes rt cp now s = .ok b)
    {w : State} (hw : loadBytes rt b = .ok w) {collection criteria : PyVal} (hcw : criteria.wf)
    (hq : quiet criteria)
    (hu : ∀ id fields, DocumentOf s collection id fields → Blind criteria fields) :
    (∃ ds, findDocuments .total s collection criteria = .ok ds) ↔
      ∃ ds, findDocuments .total w collection criteria = .ok ds := by
  cases hd : getCollectionRefOrEmpty s collection with
  | error e =>
    -- only the name of the collection can be wrong, and it is wrong in both
    have hn : validateCollectionName collection ≠ .ok () := by
      intro hn
      obtain ⟨c, hsc, hg⟩ := h.collections
      have hcs : JsonDatabase.collectionsOf s = .ok c := by
        rw [JsonDatabase.collectionsOf, hsc]
        rfl
      have hdict : ∃ docs, asDict ((Dict.get c collection.toKey).getD (.dict [])) = .ok docs := by
        cases hk : Dict.get c collection.toKey with
        | none => exact ⟨[], rfl⟩
        | some v =>
          obtain ⟨docs, rfl, -⟩ := hg.good _ v (Dict.mem_of_get hk)
          exact ⟨docs, rfl⟩
      obtain ⟨docs, hdict⟩ := hdict
      cases hd.symm.trans (getCollectionRefOrEmpty_ok.mpr ⟨hn, c, hcs, hdict⟩)
    have absurd_find {s : State} : ¬ ∃ ds, findDocuments .total s collection criteria = .ok ds := by
      intro hds
      obtain ⟨ds, hds⟩ := hds
      obtain ⟨docs, hdocs, -⟩ := findDocuments_ok hds
      exact hn (getCollectionRefOrEmpty_ok.mp hdocs).1
    exact iff_of_false absurd_find absurd_find
  | ok docs =>
    obtain ⟨docs', hd', hcd⟩ := h.committedDocs hb hc hw hd
    rw [findDocuments_isOk hd, findDocuments_isOk hd']
    refine and_congr_right fun _ => ?_
    have untupled {key : PyKey} {fields : PyDict} (hm : (key, PyVal.dict fields) ∈ docs) :
        Blind criteria fields := by
      obtain ⟨id, f, e, -, hid⟩ := (hcd.before.good _ _ hm).shape
      cases e
      exact hu (.str id) _ ⟨docs, _, hd, hm, hid⟩
    constructor
    · intro hok key d hm
      obtain ⟨_, fields', e, -⟩ := (hcd.after.good _ _ hm).shape
      obtain rfl : d = .dict fields' := congrArg Prod.snd e
      obtain ⟨fields, hm', hr, -⟩ := hcd.right hm
      rw [← (hcd.agree hm' hr hcw (untupled hm')).eq hq]
      exact hok key _ hm'
    · intro hok key d hm
      obtain ⟨_, fields, e, -⟩ := (hcd.before.good _ _ hm).shape
      obtain rfl : d = .dict fields := congrArg Prod.snd e
      obtain ⟨fields', hm', hr, -⟩ := hcd.left hm
      rw [(hcd.agree hm hr hcw (untupled hm)).eq hq]
      exact hok key _ hm'

/-- **Reads inside a transaction and after its commit**: `all` returns the same identifiers, and
    so does `find` for every document of which the criteria compare no tuple with a list or a tuple;
    if they compare none in the whole collection and hold no signaling NaN, `find` returns before the
    commit iff it returns after it. -/
theorem reads_agree (rt : Runtime) (cp cp' : Copier) (t₀ now t₁ : DateTime) (file : FileRead)
    (base : State) (hload : load rt t₀ file = .ok base) (calls : List OpCall) (b : Bytes)
    (hcommit : commitBytes rt cp now (runCalls rt cp calls base) = .ok b) (w : State)
    (hread : load rt t₁ (.bytes b) = .ok w) (collection criteria : PyObj) :
    (∀ before after, AllInside rt cp' (runCalls rt cp calls base) t₁ file collection.val before →
      Database.all rt cp' none t₁ (.bytes b) collection.val = .ok after →
        ∀ id, id ∈ documentIds before ↔ id ∈ documentIds after) ∧
    (∀ before after,
      FoundInside rt cp' (runCalls rt cp calls base) t₁ file collection.val criteria.val before →
      Database.find rt cp' none t₁ (.bytes b) collection.val criteria.val = .ok after →
        ∀ id, (∀ fields, DocumentOf (runCalls rt cp calls base) collection.val id fields →
          Blind criteria.val fields) → (id ∈ documentIds before ↔ id ∈ documentIds after)) ∧
    (quiet criteria.val → (∀ id fields, DocumentOf (runCalls rt cp calls base) collection.val id
        fields → Blind criteria.val fields) →
      ((∃ before, FoundInside rt .total (runCalls rt cp calls base) t₁ file collection.val
        criteria.val before) ↔
        ∃ after, Database.find rt .total none t₁ (.bytes b) collection.val criteria.val =
          .ok after)) := by
  have hb := load_loaded hload
  have hr := runCalls_rep cp calls hb.rep
  have after {α : Type} {f : State → Except PyExc α} :
      (readState rt cp' none t₁ (.bytes b) >>= f) = f w := by
    show (load rt t₁ (.bytes b) >>= f) = f w
    rw [hread]
    rfl
  refine ⟨fun before afterwards hin hout id => ?_, fun before afterwards hin hout id hu => ?_,
    fun hq hu => ?_⟩
  · have hnone : PyVal.none.wf := trivial
    exact hr.found_iff hb hcommit hread hnone (findDocuments_none hin.direct)
      (findDocuments_none (after.symm.trans hout)) fun _ _ _ _ hk => absurd hk List.not_mem_nil
  · exact hr.found_iff hb hcommit hread criteria.wf hin.direct (after.symm.trans hout) hu
  · have hiff := hr.find_isOk_iff hb hcommit hread criteria.wf hq hu
    have hafter : Database.find rt .total none t₁ (.bytes b) collection.val criteria.val =
        findDocuments .total w collection.val criteria.val := by
      show (load rt t₁ (.bytes b) >>= fun state => findDocuments _ state _ _) = _
      rw [hread]
      rfl
    rw [hafter, ← hiff]
    exact exists_congr fun ds => ⟨FoundInside.direct, Or.inl⟩

/-- `{"at": v}`. -/
def atField (v : PyVal) (h : v.wf) : PyObj :=
  ⟨.dict [(.str (lit "at"), v)], everywhere_dict.mpr ⟨List.nodup_singleton _, fun _ _ hm => by
    cases List.mem_singleton.mp hm
    exact h⟩⟩

def onePair : PyObj :=
  atField (.tuple [.int 1, .int 2]) (everywhere_tuple.mpr ⟨trivial, by simp [everywhere, localWf]⟩)

def oneList : PyObj :=
  atField (.list [.int 1, .int 2]) (everywhere_list.mpr ⟨trivial, by simp [everywhere, localWf]⟩)

/-- How many documents `find` returns inside a transaction and after its commit. -/
def foundInsideAndAfter (document criteria : PyObj) : Option (Nat × Nat) := do
  let s ← (firstWrite (.insert (.str (lit "users")) document ⟨0⟩)).toOption
  let inside ← (findDocuments .total s (.str (lit "users")) criteria.val).toOption
  let b ← (commitBytes interpreter .total epoch s).toOption
  let after ← (Database.find interpreter .total none epoch (.bytes b) (.str (lit "users"))
    criteria.val).toOption
  return (inside.length, after.length)

/-- A list is not equal to the tuple in memory, and equal to what is read back of it. -/
theorem tuple_found_after_commit : foundInsideAndAfter onePair oneList = some (0, 1) := by
  decide +kernel

/-- `{"tags": {"$contains": "x"}}`. -/
def taggedX : PyObj :=
  ⟨.dict [(.str (lit "tags"), .dict [(.str (lit "$contains"), .str (lit "x"))])],
    wf_entry (wf_entry trivial)⟩

theorem blind_taggedX (document : PyDict) : Blind taggedX.val document := by
  intro k e hm
  cases List.mem_singleton.mp hm
  refine Or.inr ⟨fun _ expression he kv hkv => ?_, fun h => ?_⟩
  · cases he
    cases List.mem_singleton.mp hkv
    exact rfl
  · cases h

theorem select_taggedX :
    selectDocuments taggedX.val [(named (lit "Ava")).2, tagged.2] = .ok [tagged.2] := by
  have hnamed : matchesCriteria (named (lit "Ava")).2 taggedX.val = .ok false := rfl
  have htagged : matchesCriteria tagged.2 taggedX.val = .ok true :=
    toOption_eq_some.mp (by decide +kernel)
  simp only [selectDocuments, hnamed, htagged]
  rfl

/-- A member of a tuple is found before the commit, and in the list that is read after it. -/
theorem member_found_both_times : ∃ base b w before after,
    load interpreter epoch .missing = .ok base ∧
    commitBytes interpreter .total epoch
      (runCalls interpreter .total [insertName (lit "Ava"), insertTagged] base) = .ok b ∧
    load interpreter epoch (.bytes b) = .ok w ∧
    FoundInside interpreter .total
      (runCalls interpreter .total [insertName (lit "Ava"), insertTagged] base) epoch .missing
      (.str (lit "users")) taggedX.val before ∧
    Database.find interpreter .total none epoch (.bytes b) (.str (lit "users")) taggedX.val =
      .ok after ∧
    documentIds before = [.str (Uuid.text ⟨1⟩)] ∧
    ∀ id, id ∈ documentIds before ↔ id ∈ documentIds after := by
  obtain ⟨d, -, hload⟩ := loaded_empty interpreter epoch
  have hb := load_loaded hload
  have hr := runCalls_rep .total [insertName (lit "Ava"), insertTagged] hb.rep
  have hafter := both_after epoch (.str d) (lit "Ava")
  obtain ⟨b, hcommit⟩ := (hr.commitBytes_isOk hb .total epoch).mpr
    ⟨by rw [hafter]; exact cleanDocuments_both (by decide), .total _ _⟩
  obtain ⟨p, hp, hdump⟩ := bind_ok.mp hcommit
  obtain ⟨w, hw, -⟩ := hr.load_commit hb (by rw [hafter]; exact noReservedId_usersOnly (by decide))
    hp hdump
  obtain ⟨-, hfind, hreturns⟩ := reads_agree interpreter .total .total epoch epoch epoch .missing _
    hload [insertName (lit "Ava"), insertTagged] b hcommit w hw (.str (lit "users")) taggedX
  have hbefore : FoundInside interpreter .total
      (runCalls interpreter .total [insertName (lit "Ava"), insertTagged] (emptyState epoch (.str d)))
      epoch .missing (.str (lit "users")) taggedX.val [tagged.2] := by
    rw [hafter]
    exact Or.inl (bind_ok.mpr ⟨_, rfl, bind_ok.mpr ⟨false, rfl, select_taggedX⟩⟩)
  obtain ⟨found, hfound⟩ := (hreturns (by simp [taggedX, quiet, everywhere, everywhereEntries, isSNaN])
    fun _ fields _ => blind_taggedX fields).mp ⟨_, hbefore⟩
  exact ⟨_, b, w, _, found, hload, hcommit, hw, hbefore, hfound, rfl,
    fun id => hfind _ _ hbefore hfound id fun fields _ => blind_taggedX fields⟩

end JsonDatabase
