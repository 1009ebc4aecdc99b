/-
  File:      JsonDatabase/Commit.lean
  Subject:   What a commit makes of a state.

  * `prepareForCommit_ok` -- on a state of the right shape only the copies and the checksum can fail;
  * `PutClosed` -- what passes from a state to what a commit makes of it;
  * `Rep.shape`, `Rep.represents` -- every state that can be reached has that shape.
-/
import JsonDatabase.Representation

namespace JsonDatabase

open PyVal hiding none

/-! ## 1. The stamped meta block -/

theorem get_setDefault (d : PyDict) (k : PyKey) (v : PyVal) (k' : PyKey) :
    Dict.get (setDefault d k v) k' =
      if k = k' then some ((Dict.get d k).getD v) else Dict.get d k' := by
  unfold setDefault
  cases h : Dict.get d k with
  | some w =>
    rw [Dict.contains, h, Option.isSome_some, if_pos rfl]
    split
    · rename_i e
      subst e
      exact h
    · rfl
  | none =>
    rw [Dict.contains, h, Option.isSome_none, if_neg Bool.false_ne_true, Dict.get_put]
    rfl

/-- What a stamped meta block holds: the two stamps, the defaults, and what it held before. -/
theorem get_stampMeta (now : DateTime) (fields : PyDict) (k : PyKey) :
    Dict.get (stampMeta now fields) k =
      if CONTENT_SHA256 = k then some .none
      else if UPDATED_AT = k then some (.datetime now)
      else if CREATED_AT = k then some ((Dict.get fields CREATED_AT).getD (.datetime now))
      else if VERSION_KEY = k then some ((Dict.get fields VERSION_KEY).getD (.int VERSION))
      else if FORMAT_KEY = k then some ((Dict.get fields FORMAT_KEY).getD (.str FORMAT))
      else Dict.get fields k := by
  have h1 : VERSION_KEY ≠ CREATED_AT := by decide
  have h2 : FORMAT_KEY ≠ CREATED_AT := by decide
  have h3 : FORMAT_KEY ≠ VERSION_KEY := by decide
  unfold stampMeta
  simp only [Dict.get_put, get_setDefault, if_neg h1, if_neg h2, if_neg h3]

theorem MetaShape.stamp {fields : PyDict} (h : MetaShape fields) (now : DateTime) (v : PyVal) :
    MetaShape (Dict.put (stampMeta now fields) CONTENT_SHA256 v) := by
  have h1 : CONTENT_SHA256 ≠ FORMAT_KEY := by decide
  have h2 : UPDATED_AT ≠ FORMAT_KEY := by decide
  have h3 : CREATED_AT ≠ FORMAT_KEY := by decide
  have h4 : VERSION_KEY ≠ FORMAT_KEY := by decide
  have h5 : CONTENT_SHA256 ≠ VERSION_KEY := by decide
  have h6 : UPDATED_AT ≠ VERSION_KEY := by decide
  have h7 : CREATED_AT ≠ VERSION_KEY := by decide
  constructor
  · rw [Dict.get_put_ne _ h1, get_stampMeta, if_neg h1, if_neg h2, if_neg h3, if_neg h4, if_pos rfl,
      h.format]
    rfl
  · rw [Dict.get_put_ne _ h5, get_stampMeta, if_neg h5, if_neg h6, if_neg h7, if_pos rfl]
    have hv := h.version
    cases hg : Dict.get fields VERSION_KEY with
    | none =>
      rw [hg] at hv
      exact absurd hv (by simp [eqVals, eqRaises, pyEq])
    | some v =>
      rw [hg] at hv
      exact hv

/-! ## 2. Preparing a state -/

/-- The state with its meta block stamped, the checksum null. -/
def stamped (now : DateTime) (s : State) (fields : PyDict) : State :=
  Dict.put s META (.dict (stampMeta now fields))

/-- The state with its meta block stamped and `d` for its checksum. -/
def prepared (now : DateTime) (s : State) (fields : PyDict) (d : Str) : State :=
  withChecksum (stamped now s fields) (stampMeta now fields) (.str d)

theorem stampState_of_meta {s : State} {fields : PyDict} (h : Dict.get s META = some (.dict fields))
    (now : DateTime) : stampState now s = .ok (stamped now s fields) := by
  unfold stampState
  rw [h]
  rfl

theorem stamped_meta (now : DateTime) (s : State) (fields : PyDict) :
    Dict.get (stamped now s fields) META = some (.dict (stampMeta now fields)) :=
  Dict.get_put_self _ _ _

theorem prepared_eq_put (now : DateTime) (s : State) (fields : PyDict) (d : Str) :
    prepared now s fields d =
      Dict.put s META (.dict (Dict.put (stampMeta now fields) CONTENT_SHA256 (.str d))) := by
  rw [prepared, withChecksum, stamped, Dict.put_put]

theorem StateShape.prepared {s : State} {fields collections : PyDict}
    (h : StateShape false s fields collections) (now : DateTime) (d : Str) :
    StateShape true (prepared now s fields d)
      (Dict.put (stampMeta now fields) CONTENT_SHA256 (.str d)) collections := by
  rw [prepared_eq_put]
  refine ⟨Dict.get_put_self _ _ _, h.metaShape.stamp now _,
    fun _ => ⟨d, Dict.get_put_self _ _ _⟩, ?_, h.shapes⟩
  rw [Dict.get_put_ne _ collections_ne_meta.symm]
  exact h.collectionsIs

/-- The two copies that a commit at `now` makes are made: of the state, and of its stamped copy. -/
def CommitCopies (cp : Copier) (now : DateTime) (s : State) : Prop :=
  cp.fails (.dict s) = none ∧ ∀ t, stampState now s = .ok t → cp.fails (.dict t) = none

theorem CommitCopies.total (now : DateTime) (s : State) : CommitCopies .total now s :=
  ⟨rfl, fun _ _ => rfl⟩

/-- **On a state of the right shape only the copies and the checksum can fail.** -/
theorem prepareForCommit_eq {rt : Runtime} {cp : Copier} {now : DateTime} {s : State}
    {fields collections : PyDict} (h : StateShape false s fields collections) :
    prepareForCommit rt cp now s = (copyDict cp (.dict s) >>= fun _ =>
      computeChecksum rt cp (stamped now s fields)).map (prepared now s fields) := by
  have h1 : validateStateShape false (.dict s) = .ok () :=
    validateStateShape_ok.mpr ⟨s, fields, collections, rfl, h⟩
  have h2 (d : Str) : validateStateShape true (.dict (prepared now s fields d)) = .ok () :=
    validateStateShape_ok.mpr ⟨_, _, _, rfl, h.prepared now d⟩
  unfold prepareForCommit
  rw [h1]
  show (copyDict cp (.dict s) >>= fun copied => stampState now copied >>= fun t =>
    computeChecksum rt cp t >>= fun d => setChecksum t (.str d) >>= fun p =>
      validateStateShape true (.dict p) >>= fun _ => pure p) = _
  cases hc : copyDict cp (.dict s) with
  | error e => rfl
  | ok copied =>
    obtain rfl : s = copied := PyVal.dict.inj (copyDict_ok.mp hc).2
    show (stampState now s >>= fun t => computeChecksum rt cp t >>= fun d =>
      setChecksum t (.str d) >>= fun p =>
        validateStateShape true (.dict p) >>= fun _ => pure p) =
      (computeChecksum rt cp (stamped now s fields)).map (prepared now s fields)
    rw [stampState_of_meta h.metaIs]
    show (computeChecksum rt cp (stamped now s fields) >>= fun d =>
      setChecksum (stamped now s fields) (.str d) >>= fun p =>
        validateStateShape true (.dict p) >>= fun _ => pure p) = _
    cases computeChecksum rt cp (stamped now s fields) with
    | error e => rfl
    | ok d =>
      show (setChecksum (stamped now s fields) (.str d) >>= fun p =>
        validateStateShape true (.dict p) >>= fun _ => pure p) = _
      rw [setChecksum_of_meta (stamped_meta now s fields)]
      show (validateStateShape true (.dict (prepared now s fields d)) >>= fun _ => _) = _
      rw [h2]
      rfl

theorem commitCopies_iff {cp : Copier} {now : DateTime} {s : State} {fields : PyDict}
    (h : Dict.get s META = some (.dict fields)) : CommitCopies cp now s ↔
      cp.fails (.dict s) = none ∧ cp.fails (.dict (stamped now s fields)) = none := by
  simp only [CommitCopies, stampState_of_meta h, Except.ok.injEq, forall_eq']

/-- What a commit does with a state that can be copied, -/
theorem prepareForCommit_copied {rt : Runtime} {cp : Copier} {now : DateTime} {s : State}
    {fields collections : PyDict} (h : StateShape false s fields collections)
    (hc : CommitCopies cp now s) : prepareForCommit rt cp now s =
      (computeChecksum rt .total (stamped now s fields)).map (prepared now s fields) := by
  obtain ⟨hs, ht⟩ := (commitCopies_iff h.metaIs).mp hc
  rw [prepareForCommit_eq h, copyDict_ok.mpr ⟨hs, rfl⟩, ← computeChecksum_copied rt ht]
  rfl

/-- and with one that cannot. -/
theorem prepareForCommit_notCopied {rt : Runtime} {cp : Copier} {now : DateTime} {s : State}
    {fields collections : PyDict} (h : StateShape false s fields collections)
    (hc : ¬ CommitCopies cp now s) :
    ∃ e v, prepareForCommit rt cp now s = .error e ∧ cp.fails v = some e := by
  rw [commitCopies_iff h.metaIs] at hc
  rw [prepareForCommit_eq h]
  cases hs : cp.fails (.dict s) with
  | some e =>
    rw [copyDict_error.mpr hs]
    exact ⟨e, _, rfl, hs⟩
  | none =>
    rw [copyDict_ok.mpr ⟨hs, rfl⟩]
    cases ht : cp.fails (.dict (stamped now s fields)) with
    | some e =>
      refine ⟨e, _, ?_, ht⟩
      show (computeChecksum rt cp (stamped now s fields)).map _ = _
      rw [computeChecksum_notCopied rt ht]
      rfl
    | none => exact absurd ⟨hs, ht⟩ hc

theorem prepareForCommit_ok {rt : Runtime} {cp : Copier} {now : DateTime} {s p : State}
    {fields collections : PyDict} (h : StateShape false s fields collections) :
    prepareForCommit rt cp now s = .ok p ↔ CommitCopies cp now s ∧
      ∃ d, computeChecksum rt .total (stamped now s fields) = .ok d ∧ prepared now s fields d = p := by
  by_cases hc : CommitCopies cp now s
  · rw [prepareForCommit_copied h hc, map_ok, and_iff_right hc]
  · obtain ⟨e, v, he, -⟩ := @prepareForCommit_notCopied rt _ _ _ _ _ h hc
    rw [he]
    exact iff_of_false nofun fun hok => hc hok.1

theorem computeChecksum_error {rt : Runtime} {s : State} {fields : PyDict}
    (h : Dict.get s META = some (.dict fields)) {e : PyExc}
    (he : computeChecksum rt .total s = .error e) :
    e.type = .serializationError := by
  rw [computeChecksum_total, setChecksum_of_meta h] at he
  rcases bind_error he with he | ⟨s', hs, he⟩
  · cases he
  · rcases bind_error he with he | ⟨b, -, he⟩
    · exact dumpBytes_error he
    · cases he

/-! ## 3. What a commit preserves -/

/-- One of the keys the storage engine writes. -/
def FixedKey (k : PyKey) : Prop := ∃ s, k = .str s ∧ isAscii s = true ∧ s ≠ TYPE_KEY

theorem fixedKey_of_mem {k : PyKey} (h : k ∈ [META, COLLECTIONS, FORMAT_KEY, VERSION_KEY,
    CREATED_AT, UPDATED_AT, CONTENT_SHA256]) : FixedKey k := by
  have fixed (s : Str) (ha : isAscii s = true) (hs : s ≠ TYPE_KEY) : FixedKey (.str s) :=
    ⟨s, rfl, ha, hs⟩
  simp only [List.mem_cons, List.not_mem_nil, or_false] at h
  obtain rfl | rfl | rfl | rfl | rfl | rfl | rfl := h
  all_goals exact fixed _ (by decide) (by decide)

/-- A property that passes from a dictionary to its values, and to the dictionary in which the
    storage engine has stored one of its own. -/
structure PutClosed (p : PyVal → Prop) : Prop where
  mem : ∀ {d : PyDict} {k : PyKey} {v : PyVal}, p (.dict d) → (k, v) ∈ d → p v
  put : ∀ {d : PyDict} {k : PyKey} {v : PyVal}, p (.dict d) → FixedKey k → p v →
    p (.dict (Dict.put d k v))
  none : p .none
  str : ∀ {s : Str}, isAscii s = true → p (.str s)
  version : p (.int VERSION)
  datetime : ∀ t, p (.datetime t)

namespace PutClosed

variable {p : PyVal → Prop}

theorem get (hp : PutClosed p) {d : PyDict} (hd : p (.dict d)) {k : PyKey} {v : PyVal}
    (h : Dict.get d k = some v) : p v := hp.mem hd (Dict.mem_of_get h)

theorem setDefault (hp : PutClosed p) {d : PyDict} (hd : p (.dict d)) {k : PyKey}
    (hk : FixedKey k) {v : PyVal} (hv : p v) : p (.dict (setDefault d k v)) := by
  unfold JsonDatabase.setDefault
  split
  · exact hd
  · exact hp.put hd hk hv

theorem stampMeta (hp : PutClosed p) {fields : PyDict} (hf : p (.dict fields)) (now : DateTime) :
    p (.dict (stampMeta now fields)) := by
  have format : p (.str FORMAT) := hp.str (by decide)
  refine hp.put (hp.put (hp.setDefault (hp.setDefault (hp.setDefault hf ?_ format) ?_ hp.version) ?_
    (hp.datetime now)) ?_ (hp.datetime now)) ?_ hp.none
  all_goals exact fixedKey_of_mem (by simp)

theorem withChecksum (hp : PutClosed p) {s : State} (hs : p (.dict s)) {fields : PyDict}
    (hm : Dict.get s META = some (.dict fields)) {v : PyVal} (hv : p v) :
    p (.dict (withChecksum s fields v)) :=
  hp.put hs (fixedKey_of_mem (by simp))
    (hp.put (hp.get hs hm) (fixedKey_of_mem (by simp)) hv)

theorem stamped (hp : PutClosed p) {s : State} (hs : p (.dict s)) {fields : PyDict}
    (hm : Dict.get s META = some (.dict fields)) (now : DateTime) :
    p (.dict (stamped now s fields)) :=
  hp.put hs (fixedKey_of_mem (by simp)) (hp.stampMeta (hp.get hs hm) now)

theorem prepared (hp : PutClosed p) {s : State} (hs : p (.dict s)) {fields : PyDict}
    (hm : Dict.get s META = some (.dict fields)) (now : DateTime) {d : Str}
    (hd : isAscii d = true) : p (.dict (prepared now s fields d)) :=
  hp.withChecksum (hp.stamped hs hm now) (stamped_meta now s fields) (hp.str hd)

end PutClosed

/-- A property of everything inside a value is such a property if its local form is. -/
theorem putClosed_everywhere {p : PyVal → Prop} (hput : ∀ {d : PyDict} {k : PyKey} {v : PyVal},
    p (.dict d) → FixedKey k → p (.dict (Dict.put d k v))) (hnone : p .none)
    (hstr : ∀ {s : Str}, isAscii s = true → p (.str s)) (hversion : p (.int VERSION))
    (hdatetime : ∀ t, p (.datetime t)) : PutClosed (everywhere p) where
  mem h hm := (everywhere_dict.mp h).2 _ _ hm
  put h hk hv := everywhere_dict.mpr
    ⟨hput (everywhere_dict.mp h).1 hk, Dict.forall_put (everywhere_dict.mp h).2 hv⟩
  none := hnone
  str := hstr
  version := hversion
  datetime := hdatetime

theorem putClosed_wf : PutClosed wf :=
  putClosed_everywhere (fun h _ => Dict.distinct_put _ _ h) trivial (fun _ => trivial) trivial
    fun _ => trivial

theorem putClosed_unreserved : PutClosed unreserved := by
  refine putClosed_everywhere (fun {d k v} h hk => ?_) trivial (fun _ => trivial) trivial
    fun _ => trivial
  obtain ⟨s, rfl, -, hs⟩ := hk
  show Dict.contains (Dict.put d (.str s) v) (.str TYPE_KEY) = false
  rw [Dict.contains, Dict.get_put_ne _ fun e => hs (PyKey.str.inj e)]
  exact h

theorem putClosed_encodable (rt : Runtime) : PutClosed (Encodable rt) where
  mem h hm := (encodable_dict.mp h _ _ hm).2
  put h hk hv := encodable_dict.mpr (Dict.forall_put (encodable_dict.mp h)
    ⟨hk.imp fun _ h => h.1, hv⟩)
  none := ⟨_, rfl⟩
  str _ := ⟨_, rfl⟩
  version := ⟨_, rfl⟩
  datetime _ := ⟨_, rfl⟩

/-! ## 4. Every reachable state can be prepared -/

theorem Rep.shape {rt : Runtime} {base s : State} (hb : Loaded rt base) (h : Rep rt base s) :
    ∃ fields collections, StateShape false s fields collections ∧
      GoodCollections rt collections := by
  obtain ⟨fields, _, hs⟩ := hb.shape
  obtain ⟨c, hc, hg⟩ := h.collections
  refine ⟨fields, c, ⟨?_, hs.metaShape, nofun, hc, fun entry he => ?_⟩, hg⟩
  · rw [h.frame collections_ne_meta.symm]
    exact hs.metaIs
  · obtain ⟨docs, hv, hd⟩ := hg.good entry.1 entry.2 he
    exact ⟨hg.valid entry.1 entry.2 he, docs, hv, fun doc hdoc => (hd.good doc.1 doc.2 hdoc).shape⟩

/-- What every reachable state is like. -/
structure Represents (base s : State) : Prop where
  metaUnchanged : Dict.get s META = Dict.get base META
  collections : ∃ c, Dict.get s COLLECTIONS = some (.dict c) ∧ ∀ name v, (name, v) ∈ c →
    validateCollectionName name.toVal = .ok () ∧ ∃ docs, v = .dict docs ∧
      ∀ key document, (key, document) ∈ docs → ∃ id fields, key = .str id ∧ id ≠ [] ∧
        document = .dict fields ∧ Dict.get fields ID = some (.str id) ∧ unreserved document

theorem Rep.represents {rt : Runtime} {base s : State} (h : Rep rt base s) :
    Represents base s := by
  obtain ⟨c, hc, hg⟩ := h.collections
  refine ⟨h.frame collections_ne_meta.symm, c, hc, fun name v hv => ⟨hg.valid name v hv, ?_⟩⟩
  obtain ⟨docs, rfl, hd⟩ := hg.good name v hv
  refine ⟨docs, rfl, fun key document hm => ?_⟩
  obtain ⟨⟨id, fields, e, hid, hget⟩, -, hr, -⟩ := hd.good key document hm
  cases e
  exact ⟨id, fields, rfl, hid, rfl, hget, hr⟩

theorem GoodCollections.wf {rt : Runtime} {c : PyDict} (h : GoodCollections rt c) :
    (PyVal.dict c).wf := by
  refine everywhere_dict.mpr ⟨h.distinct, fun name v hv => ?_⟩
  obtain ⟨docs, rfl, hd⟩ := h.good name v hv
  exact everywhere_dict.mpr ⟨hd.distinct, fun id document hm => (hd.good id document hm).wf⟩

theorem Rep.wf {rt : Runtime} {base s : State} (hb : Loaded rt base) (h : Rep rt base s) :
    (PyVal.dict s).wf := by
  obtain ⟨c, rfl, hg⟩ := h
  exact putClosed_wf.put hb.decoded.wf (fixedKey_of_mem (by simp)) hg.wf

end JsonDatabase
