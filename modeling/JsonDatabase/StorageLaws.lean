/-
  File:      JsonDatabase/StorageLaws.lean
  Subject:   What reading and writing a file amount to.

  * `dumpBytes_ok`, `dumpBytes_error` -- a value is written iff it is `writable`, and the only
    exception is `SerializationError`;
  * `parseBytes_textBytes`, `textBytes_injective` -- the bytes of a canonical form are read back
    as that form;
  * `validateStateShape_ok`, `loadBytes_ok`, `prepareForCommit_ok` -- the successful runs, spelled
    out.
-/
import JsonDatabase.Storage
import JsonDatabase.SerializerLaws

namespace JsonDatabase

open PyVal hiding none

/-! ## 1. Bytes -/

/-- The bytes of a canonical form: its text, a newline, in UTF-8. -/
def textBytes (rt : Runtime) (σ : Style) (s : Json) : Bytes :=
  (utf8Encode (Json.render rt.floats false σ 0 s ++ [0x0A])).getD []

theorem scalarOnly_text (rt : Runtime) (σ : Style) (s : Json) :
    scalarOnly (Json.render rt.floats false σ 0 s ++ [0x0A]) = s.scalar := by
  rw [scalarOnly_append, Json.scalarOnly_render]
  exact Bool.and_true _

theorem utf8Encode_text {rt : Runtime} {σ : Style} {s : Json} (hs : s.scalar = true) :
    utf8Encode (Json.render rt.floats false σ 0 s ++ [0x0A]) = some (textBytes rt σ s) := by
  have h := utf8Encode_isSome (Json.render rt.floats false σ 0 s ++ [0x0A])
  rw [scalarOnly_text, hs] at h
  obtain ⟨b, hb⟩ := Option.isSome_iff_exists.mp h
  rw [textBytes, hb]
  rfl

/-- **A value is written iff its encoding holds no surrogate and no over-long integer.** -/
theorem dumpBytes_ok {rt : Runtime} {σ : Style} {v : PyVal} {b : Bytes} :
    dumpBytes rt σ v = .ok b ↔ ∃ e, encode rt v = .ok e ∧ e.dumpable = true ∧ e.scalar = true ∧
      b = textBytes rt σ (Json.sortKeys e) := by
  rw [dumpBytes, Except.handle_ok, bind_ok]
  refine exists_congr fun e => and_congr_right fun _ => ?_
  rw [bind_ok, jsonDumps, Json.dumps]
  constructor
  · intro h
    obtain ⟨t, ht, hb⟩ := h
    by_cases hd : e.dumpable = true
    · rw [if_pos hd] at ht
      cases ht
      have hs : (Json.sortKeys e).scalar = true := by
        rw [← scalarOnly_text rt σ, ← utf8Encode_isSome]
        revert hb
        unfold encodeUtf8
        cases utf8Encode (Json.render rt.floats false σ 0 (Json.sortKeys e) ++ [0x0A]) with
        | some b => exact fun _ => rfl
        | none => exact fun h => by cases h
      rw [encodeUtf8, utf8Encode_text hs] at hb
      cases hb
      exact ⟨hd, by rw [← Json.scalar_sortKeys, hs], rfl⟩
    · rw [if_neg hd] at ht
      cases ht
  · intro h
    obtain ⟨hd, hs, rfl⟩ := h
    have hs' : (Json.sortKeys e).scalar = true := by rw [Json.scalar_sortKeys, hs]
    rw [if_pos hd]
    exact ⟨_, rfl, by rw [encodeUtf8, utf8Encode_text hs']⟩

theorem encode_error {rt : Runtime} {v : PyVal} {e : PyExc} (h : encode rt v = .error e) :
    e.type = .serializationError ∨ e.type = .valueError := by
  induction v using PyVal.induct generalizing e with
  | list xs ih =>
    rw [encode, encodeList_eq] at h
    obtain ⟨x, hx, h⟩ := mapM_error (map_error h)
    exact ih x hx h
  | tuple xs ih =>
    rw [encode, encodeList_eq] at h
    obtain ⟨x, hx, h⟩ := mapM_error (map_error h)
    exact ih x hx h
  | set xs ih =>
    rw [encode, encodeList_eq] at h
    rcases bind_error h with h | ⟨es, -, h⟩
    · obtain ⟨x, hx, h⟩ := mapM_error h
      exact ih x hx h
    · rcases bind_error h with h | ⟨items, -, h⟩
      · obtain ⟨x, -, h⟩ := mapM_error (map_error h)
        unfold itemKey at h
        split at h
        · cases h
        · cases h
          exact Or.inr rfl
      · cases h
  | dict kvs ih =>
    rw [encode, encodeEntries_eq] at h
    obtain ⟨⟨k, v⟩, hx, h⟩ := mapM_error (map_error h)
    cases k with
    | str k => exact ih (.str k) v hx (map_error h)
    | other t i =>
      cases h
      exact Or.inl rfl
  | float f =>
    rw [encode] at h
    split at h
    · cases h
    · cases h
      exact Or.inl rfl
  | decimal d =>
    cases d with
    | finite x => cases h
    | inf _ =>
      cases h
      exact Or.inl rfl
    | nan _ _ =>
      cases h
      exact Or.inl rfl
    | snan _ _ =>
      cases h
      exact Or.inl rfl
  | frozenset xs ih =>
    cases h
    exact Or.inl rfl
  | other t i =>
    cases h
    exact Or.inl rfl
  | none => cases h
  | bool b => cases h
  | int i => cases h
  | str s => cases h
  | datetime d => cases h
  | date d => cases h
  | bytes b => cases h

/-- **Writing raises nothing but `SerializationError`.** -/
theorem dumpBytes_stored (rt : Runtime) (σ : Style) (v : PyVal) :
    dumpBytes rt σ (stored v) = dumpBytes rt σ v := by
  rw [dumpBytes, dumpBytes, encode_stored]

theorem dumpBytes_error {rt : Runtime} {σ : Style} {v : PyVal} {e : PyExc}
    (h : dumpBytes rt σ v = .error e) : e.type = .serializationError := by
  unfold dumpBytes Except.handle at h
  split at h
  · cases h
  · rename_i e' he
    split at h
    · cases h
      rfl
    · rename_i hn
      cases h
      rcases bind_error he with he | ⟨j, -, he⟩
      · rcases encode_error he with h | h
        · exact h
        · rw [h] at hn
          exact absurd rfl hn
      · rcases bind_error he with he | ⟨t, -, he⟩
        · unfold jsonDumps at he
          split at he
          · cases he
          · cases he
            exact absurd rfl hn
        · unfold encodeUtf8 at he
          split at he
          · cases he
          · cases he
            exact absurd rfl hn

/-- **The bytes of a canonical form are parsed to that form**, in any style. -/
theorem parseBytes_textBytes {rt : Runtime} {σ : Style} {s : Json} (hd : s.distinct)
    (hj : s.dumpable = true) (hs : s.scalar = true) :
    parseBytes rt (textBytes rt σ s) = .ok s := by
  have hw : ∀ c ∈ ([0x0A] : Str), isWs c = true := fun c hc => by
    rw [List.mem_singleton.mp hc]
    rfl
  have hl := Json.loads_render rt.floats false σ hd hj (fun h => by cases h) hw
  rw [parseBytes, utf8Decode_encode (utf8Encode_text hs)]
  simp only [hl]

/-- **Distinct canonical forms have distinct bytes.** -/
theorem textBytes_injective {rt : Runtime} {σ : Style} {s s' : Json} (hd : s.distinct)
    (hj : s.dumpable = true) (hs : s.scalar = true) (hd' : s'.distinct) (hj' : s'.dumpable = true)
    (hs' : s'.scalar = true) (h : textBytes rt σ s = textBytes rt σ s') : s = s' := by
  have h1 := @parseBytes_textBytes rt σ s hd hj hs
  rw [h, parseBytes_textBytes hd' hj' hs'] at h1
  exact (Except.ok.inj h1).symm

theorem textBytes_ne_nil {rt : Runtime} {σ : Style} {s : Json} (hs : s.scalar = true) :
    textBytes rt σ s ≠ [] := by
  intro h
  have hd := utf8Decode_encode (@utf8Encode_text rt σ s hs)
  rw [h] at hd
  have := Option.some.inj hd
  simp at this

/-! ## 2. The shape of a state -/

theorem eqRaises_str (v : PyVal) (s : Str) : eqRaises v (.str s) = false := by
  cases v <;> simp [eqRaises, numRaises, num]

theorem pyEq_str {v : PyVal} {s : Str} : pyEq v (.str s) = true ↔ v = .str s := by
  cases v <;> simp [pyEq, numEq, num, members]

theorem eqVals_str {v : PyVal} {s : Str} : eqVals v (.str s) = .ok true ↔ v = .str s := by
  rw [eqVals, eqRaises_str, if_neg Bool.false_ne_true, Except.ok.injEq, pyEq_str]

theorem raiseUnlessEq_ok {a b : PyVal} {e : PyExc} :
    raiseUnlessEq a b e = .ok () ↔ eqVals a b = .ok true := by
  unfold raiseUnlessEq
  split
  · rename_i r h
    rw [raiseIf_ok, h]
    cases r <;> simp
  · rename_i t h
    rw [h]
    simp

theorem raiseUnlessEq_str_error {v : PyVal} {s : Str} {e e' : PyExc}
    (h : raiseUnlessEq v (.str s) e = .error e') : e' = e := by
  rw [raiseUnlessEq, eqVals, eqRaises_str, if_neg Bool.false_ne_true] at h
  exact (raiseIf_error h).2

/-- A document under its identifier. -/
def DocShape (entry : PyKey × PyVal) : Prop :=
  ∃ id fields, entry = (.str id, .dict fields) ∧ id ≠ [] ∧ Dict.get fields ID = some (.str id)

/-- A collection under a valid name. -/
def CollShape (entry : PyKey × PyVal) : Prop :=
  validateCollectionName entry.1.toVal = .ok () ∧
    ∃ docs, entry.2 = .dict docs ∧ ∀ doc ∈ docs, DocShape doc

/-- The meta block names this format and a version equal to 1. -/
structure MetaShape (fields : PyDict) : Prop where
  format : Dict.get fields FORMAT_KEY = some (.str FORMAT)
  version : eqVals ((Dict.get fields VERSION_KEY).getD .none) (.int VERSION) = .ok true

theorem validateDocumentShape_ok {name : PyKey} {entry : PyKey × PyVal} :
    validateDocumentShape name entry = .ok () ↔ DocShape entry := by
  obtain ⟨k, v⟩ := entry
  unfold validateDocumentShape DocShape
  cases k with
  | other t i => simp
  | str id =>
    rw [bind_unit_ok, raiseIf_ok, decide_eq_false_iff_not]
    constructor
    · intro h
      obtain ⟨hid, h⟩ := h
      cases v with
      | dict fields =>
        have h := eqVals_str.mp (raiseUnlessEq_ok.mp h)
        refine ⟨id, fields, rfl, hid, ?_⟩
        cases hg : Dict.get fields ID with
        | none =>
          rw [hg] at h
          cases h
        | some w =>
          rw [hg] at h
          exact congrArg some h
      | _ => cases h
    · intro h
      obtain ⟨id', fields, e, hid, hg⟩ := h
      cases e
      refine ⟨hid, raiseUnlessEq_ok.mpr (eqVals_str.mpr ?_)⟩
      rw [hg]
      rfl

theorem validateStoredName_ok {name : PyKey} :
    validateStoredName name = .ok () ↔ validateCollectionName name.toVal = .ok () :=
  Except.handle_ok

theorem validateCollectionShape_ok {entry : PyKey × PyVal} :
    validateCollectionShape entry = .ok () ↔ CollShape entry := by
  obtain ⟨k, v⟩ := entry
  unfold validateCollectionShape CollShape
  rw [bind_ok]
  constructor
  · intro h
    obtain ⟨_, hn, h⟩ := h
    refine ⟨validateStoredName_ok.mp hn, ?_⟩
    cases v with
    | dict docs =>
      exact ⟨docs, rfl, fun d hd => validateDocumentShape_ok.mp (forEach_ok.mp h d hd)⟩
    | _ => cases h
  · intro h
    obtain ⟨hn, docs, e, hd⟩ := h
    cases e
    exact ⟨(), validateStoredName_ok.mpr hn,
      forEach_ok.mpr fun d hm => validateDocumentShape_ok.mpr (hd d hm)⟩

/-- The shape of a state, with or without its checksum. -/
structure StateShape (requireChecksum : Bool) (s : State) (fields collections : PyDict) :
    Prop where
  metaIs : Dict.get s META = some (.dict fields)
  metaShape : MetaShape fields
  checksum : requireChecksum = true → ∃ digest, Dict.get fields CONTENT_SHA256 = some (.str digest)
  collectionsIs : Dict.get s COLLECTIONS = some (.dict collections)
  shapes : ∀ entry ∈ collections, CollShape entry

theorem getD_none_eq_str {o : Option PyVal} {s : Str} : o.getD .none = .str s ↔ o = some (.str s) := by
  cases o with
  | none => simp
  | some v => simp

theorem isStr_iff {o : Option PyVal} : isStr o = true ↔ ∃ s, o = some (.str s) := by
  unfold isStr
  split
  · simp
  · rename_i h
    simp only [Bool.false_eq_true, false_iff, not_exists]
    exact fun s e => h s e

/-- **The shape check returns on exactly the states of that shape.** -/
theorem validateStateShape_ok {r : Bool} {v : PyVal} : validateStateShape r v = .ok () ↔
    ∃ s fields collections, v = .dict s ∧ StateShape r s fields collections := by
  constructor
  · intro h
    unfold validateStateShape at h
    split at h
    · rename_i s
      split at h
      · rename_i fields hm
        obtain ⟨_, hf, h⟩ := bind_ok.mp h
        obtain ⟨_, hv, h⟩ := bind_ok.mp h
        obtain ⟨_, hc, h⟩ := bind_ok.mp h
        split at h
        · rename_i collections hcs
          refine ⟨s, fields, collections, rfl, hm, ⟨?_, raiseUnlessEq_ok.mp hv⟩, ?_, hcs, ?_⟩
          · exact getD_none_eq_str.mp (eqVals_str.mp (raiseUnlessEq_ok.mp hf))
          · intro hr
            have hc := raiseIf_ok.mp hc
            rw [hr, Bool.true_and, Bool.not_eq_false'] at hc
            exact isStr_iff.mp hc
          · exact fun e he => validateCollectionShape_ok.mp (forEach_ok.mp h e he)
        · cases h
      · cases h
    · cases h
  · intro h
    obtain ⟨s, fields, collections, rfl, hm, ⟨hf, hv⟩, hc, hcs, hs⟩ := h
    unfold validateStateShape
    simp only [hm, hcs]
    refine bind_ok.mpr ⟨(), raiseUnlessEq_ok.mpr (eqVals_str.mpr (getD_none_eq_str.mpr hf)), ?_⟩
    refine bind_ok.mpr ⟨(), raiseUnlessEq_ok.mpr hv, bind_ok.mpr ⟨(), raiseIf_ok.mpr ?_, ?_⟩⟩
    · cases r with
      | false => rfl
      | true => rw [Bool.true_and, isStr_iff.mpr (hc rfl), Bool.not_true]
    · exact forEach_ok.mpr fun e he => validateCollectionShape_ok.mpr (hs e he)

/-- A name that the API accepts is a string that does not start with two underscores and
    matches the pattern. -/
theorem validName_str {v : PyVal} (h : validateCollectionName v = .ok ()) :
    ∃ n, v = .str n ∧ n.take 2 ≠ lit "__" ∧ collectionRe n = true := by
  unfold validateCollectionName at h
  split at h
  · rename_i n
    split at h
    · cases h
    split at h
    · cases h
    rename_i hn
    split at h
    · cases h
    split at h
    · rename_i hre
      exact ⟨n, rfl, hn, hre⟩
    · cases h
  · cases h

theorem ne_typeKey_of_validName {k : PyKey} (h : validateCollectionName k.toVal = .ok ()) :
    ∃ n, k = .str n ∧ n ≠ TYPE_KEY := by
  obtain ⟨n, e, hn, -⟩ := validName_str h
  cases k with
  | str s =>
    cases e
    refine ⟨n, rfl, fun e => hn ?_⟩
    rw [e]
    decide
  | other t i => cases e

/-! ## 3. The checksum -/

theorem asDict_ok {v : PyVal} {d : PyDict} : asDict v = .ok d ↔ v = .dict d := by
  cases v <;> simp [asDict]

/-- The state with `v` in its checksum field. -/
def withChecksum (s : State) (fields : PyDict) (v : PyVal) : State :=
  Dict.put s META (.dict (Dict.put fields CONTENT_SHA256 v))

theorem setChecksum_of_meta {s : State} {fields : PyDict} (h : Dict.get s META = some (.dict fields))
    (v : PyVal) : setChecksum s v = .ok (withChecksum s fields v) := by
  unfold setChecksum
  rw [h]
  rfl

theorem withChecksum_meta (s : State) (fields : PyDict) (v : PyVal) :
    Dict.get (withChecksum s fields v) META = some (.dict (Dict.put fields CONTENT_SHA256 v)) :=
  Dict.get_put_self _ _ _

theorem withChecksum_withChecksum (s : State) (fields : PyDict) (v w : PyVal) :
    withChecksum (withChecksum s fields v) (Dict.put fields CONTENT_SHA256 v) w =
      withChecksum s fields w := by
  simp only [withChecksum, Dict.put_put]

theorem withChecksum_self {s : State} {fields : PyDict} (hm : Dict.get s META = some (.dict fields))
    {v : PyVal} (hv : Dict.get fields CONTENT_SHA256 = some v) : withChecksum s fields v = s := by
  rw [withChecksum, Dict.put_of_get hv, Dict.put_of_get hm]

theorem computeChecksum_total (rt : Runtime) (s : State) : computeChecksum rt .total s = (do
    let canonical ← setChecksum s .none
    let bytes ← dumpBytes rt compact (.dict canonical)
    return rt.sha256 bytes) := rfl

/-- The checksum of a state that can be copied, -/
theorem computeChecksum_copied (rt : Runtime) {cp : Copier} {s : State} (h : cp.fails (.dict s) = none) :
    computeChecksum rt cp s = computeChecksum rt .total s := by
  rw [computeChecksum, copyDict, deepcopy, h]
  rfl

/-- and of one that cannot. -/
theorem computeChecksum_notCopied (rt : Runtime) {cp : Copier} {s : State} {e : PyExc}
    (h : cp.fails (.dict s) = some e) : computeChecksum rt cp s = .error e := by
  rw [computeChecksum, copyDict, deepcopy, h]
  rfl

/-- **What the checksum field holds does not enter the checksum.** -/
theorem computeChecksum_withChecksum (rt : Runtime) {s : State} {fields : PyDict}
    (h : Dict.get s META = some (.dict fields)) (v : PyVal) :
    computeChecksum rt .total (withChecksum s fields v) = computeChecksum rt .total s := by
  rw [computeChecksum_total, computeChecksum_total, setChecksum_of_meta h,
    setChecksum_of_meta (withChecksum_meta s fields v),
    withChecksum_withChecksum]

/-- The bytes the checksum of a state is taken of. -/
def canonicalBytes (rt : Runtime) (s : State) : Except PyExc Bytes := do
  let canonical ← setChecksum s .none
  dumpBytes rt compact (.dict canonical)

theorem computeChecksum_eq (rt : Runtime) (s : State) :
    computeChecksum rt .total s = (canonicalBytes rt s).map rt.sha256 := by
  rw [computeChecksum_total]
  unfold canonicalBytes
  cases setChecksum s .none with
  | error e => rfl
  | ok c =>
    show (dumpBytes rt compact (.dict c) >>= fun b => pure (rt.sha256 b)) =
      (dumpBytes rt compact (.dict c)).map rt.sha256
    cases dumpBytes rt compact (.dict c) <;> rfl

theorem canonicalBytes_ok {rt : Runtime} {s : State} {fields : PyDict}
    (h : Dict.get s META = some (.dict fields)) {b : Bytes} : canonicalBytes rt s = .ok b ↔
      ∃ e, encode rt (.dict (withChecksum s fields .none)) = .ok e ∧ e.dumpable = true ∧
        e.scalar = true ∧ b = textBytes rt compact (Json.sortKeys e) := by
  rw [canonicalBytes, setChecksum_of_meta h]
  exact dumpBytes_ok

/-- **The checksum is the digest of the canonical form with the checksum nulled.** -/
theorem computeChecksum_ok {rt : Runtime} {s : State} {d : Str} :
    computeChecksum rt .total s = .ok d ↔ ∃ b, canonicalBytes rt s = .ok b ∧ rt.sha256 b = d := by
  rw [computeChecksum_eq, map_ok]

theorem verifyChecksum_ok {rt : Runtime} {s : State} {fields : PyDict}
    (h : Dict.get s META = some (.dict fields)) : verifyChecksum rt s = .ok () ↔
      ∃ d, computeChecksum rt .total s = .ok d ∧ Dict.get fields CONTENT_SHA256 = some (.str d) := by
  unfold verifyChecksum
  rw [h]
  simp only [Option.getD_some, bind_ok, asDict_ok, PyVal.dict.injEq, exists_eq_left',
    raiseUnlessEq_ok, eqVals_str, getD_none_eq_str]

/-! ## 4. Loading -/

/-- **A file is accepted** when every stage accepts it. -/
theorem loadBytes_ok {rt : Runtime} {raw : Bytes} {s : State} : loadBytes rt raw = .ok s ↔
    raw ≠ [] ∧ ∃ parsed, parseBytes rt raw = .ok parsed ∧
      validateRawDocumentFields parsed = .ok () ∧ decode rt parsed = .ok (.dict s) ∧
      validateStateShape true (.dict s) = .ok () ∧ verifyChecksum rt s = .ok () := by
  unfold loadBytes
  rw [bind_unit_ok, raiseIf_ok, decide_eq_false_iff_not, bind_ok]
  refine and_congr_right fun _ => exists_congr fun j => and_congr_right fun _ => ?_
  rw [bind_unit_ok, bind_ok]
  refine and_congr_right fun _ => ?_
  constructor
  · intro h
    obtain ⟨v, hv, h⟩ := h
    obtain ⟨hs, h⟩ := bind_unit_ok.mp h
    obtain ⟨s', hd, h⟩ := bind_ok.mp h
    obtain ⟨hc, h⟩ := bind_unit_ok.mp h
    obtain rfl : s' = s := Except.ok.inj h
    cases asDict_ok.mp hd
    exact ⟨Except.handle_ok.mp hv, hs, hc⟩
  · intro h
    obtain ⟨hv, hs, hc⟩ := h
    exact ⟨_, Except.handle_ok.mpr hv, bind_unit_ok.mpr ⟨hs, bind_ok.mpr
      ⟨s, rfl, bind_unit_ok.mpr ⟨hc, rfl⟩⟩⟩⟩

theorem parseBytes_distinct {rt : Runtime} {raw : Bytes} {j : Json}
    (h : parseBytes rt raw = .ok j) : j.distinct := by
  unfold parseBytes at h
  split at h
  · cases h
  · split at h
    · rename_i hl
      cases h
      exact distinct_loads hl
    · cases h
    · cases h
    · cases h

/-- What is parsed has no character in two halves. -/
theorem parseBytes_unsplit {rt : Runtime} {raw : Bytes} {j : Json}
    (h : parseBytes rt raw = .ok j) : j.unsplit := by
  unfold parseBytes at h
  split at h
  · cases h
  · rename_i ht
    split at h
    · rename_i hl
      cases h
      exact unsplit_loads (scalarOnly_utf8Decode ht) hl
    · cases h
    · cases h
    · cases h

end JsonDatabase
