/-
  File:      JsonDatabase/Rewritten.lean
  Subject:   Files that are written anew: by hand, by `dump`, by the next commit.

  The checksum is of the canonical form, so that the text of a file is free in all that the
  canonical form leaves out.

  * `decode_of_sortKeys`, `rawValueOk_sortKeys` -- the reader does not see the order of keys, also
    when it refuses;
  * `rearranged_file` -- a file with other spaces, escapes and orders of keys is the same file;
  * `serializerLoads`, `dumps_exact` -- `JsonSerializer.loads` on what `dumps` wrote;
  * `always_canonical` -- in every interleaving the file is what `dump` prints of it.
-/
import JsonDatabase.Healthy

namespace JsonDatabase

open PyVal hiding none

/-! ## 1. The order of keys, and refusals -/

/-- An envelope whose value has sorted keys is read like the one it was made of. -/
theorem decodeTagged_of_sortKeys {rt : Runtime} {tag raw : Option Json}
    {members members' : Except PyExc (List PyVal)} {v : PyVal}
    (hm : ∀ es xs, raw = some (.arr es) → members' = .ok xs → members = .ok xs)
    (h : decodeTagged rt (tag.map Json.sortKeys) (raw.map Json.sortKeys) members' = .ok v) :
    decodeTagged rt tag raw members = .ok v := by
  cases tag with
  | none => cases h
  | some t =>
    cases t with
    | str t =>
      cases raw with
      | none => exact h
      | some r =>
        cases r with
        | arr es =>
          by_cases ht : t = lit "set"
          · subst ht
            obtain ⟨xs, hx, rfl⟩ := map_ok.mp h
            exact map_ok.mpr ⟨xs, hm es xs rfl hx, rfl⟩
          · unfold decodeTagged at h
            simp only [Option.map_some, Json.sortKeys, if_neg ht] at h
            repeat' split at h
            all_goals cases h
        | _ => exact h
    | _ => cases h

/-- **The decoder refuses with unsorted keys what it refuses with sorted keys.** -/
theorem decode_of_sortKeys {rt : Runtime} {j : Json} (hj : j.distinct) {w : PyVal}
    (h : decode rt (Json.sortKeys j) = .ok w) : ∃ v, decode rt j = .ok v ∧ Same v w := by
  induction j using Json.induct generalizing w with
  | arr xs ih =>
    rw [Json.sortKeys_arr] at h
    obtain ⟨ws, hws, rfl⟩ := decode_arr_ok.mp h
    obtain ⟨vs, hds, hss⟩ := forall₂_choose (List.forall₂_map_left_iff.mp hws) fun x hx w _ hxw => by
      obtain ⟨v, hd, hs⟩ := ih x hx (Json.distinct_arr.mp hj x hx) hxw
      exact ⟨v, hd, hs.symm⟩
    exact ⟨.list vs, decode_arr_ok.mpr ⟨vs, hds, rfl⟩, (same_list hss).symm⟩
  | obj kvs ih =>
    obtain ⟨hd, hj⟩ := Json.distinct_obj.mp hj
    have hget := Json.get_sortKeys_obj hd (Json.sortKeys_obj kvs)
    have hp := List.perm_insertionSort Json.KeyLe (kvs.map fun kv => (kv.1, Json.sortKeys kv.2))
    rw [Json.sortKeys_obj] at h
    generalize (kvs.map fun kv => (kv.1, Json.sortKeys kv.2)).insertionSort Json.KeyLe = s
      at hget hp h
    have hcs : Dict.contains s TYPE_KEY = Dict.contains kvs TYPE_KEY := by
      rw [Dict.contains, hget, Option.isSome_map, Dict.contains]
    cases hc : Dict.contains kvs TYPE_KEY with
    | true =>
      rw [decode, hcs, hc, if_pos rfl, hget, hget] at h
      refine ⟨w, ?_, .refl w⟩
      rw [decode, hc, if_pos rfl]
      refine decodeTagged_of_sortKeys (fun es xs hraw hm => ?_) h
      have hraw' : Dict.get s VALUE_KEY = some (.arr (es.map Json.sortKeys)) := by
        rw [hget, hraw, Option.map_some, Json.sortKeys_arr]
      rw [decodeSetField_of_get rt hraw', decodeMembers_iff] at hm
      obtain ⟨u, hu, hx⟩ := hm
      rw [← Json.sortKeys_arr] at hu
      have hm := Dict.mem_of_get hraw
      obtain ⟨u', hu', hs⟩ := ih VALUE_KEY _ hm (hj VALUE_KEY _ hm) hu
      rw [decodeSetField_of_get rt hraw, decodeMembers_iff]
      exact ⟨u', hu', coerce_same hs.symm hx⟩
    | false =>
      obtain ⟨ws, hws, rfl⟩ := (decode_obj_ok (hcs.trans hc)).mp h
      obtain ⟨ws', hws', hp'⟩ := forall₂_perm hws hp
      obtain ⟨vs, hds, hss⟩ := forall₂_choose (T := SameEntry) (S := EntryDecodes rt)
        (List.forall₂_map_left_iff.mp hws') fun je hje kw _ h => by
          obtain ⟨v, hd, hs⟩ := ih je.1 je.2 hje (hj je.1 je.2 hje) h.2
          exact ⟨(kw.1, v), ⟨h.1, hd⟩, rfl, hs.symm⟩
      exact ⟨.dict vs, (decode_obj_ok hc).mpr ⟨vs, hds, rfl⟩,
        ((same_entries hss).symm).trans (.dictOrder hp'.symm)⟩
  | _ => exact ⟨w, h, .refl w⟩

/-! ## 2. The order of keys and the checks -/

/-- The entries of a sorted object are those of the object, each with its value sorted. -/
theorem mem_sorted_entries {kvs : Dict Str Json} {kv : Str × Json} :
    kv ∈ (kvs.map fun kv => (kv.1, Json.sortKeys kv.2)).insertionSort Json.KeyLe ↔
      ∃ v, (kv.1, v) ∈ kvs ∧ Json.sortKeys v = kv.2 := by
  rw [List.mem_insertionSort, List.mem_map]
  constructor
  · intro h
    obtain ⟨⟨k, v⟩, hm, rfl⟩ := h
    exact ⟨v, hm, rfl⟩
  · intro h
    obtain ⟨v, hm, hv⟩ := h
    exact ⟨(kv.1, v), hm, Prod.ext rfl hv⟩

theorem contains_sorted_entries (kvs : Dict Str Json) (k : Str) :
    Dict.contains ((kvs.map fun kv => (kv.1, Json.sortKeys kv.2)).insertionSort Json.KeyLe) k =
      Dict.contains kvs k := by
  have hk := (List.perm_insertionSort Json.KeyLe
    (kvs.map fun kv => (kv.1, Json.sortKeys kv.2))).map Prod.fst
  have hk : (Dict.keys ((kvs.map fun kv => (kv.1, Json.sortKeys kv.2)).insertionSort
      Json.KeyLe)).Perm (Dict.keys kvs) := by
    rw [← Dict.keys_map Json.sortKeys kvs]
    exact hk
  rw [Bool.eq_iff_iff, Dict.contains, Dict.contains, Dict.get_isSome_iff, Dict.get_isSome_iff,
    hk.mem_iff]

theorem all_keys_sorted (kvs : Dict Str Json) (p : Str → Bool) :
    (Dict.keys ((kvs.map fun kv => (kv.1, Json.sortKeys kv.2)).insertionSort Json.KeyLe)).all p =
      (Dict.keys kvs).all p := by
  rw [Bool.eq_iff_iff, List.all_eq_true, List.all_eq_true]
  have hm (k : Str) : k ∈ Dict.keys ((kvs.map fun kv =>
      (kv.1, Json.sortKeys kv.2)).insertionSort Json.KeyLe) ↔ k ∈ Dict.keys kvs := by
    rw [← Dict.get_isSome_iff, ← Dict.get_isSome_iff, ← Dict.contains, ← Dict.contains,
      contains_sorted_entries]
  simp only [hm]

theorem rawEntriesOk_sorted {kvs : Dict Str Json}
    (h : ∀ k v, (k, v) ∈ kvs → rawValueOk (Json.sortKeys v) = rawValueOk v) :
    rawEntriesOk ((kvs.map fun kv => (kv.1, Json.sortKeys kv.2)).insertionSort Json.KeyLe) =
      rawEntriesOk kvs := by
  rw [Bool.eq_iff_iff, rawEntriesOk_iff, rawEntriesOk_iff]
  constructor
  · intro hs kv hkv
    rw [← h kv.1 kv.2 hkv]
    exact hs (kv.1, Json.sortKeys kv.2) (mem_sorted_entries.mpr ⟨kv.2, hkv, rfl⟩)
  · intro hs kv hkv
    obtain ⟨v, hm, hv⟩ := mem_sorted_entries.mp hkv
    rw [← hv, h kv.1 v hm]
    exact hs _ hm

/-- **The raw scan does not see the order of keys.** -/
theorem rawValueOk_sortKeys (j : Json) : rawValueOk (Json.sortKeys j) = rawValueOk j := by
  induction j using Json.induct with
  | arr xs ih =>
    rw [Json.sortKeys_arr, rawValueOk, rawValueOk, Bool.eq_iff_iff, rawListOk_iff, rawListOk_iff,
      List.forall_mem_map]
    exact forall₂_congr fun x hx => by rw [ih x hx]
  | obj kvs ih =>
    rw [Json.sortKeys_obj, rawValueOk, rawValueOk, contains_sorted_entries, contains_sorted_entries,
      all_keys_sorted, rawEntriesOk_sorted ih]
  | _ => rfl

theorem validateRawDocument_sortKeys {id : Str} {v : Json} (hv : v.distinct) :
    validateRawDocument (id, Json.sortKeys v) = .ok () ↔ validateRawDocument (id, v) = .ok () := by
  cases v with
  | obj kvs =>
    have hget := Json.get_sortKeys_obj (Json.distinct_obj.mp hv).1 (Json.sortKeys_obj kvs) (lit "id")
    have hempty (o : Option Json) : isEmptyStr (o.map Json.sortKeys) = isEmptyStr o := by
      cases o with
      | none => rfl
      | some v => cases v <;> rfl
    rw [Json.sortKeys_obj, validateRawDocument_ok, validateRawDocument_ok, hget, hempty,
      contains_sorted_entries, rawEntriesOk_sorted fun _ v _ => rawValueOk_sortKeys v]
  | arr xs =>
    rw [Json.sortKeys_arr]
    rfl
  | _ => rfl

theorem forEach_sorted {f : Str × Json → Except PyExc Unit} {kvs : Dict Str Json}
    (h : ∀ k v, (k, v) ∈ kvs → (f (k, Json.sortKeys v) = .ok () ↔ f (k, v) = .ok ())) :
    forEach f ((kvs.map fun kv => (kv.1, Json.sortKeys kv.2)).insertionSort Json.KeyLe) = .ok () ↔
      forEach f kvs = .ok () := by
  rw [forEach_ok, forEach_ok]
  constructor
  · intro hs kv hkv
    exact (h kv.1 kv.2 hkv).mp (hs _ (mem_sorted_entries.mpr ⟨kv.2, hkv, rfl⟩))
  · intro hs kv hkv
    obtain ⟨k, x⟩ := kv
    obtain ⟨v, hm, rfl⟩ := mem_sorted_entries.mp hkv
    exact (h k v hm).mpr (hs _ hm)

theorem validateRawCollection_sortKeys {name : Str} {v : Json} (hv : v.distinct) :
    validateRawCollection (name, Json.sortKeys v) = .ok () ↔
      validateRawCollection (name, v) = .ok () := by
  cases v with
  | obj kvs =>
    rw [Json.sortKeys_obj, validateRawCollection, validateRawCollection, bind_unit_ok, bind_unit_ok]
    exact and_congr_right fun _ => forEach_sorted fun k v hm =>
      validateRawDocument_sortKeys ((Json.distinct_obj.mp hv).2 k v hm)
  | arr xs =>
    rw [Json.sortKeys_arr]
    rfl
  | _ => rfl

theorem validateRawDocumentFields_sortKeys {j : Json} (hj : j.distinct) :
    validateRawDocumentFields (Json.sortKeys j) = .ok () ↔ validateRawDocumentFields j = .ok () := by
  cases j with
  | obj kvs =>
    obtain ⟨hd, hj⟩ := Json.distinct_obj.mp hj
    rw [Json.sortKeys_obj, validateRawDocumentFields, validateRawDocumentFields,
      Json.get_sortKeys_obj hd (Json.sortKeys_obj kvs)]
    cases hc : Dict.get kvs (lit "collections") with
    | none => exact Iff.rfl
    | some c =>
      cases c with
      | obj cs =>
        rw [Option.map_some, Json.sortKeys_obj]
        have hcs := (Json.distinct_obj.mp (hj _ _ (Dict.mem_of_get hc))).2
        exact forEach_sorted fun k v hm => validateRawCollection_sortKeys (hcs k v hm)
      | arr xs =>
        rw [Option.map_some, Json.sortKeys_arr]
      | _ => exact Iff.rfl
  | arr xs =>
    rw [Json.sortKeys_arr]
    rfl
  | _ => exact Iff.rfl

/-! ## 3. A file rearranged -/

/-- **The decoder does not see how a value is arranged.** -/
theorem decode_rearranged {rt : Runtime} {j j' : Json} (h : Json.Rearranged j j') (hj : j.distinct)
    {v : PyVal} (hv : decode rt j = .ok v) : ∃ w, decode rt j' = .ok w ∧ Same v w := by
  obtain ⟨u, hu, hs⟩ := decode_sortKeys hj hv
  rw [(Json.rearranged_iff hj).mp h] at hu
  obtain ⟨w, hw, hs'⟩ := decode_of_sortKeys (h.distinct_iff.mp hj) hu
  exact ⟨w, hw, hs.trans hs'.symm⟩

theorem Same.of_loaded {rt : Runtime} {s : State} (h : Loaded rt s) {w : State}
    (hs : Same (.dict s) (.dict w)) : ReadsAs (.dict s) (.dict w) := by
  rw [ReadsAs, h.decoded.stored]
  exact hs

/-- What is the same as a loaded state, and was decoded, passes the checks that the state passed. -/
theorem Loaded.same_checks {rt : Runtime} {s w : State} (h : Loaded rt s)
    (hs : Same (.dict s) (.dict w)) :
    validateStateShape true (.dict w) = .ok () ∧ verifyChecksum rt w = .ok () := by
  have hread := hs.of_loaded h
  obtain ⟨hdec, ⟨fields, collections, hshape⟩, hsum⟩ := h
  obtain ⟨fields', collections', hshape', hfields, -⟩ := hshape.same hdec.wf hread
  obtain ⟨d, hd, hg⟩ := (verifyChecksum_ok hshape.metaIs).mp hsum
  obtain ⟨b, hb, hdb⟩ := computeChecksum_ok.mp hd
  have hfd := (everywhere_dict.mp
    ((everywhere_dict.mp hdec.wf).2 _ _ (Dict.mem_of_get hshape.metaIs))).1
  obtain ⟨v, hv, hsv⟩ := hfields.get_left hfd hg
  rw [hsv.atom rfl] at hv
  exact ⟨validateStateShape_ok.mpr ⟨w, _, _, rfl, { hshape' with checksum := fun _ => ⟨d, hv⟩ }⟩,
    (verifyChecksum_ok hshape'.metaIs).mpr ⟨d, computeChecksum_ok.mpr
      ⟨b, hread.canonicalBytes hdec.wf hshape.metaIs hb, hdb⟩, hv⟩⟩

theorem loadBytes_rearranged {rt : Runtime} {raw raw' : Bytes} {j j' : Json}
    (hp : parseBytes rt raw = .ok j) (hp' : parseBytes rt raw' = .ok j')
    (hr : Json.Rearranged j j') {s : State} (hs : loadBytes rt raw = .ok s) :
    ∃ s', loadBytes rt raw' = .ok s' ∧ Same (.dict s) (.dict s') := by
  have hload := loadBytes_loaded hs
  obtain ⟨-, parsed, hparsed, hraw, hdec, -⟩ := loadBytes_ok.mp hs
  obtain rfl : j = parsed := Except.ok.inj (hp.symm.trans hparsed)
  have hj := parseBytes_distinct hp
  obtain ⟨w, hw, hsame⟩ := decode_rearranged hr hj hdec
  obtain ⟨s', rfl⟩ := hsame.dict_left
  obtain ⟨hshape, hsum⟩ := hload.same_checks hsame
  refine ⟨s', loadBytes_ok.mpr ⟨?_, j', hp', ?_, hw, hshape, hsum⟩, hsame⟩
  · rintro rfl
    cases hp'
  · rw [← validateRawDocumentFields_sortKeys (parseBytes_distinct hp'),
      ← (Json.rearranged_iff hj).mp hr, validateRawDocumentFields_sortKeys hj]
    exact hraw

/-- **A file written by hand with other spaces, escapes or orders of keys** is accepted exactly when
    the original is, and both hold the same state, which either prints in the same bytes. -/
theorem rearranged_file {rt : Runtime} {raw raw' : Bytes} {j j' : Json}
    (hp : parseBytes rt raw = .ok j) (hp' : parseBytes rt raw' = .ok j')
    (hr : Json.Rearranged j j') (t t' : DateTime) :
    ((∃ s, load rt t (.bytes raw) = .ok s) ↔ ∃ s', load rt t' (.bytes raw') = .ok s') ∧
    ∀ s s', load rt t (.bytes raw) = .ok s → load rt t' (.bytes raw') = .ok s' →
      Same (.dict s) (.dict s') ∧ ∀ σ b, dumpBytes rt σ (.dict s) = .ok b ↔
        dumpBytes rt σ (.dict s') = .ok b := by
  refine ⟨⟨fun h => ?_, fun h => ?_⟩, fun s s' hs hs' => ?_⟩
  · obtain ⟨s, hs⟩ := h
    exact (loadBytes_rearranged hp hp' hr hs).imp fun _ h => h.1
  · obtain ⟨s, hs⟩ := h
    exact (loadBytes_rearranged hp' hp hr.symm hs).imp fun _ h => h.1
  · obtain ⟨w, hw, hsame⟩ := loadBytes_rearranged hp hp' hr hs
    obtain rfl : w = s' := Except.ok.inj (hw.symm.trans hs')
    have hwf := (loadBytes_loaded hs).decoded.wf
    exact ⟨hsame, fun σ b => ⟨hsame.dumpBytes hwf, hsame.symm.dumpBytes (hsame.wf_iff.mp hwf)⟩⟩

theorem Rep.prepared_wf {rt : Runtime} {cp : Copier} {base s p : State} (hb : Loaded rt base)
    (h : Rep rt base s)
    {now : DateTime} (hp : prepareForCommit rt cp now s = .ok p) : (PyVal.dict p).wf := by
  obtain ⟨fields, c, hs, -⟩ := h.shape hb
  obtain ⟨-, d, hd, rfl⟩ := (prepareForCommit_ok hs).mp hp
  exact putClosed_wf.prepared (h.wf hb) hs.metaIs now (computeChecksum_ascii hd)

/-- What is committed of an empty database, in the two styles. -/
def emptyDumps : Except PyExc (Bytes × Bytes) := do
  let base ← load interpreter epoch .missing
  let p ← prepareForCommit interpreter .total epoch base
  let b ← dumpBytes interpreter indented (.dict p)
  let b' ← dumpBytes interpreter compact (.dict p)
  return (b, b')

theorem emptyDumps_ne : emptyDumps.toOption.map (fun p => decide (p.1 = p.2)) = some false := by
  decide +kernel

/-- A committed file, and the same without its spaces. -/
theorem minified_file : ∃ raw raw', raw ≠ raw' ∧ ∃ s s', load interpreter epoch (.bytes raw) = .ok s ∧
    load interpreter epoch (.bytes raw') = .ok s' ∧ Same (.dict s) (.dict s') := by
  obtain ⟨d, -, hload⟩ := loaded_empty interpreter epoch
  have hb := load_loaded hload
  have hclean : CleanDocuments (emptyState epoch (.str d)) := by
    intro c name docs id document hget hn
    cases hget
    cases hn
  obtain ⟨p, b, hp, hdump⟩ := hb.rep.committed hb hclean epoch
  obtain ⟨w, hw, -⟩ := hb.rep.load_commit hb hb.tidy.free hp hdump
  obtain ⟨e, he, hj, hs, rfl⟩ := dumpBytes_ok.mp hdump
  have hdist : e.distinct := distinct_encode (hb.rep.prepared_wf hb hp) he
  have hparse (σ : Style) : parseBytes interpreter (textBytes interpreter σ (Json.sortKeys e)) =
      .ok (Json.sortKeys e) :=
    parseBytes_textBytes (Json.distinct_sortKeys hdist) (by rw [Json.dumpable_sortKeys, hj])
      (by rw [Json.scalar_sortKeys, hs])
  obtain ⟨hiff, hsame⟩ := rearranged_file (hparse indented) (hparse compact) (.refl _) epoch epoch
  obtain ⟨w', hw'⟩ := hiff.mp ⟨w, hw⟩
  refine ⟨_, _, fun heq => ?_, w, w', hw, hw', (hsame w w' hw hw').1⟩
  have hne := emptyDumps_ne
  have hdump' : dumpBytes interpreter compact (.dict p) = _ := dumpBytes_ok.mpr ⟨e, he, hj, hs, rfl⟩
  have : emptyDumps = .ok (textBytes interpreter indented (Json.sortKeys e),
      textBytes interpreter compact (Json.sortKeys e)) := by
    unfold emptyDumps
    rw [hload]
    show (do let p ← prepareForCommit _ _ _ _; _) = _
    rw [hp]
    show (do let b ← dumpBytes _ _ _; _) = _
    rw [hdump]
    show (do let b ← dumpBytes _ _ _; _) = _
    rw [hdump']
    rfl
  rw [this, heq] at hne
  simp [Except.toOption] at hne

/-! ## 4. `JsonSerializer.loads` -/

/-- The argument of `loads`. -/
inductive RawText where
  | bytes (b : Bytes)
  | str (s : Str)

def invalidJson : PyExc := ⟨.serializationError, [.text "invalid JSON: ", .system], none, none⟩

/-- `raw.decode("utf-8")` for bytes. -/
def rawText : RawText → Except PyExc Str
  | .bytes b =>
    match utf8Decode b with
    | some text => .ok text
    | none => .error invalidJson
  | .str s => .ok s

/-- `json.loads(raw)`; only a `JSONDecodeError` is translated. -/
def parseText (rt : Runtime) (text : Str) : Except PyExc Json :=
  match loads rt.floats text with
  | .ok parsed => .ok parsed
  | .error .decode => .error invalidJson
  | .error .intTooLong => .error (.builtin .valueError)
  | .error .outOfFuel => .error (.builtin .recursionError)

/-- `JsonSerializer.loads`. -/
def serializerLoads (rt : Runtime) (raw : RawText) : Except PyExc PyVal := do
  let text ← rawText raw
  let parsed ← parseText rt text
  decode rt parsed

theorem parseText_ok {rt : Runtime} {text : Str} {j : Json} :
    parseText rt text = .ok j ↔ loads rt.floats text = .ok j := by
  unfold parseText
  split
  all_goals
    rename_i h
    simp only [h, Except.ok.injEq, reduceCtorEq]

/-- The text of a canonical form is parsed to that form. -/
theorem parseText_render {rt : Runtime} {σ : Style} {s : Json} (hd : s.distinct)
    (hj : s.dumpable = true) :
    parseText rt (Json.render rt.floats false σ 0 s ++ [0x0A]) = .ok s :=
  parseText_ok.mpr (Json.loads_render rt.floats false σ hd hj (fun h => by cases h) fun c hc => by
    rw [List.mem_singleton.mp hc]
    rfl)

/-- **`loads` undoes `dumps`**, in either style and from bytes or text; what is read prints in the
    same bytes again. -/
theorem loads_dumps {rt : Runtime} {v : PyVal} (hw : v.wf) (hr : unreserved v) {σ : Style} {b : Bytes}
    (hb : dumpBytes rt σ v = .ok b) : ∃ w text, utf8Decode b = some text ∧
      serializerLoads rt (.bytes b) = .ok w ∧ serializerLoads rt (.str text) = .ok w ∧ ReadsAs v w ∧
        ∀ τ, dumpBytes rt τ w = dumpBytes rt τ v := by
  obtain ⟨e, he, hj, hs, rfl⟩ := dumpBytes_ok.mp hb
  obtain ⟨w, hd, hsame⟩ := decode_sorted hw hr he
  have hs' : (Json.sortKeys e).scalar = true := by rw [Json.scalar_sortKeys, hs]
  have ht := utf8Decode_encode (@utf8Encode_text rt σ _ hs')
  have hparse : parseText rt (Json.render rt.floats false σ 0 (Json.sortKeys e) ++ [0x0A]) =
      .ok (Json.sortKeys e) :=
    parseText_render (Json.distinct_sortKeys (distinct_encode hw he))
      (by rw [Json.dumpable_sortKeys, hj])
  have htext : rawText (.bytes (textBytes rt σ (Json.sortKeys e))) =
      .ok (Json.render rt.floats false σ 0 (Json.sortKeys e) ++ [0x0A]) := by
    rw [rawText]
    simp only [ht]
  refine ⟨w, _, ht, bind_ok.mpr ⟨_, htext, bind_ok.mpr ⟨_, hparse, hd⟩⟩,
    bind_ok.mpr ⟨_, rfl, bind_ok.mpr ⟨_, hparse, hd⟩⟩, hsame, fun τ => ?_⟩
  have hτ : dumpBytes rt τ (stored v) = .ok (textBytes rt τ (Json.sortKeys e)) := by
    rw [dumpBytes_stored]
    exact dumpBytes_ok.mpr ⟨e, he, hj, hs, rfl⟩
  rw [hsame.dumpBytes (wf_stored hw) hτ, ← dumpBytes_stored, hτ]

/-- **`dumps` keeps exactly what it says it keeps**: `loads` gives the value back with its tuples as
    lists and in some order, that value is written in the same bytes in either style, and two values
    are written in the same bytes iff they are the same up to orders and tuples. -/
theorem dumps_exact {rt : Runtime} {v w : PyVal} (hv : v.wf) (hw : w.wf) (hrv : unreserved v)
    (hrw : unreserved w) {σ : Style} {b b' : Bytes} (hb : dumpBytes rt σ v = .ok b)
    (hb' : dumpBytes rt σ w = .ok b') :
    (∃ u text, utf8Decode b = some text ∧ serializerLoads rt (.bytes b) = .ok u ∧
      serializerLoads rt (.str text) = .ok u ∧ ReadsAs v u ∧
        ∀ τ, dumpBytes rt τ u = dumpBytes rt τ v) ∧
    (b = b' ↔ Same (stored v) (stored w)) := by
  refine ⟨loads_dumps hv hrv hb, ?_⟩
  constructor
  · rintro rfl
    obtain ⟨u, -, -, hu, -, hs, -⟩ := loads_dumps hv hrv hb
    obtain ⟨u', -, -, hu', -, hs', -⟩ := loads_dumps hw hrw hb'
    obtain rfl : u = u' := Except.ok.inj (hu.symm.trans hu')
    exact Same.trans hs hs'.symm
  · intro h
    rw [← dumpBytes_stored] at hb hb'
    exact Except.ok.inj ((h.dumpBytes (wf_stored hv) hb).symm.trans hb')

/-- A tuple and a list. -/
theorem tuple_text : ∃ b, dumpBytes interpreter compact (.tuple [.int 1]) = .ok b ∧
    dumpBytes interpreter compact (.list [.int 1]) = .ok b := by
  have h := (@dumps_exact interpreter (.tuple [.int 1]) (.list [.int 1])
    (everywhere_tuple.mpr ⟨trivial, fun x hx => by cases List.mem_singleton.mp hx; exact trivial⟩)
    (everywhere_list.mpr ⟨trivial, fun x hx => by cases List.mem_singleton.mp hx; exact trivial⟩)
    (everywhere_tuple.mpr ⟨trivial, fun x hx => by cases List.mem_singleton.mp hx; exact trivial⟩)
    (everywhere_list.mpr ⟨trivial, fun x hx => by cases List.mem_singleton.mp hx; exact trivial⟩)
    compact _ _ rfl rfl).2.mpr (by rw [stored_tuple, stored_list]; exact .refl _)
  exact ⟨_, rfl, congrArg Except.ok h.symm⟩

/-! ## 5. The file and its dump -/

/-- `dump --pretty` of this content prints it. -/
def Printed (rt : Runtime) (raw : Bytes) : Prop :=
  ∃ s, loadBytes rt raw = .ok s ∧ dumpBytes rt indented (.dict s) = .ok raw

/-- **What was committed is what `dump` prints of it.** -/
theorem Saved.printed {rt : Runtime} {cp : Copier} {s : State} {data : Bytes} (h : Saved rt cp s data) :
    Printed rt data := by
  obtain ⟨base, now, hb, ht, hc⟩ := h
  obtain ⟨p, hp, hdump⟩ := bind_ok.mp hc
  obtain ⟨w, hw, hs⟩ := ht.rep.load_commit hb ht.free hp hdump
  rw [← dumpBytes_stored] at hdump
  exact ⟨w, hw, Same.dumpBytes hs (Same.wf_iff hs |>.mpr (loadBytes_loaded hw).decoded.wf) hdump⟩

theorem Printed.eq_iff {rt : Runtime} {raw raw' : Bytes} (h : Printed rt raw) (h' : Printed rt raw')
    {s s' : State} (hs : loadBytes rt raw = .ok s) (hs' : loadBytes rt raw' = .ok s') :
    Same (.dict s) (.dict s') ↔ raw = raw' := by
  obtain ⟨u, hu, hd⟩ := h
  obtain rfl : u = s := Except.ok.inj (hu.symm.trans hs)
  obtain ⟨u', hu', hd'⟩ := h'
  obtain rfl : u' = s' := Except.ok.inj (hu'.symm.trans hs')
  constructor
  · intro h
    exact Except.ok.inj ((h.dumpBytes (loadBytes_loaded hs).decoded.wf hd).symm.trans hd')
  · rintro rfl
    obtain rfl : u = u' := Except.ok.inj (hu.symm.trans hu')
    exact .refl _

/-- **In every interleaving the file is in canonical form**: if there was none, or one that `dump`
    would print, then so it is with every content the path has had, whatever the clients wrote
    through the API and where they crashed; and the contents at two moments hold the same state iff
    they are equal byte for byte. -/
theorem always_canonical {rt : Runtime} {cp : Copier} {file : Option Bytes} {s : System}
    (h : System.Runs rt cp (Job.Library rt) (.start file) s)
    (hfile : ∀ raw, file = some raw → Printed rt raw) :
    (∀ n raw, fileAfter file (s.log.take n) = some raw → Printed rt raw) ∧
    (∀ raw, s.world.file = some raw → Printed rt raw) ∧
    ∀ n m raw raw' state state', fileAfter file (s.log.take n) = some raw →
      fileAfter file (s.log.take m) = some raw' → loadBytes rt raw = .ok state →
        loadBytes rt raw' = .ok state' → (Same (.dict state) (.dict state') ↔ raw = raw') := by
  have hinv := reachable_inv h.reachable
  have hall := replay_all (P := fun content => ∀ raw, content = some raw → Printed rt raw) hinv.replay
    h.log.1 hfile fun _ _ hs raw e => by
      cases e
      exact hs.printed
  refine ⟨hall, fun raw hraw => ?_, fun n m raw raw' state state' hn hm hs hs' =>
    (hall n raw hn).eq_iff (hall m raw' hm) hs hs'⟩
  refine hall s.log.length raw ?_
  rw [List.take_length, ← hinv.current, hraw]

/-- What two clients have committed is printed, and the two contents are compared as the states
    are. -/
theorem two_clients_canonical : ∃ s c₀ c₁ c₂ w₁ w₂,
    System.Runs interpreter .total (Job.Library interpreter) (.start none) s ∧
    s.log = [c₀, c₁, c₂] ∧ s.world.file = some c₂.data ∧
    Printed interpreter c₁.data ∧ Printed interpreter c₂.data ∧
    loadBytes interpreter c₁.data = .ok w₁ ∧ loadBytes interpreter c₂.data = .ok w₂ ∧
    (Same (.dict w₁) (.dict w₂) ↔ c₁.data = c₂.data) := by
  obtain ⟨hall, -, hiff⟩ := always_canonical afterTwoClients_runs nofun
  obtain ⟨c₀, c₁, c₂, hlog, -⟩ := afterTwoClients_log
  have hcurrent := (reachable_inv afterTwoClients_reachable).current
  rw [hlog] at hall hiff hcurrent
  obtain ⟨w₁, hw₁, -⟩ := hall 2 c₁.data rfl
  obtain ⟨w₂, hw₂, -⟩ := hall 3 c₂.data rfl
  exact ⟨_, c₀, c₁, c₂, w₁, w₂, afterTwoClients_runs, hlog, hcurrent, hall 2 _ rfl, hall 3 _ rfl, hw₁,
    hw₂, hiff 2 3 _ _ w₁ w₂ rfl rfl hw₁ hw₂⟩

end JsonDatabase
