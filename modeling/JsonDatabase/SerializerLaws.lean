/-
  File:      JsonDatabase/SerializerLaws.lean
  Subject:   What the encoder and the decoder owe each other.

  * `decode_encode`, `decode_sorted` -- reading back what was encoded, or its canonical form, gives
    the stored form of the value;
  * `Same.encodes` -- the canonical form does not see the order of entries and members;
  * `decoded` -- what every decoded value is like: well-formed, no reserved key, its own stored
    form;
  * `Carried`, `Passed` -- a property of values carried to their encodings, or to what is decoded.
-/
import JsonDatabase.Serializer
import JsonDatabase.Python.Same

namespace JsonDatabase

open PyVal hiding none

/-! ## 1. Envelopes -/

theorem typeKey_le_valueKey : TYPE_KEY ≤ VALUE_KEY := by decide

theorem typeKey_ne_valueKey : TYPE_KEY ≠ VALUE_KEY := by decide

theorem sortKeys_envelope (tag : String) (v : Json) :
    Json.sortKeys (envelope tag v) = envelope tag (Json.sortKeys v) := by
  have h : Json.KeyLe (TYPE_KEY, Json.str (lit tag)) (VALUE_KEY, Json.sortKeys v) :=
    typeKey_le_valueKey
  rw [envelope, Json.sortKeys_obj]
  simp only [List.map_cons, List.map_nil, Json.sortKeys, List.insertionSort_cons,
    List.insertionSort_nil, List.orderedInsert_cons, List.orderedInsert_nil, if_pos h, envelope]

theorem decode_envelope (rt : Runtime) (tag : String) (v : Json) :
    decode rt (envelope tag v) = decodeTagged rt (some (.str (lit tag))) (some v)
      (decodeSetField rt [(TYPE_KEY, .str (lit tag)), (VALUE_KEY, v)]) := by
  rw [envelope, decode]
  simp only [Dict.contains, Dict.get_cons_self, Option.isSome_some, if_true,
    Dict.get_cons_ne typeKey_ne_valueKey]

theorem decode_envelope_set (rt : Runtime) (xs : List Json) :
    decode rt (envelope "set" (.arr xs)) =
      (decodeMembers rt xs).map fun items => .set (rt.setOrder (uniques items)) := by
  have h : decodeSetField rt [(TYPE_KEY, .str (lit "set")), (VALUE_KEY, .arr xs)] =
      decodeMembers rt xs := decodeSetField_of_get rt (by
    rw [Dict.get_cons_ne typeKey_ne_valueKey, Dict.get_cons_self])
  rw [decode_envelope, h, decodeTagged]
  rfl

theorem distinct_envelope {tag : String} {v : Json} (h : v.distinct) :
    (envelope tag v).distinct := by
  rw [envelope, Json.distinct_obj]
  refine ⟨by simp [Dict.Distinct, Dict.keys, typeKey_ne_valueKey], fun k w hm => ?_⟩
  simp only [List.mem_cons, Prod.mk.injEq, List.not_mem_nil, or_false] at hm
  obtain ⟨-, rfl⟩ | ⟨-, rfl⟩ := hm
  · trivial
  · exact h

theorem scalar_envelope {tag : String} {v : Json} (ht : scalarOnly (lit tag) = true) :
    (envelope tag v).scalar = v.scalar := by
  have h1 : scalarOnly TYPE_KEY = true := by decide
  have h2 : scalarOnly VALUE_KEY = true := by decide
  simp [envelope, Json.scalar, Json.scalarEntries, h1, h2, ht]

theorem dumpable_envelope (tag : String) (v : Json) :
    (envelope tag v).dumpable = v.dumpable := by
  simp [envelope, Json.dumpable, Json.dumpableEntries]

/-- A value with nothing inside it. -/
def isAtom : PyVal → Bool
  | .frozenset _ | .set _ | .dict _ | .list _ | .tuple _ => false
  | _ => true

/-- A value that is written in an envelope, sets apart. -/
def isEnveloped : PyVal → Bool
  | .datetime _ | .date _ | .decimal _ | .bytes _ => true
  | _ => false

/-- What an atom is encoded as: itself, or an ASCII text in an envelope. -/
inductive AtomCode : PyVal → Json → Prop where
  | none : AtomCode .none .null
  | bool (b : Bool) : AtomCode (.bool b) (.bool b)
  | int (i : Int) : AtomCode (.int i) (.int i)
  | float {f : PyFloat} : f.isFinite = true → AtomCode (.float f) (.float f)
  | str (s : Str) : AtomCode (.str s) (.str s)
  | text {v : PyVal} (tag : String) (s : Str) : isEnveloped v = true → isAscii (lit tag) = true →
      isAscii s = true → AtomCode v (envelope tag (.str s))

theorem encode_atom {rt : Runtime} {v : PyVal} (hv : isAtom v = true) {e : Json}
    (he : encode rt v = .ok e) : AtomCode v e := by
  cases v with
  | none =>
    cases he
    exact .none
  | bool b =>
    cases he
    exact .bool b
  | int i =>
    cases he
    exact .int i
  | float f =>
    rw [encode] at he
    split at he
    · rename_i hf
      cases he
      exact .float hf
    · cases he
  | str s =>
    cases he
    exact .str s
  | datetime d =>
    cases he
    exact .text _ _ rfl (by decide) (isAscii_isoformat d)
  | date d =>
    cases he
    exact .text _ _ rfl (by decide) (isAscii_isoformat_date d)
  | decimal d =>
    cases d with
    | finite x =>
      cases he
      exact .text _ _ rfl (by decide) x.isAscii_str
    | inf _ => cases he
    | nan _ _ => cases he
    | snan _ _ => cases he
  | bytes b =>
    cases he
    exact .text _ _ rfl (by decide) (isAscii_b64encode b)
  | other t i => cases he
  | frozenset xs => cases hv
  | set xs => cases hv
  | dict kvs => cases hv
  | list xs => cases hv
  | tuple xs => cases hv

/-- **An atom is read back as it was.** -/
theorem decode_encode_atom {rt : Runtime} {v : PyVal} (hv : isAtom v = true) {e : Json}
    (he : encode rt v = .ok e) : Json.sortKeys e = e ∧ decode rt e = .ok v := by
  cases v with
  | none =>
    cases he
    exact ⟨rfl, rfl⟩
  | bool b =>
    cases he
    exact ⟨rfl, rfl⟩
  | int i =>
    cases he
    exact ⟨rfl, rfl⟩
  | float f =>
    rw [encode] at he
    split at he
    · cases he
      exact ⟨rfl, rfl⟩
    · cases he
  | str s =>
    cases he
    exact ⟨rfl, rfl⟩
  | datetime d =>
    cases he
    refine ⟨sortKeys_envelope _ _, ?_⟩
    rw [decode_envelope, decodeTagged, if_pos rfl]
    simp only [rt.datetimeFromIso_isoformat]
  | date d =>
    cases he
    refine ⟨sortKeys_envelope _ _, ?_⟩
    rw [decode_envelope, decodeTagged, if_neg (by decide), if_pos rfl]
    simp only [rt.dateFromIso_isoformat]
  | decimal d =>
    cases d with
    | finite x =>
      cases he
      refine ⟨sortKeys_envelope _ _, ?_⟩
      rw [decode_envelope, decodeTagged, if_neg (by decide), if_neg (by decide), if_pos rfl]
      simp only [rt.decimalOf_str]
    | inf _ => cases he
    | nan _ _ => cases he
    | snan _ _ => cases he
  | bytes b =>
    cases he
    refine ⟨sortKeys_envelope _ _, ?_⟩
    rw [decode_envelope, decodeTagged, if_neg (by decide), if_neg (by decide),
      if_neg (by decide), if_pos rfl]
    simp only [rt.base64Decode_b64encode]
  | other t i => cases he
  | frozenset xs => cases hv
  | set xs => cases hv
  | dict kvs => cases hv
  | list xs => cases hv
  | tuple xs => cases hv

theorem coerce_atom {v : PyVal} (hv : isAtom v = true) (hh : v.hashable = true) :
    coerceSetMember v = .ok v := by
  unfold coerceSetMember
  split
  · cases hv
  · rw [if_pos hh]

/-- The encoder accepts the value. -/
def Encodable (rt : Runtime) (v : PyVal) : Prop := ∃ e, encode rt v = .ok e

theorem encodable_dict {rt : Runtime} {kvs : PyDict} : Encodable rt (.dict kvs) ↔
    ∀ k v, (k, v) ∈ kvs → (∃ s, k = .str s) ∧ Encodable rt v := by
  unfold Encodable
  simp only [encode_dict_ok]
  constructor
  · intro h k v hm
    obtain ⟨e, es, hes, -⟩ := h
    obtain ⟨⟨s, y⟩, -, hs, hy⟩ := forall₂_mem_left hes hm
    exact ⟨⟨s, hs⟩, y, hy⟩
  · intro h
    obtain ⟨es, hes⟩ := forall₂_exists (R := EntryEncodes rt).mpr fun kv hkv => by
      obtain ⟨⟨s, hs⟩, y, hy⟩ := h kv.1 kv.2 hkv
      exact ⟨(s, y), hs, hy⟩
    exact ⟨.obj es, es, hes, rfl⟩

/-- What is inside an encodable value is encodable. -/
theorem encodable_everywhere {rt : Runtime} {v : PyVal} (h : Encodable rt v) :
    everywhere (Encodable rt) v := by
  have items {xs : List PyVal} {es : List Json}
      (h : List.Forall₂ (fun x y => encode rt x = .ok y) xs es) : ∀ x ∈ xs, Encodable rt x :=
    fun x hx => (forall₂_mem_left h hx).imp fun _ hy => hy.2
  have h' := h
  obtain ⟨e, he⟩ := h
  induction v using PyVal.induct generalizing e with
  | list xs ih =>
    obtain ⟨es, hes, -⟩ := encode_list_ok.mp he
    refine everywhere_list.mpr ⟨h', fun x hx => ?_⟩
    obtain ⟨y, hy⟩ := items hes x hx
    exact ih x hx ⟨y, hy⟩ y hy
  | tuple xs ih =>
    obtain ⟨es, hes, -⟩ := encode_tuple_ok.mp he
    refine everywhere_tuple.mpr ⟨h', fun x hx => ?_⟩
    obtain ⟨y, hy⟩ := items hes x hx
    exact ih x hx ⟨y, hy⟩ y hy
  | set xs ih =>
    obtain ⟨es, hes, -⟩ := encode_set_ok.mp he
    refine everywhere_set.mpr ⟨h', fun x hx => ?_⟩
    obtain ⟨y, hy⟩ := items hes x hx
    exact ih x hx ⟨y, hy⟩ y hy
  | dict kvs ih =>
    refine everywhere_dict.mpr ⟨h', fun k v hm => ?_⟩
    obtain ⟨-, y, hy⟩ := encodable_dict.mp h' k v hm
    exact ih k v hm ⟨y, hy⟩ y hy
  | frozenset xs ih => cases he
  | _ => exact h'

/-! ## 2. Members of a set -/

/-- The members of a set are read as an array that is then made a tuple. -/
theorem decodeMembers_iff {rt : Runtime} {es : List Json} {xs : List PyVal} :
    decodeMembers rt es = .ok xs ↔
      ∃ w, decode rt (.arr es) = .ok w ∧ coerceSetMember w = .ok (.tuple xs) := by
  rw [decodeMembers_ok]
  constructor
  · intro h
    obtain ⟨ws, hws, hcs⟩ := forall₂_choose (S := fun e w => decode rt e = .ok w)
      (T := fun y w => coerceSetMember w = .ok y) h fun _ _ _ _ h => h
    refine ⟨.list ws, decode_arr_ok.mpr ⟨ws, hws, rfl⟩, ?_⟩
    rw [coerceSetMember, map_ok]
    exact ⟨xs, coerceSetMembers_ok.mpr hcs.flip, rfl⟩
  · intro h
    obtain ⟨w, hw, hc⟩ := h
    obtain ⟨ws, hws, rfl⟩ := decode_arr_ok.mp hw
    rw [coerceSetMember, map_ok] at hc
    obtain ⟨ys, hys, e⟩ := hc
    cases e
    exact forall₂_join hws.flip (coerceSetMembers_ok.mp hys) fun w _ _ _ hd hc => ⟨w, hd, hc⟩

/-- The keys of the members stand beside them. -/
theorem map_snd_keyed {rt : Runtime} {es : List Json} {keyed : List (Str × Json)}
    (h : es.mapM (itemKey rt) = .ok keyed) : keyed.map Prod.snd = es := by
  induction mapM_ok.mp h with
  | nil => rfl
  | cons he h' ih => rw [List.map_cons, ih (mapM_ok.mpr h'), (itemKey_ok.mp he).2]

theorem sorted_perm {rt : Runtime} {es : List Json} {keyed : List (Str × Json)}
    (h : es.mapM (itemKey rt) = .ok keyed) :
    es.Perm ((keyed.insertionSort Json.KeyLe).map Prod.snd) := by
  have hp := ((List.perm_insertionSort Json.KeyLe keyed).map Prod.snd).symm
  rwa [map_snd_keyed h] at hp

/-- **A hashable value is read back as it was, once its arrays are tuples again.** -/
theorem coerce_decode_encode {rt : Runtime} {v : PyVal} (hv : v.hashable = true) {e : Json}
    (he : encode rt v = .ok e) :
    Json.sortKeys e = e ∧ ∃ w, decode rt e = .ok w ∧ coerceSetMember w = .ok v := by
  induction v using PyVal.induct generalizing e with
  | tuple xs ih =>
    rw [hashable_tuple] at hv
    obtain ⟨es, hes, rfl⟩ := encode_tuple_ok.mp he
    have hsort : es.map Json.sortKeys = es := by
      refine (List.map_congr_left fun y hy => ?_).trans (List.map_id es)
      obtain ⟨x, hx, hxy⟩ := forall₂_mem_right hes hy
      exact (ih x hx (hv x hx) hxy).1
    obtain ⟨ws, hws, hcs⟩ := forall₂_choose hes.flip fun y hy x hx hxy => (ih x hx (hv x hx) hxy).2
    refine ⟨by rw [Json.sortKeys_arr, hsort], .list ws, decode_arr_ok.mpr ⟨ws, hws, rfl⟩, ?_⟩
    rw [coerceSetMember, map_ok]
    exact ⟨xs, coerceSetMembers_ok.mpr hcs.flip, rfl⟩
  | frozenset xs ih => cases he
  | set xs ih => cases hv
  | list xs ih => cases hv
  | dict kvs ih => cases hv
  | _ =>
    obtain ⟨hs, hd⟩ := decode_encode_atom rfl he
    exact ⟨hs, _, hd, coerce_atom rfl hv⟩

theorem uniques_of_pairwise : ∀ {xs : List PyVal},
    (xs.Pairwise fun x y => pyEq x y = false ∧ pyEq y x = false) → uniques xs = xs
  | [], _ => rfl
  | x :: xs, h => by
      obtain ⟨hx, hxs⟩ := List.pairwise_cons.mp h
      rw [uniques, uniques_of_pairwise hxs, List.filter_eq_self.mpr]
      intro y hy
      rw [(hx y hy).1, (hx y hy).2]
      rfl

/-- A value that can be a member of a set has nothing inside it that could be reordered. -/
theorem Same.eq_of_hashable {v w : PyVal} (h : Same v w) (hv : v.hashable = true) : w = v := by
  induction v using PyVal.induct generalizing w with
  | tuple xs ih =>
    rw [hashable_tuple] at hv
    cases h.inversion with
    | eq => rfl
    | tuple hs =>
      have heq := forall₂_imp_mem hs fun x hx y _ hxy => (ih x hx hxy (hv x hx)).symm
      rw [List.forall₂_eq_eq_eq] at heq
      rw [heq]
  | set xs ih => cases hv
  | dict kvs ih => cases hv
  | list xs ih => cases hv
  | _ =>
    cases h.inversion with
    | eq => rfl

/-- Coercing a member does not see the orders: what has some is no member. -/
theorem coerce_same {v w y : PyVal} (h : Same v w) (hv : coerceSetMember v = .ok y) :
    coerceSetMember w = .ok y := by
  have whole {v w y : PyVal} (hl : ∀ xs, v ≠ .list xs) (h : Same v w)
      (hv : coerceSetMember v = .ok y) : coerceSetMember w = .ok y := by
    have hh : v.hashable = true := by
      unfold coerceSetMember at hv
      split at hv
      · exact absurd rfl (hl _)
      · split at hv
        · assumption
        · cases hv
    rw [h.eq_of_hashable hh]
    exact hv
  induction v using PyVal.induct generalizing w y with
  | list xs ih =>
    rw [coerceSetMember, map_ok] at hv
    obtain ⟨ys, hys, rfl⟩ := hv
    obtain ⟨zs, rfl, hzs⟩ : ∃ zs, w = .list zs ∧ List.Forall₂ Same xs zs := by
      cases h.inversion with
      | eq => exact ⟨xs, rfl, forall₂_same_refl xs⟩
      | list hs => exact ⟨_, rfl, hs⟩
    rw [coerceSetMember, map_ok]
    refine ⟨ys, coerceSetMembers_ok.mpr ?_, rfl⟩
    exact forall₂_join hzs (coerceSetMembers_ok.mp hys) fun x hx y z hxy hxz => ih x hx hxy hxz
  | _ => exact whole (fun _ => PyVal.noConfusion) h hv

/-! ## 3. Reading back -/

/-- No dictionary has the reserved key. -/
def localUnreserved : PyVal → Prop
  | .dict kvs => Dict.contains kvs (.str TYPE_KEY) = false
  | _ => True

/-- No dictionary at any depth has the reserved key. -/
def unreserved (v : PyVal) : Prop := everywhere localUnreserved v

theorem contains_eq_false {κ α : Type} [DecidableEq κ] {d : Dict κ α} {k : κ} :
    Dict.contains d k = false ↔ k ∉ Dict.keys d := by
  rw [Dict.contains, ← Dict.get_isSome_iff, Bool.not_eq_true]

theorem keys_encoded {rt : Runtime} {kvs : PyDict} {es : Dict Str Json}
    (h : List.Forall₂ (EntryEncodes rt) kvs es) : Dict.keys kvs = (Dict.keys es).map PyKey.str := by
  induction h with
  | nil => rfl
  | cons h _ ih => exact congrArg₂ List.cons h.1 ih

theorem str_injective : Function.Injective PyKey.str := fun _ _ h => PyKey.str.inj h

theorem distinct_encoded {rt : Runtime} {kvs : PyDict} {es : Dict Str Json}
    (h : List.Forall₂ (EntryEncodes rt) kvs es) : Dict.Distinct kvs ↔ Dict.Distinct es := by
  unfold Dict.Distinct
  rw [keys_encoded h, List.nodup_map_iff str_injective]

theorem contains_encoded {rt : Runtime} {kvs : PyDict} {es : Dict Str Json}
    (h : List.Forall₂ (EntryEncodes rt) kvs es) (k : Str) :
    Dict.contains kvs (.str k) = Dict.contains es k := by
  rw [Bool.eq_iff_iff, Dict.contains, Dict.contains, Dict.get_isSome_iff, Dict.get_isSome_iff,
    keys_encoded h, List.mem_map_of_injective str_injective]

theorem distinct_encode {rt : Runtime} {v : PyVal} (hw : v.wf) {e : Json}
    (he : encode rt v = .ok e) : e.distinct := by
  have items {xs : List PyVal} {es : List Json} (ih : ∀ x ∈ xs, x.wf → ∀ {e : Json},
      encode rt x = .ok e → e.distinct) (hw : ∀ x ∈ xs, x.wf)
      (h : List.Forall₂ (fun x y => encode rt x = .ok y) xs es) : ∀ y ∈ es, y.distinct := by
    intro y hy
    obtain ⟨x, hx, hxy⟩ := forall₂_mem_right h hy
    exact ih x hx (hw x hx) hxy
  induction v using PyVal.induct generalizing e with
  | list xs ih =>
    obtain ⟨es, hes, rfl⟩ := encode_list_ok.mp he
    exact Json.distinct_arr.mpr (items ih (everywhere_list.mp hw).2 hes)
  | tuple xs ih =>
    obtain ⟨es, hes, rfl⟩ := encode_tuple_ok.mp he
    exact Json.distinct_arr.mpr (items ih (everywhere_tuple.mp hw).2 hes)
  | set xs ih =>
    obtain ⟨es, hes, keyed, hk, rfl⟩ := encode_set_ok.mp he
    refine distinct_envelope (Json.distinct_arr.mpr fun y hy => ?_)
    exact items ih (everywhere_set.mp hw).2 hes y ((sorted_perm hk).mem_iff.mpr hy)
  | dict kvs ih =>
    obtain ⟨hd, hw⟩ := everywhere_dict.mp hw
    obtain ⟨es, hes, rfl⟩ := encode_dict_ok.mp he
    refine Json.distinct_obj.mpr ⟨(distinct_encoded hes).mp hd, fun k x hm => ?_⟩
    obtain ⟨kv, hkv, -, hx⟩ := forall₂_mem_right hes hm
    exact ih kv.1 kv.2 hkv (hw kv.1 kv.2 hkv) hx
  | frozenset xs ih => cases he
  | _ =>
    cases encode_atom rfl he with
    | text => exact distinct_envelope trivial
    | _ => trivial

/-- A set is read back with its members in the order they are written in. -/
theorem decode_encode_set {rt : Runtime} {xs : List PyVal} (hset : SetLike xs) {es : List Json}
    (hes : List.Forall₂ (fun x y => encode rt x = .ok y) xs es) {keyed : List (Str × Json)}
    (hk : es.mapM (itemKey rt) = .ok keyed) :
    ∃ xs', xs.Perm xs' ∧ List.Forall₂ (fun x y => encode rt x = .ok y) xs'
        ((keyed.insertionSort Json.KeyLe).map Prod.snd) ∧
      decode rt (envelope "set" (.arr ((keyed.insertionSort Json.KeyLe).map Prod.snd))) =
        .ok (.set (rt.setOrder xs')) := by
  obtain ⟨xs', hxs', hp⟩ := forall₂_perm hes.flip (sorted_perm hk)
  have hset' := setLike_perm hp hset
  have hm : decodeMembers rt ((keyed.insertionSort Json.KeyLe).map Prod.snd) = .ok xs' :=
    decodeMembers_ok.mpr (forall₂_imp_mem hxs' fun y _ x hx hxy =>
      (coerce_decode_encode (hset'.1 x hx) hxy).2)
  refine ⟨xs', hp, hxs'.flip, ?_⟩
  rw [decode_envelope_set, hm]
  simp only [Except.map, uniques_of_pairwise hset'.2]

/-- **Reading back what was encoded** gives the stored form, up to the order of sets. -/
theorem decode_encode {rt : Runtime} {v : PyVal} (hw : v.wf) (hr : unreserved v) {e : Json}
    (he : encode rt v = .ok e) : ∃ w, decode rt e = .ok w ∧ Same (stored v) w := by
  induction v using PyVal.induct generalizing e with
  | list xs ih =>
    obtain ⟨-, hw⟩ := everywhere_list.mp hw
    obtain ⟨-, hr⟩ := everywhere_list.mp hr
    obtain ⟨es, hes, rfl⟩ := encode_list_ok.mp he
    obtain ⟨ws, hws, hds⟩ := forall₂_choose hes fun x hx y _ hxy =>
      (ih x hx (hw x hx) (hr x hx) hxy).imp fun _ h => h.symm
    rw [stored_list]
    exact ⟨.list ws, decode_arr_ok.mpr ⟨ws, hds, rfl⟩, same_list (List.forall₂_map_left_iff.mpr hws)⟩
  | tuple xs ih =>
    obtain ⟨-, hw⟩ := everywhere_tuple.mp hw
    obtain ⟨-, hr⟩ := everywhere_tuple.mp hr
    obtain ⟨es, hes, rfl⟩ := encode_tuple_ok.mp he
    obtain ⟨ws, hws, hds⟩ := forall₂_choose hes fun x hx y _ hxy =>
      (ih x hx (hw x hx) (hr x hx) hxy).imp fun _ h => h.symm
    rw [stored_tuple]
    exact ⟨.list ws, decode_arr_ok.mpr ⟨ws, hds, rfl⟩, same_list (List.forall₂_map_left_iff.mpr hws)⟩
  | set xs ih =>
    obtain ⟨es, hes, keyed, hk, rfl⟩ := encode_set_ok.mp he
    obtain ⟨xs', hp, -, hd⟩ := decode_encode_set (everywhere_set.mp hw).1 hes hk
    exact ⟨_, hd, .setOrder (hp.trans (rt.setOrder_perm xs').symm)⟩
  | dict kvs ih =>
    obtain ⟨-, hw⟩ := everywhere_dict.mp hw
    obtain ⟨hnr, hr⟩ := everywhere_dict.mp hr
    obtain ⟨es, hes, rfl⟩ := encode_dict_ok.mp he
    obtain ⟨ws, hss, hds⟩ := forall₂_choose (S := fun kv kw => kw.1 = kv.1 ∧ Same (stored kv.2) kw.2)
      (T := EntryDecodes rt) hes fun kv hkv je _ h => by
        obtain ⟨w, hd, hs⟩ := ih kv.1 kv.2 hkv (hw kv.1 kv.2 hkv) (hr kv.1 kv.2 hkv) h.2
        exact ⟨(kv.1, w), ⟨rfl, hs⟩, h.1, hd⟩
    refine ⟨.dict ws, (decode_obj_ok ?_).mpr ⟨ws, hds, rfl⟩, ?_⟩
    · rw [← contains_encoded hes]
      exact hnr
    · rw [stored_dict]
      refine same_entries (List.forall₂_map_left_iff.mpr ?_)
      exact forall₂_imp_mem hss fun kv _ kw _ h => ⟨h.1.symm, h.2⟩
  | frozenset xs ih => cases he
  | _ => exact ⟨_, (decode_encode_atom rfl he).2, .refl _⟩

/-- An envelope is read alike when its value has sorted keys. -/
theorem decodeTagged_sortKeys {rt : Runtime} {tag raw : Option Json}
    {members members' : Except PyExc (List PyVal)} {v : PyVal}
    (hm : ∀ es xs, raw = some (.arr es) → members = .ok xs → members' = .ok xs)
    (h : decodeTagged rt tag raw members = .ok v) :
    decodeTagged rt (tag.map Json.sortKeys) (raw.map Json.sortKeys) members' = .ok v := by
  cases tag with
  | none => cases h
  | some t =>
    cases t with
    | str t =>
      cases raw with
      | none => exact h
      | some r =>
        cases r with
        | arr es =>
          -- only a set has an array for its value
          by_cases ht : t = lit "set"
          · subst ht
            obtain ⟨xs, hx, rfl⟩ := map_ok.mp h
            exact map_ok.mpr ⟨xs, hm es xs rfl hx, rfl⟩
          · unfold decodeTagged at h
            simp only [if_neg ht] at h
            repeat' split at h
            all_goals cases h
        | _ => exact h
    | _ => cases h

/-- **The decoder does not see the order of keys.** -/
theorem decode_sortKeys {rt : Runtime} {j : Json} (hj : j.distinct) {v : PyVal}
    (h : decode rt j = .ok v) : ∃ w, decode rt (Json.sortKeys j) = .ok w ∧ Same v w := by
  induction j using Json.induct generalizing v with
  | arr xs ih =>
    obtain ⟨vs, hvs, rfl⟩ := decode_arr_ok.mp h
    obtain ⟨ws, hds, hss⟩ := forall₂_choose hvs fun x hx v _ hxv =>
      ih x hx (Json.distinct_arr.mp hj x hx) hxv
    rw [Json.sortKeys_arr]
    exact ⟨.list ws, decode_arr_ok.mpr ⟨ws, List.forall₂_map_left_iff.mpr hds, rfl⟩, same_list hss⟩
  | obj kvs ih =>
    obtain ⟨hd, hj⟩ := Json.distinct_obj.mp hj
    have hget := Json.get_sortKeys_obj hd (Json.sortKeys_obj kvs)
    have hp := List.perm_insertionSort Json.KeyLe (kvs.map fun kv => (kv.1, Json.sortKeys kv.2))
    rw [Json.sortKeys_obj]
    generalize (kvs.map fun kv => (kv.1, Json.sortKeys kv.2)).insertionSort Json.KeyLe = s
      at hget hp ⊢
    have hcs : Dict.contains s TYPE_KEY = Dict.contains kvs TYPE_KEY := by
      rw [Dict.contains, hget, Option.isSome_map, Dict.contains]
    cases hc : Dict.contains kvs TYPE_KEY with
    | true =>
      rw [decode, hc, if_pos rfl] at h
      refine ⟨v, ?_, .refl v⟩
      rw [decode, hcs, hc, if_pos rfl, hget, hget]
      refine decodeTagged_sortKeys (fun es xs hraw hm => ?_) h
      -- the members are those of an array with sorted keys
      rw [decodeSetField_of_get rt hraw, decodeMembers_iff] at hm
      obtain ⟨w, hw, hx⟩ := hm
      have hm := Dict.mem_of_get hraw
      obtain ⟨w', hw', hs⟩ := ih VALUE_KEY _ hm (hj VALUE_KEY _ hm) hw
      rw [Json.sortKeys_arr] at hw'
      have hraw' : Dict.get s VALUE_KEY = some (.arr (es.map Json.sortKeys)) := by
        rw [hget, hraw, Option.map_some, Json.sortKeys_arr]
      rw [decodeSetField_of_get rt hraw', decodeMembers_iff]
      exact ⟨w', hw', coerce_same hs hx⟩
    | false =>
      obtain ⟨vs, hvs, rfl⟩ := (decode_obj_ok hc).mp h
      obtain ⟨ws, hds, hss⟩ := forall₂_choose (T := SameEntry)
        (S := fun je kw => EntryDecodes rt (je.1, Json.sortKeys je.2) kw) hvs fun je hje kv _ h => by
          obtain ⟨w, hd, hs⟩ := ih je.1 je.2 hje (hj je.1 je.2 hje) h.2
          exact ⟨(kv.1, w), ⟨h.1, hd⟩, rfl, hs⟩
      -- sorting the entries permutes the decoded dictionary
      obtain ⟨ws', hws', hp'⟩ := forall₂_perm (List.forall₂_map_left_iff
        (f := fun je : Str × Json => (je.1, Json.sortKeys je.2)) |>.mpr hds) hp.symm
      exact ⟨.dict ws', (decode_obj_ok (hcs.trans hc)).mpr ⟨ws', hws', rfl⟩,
        (same_entries hss).trans (.dictOrder hp')⟩
  | _ => exact ⟨v, h, .refl v⟩

/-- Reading back what was written, with its keys sorted. -/
theorem decode_sorted {rt : Runtime} {v : PyVal} (hw : v.wf) (hr : unreserved v) {e : Json}
    (he : encode rt v = .ok e) :
    ∃ w, decode rt (Json.sortKeys e) = .ok w ∧ Same (stored v) w := by
  obtain ⟨w, hd, hs⟩ := decode_encode hw hr he
  obtain ⟨w', hd', hs'⟩ := decode_sortKeys (distinct_encode hw he) hd
  exact ⟨w', hd', hs.trans hs'⟩

/-! ## 4. The canonical form -/

/-- **The encoder does not see the difference between a value and its stored form.** -/
theorem encode_stored (rt : Runtime) (v : PyVal) : encode rt (stored v) = encode rt v := by
  induction v using PyVal.induct with
  | list xs ih => rw [stored_list, encode, encode, encodeList_eq, encodeList_eq, mapM_map_congr ih]
  | tuple xs ih => rw [stored_tuple, encode, encode, encodeList_eq, encodeList_eq, mapM_map_congr ih]
  | dict kvs ih =>
    have h : ∀ kv ∈ kvs, encodeEntry rt (kv.1, stored kv.2) = encodeEntry rt kv := by
      intro kv hkv
      obtain ⟨k, v⟩ := kv
      cases k with
      | str k => rw [encodeEntry, encodeEntry, ih (.str k) v hkv]
      | other t i => rfl
    rw [stored_dict, encode, encode, encodeEntries_eq, encodeEntries_eq, mapM_map_congr h]
  | _ => rfl

/-- `v` is well-formed and `s` is its canonical form: its encoding with sorted keys. -/
def Encodes (rt : Runtime) (v : PyVal) (s : Json) : Prop :=
  v.wf ∧ ∃ e, encode rt v = .ok e ∧ Json.sortKeys e = s

/-- Members with one sorting key are encoded alike. -/
theorem itemKey_injective {rt : Runtime} {a b : Json} {t : Str}
    (ha : Json.dumps rt.floats true compact a = some t)
    (hb : Json.dumps rt.floats true compact b = some t) (da : a.distinct) (db : b.distinct)
    (sa : a.unsplit) (sb : b.unsplit) : Json.sortKeys a = Json.sortKeys b := by
  have read {j : Json} (h : Json.dumps rt.floats true compact j = some t) (hd : j.distinct)
      (hs : j.unsplit) : loads rt.floats t = .ok (Json.sortKeys j) := by
    unfold Json.dumps at h
    split at h
    · rename_i hj
      cases h
      have := Json.loads_render rt.floats true compact
        (Json.distinct_sortKeys hd) (by rw [Json.dumpable_sortKeys, hj])
        (fun _ => (Json.texts_sortKeys j).mpr hs) (w := []) (by simp)
      rwa [List.append_nil] at this
    · cases h
  have := (read ha da sa).symm.trans (read hb db sb)
  exact Except.ok.inj this

/-- The elements of an array. -/
theorem unsplit_sorted_arr {es : List Json} (h : (Json.sortKeys (.arr es)).unsplit) :
    ∀ e ∈ es, e.unsplit :=
  Json.texts_arr.mp ((Json.texts_sortKeys _).mp h)

theorem unsplit_envelope_arr {tag : String} {es : List Json}
    (h : (envelope tag (.arr es)).unsplit) : ∀ e ∈ es, e.unsplit :=
  Json.texts_arr.mp (Json.texts_obj.mp h VALUE_KEY (.arr es) (by simp)).2

/-- **The order of a set's members does not reach the canonical form**: members that tie are
    encoded alike. -/
theorem insertionSort_keyed {rt : Runtime} {xs : List PyVal} (hx : ∀ x ∈ xs, x.hashable = true)
    (hw : ∀ x ∈ xs, x.wf) {es : List Json}
    (hes : List.Forall₂ (fun x y => encode rt x = .ok y) xs es) (hs : ∀ e ∈ es, e.unsplit)
    {keyed keyed' : List (Str × Json)} (hk : es.mapM (itemKey rt) = .ok keyed)
    (hp : keyed.Perm keyed') :
    keyed.insertionSort Json.KeyLe = keyed'.insertionSort Json.KeyLe := by
  have hperm : (keyed.insertionSort Json.KeyLe).Perm (keyed'.insertionSort Json.KeyLe) :=
    (List.perm_insertionSort _ _).trans (hp.trans (List.perm_insertionSort _ _).symm)
  refine hperm.eq_of_pairwise (fun a b ha hb hab hba => ?_) (List.pairwise_insertionSort _ _)
    (List.pairwise_insertionSort _ _)
  -- two members with one key are the same JSON value
  have hkey : a.1 = b.1 := le_antisymm hab hba
  have member {p : Str × Json} (hm : p ∈ keyed) : p.2 ∈ es ∧
      Json.dumps rt.floats true compact p.2 = some p.1 ∧ Json.sortKeys p.2 = p.2 ∧ p.2.distinct := by
    obtain ⟨e, he, hi⟩ := forall₂_mem_right (mapM_ok.mp hk) hm
    obtain ⟨hd, rfl⟩ := itemKey_ok.mp hi
    obtain ⟨x, hxm, hxe⟩ := forall₂_mem_right hes he
    exact ⟨he, hd, (coerce_decode_encode (hx x hxm) hxe).1, distinct_encode (hw x hxm) hxe⟩
  obtain ⟨ha1, ha2, ha3, ha4⟩ := member ((List.mem_insertionSort _).mp ha)
  obtain ⟨hb1, hb2, hb3, hb4⟩ := member (hp.mem_iff.mpr ((List.mem_insertionSort _).mp hb))
  rw [hkey] at ha2
  have := itemKey_injective ha2 hb2 ha4 hb4 (hs _ ha1) (hs _ hb1)
  rw [ha3, hb3] at this
  exact Prod.ext hkey this

/-- **The canonical form does not see the orders**, where it can be written. -/
theorem Same.encodes {rt : Runtime} {v w : PyVal} (h : Same v w) {s : Json}
    (hs : s.unsplit) : Encodes rt v s ↔ Encodes rt w s := by
  -- one direction of each generator is enough, since their premises are symmetric
  have hole {xs ys : List PyVal} {v w : PyVal} (h : Same v w)
      (ih : ∀ {s : Json}, s.unsplit → (Encodes rt v s ↔ Encodes rt w s))
      (hw : v.wf) {es : List Json} (hsc : ∀ e ∈ es, e.unsplit)
      (hes : List.Forall₂ (fun x y => encode rt x = .ok y) (xs ++ v :: ys) es) :
      ∃ es', List.Forall₂ (fun x y => encode rt x = .ok y) (xs ++ w :: ys) es' ∧
        es.map Json.sortKeys = es'.map Json.sortKeys := by
    obtain ⟨a, e, b, rfl, ha, he, hb⟩ := forall₂_hole.mp hes
    have hsc' : (Json.sortKeys e).unsplit := (Json.texts_sortKeys e).mpr (hsc e (by simp))
    obtain ⟨-, e', he', hee⟩ := (ih hsc').mp ⟨hw, e, he, rfl⟩
    exact ⟨_, forall₂_hole.mpr ⟨a, e', b, rfl, ha, he', hb⟩, by simp [hee]⟩
  induction h generalizing s with
  | refl v => exact Iff.rfl
  | symm _ ih => exact (ih hs).symm
  | trans _ _ ih ih' => exact (ih hs).trans (ih' hs)
  | @dictOrder a b hp =>
    suffices H : ∀ {a b : PyDict}, a.Perm b → Encodes rt (.dict a) s → Encodes rt (.dict b) s from
      ⟨H hp, H hp.symm⟩
    intro a b hp h
    obtain ⟨hw, e, he, rfl⟩ := h
    obtain ⟨es, hes, rfl⟩ := encode_dict_ok.mp he
    obtain ⟨es', hes', hp'⟩ := forall₂_perm hes hp
    refine ⟨(Same.dictOrder hp).wf_iff.mp hw, .obj es', encode_dict_ok.mpr ⟨es', hes', rfl⟩, ?_⟩
    have hd : Dict.Distinct es := (distinct_encoded hes).mp (everywhere_dict.mp hw).1
    refine (Json.sortKeys_obj_congr hd ((Dict.distinct_perm hp').mp hd) fun k => ?_).symm
    rw [Dict.get_perm hp' hd]
  | @setOrder xs ys hp =>
    suffices H : ∀ {xs ys : List PyVal}, xs.Perm ys → Encodes rt (.set xs) s →
        Encodes rt (.set ys) s from ⟨H hp, H hp.symm⟩
    intro xs ys hp h
    obtain ⟨hw, e, he, rfl⟩ := h
    obtain ⟨hset, hxs⟩ := everywhere_set.mp hw
    obtain ⟨es, hes, keyed, hk, rfl⟩ := encode_set_ok.mp he
    obtain ⟨es', hes', hp'⟩ := forall₂_perm hes hp
    obtain ⟨keyed', hk', hpk⟩ := forall₂_perm (mapM_ok.mp hk) hp'
    have hsc : ∀ e ∈ es, e.unsplit := fun e he =>
      unsplit_envelope_arr ((Json.texts_sortKeys _).mp hs) e ((sorted_perm hk).mem_iff.mp he)
    refine ⟨(Same.setOrder hp).wf_iff.mp hw, _,
      encode_set_ok.mpr ⟨es', hes', keyed', mapM_ok.mpr hk', rfl⟩, ?_⟩
    rw [insertionSort_keyed hset.1 hxs hes hsc hk hpk]
  | @inList v w xs ys h ih =>
    suffices H : ∀ {v w : PyVal}, Same v w →
        (∀ {s : Json}, s.unsplit → (Encodes rt v s ↔ Encodes rt w s)) →
        Encodes rt (.list (xs ++ v :: ys)) s → Encodes rt (.list (xs ++ w :: ys)) s from
      ⟨H h ih, H h.symm fun hs => (ih hs).symm⟩
    intro v w h ih he
    obtain ⟨hw, e, he, rfl⟩ := he
    obtain ⟨es, hes, rfl⟩ := encode_list_ok.mp he
    obtain ⟨es', hes', hee⟩ := hole h ih ((everywhere_list.mp hw).2 v (by simp))
      (unsplit_sorted_arr hs) hes
    refine ⟨(Same.inList xs ys h).wf_iff.mp hw, .arr es', encode_list_ok.mpr ⟨es', hes', rfl⟩, ?_⟩
    rw [Json.sortKeys_arr, Json.sortKeys_arr, hee]
  | @inTuple v w xs ys h ih =>
    suffices H : ∀ {v w : PyVal}, Same v w →
        (∀ {s : Json}, s.unsplit → (Encodes rt v s ↔ Encodes rt w s)) →
        Encodes rt (.tuple (xs ++ v :: ys)) s → Encodes rt (.tuple (xs ++ w :: ys)) s from
      ⟨H h ih, H h.symm fun hs => (ih hs).symm⟩
    intro v w h ih he
    obtain ⟨hw, e, he, rfl⟩ := he
    obtain ⟨es, hes, rfl⟩ := encode_tuple_ok.mp he
    obtain ⟨es', hes', hee⟩ := hole h ih ((everywhere_tuple.mp hw).2 v (by simp))
      (unsplit_sorted_arr hs) hes
    refine ⟨(Same.inTuple xs ys h).wf_iff.mp hw, .arr es', encode_tuple_ok.mpr ⟨es', hes', rfl⟩, ?_⟩
    rw [Json.sortKeys_arr, Json.sortKeys_arr, hee]
  | @inDict v w a b k h ih =>
    suffices H : ∀ {v w : PyVal}, Same v w →
        (∀ {s : Json}, s.unsplit → (Encodes rt v s ↔ Encodes rt w s)) →
        Encodes rt (.dict (a ++ (k, v) :: b)) s → Encodes rt (.dict (a ++ (k, w) :: b)) s from
      ⟨H h ih, H h.symm fun hs => (ih hs).symm⟩
    intro v w h ih he
    obtain ⟨hw, e, he, rfl⟩ := he
    obtain ⟨es, hes, rfl⟩ := encode_dict_ok.mp he
    obtain ⟨es₁, ke, es₂, rfl, h₁, hv, h₂⟩ := forall₂_hole.mp hes
    obtain ⟨k', e⟩ := ke
    have hsc : (Json.sortKeys e).unsplit := (Json.texts_sortKeys e).mpr
      (Json.texts_obj.mp ((Json.texts_sortKeys _).mp hs) k' e (by simp)).2
    obtain ⟨-, e', he', hee⟩ := (ih hsc).mp
      ⟨(everywhere_dict.mp hw).2 k v (by simp), e, hv.2, rfl⟩
    refine ⟨(Same.inDict a b k h).wf_iff.mp hw, .obj (es₁ ++ (k', e') :: es₂),
      encode_dict_ok.mpr ⟨_, forall₂_hole.mpr ⟨es₁, (k', e'), es₂, rfl, h₁, ⟨hv.1, he'⟩, h₂⟩, rfl⟩,
      ?_⟩
    rw [Json.sortKeys_obj, Json.sortKeys_obj]
    simp [hee]

/-! ## 5. What passes to the encoding -/

theorem forall₂_forall_iff {α β : Type} {R : α → β → Prop} {A : α → Prop} {B : β → Prop}
    {xs : List α} {ys : List β} (h : List.Forall₂ R xs ys)
    (hi : ∀ x ∈ xs, ∀ y ∈ ys, R x y → (A x ↔ B y)) : (∀ x ∈ xs, A x) ↔ ∀ y ∈ ys, B y := by
  constructor
  · intro ha y hy
    obtain ⟨x, hx, hr⟩ := forall₂_mem_right h hy
    exact (hi x hx y hy hr).mp (ha x hx)
  · intro hb x hx
    obtain ⟨y, hy, hr⟩ := forall₂_mem_left h hx
    exact (hi x hx y hy hr).mpr (hb y hy)

/-- A property of values and one of JSON that agree on the atoms and see in a container only its
    keys and what it holds. -/
structure Carried (rt : Runtime) (K : Str → Prop) (P : PyVal → Prop) (Q : Json → Prop) : Prop where
  list : ∀ xs, P (.list xs)
  tuple : ∀ xs, P (.tuple xs)
  set : ∀ xs, P (.set xs)
  dict : ∀ kvs : PyDict, P (.dict kvs) ↔ ∀ s, PyKey.str s ∈ Dict.keys kvs → K s
  arr : ∀ xs, Q (.arr xs) ↔ ∀ x ∈ xs, Q x
  obj : ∀ kvs : Dict Str Json, Q (.obj kvs) ↔ ∀ kv ∈ kvs, K kv.1 ∧ Q kv.2
  envelope : ∀ xs, Q (envelope "set" (.arr xs)) ↔ Q (.arr xs)
  atom : ∀ v e, isAtom v = true → encode rt v = .ok e → (P v ↔ Q e)

/-- **Such a property holds everywhere in a value iff it holds of the encoding.** -/
theorem Carried.encode {rt : Runtime} {K : Str → Prop} {P : PyVal → Prop} {Q : Json → Prop}
    (h : Carried rt K P Q) {v : PyVal} {e : Json} (he : encode rt v = .ok e) :
    everywhere P v ↔ Q e := by
  induction v using PyVal.induct generalizing e with
  | list xs ih =>
    obtain ⟨es, hes, rfl⟩ := encode_list_ok.mp he
    rw [everywhere_list, h.arr, and_iff_right (h.list xs)]
    exact forall₂_forall_iff hes fun x hx y _ h => ih x hx h
  | tuple xs ih =>
    obtain ⟨es, hes, rfl⟩ := encode_tuple_ok.mp he
    rw [everywhere_tuple, h.arr, and_iff_right (h.tuple xs)]
    exact forall₂_forall_iff hes fun x hx y _ h => ih x hx h
  | set xs ih =>
    obtain ⟨es, hes, keyed, hk, rfl⟩ := encode_set_ok.mp he
    rw [everywhere_set, h.envelope, h.arr, and_iff_right (h.set xs),
      forall₂_forall_iff hes fun x hx y _ h => ih x hx h]
    exact forall_congr' fun y => by rw [(sorted_perm hk).mem_iff]
  | dict kvs ih =>
    obtain ⟨es, hes, rfl⟩ := encode_dict_ok.mp he
    rw [everywhere_dict, h.dict, h.obj]
    refine Iff.trans ?_ (forall₂_forall_iff hes (A := fun kv =>
      (∀ s, kv.1 = .str s → K s) ∧ everywhere P kv.2) fun kv hkv je _ hje => ?_)
    · refine ⟨fun hkv kv hm => ⟨fun s hs => hkv.1 s (hs ▸ Dict.mem_keys_of_mem hm),
        hkv.2 kv.1 kv.2 hm⟩, fun hkv => ⟨fun s hs => ?_, fun k v hm => (hkv (k, v) hm).2⟩⟩
      obtain ⟨kv, hm, hk⟩ := List.mem_map.mp hs
      exact (hkv kv hm).1 s hk
    · rw [hje.1]
      exact and_congr ⟨fun hs => hs _ rfl, fun hs s e => by cases e; exact hs⟩ (ih kv.1 kv.2 hkv hje.2)
  | frozenset xs ih => cases he
  | _ => exact h.atom _ e rfl he

/-- `p` holds of the string, or of the keys. -/
def localTexts (p : Str → Prop) : PyVal → Prop
  | .str s => p s
  | .dict kvs => ∀ k, PyKey.str k ∈ Dict.keys kvs → p k
  | _ => True

theorem texts_envelope {p : Str → Prop} (hp : ∀ s, isAscii s = true → p s) {tag : String}
    (ht : isAscii (lit tag) = true) {v : Json} : (envelope tag v).texts p ↔ v.texts p := by
  have h1 : p TYPE_KEY := hp _ (by decide)
  have h2 : p VALUE_KEY := hp _ (by decide)
  simp only [envelope, Json.texts, Json.textsEntries, h1, h2, hp _ ht, true_and, and_true]

/-- What holds of every ASCII text holds of all the texts in the encoding iff it does of all those
    in the value. -/
theorem encode_texts {rt : Runtime} {p : Str → Prop} (hp : ∀ s, isAscii s = true → p s) {v : PyVal}
    {e : Json} (he : encode rt v = .ok e) : everywhere (localTexts p) v ↔ e.texts p := by
  have carried : Carried rt p (localTexts p) (Json.texts p) := {
    list _ := trivial
    tuple _ := trivial
    set _ := trivial
    dict _ := Iff.rfl
    arr _ := Json.texts_arr
    obj kvs := Json.texts_obj.trans
      ⟨fun h kv hm => h kv.1 kv.2 hm, fun h k v hm => h (k, v) hm⟩
    envelope _ := texts_envelope hp (by decide)
    atom v e hv he := by
      cases encode_atom hv he with
      | text tag s hv ht hs =>
        refine iff_of_true ?_ ((texts_envelope hp ht).mpr (hp s hs))
        cases v <;> trivial
      | _ => exact Iff.rfl }
  exact carried.encode he

/-! ## 6. What is decoded -/

theorem mem_uniques : ∀ {xs : List PyVal} {y : PyVal}, y ∈ uniques xs → y ∈ xs
  | [], _, h => absurd h List.not_mem_nil
  | x :: xs, y, h => by
      rw [uniques] at h
      rcases List.mem_cons.mp h with rfl | h
      · exact List.mem_cons_self
      · exact List.mem_cons_of_mem _ (mem_uniques (List.mem_filter.mp h).1)

theorem pairwise_uniques : ∀ xs : List PyVal,
    (uniques xs).Pairwise fun x y => pyEq x y = false ∧ pyEq y x = false
  | [] => .nil
  | x :: xs => by
      rw [uniques]
      refine List.pairwise_cons.mpr ⟨fun y hy => ?_, (pairwise_uniques xs).filter _⟩
      have h := (List.mem_filter.mp hy).2
      simpa using h

/-- A member is hashable, and what held everywhere in it before still does: only lists became
    tuples. -/
theorem coerce_everywhere {p : PyVal → Prop} (hp : ∀ xs, p (.tuple xs)) {v y : PyVal}
    (h : coerceSetMember v = .ok y) (hv : everywhere p v) :
    y.hashable = true ∧ everywhere p y := by
  have whole {v y : PyVal} (hl : ∀ xs, v ≠ .list xs) (h : coerceSetMember v = .ok y)
      (hv : everywhere p v) : y.hashable = true ∧ everywhere p y := by
    unfold coerceSetMember at h
    split at h
    · exact absurd rfl (hl _)
    · split at h
      · rename_i hh
        cases h
        exact ⟨hh, hv⟩
      · cases h
  induction v using PyVal.induct generalizing y with
  | list xs ih =>
    rw [coerceSetMember, map_ok] at h
    obtain ⟨ys, hys, rfl⟩ := h
    have hm : ∀ y ∈ ys, y.hashable = true ∧ everywhere p y := by
      intro y hy
      obtain ⟨x, hx, hxy⟩ := forall₂_mem_right (coerceSetMembers_ok.mp hys) hy
      exact ih x hx hxy ((everywhere_list.mp hv).2 x hx)
    exact ⟨hashable_tuple.mpr fun y hy => (hm y hy).1,
      everywhere_tuple.mpr ⟨hp ys, fun y hy => (hm y hy).2⟩⟩
  | _ => exact whole (fun _ => PyVal.noConfusion) h hv

/-- What an envelope decodes to: an atom, from a string, or a set, from the list of its members. -/
theorem decodeTagged_ok {rt : Runtime} {tag raw : Option Json} {members : Except PyExc (List PyVal)}
    {v : PyVal} (h : decodeTagged rt tag raw members = .ok v) : (∃ t, tag = some (.str t)) ∧
      ((isEnveloped v = true ∧ ∃ s, raw = some (.str s)) ∨ ∃ es xs, raw = some (.arr es) ∧
        members = .ok xs ∧ v = .set (rt.setOrder (uniques xs))) := by
  unfold decodeTagged at h
  split at h
  · refine ⟨⟨_, rfl⟩, ?_⟩
    split at h
    · split at h
      · split at h
        · cases h
          exact Or.inl ⟨rfl, _, rfl⟩
        · cases h
      · cases h
    split at h
    · split at h
      · split at h
        · cases h
          exact Or.inl ⟨rfl, _, rfl⟩
        · cases h
      · cases h
    split at h
    · split at h
      · split at h
        · cases h
          exact Or.inl ⟨rfl, _, rfl⟩
        · cases h
      · cases h
    split at h
    · split at h
      · split at h
        · cases h
          exact Or.inl ⟨rfl, _, rfl⟩
        · cases h
      · cases h
    split at h
    · split at h
      · obtain ⟨xs, hx, rfl⟩ := map_ok.mp h
        exact Or.inr ⟨_, xs, rfl, hx, rfl⟩
      · cases h
    · cases h
  · cases h

theorem keys_decoded {rt : Runtime} {kvs : Dict Str Json} {vs : PyDict}
    (h : List.Forall₂ (EntryDecodes rt) kvs vs) : Dict.keys vs = (Dict.keys kvs).map PyKey.str := by
  induction h with
  | nil => rfl
  | cons h _ ih => exact congrArg₂ List.cons h.1 ih

/-- What is under the two keys of an envelope that is decoded. -/
theorem decode_tagged_ok {rt : Runtime} {kvs : Dict Str Json}
    (hc : Dict.contains kvs TYPE_KEY = true) {v : PyVal} (h : decode rt (.obj kvs) = .ok v) :
    (∃ t, Dict.get kvs TYPE_KEY = some (.str t)) ∧
      ((isEnveloped v = true ∧ ∃ s, Dict.get kvs VALUE_KEY = some (.str s)) ∨
      ∃ es xs w, Dict.get kvs VALUE_KEY = some (.arr es) ∧ decode rt (.arr es) = .ok w ∧
        coerceSetMember w = .ok (.tuple xs) ∧ v = .set (rt.setOrder (uniques xs))) := by
  rw [decode, hc, if_pos rfl] at h
  obtain ⟨ht, h⟩ := decodeTagged_ok h
  refine ⟨ht, h.imp id fun h => ?_⟩
  obtain ⟨es, xs, hraw, hm, rfl⟩ := h
  rw [decodeSetField_of_get rt hraw, decodeMembers_iff] at hm
  obtain ⟨w, hw, hx⟩ := hm
  exact ⟨es, xs, w, hraw, hw, hx, rfl⟩

/-- What an object decodes to: what an envelope does, or a dictionary with its keys. -/
theorem decode_obj_cases {rt : Runtime} {kvs : Dict Str Json} {v : PyVal}
    (h : decode rt (.obj kvs) = .ok v) :
    isEnveloped v = true ∨
    (∃ es xs w, (VALUE_KEY, Json.arr es) ∈ kvs ∧ decode rt (.arr es) = .ok w ∧
      coerceSetMember w = .ok (.tuple xs) ∧ v = .set (rt.setOrder (uniques xs))) ∨
    (Dict.contains kvs TYPE_KEY = false ∧
      ∃ vs, List.Forall₂ (EntryDecodes rt) kvs vs ∧ v = .dict vs) := by
  cases hc : Dict.contains kvs TYPE_KEY with
  | true =>
    rcases (decode_tagged_ok hc h).2 with ⟨he, -⟩ | ⟨es, xs, w, hraw, hw, hx, rfl⟩
    · exact Or.inl he
    · exact Or.inr (Or.inl ⟨es, xs, w, Dict.mem_of_get hraw, hw, hx, rfl⟩)
  | false => exact Or.inr (Or.inr ⟨rfl, (decode_obj_ok hc).mp h⟩)

/-- A property that JSON values have and one that their decodings get from it. -/
structure Passed (Q : Json → Prop) (p : PyVal → Prop) : Prop where
  arr : ∀ xs, Q (.arr xs) → ∀ x ∈ xs, Q x
  obj : ∀ kvs : Dict Str Json, Q (.obj kvs) → ∀ k x, (k, x) ∈ kvs → Q x
  none : p .none
  bool : ∀ b, p (.bool b)
  int : ∀ i, Q (.int i) → p (.int i)
  float : ∀ f, p (.float f)
  str : ∀ s, Q (.str s) → p (.str s)
  enveloped : ∀ v, isEnveloped v = true → p v
  list : ∀ xs, p (.list xs)
  tuple : ∀ xs, p (.tuple xs)
  set : ∀ xs, SetLike xs → p (.set xs)
  dict : ∀ (kvs : Dict Str Json) (vs : PyDict), Q (.obj kvs) →
    Dict.contains kvs TYPE_KEY = false → Dict.keys vs = (Dict.keys kvs).map PyKey.str → p (.dict vs)

theorem everywhere_of_isEnveloped {p : PyVal → Prop} {v : PyVal} (h : isEnveloped v = true)
    (hp : p v) : everywhere p v := by
  cases v <;> first | exact hp | cases h

/-- **Such a property holds everywhere in what is decoded.** -/
theorem Passed.decode {rt : Runtime} {Q : Json → Prop} {p : PyVal → Prop} (h : Passed Q p)
    {j : Json} (hj : Q j) {v : PyVal} (hv : decode rt j = .ok v) : everywhere p v := by
  induction j using Json.induct generalizing v with
  | arr xs ih =>
    obtain ⟨vs, hvs, rfl⟩ := decode_arr_ok.mp hv
    refine everywhere_list.mpr ⟨h.list vs, fun v hv => ?_⟩
    obtain ⟨x, hx, hxv⟩ := forall₂_mem_right hvs hv
    exact ih x hx (h.arr xs hj x hx) hxv
  | obj kvs ih =>
    rcases decode_obj_cases hv with he | ⟨es, xs, w, hm, hw, hx, rfl⟩ | ⟨hc, vs, hvs, rfl⟩
    · exact everywhere_of_isEnveloped he (h.enveloped v he)
    · have hp := rt.setOrder_perm (uniques xs)
      obtain ⟨hh, hxs⟩ := coerce_everywhere h.tuple hx (ih VALUE_KEY _ hm (h.obj kvs hj _ _ hm) hw)
      have hset : SetLike (uniques xs) :=
        ⟨fun x hx => hashable_tuple.mp hh x (mem_uniques hx), pairwise_uniques xs⟩
      refine everywhere_set.mpr ⟨h.set _ (setLike_perm hp.symm hset), fun x hx => ?_⟩
      exact (everywhere_tuple.mp hxs).2 x (mem_uniques (hp.mem_iff.mp hx))
    · refine everywhere_dict.mpr ⟨h.dict kvs vs hj hc (keys_decoded hvs), fun k v hm => ?_⟩
      obtain ⟨je, hje, -, hd⟩ := forall₂_mem_right hvs hm
      exact ih je.1 je.2 hje (h.obj kvs hj _ _ hje) hd
  | null =>
    cases hv
    exact h.none
  | bool b =>
    cases hv
    exact h.bool b
  | int i =>
    cases hv
    exact h.int i hj
  | float f =>
    cases hv
    exact h.float f
  | str s =>
    cases hv
    exact h.str s hj

theorem passed_wf : Passed Json.distinct localWf where
  arr _ h := Json.distinct_arr.mp h
  obj _ h := (Json.distinct_obj.mp h).2
  none := trivial
  bool _ := trivial
  int _ _ := trivial
  float _ := trivial
  str _ _ := trivial
  enveloped v h := by cases v <;> trivial
  list _ := trivial
  tuple _ := trivial
  set _ h := h
  dict kvs vs hj _ hk := by
    show (Dict.keys vs).Nodup
    rw [hk, List.nodup_map_iff str_injective]
    exact (Json.distinct_obj.mp hj).1

theorem passed_unreserved : Passed (fun _ => True) localUnreserved where
  arr _ _ _ _ := trivial
  obj _ _ _ _ _ := trivial
  none := trivial
  bool _ := trivial
  int _ _ := trivial
  float _ := trivial
  str _ _ := trivial
  enveloped v h := by cases v <;> trivial
  list _ := trivial
  tuple _ := trivial
  set _ _ := trivial
  dict kvs vs _ hc hk := by
    show Dict.contains vs (.str TYPE_KEY) = false
    rw [contains_eq_false, hk, List.mem_map_of_injective str_injective, ← contains_eq_false]
    exact hc

theorem passed_texts (q : Str → Prop) : Passed (Json.texts q) (localTexts q) where
  arr _ h := Json.texts_arr.mp h
  obj _ h k x hm := (Json.texts_obj.mp h k x hm).2
  none := trivial
  bool _ := trivial
  int _ _ := trivial
  float _ := trivial
  str _ h := h
  enveloped v h := by cases v <;> trivial
  list _ := trivial
  tuple _ := trivial
  set _ _ := trivial
  dict kvs vs hj _ hk k hm := by
    rw [hk, List.mem_map_of_injective str_injective] at hm
    obtain ⟨⟨k', x⟩, hx, rfl⟩ := List.mem_map.mp hm
    exact (Json.texts_obj.mp hj k' x hx).1

/-- What every decoded value is like. -/
structure Decoded (v : PyVal) : Prop where
  wf : v.wf
  unreserved : unreserved v
  stored : stored v = v

/-- What is decoded has tuples only inside sets. -/
theorem stored_decoded {rt : Runtime} {j : Json} {v : PyVal} (h : decode rt j = .ok v) :
    stored v = v := by
  induction j using Json.induct generalizing v with
  | arr xs ih =>
    obtain ⟨vs, hvs, rfl⟩ := decode_arr_ok.mp h
    rw [stored_list]
    refine congrArg PyVal.list ((List.map_congr_left fun v hv => ?_).trans (List.map_id vs))
    obtain ⟨x, hx, hxv⟩ := forall₂_mem_right hvs hv
    exact ih x hx hxv
  | obj kvs ih =>
    rcases decode_obj_cases h with he | ⟨es, xs, w, -, -, -, rfl⟩ | ⟨-, vs, hvs, rfl⟩
    · cases v <;> first | rfl | cases he
    · rfl
    · rw [stored_dict]
      refine congrArg PyVal.dict ((List.map_congr_left fun kv hkv => ?_).trans (List.map_id vs))
      obtain ⟨je, hje, -, hd⟩ := forall₂_mem_right hvs hkv
      exact Prod.ext rfl (ih je.1 je.2 hje hd)
  | _ =>
    cases h
    rfl

/-- **What is decoded** is well-formed, has no reserved key at any depth, and has tuples only
    inside sets. -/
theorem decoded {rt : Runtime} {j : Json} (hj : j.distinct) {v : PyVal}
    (h : decode rt j = .ok v) : Decoded v where
  wf := passed_wf.decode hj h
  unreserved := passed_unreserved.decode trivial h
  stored := stored_decoded h

end JsonDatabase
