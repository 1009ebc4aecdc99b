/-
  File:      JsonDatabase/Canonical.lean
  Subject:   Encoding and decoding again, and the canonical bytes.

  * `decode_undoes_encode` -- a document is read back as its stored form;
  * `fixed_point` -- what was decoded once is decoded and encoded again without a change;
  * `canonical_bytes` -- values that differ in their orders only have the same canonical bytes.
-/
import JsonDatabase.RoundTrip
import JsonDatabase.Interpreter

namespace JsonDatabase

open PyVal hiding none

/-! ## 1. Encoding, then decoding -/

/-- **Decoding undoes encoding** on every document that is accepted. -/
theorem decode_undoes_encode (rt : Runtime) (document : PyObj)
    (h : validateDocument rt document.val = .ok ()) :
    ∃ e w, encode rt document.val = .ok e ∧ decode rt e = .ok w ∧ ReadsAs document.val w := by
  obtain ⟨fields, e, -, hr, he⟩ := validateDocument_ok.mp h
  obtain ⟨w, hd, hs⟩ := decode_encode document.wf (unreserved_of_encode hr he) he
  exact ⟨e, w, he, hd, hs⟩

/-- A tuple in a tuple in a set, and a tuple outside. -/
def nested : PyObj where
  val := .dict [(.str (lit "s"), .set [.tuple [.int 1, .tuple [.bool true]]]),
    (.str (lit "t"), .tuple [.none])]
  wf := by
    simp only [PyVal.wf, everywhere, everywhereEntries, everywhereList, localWf,
      PyVal.SetLike]
    simp [hashable, hashableList, Dict.Distinct, Dict.keys, lit]

theorem nested_read_back : ∃ e w, encode interpreter nested.val = .ok e ∧
    decode interpreter e = .ok w ∧ ReadsAs nested.val w :=
  decode_undoes_encode interpreter nested rfl

/-! ## 2. Decoding, then encoding -/

/-- One value has the text of the other, and is that value unless a character is in two halves. -/
def Reencoded (rt : Runtime) (e e' : Json) : Prop :=
  Json.SameText rt.floats e e' ∧ (e.unsplit → e' = e)

theorem reencoded_arr {rt : Runtime} {es es' : List Json}
    (h : List.Forall₂ (Reencoded rt) es es') : Reencoded rt (.arr es) (.arr es') := by
  refine ⟨Json.sameText_arr (h.imp fun _ _ h => h.1), fun hu => ?_⟩
  have heq := forall₂_imp_mem h fun e he e' _ hr => (hr.2 (Json.texts_arr.mp hu e he)).symm
  rw [List.forall₂_eq_eq_eq] at heq
  rw [heq]

theorem reencoded_obj {rt : Runtime} {a b : Dict Str Json}
    (h : List.Forall₂ (fun p q => p.1 = q.1 ∧ Reencoded rt p.2 q.2) a b) :
    Reencoded rt (.obj a) (.obj b) := by
  refine ⟨Json.sameText_obj (h.imp fun _ _ h => ⟨h.1, h.2.1⟩), fun hu => ?_⟩
  have heq := forall₂_imp_mem h fun p hp q _ hr =>
    Prod.ext hr.1 (hr.2.2 (Json.texts_obj.mp hu p.1 p.2 hp).2).symm
  rw [List.forall₂_eq_eq_eq] at heq
  rw [heq]

/-- The keys of the members do not see the order the members came in, and members with one key
    have one text. -/
theorem sameText_sorted {rt : Runtime} {es fs : List Json} {keyed keyed' : List (Str × Json)}
    (hk : es.mapM (itemKey rt) = .ok keyed) (hk' : fs.mapM (itemKey rt) = .ok keyed')
    (hp : keyed.Perm keyed') : List.Forall₂ (Json.SameText rt.floats)
      ((keyed.insertionSort Json.KeyLe).map Prod.snd)
      ((keyed'.insertionSort Json.KeyLe).map Prod.snd) := by
  have sorted (ks : List (Str × Json)) :
      ((ks.insertionSort Json.KeyLe).map Prod.fst).Pairwise (· ≤ ·) :=
    List.pairwise_map.mpr (List.pairwise_insertionSort Json.KeyLe ks)
  have hperm : (keyed.insertionSort Json.KeyLe).Perm (keyed'.insertionSort Json.KeyLe) :=
    (List.perm_insertionSort _ _).trans (hp.trans (List.perm_insertionSort _ _).symm)
  have hkeys := (hperm.map Prod.fst).eq_of_pairwise (fun _ _ _ _ => le_antisymm) (sorted _) (sorted _)
  have member {es : List Json} {ks : List (Str × Json)} (hk : es.mapM (itemKey rt) = .ok ks)
      {p : Str × Json} (hm : p ∈ ks.insertionSort Json.KeyLe) :
      Json.dumps rt.floats true compact p.2 = some p.1 := by
    obtain ⟨e, -, hi⟩ := forall₂_mem_right (mapM_ok.mp hk) ((List.mem_insertionSort _).mp hm)
    obtain ⟨hd, rfl⟩ := itemKey_ok.mp hi
    exact hd
  rw [← List.forall₂_eq_eq_eq, List.forall₂_map_left_iff, List.forall₂_map_right_iff] at hkeys
  rw [List.forall₂_map_left_iff, List.forall₂_map_right_iff]
  refine forall₂_imp_mem hkeys fun p hm q hm' hpq => Json.sameText_of_dumps (member hk hm) ?_
  rw [hpq]
  exact member hk' hm'

/-- **What the encoder made is decoded to something it encodes alike.** -/
theorem reencode {rt : Runtime} {v : PyVal} (hw : v.wf) (hr : unreserved v) {e : Json}
    (he : encode rt v = .ok e) {w : PyVal} (hd : decode rt e = .ok w) :
    ∃ e', encode rt w = .ok e' ∧ Reencoded rt e e' := by
  have items {xs : List PyVal} {es : List Json} {ws : List PyVal}
      (ih : ∀ x ∈ xs, ∀ {e : Json}, encode rt x = .ok e → ∀ {w : PyVal}, decode rt e = .ok w →
        ∃ e', encode rt w = .ok e' ∧ Reencoded rt e e')
      (hes : List.Forall₂ (fun x y => encode rt x = .ok y) xs es)
      (hws : List.Forall₂ (fun x y => decode rt x = .ok y) es ws) :
      ∃ es', List.Forall₂ (fun x y => encode rt x = .ok y) ws es' ∧
        List.Forall₂ (Reencoded rt) es es' := by
    obtain ⟨es', hee, hwe⟩ := forall₂_choose hws fun e he w _ hew => by
      obtain ⟨x, hx, hxe⟩ := forall₂_mem_right hes he
      exact (ih x hx hxe hew).imp fun _ h => h.symm
    exact ⟨es', hwe, hee⟩
  induction v using PyVal.induct generalizing e w with
  | list xs ih =>
    obtain ⟨-, hw⟩ := everywhere_list.mp hw
    obtain ⟨-, hr⟩ := everywhere_list.mp hr
    obtain ⟨es, hes, rfl⟩ := encode_list_ok.mp he
    obtain ⟨ws, hws, rfl⟩ := decode_arr_ok.mp hd
    obtain ⟨es', hwe, hee⟩ := items (fun x hx => ih x hx (hw x hx) (hr x hx)) hes hws
    exact ⟨.arr es', encode_list_ok.mpr ⟨es', hwe, rfl⟩, reencoded_arr hee⟩
  | tuple xs ih =>
    obtain ⟨-, hw⟩ := everywhere_tuple.mp hw
    obtain ⟨-, hr⟩ := everywhere_tuple.mp hr
    obtain ⟨es, hes, rfl⟩ := encode_tuple_ok.mp he
    obtain ⟨ws, hws, rfl⟩ := decode_arr_ok.mp hd
    obtain ⟨es', hwe, hee⟩ := items (fun x hx => ih x hx (hw x hx) (hr x hx)) hes hws
    exact ⟨.arr es', encode_list_ok.mpr ⟨es', hwe, rfl⟩, reencoded_arr hee⟩
  | set xs ih =>
    obtain ⟨hset, hxs⟩ := everywhere_set.mp hw
    obtain ⟨es, hes, keyed, hk, rfl⟩ := encode_set_ok.mp he
    obtain ⟨xs', -, hes', hdx⟩ := decode_encode_set hset hes hk
    obtain rfl : _ = w := Except.ok.inj (hdx.symm.trans hd)
    -- the members in the order they are iterated in once read
    obtain ⟨fs, hfs, hpf⟩ := forall₂_perm hes' (rt.setOrder_perm xs').symm
    obtain ⟨keyed', hk', hpk⟩ := forall₂_perm (mapM_ok.mp hk) ((sorted_perm hk).trans hpf)
    have hk' := mapM_ok.mpr hk'
    refine ⟨_, encode_set_ok.mpr ⟨fs, hfs, keyed', hk', rfl⟩, ?_, fun hu => ?_⟩
    · exact Json.sameText_obj (.cons ⟨rfl, Json.sameText_refl _⟩
        (.cons ⟨rfl, Json.sameText_arr (sameText_sorted hk hk' hpk)⟩ .nil))
    · rw [insertionSort_keyed hset.1 hxs hes (fun e hm => unsplit_envelope_arr hu e
        ((sorted_perm hk).mem_iff.mp hm)) hk hpk]
  | dict kvs ih =>
    obtain ⟨-, hw⟩ := everywhere_dict.mp hw
    obtain ⟨hnr, hr⟩ := everywhere_dict.mp hr
    obtain ⟨es, hes, rfl⟩ := encode_dict_ok.mp he
    have hc : Dict.contains es TYPE_KEY = false := by
      rw [← contains_encoded hes]
      exact hnr
    obtain ⟨ws, hws, rfl⟩ := (decode_obj_ok hc).mp hd
    obtain ⟨es', hee, hwe⟩ := forall₂_choose (T := EntryEncodes rt)
      (S := fun p q => p.1 = q.1 ∧ Reencoded rt p.2 q.2) hws fun je hje kw _ h => by
        obtain ⟨kv, hkv, hke⟩ := forall₂_mem_right hes hje
        obtain ⟨e', he', hre⟩ := ih kv.1 kv.2 hkv (hw _ _ hkv) (hr _ _ hkv) hke.2 h.2
        exact ⟨(je.1, e'), ⟨rfl, hre⟩, h.1, he'⟩
    exact ⟨.obj es', encode_dict_ok.mpr ⟨es', hwe, rfl⟩, reencoded_obj hee⟩
  | frozenset xs ih => cases he
  | _ =>
    obtain rfl : _ = w := Except.ok.inj ((decode_encode_atom rfl he).2.symm.trans hd)
    exact ⟨e, he, Json.sameText_refl e, fun _ => rfl⟩

/-- The members of a set are hashable. -/
def localHashable : PyVal → Prop
  | .set xs => ∀ x ∈ xs, x.hashable = true
  | _ => True

/-- **Decoding reaches a fixed point in one step**, exactly for whatever is read from a file. -/
theorem fixed_point (rt : Runtime) {j e : Json} {v : PyVal} (hj : j.distinct)
    (hd : decode rt j = .ok v) (he : encode rt v = .ok e) :
    (unreserved v ∧ stored v = v ∧ everywhere localHashable v) ∧
      ∃ w e', decode rt e = .ok w ∧ Same v w ∧ encode rt w = .ok e' ∧
        Json.dumps rt.floats true compact e' = Json.dumps rt.floats true compact e ∧
        (j.unsplit ∨ (∃ raw, parseBytes rt raw = .ok j) → e' = e) := by
  have hdec := decoded hj hd
  obtain ⟨w, hw, hs⟩ := decode_encode hdec.wf hdec.unreserved he
  rw [hdec.stored] at hs
  obtain ⟨e', he', ht, hu⟩ := reencode hdec.wf hdec.unreserved he hw
  refine ⟨⟨hdec.unreserved, hdec.stored, ?_⟩, w, e', hw, hs, he', ht.dumps.symm, fun hj => hu ?_⟩
  · refine everywhere_imp (fun v h => ?_) hdec.wf
    cases v with
    | set xs => exact h.1
    | _ => trivial
  · have hj : j.unsplit := hj.elim id fun h => h.elim fun _ h => parseBytes_unsplit h
    exact (encode_texts (fun s h => unsplit_of_scalarOnly (scalarOnly_of_isAscii h)) he).mp
      ((passed_texts _).decode hj hd)

/-- An envelope with an equal member of another type and with a key it should not have. -/
theorem lenient_set_settles : ∃ w e',
    decode interpreter (envelope "set" (.arr [.int 1])) = .ok w ∧ Same (.set [.int 1]) w ∧
      encode interpreter w = .ok e' ∧ e' = envelope "set" (.arr [.int 1]) := by
  have hj : (Json.obj [(TYPE_KEY, .str (lit "set")), (VALUE_KEY, .arr [.int 1, .bool true]),
      ([], .null)]).distinct := by
    simp [Json.distinct, Json.distinctEntries, Json.distinctList, Dict.Distinct, Dict.keys,
      TYPE_KEY, VALUE_KEY, lit]
  have hu : uniques [.int 1, .bool true] = [.int 1] := by
    simp [uniques, pyEq, numEq, num, PyNum.eq]
  obtain ⟨-, w, e', hd, hs, he, -, hu⟩ := fixed_point interpreter hj
    (v := .set [.int 1]) (e := envelope "set" (.arr [.int 1]))
    (congrArg (fun xs => Except.ok (PyVal.set xs)) hu) rfl
  refine ⟨w, e', hd, hs, he, hu (Or.inl ?_)⟩
  simp [Json.unsplit, Json.texts, Json.textsEntries, Json.textsList]
  decide

/-- An interpreter that iterates a set against the order it was built in, as one does under some
    hash seeds with two strings that meet in the table. -/
def backward : Runtime :=
  { interpreter with setOrder := List.reverse, setOrder_perm := List.reverse_perm }

/-- A set of two strings: a character, and the two halves of it. -/
def splitSet : Json := envelope "set" (.arr [.str [0x1F600], .str [0xD83D, 0xDE00]])

theorem decode_backward {a b : Str} (h : a ≠ b) :
    decode backward (envelope "set" (.arr [.str a, .str b])) = .ok (.set [.str b, .str a]) := by
  have hu : uniques [.str a, .str b] = [.str a, .str b] :=
    uniques_of_pairwise (by simp [pyEq, h, h.symm])
  rw [decode_envelope_set]
  show Except.ok (PyVal.set (uniques [.str a, .str b]).reverse) = _
  rw [hu]
  rfl

set_option maxRecDepth 20000 in
/-- The two strings have one sorting key, so that they are written in the order the set is
    iterated in, and that order may change from one reading to the next. -/
theorem split_set_drifts : ∃ v w e e', splitSet.distinct ∧ decode backward splitSet = .ok v ∧
    encode backward v = .ok e ∧ decode backward e = .ok w ∧ encode backward w = .ok e' ∧ e' ≠ e := by
  refine ⟨.set [.str [0xD83D, 0xDE00], .str [0x1F600]], .set [.str [0x1F600], .str [0xD83D, 0xDE00]],
    envelope "set" (.arr [.str [0xD83D, 0xDE00], .str [0x1F600]]), splitSet, ?_,
    decode_backward (by decide), rfl, decode_backward (by decide), rfl, fun h => ?_⟩
  · exact distinct_envelope (Json.distinct_arr.mpr fun x hx => by
      simp only [List.mem_cons, List.not_mem_nil, or_false] at hx
      rcases hx with rfl | rfl <;> trivial)
  · simp [splitSet, envelope] at h

/-! ## 3. The canonical bytes -/

/-- The two values differ only in the order of dictionary entries and in the order in which sets
    and frozen sets are iterated, at any depth. -/
inductive Reordered : PyVal → PyVal → Prop where
  | refl (v : PyVal) : Reordered v v
  | symm {v w : PyVal} : Reordered v w → Reordered w v
  | trans {u v w : PyVal} : Reordered u v → Reordered v w → Reordered u w
  | dictOrder {a b : PyDict} : a.Perm b → Reordered (.dict a) (.dict b)
  | setOrder {xs ys : List PyVal} : xs.Perm ys → Reordered (.set xs) (.set ys)
  | frozensetOrder {xs ys : List PyVal} : xs.Perm ys → Reordered (.frozenset xs) (.frozenset ys)
  | inDict {v w : PyVal} (a b : PyDict) (k : PyKey) :
      Reordered v w → Reordered (.dict (a ++ (k, v) :: b)) (.dict (a ++ (k, w) :: b))
  | inSet {v w : PyVal} (xs ys : List PyVal) :
      Reordered v w → Reordered (.set (xs ++ v :: ys)) (.set (xs ++ w :: ys))
  | inFrozenset {v w : PyVal} (xs ys : List PyVal) :
      Reordered v w → Reordered (.frozenset (xs ++ v :: ys)) (.frozenset (xs ++ w :: ys))
  | inList {v w : PyVal} (xs ys : List PyVal) :
      Reordered v w → Reordered (.list (xs ++ v :: ys)) (.list (xs ++ w :: ys))
  | inTuple {v w : PyVal} (xs ys : List PyVal) :
      Reordered v w → Reordered (.tuple (xs ++ v :: ys)) (.tuple (xs ++ w :: ys))

theorem reordered_congruence : DictCongruence Reordered where
  refl := .refl
  trans _ _ _ := .trans
  dictOrder _ _ := .dictOrder
  inDict _ _ a b k := .inDict a b k

/-- It is no frozen set. -/
def localThawed : PyVal → Prop
  | .frozenset _ => False
  | _ => True

/-- No frozen set at any depth. -/
def thawed (v : PyVal) : Prop := everywhere localThawed v

theorem thawed_of_encode {rt : Runtime} {v : PyVal} (h : Encodable rt v) : thawed v := by
  refine everywhere_imp (fun v h => ?_) (encodable_everywhere h)
  obtain ⟨e, he⟩ := h
  cases v with
  | frozenset xs => cases he
  | _ => trivial

theorem orderFree_localThawed : OrderFree localThawed where
  dict _ _ := trivial
  set _ _ := trivial
  list _ := trivial
  tuple _ := trivial

theorem Same.thawed_iff {v w : PyVal} (h : Same v w) : thawed v ↔ thawed w :=
  h.everywhere orderFree_localThawed

/-- **Without frozen sets the members of sets have no order inside**, so that the values are the
    same in the sense of the decoder. -/
theorem Reordered.same {v w : PyVal} (h : Reordered v w) :
    (thawed v → v.wf → Same v w) ∧ (thawed w → w.wf → Same v w) := by
  induction h with
  | refl v => exact ⟨fun _ _ => .refl v, fun _ _ => .refl v⟩
  | symm _ ih => exact ⟨fun ht hw => (ih.2 ht hw).symm, fun ht hw => (ih.1 ht hw).symm⟩
  | trans _ _ ih ih' =>
    refine ⟨fun ht hw => ?_, fun ht hw => ?_⟩
    · have h := ih.1 ht hw
      exact h.trans (ih'.1 (h.thawed_iff.mp ht) (h.wf_iff.mp hw))
    · have h := ih'.2 ht hw
      exact (ih.2 (h.thawed_iff.mpr ht) (h.wf_iff.mpr hw)).trans h
  | dictOrder hp => exact ⟨fun _ _ => .dictOrder hp, fun _ _ => .dictOrder hp⟩
  | setOrder hp => exact ⟨fun _ _ => .setOrder hp, fun _ _ => .setOrder hp⟩
  | frozensetOrder hp => exact ⟨fun ht _ => ht.self.elim, fun ht _ => ht.self.elim⟩
  | inFrozenset xs ys _ ih => exact ⟨fun ht _ => ht.self.elim, fun ht _ => ht.self.elim⟩
  | @inDict v w a b k _ ih =>
    have inner {v : PyVal} (ht : thawed (.dict (a ++ (k, v) :: b)))
        (hw : (PyVal.dict (a ++ (k, v) :: b)).wf) : thawed v ∧ v.wf :=
      ⟨(everywhere_dict.mp ht).2 k v (by simp), (everywhere_dict.mp hw).2 k v (by simp)⟩
    exact ⟨fun ht hw => .inDict a b k (ih.1 (inner ht hw).1 (inner ht hw).2),
      fun ht hw => .inDict a b k (ih.2 (inner ht hw).1 (inner ht hw).2)⟩
  | @inSet v w xs ys _ ih =>
    have inner {v : PyVal} (ht : thawed (.set (xs ++ v :: ys)))
        (hw : (PyVal.set (xs ++ v :: ys)).wf) : thawed v ∧ v.wf ∧ v.hashable = true :=
      ⟨(everywhere_set.mp ht).2 v (by simp), (everywhere_set.mp hw).2 v (by simp),
        (everywhere_set.mp hw).1.1 v (by simp)⟩
    refine ⟨fun ht hw => ?_, fun ht hw => ?_⟩
    · obtain ⟨ht, hw, hh⟩ := inner ht hw
      rw [(ih.1 ht hw).eq_of_hashable hh]
      exact .refl _
    · obtain ⟨ht, hw, hh⟩ := inner ht hw
      rw [(ih.2 ht hw).symm.eq_of_hashable hh]
      exact .refl _
  | @inList v w xs ys _ ih =>
    have inner {v : PyVal} (ht : thawed (.list (xs ++ v :: ys)))
        (hw : (PyVal.list (xs ++ v :: ys)).wf) : thawed v ∧ v.wf :=
      ⟨(everywhere_list.mp ht).2 v (by simp), (everywhere_list.mp hw).2 v (by simp)⟩
    exact ⟨fun ht hw => .inList xs ys (ih.1 (inner ht hw).1 (inner ht hw).2),
      fun ht hw => .inList xs ys (ih.2 (inner ht hw).1 (inner ht hw).2)⟩
  | @inTuple v w xs ys _ ih =>
    have inner {v : PyVal} (ht : thawed (.tuple (xs ++ v :: ys)))
        (hw : (PyVal.tuple (xs ++ v :: ys)).wf) : thawed v ∧ v.wf :=
      ⟨(everywhere_tuple.mp ht).2 v (by simp), (everywhere_tuple.mp hw).2 v (by simp)⟩
    exact ⟨fun ht hw => .inTuple xs ys (ih.1 (inner ht hw).1 (inner ht hw).2),
      fun ht hw => .inTuple xs ys (ih.2 (inner ht hw).1 (inner ht hw).2)⟩

theorem Reordered.dumpBytes {rt : Runtime} {σ : Style} {v w : PyVal} (h : Reordered v w)
    (hv : v.wf) {b : Bytes} (hb : dumpBytes rt σ v = .ok b) :
    JsonDatabase.dumpBytes rt σ w = .ok b := by
  obtain ⟨e, he, -⟩ := dumpBytes_ok.mp hb
  exact (h.same.1 (thawed_of_encode ⟨e, he⟩) hv).dumpBytes hv hb

/-- The second value is a dictionary that answers like the first, if that is one. -/
def ReorderedEntries (v w : PyVal) : Prop :=
  ∀ a, v = .dict a → Dict.Distinct a → ∃ b, w = .dict b ∧ Dict.Distinct b ∧
    ∀ k, Option.Rel Reordered (Dict.get a k) (Dict.get b k)

theorem optionRel_refl (o : Option PyVal) : Option.Rel Reordered o o := by
  cases o with
  | none => exact .none
  | some v => exact .some (.refl v)

theorem reorderedEntries_inDict {v w : PyVal} (a b : PyDict) (k : PyKey) (h : Reordered v w) :
    ReorderedEntries (.dict (a ++ (k, v) :: b)) (.dict (a ++ (k, w) :: b)) := by
  intro c hc hd
  cases hc
  have hr : List.Forall₂ (RelEntry Reordered) (a ++ (k, v) :: b) (a ++ (k, w) :: b) :=
    List.rel_append (List.forall₂_same.mpr fun _ _ => ⟨rfl, .refl _⟩)
      (.cons ⟨rfl, h⟩ (List.forall₂_same.mpr fun _ _ => ⟨rfl, .refl _⟩))
  refine ⟨_, rfl, ?_, get_relEntry hr⟩
  unfold Dict.Distinct at hd ⊢
  rwa [← keys_relEntry hr]

theorem Reordered.entries {v w : PyVal} (h : Reordered v w) :
    ReorderedEntries v w ∧ ReorderedEntries w v := by
  have perm {a b : PyDict} (hp : a.Perm b) : ReorderedEntries (.dict a) (.dict b) := by
    intro c hc hd
    cases hc
    refine ⟨b, rfl, (Dict.distinct_perm hp).mp hd, fun k => ?_⟩
    rw [Dict.get_perm hp hd]
    exact optionRel_refl _
  have trans {u v w : PyVal} (h : ReorderedEntries u v) (h' : ReorderedEntries v w) :
      ReorderedEntries u w := by
    intro a ha hd
    obtain ⟨b, hb, hdb, hab⟩ := h a ha hd
    obtain ⟨c, hc, hdc, hbc⟩ := h' b hb hdb
    refine ⟨c, hc, hdc, fun k => ?_⟩
    have h1 := hab k
    have h2 := hbc k
    generalize Dict.get a k = x at h1 ⊢
    generalize Dict.get b k = y at h1 h2
    generalize Dict.get c k = z at h2 ⊢
    cases h1 with
    | none =>
      cases h2 with
      | none => exact .none
    | some h1 =>
      cases h2 with
      | some h2 => exact .some (h1.trans h2)
  induction h with
  | refl v => exact ⟨fun a ha hd => ⟨a, ha, hd, fun k => optionRel_refl _⟩,
      fun a ha hd => ⟨a, ha, hd, fun k => optionRel_refl _⟩⟩
  | symm _ ih => exact ih.symm
  | trans _ _ ih ih' => exact ⟨trans ih.1 ih'.1, trans ih'.2 ih.2⟩
  | dictOrder hp => exact ⟨perm hp, perm hp.symm⟩
  | inDict a b k h _ =>
    exact ⟨reorderedEntries_inDict a b k h, reorderedEntries_inDict a b k h.symm⟩
  | _ => exact ⟨nofun, nofun⟩

/-- **Nulling the checksum does not see the orders.** -/
theorem Reordered.setChecksum {s t : State} (h : Reordered (.dict s) (.dict t))
    (hs : (PyVal.dict s).wf) {c : State} (hc : setChecksum s .none = .ok c) :
    (PyVal.dict c).wf ∧ ∃ c', JsonDatabase.setChecksum t .none = .ok c' ∧
      Reordered (.dict c) (.dict c') := by
  obtain ⟨fields, hf, e⟩ := bind_ok.mp hc
  cases e
  have hfields := asDict_ok.mp hf
  have hwf := wf_getD hs META wf_empty
  rw [hfields] at hwf
  obtain ⟨t', ht, hdt, hget⟩ := h.entries.1 s rfl (everywhere_dict.mp hs).1
  cases ht
  have hm : Reordered (.dict fields) ((Dict.get t META).getD (.dict [])) := by
    rw [← hfields]
    have hget := hget META
    generalize Dict.get s META = o at hget ⊢
    generalize Dict.get t META = o' at hget ⊢
    cases hget with
    | none => exact .refl _
    | some h => exact h
  obtain ⟨fields', hf', hdf', hgetf⟩ := hm.entries.1 fields rfl (everywhere_dict.mp hwf).1
  refine ⟨wf_put hs META (wf_put hwf CONTENT_SHA256 trivial),
    Dict.put t META (.dict (Dict.put fields' CONTENT_SHA256 .none)),
    bind_ok.mpr ⟨fields', asDict_ok.mpr hf', rfl⟩, ?_⟩
  exact reordered_congruence.put (everywhere_dict.mp hs).1 hdt hget META
    (reordered_congruence.put (everywhere_dict.mp hwf).1 hdf' hgetf CONTENT_SHA256 (.refl _))

theorem Reordered.computeChecksum {rt : Runtime} {s t : State} (h : Reordered (.dict s) (.dict t))
    (hs : (PyVal.dict s).wf) {d : Str} (hd : computeChecksum rt .total s = .ok d) :
    JsonDatabase.computeChecksum rt .total t = .ok d := by
  rw [computeChecksum_total] at hd ⊢
  obtain ⟨c, hc, hd⟩ := bind_ok.mp hd
  obtain ⟨b, hb, hd⟩ := bind_ok.mp hd
  obtain ⟨hw, c', hc', hr⟩ := h.setChecksum hs hc
  exact bind_ok.mpr ⟨c', hc', bind_ok.mpr ⟨b, hr.dumpBytes hw hb, hd⟩⟩

/-- **The canonical bytes depend only on the value**: those of two values that differ in their
    orders are the same, or neither has any; and so is the checksum of two states. -/
theorem canonical_bytes (rt : Runtime) (v w : PyObj) (h : Reordered v.val w.val) :
    ((∃ b, dumpBytes rt compact v.val = .ok b ∧ dumpBytes rt compact w.val = .ok b) ∨
      ∃ e e', dumpBytes rt compact v.val = .error e ∧ dumpBytes rt compact w.val = .error e' ∧
        e.type = .serializationError ∧ e'.type = .serializationError) ∧
    ∀ s t : State, v.val = .dict s → w.val = .dict t →
      ∀ d, computeChecksum rt .total s = .ok d ↔ computeChecksum rt .total t = .ok d := by
  refine ⟨?_, fun s t hs ht d => ?_⟩
  · cases hv : dumpBytes rt compact v.val with
    | ok b => exact Or.inl ⟨b, rfl, h.dumpBytes v.wf hv⟩
    | error e =>
      cases hw : dumpBytes rt compact w.val with
      | ok b => exact absurd (hv.symm.trans (h.symm.dumpBytes w.wf hw)) nofun
      | error e' => exact Or.inr ⟨e, e', rfl, rfl, dumpBytes_error hv, dumpBytes_error hw⟩
  · have hvw := v.wf
    have hww := w.wf
    rw [hs] at h hvw
    rw [ht] at h hww
    exact ⟨h.computeChecksum hvw, h.symm.computeChecksum hww⟩

/-- A dictionary with a set, and the same with both orders turned round. -/
def oneOrder : PyObj where
  val := .dict [(.str (lit "s"), .set [.int 1, .tuple [.int 2]]), (.str (lit "t"), .none)]
  wf := by
    simp only [PyVal.wf, everywhere, everywhereEntries, everywhereList, localWf,
      PyVal.SetLike]
    simp [hashable, hashableList, Dict.Distinct, Dict.keys, lit, pyEq, numEq, num]

def otherOrder : PyObj where
  val := .dict [(.str (lit "t"), .none), (.str (lit "s"), .set [.tuple [.int 2], .int 1])]
  wf := by
    simp only [PyVal.wf, everywhere, everywhereEntries, everywhereList, localWf,
      PyVal.SetLike]
    simp [hashable, hashableList, Dict.Distinct, Dict.keys, lit, pyEq, numEq, num]

set_option maxRecDepth 20000 in
theorem orders_written_alike : ∃ b, dumpBytes interpreter compact oneOrder.val = .ok b ∧
    dumpBytes interpreter compact otherOrder.val = .ok b := by
  have h : Reordered oneOrder.val otherOrder.val :=
    (Reordered.inDict [] _ _ (.setOrder (.swap _ _ _))).trans (.dictOrder (.swap _ _ _))
  obtain ⟨hb | ⟨e, e', he, -⟩, -⟩ := canonical_bytes interpreter oneOrder otherOrder h
  · exact hb
  · cases (show dumpBytes interpreter compact oneOrder.val = .ok _ from rfl).symm.trans he

end JsonDatabase
