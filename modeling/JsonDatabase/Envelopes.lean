/-
  File:      JsonDatabase/Envelopes.lean
  Subject:   What an accepted file may hold besides the two fields of its envelopes.

  The raw scan stops at an envelope, and the decoder reads no more than two fields of one. So what
  is inside the value of a set envelope is decoded and was never scanned.

  * `objects`, `hiddenObjects`, `rawDocuments` -- the objects of a text, those of them that are
    inside an envelope, and the documents of a file;
  * `AddsField` -- a file edited by adding one field to an envelope;
  * `AddsField.decode`, `AddsField.rawValueOk` -- the decoder never sees the edit, and the scan
    sees it only outside the envelopes;
  * `envelopes_exact` -- which files and which edits are rejected.
-/
import JsonDatabase.LoadErrors

namespace JsonDatabase

open PyVal hiding none

/-! ## 1. The objects of a text -/

mutual
/-- The objects of a JSON value at any depth, itself included. -/
def objects : Json → List (Dict Str Json)
  | .arr xs => objectsList xs
  | .obj kvs => kvs :: objectsEntries kvs
  | _ => []

def objectsList : List Json → List (Dict Str Json)
  | [] => []
  | x :: xs => objects x ++ objectsList xs

def objectsEntries : List (Str × Json) → List (Dict Str Json)
  | [] => []
  | (_, x) :: kvs => objects x ++ objectsEntries kvs
end

mutual
/-- The objects that are inside an envelope. -/
def hiddenObjects : Json → List (Dict Str Json)
  | .arr xs => hiddenList xs
  | .obj kvs => if Dict.contains kvs TYPE_KEY then objectsEntries kvs else hiddenEntries kvs
  | _ => []

def hiddenList : List Json → List (Dict Str Json)
  | [] => []
  | x :: xs => hiddenObjects x ++ hiddenList xs

def hiddenEntries : List (Str × Json) → List (Dict Str Json)
  | [] => []
  | (_, x) :: kvs => hiddenObjects x ++ hiddenEntries kvs
end

/-- The documents of a collection in the parsed text. -/
def collectionDocuments : Json → List Json
  | .obj documents => documents.map (·.2)
  | _ => []

/-- The documents of a file, as they were parsed. -/
def rawDocuments : Json → List Json
  | .obj state =>
    match Dict.get state (lit "collections") with
    | some (.obj collections) => collections.flatMap fun c => collectionDocuments c.2
    | _ => []
  | _ => []

/-- Exactly the two fields of an envelope. -/
def ExactEnvelope (o : Dict Str Json) : Prop := ∀ k, k ∈ Dict.keys o ↔ k = TYPE_KEY ∨ k = VALUE_KEY

/-- Every object that has the reserved key is an envelope. -/
def EnvelopesExact (j : Json) : Prop := ∀ o ∈ objects j, TYPE_KEY ∈ Dict.keys o → ExactEnvelope o

theorem mem_objectsList : ∀ {xs : List Json} {o : Dict Str Json},
    o ∈ objectsList xs ↔ ∃ x ∈ xs, o ∈ objects x
  | [], o => by simp [objectsList]
  | x :: xs, o => by simp [objectsList, @mem_objectsList xs]

theorem mem_objectsEntries : ∀ {kvs : List (Str × Json)} {o : Dict Str Json},
    o ∈ objectsEntries kvs ↔ ∃ kv ∈ kvs, o ∈ objects kv.2
  | [], o => by simp [objectsEntries]
  | (k, x) :: kvs, o => by simp [objectsEntries, @mem_objectsEntries kvs]

theorem mem_hiddenList : ∀ {xs : List Json} {o : Dict Str Json},
    o ∈ hiddenList xs ↔ ∃ x ∈ xs, o ∈ hiddenObjects x
  | [], o => by simp [hiddenList]
  | x :: xs, o => by simp [hiddenList, @mem_hiddenList xs]

theorem mem_hiddenEntries : ∀ {kvs : List (Str × Json)} {o : Dict Str Json},
    o ∈ hiddenEntries kvs ↔ ∃ kv ∈ kvs, o ∈ hiddenObjects kv.2
  | [], o => by simp [hiddenEntries]
  | (k, x) :: kvs, o => by simp [hiddenEntries, @mem_hiddenEntries kvs]

theorem mem_rawDocuments {j document : Json} : document ∈ rawDocuments j ↔
    ∃ state collections name documents id, j = .obj state ∧
      Dict.get state (lit "collections") = some (.obj collections) ∧
      (name, Json.obj documents) ∈ collections ∧ (id, document) ∈ documents := by
  constructor
  · intro h
    unfold rawDocuments at h
    split at h
    · rename_i state
      split at h
      · rename_i collections hg
        obtain ⟨⟨name, c⟩, hc, hd⟩ := List.mem_flatMap.mp h
        unfold collectionDocuments at hd
        split at hd
        · rename_i documents e
          obtain ⟨⟨id, d⟩, hm, rfl⟩ := List.mem_map.mp hd
          obtain rfl : c = .obj documents := e
          exact ⟨state, collections, name, documents, id, rfl, hg, hc, hm⟩
        · cases hd
      · cases h
    · cases h
  · intro h
    obtain ⟨state, collections, name, documents, id, rfl, hg, hc, hd⟩ := h
    simp only [rawDocuments, hg]
    exact List.mem_flatMap.mpr ⟨_, hc, List.mem_map.mpr ⟨_, hd, rfl⟩⟩

/-! ## 2. One more field in an envelope -/

/-- The first value is edited into the second by adding one field to an envelope in it; the flag
    tells whether that envelope is itself inside another one. -/
inductive AddsField : Bool → Json → Json → Prop where
  | here {a b : Dict Str Json} {k : Str} {x : Json} :
      Dict.contains (a ++ b) TYPE_KEY = true → Dict.contains (a ++ b) VALUE_KEY = true →
      k ∉ Dict.keys (a ++ b) → AddsField false (.obj (a ++ b)) (.obj (a ++ (k, x) :: b))
  | item {a b : List Json} {x y : Json} {hidden : Bool} :
      AddsField hidden x y → AddsField hidden (.arr (a ++ x :: b)) (.arr (a ++ y :: b))
  | field {kvs : Dict Str Json} {k : Str} {x y : Json} {hidden : Bool} :
      Dict.get kvs k = some x → AddsField hidden x y →
      AddsField (hidden || Dict.contains kvs TYPE_KEY) (.obj kvs) (.obj (Dict.put kvs k y))

/-- Such an edit in one document of a file. -/
inductive AddsToDocument : Bool → Json → Json → Prop where
  | mk {state collections documents : Dict Str Json} {name id : Str} {document document' : Json}
      {hidden : Bool} :
      Dict.get state (lit "collections") = some (.obj collections) →
      Dict.get collections name = some (.obj documents) →
      Dict.get documents id = some document → AddsField hidden document document' →
      AddsToDocument hidden (.obj state) (.obj (Dict.put state (lit "collections")
        (.obj (Dict.put collections name (.obj (Dict.put documents id document'))))))

/-- A file edited in a document is edited in what the documents are in. -/
theorem AddsToDocument.addsField {hidden : Bool} {j j' : Json} (h : AddsToDocument hidden j j') :
    ∃ hidden', AddsField hidden' j j' := by
  obtain ⟨hs, hc, hd, h⟩ := h
  exact ⟨_, .field hs (.field hc (.field hd h))⟩

/-- An edited value is an array or an object, and stays one. -/
theorem AddsField.ne_str {hidden : Bool} {x y : Json} (h : AddsField hidden x y) (s : Str) :
    x ≠ .str s ∧ y ≠ .str s := by
  cases h <;> exact ⟨Json.noConfusion, Json.noConfusion⟩

/-- The decoder reads nothing of an envelope but its two fields. -/
theorem decode_tagged_congr (rt : Runtime) {kvs kvs' : Dict Str Json}
    (hc : Dict.contains kvs TYPE_KEY = true)
    (ht : Dict.get kvs' TYPE_KEY = Dict.get kvs TYPE_KEY)
    (hv : Dict.get kvs' VALUE_KEY = Dict.get kvs VALUE_KEY) :
    decode rt (.obj kvs') = decode rt (.obj kvs) := by
  have hc' : Dict.contains kvs' TYPE_KEY = true := by rwa [Dict.contains, ht]
  rw [decode, decode, if_pos hc, if_pos hc', ht, hv]
  cases hg : Dict.get kvs VALUE_KEY with
  | none => rfl
  | some r =>
    cases r with
    | arr xs => rw [decodeSetField_of_get rt hg, decodeSetField_of_get rt (hv.trans hg)]
    | _ => rfl

/-- **The decoder does not see an added field**: it reads of the edited text what it read of the
    original. -/
theorem AddsField.decode {rt : Runtime} {hidden : Bool} {x y : Json} (h : AddsField hidden x y)
    {v : PyVal} (hv : decode rt x = .ok v) : decode rt y = .ok v := by
  induction h generalizing v with
  | @here a b k x ht hval hk =>
    rwa [decode_tagged_congr rt ht (Dict.get_insert_ne (Dict.ne_of_contains hk ht) _ _ _)
      (Dict.get_insert_ne (Dict.ne_of_contains hk hval) _ _ _)]
  | item _ ih =>
    obtain ⟨vs, hvs, rfl⟩ := decode_arr_ok.mp hv
    obtain ⟨a', w, b', rfl, ha, hw, hb⟩ := forall₂_hole.mp hvs
    exact decode_arr_ok.mpr ⟨_, forall₂_hole.mpr ⟨a', w, b', rfl, ha, ih hw, hb⟩, rfl⟩
  | @field kvs k x y _ hg h ih =>
    cases hc : Dict.contains kvs TYPE_KEY with
    | false =>
      obtain ⟨vs, hvs, rfl⟩ := (decode_obj_ok hc).mp hv
      have hvs' : List.Forall₂ (EntryDecodes rt) (Dict.put kvs k y) vs :=
        Dict.forall₂_put hvs hg fun kv hkv => ⟨hkv.1, ih hkv.2⟩
      refine (decode_obj_ok ?_).mpr ⟨vs, hvs', rfl⟩
      rwa [Dict.contains_put_of_mem (Dict.mem_keys_of_get hg)]
    | true =>
      obtain ⟨⟨t, ht⟩, hval⟩ := decode_tagged_ok hc hv
      have hk : k ≠ TYPE_KEY := fun e => by
        rw [← e, hg] at ht
        exact (h.ne_str t).1 (Option.some.inj ht)
      have ht' := Dict.get_put_ne kvs hk y
      by_cases hkv : k = VALUE_KEY
      · subst hkv
        rcases hval with ⟨-, s, hs⟩ | ⟨es, xs, w, hes, hw, hx, rfl⟩
        · rw [hg] at hs
          exact absurd (Option.some.inj hs) (h.ne_str s).1
        · rw [hg] at hes
          obtain rfl : x = .arr es := Option.some.inj hes
          obtain ⟨es', rfl⟩ : ∃ es', y = .arr es' := by
            cases h
            exact ⟨_, rfl⟩
          -- the members of both lists are the same values
          have hm := decodeMembers_iff.mpr ⟨w, hw, hx⟩
          have hm' := decodeMembers_iff.mpr ⟨w, ih hw, hx⟩
          have hg' := Dict.get_put_self kvs VALUE_KEY (Json.arr es')
          have hc' := Dict.contains_put_of_mem (Dict.mem_keys_of_get hg) (Json.arr es') TYPE_KEY
          rw [JsonDatabase.decode, if_pos hc, ht, hg, decodeSetField_of_get rt hg, hm] at hv
          rw [JsonDatabase.decode, if_pos (hc'.trans hc), ht', ht, hg',
            decodeSetField_of_get rt hg', hm']
          exact hv
      · rwa [decode_tagged_congr rt hc ht' (Dict.get_put_ne kvs hkv y)]

/-! ## 3. What the raw scan sees of it -/

theorem rawValueOk_envelope_iff {kvs : Dict Str Json} (hc : Dict.contains kvs TYPE_KEY = true) :
    rawValueOk (.obj kvs) = true ↔
      (∀ k ∈ Dict.keys kvs, k = TYPE_KEY ∨ k = VALUE_KEY) ∧ Dict.contains kvs VALUE_KEY = true := by
  rw [rawValueOk, if_pos hc, Bool.and_eq_true, List.all_eq_true]
  simp only [Bool.or_eq_true, decide_eq_true_eq]

theorem rawValueOk_obj {kvs : Dict Str Json} (hc : Dict.contains kvs TYPE_KEY = false) :
    rawValueOk (.obj kvs) = rawEntriesOk kvs := by
  rw [rawValueOk, hc, if_neg Bool.false_ne_true]

/-- **The raw scan sees an added field** iff its envelope is not inside another one. -/
theorem AddsField.rawValueOk {hidden : Bool} {x y : Json} (h : AddsField hidden x y)
    (hx : rawValueOk x = true) : rawValueOk y = true ↔ hidden = true := by
  induction h with
  | @here a b k x ht hval hk =>
    refine iff_of_false (fun h => ?_) Bool.false_ne_true
    have ht' : Dict.contains (a ++ (k, x) :: b) TYPE_KEY = true := by
      rwa [Dict.contains, Dict.get_insert_ne (Dict.ne_of_contains hk ht)]
    rcases ((rawValueOk_envelope_iff ht').mp h).1 k (by simp [Dict.keys]) with e | e
    · exact Dict.ne_of_contains hk ht e
    · exact Dict.ne_of_contains hk hval e
  | @item a b x y hidden _ ih =>
    rw [JsonDatabase.rawValueOk, rawListOk_iff] at hx ⊢
    rw [← ih (hx x (by simp))]
    refine ⟨fun h => h y (by simp), fun h z hz => ?_⟩
    rcases List.mem_append.mp hz with hz | hz
    · exact hx z (List.mem_append_left _ hz)
    · rcases List.mem_cons.mp hz with rfl | hz
      · exact h
      · exact hx z (by simp [hz])
  | @field kvs k x y hidden hg _ ih =>
    have hkeys := Dict.keys_put (Dict.mem_keys_of_get hg) y
    have hcont := Dict.contains_put_of_mem (Dict.mem_keys_of_get hg) y
    cases hc : Dict.contains kvs TYPE_KEY with
    | true =>
      refine iff_of_true ?_ (by simp)
      rw [rawValueOk_envelope_iff ((hcont _).trans hc), hkeys, hcont]
      exact (rawValueOk_envelope_iff hc).mp hx
    | false =>
      rw [rawValueOk_obj hc, rawEntriesOk_iff] at hx
      rw [rawValueOk_obj ((hcont _).trans hc), rawEntriesOk_iff, Bool.or_false,
        ← ih (hx _ (Dict.mem_of_get hg))]
      refine ⟨fun h => h _ (Dict.mem_of_get (Dict.get_put_self kvs k y)), fun h kv hkv => ?_⟩
      rcases Dict.mem_put hkv with rfl | hkv
      · exact h
      · exact hx kv hkv

/-- One entry is changed, and the others pass. -/
theorem forEach_put {α : Type} {f : Str × α → Except PyExc Unit} {d : Dict Str α}
    (hd : forEach f d = .ok ()) {k : Str} {v : α} :
    forEach f (Dict.put d k v) = .ok () ↔ f (k, v) = .ok () := by
  rw [forEach_ok] at hd ⊢
  refine ⟨fun h => h _ (Dict.mem_of_get (Dict.get_put_self d k v)), fun h kv hkv => ?_⟩
  rcases Dict.mem_put hkv with rfl | hkv
  · exact h
  · exact hd kv hkv

theorem AddsField.validateRawDocument {hidden : Bool} {id : Str} {fields : Dict Str Json}
    {document' : Json} (h : AddsField hidden (.obj fields) document')
    (hv : validateRawDocument (id, .obj fields) = .ok ()) :
    validateRawDocument (id, document') = .ok () ↔ hidden = true := by
  obtain ⟨hid, hempty, hc, hraw⟩ := validateRawDocument_ok.mp hv
  have hy := h.rawValueOk ((rawValueOk_obj hc).trans hraw)
  cases h with
  | here ht =>
    rw [ht] at hc
    cases hc
  | @field _ k x y hidden hg h =>
    have hc' := (Dict.contains_put_of_mem (Dict.mem_keys_of_get hg) y TYPE_KEY).trans hc
    rw [rawValueOk_obj hc'] at hy
    rw [validateRawDocument_ok, hy, and_iff_right hid, and_iff_right ?_, and_iff_right hc']
    -- an identifier field that is edited was no text
    rw [Dict.get_put]
    split
    · unfold isEmptyStr
      split
      · rename_i e
        exact absurd (Option.some.inj e) (h.ne_str []).2
      · rfl
    · exact hempty

/-- **The check of the raw fields fails** iff the added field's envelope is not inside another
    one. -/
theorem AddsToDocument.validateRawDocumentFields {hidden : Bool} {j j' : Json}
    (h : AddsToDocument hidden j j') (hv : validateRawDocumentFields j = .ok ())
    (hd : ∀ document ∈ rawDocuments j, ∃ fields, document = .obj fields) :
    validateRawDocumentFields j' = .ok () ↔ hidden = true := by
  obtain @⟨state, collections, documents, name, id, document, document', _, hs, hc, hg, h⟩ := h
  obtain ⟨fields, rfl⟩ := hd document (mem_rawDocuments.mpr
    ⟨_, _, _, _, _, rfl, hs, Dict.mem_of_get hc, Dict.mem_of_get hg⟩)
  have hscan {d : Dict Str Json} {cs : Dict Str Json}
      (hd : Dict.get d (lit "collections") = some (.obj cs)) :
      JsonDatabase.validateRawDocumentFields (.obj d) = forEach validateRawCollection cs := by
    rw [JsonDatabase.validateRawDocumentFields, hd]
  rw [hscan hs] at hv
  rw [hscan (Dict.get_put_self _ _ _), forEach_put hv]
  obtain ⟨hn, hv⟩ := bind_unit_ok.mp (forEach_ok.mp hv _ (Dict.mem_of_get hc))
  rw [validateRawCollection, bind_unit_ok, and_iff_right hn, forEach_put hv]
  exact h.validateRawDocument (forEach_ok.mp hv _ (Dict.mem_of_get hg))

/-! ## 4. What is inside an envelope that is decoded -/

section Objects

variable {P : Dict Str Json → Prop}

theorem forall_objects_arr {xs : List Json} :
    (∀ o ∈ objects (.arr xs), P o) ↔ ∀ x ∈ xs, ∀ o ∈ objects x, P o := by
  simp only [objects, mem_objectsList]
  exact ⟨fun h x hx o ho => h o ⟨x, hx, ho⟩, fun h o ⟨x, hx, ho⟩ => h x hx o ho⟩

theorem forall_objectsEntries {kvs : Dict Str Json} :
    (∀ o ∈ objectsEntries kvs, P o) ↔ ∀ kv ∈ kvs, ∀ o ∈ objects kv.2, P o := by
  simp only [mem_objectsEntries]
  exact ⟨fun h kv hkv o ho => h o ⟨kv, hkv, ho⟩, fun h o ⟨kv, hkv, ho⟩ => h kv hkv o ho⟩

theorem forall_objects_obj {kvs : Dict Str Json} :
    (∀ o ∈ objects (.obj kvs), P o) ↔ P kvs ∧ ∀ kv ∈ kvs, ∀ o ∈ objects kv.2, P o := by
  rw [objects, List.forall_mem_cons, forall_objectsEntries]

/-- All that is in an exact envelope is in its value. -/
theorem ExactEnvelope.forall_objects {kvs : Dict Str Json} (h : ExactEnvelope kvs)
    (hd : Dict.Distinct kvs) {t : Str} (ht : Dict.get kvs TYPE_KEY = some (.str t)) {r : Json}
    (hr : Dict.get kvs VALUE_KEY = some r) :
    (∀ kv ∈ kvs, ∀ o ∈ objects kv.2, P o) ↔ ∀ o ∈ objects r, P o := by
  refine ⟨fun hall => hall _ (Dict.mem_of_get hr), fun hall kv hkv => ?_⟩
  have hg := Dict.get_of_mem hd hkv
  rcases (h kv.1).mp (Dict.mem_keys_of_get hg) with e | e
  · rw [e, ht] at hg
    rw [← Option.some.inj hg]
    exact nofun
  · rw [e, hr] at hg
    rwa [← Option.some.inj hg]

end Objects

/-- An object with both keys is an envelope iff it has no third one. -/
theorem exactEnvelope_iff {o : Dict Str Json} (hd : Dict.Distinct o)
    (ht : TYPE_KEY ∈ Dict.keys o) (hv : VALUE_KEY ∈ Dict.keys o) :
    ExactEnvelope o ↔ o.length ≤ 2 := by
  have hlen : (Dict.keys o).length = o.length := List.length_map _
  rw [← hlen]
  constructor
  · intro h
    have hsub : (Dict.keys o).Subperm [TYPE_KEY, VALUE_KEY] :=
      List.subperm_of_subset hd fun k hk => by simpa using (h k).mp hk
    exact hsub.length_le
  · intro h k
    have hsub : [TYPE_KEY, VALUE_KEY].Subperm (Dict.keys o) :=
      List.subperm_of_subset (by decide) (by simp [ht, hv])
    rw [← (hsub.perm_of_length_le h).mem_iff]
    simp

/-- **What can be a member of a set** holds envelopes only, exact ones iff none has a third
    field. -/
theorem member_exact_iff {rt : Runtime} {x : Json} (hd : x.distinct) {v y : PyVal}
    (hx : decode rt x = .ok v) (hy : coerceSetMember v = .ok y) :
    EnvelopesExact x ↔ ∀ o ∈ objects x, o.length ≤ 2 := by
  induction x using Json.induct generalizing v y with
  | arr xs ih =>
    obtain ⟨vs, hvs, rfl⟩ := decode_arr_ok.mp hx
    obtain ⟨ys, hys, rfl⟩ := map_ok.mp hy
    rw [EnvelopesExact, forall_objects_arr, forall_objects_arr]
    refine forall_congr' fun x => forall_congr' fun hm => ?_
    obtain ⟨v, hv, hxv⟩ := forall₂_mem_left hvs hm
    obtain ⟨y, -, hvy⟩ := forall₂_mem_left (coerceSetMembers_ok.mp hys) hv
    exact ih x hm (Json.distinctList_iff.mp hd x hm) hxv hvy
  | obj kvs ih =>
    cases hc : Dict.contains kvs TYPE_KEY with
    | false =>
      obtain ⟨vs, -, rfl⟩ := (decode_obj_ok hc).mp hx
      cases hy
    | true =>
      obtain ⟨⟨t, ht⟩, hval⟩ := decode_tagged_ok hc hx
      rcases hval with ⟨-, s, hs⟩ | ⟨es, xs, w, -, -, -, rfl⟩
      · have hexact := exactEnvelope_iff hd.1 (Dict.mem_keys_of_get ht) (Dict.mem_keys_of_get hs)
        rw [EnvelopesExact, forall_objects_obj, forall_objects_obj]
        constructor
        · intro h
          have he := h.1 (Dict.mem_keys_of_get ht)
          exact ⟨hexact.mp he, (he.forall_objects hd.1 ht hs).mpr nofun⟩
        · intro h
          have he := hexact.mpr h.1
          exact ⟨fun _ => he, (he.forall_objects hd.1 ht hs).mpr nofun⟩
      · cases hy
  | null => exact iff_of_true nofun nofun
  | bool b => exact iff_of_true nofun nofun
  | int i => exact iff_of_true nofun nofun
  | float f => exact iff_of_true nofun nofun
  | str s => exact iff_of_true nofun nofun

/-- **A value that was scanned and decoded** has only exact envelopes iff none of the objects that
    are inside an envelope has a third field. -/
theorem scanned_exact_iff {rt : Runtime} {x : Json} (hd : x.distinct)
    (hraw : rawValueOk x = true) {v : PyVal} (hx : decode rt x = .ok v) :
    EnvelopesExact x ↔ ∀ o ∈ hiddenObjects x, o.length ≤ 2 := by
  induction x using Json.induct generalizing v with
  | arr xs ih =>
    obtain ⟨vs, hvs, rfl⟩ := decode_arr_ok.mp hx
    have hmem : (∀ o ∈ hiddenObjects (.arr xs), o.length ≤ 2) ↔
        ∀ x ∈ xs, ∀ o ∈ hiddenObjects x, o.length ≤ 2 := by
      simp only [hiddenObjects, mem_hiddenList]
      exact ⟨fun h x hx o ho => h o ⟨x, hx, ho⟩, fun h o ⟨x, hx, ho⟩ => h x hx o ho⟩
    rw [EnvelopesExact, forall_objects_arr, hmem]
    refine forall_congr' fun x => forall_congr' fun hm => ?_
    obtain ⟨v, -, hxv⟩ := forall₂_mem_left hvs hm
    exact ih x hm (Json.distinctList_iff.mp hd x hm) (rawListOk_iff.mp hraw x hm) hxv
  | obj kvs ih =>
    cases hc : Dict.contains kvs TYPE_KEY with
    | false =>
      obtain ⟨vs, hvs, rfl⟩ := (decode_obj_ok hc).mp hx
      rw [rawValueOk_obj hc, rawEntriesOk_iff] at hraw
      have hmem : (∀ o ∈ hiddenObjects (.obj kvs), o.length ≤ 2) ↔
          ∀ kv ∈ kvs, ∀ o ∈ hiddenObjects kv.2, o.length ≤ 2 := by
        simp only [hiddenObjects, hc, Bool.false_eq_true, if_false, mem_hiddenEntries]
        exact ⟨fun h kv hkv o ho => h o ⟨kv, hkv, ho⟩, fun h o ⟨kv, hkv, ho⟩ => h kv hkv o ho⟩
      rw [EnvelopesExact, forall_objects_obj, hmem,
        and_iff_right fun h => absurd h (contains_eq_false.mp hc)]
      refine forall_congr' fun kv => forall_congr' fun hm => ?_
      obtain ⟨kw, -, hkw⟩ := forall₂_mem_left hvs hm
      exact ih kv.1 kv.2 hm (Json.distinctEntries_iff.mp hd.2 _ _ hm) (hraw kv hm) hkw.2
    | true =>
      obtain ⟨hkeys, hval⟩ := (rawValueOk_envelope_iff hc).mp hraw
      have he : ExactEnvelope kvs := fun k => ⟨hkeys k, fun h => by
        rcases h with rfl | rfl
        · exact Dict.get_isSome_iff.mp hc
        · exact Dict.get_isSome_iff.mp hval⟩
      obtain ⟨⟨t, ht⟩, hval⟩ := decode_tagged_ok hc hx
      rw [EnvelopesExact, forall_objects_obj, and_iff_right fun _ => he, hiddenObjects, hc,
        if_pos rfl, forall_objectsEntries]
      rcases hval with ⟨-, s, hs⟩ | ⟨es, xs, w, hes, hw, hc, rfl⟩
      · rw [he.forall_objects hd.1 ht hs, he.forall_objects hd.1 ht hs]
        exact iff_of_true nofun nofun
      · rw [he.forall_objects hd.1 ht hes, he.forall_objects hd.1 ht hes]
        exact member_exact_iff (Json.distinctEntries_iff.mp hd.2 _ _ (Dict.mem_of_get hes)) hw hc
  | null => exact iff_of_true nofun nofun
  | bool b => exact iff_of_true nofun nofun
  | int i => exact iff_of_true nofun nofun
  | float f => exact iff_of_true nofun nofun
  | str s => exact iff_of_true nofun nofun

/-! ## 5. Accepted files -/

theorem get_decoded {rt : Runtime} {kvs : Dict Str Json} {vs : PyDict}
    (h : List.Forall₂ (EntryDecodes rt) kvs vs) {k : Str} {x : Json} {v : PyVal}
    (hx : Dict.get kvs k = some x) (hv : Dict.get vs (.str k) = some v) : decode rt x = .ok v := by
  induction h with
  | nil => cases hx
  | @cons je kv kvs vs he _ ih =>
    obtain ⟨k', x'⟩ := je
    obtain ⟨_, v'⟩ := kv
    obtain ⟨rfl, hdec⟩ := he
    rw [Dict.get_cons] at hx hv
    by_cases e : k' = k
    · rw [if_pos e] at hx
      rw [if_pos (congrArg PyKey.str e)] at hv
      cases hx
      cases hv
      exact hdec
    · rw [if_neg e] at hx
      rw [if_neg fun h => e (PyKey.str.inj h)] at hv
      exact ih hx hv

theorem decode_dict {rt : Runtime} {j : Json} {d : PyDict} (h : decode rt j = .ok (.dict d)) :
    ∃ kvs, j = .obj kvs ∧ Dict.contains kvs TYPE_KEY = false ∧
      List.Forall₂ (EntryDecodes rt) kvs d := by
  cases j with
  | arr xs =>
    obtain ⟨vs, -, e⟩ := decode_arr_ok.mp h
    cases e
  | obj kvs =>
    rcases decode_obj_cases h with he | ⟨es, xs, w, -, -, -, e⟩ | ⟨hc, vs, hvs, e⟩
    · cases he
    · cases e
    · cases e
      exact ⟨kvs, rfl, hc, hvs⟩
  | _ => cases h

/-- What the stages of loading have found out about a document of an accepted file. -/
structure AcceptedDocument (rt : Runtime) (document : Json) : Prop where
  isObject : ∃ fields, document = .obj fields
  distinct : document.distinct
  scanned : rawValueOk document = true
  decoded : ∃ v, decode rt document = .ok v

theorem accepted_document {rt : Runtime} {raw : Bytes} {s : State}
    (hl : loadBytes rt raw = .ok s) {j : Json} (hj : parseBytes rt raw = .ok j) {document : Json}
    (hm : document ∈ rawDocuments j) : AcceptedDocument rt document := by
  obtain ⟨-, parsed, hp, hraw, hdec, hshape, -⟩ := loadBytes_ok.mp hl
  obtain rfl : j = parsed := Except.ok.inj (hj.symm.trans hp)
  obtain ⟨state, collections, name, documents, id, rfl, hg, hc, hd⟩ := mem_rawDocuments.mp hm
  obtain ⟨_, fields, cs, e, hshape⟩ := validateStateShape_ok.mp hshape
  cases e
  -- down to the document, what is decoded has the shape that was checked
  obtain ⟨_, e, -, hs⟩ := decode_dict hdec
  cases e
  obtain ⟨_, e, -, hcs⟩ := decode_dict (get_decoded hs hg hshape.collectionsIs)
  cases e
  obtain ⟨⟨_, c⟩, hmc, -, hdc⟩ := forall₂_mem_left hcs hc
  obtain ⟨-, docs, e, hdocs⟩ := hshape.shapes _ hmc
  cases e
  obtain ⟨_, e, -, hds⟩ := decode_dict hdc
  cases e
  obtain ⟨⟨_, v⟩, hmd, -, hdd⟩ := forall₂_mem_left hds hd
  obtain ⟨_, _, e, -, -⟩ := hdocs _ hmd
  cases e
  obtain ⟨fields, rfl, -, -⟩ := decode_dict hdd
  refine ⟨⟨fields, rfl⟩, ?_, ?_, _, hdd⟩
  · have hdist := (Json.distinct_obj.mp (parseBytes_distinct hj)).2 _ _ (Dict.mem_of_get hg)
    exact (Json.distinct_obj.mp ((Json.distinct_obj.mp hdist).2 _ _ hc)).2 _ _ hd
  · rw [validateRawDocumentFields, hg] at hraw
    obtain ⟨-, hraw⟩ := bind_unit_ok.mp (forEach_ok.mp hraw _ hc)
    obtain ⟨-, -, hno, hraw⟩ := validateRawDocument_ok.mp (forEach_ok.mp hraw _ hd)
    exact (rawValueOk_obj hno).trans hraw

/-- An accepted file edited inside an envelope is accepted, and read as it was. -/
theorem AddsToDocument.load_hidden {rt : Runtime} {raw raw' : Bytes} {s : State}
    (hl : loadBytes rt raw = .ok s) {j j' : Json} (hj : parseBytes rt raw = .ok j)
    (h : AddsToDocument true j j') (hj' : parseBytes rt raw' = .ok j') :
    loadBytes rt raw' = .ok s := by
  obtain ⟨-, parsed, hp, hraw, hdec, hshape, hsum⟩ := loadBytes_ok.mp hl
  obtain rfl : j = parsed := Except.ok.inj (hj.symm.trans hp)
  obtain ⟨_, hadds⟩ := h.addsField
  have hd (document) (hm : document ∈ rawDocuments j) := (accepted_document hl hj hm).isObject
  refine loadBytes_ok.mpr ⟨fun e => ?_, j', hj', (h.validateRawDocumentFields hraw hd).mpr rfl,
    hadds.decode hdec, hshape, hsum⟩
  rw [e] at hj'
  cases hj'

/-- An accepted file edited in an envelope that is not inside another one is rejected. -/
theorem AddsToDocument.load_exposed {rt : Runtime} {raw raw' : Bytes} {s : State}
    (hl : loadBytes rt raw = .ok s) {j j' : Json} (hj : parseBytes rt raw = .ok j)
    (h : AddsToDocument false j j') (hj' : parseBytes rt raw' = .ok j') :
    ∃ e, loadBytes rt raw' = .error e ∧ e.type = .databaseFormatError := by
  obtain ⟨-, parsed, hp, hraw, -, -, -⟩ := loadBytes_ok.mp hl
  obtain rfl : j = parsed := Except.ok.inj (hj.symm.trans hp)
  have hd (document) (hm : document ∈ rawDocuments j) := (accepted_document hl hj hm).isObject
  have hfail := mt (h.validateRawDocumentFields hraw hd).mp Bool.false_ne_true
  have hne : raw' ≠ [] := fun e => by
    rw [e] at hj'
    cases hj'
  cases hv : JsonDatabase.validateRawDocumentFields j' with
  | ok u => exact absurd hv hfail
  | error e =>
    refine ⟨e, ?_, validateRawDocumentFields_raises j' e hv⟩
    unfold loadBytes
    rw [raiseIf_ok.mpr (decide_eq_false hne), hj']
    show (JsonDatabase.validateRawDocumentFields j' >>= _) = _
    rw [hv]
    rfl

/-- **Which malformed envelopes are rejected.** In an accepted file every object with the reserved
    key is an envelope iff no object inside an envelope has a third field; and a field added to an
    envelope of a document makes loading fail iff that envelope is not inside another one. -/
theorem envelopes_exact {rt : Runtime} {now : DateTime} {raw : Bytes} {s : State}
    (hl : load rt now (.bytes raw) = .ok s) {j : Json} (hj : parseBytes rt raw = .ok j) :
    ((∀ document ∈ rawDocuments j, EnvelopesExact document) ↔
      ∀ document ∈ rawDocuments j, ∀ o ∈ hiddenObjects document, o.length ≤ 2) ∧
    ∀ (hidden : Bool) (raw' : Bytes) (j' : Json), AddsToDocument hidden j j' →
      parseBytes rt raw' = .ok j' →
        ((∃ e, load rt now (.bytes raw') = .error e ∧ e.type = .databaseFormatError) ↔
          hidden = false) := by
  refine ⟨forall_congr' fun document => forall_congr' fun hm => ?_, fun hidden raw' j' h hj' => ?_⟩
  · obtain ⟨-, hd, hraw, v, hv⟩ := accepted_document hl hj hm
    exact scanned_exact_iff hd hraw hv
  · cases hidden with
    | true =>
      refine iff_of_false (fun he => ?_) Bool.noConfusion
      obtain ⟨e, he, -⟩ := he
      exact absurd (he.symm.trans (h.load_hidden hl hj hj')) nofun
    | false => exact iff_of_true (h.load_exposed hl hj hj') rfl

/-! ## 6. A file with a field that nobody reads -/

/-- The envelope of an empty bytes value, with more fields. -/
def bytesFields (inner : Dict Str Json) : Dict Str Json :=
  [(TYPE_KEY, .str (lit "bytes")), (VALUE_KEY, .str [])] ++ inner

/-- The envelope of the set of that value, with more fields. -/
def tagsFields (outer inner : Dict Str Json) : Dict Str Json :=
  [(TYPE_KEY, .str (lit "set")), (VALUE_KEY, .arr [.obj (bytesFields inner)])] ++ outer

def tagsDocument (outer inner : Dict Str Json) : Dict Str Json :=
  [(lit "id", .str (lit "u1")), (lit "tags", .obj (tagsFields outer inner))]

/-- A database with that document. -/
def tagsText (outer inner : Dict Str Json) (digest : Str) : Json :=
  .obj [(lit "meta", .obj [(lit "format", .str FORMAT), (lit "version", .int VERSION),
      (lit "content_sha256", .str digest)]),
    (lit "collections", .obj [(lit "users", .obj [(lit "u1", .obj (tagsDocument outer inner))])])]

/-- What it is read as. -/
def tagsState (digest : Str) : State :=
  [(META, .dict [(FORMAT_KEY, .str FORMAT), (VERSION_KEY, .int VERSION),
      (CONTENT_SHA256, .str digest)]),
    (COLLECTIONS, .dict [(.str (lit "users"), .dict [(.str (lit "u1"),
      .dict [(ID, .str (lit "u1")), (.str (lit "tags"), .set [.bytes []])])])])]

/-- Its checksum. -/
def tagsDigest : Str := (computeChecksum interpreter .total (tagsState [])).toOption.getD []

/-- The bytes of the database with its checksum. -/
def tagsFile (outer inner : Dict Str Json) : Bytes :=
  textBytes interpreter indented (tagsText outer inner tagsDigest)

/-- A field that no envelope has. -/
def tampered : Dict Str Json := [(lit "extra", .str (lit "tampered"))]

set_option maxRecDepth 20000 in
theorem computeChecksum_tagsState (digest : Str) :
    computeChecksum interpreter .total (tagsState digest) = .ok tagsDigest := by
  have h : computeChecksum interpreter .total (tagsState []) = .ok _ := rfl
  have hd : tagsDigest = _ := congrArg (fun x => x.toOption.getD []) h
  rw [hd]
  exact (@computeChecksum_withChecksum interpreter (tagsState []) _ rfl (.str digest)).trans h

theorem validateStateShape_tagsState (digest : Str) :
    validateStateShape true (.dict (tagsState digest)) = .ok () := by
  refine validateStateShape_ok.mpr ⟨_, _, _, rfl, rfl, ⟨rfl, eqVals_version⟩, fun _ => ⟨_, rfl⟩,
    rfl, fun entry he => ?_⟩
  cases List.mem_singleton.mp he
  refine ⟨rfl, _, rfl, fun doc hd => ?_⟩
  cases List.mem_singleton.mp hd
  exact ⟨_, _, rfl, by decide, rfl⟩

theorem parseBytes_tagsFile {outer inner : Dict Str Json} (ho : outer = [] ∨ outer = tampered)
    (hi : inner = [] ∨ inner = tampered) :
    parseBytes interpreter (tagsFile outer inner) = .ok (tagsText outer inner tagsDigest) := by
  have hd := scalarOnly_of_isAscii (computeChecksum_ascii (computeChecksum_tagsState []))
  refine parseBytes_textBytes ?_ ?_ ?_
  · rcases ho with rfl | rfl <;> rcases hi with rfl | rfl <;>
      simp [-Json.distinct_obj, -Json.distinct_arr, Json.distinct, Json.distinctEntries,
        Json.distinctList, tagsText, tagsDocument, tagsFields, bytesFields, tampered, Dict.Distinct,
        Dict.keys, lit, TYPE_KEY, VALUE_KEY]
  · rcases ho with rfl | rfl <;> rcases hi with rfl | rfl <;> rfl
  · rcases ho with rfl | rfl <;> rcases hi with rfl | rfl <;>
      simp only [tagsText, tagsDocument, tagsFields, bytesFields, tampered, List.append_nil,
        List.cons_append, List.nil_append, Json.scalar, Json.scalarEntries, Json.scalarList, hd] <;>
      rfl

/-- The file is accepted, with or without a field in the envelope of the member. -/
theorem load_tagsFile {inner : Dict Str Json} (hi : inner = [] ∨ inner = tampered) :
    load interpreter epoch (.bytes (tagsFile [] inner)) = .ok (tagsState tagsDigest) := by
  have hp := parseBytes_tagsFile (Or.inl rfl) hi
  refine loadBytes_ok.mpr ⟨fun e => ?_, _, hp, ?_, ?_, validateStateShape_tagsState _, ?_⟩
  · rw [e] at hp
    cases hp
  · rcases hi with rfl | rfl <;> rfl
  · rcases hi with rfl | rfl <;> rfl
  · exact (verifyChecksum_ok rfl).mpr ⟨_, computeChecksum_tagsState _, rfl⟩

theorem addsToDocument_tagsText {hidden : Bool} {outer inner : Dict Str Json}
    (h : AddsField hidden (.obj (tagsDocument [] [])) (.obj (tagsDocument outer inner)))
    (digest : Str) : AddsToDocument hidden (tagsText [] [] digest) (tagsText outer inner digest) :=
  @AddsToDocument.mk _ [(lit "users", .obj [(lit "u1", .obj (tagsDocument [] []))])]
    [(lit "u1", .obj (tagsDocument [] []))] (lit "users") (lit "u1") _ _ _ rfl rfl rfl h

theorem addsToDocument_inner (digest : Str) :
    AddsToDocument true (tagsText [] [] digest) (tagsText [] tampered digest) := by
  have hbytes : AddsField false (.obj (bytesFields [])) (.obj (bytesFields tampered)) :=
    @AddsField.here (bytesFields []) [] _ _ rfl rfl (by decide)
  have htags : AddsField true (.obj (tagsFields [] [])) (.obj (tagsFields [] tampered)) :=
    @AddsField.field (tagsFields [] []) VALUE_KEY _ _ false rfl (@AddsField.item [] [] _ _ _ hbytes)
  exact addsToDocument_tagsText
    (@AddsField.field (tagsDocument [] []) (lit "tags") _ _ true rfl htags) digest

theorem addsToDocument_outer (digest : Str) :
    AddsToDocument false (tagsText [] [] digest) (tagsText tampered [] digest) := by
  have htags : AddsField false (.obj (tagsFields [] [])) (.obj (tagsFields tampered [])) :=
    @AddsField.here (tagsFields [] []) [] _ _ rfl rfl (by decide)
  exact addsToDocument_tagsText
    (@AddsField.field (tagsDocument [] []) (lit "tags") _ _ false rfl htags) digest

/-- The field in the set's own envelope is rejected, the one in its member's envelope is not. -/
theorem tagsFile_exact :
    (∀ document ∈ rawDocuments (tagsText [] [] tagsDigest), EnvelopesExact document) ∧
    (∃ e, load interpreter epoch (.bytes (tagsFile tampered [])) = .error e ∧
      e.type = .databaseFormatError) ∧
    ¬ ∃ e, load interpreter epoch (.bytes (tagsFile [] tampered)) = .error e ∧
      e.type = .databaseFormatError := by
  have h := envelopes_exact (load_tagsFile (Or.inl rfl))
    (parseBytes_tagsFile (Or.inl rfl) (Or.inl rfl))
  refine ⟨h.1.mpr ?_, (h.2 _ _ _ (addsToDocument_outer _) (parseBytes_tagsFile (Or.inr rfl)
    (Or.inl rfl))).mpr rfl, fun he => ?_⟩
  · intro document hm o ho
    cases List.mem_singleton.mp hm
    cases List.mem_singleton.mp ho
    decide
  · have he := (h.2 _ _ _ (addsToDocument_inner _) (parseBytes_tagsFile (Or.inl rfl)
      (Or.inr rfl))).mp he
    cases he

/-- **A file with a malformed envelope is accepted**, and so is the edit that made it. -/
theorem tampered_accepted :
    load interpreter epoch (.bytes (tagsFile [] [])) = .ok (tagsState tagsDigest) ∧
    AddsToDocument true (tagsText [] [] tagsDigest) (tagsText [] tampered tagsDigest) ∧
    parseBytes interpreter (tagsFile [] tampered) = .ok (tagsText [] tampered tagsDigest) ∧
    load interpreter epoch (.bytes (tagsFile [] tampered)) = .ok (tagsState tagsDigest) ∧
    ¬ ∀ document ∈ rawDocuments (tagsText [] tampered tagsDigest), EnvelopesExact document := by
  refine ⟨load_tagsFile (Or.inl rfl), addsToDocument_inner _,
    parseBytes_tagsFile (Or.inl rfl) (Or.inr rfl), load_tagsFile (Or.inr rfl), fun h => ?_⟩
  have hm : bytesFields tampered ∈ objects (.obj (tagsDocument [] tampered)) := by
    simp [objects, objectsEntries, objectsList, tagsDocument, tagsFields]
  have he := (h _ List.mem_cons_self _ hm (by decide) (lit "extra")).mp (by decide)
  revert he
  decide

end JsonDatabase
