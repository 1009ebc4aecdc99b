/-
  File:      JsonDatabase/Serializer.lean
  Subject:   `serializer.py`: values as tagged JSON, and back.

  Dates, decimals, bytes and sets are written as an envelope `{TYPE_KEY: tag, "value": ...}`;
  tuples are written as arrays and read back as lists.

  * `encode`, `decode` -- `_encode` and `_decode`;
  * `dumpBytes` -- `_dumps`, with every `ValueError` on the way turned into a
    `SerializationError`.
-/
import JsonDatabase.Runtime
import JsonDatabase.Basis.JsonRoundTrip

namespace JsonDatabase

open PyVal hiding none

def TYPE_KEY : Str := lit "__jsondb_type__"

def VALUE_KEY : Str := lit "value"

/-- A type envelope. -/
def envelope (tag : String) (v : Json) : Json :=
  .obj [(TYPE_KEY, .str (lit tag)), (VALUE_KEY, v)]

def serializationError (s : String) : PyExc := .plain .serializationError s

/-! ## 1. Encoding -/

/-- The text a set's members are sorted by; `json.dumps` raises `ValueError` on an integer of too
    many digits. -/
def itemKey (rt : Runtime) (item : Json) : Except PyExc (Str × Json) :=
  match Json.dumps rt.floats true compact item with
  | some t => .ok (t, item)
  | none => .error (.builtin .valueError)

/-- `encoded_items.sort(key=...)`. -/
def sortItems (rt : Runtime) (items : List Json) : Except PyExc (List Json) :=
  (items.mapM (itemKey rt)).map fun keyed => (keyed.insertionSort Json.KeyLe).map Prod.snd

mutual
/-- `JsonSerializer._encode`. -/
def encode (rt : Runtime) : PyVal → Except PyExc Json
  | .none => .ok .null
  | .bool b => .ok (.bool b)
  | .str s => .ok (.str s)
  | .int i => .ok (.int i)
  | .float f =>
    if f.isFinite then .ok (.float f)
    else .error (serializationError "cannot serialize non-finite float")
  | .datetime d => .ok (envelope "datetime" (.str d.isoformat))
  | .date d => .ok (envelope "date" (.str d.isoformat))
  | .decimal (.finite x) => .ok (envelope "decimal" (.str x.str))
  | .decimal _ => .error (serializationError "cannot serialize non-finite Decimal")
  | .bytes b => .ok (envelope "bytes" (.str (b64encode b)))
  | .frozenset _ => .error (serializationError
      "frozenset is not supported; convert to set or list before storing")
  | .set xs => do
    let items ← encodeList rt xs
    let items ← sortItems rt items
    return envelope "set" (.arr items)
  | .dict kvs => (encodeEntries rt kvs).map .obj
  | .list xs => (encodeList rt xs).map .arr
  | .tuple xs => (encodeList rt xs).map .arr
  | .other t _ => .error (serializationError ("cannot serialize value of type " ++ t))

def encodeList (rt : Runtime) : List PyVal → Except PyExc (List Json)
  | [] => .ok []
  | x :: xs => do
    let e ← encode rt x
    let es ← encodeList rt xs
    return e :: es

def encodeEntries (rt : Runtime) : List (PyKey × PyVal) → Except PyExc (List (Str × Json))
  | [] => .ok []
  | (.str k, v) :: kvs => do
    let e ← encode rt v
    let es ← encodeEntries rt kvs
    return (k, e) :: es
  | (.other t _, _) :: _ =>
    .error (serializationError ("JSON object keys must be strings, got " ++ t))
end

/-- `JsonSerializer.validate`: a dry run of the encoder. -/
def validate (rt : Runtime) (v : PyVal) : Except PyExc Unit := (encode rt v).map fun _ => ()

/-- `json.dumps`, without escapes for what is not ASCII. -/
def jsonDumps (rt : Runtime) (σ : Style) (encoded : Json) : Except PyExc Str :=
  match Json.dumps rt.floats false σ encoded with
  | some t => .ok t
  | none => .error (.builtin .valueError)

/-- `text.encode("utf-8")`. -/
def encodeUtf8 (text : Str) : Except PyExc Bytes :=
  match utf8Encode text with
  | some b => .ok b
  | none => .error (.builtin .unicodeEncodeError)

/-- `JsonSerializer._dumps`, in the pretty or the compact style. -/
def dumpBytes (rt : Runtime) (σ : Style) (data : PyVal) : Except PyExc Bytes :=
  Except.handle
    (do
      let encoded ← encode rt data
      let text ← jsonDumps rt σ encoded
      encodeUtf8 (text ++ [0x0A]))
    (fun t => t.isValueError || t = .typeError)
    (fun e => ⟨.serializationError, .text "cannot serialize value: " :: e.msg, none, none⟩)

/-! ## 2. Decoding -/

mutual
/-- `_coerce_set_member`: lists become tuples, anything else must be hashable. -/
def coerceSetMember : PyVal → Except PyExc PyVal
  | .list xs => (coerceSetMembers xs).map .tuple
  | v =>
    if v.hashable then .ok v
    else .error (serializationError ("set cannot contain unhashable item of type " ++ v.typeName))

def coerceSetMembers : List PyVal → Except PyExc (List PyVal)
  | [] => .ok []
  | x :: xs => do
    let y ← coerceSetMember x
    let ys ← coerceSetMembers xs
    return y :: ys
end

/-- The first of equal members stays. As in `eqList`, the same NaN twice stays twice. -/
def uniques : List PyVal → List PyVal
  | [] => []
  | x :: xs => x :: (uniques xs).filter fun y => !(pyEq x y || pyEq y x)

/-- `JsonSerializer._decode_tagged`; `members` is the outcome for the members of a set. -/
def decodeTagged (rt : Runtime) (tag raw : Option Json) (members : Except PyExc (List PyVal)) :
    Except PyExc PyVal :=
  match tag with
  | some (.str tag) =>
    if tag = lit "datetime" then
      match raw with
      | some (.str s) =>
        match rt.datetimeFromIso s with
        | some d => .ok (.datetime d)
        | none => .error ⟨.serializationError, [.text "invalid datetime value: ", .str (.str s)],
            none, none⟩
      | _ => .error (serializationError "datetime value must be a string")
    else if tag = lit "date" then
      match raw with
      | some (.str s) =>
        match rt.dateFromIso s with
        | some d => .ok (.date d)
        | none => .error ⟨.serializationError, [.text "invalid date value: ", .str (.str s)],
            none, none⟩
      | _ => .error (serializationError "date value must be a string")
    else if tag = lit "decimal" then
      match raw with
      | some (.str s) =>
        match rt.decimalOf s with
        | some d => .ok (.decimal d)
        | none => .error ⟨.serializationError, [.text "invalid decimal value: ", .str (.str s)],
            none, none⟩
      | _ => .error (serializationError "decimal value must be a string")
    else if tag = lit "bytes" then
      match raw with
      | some (.str s) =>
        match rt.base64Decode s with
        | some b => .ok (.bytes b)
        | none => .error (serializationError "invalid base64 bytes value")
      | _ => .error (serializationError "bytes value must be a string")
    else if tag = lit "set" then
      match raw with
      | some (.arr _) => members.map fun items => .set (rt.setOrder (uniques items))
      | _ => .error (serializationError "set value must be a list")
    else .error ⟨.serializationError, [.text "unknown __jsondb_type__: ", .str (.str tag)],
      none, none⟩
  | _ => .error (serializationError "invalid __jsondb_type__ tag")

mutual
/-- `JsonSerializer._decode`. -/
def decode (rt : Runtime) : Json → Except PyExc PyVal
  | .arr xs => (decodeList rt xs).map .list
  | .obj kvs =>
    if Dict.contains kvs TYPE_KEY then
      decodeTagged rt (Dict.get kvs TYPE_KEY) (Dict.get kvs VALUE_KEY) (decodeSetField rt kvs)
    else (decodeEntries rt kvs).map .dict
  | .null => .ok .none
  | .bool b => .ok (.bool b)
  | .int i => .ok (.int i)
  | .float f => .ok (.float f)
  | .str s => .ok (.str s)

def decodeList (rt : Runtime) : List Json → Except PyExc (List PyVal)
  | [] => .ok []
  | x :: xs => do
    let v ← decode rt x
    let vs ← decodeList rt xs
    return v :: vs

def decodeEntries (rt : Runtime) : List (Str × Json) → Except PyExc (List (PyKey × PyVal))
  | [] => .ok []
  | (k, x) :: kvs => do
    let v ← decode rt x
    let vs ← decodeEntries rt kvs
    return (.str k, v) :: vs

/-- Each element decoded and then made a member. -/
def decodeMembers (rt : Runtime) : List Json → Except PyExc (List PyVal)
  | [] => .ok []
  | x :: xs => do
    let v ← decode rt x
    let v ← coerceSetMember v
    let vs ← decodeMembers rt xs
    return v :: vs

/-- The members in the `value` field. -/
def decodeSetField (rt : Runtime) : List (Str × Json) → Except PyExc (List PyVal)
  | [] => .ok []
  | (k, x) :: kvs =>
    if k = VALUE_KEY then
      match x with
      | .arr xs => decodeMembers rt xs
      | _ => .ok []
    else decodeSetField rt kvs
end

/-! ## 3. Equations -/

variable (rt : Runtime)

/-- One entry of a dictionary. -/
def encodeEntry : PyKey × PyVal → Except PyExc (Str × Json)
  | (.str k, v) => (encode rt v).map fun e => (k, e)
  | (.other t _, _) => .error (serializationError ("JSON object keys must be strings, got " ++ t))

theorem encodeList_eq : ∀ xs, encodeList rt xs = xs.mapM (encode rt)
  | [] => rfl
  | x :: xs => by rw [encodeList, List.mapM_cons, encodeList_eq xs]

theorem encodeEntries_eq : ∀ kvs, encodeEntries rt kvs = kvs.mapM (encodeEntry rt)
  | [] => rfl
  | (.str k, v) :: kvs => by
      rw [encodeEntries, List.mapM_cons, encodeEntries_eq kvs, encodeEntry]
      cases encode rt v <;> rfl
  | (.other t i, v) :: kvs => by
      rw [encodeEntries, List.mapM_cons, encodeEntry]
      rfl

theorem coerceSetMembers_eq : ∀ xs, coerceSetMembers xs = xs.mapM coerceSetMember
  | [] => rfl
  | x :: xs => by rw [coerceSetMembers, List.mapM_cons, coerceSetMembers_eq xs]

theorem decodeList_eq : ∀ xs, decodeList rt xs = xs.mapM (decode rt)
  | [] => rfl
  | x :: xs => by rw [decodeList, List.mapM_cons, decodeList_eq xs]

theorem decodeEntries_eq : ∀ kvs, decodeEntries rt kvs =
    kvs.mapM fun kv => (decode rt kv.2).map fun v => (PyKey.str kv.1, v)
  | [] => rfl
  | (k, x) :: kvs => by
      rw [decodeEntries, List.mapM_cons, decodeEntries_eq kvs]
      cases decode rt x <;> rfl

theorem decodeMembers_eq : ∀ xs, decodeMembers rt xs =
    xs.mapM fun x => decode rt x >>= coerceSetMember
  | [] => rfl
  | x :: xs => by
      rw [decodeMembers, List.mapM_cons, decodeMembers_eq xs]
      cases decode rt x <;> rfl

theorem decodeSetField_of_get : ∀ {kvs : Dict Str Json} {xs : List Json},
    Dict.get kvs VALUE_KEY = some (.arr xs) → decodeSetField rt kvs = decodeMembers rt xs
  | [], xs, h => by cases h
  | (k, x) :: kvs, xs, h => by
      by_cases hk : k = VALUE_KEY
      · subst hk
        rw [Dict.get, if_pos rfl] at h
        cases h
        rw [decodeSetField, if_pos rfl]
      · rw [Dict.get, if_neg hk] at h
        rw [decodeSetField.eq_def]
        simp only [if_neg hk, decodeSetField_of_get h]

variable {rt}

theorem encode_list_ok {xs : List PyVal} {e : Json} : encode rt (.list xs) = .ok e ↔
    ∃ es, List.Forall₂ (fun x y => encode rt x = .ok y) xs es ∧ e = .arr es := by
  rw [encode, encodeList_eq, map_ok]
  exact exists_congr fun es => and_congr mapM_ok eq_comm

theorem encode_tuple_ok {xs : List PyVal} {e : Json} : encode rt (.tuple xs) = .ok e ↔
    ∃ es, List.Forall₂ (fun x y => encode rt x = .ok y) xs es ∧ e = .arr es := by
  rw [encode, encodeList_eq, map_ok]
  exact exists_congr fun es => and_congr mapM_ok eq_comm

/-- An entry and its encoding: the same key, and the encoded value. -/
def EntryEncodes (rt : Runtime) (kv : PyKey × PyVal) (je : Str × Json) : Prop :=
  kv.1 = .str je.1 ∧ encode rt kv.2 = .ok je.2

theorem encodeEntry_ok {kv : PyKey × PyVal} {je : Str × Json} :
    encodeEntry rt kv = .ok je ↔ EntryEncodes rt kv je := by
  obtain ⟨k, v⟩ := kv
  obtain ⟨k', e⟩ := je
  cases k with
  | str k =>
    simp only [encodeEntry, map_ok, EntryEncodes, PyKey.str.injEq, Prod.mk.injEq]
    refine ⟨fun h => ?_, fun h => ⟨e, h.2, h.1, rfl⟩⟩
    obtain ⟨e', h1, h2, rfl⟩ := h
    exact ⟨h2, h1⟩
  | other t i =>
    simp [encodeEntry, EntryEncodes]

theorem encode_dict_ok {kvs : PyDict} {e : Json} : encode rt (.dict kvs) = .ok e ↔
    ∃ es, List.Forall₂ (EntryEncodes rt) kvs es ∧ e = .obj es := by
  rw [encode, encodeEntries_eq, map_ok]
  refine exists_congr fun es => and_congr ?_ eq_comm
  simp only [mapM_ok, encodeEntry_ok]

theorem itemKey_ok {e : Json} {te : Str × Json} : itemKey rt e = .ok te ↔
    Json.dumps rt.floats true compact e = some te.1 ∧ te.2 = e := by
  obtain ⟨t, e'⟩ := te
  unfold itemKey
  split
  · rename_i t' h
    simp only [h, Except.ok.injEq, Prod.mk.injEq, Option.some.injEq]
    exact and_congr_right' eq_comm
  · rename_i h
    simp [h]

theorem encode_set_ok {xs : List PyVal} {e : Json} : encode rt (.set xs) = .ok e ↔
    ∃ es, List.Forall₂ (fun x y => encode rt x = .ok y) xs es ∧
      ∃ keyed, es.mapM (itemKey rt) = .ok keyed ∧
        e = envelope "set" (.arr ((keyed.insertionSort Json.KeyLe).map Prod.snd)) := by
  rw [encode, encodeList_eq, bind_ok]
  refine exists_congr fun es => and_congr mapM_ok ?_
  rw [sortItems, bind_ok]
  refine ⟨fun h => ?_, fun h => ?_⟩
  · obtain ⟨items, hi, he⟩ := h
    obtain ⟨keyed, hk, rfl⟩ := map_ok.mp hi
    cases he
    exact ⟨keyed, hk, rfl⟩
  · obtain ⟨keyed, hk, rfl⟩ := h
    exact ⟨_, map_ok.mpr ⟨keyed, hk, rfl⟩, rfl⟩

theorem decode_arr_ok {xs : List Json} {v : PyVal} : decode rt (.arr xs) = .ok v ↔
    ∃ vs, List.Forall₂ (fun x y => decode rt x = .ok y) xs vs ∧ v = .list vs := by
  rw [decode, decodeList_eq, map_ok]
  exact exists_congr fun es => and_congr mapM_ok eq_comm

/-- A JSON entry and its decoding. -/
def EntryDecodes (rt : Runtime) (je : Str × Json) (kv : PyKey × PyVal) : Prop :=
  kv.1 = .str je.1 ∧ decode rt je.2 = .ok kv.2

theorem decode_obj_ok {kvs : Dict Str Json} (h : Dict.contains kvs TYPE_KEY = false) {v : PyVal} :
    decode rt (.obj kvs) = .ok v ↔
      ∃ vs, List.Forall₂ (EntryDecodes rt) kvs vs ∧ v = .dict vs := by
  rw [decode, h, if_neg Bool.false_ne_true, decodeEntries_eq, map_ok]
  refine exists_congr fun es => and_congr ?_ eq_comm
  rw [mapM_ok]
  have hiff : (fun (je : Str × Json) (kv : PyKey × PyVal) =>
      (decode rt je.2).map (fun v => (PyKey.str je.1, v)) = .ok kv) = EntryDecodes rt := by
    funext je kv
    obtain ⟨k, v⟩ := kv
    simp only [map_ok, EntryDecodes, Prod.mk.injEq, eq_iff_iff]
    refine ⟨fun h => ?_, fun h => ⟨v, h.2, h.1.symm, rfl⟩⟩
    obtain ⟨v', h1, h2, rfl⟩ := h
    exact ⟨h2.symm, h1⟩
  rw [hiff]

theorem decodeMembers_ok {xs : List Json} {vs : List PyVal} : decodeMembers rt xs = .ok vs ↔
    List.Forall₂ (fun x y => ∃ v, decode rt x = .ok v ∧ coerceSetMember v = .ok y) xs vs := by
  rw [decodeMembers_eq, mapM_ok]
  simp only [bind_ok]

theorem coerceSetMembers_ok {xs ys : List PyVal} : coerceSetMembers xs = .ok ys ↔
    List.Forall₂ (fun x y => coerceSetMember x = .ok y) xs ys := by
  rw [coerceSetMembers_eq, mapM_ok]

end JsonDatabase
