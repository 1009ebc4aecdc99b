/-
  File:      JsonDatabase/LoadErrors.lean
  Subject:   What loading a file may raise.

  Every stage but three raises `DatabaseFormatError` or `IntegrityError`. The three are an integer
  literal of too many digits, a version that is a signaling NaN, and a state that was decoded but
  cannot be written again for its checksum.

  * `decode_raises`, `validateRawDocumentFields_raises`, `validateStateShape_raises` -- the stages;
  * `LoadDefect`, `load_closed` -- loading keeps to its contract iff none of the three is reached.
-/
import JsonDatabase.Durability

namespace JsonDatabase

open PyVal hiding none

/-! ## 1. The decoder -/

/-- The exception is of type `t`. -/
def OfType (t : ExcType) (e : PyExc) : Prop := e.type = t

theorem coerceSetMember_raises (v : PyVal) :
    RaisesOnly (OfType .serializationError) (coerceSetMember v) := by
  have whole {v : PyVal} (hl : ∀ xs, v ≠ .list xs) :
      RaisesOnly (OfType .serializationError) (coerceSetMember v) := by
    unfold coerceSetMember
    split
    · exact absurd rfl (hl _)
    · split
      · exact .ok _
      · exact .error rfl
  induction v using PyVal.induct with
  | list xs ih =>
    rw [coerceSetMember, coerceSetMembers_eq]
    exact .map _ (.mapM ih)
  | _ => exact whole fun _ => PyVal.noConfusion

theorem decodeTagged_raises (rt : Runtime) (tag raw : Option Json)
    {members : Except PyExc (List PyVal)}
    (hm : ∀ es, raw = some (.arr es) → RaisesOnly (OfType .serializationError) members) :
    RaisesOnly (OfType .serializationError) (decodeTagged rt tag raw members) := by
  unfold decodeTagged
  split
  · split
    · split
      · split
        · exact .ok _
        · exact .error rfl
      · exact .error rfl
    split
    · split
      · split
        · exact .ok _
        · exact .error rfl
      · exact .error rfl
    split
    · split
      · split
        · exact .ok _
        · exact .error rfl
      · exact .error rfl
    split
    · split
      · split
        · exact .ok _
        · exact .error rfl
      · exact .error rfl
    split
    · split
      · exact .map _ (hm _ rfl)
      · exact .error rfl
    · exact .error rfl
  · exact .error rfl

/-- **The decoder raises nothing but `SerializationError`.** -/
theorem decode_raises (rt : Runtime) (j : Json) :
    RaisesOnly (OfType .serializationError) (decode rt j) := by
  -- the members of a set are the elements of an array
  suffices H : RaisesOnly (OfType .serializationError) (decode rt j) ∧
      ∀ xs, j = .arr xs → ∀ x ∈ xs, RaisesOnly (OfType .serializationError) (decode rt x) from H.1
  induction j using Json.induct with
  | arr xs ih =>
    refine ⟨?_, fun ys h => ?_⟩
    · rw [decode, decodeList_eq]
      exact .map _ (.mapM fun x hx => (ih x hx).1)
    · cases h
      exact fun x hx => (ih x hx).1
  | obj kvs ih =>
    refine ⟨?_, fun ys h => by cases h⟩
    rw [decode]
    split
    · refine decodeTagged_raises rt _ _ fun es hes => ?_
      rw [decodeSetField_of_get rt hes, decodeMembers_eq]
      refine .mapM fun x hx => .bind ?_ fun v _ => coerceSetMember_raises v
      exact (ih VALUE_KEY _ (Dict.mem_of_get hes)).2 es rfl x hx
    · rw [decodeEntries_eq]
      exact .map _ (.mapM fun kv hkv => .map _ (ih kv.1 kv.2 hkv).1)
  | null => exact ⟨.ok _, fun ys h => by cases h⟩
  | bool b => exact ⟨.ok _, fun ys h => by cases h⟩
  | int i => exact ⟨.ok _, fun ys h => by cases h⟩
  | float f => exact ⟨.ok _, fun ys h => by cases h⟩
  | str s => exact ⟨.ok _, fun ys h => by cases h⟩

/-! ## 2. The raw scan -/

theorem raiseIf_raises {P : PyExc → Prop} {c : Bool} {e : PyExc} (h : c = true → P e) :
    RaisesOnly P (raiseIf c e) := by
  intro e' he
  obtain ⟨hc, rfl⟩ := raiseIf_error he
  exact h hc

theorem validateCollectionName_raises (v : PyVal) :
    RaisesOnly (OfType .validationError) (validateCollectionName v) := by
  unfold validateCollectionName
  split
  · split
    · exact .error rfl
    split
    · exact .error rfl
    split
    · exact .error rfl
    split
    · exact .ok _
    · exact .error rfl
  · exact .error rfl

/-- A handler turns every exception of one type into another. -/
theorem handle_raises {α : Type} {t : ExcType} {P : PyExc → Prop} {x : Except PyExc α}
    (hx : RaisesOnly (OfType t) x) {f : PyExc → PyExc} (hf : ∀ e, P (f e)) :
    RaisesOnly P (Except.handle x (· = t) f) := by
  cases x with
  | ok a => exact .ok a
  | error e =>
    rw [Except.handle, hx e rfl, decide_eq_true rfl, if_pos rfl]
    exact .error (hf e)

theorem validateStoredName_raises (name : PyKey) :
    RaisesOnly (OfType .databaseFormatError) (validateStoredName name) :=
  handle_raises (validateCollectionName_raises _) fun _ => rfl

theorem validateRawDocument_raises (entry : Str × Json) :
    RaisesOnly (OfType .databaseFormatError) (validateRawDocument entry) := by
  refine .bind (raiseIf_raises fun _ => rfl) fun _ _ => ?_
  split
  · refine .bind (raiseIf_raises fun _ => rfl) fun _ _ => ?_
    unfold validateRawDocumentTree
    split
    · exact .error rfl
    split
    · exact .ok _
    · exact .error rfl
  · exact .ok _

/-- **The raw scan raises nothing but `DatabaseFormatError`.** -/
theorem validateRawDocumentFields_raises (j : Json) :
    RaisesOnly (OfType .databaseFormatError) (validateRawDocumentFields j) := by
  unfold validateRawDocumentFields
  split
  · split
    · refine .forEach fun entry _ => .bind (validateStoredName_raises _) fun _ _ => ?_
      split
      · exact .forEach fun doc _ => validateRawDocument_raises doc
      · exact .ok _
    · exact .ok _
  · exact .ok _

/-! ## 3. The shape check -/

theorem raiseUnlessEq_str_raises {P : PyExc → Prop} (v : PyVal) (s : Str) {e : PyExc} (h : P e) :
    RaisesOnly P (raiseUnlessEq v (.str s) e) := by
  intro e' he
  rw [raiseUnlessEq_str_error he]
  exact h

theorem validateDocumentShape_raises (name : PyKey) (entry : PyKey × PyVal) :
    RaisesOnly (OfType .databaseFormatError) (validateDocumentShape name entry) := by
  unfold validateDocumentShape
  split
  · exact .error rfl
  · refine .bind (raiseIf_raises fun _ => rfl) fun _ _ => ?_
    split
    · exact raiseUnlessEq_str_raises _ _ rfl
    · exact .error rfl

theorem validateCollectionShape_raises (entry : PyKey × PyVal) :
    RaisesOnly (OfType .databaseFormatError) (validateCollectionShape entry) := by
  refine .bind (validateStoredName_raises _) fun _ _ => ?_
  split
  · exact .forEach fun doc _ => validateDocumentShape_raises _ doc
  · exact .error rfl

theorem eqRaises_version (v : PyVal) : eqRaises v (.int VERSION) = v.isSNaN := by
  cases v with
  | decimal d => cases d <;> rfl
  | _ => rfl

/-- Comparing with the version raises only for a signaling NaN. -/
theorem raiseUnlessEq_version {P : PyExc → Prop} {v : PyVal} {e : PyExc} (h : P e)
    (hs : v.isSNaN = true → P (.builtin .invalidOperation)) :
    RaisesOnly P (raiseUnlessEq v (.int VERSION) e) := by
  unfold raiseUnlessEq eqVals
  rw [eqRaises_version]
  cases hv : v.isSNaN with
  | true => exact .error (hs hv)
  | false => exact raiseIf_raises fun _ => h

/-- The state names this format, and its version is a signaling NaN. -/
def SignalingVersion (s : State) : Prop :=
  ∃ fields v, Dict.get s META = some (.dict fields) ∧
    Dict.get fields FORMAT_KEY = some (.str FORMAT) ∧ Dict.get fields VERSION_KEY = some v ∧
      v.isSNaN = true

/-- **The shape check raises `DatabaseFormatError`**, or stumbles over the version. -/
theorem validateStateShape_raises (r : Bool) (v : PyVal) :
    RaisesOnly (fun e => e.type = .databaseFormatError ∨ ∃ s, v = .dict s ∧ SignalingVersion s)
      (validateStateShape r v) := by
  have weaken {x : Except PyExc Unit} (h : RaisesOnly (OfType .databaseFormatError) x) :
      RaisesOnly (fun e => e.type = .databaseFormatError ∨ ∃ s, v = .dict s ∧ SignalingVersion s)
        x := fun e he => Or.inl (h e he)
  unfold validateStateShape
  split
  · rename_i s
    split
    · rename_i fields hm
      refine .bind (weaken (raiseUnlessEq_str_raises _ _ rfl)) fun _ hf => ?_
      have hf := getD_none_eq_str.mp (eqVals_str.mp (raiseUnlessEq_ok.mp hf))
      refine .bind (raiseUnlessEq_version (Or.inl rfl) fun hv => ?_) fun _ _ => ?_
      · cases hg : Dict.get fields VERSION_KEY with
        | none =>
          rw [hg] at hv
          cases hv
        | some v =>
          rw [hg] at hv
          exact Or.inr ⟨s, rfl, fields, v, hm, hf, hg, hv⟩
      · refine .bind (weaken (raiseIf_raises fun _ => rfl)) fun _ _ => ?_
        split
        · exact weaken (.forEach fun entry _ => validateCollectionShape_raises entry)
        · exact weaken (.error rfl)
    · exact weaken (.error rfl)
  · exact weaken (.error rfl)

theorem validateStateShape_signaling {r : Bool} {s : State} (h : SignalingVersion s) :
    validateStateShape r (.dict s) = .error (.builtin .invalidOperation) := by
  obtain ⟨fields, v, hm, hf, hv, hs⟩ := h
  have hformat (e : PyExc) : raiseUnlessEq ((Dict.get fields FORMAT_KEY).getD .none) (.str FORMAT) e =
      .ok () := raiseUnlessEq_ok.mpr (eqVals_str.mpr (getD_none_eq_str.mpr hf))
  have hversion (e : PyExc) : raiseUnlessEq v (.int VERSION) e =
      .error (.builtin .invalidOperation) := by
    rw [raiseUnlessEq, eqVals, eqRaises_version, hs, if_pos rfl]
  unfold validateStateShape
  simp only [hm, hformat, hv, Option.getD_some, hversion]
  rfl

/-! ## 4. What was read can be written, or not -/

/-- What every value that was read is like at its top. -/
def localReadable : PyVal → Prop
  | .frozenset _ | .other _ _ => False
  | .int i => Json.intFits i = true
  | .dict kvs => ∀ k ∈ Dict.keys kvs, ∃ s, k = .str s
  | _ => True

def readable (v : PyVal) : Prop := everywhere localReadable v

theorem putClosed_readable : PutClosed readable := by
  refine putClosed_everywhere (fun {d k v} h hk k' hm => ?_) trivial (fun _ => trivial)
    (show Json.intFits VERSION = true by decide) fun _ => trivial
  rcases Dict.mem_keys_put.mp hm with rfl | hm
  · exact hk.imp fun _ h => h.1
  · exact h k' hm

theorem readable_enveloped {v : PyVal} (h : isEnveloped v = true) : readable v := by
  cases v <;> trivial

/-- **What is parsed and decoded** has no integer that is too long and nothing the encoder does not
    know. -/
theorem readable_of_parse {rt : Runtime} {raw : Bytes} {j : Json} (hj : parseBytes rt raw = .ok j)
    {v : PyVal} (hv : decode rt j = .ok v) : readable v := by
  have closed : ReaderClosed rt.floats (fun _ => True) fun j =>
      ∀ v, decode rt j = .ok v → readable v :=
    { literal := fun wj hm v hv => by
        simp only [literals, List.mem_cons, List.not_mem_nil, or_false] at hm
        obtain rfl | rfl | rfl | rfl | rfl | rfl := hm
        all_goals
          cases hv
          trivial
      number := fun s t r j hs hj v hv => by
        cases j with
        | int i =>
          cases hv
          exact numberValue_intFits hs hj
        | float f =>
          cases hv
          trivial
        | _ =>
          unfold numberValue at hj
          split at hj
          · cases hj
          · split at hj <;> cases hj
      str := fun s _ v hv => by
        cases hv
        trivial
      arr := fun xs hx v hv => by
        obtain ⟨vs, hvs, rfl⟩ := decode_arr_ok.mp hv
        refine everywhere_list.mpr ⟨trivial, fun v hv => ?_⟩
        obtain ⟨x, hm, hxv⟩ := forall₂_mem_right hvs hv
        exact hx x hm v hxv
      obj := fun kvs hd hx v hv => by
        rcases decode_obj_cases hv with he | ⟨es, xs, w, hm, hw, hc, rfl⟩ | ⟨-, vs, hvs, rfl⟩
        · exact readable_enveloped he
        · refine everywhere_set.mpr ⟨trivial, fun y hy => ?_⟩
          have hy := mem_uniques ((rt.setOrder_perm _).mem_iff.mp hy)
          exact (everywhere_tuple.mp (coerce_everywhere (fun _ => trivial) hc
            ((hx VALUE_KEY _ hm).2 w hw)).2).2 y hy
        · refine everywhere_dict.mpr ⟨fun k hk => ?_, fun k v hm => ?_⟩
          · rw [keys_decoded hvs] at hk
            obtain ⟨s, -, rfl⟩ := List.mem_map.mp hk
            exact ⟨s, rfl⟩
          · obtain ⟨je, hje, -, hdec⟩ := forall₂_mem_right hvs hm
            exact (hx je.1 je.2 hje).2 v hdec }
  unfold parseBytes at hj
  split at hj
  · cases hj
  · split at hj
    · rename_i hl
      cases hj
      exact closed.loads (fun _ _ _ _ _ => trivial) hl v hv
    · cases hj
    · cases hj
    · cases hj

/-- No surrogate, no infinity and no NaN at the top of the value. -/
def localPlain : PyVal → Prop
  | .str s => scalarOnly s = true
  | .float f => f.isFinite = true
  | .decimal d => d.isFinite = true
  | .dict kvs => ∀ k, PyKey.str k ∈ Dict.keys kvs → scalarOnly k = true
  | _ => True

/-- No surrogate, no infinity and no NaN at any depth. -/
def plain (v : PyVal) : Prop := everywhere localPlain v

/-- Readable and plain values pass every stage of a write. -/
theorem writable_of_plain {rt : Runtime} {v : PyVal} (hr : readable v) (hp : plain v) :
    ∃ e, encode rt v = .ok e ∧ e.writable := by
  have items {xs : List PyVal} (ih : ∀ x ∈ xs, readable x → plain x →
      ∃ e, encode rt x = .ok e ∧ e.writable) (hr : ∀ x ∈ xs, readable x)
      (hp : ∀ x ∈ xs, plain x) : ∃ es, List.Forall₂ (fun x y => encode rt x = .ok y ∧ y.writable)
        xs es := forall₂_exists.mpr fun x hx => ih x hx (hr x hx) (hp x hx)
  have split {xs : List PyVal} {es : List Json} (h : List.Forall₂ (fun x y => encode rt x = .ok y ∧
      y.writable) xs es) : List.Forall₂ (fun x y => encode rt x = .ok y) xs es ∧
        ∀ y ∈ es, y.writable := by
    refine ⟨h.imp fun _ _ h => h.1, fun y hy => ?_⟩
    obtain ⟨x, -, hxy⟩ := forall₂_mem_right h hy
    exact hxy.2
  induction v using PyVal.induct with
  | list xs ih =>
    obtain ⟨es, h⟩ := items ih (everywhere_list.mp hr).2 (everywhere_list.mp hp).2
    exact ⟨.arr es, encode_list_ok.mpr ⟨es, (split h).1, rfl⟩, writable_arr.mpr (split h).2⟩
  | tuple xs ih =>
    obtain ⟨es, h⟩ := items ih (everywhere_tuple.mp hr).2 (everywhere_tuple.mp hp).2
    exact ⟨.arr es, encode_tuple_ok.mpr ⟨es, (split h).1, rfl⟩, writable_arr.mpr (split h).2⟩
  | set xs ih =>
    obtain ⟨es, h⟩ := items ih (everywhere_set.mp hr).2 (everywhere_set.mp hp).2
    obtain ⟨keyed, hk⟩ := forall₂_exists.mpr fun y hy => show ∃ ky, itemKey rt y = .ok ky from
      ⟨(_, y), itemKey_ok.mpr ⟨if_pos ((split h).2 y hy).1, rfl⟩⟩
    have he := encode_set_ok.mpr ⟨es, (split h).1, keyed, mapM_ok.mpr hk, rfl⟩
    refine ⟨_, he, (writable_envelope (by decide)).mpr (writable_arr.mpr fun y hy => ?_)⟩
    exact (split h).2 y ((sorted_perm (mapM_ok.mpr hk)).mem_iff.mpr hy)
  | dict kvs ih =>
    obtain ⟨hk, hr⟩ := everywhere_dict.mp hr
    obtain ⟨hs, hp⟩ := everywhere_dict.mp hp
    have he : Encodable rt (.dict kvs) := encodable_dict.mpr fun k v hm =>
      ⟨hk k (Dict.mem_keys_of_mem hm), (ih k v hm (hr k v hm) (hp k v hm)).imp fun _ h => h.1⟩
    obtain ⟨e, he⟩ := he
    refine ⟨e, he, (encode_clean he).mp (clean_dict.mpr fun kv hkv => ⟨fun s e => ?_, ?_⟩)⟩
    · exact hs s (e ▸ Dict.mem_keys_of_mem hkv)
    · obtain ⟨e', he', hw⟩ := ih kv.1 kv.2 hkv (hr _ _ hkv) (hp _ _ hkv)
      exact (encode_clean he').mpr hw
  | float f =>
    have hf : f.isFinite = true := hp
    refine ⟨.float f, ?_, hf, rfl⟩
    rw [encode, if_pos hf]
  | decimal d =>
    cases d with
    | finite x => exact ⟨_, rfl, writable_text (by decide) x.isAscii_str⟩
    | inf _ => cases (show false = true from hp)
    | nan _ _ => cases (show false = true from hp)
    | snan _ _ => cases (show false = true from hp)
  | frozenset xs ih => cases (everywhere.self hr)
  | other t i => cases hr
  | str s => exact ⟨_, rfl, rfl, hp⟩
  | int i => exact ⟨_, rfl, hr, rfl⟩
  | datetime d => exact ⟨_, rfl, writable_text (by decide) (isAscii_isoformat d)⟩
  | date d => exact ⟨_, rfl, writable_text (by decide) (isAscii_isoformat_date d)⟩
  | bytes b => exact ⟨_, rfl, writable_text (by decide) (isAscii_b64encode b)⟩
  | none => exact ⟨_, rfl, rfl, rfl⟩
  | bool b => exact ⟨_, rfl, rfl, rfl⟩

theorem plain_of_writable {rt : Runtime} {v : PyVal} (he : Encodable rt v) (hc : clean v) :
    plain v := by
  refine everywhere_imp₂ (fun v he hc => ?_) (encodable_everywhere he) hc
  obtain ⟨e, he⟩ := he
  cases v with
  | float f =>
    rw [encode] at he
    split at he
    · rename_i hf
      exact hf
    · cases he
  | decimal d =>
    cases d with
    | finite x => exact rfl
    | inf _ => cases he
    | nan _ _ => cases he
    | snan _ _ => cases he
  | str s => exact hc
  | dict kvs => exact hc
  | _ => trivial

/-- **A readable value is written iff it is plain.** -/
theorem plain_iff {rt : Runtime} {v : PyVal} (hr : readable v) :
    Encodable rt v ∧ clean v ↔ plain v := by
  refine ⟨fun h => plain_of_writable h.1 h.2, fun h => ?_⟩
  obtain ⟨e, he, hw⟩ := @writable_of_plain rt v hr h
  exact ⟨⟨e, he⟩, (encode_clean he).mpr hw⟩

/-! ## 5. Loading -/

/-- The exceptions that loading is documented to raise. -/
def ExcType.isLoadError : ExcType → Bool
  | .databaseFormatError | .integrityError | .storageError => true
  | _ => false

/-- The kinds of content on which loading raises something else. -/
inductive LoadDefect (rt : Runtime) (raw : Bytes) : Prop where
  /-- The text has an integer literal of too many digits, before any other fault. -/
  | longInteger {text : Str} : utf8Decode raw = some text →
      loads rt.floats text = .error .intTooLong → LoadDefect rt raw
  /-- The version is an envelope with a signaling NaN. -/
  | signalingVersion {parsed : Json} {s : State} : parseBytes rt raw = .ok parsed →
      validateRawDocumentFields parsed = .ok () → decode rt parsed = .ok (.dict s) →
      SignalingVersion s → LoadDefect rt raw
  /-- The state has the right shape, and somewhere in it, the checksum field apart, is an
      infinity, a NaN or a lone surrogate. -/
  | unwritable {parsed : Json} {s : State} {fields : PyDict} : parseBytes rt raw = .ok parsed →
      validateRawDocumentFields parsed = .ok () → decode rt parsed = .ok (.dict s) →
      validateStateShape true (.dict s) = .ok () → Dict.get s META = some (.dict fields) →
      ¬ plain (.dict (withChecksum s fields .none)) → LoadDefect rt raw

theorem parseBytes_raises (rt : Runtime) (raw : Bytes) :
    RaisesOnly (fun e => e.type = .databaseFormatError ∨
      (e = .builtin .valueError ∧ LoadDefect rt raw)) (parseBytes rt raw) := by
  unfold parseBytes
  split
  · exact .error (Or.inl rfl)
  · rename_i text ht
    split
    · exact .ok _
    · exact .error (Or.inl rfl)
    · rename_i hl
      exact .error (Or.inr ⟨rfl, .longInteger ht hl⟩)
    · rename_i hl
      exact absurd hl (loads_ne_outOfFuel _ _)

theorem verifyChecksum_raises {rt : Runtime} {s : State} {fields : PyDict}
    (hm : Dict.get s META = some (.dict fields)) :
    RaisesOnly (fun e => e.type = .integrityError ∨ (e.type = .serializationError ∧
      ∃ e', computeChecksum rt .total s = .error e')) (verifyChecksum rt s) := by
  unfold verifyChecksum
  rw [hm]
  refine .bind (.ok fields) fun _ _ => .bind (fun e he => Or.inr ⟨computeChecksum_error hm he, e, he⟩)
    fun d _ => raiseUnlessEq_str_raises _ _ (Or.inl rfl)

/-- **What loading raises** is documented, or the content has a defect. -/
theorem loadBytes_raises (rt : Runtime) (raw : Bytes) :
    RaisesOnly (fun e => e.type.isLoadError = true ∨ LoadDefect rt raw) (loadBytes rt raw) := by
  have format {α : Type} {x : Except PyExc α} (h : RaisesOnly (OfType .databaseFormatError) x) :
      RaisesOnly (fun e => e.type.isLoadError = true ∨ LoadDefect rt raw) x := fun e he =>
    Or.inl (by rw [h e he]; rfl)
  refine .bind (format (raiseIf_raises fun _ => rfl)) fun _ _ => .bind (fun e he => ?_)
    fun parsed hp => .bind (format (validateRawDocumentFields_raises parsed)) fun _ hraw => .bind
      (format (handle_raises (decode_raises rt parsed) fun _ => rfl)) fun v hv => .bind
        (fun e he => ?_) fun _ hs => .bind (fun e he => ?_) fun s hd => .bind (fun e he => ?_)
          fun _ _ => .ok _
  · rcases parseBytes_raises rt raw e he with h | h
    · exact Or.inl (by rw [h]; rfl)
    · exact Or.inr h.2
  · rcases validateStateShape_raises true v e he with h | ⟨s, rfl, h⟩
    · exact Or.inl (by rw [h]; rfl)
    · exact Or.inr (.signalingVersion hp hraw (Except.handle_ok.mp hv) h)
  · obtain ⟨s, fields, c, rfl, -⟩ := validateStateShape_ok.mp hs
    cases he
  · cases asDict_ok.mp hd
    obtain ⟨_, fields, c, e', hshape⟩ := validateStateShape_ok.mp hs
    cases e'
    have hv := Except.handle_ok.mp hv
    rcases verifyChecksum_raises hshape.metaIs e he with h | ⟨-, e', he'⟩
    · exact Or.inl (by rw [h]; rfl)
    · refine Or.inr (.unwritable hp hraw hv hs hshape.metaIs fun hplain => ?_)
      have hr := putClosed_readable.withChecksum (readable_of_parse hp hv) hshape.metaIs
        putClosed_readable.none
      obtain ⟨d, hd⟩ := (computeChecksum_isOk hshape.metaIs).mpr ((@plain_iff rt _ hr).mpr hplain)
      rw [hd] at he'
      cases he'

/-- A defect makes loading raise something that is not documented. -/
theorem LoadDefect.raises {rt : Runtime} {raw : Bytes} (h : LoadDefect rt raw) :
    ∃ e, loadBytes rt raw = .error e ∧ e.type.isLoadError = false := by
  have nonempty {j : Json} (hp : parseBytes rt raw = .ok j) :
      raiseIf (raw = []) ⟨.databaseFormatError, [.text "database file is empty: ", .dbPath], none,
        none⟩ = .ok () := by
    refine raiseIf_ok.mpr (decide_eq_false fun e => ?_)
    rw [e] at hp
    cases hp
  cases h with
  | @longInteger text ht hl =>
    refine ⟨.builtin .valueError, ?_, rfl⟩
    have hn : raw ≠ [] := fun e => by
      rw [e] at ht
      cases ht
      cases hl
    unfold loadBytes parseBytes
    rw [raiseIf_ok.mpr (decide_eq_false hn), ht]
    simp only [hl]
    rfl
  | signalingVersion hp hraw hd hs =>
    refine ⟨.builtin .invalidOperation, ?_, rfl⟩
    unfold loadBytes
    rw [nonempty hp, hp]
    show (validateRawDocumentFields _ >>= _) = _
    rw [hraw, hd]
    show (validateStateShape true _ >>= _) = _
    rw [validateStateShape_signaling hs]
    rfl
  | @unwritable parsed s fields hp hraw hd hs hm hplain =>
    have hr := putClosed_readable.withChecksum (readable_of_parse hp hd) hm putClosed_readable.none
    have hc : ∃ e, computeChecksum rt .total s = .error e := by
      cases hc : computeChecksum rt .total s with
      | error e => exact ⟨e, rfl⟩
      | ok d =>
        exact absurd ((@plain_iff rt _ hr).mp ((computeChecksum_isOk hm).mp ⟨d, hc⟩)) hplain
    obtain ⟨e, he⟩ := hc
    refine ⟨e, ?_, by rw [computeChecksum_error hm he]; rfl⟩
    unfold loadBytes
    rw [nonempty hp, hp]
    show (validateRawDocumentFields _ >>= _) = _
    rw [hraw, hd]
    show (validateStateShape true _ >>= _) = _
    rw [hs]
    show (verifyChecksum rt s >>= _) = _
    unfold verifyChecksum
    rw [hm, he]
    rfl

/-- **The report is made** iff loading kept to its contract. -/
theorem checkIntegrity_ok {rt : Runtime} {now : DateTime} {raw : Bytes} :
    (∃ r, checkIntegrity rt now (.bytes raw) = .ok r ∧ r.status ≠ .missing) ↔
      ∀ e, load rt now (.bytes raw) = .error e → e.type.isLoadError = true := by
  cases hl : load rt now (.bytes raw) with
  | ok s =>
    simp [checkIntegrity, hl]
  | error e =>
    obtain ⟨t, msg, expected, actual⟩ := e
    cases t <;> simp [checkIntegrity, hl, ExcType.isLoadError]

/-- **Loading keeps to its contract**, and so `check_integrity` reports instead of raising, on
    exactly the contents without a defect. -/
theorem load_closed (rt : Runtime) (now : DateTime) (raw : Bytes) :
    ((∀ e, load rt now (.bytes raw) = .error e → e.type.isLoadError = true) ↔ ¬ LoadDefect rt raw) ∧
    ((∃ r, checkIntegrity rt now (.bytes raw) = .ok r ∧ r.status ≠ .missing) ↔
      ¬ LoadDefect rt raw) := by
  have closed : (∀ e, load rt now (.bytes raw) = .error e → e.type.isLoadError = true) ↔
      ¬ LoadDefect rt raw := by
    refine ⟨fun h hd => ?_, fun h e he => (loadBytes_raises rt raw e he).resolve_right h⟩
    obtain ⟨e, he, hf⟩ := hd.raises
    rw [h e he] at hf
    cases hf
  exact ⟨closed, checkIntegrity_ok.trans closed⟩

/-- A database whose meta block holds something that is not a number. -/
def nanText : Str :=
  lit "\x7b\"meta\":\x7b\"format\":\"json_database\",\"version\":1,\"content_sha256\":\"\",\"x\":NaN\x7d,\"collections\":\x7b\x7d\x7d"

/-- `NaN` is parsed and decoded, and then raises from the checksum. -/
theorem nan_not_closed :
    let raw := nanText.map fun c => byte c.val
    raised (load interpreter epoch (.bytes raw)) = some .serializationError ∧
      raised (checkIntegrity interpreter epoch (.bytes raw)) = some .serializationError := by
  decide +kernel

end JsonDatabase
