/-
  File:      JsonDatabase/QuerySchema.lean
  Subject:   The published schema of queries, and what `find` makes of them.

  The schema is stricter than the code about the keys inside of values, and laxer in one place: it
  lets the reserved key be the name of a field, where the reader takes the criteria for an envelope.

  * `Schemas.queryDefinitions` -- `query.schema.json`;
  * `expectedOk_of_valid` -- what the schema lets stand for a field, the code takes;
  * `query_schema` -- which described criteria `find` refuses.
-/
import JsonDatabase.Envelopes
import JsonDatabase.Interpreter
import JsonDatabase.QueryErrors
import JsonDatabase.Schemas

namespace JsonDatabase

open PyVal hiding none
open Schema (Valid Invalid)

/-! ## 1. The schema -/

namespace Schemas

/-- The names under `$defs`, and the criteria themselves. -/
inductive QueryName where
  | criteria
  | queryValue
  | operatorExpression

/-- `^\$` -/
def operatorPattern (s : Str) : Bool := decide (s.head? = some (ch '$'))

/-- The operators and what the schema asks of their operands. -/
def operands : List (Str × Schema QueryName) :=
  let values := .allOf [type .array, .items (.ref .queryValue)]
  [(lit "$eq", .ref .queryValue), (lit "$ne", .ref .queryValue), (lit "$gt", .ref .queryValue),
    (lit "$gte", .ref .queryValue), (lit "$lt", .ref .queryValue), (lit "$lte", .ref .queryValue),
    (lit "$in", values), (lit "$nin", values), (lit "$contains", .ref .queryValue),
    (lit "$exists", type .boolean)]

def queryDefinitions : QueryName → Schema QueryName
  | .criteria => .allOf [type .object,
      .properties [] (.anyOf [.ref .queryValue, .ref .operatorExpression])]
  | .queryValue => .oneOf [type .null, type .boolean, type .string, type .number,
      .allOf [type .array, .items (.ref .queryValue)],
      .allOf [type .object, .propertyNames (.not (.assert (.pattern operatorPattern))),
        .properties [] (.ref .queryValue)]]
  | .operatorExpression => .allOf [type .object, .assert (.minProperties 1), .properties operands .never]

end Schemas

open Schemas (queryDefinitions)

/-! ## 2. What stands for a field -/

section

variable {rt : Runtime}

/-- A value of the schema has no operators at its top. -/
theorem queryValue_keys {kvs : Dict Str Json} (h : Valid queryDefinitions (.ref .queryValue) (.obj kvs)) :
    ∀ k x, (k, x) ∈ kvs → Schemas.operatorPattern k = false := by
  obtain ⟨n, schema, hn, hv⟩ := (Schema.valid_ref.mp h).of_oneOf
  match n with
  | 0 | 1 | 2 | 3 =>
    cases hn
    cases Schema.valid_assert.mp hv
  | 4 =>
    cases hn
    cases Schema.valid_assert.mp (Schema.valid_allOf_cons.mp hv).1
  | 5 =>
    cases hn
    have hkeys := Schema.valid_propertyNames.mp (Schema.valid_allOf_cons.mp (Schema.valid_allOf_cons.mp hv).2).1
    intro k x hx
    cases Schema.valid_not.mp (hkeys k x hx) with
    | assert h => exact h
  | n + 6 => cases hn

/-- The code has the operators of the schema, and takes their operands. -/
theorem operatorOk_of_valid {k : Str} {x : Json} {v : PyVal}
    (h : Valid queryDefinitions (Schema.property Schemas.operands .never k) x) (hd : decode rt x = .ok v) :
    isDollar (.str k) = true ∧ operatorOk (.str k, v) = true := by
  have isList (hx : Valid queryDefinitions (.allOf [Schemas.type .array, .items (.ref .queryValue)]) x) :
      ∃ xs, v = .list xs := by
    have htype := Schema.valid_assert.mp (Schema.valid_allOf_cons.mp hx).1
    cases x with
    | arr es =>
      obtain ⟨vs, -, rfl⟩ := decode_arr_ok.mp hd
      exact ⟨vs, rfl⟩
    | _ => cases htype
  obtain ⟨schema, hs, hx⟩ := h.closed
  simp only [Schemas.operands, List.mem_cons, List.not_mem_nil, or_false, Prod.mk.injEq] at hs
  rcases hs with ⟨rfl, -⟩ | ⟨rfl, -⟩ | ⟨rfl, -⟩ | ⟨rfl, -⟩ | ⟨rfl, -⟩ | ⟨rfl, -⟩ | ⟨rfl, rfl⟩ |
    ⟨rfl, rfl⟩ | ⟨rfl, -⟩ | ⟨rfl, -⟩
  case inr.inr.inr.inr.inr.inr.inl | inr.inr.inr.inr.inr.inr.inr.inl =>
    obtain ⟨xs, rfl⟩ := isList hx
    exact ⟨rfl, rfl⟩
  all_goals exact ⟨rfl, rfl⟩

/-- **What the schema lets stand for a field, the code takes.** -/
theorem expectedOk_of_valid {x : Json} {v : PyVal}
    (h : Valid queryDefinitions (.anyOf [.ref .queryValue, .ref .operatorExpression]) x)
    (hd : decode rt x = .ok v) : expectedOk v = true := by
  cases v with
  | dict d =>
    obtain ⟨kvs, rfl, -, hvs⟩ := decode_dict hd
    obtain ⟨schema, hm, hv⟩ := Schema.valid_anyOf.mp h
    rw [expectedOk]
    rcases List.mem_cons.mp hm with rfl | hm
    · have hno : d.any (fun kv => isDollar kv.1) = false := by
        refine List.any_eq_false.mpr fun kv hkv => ?_
        obtain ⟨⟨k, x⟩, hx, hk, -⟩ := forall₂_mem_right hvs hkv
        rw [hk]
        exact Bool.not_eq_true _ ▸ queryValue_keys hv k x hx
      rw [hno, if_neg Bool.false_ne_true]
    · obtain rfl := List.mem_singleton.mp hm
      have hv := Schema.valid_allOf_cons.mp (Schema.valid_allOf_cons.mp (Schema.valid_ref.mp hv)).2
      have hprops := Schema.valid_properties.mp (Schema.valid_allOf_cons.mp hv.2).1
      split
      · refine List.all_eq_true.mpr fun kv hkv => ?_
        obtain ⟨⟨k, x⟩, hx, hk, hdx⟩ := forall₂_mem_right hvs hkv
        obtain ⟨k', v⟩ := kv
        obtain rfl : k' = .str k := hk
        exact Bool.and_eq_true_iff.mpr (operatorOk_of_valid (hprops k x hx) hdx)
      · rfl
  | _ => rfl

/-! ## 3. The criteria -/

/-- What is decoded from an object with the reserved key is no dictionary. -/
theorem criteria_of_tagged {kvs : Dict Str Json} (hc : Dict.contains kvs TYPE_KEY = true) {v : PyVal}
    (hd : decode rt (.obj kvs) = .ok v) : criteriaOk v = false ∧ ∀ documents, Raises documents v := by
  have hraises {v : PyVal} (h : matchesCriteria (.dict []) v =
      .error (queryError [.text "query criteria must be an object"])) : ∀ documents, Raises documents v := by
    refine fun documents => ⟨queryError [.text "query criteria must be an object"], ?_, rfl⟩
    rw [filterDocuments, h]
    rfl
  rcases (decode_tagged_ok hc hd).2 with ⟨he, -⟩ | ⟨es, xs, w, -, -, -, rfl⟩
  · cases v with
    | datetime d => exact ⟨rfl, hraises rfl⟩
    | date d => exact ⟨rfl, hraises rfl⟩
    | decimal d => exact ⟨rfl, hraises rfl⟩
    | bytes b => exact ⟨rfl, hraises rfl⟩
    | _ => cases he
  · exact ⟨rfl, hraises rfl⟩

/-- **Criteria that the published schema describes** are well formed exactly if no field of them has
    the name of the reserved key, and so are never refused with `QueryError`, whatever is stored;
    the others always are. -/
theorem query_schema {j : Json} {criteria : PyVal} (h : Valid queryDefinitions (.ref .criteria) j)
    (hd : decode rt j = .ok criteria) :
    (criteriaOk criteria = true ↔ ∀ x, (TYPE_KEY, x) ∉ j.entries) ∧
    ∀ cp s collection (documents : List PyDict), allDocuments cp s collection = .ok (documents.map PyVal.dict) →
      ((∃ e, findDocuments cp s collection criteria = .error e ∧ e.type = .queryError) ↔
        ∃ x, (TYPE_KEY, x) ∈ j.entries) := by
  have h := Schema.valid_allOf_cons.mp (Schema.valid_ref.mp h)
  have hprops := Schema.valid_properties.mp (Schema.valid_allOf_cons.mp h.2).1
  cases j with
  | obj kvs =>
    cases hc : Dict.contains kvs TYPE_KEY with
    | true =>
      obtain ⟨x, hx⟩ := Option.isSome_iff_exists.mp hc
      obtain ⟨hok, hraises⟩ := criteria_of_tagged hc hd
      have hm : (TYPE_KEY, x) ∈ kvs := Dict.mem_of_get hx
      refine ⟨iff_of_false (by rw [hok]; exact Bool.false_ne_true) fun hno => hno x hm,
        fun cp s collection documents hall => ?_⟩
      exact iff_of_true ((findDocuments_raises hall criteria).mpr (hraises documents)) ⟨x, hm⟩
    | false =>
      have hno (x : Json) : (TYPE_KEY, x) ∉ kvs := fun hm =>
        contains_eq_false.mp hc (Dict.mem_keys_of_mem hm)
      obtain ⟨vs, hvs, rfl⟩ := (decode_obj_ok hc).mp hd
      have hok : criteriaOk (.dict vs) = true := by
        refine List.all_eq_true.mpr fun kv hkv => ?_
        obtain ⟨⟨k, x⟩, hx, hk, hdx⟩ := forall₂_mem_right hvs hkv
        obtain ⟨k', v⟩ := kv
        obtain rfl : k' = .str k := hk
        exact expectedOk_of_valid (hprops k x hx) hdx
      refine ⟨iff_of_true hok hno, fun cp s collection documents hall => ?_⟩
      rw [findDocuments_raises hall]
      refine iff_of_false (fun hr => ?_) fun hm => hm.elim hno
      obtain ⟨e, he, ht⟩ := hr
      exact criteriaOk_raises hok documents e he ht
  | _ => cases Schema.valid_assert.mp h.1

end

/-- `{"age": {"$gt": 20}}` -/
def ageQuery : Json := .obj [(lit "age", .obj [(lit "$gt", .int 20)])]

/-- Criteria on a field with the name of the reserved key, and on one called `value`. -/
def envelopeQuery : Json := envelope "bytes" (.str [])

/-- An operator's name two objects deep. -/
def nestedQuery : Json := .obj [(lit "home", .obj [(lit "at", .obj [(lit "$ref", .int 1)])])]

/-- The first two are described; the first are well formed, the second are read as bytes. The third
    are well formed, and not described. -/
theorem described_criteria : Valid queryDefinitions (.ref .criteria) ageQuery ∧
    Valid queryDefinitions (.ref .criteria) envelopeQuery ∧
    ¬ Valid queryDefinitions (.ref .criteria) nestedQuery ∧
    ∃ u v w, decode interpreter ageQuery = .ok u ∧ criteriaOk u = true ∧
      decode interpreter envelopeQuery = .ok v ∧ ¬ criteriaOk v = true ∧
      decode interpreter nestedQuery = .ok w ∧ criteriaOk w = true := by
  have hage : Valid queryDefinitions (.ref .criteria) ageQuery :=
    (Schema.check_sound (n := 16)).1 (by decide)
  have henvelope : Valid queryDefinitions (.ref .criteria) envelopeQuery :=
    (Schema.check_sound (n := 16)).1 (by decide)
  have hnested : Schema.Invalid queryDefinitions (.ref .criteria) nestedQuery :=
    (Schema.check_sound (n := 16)).2 (by decide)
  have hu : decode interpreter ageQuery = .ok (.dict [(.str (lit "age"),
    .dict [(.str (lit "$gt"), .int 20)])]) := rfl
  have hv : decode interpreter envelopeQuery = .ok (.bytes []) := rfl
  refine ⟨hage, henvelope, fun h => h.not_invalid hnested, _, _, _, hu, ?_, hv, ?_, rfl, rfl⟩
  · refine (query_schema hage hu).1.mpr fun x hm => ?_
    cases List.mem_singleton.mp hm
  · exact fun h => (query_schema henvelope hv).1.mp h _ (List.mem_cons_self ..)

end JsonDatabase
