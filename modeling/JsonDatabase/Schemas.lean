/-
  File:      JsonDatabase/Schemas.lean
  Subject:   The published schemas, and the files that the library writes.

  The schemas say which fields a file may have at its top and in its meta block; the code writes back
  whatever it found there. So a file is described by the schema if the one before it was.

  * `Schemas.definitions`, `Schemas.database` -- `document.schema.json`, `database.schema.json`;
  * `encode_valid`, `document_valid` -- what the encoder writes for a value, and for a document.
-/
import JsonDatabase.Basis.JsonSchema
import JsonDatabase.CollectionNames
import JsonDatabase.Healthy
import Mathlib.Computability.RegularExpressions

namespace JsonDatabase

open PyVal hiding none
open Schema (Valid Invalid)

/-! ## 1. The schema files -/

namespace Schemas

section Patterns

open RegularExpression (char)

/-- One of these characters. -/
def oneOfChars (s : String) : RegularExpression CodePoint := ((lit s).map char).sum

def digit : RegularExpression CodePoint := oneOfChars "0123456789"

/-- `^[+-]?(?:0|[1-9][0-9]*)(?:\.[0-9]+)?(?:[eE][+-]?[0-9]+)?$` -/
def decimalPattern : RegularExpression CodePoint :=
  (1 + oneOfChars "+-") * (oneOfChars "0" + oneOfChars "123456789" * digit.star) *
    (1 + oneOfChars "." * (digit * digit.star)) *
      (1 + oneOfChars "eE" * (1 + oneOfChars "+-") * (digit * digit.star))

/-- `^[a-f0-9]{64}$` -/
def sha256Pattern (s : Str) : Bool :=
  decide (s.length = 64) && s.all fun c => decide (0x61 ≤ c.val ∧ c.val ≤ 0x66) || isDigit c

end Patterns

/-- The names under `$defs`, and the document schema itself. -/
inductive Name where
  | document
  | jsondbValue
  | jsondbObject
  | taggedValue
  | taggedDateTime
  | taggedDate
  | taggedDecimal
  | taggedBytes
  | taggedSet

/-- `"type": t` -/
def type {ν : Type} (t : JsonType) : Schema ν := .assert (.type t)

/-- No key is the reserved one. -/
def noTypeKey : Schema Name := .propertyNames (.not (.assert (.constStr TYPE_KEY)))

/-- The two keys of an envelope with this tag, and no other. -/
def tagged (tag : String) (value : Schema Name) : Schema Name :=
  .allOf [type .object, .assert (.required [TYPE_KEY, VALUE_KEY]),
    .properties [(TYPE_KEY, .assert (.constStr (lit tag))), (VALUE_KEY, value)] .never]

/-- `$defs`; `format` and `contentEncoding` are notes to the reader. -/
def definitions : Name → Schema Name
  | .document => .allOf [type .object, .assert (.required [lit "id"]), noTypeKey,
      .properties [(lit "id", .allOf [type .string, .assert (.minLength 1)])] (.ref .jsondbValue)]
  | .jsondbValue => .oneOf [type .null, type .boolean, type .string, type .number,
      .allOf [type .array, .items (.ref .jsondbValue)], .ref .jsondbObject, .ref .taggedValue]
  | .jsondbObject => .allOf [type .object, noTypeKey, .properties [] (.ref .jsondbValue)]
  | .taggedValue => .oneOf [.ref .taggedDateTime, .ref .taggedDate, .ref .taggedDecimal,
      .ref .taggedBytes, .ref .taggedSet]
  | .taggedDateTime => tagged "datetime" (type .string)
  | .taggedDate => tagged "date" (type .string)
  | .taggedDecimal => tagged "decimal"
      (.allOf [type .string, .assert (.pattern decimalPattern.rmatch)])
  | .taggedBytes => tagged "bytes" (type .string)
  | .taggedSet => tagged "set" (.allOf [type .array, .items (.ref .jsondbValue)])

/-- The keys of the meta block. -/
def metaKeys : List Str :=
  [lit "format", lit "version", lit "created_at", lit "updated_at", lit "content_sha256"]

def metaBlock : Schema Name :=
  .allOf [type .object, .assert (.required metaKeys),
    .properties [(lit "format", .assert (.constStr (lit "json_database"))),
      (lit "version", .assert (.constInt 1)), (lit "created_at", .ref .taggedDateTime),
      (lit "updated_at", .ref .taggedDateTime),
      (lit "content_sha256", .allOf [type .string, .assert (.pattern sha256Pattern)])] .never]

/-- The collections, with names of this pattern. -/
def collections (names : Str → Bool) : Schema Name :=
  .allOf [type .object, .propertyNames (.assert (.pattern names)),
    .properties [] (.allOf [type .object,
      .propertyNames (.allOf [type .string, .assert (.minLength 1)]),
      .properties [] (.ref .document)])]

/-- A database file, with collection names of this pattern. -/
def database (names : Str → Bool) : Schema Name :=
  .allOf [type .object, .assert (.required [lit "meta", lit "collections"]),
    .properties [(lit "meta", metaBlock), (lit "collections", collections names)] .never]

/-! ## 2. Values -/

variable {e v : Json} {es : List (Str × Json)} {schema value : Schema Name} {tag : String}

theorem property_ne {k k' : Str} {additional : Schema Name} {props : List (Str × Schema Name)}
    (h : k' ≠ k) : Schema.property ((k', schema) :: props) additional k =
      Schema.property props additional k := by
  unfold Schema.property
  rw [Dict.get_cons, if_neg h]

/-- A value of a type that the schema does not ask for. -/
theorem invalid_type {t : JsonType} {rest : List (Schema Name)} (h : t.accepts e = false) :
    Invalid definitions (.allOf (type t :: rest)) e :=
  .allOf (List.mem_cons_self ..) (.assert h)

theorem noTypeKey_valid (h : ∀ k w, (k, w) ∈ es → k ≠ TYPE_KEY) : Valid definitions noTypeKey (.obj es) :=
  .propertyNames fun k w hm => .not (.assert (decide_eq_false (h k w hm)))

theorem noTypeKey_invalid (hm : (TYPE_KEY, v) ∈ es) : Invalid definitions noTypeKey (.obj es) :=
  .propertyNames hm (.not (.assert (decide_eq_true (rfl : TYPE_KEY = TYPE_KEY))))

theorem nonEmpty_valid {s : Str} (h : s ≠ []) :
    Valid definitions (.allOf [type .string, .assert (.minLength 1)]) (.str s) :=
  .both (.assert rfl) (.assert (decide_eq_true (List.length_pos_iff.mpr h)))

theorem tagged_valid (h : Valid definitions value v) :
    Valid definitions (tagged tag value) (envelope tag v) := by
  refine .also (.assert rfl) (.both (.assert rfl) (.properties fun k w hm => ?_))
  rcases List.mem_cons.mp hm with e | hm
  · cases e
    exact .assert (decide_eq_true (rfl : lit tag = lit tag))
  · cases List.mem_singleton.mp hm
    exact h

/-- An envelope with another tag. -/
theorem tagged_invalid {tag' : String} (h : lit tag' ≠ lit tag) :
    Invalid definitions (tagged tag value) (envelope tag' v) := by
  have hprops : Invalid definitions (.properties [(TYPE_KEY, .assert (.constStr (lit tag))),
      (VALUE_KEY, value)] .never) (envelope tag' v) :=
    .properties (List.mem_cons_self ..) (.assert (decide_eq_false h))
  exact .allOf (by simp) hprops

/-- No envelope without a tag. -/
theorem tagged_untagged (h : ∀ k w, (k, w) ∈ es → k ≠ TYPE_KEY) :
    Invalid definitions (tagged tag value) (.obj es) := by
  have hno : Dict.contains es TYPE_KEY = false := by
    rw [contains_eq_false]
    intro hm
    obtain ⟨kw, hkw, e⟩ := List.mem_map.mp hm
    exact h kw.1 kw.2 hkw e
  have hrequired : (Assertion.required [TYPE_KEY, VALUE_KEY]).holds (.obj es) = false := by
    show ([TYPE_KEY, VALUE_KEY].all fun k => Dict.contains es k) = false
    rw [List.all_cons, hno, Bool.false_and]
  exact .allOf (by simp) (.assert hrequired)

/-- The definitions of envelopes, and their tags. -/
def envelopes : List (Name × String) :=
  [(.taggedDateTime, "datetime"), (.taggedDate, "date"), (.taggedDecimal, "decimal"),
    (.taggedBytes, "bytes"), (.taggedSet, "set")]

theorem envelopes_tagged : ∀ x ∈ envelopes, ∃ value, definitions x.1 = tagged x.2 value := by
  intro x hx
  simp only [envelopes, List.mem_cons, List.not_mem_nil, or_false] at hx
  rcases hx with rfl | rfl | rfl | rfl | rfl <;> exact ⟨_, rfl⟩

theorem tags_nodup : (envelopes.map fun x => lit x.2).Nodup := by decide

theorem taggedValue_eq : definitions .taggedValue = .oneOf (envelopes.map fun x => .ref x.1) := rfl

theorem taggedValue_valid {n : Nat} {name : Name} (hn : envelopes[n]? = some (name, tag))
    (h : Valid definitions (definitions name) (envelope tag v)) :
    Valid definitions (definitions .taggedValue) (envelope tag v) := by
  have href {m : Nat} {x : Name × String} (hm : envelopes[m]? = some x) :
      (envelopes.map fun x => Schema.ref x.1)[m]? = some (.ref x.1) := by
    rw [List.getElem?_map, hm]
    rfl
  rw [taggedValue_eq]
  refine .oneOf n (href hn) (.ref h) fun m other hm hne => ?_
  rw [List.getElem?_map] at hm
  obtain ⟨x, hx, rfl⟩ := Option.map_eq_some_iff.mp hm
  obtain ⟨value, hdef⟩ := envelopes_tagged x (List.mem_of_getElem? hx)
  refine .ref (hdef ▸ tagged_invalid fun e => hne ?_)
  have htag {m : Nat} {x : Name × String} (hm : envelopes[m]? = some x) :
      (envelopes.map fun x => lit x.2)[m]? = some (lit x.2) := by
    rw [List.getElem?_map, hm]
    rfl
  have hlt := (List.getElem?_eq_some_iff.mp (htag hx)).1
  exact (List.getElem?_inj hlt tags_nodup).mp ((htag hx).trans ((congrArg some e.symm).trans (htag hn).symm))

theorem taggedValue_untagged (h : ∀ k w, (k, w) ∈ es → k ≠ TYPE_KEY) :
    Invalid definitions (definitions .taggedValue) (.obj es) := by
  rw [taggedValue_eq]
  refine .oneOfNone fun schema hs => ?_
  obtain ⟨x, hx, rfl⟩ := List.mem_map.mp hs
  obtain ⟨value, hdef⟩ := envelopes_tagged x hx
  exact .ref (hdef ▸ tagged_untagged h)

theorem taggedValue_other (h : JsonType.object.accepts e = false) :
    Invalid definitions (definitions .taggedValue) e := by
  rw [taggedValue_eq]
  refine .oneOfNone fun schema hs => ?_
  obtain ⟨x, hx, rfl⟩ := List.mem_map.mp hs
  obtain ⟨value, hdef⟩ := envelopes_tagged x hx
  exact .ref (hdef ▸ invalid_type h)

/-- **An envelope of one of the five kinds is a value.** -/
theorem envelope_valid {n : Nat} {name : Name} (hn : envelopes[n]? = some (name, tag))
    (h : Valid definitions (definitions name) (envelope tag v)) :
    Valid definitions (.ref .jsondbValue) (envelope tag v) := by
  refine .ref (.oneOf 6 rfl (.ref (taggedValue_valid hn h)) fun m other hm hne => ?_)
  match m with
  | 0 | 1 | 2 | 3 =>
    cases hm
    exact .assert rfl
  | 4 =>
    cases hm
    exact invalid_type rfl
  | 5 =>
    cases hm
    exact .ref (.allOf (by simp) (noTypeKey_invalid (List.mem_cons_self ..)))
  | 6 => exact absurd rfl hne
  | m + 7 => cases hm

/-- **So is an object without the reserved key**, -/
theorem object_valid (hno : ∀ k w, (k, w) ∈ es → k ≠ TYPE_KEY)
    (h : ∀ k w, (k, w) ∈ es → Valid definitions (.ref .jsondbValue) w) :
    Valid definitions (.ref .jsondbValue) (.obj es) := by
  refine .ref (.oneOf 5 rfl (.ref (.also (.assert rfl) (.both (noTypeKey_valid hno) (.properties h))))
    fun m other hm hne => ?_)
  match m with
  | 0 | 1 | 2 | 3 =>
    cases hm
    exact .assert rfl
  | 4 =>
    cases hm
    exact invalid_type rfl
  | 5 => exact absurd rfl hne
  | 6 =>
    cases hm
    exact .ref (taggedValue_untagged hno)
  | m + 7 => cases hm

theorem items_valid {xs : List Json} (h : ∀ x ∈ xs, Valid definitions (.ref .jsondbValue) x) :
    Valid definitions (.allOf [type .array, .items (.ref .jsondbValue)]) (.arr xs) :=
  .both (.assert rfl) (.items h)

/-- an array of values, -/
theorem array_valid {xs : List Json} (h : ∀ x ∈ xs, Valid definitions (.ref .jsondbValue) x) :
    Valid definitions (.ref .jsondbValue) (.arr xs) := by
  refine .ref (.oneOf 4 rfl (items_valid h) fun m other hm hne => ?_)
  match m with
  | 0 | 1 | 2 | 3 =>
    cases hm
    exact .assert rfl
  | 4 => exact absurd rfl hne
  | 5 =>
    cases hm
    exact .ref (invalid_type rfl)
  | 6 =>
    cases hm
    exact .ref (taggedValue_other rfl)
  | m + 7 => cases hm

def simpleTypes : List JsonType := [.null, .boolean, .string, .number]

/-- and a value of one of the four simple types. -/
theorem simple_valid {t : JsonType} (ht : t ∈ simpleTypes) (h : t.accepts e = true) :
    Valid definitions (.ref .jsondbValue) e := by
  have hother {t' : JsonType} (hne : t' ≠ t) : t'.accepts e = false :=
    Bool.eq_false_iff.mpr fun h' => hne (JsonType.accepts_unique h' h)
  have hobject : t ≠ .object ∧ t ≠ .array := by
    constructor <;> rintro rfl <;> exact absurd ht (by decide)
  obtain ⟨n, hn⟩ := List.getElem?_of_mem ht
  have hsimple {m : Nat} {t' : JsonType} (hm : simpleTypes[m]? = some t') (hne : m ≠ n) :
      Invalid definitions (type t') e := by
    refine .assert (hother ?_)
    rintro rfl
    have hlt := (List.getElem?_eq_some_iff.mp hm).1
    exact hne ((List.getElem?_inj hlt (by decide)).mp (hm.trans hn.symm))
  have hat : (simpleTypes.map (type (ν := Name)) ++ [.allOf [type .array, .items (.ref .jsondbValue)],
      .ref .jsondbObject, .ref .taggedValue])[n]? = some (type t) := by
    rw [List.getElem?_append_left, List.getElem?_map, hn]
    · rfl
    · rw [List.length_map]
      exact (List.getElem?_eq_some_iff.mp hn).1
  refine .ref (.oneOf n hat (.assert h) fun m other hm hne => ?_)
  match m with
  | 0 | 1 | 2 | 3 =>
    cases hm
    exact hsimple rfl hne
  | 4 =>
    cases hm
    exact invalid_type (hother hobject.2.symm)
  | 5 =>
    cases hm
    exact .ref (invalid_type (hother hobject.1.symm))
  | 6 =>
    cases hm
    exact .ref (taggedValue_other (hother hobject.1.symm))
  | m + 7 => cases hm

/-! ## 3. Patterns -/

section Matches

open RegularExpression (char)

theorem mem_sum_chars {cs : Str} {c : CodePoint} (h : c ∈ cs) : [c] ∈ ((cs.map char).sum).matches' := by
  induction cs with
  | nil => cases h
  | cons d cs ih =>
    rw [List.map_cons, List.sum_cons, RegularExpression.matches'_add]
    rcases List.mem_cons.mp h with rfl | h
    · exact Or.inl rfl
    · exact Or.inr (ih h)

theorem mem_lit_digits {c : CodePoint} (hlo : 0x31 ≤ c.val) (hhi : c.val ≤ 0x39) :
    c ∈ lit "123456789" := by
  have hall : ∀ n : Fin 9, code (0x31 + n.val) ∈ lit "123456789" := by decide
  have h := hall ⟨c.val - 0x31, by omega⟩
  simp only [Nat.add_sub_cancel' hlo] at h
  rwa [code_self] at h

theorem mem_digit {c : CodePoint} (h : isDigit c = true) : [c] ∈ digit.matches' := by
  obtain ⟨hlo, hhi⟩ := of_decide_eq_true h
  refine mem_sum_chars ?_
  by_cases e : c.val = 0x30
  · obtain rfl : c = 0x30 := Fin.ext e
    decide
  · exact List.mem_cons_of_mem (ch '0') (mem_lit_digits (by omega) hhi)

theorem mem_digits {s : Str} (h : ∀ c ∈ s, isDigit c = true) : s ∈ digit.star.matches' := by
  rw [RegularExpression.matches'_star]
  refine Language.mem_kstar.mpr ⟨s.map fun c => [c], ?_, fun y hy => ?_⟩
  · rw [← List.flatMap_def]
    exact (List.flatMap_singleton' s).symm
  · obtain ⟨c, hc, rfl⟩ := List.mem_map.mp hy
    exact mem_digit (h c hc)

/-- At least one digit. -/
theorem mem_someDigits {s : Str} (hne : s ≠ []) (h : ∀ c ∈ s, isDigit c = true) :
    s ∈ (digit * digit.star).matches' := by
  obtain ⟨c, ds, rfl⟩ := List.exists_cons_of_ne_nil hne
  obtain ⟨hc, hds⟩ := List.forall_mem_cons.mp h
  exact Language.mem_mul.mpr ⟨[c], mem_digit hc, ds, mem_digits hds, rfl⟩

theorem mem_optional {r : RegularExpression CodePoint} {s : Str} (h : s = [] ∨ s ∈ r.matches') :
    s ∈ (1 + r).matches' := h

/-- **The text of every finite decimal has the form that the schema asks for.** -/
theorem decimalPattern_str (x : FiniteDecimal) : decimalPattern.rmatch x.str = true := by
  rw [RegularExpression.rmatch_iff_matches']
  obtain ⟨hint, hfrac, hexp⟩ := x.wellFormed_token
  have hsign : x.token.sign ∈ (1 + oneOfChars "+-").matches' := by
    unfold NumToken.sign
    split
    · exact mem_optional (Or.inr (mem_sum_chars (by decide)))
    · exact mem_optional (Or.inl rfl)
  have hdigits : x.token.int ∈ (oneOfChars "0" + oneOfChars "123456789" * digit.star).matches' := by
    rcases hint with h | ⟨c, ds, h, hlo, hhi, hds⟩
    · rw [h]
      exact Or.inl (mem_sum_chars (by decide))
    · rw [h]
      exact Or.inr (Language.mem_mul.mpr ⟨[c], mem_sum_chars (mem_lit_digits hlo hhi), ds,
        mem_digits hds, rfl⟩)
  have hpoint : x.token.fracText ∈ (1 + oneOfChars "." * (digit * digit.star)).matches' := by
    unfold NumToken.fracText
    split
    · exact mem_optional (Or.inl rfl)
    · rename_i hne
      exact mem_optional (Or.inr (Language.mem_mul.mpr ⟨[ch '.'], mem_sum_chars (by decide), _,
        mem_someDigits hne hfrac, rfl⟩))
  have hexponent : x.token.exp ∈
      (1 + oneOfChars "eE" * (1 + oneOfChars "+-") * (digit * digit.star)).matches' := by
    rcases hexp with h | ⟨m, sg, ds, h, hm, hsg, hne, hds⟩
    · rw [h]
      exact mem_optional (Or.inl rfl)
    · rw [h]
      refine mem_optional (Or.inr (Language.mem_mul.mpr ⟨m :: sg, Language.mem_mul.mpr ⟨[m], ?_, sg, ?_, rfl⟩,
        ds, mem_someDigits hne hds, rfl⟩))
      · rcases hm with rfl | rfl <;> exact mem_sum_chars (by decide)
      · rcases hsg with rfl | rfl | rfl
        · exact mem_optional (Or.inl rfl)
        · exact mem_optional (Or.inr (mem_sum_chars (by decide)))
        · exact mem_optional (Or.inr (mem_sum_chars (by decide)))
  exact Language.mem_mul.mpr ⟨_, Language.mem_mul.mpr ⟨_, Language.mem_mul.mpr ⟨_, hsign, _, hdigits, rfl⟩,
    _, hpoint, rfl⟩, _, hexponent, rfl⟩

end Matches

end Schemas

/-! ## 4. What the encoder writes -/

open Schemas (definitions)

section Encoded

variable {rt : Runtime}

theorem key_of_encoded {kvs : PyDict} {es : List (Str × Json)} (hes : List.Forall₂ (EntryEncodes rt) kvs es)
    (hno : Dict.contains kvs (.str TYPE_KEY) = false) : ∀ k w, (k, w) ∈ es → k ≠ TYPE_KEY := by
  rintro k w hm rfl
  rw [contains_encoded hes, contains_eq_false] at hno
  exact hno (Dict.mem_keys_of_mem hm)

/-- **What the encoder writes is described by the schema of values**, if nothing reserved is inside. -/
theorem encode_valid {v : PyVal} (hu : unreserved v) {e : Json} (he : encode rt v = .ok e) :
    Valid definitions (.ref .jsondbValue) e := by
  have items {xs : List PyVal} {es : List Json} (ih : ∀ x ∈ xs, unreserved x → ∀ {e : Json},
      encode rt x = .ok e → Valid definitions (.ref .jsondbValue) e) (hu : ∀ x ∈ xs, unreserved x)
      (h : List.Forall₂ (fun x y => encode rt x = .ok y) xs es) :
      ∀ y ∈ es, Valid definitions (.ref .jsondbValue) y := by
    intro y hy
    obtain ⟨x, hx, hxy⟩ := forall₂_mem_right h hy
    exact ih x hx (hu x hx) hxy
  induction v using PyVal.induct generalizing e with
  | none =>
    cases he
    exact Schemas.simple_valid (t := .null) (by decide) rfl
  | bool b =>
    cases he
    exact Schemas.simple_valid (t := .boolean) (by decide) rfl
  | int i =>
    cases he
    exact Schemas.simple_valid (t := .number) (by decide) rfl
  | float f =>
    rw [encode] at he
    split at he
    · rename_i hf
      cases he
      exact Schemas.simple_valid (t := .number) (by decide) hf
    · cases he
  | str s =>
    cases he
    exact Schemas.simple_valid (t := .string) (by decide) rfl
  | datetime d =>
    cases he
    exact Schemas.envelope_valid (n := 0) rfl (Schemas.tagged_valid (.assert rfl))
  | date d =>
    cases he
    exact Schemas.envelope_valid (n := 1) rfl (Schemas.tagged_valid (.assert rfl))
  | decimal x =>
    cases x with
    | finite x =>
      cases he
      refine Schemas.envelope_valid (n := 2) rfl (Schemas.tagged_valid (.both (.assert rfl) (.assert ?_)))
      exact Schemas.decimalPattern_str x
    | _ => cases he
  | bytes b =>
    cases he
    exact Schemas.envelope_valid (n := 3) rfl (Schemas.tagged_valid (.assert rfl))
  | set xs ih =>
    obtain ⟨es, hes, keyed, hk, rfl⟩ := encode_set_ok.mp he
    refine Schemas.envelope_valid (n := 4) rfl (Schemas.tagged_valid (Schemas.items_valid fun y hy => ?_))
    exact items ih (everywhere_set.mp hu).2 hes y ((sorted_perm hk).mem_iff.mpr hy)
  | frozenset xs ih => cases he
  | list xs ih =>
    obtain ⟨es, hes, rfl⟩ := encode_list_ok.mp he
    exact Schemas.array_valid (items ih (everywhere_list.mp hu).2 hes)
  | tuple xs ih =>
    obtain ⟨es, hes, rfl⟩ := encode_tuple_ok.mp he
    exact Schemas.array_valid (items ih (everywhere_tuple.mp hu).2 hes)
  | dict kvs ih =>
    obtain ⟨hno, hu⟩ := everywhere_dict.mp hu
    obtain ⟨es, hes, rfl⟩ := encode_dict_ok.mp he
    refine Schemas.object_valid (key_of_encoded hes hno) fun k w hm => ?_
    obtain ⟨kv, hkv, -, hx⟩ := forall₂_mem_right hes hm
    exact ih kv.1 kv.2 hkv (hu kv.1 kv.2 hkv) hx
  | other t i => cases he

/-- **A document is described by the schema of documents.** -/
theorem document_valid {id : PyKey} {fields : PyVal} (hd : GoodDoc rt id fields) {e : Json}
    (he : encode rt fields = .ok e) : Valid definitions (.ref .document) e := by
  obtain ⟨x, kvs, e', hx, hid⟩ := hd.shape
  cases e'
  obtain ⟨hno, hu⟩ := everywhere_dict.mp hd.unreserved
  obtain ⟨es, hes, rfl⟩ := encode_dict_ok.mp he
  have hentry {k : Str} {w : Json} (hm : (k, w) ∈ es) :
      ∃ v, (PyKey.str k, v) ∈ kvs ∧ encode rt v = .ok w := by
    obtain ⟨⟨k', v⟩, hkv, hk, hx⟩ := forall₂_mem_right hes hm
    obtain rfl : k' = .str k := hk
    exact ⟨v, hkv, hx⟩
  have hrequired : (Assertion.required [lit "id"]).holds (.obj es) = true := by
    show ([lit "id"].all fun k => Dict.contains es k) = true
    have hin : Dict.contains kvs ID = true := by
      rw [Dict.contains, hid]
      rfl
    rw [List.all_cons, ← contains_encoded hes]
    exact (Bool.and_true _).trans hin
  refine .ref (.also (.assert rfl) (.also (.assert hrequired)
    (.both (Schemas.noTypeKey_valid (key_of_encoded hes hno)) (.properties fun k w hm => ?_))))
  obtain ⟨v, hv, hvw⟩ := hentry hm
  by_cases hk : k = lit "id"
  · subst hk
    cases (Dict.get_of_mem (everywhere_dict.mp hd.wf).1 hv).symm.trans hid
    cases hvw
    exact Schemas.nonEmpty_valid hx
  · rw [Schemas.property_ne (Ne.symm hk)]
    exact encode_valid (hu _ v hv) hvw

end Encoded

end JsonDatabase
