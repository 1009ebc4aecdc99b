/-
  File:      JsonDatabase/Basis/JsonSchema.lean
  Subject:   JSON Schema: which values a schema describes.

  A schema is a set of keywords, each of which says something about values of one kind and nothing
  about the others. `not` and `oneOf` need to know what a schema does not describe; so there are two
  relations side by side, and a reference to a definition leads into either.

  * `Schema`, `Assertion` -- the keywords; the assertions are those without schemas inside;
  * `Valid`, `Invalid` -- what a schema describes, and what it does not;
  * `Valid.not_invalid` -- never both;
  * `Valid.sortKeys` -- the order of keys does not matter;
  * `check`, `check_sound` -- a validator, with a bound on the references it follows.
-/
import JsonDatabase.Basis.JsonDumps

namespace JsonDatabase

/-! ## 1. Schemas -/

namespace Json

/-- The entries of an object; other values have none. -/
def entries : Json → List (Str × Json)
  | .obj kvs => kvs
  | _ => []

/-- The elements of an array; other values have none. -/
def elements : Json → List Json
  | .arr xs => xs
  | _ => []

theorem mem_entries_sorted {j v : Json} {k : Str} : (k, v) ∈ (sortKeys j).entries ↔
    ∃ w, (k, w) ∈ j.entries ∧ v = sortKeys w := by
  cases j with
  | obj kvs =>
    rw [sortKeys_obj]
    refine (List.mem_insertionSort _).trans (List.mem_map.trans ⟨?_, ?_⟩)
    · rintro ⟨⟨k', w⟩, hm, e⟩
      cases e
      exact ⟨w, hm, rfl⟩
    · rintro ⟨w, hm, rfl⟩
      exact ⟨(k, w), hm, rfl⟩
  | _ => exact ⟨nofun, fun ⟨_, hm, _⟩ => nomatch hm⟩

theorem mem_elements_sorted {j x : Json} : x ∈ (sortKeys j).elements ↔
    ∃ y ∈ j.elements, x = sortKeys y := by
  cases j with
  | arr xs =>
    rw [sortKeys_arr]
    exact List.mem_map.trans (exists_congr fun y => and_congr_right' eq_comm)
  | _ => exact ⟨nofun, fun ⟨_, hm, _⟩ => nomatch hm⟩

end Json

inductive JsonType where
  | null
  | boolean
  | number
  | string
  | array
  | object
  deriving DecidableEq

def JsonType.accepts : JsonType → Json → Bool
  | .null, .null => true
  | .boolean, .bool _ => true
  | .number, .int _ => true
  | .number, .float f => f.isFinite
  | .string, .str _ => true
  | .array, .arr _ => true
  | .object, .obj _ => true
  | _, _ => false

theorem JsonType.accepts_unique {t t' : JsonType} {j : Json} (h : t.accepts j = true)
    (h' : t'.accepts j = true) : t = t' := by
  cases j <;> cases t <;> first | cases h | skip
  all_goals cases t' <;> first | rfl | cases h'

/-- `± mant * 2 ^ exp` is this integer. -/
def FiniteFloat.isInt (x : FiniteFloat) (i : Int) : Bool :=
  decide ((x.neg = decide (i < 0) ∨ i = 0) ∧
    x.mant * 2 ^ x.exp.toNat = i.natAbs * 2 ^ (-x.exp).toNat)

/-- A keyword without a schema in it. -/
inductive Assertion where
  | type (t : JsonType)
  | constStr (s : Str)
  | constInt (i : Int)
  | minLength (n : Nat)
  | minProperties (n : Nat)
  /-- the regular expression that `search` looks for -/
  | pattern (search : Str → Bool)
  | required (names : List Str)

namespace Assertion

def holds : Assertion → Json → Bool
  | .type t, j => t.accepts j
  | .constStr s, j => match j with
    | .str s' => decide (s' = s)
    | _ => false
  | .constInt i, j => match j with
    | .int i' => decide (i' = i)
    | .float (.finite x) => x.isInt i
    | _ => false
  | .minLength n, j => match j with
    | .str s => decide (n ≤ s.length)
    | _ => true
  | .minProperties n, j => match j with
    | .obj kvs => decide (n ≤ kvs.length)
    | _ => true
  | .pattern search, j => match j with
    | .str s => search s
    | _ => true
  | .required names, j => match j with
    | .obj kvs => names.all fun k => Dict.contains kvs k
    | _ => true

theorem holds_sortKeys (a : Assertion) (j : Json) : a.holds (Json.sortKeys j) = a.holds j := by
  cases j with
  | obj kvs =>
    rw [Json.sortKeys_obj]
    cases a with
    | type t => cases t <;> rfl
    | minProperties n =>
      simp only [holds, List.length_insertionSort, List.length_map]
    | required names =>
      simp only [holds]
      refine congrArg (names.all ·) (funext fun k => ?_)
      rw [Bool.eq_iff_iff, Dict.contains, Dict.contains, Dict.get_isSome_iff, Dict.get_isSome_iff]
      have hperm := (List.perm_insertionSort Json.KeyLe (kvs.map fun kv => (kv.1, Json.sortKeys kv.2))).map
        Prod.fst
      refine hperm.mem_iff.trans (iff_of_eq (congrArg (k ∈ ·) ?_))
      exact Dict.keys_map Json.sortKeys kvs
    | _ => rfl
  | arr xs =>
    rw [Json.sortKeys_arr]
    cases a with
    | type t => cases t <;> rfl
    | _ => rfl
  | _ => rfl

end Assertion

/-- A keyword, or several together; `ref` refers to a definition by its name. -/
inductive Schema (ν : Type) where
  | assert (a : Assertion)
  | never
  | ref (name : ν)
  /-- `properties`, and `additionalProperties` for all other keys -/
  | properties (props : List (Str × Schema ν)) (additional : Schema ν)
  | propertyNames (schema : Schema ν)
  | items (schema : Schema ν)
  | not (schema : Schema ν)
  | allOf (schemas : List (Schema ν))
  | anyOf (schemas : List (Schema ν))
  | oneOf (schemas : List (Schema ν))

namespace Schema

variable {ν : Type}

/-- The schema for the value under a key. -/
def property (props : List (Str × Schema ν)) (additional : Schema ν) (k : Str) : Schema ν :=
  (Dict.get props k).getD additional

/-! ## 2. What a schema describes -/

mutual
/-- The schema describes the value. -/
inductive Valid (defs : ν → Schema ν) : Schema ν → Json → Prop
  | assert {a : Assertion} {j : Json} : a.holds j = true → Valid defs (.assert a) j
  | ref {name : ν} {j : Json} : Valid defs (defs name) j → Valid defs (.ref name) j
  | properties {props : List (Str × Schema ν)} {additional : Schema ν} {j : Json} :
      (∀ k v, (k, v) ∈ j.entries → Valid defs (property props additional k) v) →
      Valid defs (.properties props additional) j
  | propertyNames {schema : Schema ν} {j : Json} :
      (∀ k v, (k, v) ∈ j.entries → Valid defs schema (.str k)) →
      Valid defs (.propertyNames schema) j
  | items {schema : Schema ν} {j : Json} :
      (∀ x ∈ j.elements, Valid defs schema x) → Valid defs (.items schema) j
  | not {schema : Schema ν} {j : Json} : Invalid defs schema j → Valid defs (.not schema) j
  | allOf {schemas : List (Schema ν)} {j : Json} :
      (∀ schema ∈ schemas, Valid defs schema j) → Valid defs (.allOf schemas) j
  | anyOf {schemas : List (Schema ν)} {schema : Schema ν} {j : Json} : schema ∈ schemas →
      Valid defs schema j → Valid defs (.anyOf schemas) j
  | oneOf {schemas : List (Schema ν)} {schema : Schema ν} {j : Json} (n : Nat) :
      schemas[n]? = some schema → Valid defs schema j →
      (∀ m other, schemas[m]? = some other → m ≠ n → Invalid defs other j) →
      Valid defs (.oneOf schemas) j

/-- The schema does not describe the value. -/
inductive Invalid (defs : ν → Schema ν) : Schema ν → Json → Prop
  | assert {a : Assertion} {j : Json} : a.holds j = false → Invalid defs (.assert a) j
  | never {j : Json} : Invalid defs .never j
  | ref {name : ν} {j : Json} : Invalid defs (defs name) j → Invalid defs (.ref name) j
  | properties {props : List (Str × Schema ν)} {additional : Schema ν} {j : Json} {k : Str} {v : Json} :
      (k, v) ∈ j.entries → Invalid defs (property props additional k) v →
      Invalid defs (.properties props additional) j
  | propertyNames {schema : Schema ν} {j : Json} {k : Str} {v : Json} : (k, v) ∈ j.entries →
      Invalid defs schema (.str k) → Invalid defs (.propertyNames schema) j
  | items {schema : Schema ν} {j x : Json} : x ∈ j.elements → Invalid defs schema x →
      Invalid defs (.items schema) j
  | not {schema : Schema ν} {j : Json} : Valid defs schema j → Invalid defs (.not schema) j
  | allOf {schemas : List (Schema ν)} {schema : Schema ν} {j : Json} : schema ∈ schemas →
      Invalid defs schema j → Invalid defs (.allOf schemas) j
  | anyOf {schemas : List (Schema ν)} {j : Json} :
      (∀ schema ∈ schemas, Invalid defs schema j) → Invalid defs (.anyOf schemas) j
  | oneOfNone {schemas : List (Schema ν)} {j : Json} :
      (∀ schema ∈ schemas, Invalid defs schema j) → Invalid defs (.oneOf schemas) j
  | oneOfTwo {schemas : List (Schema ν)} {schema other : Schema ν} {j : Json} {n m : Nat} : n ≠ m →
      schemas[n]? = some schema → schemas[m]? = some other → Valid defs schema j →
      Valid defs other j → Invalid defs (.oneOf schemas) j
end

variable {defs : ν → Schema ν} {schema : Schema ν} {schemas : List (Schema ν)} {j : Json}

/-- **No value is described and not described.** -/
theorem Valid.not_invalid (h : Valid defs schema j) : ¬ Invalid defs schema j := by
  refine @Valid.rec ν defs (fun schema j _ => ¬ Invalid defs schema j)
    (fun schema j _ => ¬ Valid defs schema j) ?assert ?ref ?properties ?propertyNames ?items ?not ?allOf
    ?anyOf ?oneOf ?assert' ?never' ?ref' ?properties' ?propertyNames' ?items' ?not' ?allOf' ?anyOf'
    ?oneOfNone' ?oneOfTwo' schema j h
  case assert =>
    intro a j h h'
    cases h' with
    | assert h' => cases h.symm.trans h'
  case ref =>
    intro name j _ ih h'
    cases h' with
    | ref h' => exact ih h'
  case properties =>
    intro props additional j _ ih h'
    cases h' with
    | properties hm h' => exact ih _ _ hm h'
  case propertyNames =>
    intro schema j _ ih h'
    cases h' with
    | propertyNames hm h' => exact ih _ _ hm h'
  case items =>
    intro schema j _ ih h'
    cases h' with
    | items hm h' => exact ih _ hm h'
  case not =>
    intro schema j _ ih h'
    cases h' with
    | not h' => exact ih h'
  case allOf =>
    intro schemas j _ ih h'
    cases h' with
    | allOf hm h' => exact ih _ hm h'
  case anyOf =>
    intro schemas schema j hm _ ih h'
    cases h' with
    | anyOf h' => exact ih (h' _ hm)
  case oneOf =>
    intro schemas schema j n hn _ _ ih ihother h'
    cases h' with
    | oneOfNone h' => exact ih (h' _ (List.mem_of_getElem? hn))
    | @oneOfTwo _ _ _ _ a b hne ha hb h₁ h₂ =>
      by_cases e : a = n
      · exact ihother b _ hb (fun e' => hne (e.trans e'.symm)) h₂
      · exact ihother a _ ha e h₁
  case assert' =>
    intro a j h' h
    cases h with
    | assert h => cases h.symm.trans h'
  case never' =>
    intro j h
    cases h
  case ref' =>
    intro name j _ ih h
    cases h with
    | ref h => exact ih h
  case properties' =>
    intro props additional j k v hm _ ih h
    cases h with
    | properties h => exact ih (h _ _ hm)
  case propertyNames' =>
    intro schema j k v hm _ ih h
    cases h with
    | propertyNames h => exact ih (h _ _ hm)
  case items' =>
    intro schema j x hm _ ih h
    cases h with
    | items h => exact ih (h _ hm)
  case not' =>
    intro schema j _ ih h
    cases h with
    | not h => exact ih h
  case allOf' =>
    intro schemas schema j hm _ ih h
    cases h with
    | allOf h => exact ih (h _ hm)
  case anyOf' =>
    intro schemas j _ ih h
    cases h with
    | anyOf hm h => exact ih _ hm h
  case oneOfNone' =>
    intro schemas j _ ih h
    cases h with
    | oneOf n hn h _ => exact ih _ (List.mem_of_getElem? hn) h
  case oneOfTwo' =>
    intro schemas schema other j a b hne ha hb _ _ ih₁ ih₂ h
    cases h with
    | oneOf n hn h hother =>
      by_cases e : a = n
      · exact ih₂ (hother b _ hb fun e' => hne (e.trans e'.symm))
      · exact ih₁ (hother a _ ha e)

@[simp] theorem valid_assert {a : Assertion} : Valid defs (.assert a) j ↔ a.holds j = true := by
  refine ⟨fun h => ?_, .assert⟩
  cases h with
  | assert h => exact h

@[simp] theorem not_valid_never : ¬ Valid defs .never j := nofun

@[simp] theorem valid_ref {name : ν} : Valid defs (.ref name) j ↔ Valid defs (defs name) j := by
  refine ⟨fun h => ?_, .ref⟩
  cases h with
  | ref h => exact h

@[simp] theorem valid_properties {props : List (Str × Schema ν)} {additional : Schema ν} :
    Valid defs (.properties props additional) j ↔
      ∀ k v, (k, v) ∈ j.entries → Valid defs (property props additional k) v := by
  refine ⟨fun h => ?_, .properties⟩
  cases h with
  | properties h => exact h

@[simp] theorem valid_propertyNames : Valid defs (.propertyNames schema) j ↔
    ∀ k v, (k, v) ∈ j.entries → Valid defs schema (.str k) := by
  refine ⟨fun h => ?_, .propertyNames⟩
  cases h with
  | propertyNames h => exact h

@[simp] theorem valid_items : Valid defs (.items schema) j ↔ ∀ x ∈ j.elements, Valid defs schema x := by
  refine ⟨fun h => ?_, .items⟩
  cases h with
  | items h => exact h

@[simp] theorem valid_not : Valid defs (.not schema) j ↔ Invalid defs schema j := by
  refine ⟨fun h => ?_, .not⟩
  cases h with
  | not h => exact h

theorem valid_allOf : Valid defs (.allOf schemas) j ↔ ∀ schema ∈ schemas, Valid defs schema j := by
  refine ⟨fun h => ?_, .allOf⟩
  cases h with
  | allOf h => exact h

@[simp] theorem valid_allOf_nil : Valid defs (.allOf []) j := .allOf nofun

@[simp] theorem valid_allOf_cons :
    Valid defs (.allOf (schema :: schemas)) j ↔ Valid defs schema j ∧ Valid defs (.allOf schemas) j := by
  rw [valid_allOf, valid_allOf, List.forall_mem_cons]

theorem Valid.also (h : Valid defs schema j) (hs : Valid defs (.allOf schemas) j) :
    Valid defs (.allOf (schema :: schemas)) j :=
  valid_allOf_cons.mpr ⟨h, hs⟩

theorem Valid.both {other : Schema ν} (h : Valid defs schema j) (ho : Valid defs other j) :
    Valid defs (.allOf [schema, other]) j :=
  h.also (ho.also valid_allOf_nil)

theorem valid_anyOf : Valid defs (.anyOf schemas) j ↔ ∃ schema ∈ schemas, Valid defs schema j := by
  refine ⟨fun h => ?_, fun ⟨_, hm, h⟩ => .anyOf hm h⟩
  cases h with
  | anyOf hm h => exact ⟨_, hm, h⟩

theorem Valid.of_oneOf (h : Valid defs (.oneOf schemas) j) :
    ∃ (n : Nat) (schema : Schema ν), schemas[n]? = some schema ∧ Valid defs schema j := by
  cases h with
  | oneOf n hn h _ => exact ⟨n, _, hn, h⟩

/-- Without additional keys every key has its schema. -/
theorem Valid.closed {props : List (Str × Schema ν)} {k : Str}
    (h : Valid defs (property props .never k) j) : ∃ schema, (k, schema) ∈ props ∧ Valid defs schema j := by
  unfold property at h
  cases hg : Dict.get props k with
  | none =>
    rw [hg] at h
    exact absurd h not_valid_never
  | some schema =>
    rw [hg] at h
    exact ⟨schema, Dict.mem_of_get hg, h⟩

/-- **The order of keys does not matter.** -/
theorem Valid.sortKeys (h : Valid defs schema j) : Valid defs schema (Json.sortKeys j) := by
  refine @Valid.rec ν defs (fun schema j _ => Valid defs schema (Json.sortKeys j))
    (fun schema j _ => Invalid defs schema (Json.sortKeys j)) ?assert ?ref ?properties ?propertyNames ?items
    ?not ?allOf ?anyOf ?oneOf ?assert' ?never' ?ref' ?properties' ?propertyNames' ?items' ?not' ?allOf'
    ?anyOf' ?oneOfNone' ?oneOfTwo' schema j h
  case assert => exact fun h => .assert ((Assertion.holds_sortKeys _ _).trans h)
  case ref => exact fun _ ih => .ref ih
  case properties =>
    intro props additional j _ ih
    refine .properties fun k v hm => ?_
    obtain ⟨w, hw, rfl⟩ := Json.mem_entries_sorted.mp hm
    exact ih k w hw
  case propertyNames =>
    intro schema j _ ih
    refine .propertyNames fun k v hm => ?_
    obtain ⟨w, hw, rfl⟩ := Json.mem_entries_sorted.mp hm
    exact ih k w hw
  case items =>
    intro schema j _ ih
    refine .items fun x hm => ?_
    obtain ⟨y, hy, rfl⟩ := Json.mem_elements_sorted.mp hm
    exact ih y hy
  case not => exact fun _ ih => .not ih
  case allOf => exact fun _ ih => .allOf ih
  case anyOf => exact fun hm _ ih => .anyOf hm ih
  case oneOf => exact fun n hn _ _ ih ihother => .oneOf n hn ih ihother
  case assert' => exact fun h => .assert ((Assertion.holds_sortKeys _ _).trans h)
  case never' => exact .never
  case ref' => exact fun _ ih => .ref ih
  case properties' => exact fun hm _ ih => .properties (Json.mem_entries_sorted.mpr ⟨_, hm, rfl⟩) ih
  case propertyNames' => exact fun hm _ ih => .propertyNames (Json.mem_entries_sorted.mpr ⟨_, hm, rfl⟩) ih
  case items' => exact fun hm _ ih => .items (Json.mem_elements_sorted.mpr ⟨_, hm, rfl⟩) ih
  case not' => exact fun _ ih => .not ih
  case allOf' => exact fun hm _ ih => .allOf hm ih
  case anyOf' => exact fun _ ih => .anyOf ih
  case oneOfNone' => exact fun _ ih => .oneOfNone ih
  case oneOfTwo' => exact fun hne ha hb _ _ ih₁ ih₂ => .oneOfTwo hne ha hb ih₁ ih₂

/-! ## 3. A validator -/

/-- All answers are yes; one no decides. -/
def every (rs : List (Option Bool)) : Option Bool :=
  if some false ∈ rs then some false else if none ∈ rs then none else some true

/-- One answer is yes, and all others are no. -/
def single : List (Option Bool) → Option Bool
  | [] => some false
  | some true :: rs => every (rs.map (·.map Bool.not))
  | some false :: rs => single rs
  | none :: _ => none

/-- Whether the schema describes the value, if no more than so many keywords are inside each other. -/
def check (defs : ν → Schema ν) : Nat → Schema ν → Json → Option Bool
  | 0, _, _ => none
  | _ + 1, .assert a, j => some (a.holds j)
  | _ + 1, .never, _ => some false
  | n + 1, .ref name, j => check defs n (defs name) j
  | n + 1, .properties props additional, j =>
    every (j.entries.map fun kv => check defs n (property props additional kv.1) kv.2)
  | n + 1, .propertyNames schema, j => every (j.entries.map fun kv => check defs n schema (.str kv.1))
  | n + 1, .items schema, j => every (j.elements.map fun x => check defs n schema x)
  | n + 1, .not schema, j => (check defs n schema j).map Bool.not
  | n + 1, .allOf schemas, j => every (schemas.map fun schema => check defs n schema j)
  | n + 1, .anyOf schemas, j => (every (schemas.map fun schema => (check defs n schema j).map Bool.not)).map Bool.not
  | n + 1, .oneOf schemas, j => single (schemas.map fun schema => check defs n schema j)

theorem every_true {rs : List (Option Bool)} (h : every rs = some true) : ∀ r ∈ rs, r = some true := by
  unfold every at h
  split at h
  · cases h
  · rename_i hfalse
    split at h
    · cases h
    · rename_i hnone
      intro r hr
      cases r with
      | none => exact absurd hr hnone
      | some b =>
        cases b with
        | false => exact absurd hr hfalse
        | true => rfl

theorem every_false {rs : List (Option Bool)} (h : every rs = some false) : some false ∈ rs := by
  unfold every at h
  split at h
  · assumption
  · split at h <;> cases h

theorem map_not_eq {r : Option Bool} {b : Bool} (h : r.map Bool.not = some b) : r = some (!b) := by
  cases r with
  | none => cases h
  | some c =>
    cases h
    rw [Bool.not_not]

theorem single_true {rs : List (Option Bool)} (h : single rs = some true) : ∃ n : Nat,
    rs[n]? = some (some true) ∧ ∀ m r, rs[m]? = some r → m ≠ n → r = some false := by
  induction rs with
  | nil => cases h
  | cons r rs ih =>
    cases r with
    | none => cases h
    | some b =>
      cases b with
      | true =>
        refine ⟨0, rfl, fun m r hm hne => ?_⟩
        obtain ⟨m, rfl⟩ := Nat.exists_eq_succ_of_ne_zero hne
        exact map_not_eq (every_true h _ (List.mem_map_of_mem (List.mem_of_getElem? hm)))
      | false =>
        obtain ⟨n, hn, hother⟩ := ih h
        refine ⟨n + 1, hn, fun m r hm hne => ?_⟩
        cases m with
        | zero => exact (Option.some.inj hm).symm
        | succ m => exact hother m r hm fun e => hne (congrArg Nat.succ e)

theorem single_false {rs : List (Option Bool)} (h : single rs = some false) :
    (∀ r ∈ rs, r = some false) ∨
      ∃ n m : Nat, n ≠ m ∧ rs[n]? = some (some true) ∧ rs[m]? = some (some true) := by
  induction rs with
  | nil => exact Or.inl nofun
  | cons r rs ih =>
    cases r with
    | none => cases h
    | some b =>
      cases b with
      | true =>
        obtain ⟨r, hr, e⟩ := List.mem_map.mp (every_false h)
        obtain ⟨m, hm⟩ := List.getElem?_of_mem hr
        rw [map_not_eq e] at hm
        exact Or.inr ⟨0, m + 1, Nat.zero_ne_add_one m, rfl, hm⟩
      | false =>
        rcases ih h with hall | ⟨n, m, hne, hn, hm⟩
        · exact Or.inl (List.forall_mem_cons.mpr ⟨rfl, hall⟩)
        · exact Or.inr ⟨n + 1, m + 1, fun e => hne (Nat.succ.inj e), hn, hm⟩

/-- **The validator is right** whenever it answers. -/
theorem check_sound {n : Nat} : (check defs n schema j = some true → Valid defs schema j) ∧
    (check defs n schema j = some false → Invalid defs schema j) := by
  induction n generalizing schema j with
  | zero => exact ⟨nofun, nofun⟩
  | succ n ih =>
    cases schema with
    | assert a => exact ⟨fun h => .assert (Option.some.inj h), fun h => .assert (Option.some.inj h)⟩
    | never => exact ⟨nofun, fun _ => .never⟩
    | ref name => exact ⟨fun h => .ref (ih.1 h), fun h => .ref (ih.2 h)⟩
    | properties props additional =>
      refine ⟨fun h => .properties fun k v hm => ih.1 (every_true h _ (List.mem_map.mpr ⟨_, hm, rfl⟩)),
        fun h => ?_⟩
      obtain ⟨kv, hm, hkv⟩ := List.mem_map.mp (every_false h)
      exact .properties hm (ih.2 hkv)
    | propertyNames schema =>
      refine ⟨fun h => .propertyNames fun k v hm =>
        ih.1 (every_true h _ (List.mem_map.mpr ⟨_, hm, rfl⟩)), fun h => ?_⟩
      obtain ⟨kv, hm, hkv⟩ := List.mem_map.mp (every_false h)
      exact .propertyNames hm (ih.2 hkv)
    | items schema =>
      refine ⟨fun h => .items fun x hm => ih.1 (every_true h _ (List.mem_map_of_mem hm)), fun h => ?_⟩
      obtain ⟨x, hm, hx⟩ := List.mem_map.mp (every_false h)
      exact .items hm (ih.2 hx)
    | not schema =>
      exact ⟨fun h => .not (ih.2 (map_not_eq h)), fun h => .not (ih.1 (map_not_eq h))⟩
    | allOf schemas =>
      refine ⟨fun h => .allOf fun s hm => ih.1 (every_true h _ (List.mem_map_of_mem hm)), fun h => ?_⟩
      obtain ⟨s, hm, hs⟩ := List.mem_map.mp (every_false h)
      exact .allOf hm (ih.2 hs)
    | anyOf schemas =>
      refine ⟨fun h => ?_, fun h => .anyOf fun s hm => ?_⟩
      · obtain ⟨s, hm, hs⟩ := List.mem_map.mp (every_false (map_not_eq h))
        exact .anyOf hm (ih.1 (map_not_eq hs))
      · exact ih.2 (map_not_eq (every_true (map_not_eq h) _ (List.mem_map_of_mem hm)))
    | oneOf schemas =>
      refine ⟨fun h => ?_, fun h => ?_⟩
      · obtain ⟨m, hm, hother⟩ := single_true h
        rw [List.getElem?_map] at hm
        obtain ⟨s, hs, hcheck⟩ := Option.map_eq_some_iff.mp hm
        refine .oneOf m hs (ih.1 hcheck) fun k other hk hne => ih.2 (hother k _ ?_ hne)
        rw [List.getElem?_map, hk]
        rfl
      · rcases single_false h with hall | ⟨a, b, hne, ha, hb⟩
        · exact .oneOfNone fun s hm => ih.2 (hall _ (List.mem_map_of_mem hm))
        · rw [List.getElem?_map] at ha hb
          obtain ⟨s, hs, hcheck⟩ := Option.map_eq_some_iff.mp ha
          obtain ⟨s', hs', hcheck'⟩ := Option.map_eq_some_iff.mp hb
          exact .oneOfTwo hne hs hs' (ih.1 hcheck) (ih.1 hcheck')

end Schema

end JsonDatabase
