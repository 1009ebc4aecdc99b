/-
  File:      JsonDatabase/Basis/JsonDumps.lean
  Subject:   Writing JSON: `json.dumps` with sorted keys.

  * `escape`, `quoted` -- string literals, raw or restricted to ASCII;
  * `Style`, `compact`, `indented` -- what stands between the tokens;
  * `render` -- the text of a value as its entries stand;
  * `dumpable`, `dumps` -- the writer proper: keys sorted, non-finite floats and over-long integers
    refused;
  * `scalarOnly_render` -- the text holds a surrogate exactly where a key or a string does.
-/
import JsonDatabase.Basis.Json

namespace JsonDatabase

/-! ## 1. String literals -/

def quoteMark : CodePoint := 0x22

def backslash : CodePoint := 0x5C

/-- A hexadecimal digit, in lower case. -/
def hexDigit (n : Nat) : CodePoint := if n < 10 then code (0x30 + n) else code (0x57 + n)

/-- A `\uXXXX` escape. -/
def unicodeEscape (n : Nat) : Str :=
  [backslash, ch 'u', hexDigit (n / 4096 % 16), hexDigit (n / 256 % 16), hexDigit (n / 16 % 16),
    hexDigit (n % 16)]

/-- One code point inside a string literal; with `ascii` everything from `0x7F` on is escaped, as
    a surrogate pair where it does not fit four digits. -/
def escape (ascii : Bool) (c : CodePoint) : Str :=
  if c = quoteMark then [backslash, quoteMark]
  else if c = backslash then [backslash, backslash]
  else if c.val = 0x0A then [backslash, ch 'n']
  else if c.val = 0x0D then [backslash, ch 'r']
  else if c.val = 0x09 then [backslash, ch 't']
  else if c.val = 0x0C then [backslash, ch 'f']
  else if c.val = 0x08 then [backslash, ch 'b']
  else if c.val < 0x20 then unicodeEscape c
  else if ascii = true ∧ 0x7F ≤ c.val then
    if c.val < 0x10000 then unicodeEscape c
    else
      unicodeEscape (0xD800 + (c.val - 0x10000) / 0x400) ++
        unicodeEscape (0xDC00 + (c.val - 0x10000) % 0x400)
  else [c]

def quoted (ascii : Bool) (s : Str) : Str := quoteMark :: (s.flatMap (escape ascii) ++ [quoteMark])

/-! ## 2. Styles -/

/-- The white space of JSON. -/
def isWs (c : CodePoint) : Bool :=
  decide (c.val = 0x20 ∨ c.val = 0x09 ∨ c.val = 0x0A ∨ c.val = 0x0D)

/-- What is written before an entry or a closing bracket at a depth, and after a colon: white
    space in either place. -/
structure Style where
  newline : Nat → Str
  space : Str
  newline_ws : ∀ n, ∀ c ∈ newline n, isWs c = true
  space_ws : ∀ c ∈ space, isWs c = true

/-- `separators=(",", ":")`. -/
def compact : Style where
  newline _ := []
  space := []
  newline_ws _ _ h := absurd h List.not_mem_nil
  space_ws _ h := absurd h List.not_mem_nil

/-- `indent=2`. -/
def indented : Style where
  newline n := 0x0A :: List.replicate (2 * n) 0x20
  space := [0x20]
  newline_ws n c h := by
    rcases List.mem_cons.mp h with rfl | h
    · rfl
    · rw [List.eq_of_mem_replicate h]
      rfl
  space_ws c h := by
    rw [List.mem_singleton.mp h]
    rfl

/-! ## 3. Values -/

def intText (i : Int) : Str := if i < 0 then ch '-' :: natDigits i.natAbs else natDigits i.natAbs

def floatText (ft : FloatText) : PyFloat → Str
  | .finite x => (ft.token x).text
  | .inf false => lit "Infinity"
  | .inf true => lit "-Infinity"
  | .nan => lit "NaN"

namespace Json

variable (ft : FloatText) (ascii : Bool) (σ : Style)

mutual
/-- The text of a value at nesting depth `n`, its entries in the order they stand. -/
def render (n : Nat) : Json → Str
  | .null => lit "null"
  | .bool true => lit "true"
  | .bool false => lit "false"
  | .int i => intText i
  | .float f => floatText ft f
  | .str s => quoted ascii s
  | .arr [] => lit "[]"
  | .arr (x :: xs) =>
      ch '[' :: (σ.newline (n + 1) ++ render (n + 1) x ++ renderList (n + 1) xs ++ σ.newline n ++
        [ch ']'])
  | .obj [] => [0x7B, 0x7D]
  | .obj ((k, v) :: kvs) =>
      0x7B :: (σ.newline (n + 1) ++ quoted ascii k ++ ch ':' :: σ.space ++ render (n + 1) v ++
        renderEntries (n + 1) kvs ++ σ.newline n ++ [0x7D])

/-- The elements after the first. -/
def renderList (n : Nat) : List Json → Str
  | [] => []
  | x :: xs => ch ',' :: (σ.newline n ++ render n x ++ renderList n xs)

/-- The entries after the first. -/
def renderEntries (n : Nat) : List (Str × Json) → Str
  | [] => []
  | (k, v) :: kvs =>
      ch ',' :: (σ.newline n ++ quoted ascii k ++ ch ':' :: σ.space ++ render n v ++
        renderEntries n kvs)
end

/-- The most digits an integer may have to be converted to or from text
    (`sys.int_info.default_max_str_digits`). -/
def maxStrDigits : Nat := 4300

def intFits (i : Int) : Bool := decide ((natDigits i.natAbs).length ≤ maxStrDigits)

mutual
/-- Every float is finite and every integer converts to text. -/
def dumpable : Json → Bool
  | .int i => intFits i
  | .float f => f.isFinite
  | .arr xs => dumpableList xs
  | .obj kvs => dumpableEntries kvs
  | _ => true

def dumpableList : List Json → Bool
  | [] => true
  | x :: xs => dumpable x && dumpableList xs

def dumpableEntries : List (Str × Json) → Bool
  | [] => true
  | (_, v) :: kvs => dumpable v && dumpableEntries kvs
end

/-- `json.dumps(j, sort_keys=True, allow_nan=False)`; `none` is the `ValueError` it raises. -/
def dumps (j : Json) : Option Str :=
  if dumpable j then some (render ft ascii σ 0 (sortKeys j)) else none

theorem dumpableList_iff : ∀ {xs : List Json},
    dumpableList xs = true ↔ ∀ x ∈ xs, dumpable x = true
  | [] => by simp [dumpableList]
  | x :: xs => by simp [dumpableList, @dumpableList_iff xs]

theorem dumpableEntries_iff : ∀ {kvs : List (Str × Json)},
    dumpableEntries kvs = true ↔ ∀ k v, (k, v) ∈ kvs → dumpable v = true
  | [] => by simp [dumpableEntries]
  | (k₀, v₀) :: kvs => by
      simp only [dumpableEntries, Bool.and_eq_true, @dumpableEntries_iff kvs,
        List.mem_cons, Prod.mk.injEq]
      constructor
      · rintro ⟨h, hs⟩ k v (⟨-, rfl⟩ | hm)
        · exact h
        · exact hs k v hm
      · intro h
        exact ⟨h k₀ v₀ (Or.inl ⟨rfl, rfl⟩), fun k v hm => h k v (Or.inr hm)⟩

@[simp] theorem dumpable_arr {xs : List Json} :
    dumpable (.arr xs) = true ↔ ∀ x ∈ xs, dumpable x = true := by
  rw [dumpable, dumpableList_iff]

@[simp] theorem dumpable_obj {kvs : List (Str × Json)} :
    dumpable (.obj kvs) = true ↔ ∀ k v, (k, v) ∈ kvs → dumpable v = true := by
  rw [dumpable, dumpableEntries_iff]

theorem mem_entries_sortKeys {kvs : List (Str × Json)} {P : Str → Json → Prop} :
    (∀ k v, (k, v) ∈ (kvs.map fun kv => (kv.1, sortKeys kv.2)).insertionSort KeyLe → P k v) ↔
      ∀ k v, (k, v) ∈ kvs → P k (sortKeys v) := by
  constructor
  · intro h k v hm
    exact h k (sortKeys v) ((List.mem_insertionSort _).mpr (List.mem_map.mpr ⟨(k, v), hm, rfl⟩))
  · intro h k v hm
    obtain ⟨⟨k', v'⟩, hm', e⟩ := List.mem_map.mp ((List.mem_insertionSort _).mp hm)
    cases e
    exact h k' v' hm'

theorem dumpable_sortKeys (j : Json) : dumpable (sortKeys j) = dumpable j := by
  rw [Bool.eq_iff_iff]
  induction j using Json.induct with
  | arr xs ih =>
    simp only [sortKeys_arr, dumpable_arr, List.forall_mem_map]
    exact forall₂_congr ih
  | obj kvs ih =>
    rw [sortKeys_obj, dumpable_obj, dumpable_obj, mem_entries_sortKeys]
    exact forall₃_congr ih
  | null => rfl
  | bool b => rfl
  | int i => rfl
  | float f => rfl
  | str s => rfl

/-! ## 4. Surrogates in the text -/

mutual
/-- No key and no string holds a surrogate. -/
def scalar : Json → Bool
  | .str s => scalarOnly s
  | .arr xs => scalarList xs
  | .obj kvs => scalarEntries kvs
  | _ => true

def scalarList : List Json → Bool
  | [] => true
  | x :: xs => scalar x && scalarList xs

def scalarEntries : List (Str × Json) → Bool
  | [] => true
  | (k, v) :: kvs => scalarOnly k && (scalar v && scalarEntries kvs)
end

theorem scalarList_iff : ∀ {xs : List Json}, scalarList xs = true ↔ ∀ x ∈ xs, scalar x = true
  | [] => by simp [scalarList]
  | x :: xs => by simp [scalarList, @scalarList_iff xs]

theorem scalarEntries_iff : ∀ {kvs : List (Str × Json)},
    scalarEntries kvs = true ↔ ∀ k v, (k, v) ∈ kvs → scalarOnly k = true ∧ scalar v = true
  | [] => by simp [scalarEntries]
  | (k₀, v₀) :: kvs => by
      simp only [scalarEntries, Bool.and_eq_true, @scalarEntries_iff kvs, List.mem_cons,
        Prod.mk.injEq]
      constructor
      · rintro ⟨h, h', hs⟩ k v (⟨rfl, rfl⟩ | hm)
        · exact ⟨h, h'⟩
        · exact hs k v hm
      · intro h
        exact ⟨(h k₀ v₀ (Or.inl ⟨rfl, rfl⟩)).1, (h k₀ v₀ (Or.inl ⟨rfl, rfl⟩)).2,
          fun k v hm => h k v (Or.inr hm)⟩

@[simp] theorem scalar_arr {xs : List Json} :
    scalar (.arr xs) = true ↔ ∀ x ∈ xs, scalar x = true := by
  rw [scalar, scalarList_iff]

@[simp] theorem scalar_obj {kvs : List (Str × Json)} :
    scalar (.obj kvs) = true ↔ ∀ k v, (k, v) ∈ kvs → scalarOnly k = true ∧ scalar v = true := by
  rw [scalar, scalarEntries_iff]

mutual
/-- `p` holds of every key and of every string, at any depth. -/
def texts (p : Str → Prop) : Json → Prop
  | .str s => p s
  | .arr xs => textsList p xs
  | .obj kvs => textsEntries p kvs
  | _ => True

def textsList (p : Str → Prop) : List Json → Prop
  | [] => True
  | x :: xs => texts p x ∧ textsList p xs

def textsEntries (p : Str → Prop) : List (Str × Json) → Prop
  | [] => True
  | (k, v) :: kvs => p k ∧ texts p v ∧ textsEntries p kvs
end

variable {p : Str → Prop}

theorem textsList_iff : ∀ {xs : List Json}, textsList p xs ↔ ∀ x ∈ xs, texts p x
  | [] => by simp [textsList]
  | x :: xs => by simp [textsList, @textsList_iff xs]

theorem textsEntries_iff : ∀ {kvs : List (Str × Json)},
    textsEntries p kvs ↔ ∀ k v, (k, v) ∈ kvs → p k ∧ texts p v
  | [] => by simp [textsEntries]
  | (k₀, v₀) :: kvs => by
      simp only [textsEntries, @textsEntries_iff kvs, List.mem_cons, Prod.mk.injEq]
      constructor
      · rintro ⟨h, h', hs⟩ k v (⟨rfl, rfl⟩ | hm)
        · exact ⟨h, h'⟩
        · exact hs k v hm
      · intro h
        exact ⟨(h k₀ v₀ (Or.inl ⟨rfl, rfl⟩)).1, (h k₀ v₀ (Or.inl ⟨rfl, rfl⟩)).2,
          fun k v hm => h k v (Or.inr hm)⟩

@[simp] theorem texts_arr {xs : List Json} : texts p (.arr xs) ↔ ∀ x ∈ xs, texts p x := by
  rw [texts, textsList_iff]

@[simp] theorem texts_obj {kvs : List (Str × Json)} :
    texts p (.obj kvs) ↔ ∀ k v, (k, v) ∈ kvs → p k ∧ texts p v := by
  rw [texts, textsEntries_iff]

theorem texts_sortKeys (j : Json) : texts p (sortKeys j) ↔ texts p j := by
  induction j using Json.induct with
  | arr xs ih =>
    simp only [sortKeys_arr, texts_arr, List.forall_mem_map]
    exact forall₂_congr ih
  | obj kvs ih =>
    rw [sortKeys_obj, texts_obj, texts_obj, mem_entries_sortKeys]
    exact forall₃_congr fun k v hm => and_congr_right' (ih k v hm)
  | _ => rfl

theorem texts.imp {q : Str → Prop} (hpq : ∀ s, p s → q s) {j : Json} (h : texts p j) :
    texts q j := by
  induction j using Json.induct with
  | arr xs ih => exact texts_arr.mpr fun x hx => ih x hx (texts_arr.mp h x hx)
  | obj kvs ih =>
    refine texts_obj.mpr fun k v hm => ?_
    obtain ⟨hk, hv⟩ := texts_obj.mp h k v hm
    exact ⟨hpq k hk, ih k v hm hv⟩
  | str s => exact hpq s h
  | _ => trivial

theorem scalar_iff_texts (j : Json) : scalar j = true ↔ texts (fun s => scalarOnly s = true) j := by
  induction j using Json.induct with
  | arr xs ih =>
    rw [scalar_arr, texts_arr]
    exact forall₂_congr ih
  | obj kvs ih =>
    rw [scalar_obj, texts_obj]
    exact forall₃_congr fun k v hm => and_congr_right' (ih k v hm)
  | str s => exact Iff.rfl
  | _ => exact ⟨fun _ => trivial, fun _ => rfl⟩

theorem scalar_sortKeys (j : Json) : scalar (sortKeys j) = scalar j := by
  rw [Bool.eq_iff_iff, scalar_iff_texts, scalar_iff_texts, texts_sortKeys]

/-- No character is written in two halves. -/
def unsplit (j : Json) : Prop := texts (fun s => JsonDatabase.unsplit s = true) j

theorem unsplit_of_scalar {j : Json} (h : scalar j = true) : unsplit j :=
  ((scalar_iff_texts j).mp h).imp fun _ => unsplit_of_scalarOnly

end Json

theorem hexDigit_val {n : Nat} (h : n < 16) : (hexDigit n).val < 0x80 := by
  unfold hexDigit
  split
  · rw [code_val (by omega)]
    omega
  · rw [code_val (by omega)]
    omega

theorem isAscii_unicodeEscape (n : Nat) : isAscii (unicodeEscape n) = true := by
  have h (m : Nat) : (hexDigit (m % 16)).val < 0x80 := hexDigit_val (Nat.mod_lt _ (by omega))
  have hb : backslash.val < 0x80 := by decide
  have hu : (ch 'u').val < 0x80 := by decide
  simp [unicodeEscape, isAscii_cons, h, hb, hu]

theorem isAscii_ite {p : Prop} [Decidable p] {s t : Str} (hs : isAscii s = true)
    (ht : isAscii t = true) : isAscii (if p then s else t) = true := by
  split
  · exact hs
  · exact ht

theorem isAscii_escape {c : CodePoint} (h : c.val < 0x80) : isAscii (escape false c) = true := by
  have pair {e : CodePoint} (he : e.val < 0x80) : isAscii [backslash, e] = true := by
    have hb : backslash.val < 0x80 := by decide
    simp [isAscii_cons, hb, he]
  have last : isAscii [c] = true := by simp [isAscii_cons, h]
  unfold escape
  refine isAscii_ite (pair (by decide)) (isAscii_ite (pair (by decide)) ?_)
  refine isAscii_ite (pair (by decide)) (isAscii_ite (pair (by decide)) ?_)
  refine isAscii_ite (pair (by decide)) (isAscii_ite (pair (by decide)) ?_)
  refine isAscii_ite (pair (by decide)) (isAscii_ite (isAscii_unicodeEscape _) ?_)
  rw [if_neg (by simp)]
  exact last

theorem escape_of_le (ascii : Bool) {c : CodePoint} (hq : c ≠ quoteMark) (hb : c ≠ backslash)
    (hc : 0x20 ≤ c.val) : escape ascii c =
      if ascii = true ∧ 0x7F ≤ c.val then
        if c.val < 0x10000 then unicodeEscape c
        else
          unicodeEscape (0xD800 + (c.val - 0x10000) / 0x400) ++
            unicodeEscape (0xDC00 + (c.val - 0x10000) % 0x400)
      else [c] := by
  unfold escape
  rw [if_neg hq, if_neg hb, if_neg (by omega), if_neg (by omega), if_neg (by omega),
    if_neg (by omega), if_neg (by omega), if_neg (by omega)]

theorem scalarOnly_escape (c : CodePoint) : scalarOnly (escape false c) = !isSurrogate c := by
  by_cases h : c.val < 0x80
  · rw [scalarOnly_of_isAscii (isAscii_escape h), isSurrogate_of_lt (by omega)]
    rfl
  · have hq : c ≠ quoteMark := fun e => h (by rw [e]; decide)
    have hb : c ≠ backslash := fun e => h (by rw [e]; decide)
    rw [escape_of_le false hq hb (by omega), if_neg (by simp)]
    simp [scalarOnly]

theorem scalarOnly_quoted (s : Str) : scalarOnly (quoted false s) = scalarOnly s := by
  have h : scalarOnly (s.flatMap (escape false)) = scalarOnly s := by
    induction s with
    | nil => rfl
    | cons c s ih => rw [List.flatMap_cons, scalarOnly_append, scalarOnly_escape, ih]; rfl
  have hq : isSurrogate quoteMark = false := by decide
  rw [quoted, scalarOnly_cons, scalarOnly_append, h, scalarOnly_cons, hq]
  simp

theorem scalarOnly_of_isWs {s : Str} (h : ∀ c ∈ s, isWs c = true) : scalarOnly s = true := by
  refine List.all_eq_true.mpr fun c hc => ?_
  have hw := h c hc
  simp only [isWs, decide_eq_true_eq] at hw
  rw [isSurrogate_of_lt (by omega)]
  rfl

theorem isAscii_intText (i : Int) : isAscii (intText i) = true := by
  have h := isAscii_of_isDigit (natDigits_isDigit i.natAbs)
  have hm : (ch '-').val < 0x80 := by decide
  unfold intText
  split
  · simp [isAscii_cons, hm, h]
  · exact h

theorem NumToken.isAscii_text {t : NumToken} (h : t.WellFormed) : isAscii t.text = true := by
  have hs : isAscii t.sign = true := by
    unfold NumToken.sign
    split <;> decide
  have hi : isAscii t.int = true := by
    rcases h.int with e | ⟨c, ds, e, h1, h2, hds⟩
    · rw [e]
      decide
    · rw [e, isAscii_cons, isAscii_of_isDigit hds, Bool.and_true, decide_eq_true_eq]
      omega
  have hf : isAscii t.fracText = true := by
    unfold NumToken.fracText
    split
    · rfl
    · rw [isAscii_cons, isAscii_of_isDigit h.frac]
      decide
  have he : isAscii t.exp = true := by
    rcases h.exp with e | ⟨m, sg, ds, e, hm, hsg, -, hds⟩
    · rw [e]
      rfl
    · rw [e, isAscii_cons, isAscii_append, isAscii_of_isDigit hds]
      rcases hm with rfl | rfl <;> rcases hsg with rfl | rfl | rfl <;> decide
  simp [NumToken.text, hs, hi, hf, he]

theorem isAscii_floatText (ft : FloatText) (f : PyFloat) : isAscii (floatText ft f) = true := by
  cases f with
  | finite x => exact NumToken.isAscii_text (ft.token_wellFormed x)
  | inf neg =>
    cases neg with
    | false => exact (by decide : isAscii (lit "Infinity") = true)
    | true => exact (by decide : isAscii (lit "-Infinity") = true)
  | nan => exact (by decide : isAscii (lit "NaN") = true)

namespace Json

variable (ft : FloatText) (σ : Style)

mutual
/-- **The text holds a surrogate exactly where a key or a string does.** -/
theorem scalarOnly_render : ∀ (n : Nat) (j : Json),
    scalarOnly (render ft false σ n j) = scalar j
  | _, .null => rfl
  | _, .bool true => rfl
  | _, .bool false => rfl
  | _, .int i => scalarOnly_of_isAscii (isAscii_intText i)
  | _, .float f => scalarOnly_of_isAscii (isAscii_floatText ft f)
  | _, .str s => scalarOnly_quoted s
  | _, .arr [] => rfl
  | n, .arr (x :: xs) => by
      have h1 := scalarOnly_of_isWs (σ.newline_ws (n + 1))
      have h2 := scalarOnly_of_isWs (σ.newline_ws n)
      have hx := scalarOnly_render (n + 1) x
      have hxs := scalarOnly_renderList (n + 1) xs
      have hb : isSurrogate (ch '[') = false ∧ isSurrogate (ch ']') = false := by decide
      simp [render, scalar, scalarList, scalarOnly_cons, h1, h2, hx, hxs, hb]
  | _, .obj [] => rfl
  | n, .obj ((k, v) :: kvs) => by
      have h1 := scalarOnly_of_isWs (σ.newline_ws (n + 1))
      have h2 := scalarOnly_of_isWs (σ.newline_ws n)
      have h3 := scalarOnly_of_isWs σ.space_ws
      have hv := scalarOnly_render (n + 1) v
      have hkvs := scalarOnly_renderEntries (n + 1) kvs
      have hb : isSurrogate 0x7B = false ∧ isSurrogate 0x7D = false ∧
        isSurrogate (ch ':') = false := by decide
      simp [render, scalar, scalarEntries, scalarOnly_cons, scalarOnly_quoted, h1, h2, h3, hv,
        hkvs, hb]

theorem scalarOnly_renderList : ∀ (n : Nat) (xs : List Json),
    scalarOnly (renderList ft false σ n xs) = scalarList xs
  | _, [] => rfl
  | n, x :: xs => by
      have h1 := scalarOnly_of_isWs (σ.newline_ws n)
      have hx := scalarOnly_render n x
      have hxs := scalarOnly_renderList n xs
      have hb : isSurrogate (ch ',') = false := by decide
      simp [renderList, scalarList, scalarOnly_cons, h1, hx, hxs, hb]

theorem scalarOnly_renderEntries : ∀ (n : Nat) (kvs : List (Str × Json)),
    scalarOnly (renderEntries ft false σ n kvs) = scalarEntries kvs
  | _, [] => rfl
  | n, (k, v) :: kvs => by
      have h1 := scalarOnly_of_isWs (σ.newline_ws n)
      have h3 := scalarOnly_of_isWs σ.space_ws
      have hv := scalarOnly_render n v
      have hkvs := scalarOnly_renderEntries n kvs
      have hb : isSurrogate (ch ',') = false ∧ isSurrogate (ch ':') = false := by decide
      simp [renderEntries, scalarEntries, scalarOnly_cons, scalarOnly_quoted, h1, h3, hv, hkvs,
        hb]
end

end Json

/-! ## 5. Values with the same text -/

/-- Entries that agree on their keys are sorted alike. -/
theorem forall₂_insertionSort {R : Str × Json → Str × Json → Prop} (hR : ∀ p q, R p q → p.1 = q.1)
    {a b : List (Str × Json)} (h : List.Forall₂ R a b) :
    List.Forall₂ R (a.insertionSort Json.KeyLe) (b.insertionSort Json.KeyLe) := by
  have insert {p q : Str × Json} (hpq : R p q) {a b : List (Str × Json)} (h : List.Forall₂ R a b) :
      List.Forall₂ R (a.orderedInsert Json.KeyLe p) (b.orderedInsert Json.KeyLe q) := by
    induction h with
    | nil => exact .cons hpq .nil
    | @cons p' q' a b hpq' h ih =>
      have hle : Json.KeyLe p p' ↔ Json.KeyLe q q' := by
        rw [Json.KeyLe, Json.KeyLe, hR p q hpq, hR p' q' hpq']
      rw [List.orderedInsert_cons, List.orderedInsert_cons]
      by_cases hp : Json.KeyLe p p'
      · rw [if_pos hp, if_pos (hle.mp hp)]
        exact .cons hpq (.cons hpq' h)
      · rw [if_neg hp, if_neg fun hq => hp (hle.mpr hq)]
        exact .cons hpq' ih
  induction h with
  | nil => exact .nil
  | cons hpq _ ih => exact insert hpq ih

namespace Json

variable (ft : FloatText)

/-- The compact texts are the same, whatever the depths. -/
def TextEq (x y : Json) : Prop :=
  ∀ n m, render ft true compact n x = render ft true compact m y

variable {ft}

theorem renderList_congr {xs ys : List Json} (h : List.Forall₂ (TextEq ft) xs ys) (n m : Nat) :
    renderList ft true compact n xs = renderList ft true compact m ys := by
  induction h with
  | nil => rfl
  | cons hxy _ ih =>
    simp only [renderList, hxy n m, ih]
    rfl

/-- One key, and values with the same compact text. -/
def EntryEq (ft : FloatText) (p q : Str × Json) : Prop := p.1 = q.1 ∧ TextEq ft p.2 q.2

theorem renderEntries_congr {a b : List (Str × Json)} (h : List.Forall₂ (EntryEq ft) a b)
    (n m : Nat) : renderEntries ft true compact n a = renderEntries ft true compact m b := by
  induction h with
  | nil => rfl
  | cons hpq _ ih =>
    simp only [renderEntries, hpq.1, hpq.2 n m, ih]
    rfl

theorem textEq_arr {xs ys : List Json} (h : List.Forall₂ (TextEq ft) xs ys) :
    TextEq ft (.arr xs) (.arr ys) := by
  intro n m
  cases h with
  | nil => rfl
  | cons hxy h =>
    simp only [render, hxy (n + 1) (m + 1), renderList_congr h (n + 1) (m + 1)]
    rfl

theorem textEq_obj {a b : List (Str × Json)} (h : List.Forall₂ (EntryEq ft) a b) :
    TextEq ft (.obj a) (.obj b) := by
  intro n m
  cases h with
  | nil => rfl
  | cons hpq h =>
    simp only [render, hpq.1, hpq.2 (n + 1) (m + 1), renderEntries_congr h (n + 1) (m + 1)]
    rfl

theorem textEq_refl (j : Json) : TextEq ft j j := by
  induction j using Json.induct with
  | arr xs ih => exact textEq_arr (List.forall₂_same.mpr ih)
  | obj kvs ih => exact textEq_obj (List.forall₂_same.mpr fun kv hkv => ⟨rfl, ih kv.1 kv.2 hkv⟩)
  | bool b => cases b <;> exact fun _ _ => rfl
  | _ => exact fun _ _ => rfl

/-- `json.dumps` with the keys sorted gives the same text for both, or fails for both. -/
structure SameText (ft : FloatText) (x y : Json) : Prop where
  dumpable : dumpable x = dumpable y
  text : TextEq ft (sortKeys x) (sortKeys y)

theorem SameText.dumps {x y : Json} (h : SameText ft x y) :
    dumps ft true compact x = dumps ft true compact y := by
  rw [Json.dumps, Json.dumps, h.dumpable, h.text 0 0]

theorem sameText_of_dumps {x y : Json} {t : Str} (hx : dumps ft true compact x = some t)
    (hy : dumps ft true compact y = some t) : SameText ft x y := by
  unfold Json.dumps at hx hy
  split at hx
  · rename_i hdx
    split at hy
    · rename_i hdy
      refine ⟨hdx.trans hdy.symm, fun n m => ?_⟩
      rw [textEq_refl (sortKeys x) n 0, textEq_refl (sortKeys y) m 0]
      exact Option.some.inj (hx.trans hy.symm)
    · cases hy
  · cases hx

theorem sameText_refl (x : Json) : SameText ft x x := ⟨rfl, textEq_refl _⟩

theorem sameText_arr {xs ys : List Json} (h : List.Forall₂ (SameText ft) xs ys) :
    SameText ft (.arr xs) (.arr ys) := by
  constructor
  · show dumpableList xs = dumpableList ys
    induction h with
    | nil => rfl
    | cons hxy _ ih => rw [dumpableList, dumpableList, hxy.dumpable, ih]
  · rw [sortKeys_arr, sortKeys_arr]
    refine textEq_arr (List.forall₂_map_left_iff.mpr (List.forall₂_map_right_iff.mpr ?_))
    exact h.imp fun _ _ hxy => hxy.text

theorem sameText_obj {a b : List (Str × Json)}
    (h : List.Forall₂ (fun p q => p.1 = q.1 ∧ SameText ft p.2 q.2) a b) :
    SameText ft (.obj a) (.obj b) := by
  constructor
  · show dumpableEntries a = dumpableEntries b
    induction h with
    | nil => rfl
    | @cons p q _ _ hpq _ ih =>
      obtain ⟨k, x⟩ := p
      obtain ⟨k', y⟩ := q
      rw [dumpableEntries, dumpableEntries, hpq.2.dumpable, ih]
  · rw [sortKeys_obj, sortKeys_obj]
    refine textEq_obj (forall₂_insertionSort (fun _ _ hpq => hpq.1) ?_)
    refine List.forall₂_map_left_iff.mpr (List.forall₂_map_right_iff.mpr ?_)
    exact h.imp fun _ _ hpq => ⟨hpq.1, hpq.2.text⟩

end Json

end JsonDatabase
