/-
  File:      JsonDatabase/Basis/Json.lean
  Subject:   JSON values and their text.

  The value a JSON text stands for, with integers of any size, binary64 floats (the non-finite
  ones included, which lenient readers admit) and objects as insertion-ordered dictionaries, and
  the writer: keys sorted by code point, a compact and an indented style, escapes for the
  characters JSON cannot hold raw or for everything outside ASCII.

  * `FloatText` -- how finite floats are written and read; the only part of the format left open;
  * `sortKeys` -- every object's keys in order, and `sortKeys_obj_congr`: it sees an object's
    lookups only;
  * `Rearranged` -- values that differ in the order of their entries, and `rearranged_iff`: those
    with one form after sorting;
  * `render`, `dumps` -- the text, and the writer that refuses a non-finite float and an integer
    with more digits than the interpreter converts.
-/
import JsonDatabase.Basis.Dict
import JsonDatabase.Basis.Text
import Mathlib.Data.List.Sort

namespace JsonDatabase

/-! ## 1. Floats and number tokens -/

/-- A finite binary64 number `± mant * 2 ^ exp`, in its one canonical form. -/
structure FiniteFloat where
  neg : Bool
  mant : Nat
  exp : Int
  canonical : mant < 2 ^ 53 ∧ -1074 ≤ exp ∧ exp ≤ 971 ∧ (mant < 2 ^ 52 → exp = -1074)
  deriving DecidableEq

inductive PyFloat where
  | finite (x : FiniteFloat)
  | inf (neg : Bool)
  | nan
  deriving DecidableEq

def PyFloat.isFinite : PyFloat → Bool
  | .finite _ => true
  | _ => false

/-- What a number token is made of: sign, integer digits, fraction digits, and the exponent with
    its marker and sign. -/
structure NumToken where
  neg : Bool
  int : Str
  frac : Str
  exp : Str
  deriving DecidableEq

namespace NumToken

def sign (t : NumToken) : Str := if t.neg then [ch '-'] else []

def fracText (t : NumToken) : Str := if t.frac = [] then [] else ch '.' :: t.frac

def text (t : NumToken) : Str := t.sign ++ t.int ++ t.fracText ++ t.exp

/-- A fraction or an exponent makes the token a float. -/
def isFloat (t : NumToken) : Bool := !t.frac.isEmpty || !t.exp.isEmpty

/-- `"0"`, or digits that do not start with a zero. -/
def IntPart (s : Str) : Prop :=
  s = [ch '0'] ∨ ∃ c ds, s = c :: ds ∧ 0x31 ≤ c.val ∧ c.val ≤ 0x39 ∧ ∀ d ∈ ds, isDigit d = true

/-- Nothing, or `e`, an optional sign and at least one digit. -/
def ExpPart (s : Str) : Prop :=
  s = [] ∨ ∃ m sg ds, s = m :: (sg ++ ds) ∧ (m = ch 'e' ∨ m = ch 'E') ∧
    (sg = [] ∨ sg = [ch '+'] ∨ sg = [ch '-']) ∧ ds ≠ [] ∧ ∀ d ∈ ds, isDigit d = true

/-- The token follows the number grammar of JSON. -/
structure WellFormed (t : NumToken) : Prop where
  int : IntPart t.int
  frac : ∀ d ∈ t.frac, isDigit d = true
  exp : ExpPart t.exp

end NumToken

/-- **The text of floats**: how a finite float is written, as a float token of the JSON grammar,
    and how a float token is read; reading what was written gives the number back. -/
structure FloatText where
  token : FiniteFloat → NumToken
  token_wellFormed : ∀ x, (token x).WellFormed
  token_isFloat : ∀ x, (token x).isFloat = true
  parse : NumToken → PyFloat
  parse_token : ∀ x, parse (token x) = .finite x

/-! ## 2. Values -/

inductive Json where
  | null
  | bool (b : Bool)
  | int (i : Int)
  | float (f : PyFloat)
  | str (s : Str)
  | arr (xs : List Json)
  | obj (kvs : List (Str × Json))

namespace Json

/-- Induction over a value: its elements and its entries' values come before it. -/
@[elab_as_elim]
theorem induct {P : Json → Prop} (null : P .null) (bool : ∀ b, P (.bool b)) (int : ∀ i, P (.int i))
    (float : ∀ f, P (.float f)) (str : ∀ s, P (.str s))
    (arr : ∀ xs, (∀ x ∈ xs, P x) → P (.arr xs))
    (obj : ∀ kvs : Dict Str Json, (∀ k v, (k, v) ∈ kvs → P v) → P (.obj kvs)) (j : Json) : P j :=
  @Json.rec P (fun xs => ∀ x ∈ xs, P x) (fun kvs => ∀ k v, (k, v) ∈ kvs → P v) (fun kv => P kv.2)
    null bool int float str arr obj
    (fun _ h => absurd h List.not_mem_nil)
    (fun _ _ h hs x hx => by
      rcases List.mem_cons.mp hx with rfl | hx
      · exact h
      · exact hs x hx)
    (fun _ _ h => absurd h List.not_mem_nil)
    (fun _ _ h hs k v hkv => by
      rcases List.mem_cons.mp hkv with e | hkv
      · cases e
        exact h
      · exact hs k v hkv)
    (fun _ _ h => h) j

mutual
/-- No object has a key twice. -/
def distinct : Json → Prop
  | .arr xs => distinctList xs
  | .obj kvs => Dict.Distinct kvs ∧ distinctEntries kvs
  | _ => True

def distinctList : List Json → Prop
  | [] => True
  | x :: xs => distinct x ∧ distinctList xs

def distinctEntries : Dict Str Json → Prop
  | [] => True
  | (_, v) :: kvs => distinct v ∧ distinctEntries kvs
end

theorem distinctList_iff : ∀ {xs : List Json}, distinctList xs ↔ ∀ x ∈ xs, distinct x
  | [] => by simp [distinctList]
  | x :: xs => by simp [distinctList, @distinctList_iff xs]

theorem distinctEntries_iff : ∀ {kvs : Dict Str Json},
    distinctEntries kvs ↔ ∀ k v, (k, v) ∈ kvs → distinct v
  | [] => by simp [distinctEntries]
  | (k₀, v₀) :: kvs => by
      simp only [distinctEntries, @distinctEntries_iff kvs, List.mem_cons, Prod.mk.injEq]
      constructor
      · rintro ⟨h, hs⟩ k v (⟨-, rfl⟩ | hm)
        · exact h
        · exact hs k v hm
      · intro h
        exact ⟨h k₀ v₀ (Or.inl ⟨rfl, rfl⟩), fun k v hm => h k v (Or.inr hm)⟩

@[simp] theorem distinct_arr {xs : List Json} : distinct (.arr xs) ↔ ∀ x ∈ xs, distinct x := by
  rw [distinct, distinctList_iff]

@[simp] theorem distinct_obj {kvs : Dict Str Json} :
    distinct (.obj kvs) ↔ Dict.Distinct kvs ∧ ∀ k v, (k, v) ∈ kvs → distinct v := by
  rw [distinct, distinctEntries_iff]

/-! ## 3. Sorted keys -/

/-- The order of entries by key. -/
def KeyLe (a b : Str × Json) : Prop := a.1 ≤ b.1

instance : DecidableRel KeyLe := fun a b => inferInstanceAs (Decidable (a.1 ≤ b.1))

mutual
/-- Every object's entries in the order of their keys, at every depth. -/
def sortKeys : Json → Json
  | .arr xs => .arr (sortKeysList xs)
  | .obj kvs => .obj ((sortKeysEntries kvs).insertionSort KeyLe)
  | .null => .null
  | .bool b => .bool b
  | .int i => .int i
  | .float f => .float f
  | .str s => .str s

def sortKeysList : List Json → List Json
  | [] => []
  | x :: xs => sortKeys x :: sortKeysList xs

def sortKeysEntries : Dict Str Json → Dict Str Json
  | [] => []
  | (k, v) :: kvs => (k, sortKeys v) :: sortKeysEntries kvs
end

theorem sortKeysList_eq : ∀ xs, sortKeysList xs = xs.map sortKeys
  | [] => rfl
  | x :: xs => by simp [sortKeysList, sortKeysList_eq xs]

theorem sortKeysEntries_eq : ∀ kvs, sortKeysEntries kvs = kvs.map fun kv => (kv.1, sortKeys kv.2)
  | [] => rfl
  | (k, v) :: kvs => by simp [sortKeysEntries, sortKeysEntries_eq kvs]

@[simp] theorem sortKeys_arr (xs : List Json) : sortKeys (.arr xs) = .arr (xs.map sortKeys) := by
  rw [sortKeys, sortKeysList_eq]

theorem sortKeys_obj (kvs : Dict Str Json) : sortKeys (.obj kvs) =
    .obj ((kvs.map fun kv => (kv.1, sortKeys kv.2)).insertionSort KeyLe) := by
  rw [sortKeys, sortKeysEntries_eq]

theorem keyLe_total (a b : Str × Json) : KeyLe a b ∨ KeyLe b a := le_total a.1 b.1

theorem keyLe_trans (a b c : Str × Json) (h : KeyLe a b) (h' : KeyLe b c) : KeyLe a c :=
  le_trans h h'

instance : Std.Total KeyLe := ⟨keyLe_total⟩

instance : IsTrans (Str × Json) KeyLe := ⟨keyLe_trans⟩

/-- Sorting an object forgets the order its entries came in. -/
theorem insertionSort_perm {a b : Dict Str Json} (h : a.Perm b) (hd : Dict.Distinct a) :
    a.insertionSort KeyLe = b.insertionSort KeyLe := by
  have hp : (a.insertionSort KeyLe).Perm (b.insertionSort KeyLe) :=
    (List.perm_insertionSort _ a).trans (h.trans (List.perm_insertionSort _ b).symm)
  refine hp.eq_of_pairwise (fun x y hx hy hxy hyx => ?_) (List.pairwise_insertionSort _ _)
    (List.pairwise_insertionSort _ _)
  -- equal keys name one entry, since no key occurs twice
  have hk : x.1 = y.1 := le_antisymm hxy hyx
  have hx' : x ∈ a := (List.mem_insertionSort _).mp hx
  have hy' : y ∈ a := h.symm.subset ((List.mem_insertionSort _).mp hy)
  have h1 := Dict.get_of_mem hd hx'
  have h2 := Dict.get_of_mem hd (show (y.1, y.2) ∈ a from hy')
  rw [hk, h2] at h1
  exact Prod.ext hk (Option.some.inj h1).symm

theorem distinct_insertionSort {a : Dict Str Json} :
    Dict.Distinct (a.insertionSort KeyLe) ↔ Dict.Distinct a :=
  Dict.distinct_perm (List.perm_insertionSort _ a)

/-- **Sorting sees an object's lookups only.** -/
theorem sortKeys_obj_congr {a b : Dict Str Json} (ha : Dict.Distinct a) (hb : Dict.Distinct b)
    (h : ∀ k, (Dict.get a k).map sortKeys = (Dict.get b k).map sortKeys) :
    sortKeys (.obj a) = sortKeys (.obj b) := by
  have hd (d : Dict Str Json) (hd : Dict.Distinct d) :
      Dict.Distinct (d.map fun kv => (kv.1, sortKeys kv.2)) := by
    unfold Dict.Distinct at hd ⊢
    rwa [Dict.keys_map]
  rw [sortKeys_obj, sortKeys_obj]
  congr 1
  refine insertionSort_perm (Dict.perm_of_get (hd a ha) (hd b hb) fun k => ?_) (hd a ha)
  rw [Dict.get_map, Dict.get_map, h k]

theorem get_sortKeys_obj {a : Dict Str Json} (ha : Dict.Distinct a) {s : Dict Str Json}
    (h : sortKeys (.obj a) = .obj s) (k : Str) :
    Dict.get s k = (Dict.get a k).map sortKeys := by
  rw [sortKeys_obj] at h
  have e : s = _ := (Json.obj.inj h).symm
  have hd : Dict.Distinct ((a.map fun kv => (kv.1, sortKeys kv.2)).insertionSort KeyLe) := by
    rw [distinct_insertionSort]
    unfold Dict.Distinct at ha ⊢
    rwa [Dict.keys_map]
  rw [e, Dict.get_perm (List.perm_insertionSort _ _) hd, Dict.get_map]

theorem distinct_sortKeys : ∀ {j : Json}, distinct j → distinct (sortKeys j) := by
  intro j
  induction j using Json.induct with
  | arr xs ih =>
    simp only [sortKeys_arr, distinct_arr, List.mem_map]
    rintro h _ ⟨x, hx, rfl⟩
    exact ih x hx (h x hx)
  | obj kvs ih =>
    simp only [sortKeys_obj, distinct_obj, distinct_insertionSort]
    rintro ⟨hd, h⟩
    refine ⟨by unfold Dict.Distinct at hd ⊢; rwa [Dict.keys_map], fun k v hm => ?_⟩
    obtain ⟨⟨k', v'⟩, hm', e⟩ := List.mem_map.mp ((List.mem_insertionSort _).mp hm)
    cases e
    exact ih k' v' hm' (h k' v' hm')
  | null => exact id
  | bool b => exact id
  | int i => exact id
  | float f => exact id
  | str s => exact id

/-! ## 4. Rearranged entries -/

/-- The two values differ in the order of object entries only, at any depth. -/
inductive Rearranged : Json → Json → Prop where
  | refl (j : Json) : Rearranged j j
  | symm {j j' : Json} : Rearranged j j' → Rearranged j' j
  | trans {i j k : Json} : Rearranged i j → Rearranged j k → Rearranged i k
  | entries {a b : Dict Str Json} : a.Perm b → Rearranged (.obj a) (.obj b)
  | inObj {v w : Json} (a b : Dict Str Json) (k : Str) :
      Rearranged v w → Rearranged (.obj (a ++ (k, v) :: b)) (.obj (a ++ (k, w) :: b))
  | inArr {v w : Json} (xs ys : List Json) :
      Rearranged v w → Rearranged (.arr (xs ++ v :: ys)) (.arr (xs ++ w :: ys))

theorem rearranged_arr {xs ys : List Json} (h : List.Forall₂ Rearranged xs ys) :
    Rearranged (.arr xs) (.arr ys) := by
  suffices H : ∀ pre, Rearranged (.arr (pre ++ xs)) (.arr (pre ++ ys)) from H []
  induction h with
  | nil => exact fun pre => .refl _
  | @cons x y xs ys hxy _ ih =>
    intro pre
    have := ih (pre ++ [y])
    simp only [List.append_assoc, List.singleton_append] at this
    exact (Rearranged.inArr pre xs hxy).trans this

theorem rearranged_obj {a b : Dict Str Json}
    (h : List.Forall₂ (fun p q => p.1 = q.1 ∧ Rearranged p.2 q.2) a b) :
    Rearranged (.obj a) (.obj b) := by
  suffices H : ∀ pre : Dict Str Json, Rearranged (.obj (pre ++ a)) (.obj (pre ++ b)) from H []
  induction h with
  | nil => exact fun pre => .refl _
  | @cons p q a b hpq _ ih =>
    intro pre
    obtain ⟨k, v⟩ := p
    obtain ⟨k', w⟩ := q
    obtain rfl : k = k' := hpq.1
    have := ih (pre ++ [(k, w)])
    simp only [List.append_assoc, List.singleton_append] at this
    exact (Rearranged.inObj pre a k hpq.2).trans this

/-- Sorting rearranges. -/
theorem rearranged_sortKeys (j : Json) : Rearranged j (sortKeys j) := by
  induction j using Json.induct with
  | arr xs ih =>
    rw [sortKeys_arr]
    exact rearranged_arr (List.forall₂_map_right_iff.mpr (List.forall₂_same.mpr ih))
  | obj kvs ih =>
    rw [sortKeys_obj]
    have hmap : Rearranged (.obj kvs) (.obj (kvs.map fun kv => (kv.1, sortKeys kv.2))) :=
      rearranged_obj (List.forall₂_map_right_iff.mpr (List.forall₂_same.mpr fun kv hkv =>
        ⟨rfl, ih kv.1 kv.2 hkv⟩))
    exact hmap.trans (.entries (List.perm_insertionSort _ _).symm)
  | _ => exact .refl _

theorem Rearranged.distinct_iff {j j' : Json} (h : Rearranged j j') : distinct j ↔ distinct j' := by
  induction h with
  | refl j => exact Iff.rfl
  | symm _ ih => exact ih.symm
  | trans _ _ ih ih' => exact ih.trans ih'
  | entries hp => simp only [distinct_obj, Dict.distinct_perm hp, hp.mem_iff]
  | @inObj v w a b k _ ih =>
    have hk : Dict.keys (a ++ (k, v) :: b) = Dict.keys (a ++ (k, w) :: b) := by simp [Dict.keys]
    have hm (x : Json) : (∀ k' v', (k', v') ∈ a ++ (k, x) :: b → distinct v') ↔
        (∀ p ∈ a ++ b, distinct p.2) ∧ distinct x := by
      simp only [List.mem_append, List.mem_cons]
      refine ⟨fun h => ⟨fun p hp => h p.1 p.2 (hp.imp_right .inr), h k x (.inr (.inl rfl))⟩,
        fun h k' v' hp => ?_⟩
      rcases hp with hp | e | hp
      · exact h.1 (k', v') (.inl hp)
      · cases e
        exact h.2
      · exact h.1 (k', v') (.inr hp)
    rw [distinct_obj, distinct_obj, hm, hm, ih, Dict.Distinct, Dict.Distinct, hk]
  | inArr xs ys _ ih => simp only [distinct_arr, List.forall_mem_append, List.forall_mem_cons, ih]

/-- **Rearranged values are those with one sorted form**, if no object has a key twice. -/
theorem rearranged_iff {j j' : Json} (hd : distinct j) :
    Rearranged j j' ↔ sortKeys j = sortKeys j' := by
  constructor
  · intro h
    induction h with
    | refl j => rfl
    | symm h ih => exact (ih (h.distinct_iff.mpr hd)).symm
    | trans h _ ih ih' => exact (ih hd).trans (ih' (h.distinct_iff.mp hd))
    | @entries a b hp =>
      obtain ⟨hd, -⟩ := distinct_obj.mp hd
      exact sortKeys_obj_congr hd ((Dict.distinct_perm hp).mp hd) fun k => by
        rw [Dict.get_perm hp hd]
    | inObj a b k _ ih =>
      have ih := ih ((distinct_obj.mp hd).2 k _ (by simp))
      simp only [sortKeys_obj, List.map_append, List.map_cons, ih]
    | inArr xs ys _ ih =>
      have ih := ih (distinct_arr.mp hd _ (by simp))
      simp only [sortKeys_arr, List.map_append, List.map_cons, ih]
  · intro h
    have hs := rearranged_sortKeys j
    rw [h] at hs
    exact hs.trans (rearranged_sortKeys j').symm

end Json

end JsonDatabase
