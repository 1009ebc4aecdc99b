/-
  File:      JsonDatabase/Python/Value.lean
  Subject:   Python values: the types the database stores, and what stands for the others.

  A dictionary keeps its insertion order; a set is listed in the order it is iterated in.
  Strings are sequences of code points, lone surrogates included.

  * `PyVal`, `PyVal.induct` -- the values and induction over them;
  * `everywhere p` -- `p` holds of a value and of everything inside it;
  * `stored` -- the value that is read back: tuples outside sets are lists.
-/
import JsonDatabase.Basis.Json
import JsonDatabase.Python.Calendar
import JsonDatabase.Python.Decimal

namespace JsonDatabase

/-- A dictionary key: a string, or an object of some other type. -/
inductive PyKey where
  | str (s : Str)
  | other (typeName : String) (ident : Nat)
  deriving DecidableEq

/-- A Python value. `other` is an object of a type the serializer does not know. -/
inductive PyVal where
  | none
  | bool (b : Bool)
  | int (i : Int)
  | float (f : PyFloat)
  | str (s : Str)
  | datetime (d : DateTime)
  | date (d : Date)
  | decimal (d : Decimal)
  | bytes (b : Bytes)
  | frozenset (xs : List PyVal)
  | set (xs : List PyVal)
  | dict (kvs : List (PyKey × PyVal))
  | list (xs : List PyVal)
  | tuple (xs : List PyVal)
  | other (typeName : String) (ident : Nat)

/-- The entries of a Python dictionary. -/
abbrev PyDict := Dict PyKey PyVal

/-- A key as a value. -/
def PyKey.toVal : PyKey → PyVal
  | .str s => .str s
  | .other t i => .other t i

namespace PyVal

/-- Induction over a value: what is inside it comes before it. -/
@[elab_as_elim]
theorem induct {P : PyVal → Prop} (none : P .none) (bool : ∀ b, P (.bool b))
    (int : ∀ i, P (.int i)) (float : ∀ f, P (.float f)) (str : ∀ s, P (.str s))
    (datetime : ∀ d, P (.datetime d)) (date : ∀ d, P (.date d)) (decimal : ∀ d, P (.decimal d))
    (bytes : ∀ b, P (.bytes b))
    (frozenset : ∀ xs, (∀ x ∈ xs, P x) → P (.frozenset xs))
    (set : ∀ xs, (∀ x ∈ xs, P x) → P (.set xs))
    (dict : ∀ kvs : PyDict, (∀ k v, (k, v) ∈ kvs → P v) → P (.dict kvs))
    (list : ∀ xs, (∀ x ∈ xs, P x) → P (.list xs))
    (tuple : ∀ xs, (∀ x ∈ xs, P x) → P (.tuple xs))
    (other : ∀ t i, P (.other t i)) (v : PyVal) : P v :=
  @PyVal.rec P (fun xs => ∀ x ∈ xs, P x) (fun kvs => ∀ k v, (k, v) ∈ kvs → P v) (fun kv => P kv.2)
    none bool int float str datetime date decimal bytes frozenset set dict list tuple other
    (fun _ h => absurd h List.not_mem_nil)
    (fun _ _ h hs x hx => by
      rcases List.mem_cons.mp hx with rfl | hx
      · exact h
      · exact hs x hx)
    (fun _ _ h => absurd h List.not_mem_nil)
    (fun _ _ h hs k v hkv => by
      rcases List.mem_cons.mp hkv with e | hkv
      · cases e
        exact h
      · exact hs k v hkv)
    (fun _ _ h => h) v

/-- The name of a value's type. -/
def typeName : PyVal → String
  | .none => "NoneType"
  | .bool _ => "bool"
  | .int _ => "int"
  | .float _ => "float"
  | .str _ => "str"
  | .datetime _ => "datetime"
  | .date _ => "date"
  | .decimal _ => "Decimal"
  | .bytes _ => "bytes"
  | .frozenset _ => "frozenset"
  | .set _ => "set"
  | .dict _ => "dict"
  | .list _ => "list"
  | .tuple _ => "tuple"
  | .other t _ => t

/-- A value as the key of a dictionary. -/
def toKey : PyVal → PyKey
  | .str s => .str s
  | .other t i => .other t i
  | v => .other v.typeName 0

@[simp] theorem toKey_str (s : Str) : toKey (.str s) = .str s := rfl

/-! ## 1. A property of everything inside a value -/

section Everywhere

variable (p : PyVal → Prop)

mutual
/-- `p` holds of the value and of every value inside it, at any depth. -/
def everywhere : PyVal → Prop
  | .frozenset xs => p (.frozenset xs) ∧ everywhereList xs
  | .set xs => p (.set xs) ∧ everywhereList xs
  | .dict kvs => p (.dict kvs) ∧ everywhereEntries kvs
  | .list xs => p (.list xs) ∧ everywhereList xs
  | .tuple xs => p (.tuple xs) ∧ everywhereList xs
  | v => p v

def everywhereList : List PyVal → Prop
  | [] => True
  | x :: xs => everywhere x ∧ everywhereList xs

def everywhereEntries : List (PyKey × PyVal) → Prop
  | [] => True
  | (_, v) :: kvs => everywhere v ∧ everywhereEntries kvs
end

variable {p}

theorem everywhereList_iff : ∀ {xs : List PyVal},
    everywhereList p xs ↔ ∀ x ∈ xs, everywhere p x
  | [] => by simp [everywhereList]
  | x :: xs => by simp [everywhereList, @everywhereList_iff xs]

theorem everywhereEntries_iff : ∀ {kvs : List (PyKey × PyVal)},
    everywhereEntries p kvs ↔ ∀ k v, (k, v) ∈ kvs → everywhere p v
  | [] => by simp [everywhereEntries]
  | (k₀, v₀) :: kvs => by
      simp only [everywhereEntries, @everywhereEntries_iff kvs, List.mem_cons, Prod.mk.injEq]
      constructor
      · rintro ⟨h, hs⟩ k v (⟨-, rfl⟩ | hm)
        · exact h
        · exact hs k v hm
      · intro h
        exact ⟨h k₀ v₀ (Or.inl ⟨rfl, rfl⟩), fun k v hm => h k v (Or.inr hm)⟩

@[simp] theorem everywhere_frozenset {xs : List PyVal} :
    everywhere p (.frozenset xs) ↔ p (.frozenset xs) ∧ ∀ x ∈ xs, everywhere p x := by
  rw [everywhere, everywhereList_iff]

@[simp] theorem everywhere_set {xs : List PyVal} :
    everywhere p (.set xs) ↔ p (.set xs) ∧ ∀ x ∈ xs, everywhere p x := by
  rw [everywhere, everywhereList_iff]

@[simp] theorem everywhere_dict {kvs : PyDict} :
    everywhere p (.dict kvs) ↔ p (.dict kvs) ∧ ∀ k v, (k, v) ∈ kvs → everywhere p v := by
  rw [everywhere, everywhereEntries_iff]

@[simp] theorem everywhere_list {xs : List PyVal} :
    everywhere p (.list xs) ↔ p (.list xs) ∧ ∀ x ∈ xs, everywhere p x := by
  rw [everywhere, everywhereList_iff]

@[simp] theorem everywhere_tuple {xs : List PyVal} :
    everywhere p (.tuple xs) ↔ p (.tuple xs) ∧ ∀ x ∈ xs, everywhere p x := by
  rw [everywhere, everywhereList_iff]

theorem everywhere.self : ∀ {v : PyVal}, everywhere p v → p v
  | .frozenset _, h => (everywhere_frozenset.mp h).1
  | .set _, h => (everywhere_set.mp h).1
  | .dict _, h => (everywhere_dict.mp h).1
  | .list _, h => (everywhere_list.mp h).1
  | .tuple _, h => (everywhere_tuple.mp h).1
  | .none, h | .bool _, h | .int _, h | .float _, h | .str _, h | .datetime _, h | .date _, h
  | .decimal _, h | .bytes _, h | .other _ _, h => h

end Everywhere

theorem everywhere_imp₂ {p q r : PyVal → Prop} (h : ∀ v, p v → q v → r v) {v : PyVal}
    (hp : everywhere p v) (hq : everywhere q v) : everywhere r v := by
  induction v using PyVal.induct with
  | frozenset xs ih =>
    obtain ⟨hp, hps⟩ := everywhere_frozenset.mp hp
    obtain ⟨hq, hqs⟩ := everywhere_frozenset.mp hq
    exact everywhere_frozenset.mpr ⟨h _ hp hq, fun x hx => ih x hx (hps x hx) (hqs x hx)⟩
  | set xs ih =>
    obtain ⟨hp, hps⟩ := everywhere_set.mp hp
    obtain ⟨hq, hqs⟩ := everywhere_set.mp hq
    exact everywhere_set.mpr ⟨h _ hp hq, fun x hx => ih x hx (hps x hx) (hqs x hx)⟩
  | list xs ih =>
    obtain ⟨hp, hps⟩ := everywhere_list.mp hp
    obtain ⟨hq, hqs⟩ := everywhere_list.mp hq
    exact everywhere_list.mpr ⟨h _ hp hq, fun x hx => ih x hx (hps x hx) (hqs x hx)⟩
  | tuple xs ih =>
    obtain ⟨hp, hps⟩ := everywhere_tuple.mp hp
    obtain ⟨hq, hqs⟩ := everywhere_tuple.mp hq
    exact everywhere_tuple.mpr ⟨h _ hp hq, fun x hx => ih x hx (hps x hx) (hqs x hx)⟩
  | dict kvs ih =>
    obtain ⟨hp, hps⟩ := everywhere_dict.mp hp
    obtain ⟨hq, hqs⟩ := everywhere_dict.mp hq
    exact everywhere_dict.mpr ⟨h _ hp hq, fun k v hm => ih k v hm (hps k v hm) (hqs k v hm)⟩
  | _ => exact h _ hp hq

theorem everywhere_imp {p q : PyVal → Prop} (h : ∀ v, p v → q v) {v : PyVal}
    (hv : everywhere p v) : everywhere q v := everywhere_imp₂ (fun v hv _ => h v hv) hv hv

/-! ## 2. The value that is read back -/

mutual
/-- Tuples become lists; the members of a set stay as they are. -/
def stored : PyVal → PyVal
  | .list xs => .list (storedList xs)
  | .tuple xs => .list (storedList xs)
  | .dict kvs => .dict (storedEntries kvs)
  | v => v

def storedList : List PyVal → List PyVal
  | [] => []
  | x :: xs => stored x :: storedList xs

def storedEntries : List (PyKey × PyVal) → List (PyKey × PyVal)
  | [] => []
  | (k, v) :: kvs => (k, stored v) :: storedEntries kvs
end

theorem storedList_eq : ∀ xs, storedList xs = xs.map stored
  | [] => rfl
  | x :: xs => by simp [storedList, storedList_eq xs]

theorem storedEntries_eq : ∀ kvs, storedEntries kvs = kvs.map fun kv => (kv.1, stored kv.2)
  | [] => rfl
  | (k, v) :: kvs => by simp [storedEntries, storedEntries_eq kvs]

@[simp] theorem stored_list (xs : List PyVal) : stored (.list xs) = .list (xs.map stored) := by
  rw [stored, storedList_eq]

@[simp] theorem stored_tuple (xs : List PyVal) : stored (.tuple xs) = .list (xs.map stored) := by
  rw [stored, storedList_eq]

@[simp] theorem stored_dict (kvs : PyDict) :
    stored (.dict kvs) = .dict (kvs.map fun kv => (kv.1, stored kv.2)) := by
  rw [stored, storedEntries_eq]

theorem stored_idem (v : PyVal) : stored (stored v) = stored v := by
  induction v using PyVal.induct with
  | list xs ih =>
    simp only [stored_list, List.map_map, PyVal.list.injEq]
    exact List.map_congr_left ih
  | tuple xs ih =>
    simp only [stored_tuple, stored_list, List.map_map, PyVal.list.injEq]
    exact List.map_congr_left ih
  | dict kvs ih =>
    simp only [stored_dict, List.map_map, PyVal.dict.injEq]
    exact List.map_congr_left fun kv hkv => Prod.ext rfl (ih kv.1 kv.2 hkv)
  | _ => rfl

end PyVal

end JsonDatabase
