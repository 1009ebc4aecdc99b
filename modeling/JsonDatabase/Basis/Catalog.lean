/-
  File:      JsonDatabase/Basis/Catalog.lean
  Subject:   Named collections of named items, as functions.

  * `Catalog`, `find` -- the collections and what is in them;
  * `ensure`, `store`, `erase`, `modify` -- the changes of one item, each with what it does to any
    item and to the collections there are;
  * `storeAll`, `modifyAll` -- sequences of changes in one collection;
  * `map` -- another view of the items, which every change passes through.
-/
import Mathlib.Logic.Function.Basic
import Mathlib.Data.List.Basic

namespace JsonDatabase

/-- The collections there are, and the items in each. -/
abbrev Catalog (κ ι δ : Type) := κ → Option (ι → Option δ)

namespace Catalog

variable {κ ι δ : Type}

/-- The items of a collection, none if it is missing. -/
def items (m : Catalog κ ι δ) (c : κ) : ι → Option δ := (m c).getD fun _ => none

/-- The item under `i` in the collection `c`. -/
def find (m : Catalog κ ι δ) (c : κ) (i : ι) : Option δ := m.items c i

theorem isSome_of_find {m : Catalog κ ι δ} {c : κ} {i : ι} {d : δ} (h : m.find c i = some d) :
    (m c).isSome = true := by
  cases hm : m c with
  | none =>
    rw [find, items, hm] at h
    cases h
  | some f => rfl

section

variable [DecidableEq κ]

/-- The items of one collection are changed. -/
def put (m : Catalog κ ι δ) (c : κ) (items : ι → Option δ) : Catalog κ ι δ :=
  Function.update m c (some items)

/-- The collection is created if it is missing. -/
def ensure (m : Catalog κ ι δ) (c : κ) : Catalog κ ι δ := m.put c (m.items c)

variable {m : Catalog κ ι δ} {c c' : κ} {f g : ι → Option δ}

theorem items_put : (m.put c f).items c' = if c' = c then f else m.items c' := by
  unfold items put
  by_cases h : c' = c
  · rw [h, Function.update_self, if_pos rfl]
    rfl
  · rw [Function.update_of_ne h, if_neg h]

theorem put_put : (m.put c f).put c g = m.put c g := Function.update_idem _ _ _

theorem isSome_put : (m.put c f c').isSome = true ↔ c' = c ∨ (m c').isSome = true := by
  unfold put
  by_cases h : c' = c
  · rw [h, Function.update_self]
    simp only [Option.isSome_some, true_or]
  · rw [Function.update_of_ne h]
    simp only [h, false_or]

theorem find_ensure {i : ι} : (m.ensure c).find c' i = m.find c' i := by
  unfold find ensure
  rw [items_put]
  by_cases h : c' = c
  · rw [if_pos h, h]
  · rw [if_neg h]

variable [DecidableEq ι]

/-- The item is stored, in a new collection if there is none. -/
def store (m : Catalog κ ι δ) (c : κ) (i : ι) (d : δ) : Catalog κ ι δ :=
  m.put c (Function.update (m.items c) i (some d))

def erase (m : Catalog κ ι δ) (c : κ) (i : ι) : Catalog κ ι δ :=
  m.put c (Function.update (m.items c) i none)

/-- The item is changed, if it is there. -/
def modify (m : Catalog κ ι δ) (c : κ) (i : ι) (f : δ → δ) : Catalog κ ι δ :=
  m.put c (Function.update (m.items c) i ((m.items c i).map f))

/-- Items are stored one after the other. -/
def storeAll (m : Catalog κ ι δ) (c : κ) (ps : List (ι × δ)) : Catalog κ ι δ :=
  ps.foldl (fun m p => m.store c p.1 p.2) m

/-- Items are changed one after the other. -/
def modifyAll (m : Catalog κ ι δ) (c : κ) (us : List (ι × (δ → δ))) : Catalog κ ι δ :=
  us.foldl (fun m u => m.modify c u.1 u.2) m

variable {i i' : ι} {d : δ}

/-- What a change of one item does to any item. -/
theorem find_update {o : Option δ} : (m.put c (Function.update (m.items c) i o)).find c' i' =
    if c' = c ∧ i' = i then o else m.find c' i' := by
  unfold find
  rw [items_put]
  by_cases hc : c' = c
  · rw [if_pos hc, hc]
    by_cases hi : i' = i
    · rw [if_pos ⟨rfl, hi⟩, hi, Function.update_self]
    · rw [if_neg fun h => hi h.2, Function.update_of_ne hi]
  · rw [if_neg hc, if_neg fun h => hc h.1]

theorem find_store : (m.store c i d).find c' i' = if c' = c ∧ i' = i then some d else m.find c' i' :=
  find_update

theorem find_modify {f : δ → δ} : (m.modify c i f).find c' i' =
    if c' = c ∧ i' = i then (m.find c i).map f else m.find c' i' := find_update

/-! ## Sequences -/

theorem storeAll_cons {p : ι × δ} {ps : List (ι × δ)} :
    m.storeAll c (p :: ps) = (m.store c p.1 p.2).storeAll c ps := rfl

theorem modifyAll_cons {u : ι × (δ → δ)} {us : List (ι × (δ → δ))} :
    m.modifyAll c (u :: us) = (m.modify c u.1 u.2).modifyAll c us := rfl

theorem isSome_storeAll {ps : List (ι × δ)} : ∀ {m : Catalog κ ι δ},
    (m.storeAll c ps c').isSome = true ↔ (ps ≠ [] ∧ c' = c) ∨ (m c').isSome = true := by
  induction ps with
  | nil => exact fun {m} => ⟨.inr, fun h => h.elim (fun h => absurd rfl h.1) id⟩
  | cons p ps ih =>
    intro m
    rw [storeAll_cons, ih, store, isSome_put]
    simp only [ne_eq, reduceCtorEq, not_false_eq_true, true_and]
    tauto

theorem isSome_modifyAll {us : List (ι × (δ → δ))} : ∀ {m : Catalog κ ι δ},
    (m c).isSome = true → ((m.modifyAll c us c').isSome = true ↔ (m c').isSome = true) := by
  induction us with
  | nil => exact fun _ => Iff.rfl
  | cons u us ih =>
    intro m h
    have hput : (m.modify c u.1 u.2 c).isSome = true := isSome_put.mpr (.inl rfl)
    rw [modifyAll_cons, ih hput, modify, isSome_put]
    exact ⟨fun hc => hc.elim (fun e => e ▸ h) id, .inr⟩

/-- An item that is not stored is as before. -/
theorem find_storeAll_ne {ps : List (ι × δ)} (h : c' = c → ∀ p ∈ ps, p.1 ≠ i) :
    (m.storeAll c ps).find c' i = m.find c' i := by
  induction ps generalizing m with
  | nil => rfl
  | cons p ps ih =>
    rw [storeAll_cons, ih fun hc q hq => h hc q (List.mem_cons_of_mem _ hq), find_store, if_neg]
    exact fun hp => h hp.1 p List.mem_cons_self hp.2.symm

/-- **Items with different names** are all there in the end. -/
theorem find_storeAll {ps : List (ι × δ)} (hd : (ps.map Prod.fst).Nodup) (hp : (i, d) ∈ ps) :
    (m.storeAll c ps).find c i = some d := by
  induction ps generalizing m with
  | nil => cases hp
  | cons p ps ih =>
    obtain ⟨hne, hd⟩ := List.nodup_cons.mp hd
    rw [storeAll_cons]
    rcases List.mem_cons.mp hp with rfl | hp
    · rw [find_storeAll_ne fun _ q hq e => hne (List.mem_map.mpr ⟨q, hq, e⟩), find_store,
        if_pos ⟨rfl, rfl⟩]
    · exact ih hd hp

/-- **An item is changed by every change under its name**, in their order. -/
theorem find_modifyAll {us : List (ι × (δ → δ))} : (m.modifyAll c us).find c' i =
    (m.find c' i).map fun d =>
      if c' = c then (us.filter (·.1 = i)).foldl (fun d u => u.2 d) d else d := by
  induction us generalizing m with
  | nil =>
    show m.find c' i = (m.find c' i).map fun d => if c' = c then d else d
    simp only [ite_self, Option.map_id']
  | cons u us ih =>
    rw [modifyAll_cons, ih, find_modify]
    by_cases hc : c' = c
    · subst hc
      simp only [if_pos, true_and]
      by_cases hi : i = u.1
      · subst hi
        simp only [if_true, Option.map_map, List.filter_cons, decide_true, List.foldl_cons,
          Function.comp_def]
      · have hdropped : decide (u.1 = i) = false := decide_eq_false fun e => hi e.symm
        simp only [if_neg hi, List.filter_cons, hdropped, Bool.false_eq_true, if_false]
    · rw [if_neg fun h => hc h.1]
      simp only [if_neg hc]

end

/-! ## Another view -/

section Map

variable {δ' : Type} (v : δ → δ') {m : Catalog κ ι δ} {c : κ}

/-- Every item as `v` shows it. -/
def map (m : Catalog κ ι δ) : Catalog κ ι δ' := fun c => (m c).map fun items i => (items i).map v

theorem items_map : (m.map v).items c = fun i => (m.items c i).map v := by
  unfold items map
  cases m c with
  | none => rfl
  | some f => rfl

theorem find_map {i : ι} : (m.map v).find c i = (m.find c i).map v := congrFun (items_map v) i

theorem isSome_map : (m.map v c).isSome = (m c).isSome := Option.isSome_map

variable [DecidableEq κ]

theorem map_put {f : ι → Option δ} : (m.put c f).map v = (m.map v).put c fun i => (f i).map v := by
  funext c'
  unfold map put
  by_cases h : c' = c
  · rw [h, Function.update_self, Function.update_self]
    rfl
  · rw [Function.update_of_ne h, Function.update_of_ne h]

theorem map_ensure : (m.ensure c).map v = (m.map v).ensure c := by
  rw [ensure, ensure, map_put, items_map]

variable [DecidableEq ι] {i : ι}

theorem map_put_update {o : Option δ} : (m.put c (Function.update (m.items c) i o)).map v =
    (m.map v).put c (Function.update ((m.map v).items c) i (o.map v)) := by
  rw [map_put, items_map]
  congr 1
  funext i'
  by_cases h : i' = i
  · rw [h, Function.update_self, Function.update_self]
  · rw [Function.update_of_ne h, Function.update_of_ne h]

theorem map_store {d : δ} : (m.store c i d).map v = (m.map v).store c i (v d) := map_put_update v

theorem map_erase : (m.erase c i).map v = (m.map v).erase c i := map_put_update v

theorem map_modify {f : δ → δ} {g : δ' → δ'} (h : ∀ d, v (f d) = g (v d)) :
    (m.modify c i f).map v = (m.map v).modify c i g := by
  refine (map_put_update v).trans ?_
  rw [modify, items_map, Option.map_map, Option.map_map]
  have hfun : v ∘ f = g ∘ v := funext h
  rw [hfun]

theorem map_storeAll {ps : List (ι × δ)} :
    (m.storeAll c ps).map v = (m.map v).storeAll c (ps.map fun p => (p.1, v p.2)) := by
  induction ps generalizing m with
  | nil => rfl
  | cons p ps ih =>
    rw [storeAll_cons, ih, map_store]
    rfl

theorem map_modifyAll {α : Type} {us : List α} {name : α → ι} {f : α → δ → δ} {g : α → δ' → δ'}
    (h : ∀ a d, v (f a d) = g a (v d)) :
    (m.modifyAll c (us.map fun a => (name a, f a))).map v =
      (m.map v).modifyAll c (us.map fun a => (name a, g a)) := by
  induction us generalizing m with
  | nil => rfl
  | cons a us ih =>
    rw [List.map_cons, List.map_cons, modifyAll_cons, modifyAll_cons, ih, map_modify v (h a)]

end Map

end Catalog

end JsonDatabase
