/-
  File:      JsonDatabase/Basis/Dict.lean
  Subject:   Insertion-ordered dictionaries.

  A dictionary is the list of its entries in insertion order. Storing under a key that is
  already present keeps the key's place and changes the value; a new key goes to the end.

  * `get`, `put`, `drop`, `merge`, `ofPairs` -- the operations;
  * `Distinct` -- no key occurs twice, kept by every operation;
  * `get_perm`, `perm_of_get` -- on dictionaries with distinct keys, being permutations of each
    other and answering every lookup alike are the same thing up to the values.
-/
import Mathlib.Data.List.Nodup
import Mathlib.Data.List.Perm.Basic
import Mathlib.Data.Option.Basic

namespace JsonDatabase

/-- The entries of a dictionary, in insertion order. -/
abbrev Dict (κ α : Type) := List (κ × α)

namespace Dict

variable {κ α β : Type} [DecidableEq κ]

/-! ## 1. Operations -/

/-- The value under `k`, if there is one. -/
def get : Dict κ α → κ → Option α
  | [], _ => none
  | (k', v) :: d, k => if k' = k then some v else get d k

/-- `k` is a key. -/
def contains (d : Dict κ α) (k : κ) : Bool := (get d k).isSome

/-- Store `v` under `k`: in place where the key exists, at the end where it does not. -/
def put : Dict κ α → κ → α → Dict κ α
  | [], k, v => [(k, v)]
  | (k', v') :: d, k, v => if k' = k then (k', v) :: d else (k', v') :: put d k v

/-- Remove the entry of `k`. -/
def drop : Dict κ α → κ → Dict κ α
  | [], _ => []
  | (k', v) :: d, k => if k' = k then d else (k', v) :: drop d k

/-- Store every entry of `e` in `d`, in order. -/
def merge (d e : Dict κ α) : Dict κ α := e.foldl (fun d kv => put d kv.1 kv.2) d

/-- The dictionary a sequence of pairs builds: a repeated key keeps its first place and its
    last value. -/
def ofPairs (ps : List (κ × α)) : Dict κ α := merge [] ps

/-- The keys, in order. -/
def keys (d : Dict κ α) : List κ := d.map (·.1)

/-- No key occurs twice. -/
def Distinct (d : Dict κ α) : Prop := (keys d).Nodup

instance (d : Dict κ α) : Decidable (Distinct d) := inferInstanceAs (Decidable (keys d).Nodup)

/-! ## 2. Lookup -/

@[simp] theorem get_nil (k : κ) : get ([] : Dict κ α) k = none := rfl

theorem get_cons (k' : κ) (v : α) (d : Dict κ α) (k : κ) :
    get ((k', v) :: d) k = if k' = k then some v else get d k := rfl

@[simp] theorem get_cons_self (k : κ) (v : α) (d : Dict κ α) : get ((k, v) :: d) k = some v := by
  simp [get]

theorem get_cons_ne {k' k : κ} (h : k' ≠ k) (v : α) (d : Dict κ α) :
    get ((k', v) :: d) k = get d k := by
  simp [get, h]

theorem mem_of_get : ∀ {d : Dict κ α} {k : κ} {v : α}, get d k = some v → (k, v) ∈ d
  | [], _, _, h => by simp at h
  | (k', v') :: d, k, v, h => by
      rw [get_cons] at h
      split at h
      · rename_i hk
        subst hk
        cases h
        exact List.mem_cons_self
      · exact List.mem_cons_of_mem _ (mem_of_get h)

theorem get_isSome_iff : ∀ {d : Dict κ α} {k : κ}, (get d k).isSome = true ↔ k ∈ keys d
  | [], k => by simp [keys]
  | (k', v') :: d, k => by
      rw [get_cons]
      by_cases h : k' = k
      · simp [h, keys]
      · have ih := get_isSome_iff (d := d) (k := k)
        simp only [h, if_false, ih, keys, List.map_cons, List.mem_cons]
        exact ⟨Or.inr, fun h' => h'.resolve_left fun e => h e.symm⟩

theorem mem_keys_of_get {d : Dict κ α} {k : κ} {v : α} (h : get d k = some v) : k ∈ keys d :=
  get_isSome_iff.mp (by rw [h]; rfl)

theorem ne_of_contains {d : Dict κ α} {k k' : κ} (hk : k ∉ keys d) (h : contains d k' = true) :
    k ≠ k' := fun e => hk (get_isSome_iff.mp (e ▸ h))

theorem get_eq_none_iff {d : Dict κ α} {k : κ} : get d k = none ↔ k ∉ keys d := by
  rw [← get_isSome_iff]
  cases get d k <;> simp

omit [DecidableEq κ] in
theorem mem_keys_of_mem {d : Dict κ α} {k : κ} {v : α} (h : (k, v) ∈ d) : k ∈ keys d :=
  List.mem_map_of_mem (f := (·.1)) h

omit [DecidableEq κ] in
theorem distinct_cons {k : κ} {v : α} {d : Dict κ α} :
    Distinct ((k, v) :: d) ↔ k ∉ keys d ∧ Distinct d := by
  simp [Distinct, keys]

omit [DecidableEq κ] in
@[simp] theorem distinct_nil : Distinct ([] : Dict κ α) := List.nodup_nil

theorem get_of_mem : ∀ {d : Dict κ α} {k : κ} {v : α}, Distinct d → (k, v) ∈ d → get d k = some v
  | [], _, _, _, h => by simp at h
  | (k', v') :: d, k, v, hd, h => by
      obtain ⟨hk, hd'⟩ := distinct_cons.mp hd
      rcases List.mem_cons.mp h with e | hm
      · cases e
        simp
      · have hne : k' ≠ k := fun e => hk (e ▸ mem_keys_of_mem hm)
        rw [get_cons_ne hne]
        exact get_of_mem hd' hm

theorem get_map (f : α → β) (d : Dict κ α) (k : κ) :
    get (d.map fun kv => (kv.1, f kv.2)) k = (get d k).map f := by
  induction d with
  | nil => rfl
  | cons kv d ih =>
    obtain ⟨k', v⟩ := kv
    simp only [List.map_cons, get_cons, ih]
    split <;> rfl

omit [DecidableEq κ] in
@[simp] theorem keys_map (f : α → β) (d : Dict κ α) :
    keys (d.map fun kv => (kv.1, f kv.2)) = keys d := by
  simp [keys, Function.comp_def]

/-! ## 3. Storing and removing -/

theorem get_put : ∀ (d : Dict κ α) (k : κ) (v : α) (k' : κ),
    get (put d k v) k' = if k = k' then some v else get d k'
  | [], k, v, k' => rfl
  | (k₀, v₀) :: d, k, v, k' => by
      unfold put
      by_cases h : k₀ = k
      · subst h
        by_cases h' : k₀ = k' <;> simp [get, h']
      · simp only [h, if_false, get_cons, get_put d k v k']
        by_cases h' : k₀ = k'
        · subst h'
          simp [Ne.symm h]
        · simp [h']

@[simp] theorem get_put_self (d : Dict κ α) (k : κ) (v : α) : get (put d k v) k = some v := by
  simp [get_put]

theorem get_put_ne (d : Dict κ α) {k k' : κ} (h : k ≠ k') (v : α) :
    get (put d k v) k' = get d k' := by
  simp [get_put, h]

theorem mem_keys_put {d : Dict κ α} {k : κ} {v : α} {k' : κ} :
    k' ∈ keys (put d k v) ↔ k' = k ∨ k' ∈ keys d := by
  rw [← get_isSome_iff, ← get_isSome_iff, get_put]
  by_cases h : k = k'
  · simp [h]
  · simp [h, Ne.symm h]

theorem mem_put : ∀ {d : Dict κ α} {k : κ} {v : α} {kv : κ × α},
    kv ∈ put d k v → kv = (k, v) ∨ kv ∈ d
  | [], k, v, kv, h => Or.inl (List.mem_singleton.mp h)
  | (k₀, v₀) :: d, k, v, kv, h => by
      unfold put at h
      split at h
      · rename_i hk
        subst hk
        exact (List.mem_cons.mp h).imp id (List.mem_cons_of_mem _)
      · rcases List.mem_cons.mp h with e | hm
        · exact Or.inr (e ▸ List.mem_cons_self)
        · exact (mem_put hm).imp id (List.mem_cons_of_mem _)

theorem forall_put {P : κ → α → Prop} {d : Dict κ α} (h : ∀ k v, (k, v) ∈ d → P k v) {k : κ} {v : α}
    (hv : P k v) : ∀ k' v', (k', v') ∈ put d k v → P k' v' := by
  intro k' v' hm
  rcases mem_put hm with e | hm
  · cases e
    exact hv
  · exact h k' v' hm

theorem distinct_put : ∀ {d : Dict κ α} (k : κ) (v : α), Distinct d → Distinct (put d k v)
  | [], k, v, _ => by simp [put, Distinct, keys]
  | (k₀, v₀) :: d, k, v, hd => by
      obtain ⟨hk, hd'⟩ := distinct_cons.mp hd
      unfold put
      split
      · exact distinct_cons.mpr ⟨hk, hd'⟩
      · rename_i hne
        refine distinct_cons.mpr ⟨fun h => ?_, distinct_put k v hd'⟩
        exact (mem_keys_put.mp h).elim hne hk

/-- Storing the value a key already has changes nothing. -/
theorem put_of_get : ∀ {d : Dict κ α} {k : κ} {v : α}, get d k = some v → put d k v = d
  | [], _, _, h => by simp at h
  | (k₀, v₀) :: d, k, v, h => by
      rw [get_cons] at h
      unfold put
      split at h
      · rename_i hk
        cases h
        simp [hk]
      · rename_i hk
        simp [hk, put_of_get h]

theorem put_put : ∀ (d : Dict κ α) (k : κ) (v w : α), put (put d k v) k w = put d k w
  | [], k, v, w => by simp [put]
  | (k₀, v₀) :: d, k, v, w => by
      unfold put
      by_cases h : k₀ = k
      · simp [h, put]
      · simp [h, put, put_put d k v w]

/-- Storing under a key that exists moves no key. -/
theorem keys_put : ∀ {d : Dict κ α} {k : κ}, k ∈ keys d → ∀ v, keys (put d k v) = keys d
  | [], _, h, _ => by cases h
  | (k₀, v₀) :: d, k, h, v => by
      unfold put
      split
      · rfl
      · rename_i hk
        have hm : k ∈ keys d := (List.mem_cons.mp h).resolve_left (Ne.symm hk)
        exact congrArg (List.cons k₀) (keys_put hm v)

theorem contains_put_of_mem {d : Dict κ α} {k : κ} (h : k ∈ keys d) (v : α) (k' : κ) :
    contains (put d k v) k' = contains d k' := by
  rw [Bool.eq_iff_iff, contains, contains, get_isSome_iff, get_isSome_iff, keys_put h v]

/-- A relation with the entries is kept when the new value has what the old one had. -/
theorem forall₂_put {R : κ × α → β → Prop} {d : Dict κ α} {ys : List β}
    (h : List.Forall₂ R d ys) {k : κ} {v w : α} (hk : get d k = some v)
    (hr : ∀ y, R (k, v) y → R (k, w) y) : List.Forall₂ R (put d k w) ys := by
  induction h with
  | nil => cases hk
  | @cons kv y d ys hy h ih =>
    obtain ⟨k₀, v₀⟩ := kv
    rw [get_cons] at hk
    unfold put
    split at hk
    · rename_i e
      cases hk
      subst e
      rw [if_pos rfl]
      exact .cons (hr y hy) h
    · rename_i hne
      rw [if_neg hne]
      exact .cons hy (ih hk)

/-- A new entry anywhere leaves the other keys alone. -/
theorem get_insert_ne {k k' : κ} (h : k ≠ k') (v : α) : ∀ (d e : Dict κ α),
    get (d ++ (k, v) :: e) k' = get (d ++ e) k'
  | [], e => get_cons_ne h v e
  | (k₀, v₀) :: d, e => by
      rw [List.cons_append, List.cons_append, get_cons, get_cons, get_insert_ne h v d e]

theorem map_put (f : α → β) : ∀ (d : Dict κ α) (k : κ) (v : α),
    (put d k v).map (fun kv => (kv.1, f kv.2)) = put (d.map fun kv => (kv.1, f kv.2)) k (f v)
  | [], k, v => rfl
  | (k₀, v₀) :: d, k, v => by
      unfold put
      by_cases h : k₀ = k
      · simp [h]
      · simp [h, map_put f d k v]

theorem drop_sublist : ∀ (d : Dict κ α) (k : κ), (drop d k).Sublist d
  | [], _ => List.Sublist.slnil
  | (k₀, v₀) :: d, k => by
      unfold drop
      split
      · exact List.sublist_cons_self _ _
      · exact (drop_sublist d k).cons_cons _

theorem mem_of_mem_drop {d : Dict κ α} {k : κ} {kv : κ × α} (h : kv ∈ drop d k) : kv ∈ d :=
  (drop_sublist d k).subset h

theorem distinct_drop {d : Dict κ α} (k : κ) (hd : Distinct d) : Distinct (drop d k) :=
  List.Nodup.sublist ((drop_sublist d k).map _) hd

theorem get_drop : ∀ {d : Dict κ α} (k k' : κ), Distinct d →
    get (drop d k) k' = if k = k' then none else get d k'
  | [], k, k', _ => by simp [drop]
  | (k₀, v₀) :: d, k, k', hd => by
      obtain ⟨hk, hd'⟩ := distinct_cons.mp hd
      unfold drop
      by_cases h : k₀ = k
      · subst h
        by_cases h' : k₀ = k'
        · subst h'
          simpa using get_eq_none_iff.mpr hk
        · simp [h', get_cons]
      · simp only [h, if_false, get_cons, get_drop k k' hd']
        by_cases h' : k₀ = k'
        · subst h'
          simp [Ne.symm h]
        · simp [h']

/-! ## 4. Merging -/

@[simp] theorem merge_nil (d : Dict κ α) : merge d [] = d := rfl

@[simp] theorem merge_cons (d : Dict κ α) (k : κ) (v : α) (e : Dict κ α) :
    merge d ((k, v) :: e) = merge (put d k v) e := rfl

theorem distinct_merge : ∀ {d : Dict κ α} (e : Dict κ α), Distinct d → Distinct (merge d e)
  | _, [], hd => hd
  | _, (k, v) :: e, hd => distinct_merge e (distinct_put k v hd)

theorem distinct_ofPairs (ps : List (κ × α)) : Distinct (ofPairs ps) :=
  distinct_merge ps distinct_nil

theorem mem_merge : ∀ {d e : Dict κ α} {kv : κ × α}, kv ∈ merge d e → kv ∈ d ∨ kv ∈ e
  | _, [], _, h => Or.inl h
  | _, (k, v) :: e, _, h => by
      rcases mem_merge (e := e) h with h | h
      · rcases mem_put h with h' | h'
        · exact Or.inr (h' ▸ List.mem_cons_self)
        · exact Or.inl h'
      · exact Or.inr (List.mem_cons_of_mem _ h)

theorem forall_merge {P : κ → α → Prop} {d e : Dict κ α} (h : ∀ k v, (k, v) ∈ d → P k v)
    (h' : ∀ k v, (k, v) ∈ e → P k v) : ∀ k v, (k, v) ∈ merge d e → P k v := by
  intro k v hm
  rcases mem_merge hm with hm | hm
  · exact h k v hm
  · exact h' k v hm

theorem mem_of_mem_ofPairs {ps : List (κ × α)} {kv : κ × α} (h : kv ∈ ofPairs ps) : kv ∈ ps :=
  (mem_merge h).resolve_left List.not_mem_nil

/-- **A merge is right-biased**: `e` answers where it has the key, `d` elsewhere. -/
theorem get_merge : ∀ (d : Dict κ α) {e : Dict κ α}, Distinct e → ∀ k,
    get (merge d e) k = (get e k).or (get d k)
  | _, [], _, _ => rfl
  | d, (k₀, v₀) :: e, he, k => by
      obtain ⟨hk, he'⟩ := distinct_cons.mp he
      rw [merge_cons, get_merge (put d k₀ v₀) he' k, get_put, get_cons]
      by_cases h : k₀ = k
      · subst h
        simp [get_eq_none_iff.mpr hk]
      · simp [h]

/-- Pairs whose keys differ are the dictionary they build. -/
theorem ofPairs_of_distinct {ps : Dict κ α} (h : Distinct ps) : ofPairs ps = ps := by
  suffices H : ∀ (d e : Dict κ α), Distinct (d ++ e) → merge d e = d ++ e by
    simpa [ofPairs] using H [] ps (by simpa using h)
  intro d e
  induction e generalizing d with
  | nil => intro _; simp
  | cons kv e ih =>
    obtain ⟨k, v⟩ := kv
    intro hd
    have hput : put d k v = d ++ [(k, v)] := by
      have hk : k ∉ keys d := by
        intro hk
        have hnd : (keys d ++ k :: keys e).Nodup := by simpa [Distinct, keys] using hd
        exact List.disjoint_of_nodup_append hnd hk List.mem_cons_self
      clear ih hd
      induction d with
      | nil => rfl
      | cons kv' d ih' =>
        obtain ⟨k', v'⟩ := kv'
        simp only [keys, List.map_cons, List.mem_cons, not_or] at hk
        unfold put
        rw [if_neg fun e => hk.1 e.symm, ih' hk.2]
        rfl
    rw [merge_cons, hput, ih]
    · simp
    · simpa using hd

/-! ## 5. Permuted entries -/

omit [DecidableEq κ] in
theorem distinct_perm {d e : Dict κ α} (h : d.Perm e) : Distinct d ↔ Distinct e :=
  (h.map _).nodup_iff

/-- **The order of the entries does not matter to a lookup.** -/
theorem get_perm {d e : Dict κ α} (h : d.Perm e) (hd : Distinct d) (k : κ) : get d k = get e k := by
  have he : Distinct e := (distinct_perm h).mp hd
  cases hv : get d k with
  | some v => exact (get_of_mem he (h.subset (mem_of_get hv))).symm
  | none =>
    rw [get_eq_none_iff] at hv
    exact (get_eq_none_iff.mpr fun hk => hv ((h.map _).mem_iff.mpr hk)).symm

/-- Dictionaries that answer every lookup alike are permutations of each other. -/
theorem perm_of_get {d e : Dict κ α} (hd : Distinct d) (he : Distinct e)
    (h : ∀ k, get d k = get e k) : d.Perm e := by
  refine (List.perm_ext_iff_of_nodup (List.Nodup.of_map _ hd) (List.Nodup.of_map _ he)).mpr ?_
  rintro ⟨k, v⟩
  constructor
  · intro hm
    exact mem_of_get (h k ▸ get_of_mem hd hm)
  · intro hm
    exact mem_of_get ((h k).symm ▸ get_of_mem he hm)

end Dict

end JsonDatabase
