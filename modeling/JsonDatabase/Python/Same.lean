/-
  File:      JsonDatabase/Python/Same.lean
  Subject:   Equal values of equal types.

  `Same v w`: the two values differ only in the order of dictionary entries and of set members,
  at any depth. `==` would be too coarse, since it mixes `1`, `1.0` and `True`; equality of the
  model is too fine, since it sees both orders.

  * `Same` -- the relation, by its generators;
  * `Same.inversion` -- what it says constructor by constructor;
  * `DictCongruence.of_get`, `same_dict`, `Same.get` -- two dictionaries are the same iff they answer
    every lookup alike;
  * `Same.everywhere` -- properties that do not see the orders pass along it, well-formedness
    among them.
-/
import JsonDatabase.Python.Compare
import JsonDatabase.Basis.Result
import Mathlib.Data.Option.Defs

namespace JsonDatabase

open PyVal hiding none

inductive Same : PyVal → PyVal → Prop where
  | refl (v : PyVal) : Same v v
  | symm {v w : PyVal} : Same v w → Same w v
  | trans {u v w : PyVal} : Same u v → Same v w → Same u w
  | dictOrder {a b : PyDict} : a.Perm b → Same (.dict a) (.dict b)
  | setOrder {xs ys : List PyVal} : xs.Perm ys → Same (.set xs) (.set ys)
  | inList {v w : PyVal} (xs ys : List PyVal) :
      Same v w → Same (.list (xs ++ v :: ys)) (.list (xs ++ w :: ys))
  | inTuple {v w : PyVal} (xs ys : List PyVal) :
      Same v w → Same (.tuple (xs ++ v :: ys)) (.tuple (xs ++ w :: ys))
  | inDict {v w : PyVal} (a b : PyDict) (k : PyKey) :
      Same v w → Same (.dict (a ++ (k, v) :: b)) (.dict (a ++ (k, w) :: b))

/-- Two entries: one key, and the same value. -/
def SameEntry (p q : PyKey × PyVal) : Prop := p.1 = q.1 ∧ Same p.2 q.2

/-! ## 1. Whole lists and dictionaries -/

theorem same_list {xs ys : List PyVal} (h : List.Forall₂ Same xs ys) :
    Same (.list xs) (.list ys) := by
  suffices H : ∀ pre, Same (.list (pre ++ xs)) (.list (pre ++ ys)) from H []
  induction h with
  | nil => exact fun pre => .refl _
  | @cons x y xs ys hxy _ ih =>
    intro pre
    have h := ih (pre ++ [y])
    simp only [List.append_assoc, List.singleton_append] at h
    exact (Same.inList pre xs hxy).trans h

/-- A relation on values that sees neither the order of a dictionary's entries nor the difference
    between related values in them. -/
structure DictCongruence (R : PyVal → PyVal → Prop) : Prop where
  refl : ∀ v, R v v
  trans : ∀ u v w, R u v → R v w → R u w
  dictOrder : ∀ a b : PyDict, a.Perm b → R (.dict a) (.dict b)
  inDict : ∀ (v w : PyVal) (a b : PyDict) (k : PyKey), R v w →
    R (.dict (a ++ (k, v) :: b)) (.dict (a ++ (k, w) :: b))

/-- Two entries: one key, and related values. -/
def RelEntry (R : PyVal → PyVal → Prop) (p q : PyKey × PyVal) : Prop := p.1 = q.1 ∧ R p.2 q.2

theorem DictCongruence.entries {R : PyVal → PyVal → Prop} (hR : DictCongruence R) {a b : PyDict}
    (h : List.Forall₂ (RelEntry R) a b) : R (.dict a) (.dict b) := by
  suffices H : ∀ pre, R (.dict (pre ++ a)) (.dict (pre ++ b)) from H []
  induction h with
  | nil => exact fun pre => hR.refl _
  | @cons p q a b hpq _ ih =>
    intro pre
    obtain ⟨k, v⟩ := p
    obtain ⟨k', w⟩ := q
    obtain ⟨hk, hv⟩ := hpq
    cases hk
    have h := ih (pre ++ [(k, w)])
    simp only [List.append_assoc, List.singleton_append] at h
    exact hR.trans _ _ _ (hR.inDict v w pre a k hv) h

theorem same_congruence : DictCongruence Same where
  refl := .refl
  trans _ _ _ := .trans
  dictOrder _ _ := .dictOrder
  inDict _ _ a b k := .inDict a b k

theorem same_entries {a b : PyDict} (h : List.Forall₂ SameEntry a b) :
    Same (.dict a) (.dict b) := same_congruence.entries h

/-! ## 2. Inversion -/

/-- The relation, constructor by constructor. -/
inductive SameShape : PyVal → PyVal → Prop where
  | eq (v : PyVal) : SameShape v v
  | list {xs ys : List PyVal} : List.Forall₂ Same xs ys → SameShape (.list xs) (.list ys)
  | tuple {xs ys : List PyVal} : List.Forall₂ Same xs ys → SameShape (.tuple xs) (.tuple ys)
  | set {xs ys : List PyVal} : xs.Perm ys → SameShape (.set xs) (.set ys)
  | dict {a b c : PyDict} : a.Perm c → List.Forall₂ SameEntry c b → SameShape (.dict a) (.dict b)

theorem forall₂_same_refl (xs : List PyVal) : List.Forall₂ Same xs xs := by
  induction xs with
  | nil => exact .nil
  | cons x xs ih => exact .cons (.refl x) ih

theorem sameEntry_refl (a : PyDict) : List.Forall₂ SameEntry a a := by
  induction a with
  | nil => exact .nil
  | cons p a ih => exact .cons ⟨rfl, .refl _⟩ ih

theorem same_trans (u v w : PyVal) (h : Same u v) (h' : Same v w) : Same u w := h.trans h'

theorem SameEntry.symm (p q : PyKey × PyVal) (h : SameEntry p q) : SameEntry q p :=
  ⟨h.1.symm, h.2.symm⟩

theorem SameEntry.trans (p q r : PyKey × PyVal) (h : SameEntry p q) (h' : SameEntry q r) :
    SameEntry p r :=
  ⟨h.1.trans h'.1, h.2.trans h'.2⟩

theorem SameShape.symm {v w : PyVal} (h : SameShape v w) : SameShape w v := by
  cases h with
  | eq v => exact .eq v
  | list h => exact .list (forall₂_symm (fun _ _ => Same.symm) h)
  | tuple h => exact .tuple (forall₂_symm (fun _ _ => Same.symm) h)
  | set h => exact .set h.symm
  | dict hp h =>
    obtain ⟨d, hd, hp'⟩ := forall₂_perm h hp.symm
    exact .dict hp' (forall₂_symm SameEntry.symm hd)

theorem SameShape.trans {u v w : PyVal} (h : SameShape u v) (h' : SameShape v w) :
    SameShape u w := by
  cases h with
  | eq v => exact h'
  | list h =>
    cases h' with
    | eq => exact .list h
    | list h' => exact .list (forall₂_trans same_trans h h')
  | tuple h =>
    cases h' with
    | eq => exact .tuple h
    | tuple h' => exact .tuple (forall₂_trans same_trans h h')
  | set h =>
    cases h' with
    | eq => exact .set h
    | set h' => exact .set (h.trans h')
  | dict hp h =>
    cases h' with
    | eq => exact .dict hp h
    | dict hp' h' =>
      -- the permutation of the middle dictionary moves to the left of the entries
      obtain ⟨c', hc, hp''⟩ := forall₂_perm (forall₂_symm SameEntry.symm h) hp'
      exact .dict (hp.trans hp'') (forall₂_trans SameEntry.trans (forall₂_symm SameEntry.symm hc) h')

theorem Same.inversion {v w : PyVal} (h : Same v w) : SameShape v w := by
  induction h with
  | refl v => exact .eq v
  | symm _ ih => exact ih.symm
  | trans _ _ ih ih' => exact ih.trans ih'
  | dictOrder hp => exact .dict hp (sameEntry_refl _)
  | setOrder hp => exact .set hp
  | inList xs ys h _ => exact .list (List.rel_append (forall₂_same_refl xs)
      (.cons h (forall₂_same_refl ys)))
  | inTuple xs ys h _ => exact .tuple (List.rel_append (forall₂_same_refl xs)
      (.cons h (forall₂_same_refl ys)))
  | inDict a b k h _ => exact .dict (.refl _) (List.rel_append (sameEntry_refl a)
      (.cons ⟨rfl, h⟩ (sameEntry_refl b)))

/-! ## 3. Dictionaries by their lookups -/

theorem keys_relEntry {R : PyVal → PyVal → Prop} {a b : PyDict}
    (h : List.Forall₂ (RelEntry R) a b) : Dict.keys a = Dict.keys b := by
  induction h with
  | nil => rfl
  | cons hpq _ ih => exact congrArg₂ List.cons hpq.1 ih

theorem get_relEntry {R : PyVal → PyVal → Prop} {a b : PyDict}
    (h : List.Forall₂ (RelEntry R) a b) (k : PyKey) :
    Option.Rel R (Dict.get a k) (Dict.get b k) := by
  induction h with
  | nil => exact .none
  | @cons p q a b hpq _ ih =>
    obtain ⟨k', v⟩ := p
    obtain ⟨k'', w⟩ := q
    obtain ⟨hk, hv⟩ := hpq
    cases hk
    by_cases hk : k' = k
    · subst hk
      rw [Dict.get_cons_self, Dict.get_cons_self]
      exact .some hv
    · rw [Dict.get_cons_ne hk, Dict.get_cons_ne hk]
      exact ih

theorem Same.dict_left {a : PyDict} {w : PyVal} (h : Same (.dict a) w) : ∃ b, w = .dict b := by
  cases h.inversion with
  | eq => exact ⟨a, rfl⟩
  | dict hp h => exact ⟨_, rfl⟩

/-- **The same dictionaries answer alike.** -/
theorem Same.get {a b : PyDict} (h : Same (.dict a) (.dict b)) (ha : Dict.Distinct a) (k : PyKey) :
    Option.Rel Same (Dict.get a k) (Dict.get b k) := by
  cases h.inversion with
  | eq =>
    cases Dict.get a k with
    | none => exact .none
    | some v => exact .some (.refl v)
  | dict hp h =>
    rw [Dict.get_perm hp ha]
    exact get_relEntry h k

theorem Same.distinct {a b : PyDict} (h : Same (.dict a) (.dict b)) (ha : Dict.Distinct a) :
    Dict.Distinct b := by
  cases h.inversion with
  | eq => exact ha
  | dict hp h =>
    have hc := (Dict.distinct_perm hp).mp ha
    unfold Dict.Distinct at hc ⊢
    rwa [← keys_relEntry h]

/-- **Dictionaries that answer alike are related.** -/
theorem DictCongruence.of_get {R : PyVal → PyVal → Prop} (hR : DictCongruence R) {a b : PyDict}
    (ha : Dict.Distinct a) (hb : Dict.Distinct b)
    (h : ∀ k, Option.Rel R (Dict.get a k) (Dict.get b k)) : R (.dict a) (.dict b) := by
  -- the values of `b` in the order of `a`
  let c : PyDict := a.map fun kv => (kv.1, (Dict.get b kv.1).getD kv.2)
  have hac : List.Forall₂ (RelEntry R) a c := by
    refine List.forall₂_map_right_iff.mpr (List.forall₂_same.mpr fun kv hkv => ⟨rfl, ?_⟩)
    have hk := h kv.1
    rw [Dict.get_of_mem ha hkv] at hk
    show R kv.2 ((Dict.get b kv.1).getD kv.2)
    generalize Dict.get b kv.1 = o at hk
    cases hk with
    | some h => exact h
  have hc : Dict.Distinct c := by
    unfold Dict.Distinct at ha ⊢
    rwa [← keys_relEntry hac]
  refine hR.trans _ _ _ (hR.entries hac) (hR.dictOrder _ _ (Dict.perm_of_get hc hb fun k => ?_))
  have h1 := get_relEntry hac k
  have h2 := h k
  cases hb' : Dict.get b k with
  | none =>
    rw [hb'] at h2
    generalize hak : Dict.get a k = o at h1 h2
    cases h2
    generalize Dict.get c k = o' at h1
    cases h1
    rfl
  | some w =>
    rw [hb'] at h2
    generalize hak : Dict.get a k = o at h1 h2
    obtain ⟨v, rfl⟩ : ∃ v, o = some v := by
      cases h2
      exact ⟨_, rfl⟩
    have hm : (k, (Dict.get b k).getD v) ∈ c :=
      List.mem_map.mpr ⟨(k, v), Dict.mem_of_get hak, rfl⟩
    rw [Dict.get_of_mem hc hm, hb']
    rfl

theorem same_dict {a b : PyDict} (ha : Dict.Distinct a) (hb : Dict.Distinct b)
    (h : ∀ k, Option.Rel Same (Dict.get a k) (Dict.get b k)) : Same (.dict a) (.dict b) :=
  same_congruence.of_get ha hb h

/-- One entry changed on both sides. -/
theorem DictCongruence.put {R : PyVal → PyVal → Prop} (hR : DictCongruence R) {a b : PyDict}
    (ha : Dict.Distinct a) (hb : Dict.Distinct b)
    (h : ∀ k, Option.Rel R (Dict.get a k) (Dict.get b k)) (k : PyKey) {v w : PyVal} (hv : R v w) :
    R (.dict (Dict.put a k v)) (.dict (Dict.put b k w)) := by
  refine hR.of_get (Dict.distinct_put k v ha) (Dict.distinct_put k w hb) fun k' => ?_
  rw [Dict.get_put, Dict.get_put]
  split
  · exact .some hv
  · exact h k'

/-! ## 4. Properties that do not see the orders -/

/-- A property of the top of a value that sees neither order nor what a value's entries hold. -/
structure OrderFree (p : PyVal → Prop) : Prop where
  dict : ∀ {a b : PyDict}, (Dict.keys a).Perm (Dict.keys b) → p (.dict a) → p (.dict b)
  set : ∀ {xs ys : List PyVal}, xs.Perm ys → p (.set xs) → p (.set ys)
  list : ∀ {xs ys : List PyVal}, p (.list xs) → p (.list ys)
  tuple : ∀ {xs ys : List PyVal}, p (.tuple xs) → p (.tuple ys)

/-- **Such a property holds everywhere in both values or in neither.** -/
theorem Same.everywhere {p : PyVal → Prop} (hp : OrderFree p) {v w : PyVal} (h : Same v w) :
    everywhere p v ↔ everywhere p w := by
  induction h with
  | refl v => exact Iff.rfl
  | symm _ ih => exact ih.symm
  | trans _ _ ih ih' => exact ih.trans ih'
  | dictOrder h =>
    have hk := h.map (·.1)
    simp only [everywhere_dict, h.mem_iff]
    exact and_congr_left' ⟨hp.dict hk, hp.dict hk.symm⟩
  | setOrder h =>
    simp only [everywhere_set, h.mem_iff]
    exact and_congr_left' ⟨hp.set h, hp.set h.symm⟩
  | inList xs ys _ ih =>
    simp only [everywhere_list, List.forall_mem_append, List.forall_mem_cons, ih]
    exact and_congr_left' ⟨hp.list, hp.list⟩
  | inTuple xs ys _ ih =>
    simp only [everywhere_tuple, List.forall_mem_append, List.forall_mem_cons, ih]
    exact and_congr_left' ⟨hp.tuple, hp.tuple⟩
  | @inDict v w a b k _ ih =>
    have hk : Dict.keys (a ++ (k, v) :: b) = Dict.keys (a ++ (k, w) :: b) := by
      simp [Dict.keys]
    have hm (x : PyVal) : (∀ k' v', (k', v') ∈ a ++ (k, x) :: b → PyVal.everywhere p v') ↔
        (∀ k' v', (k', v') ∈ a → PyVal.everywhere p v') ∧ PyVal.everywhere p x ∧
          ∀ k' v', (k', v') ∈ b → PyVal.everywhere p v' := by
      simp only [List.mem_append, List.mem_cons, Prod.mk.injEq]
      refine ⟨fun h => ⟨fun k' v' hm => h k' v' (Or.inl hm), h k x (Or.inr (Or.inl ⟨rfl, rfl⟩)),
        fun k' v' hm => h k' v' (Or.inr (Or.inr hm))⟩, fun h k' v' hm => ?_⟩
      rcases hm with hm | ⟨rfl, rfl⟩ | hm
      · exact h.1 k' v' hm
      · exact h.2.1
      · exact h.2.2 k' v' hm
    simp only [everywhere_dict, hm, ih]
    exact and_congr_left' ⟨hp.dict (by rw [hk]), hp.dict (by rw [hk])⟩

theorem setLike_perm {xs ys : List PyVal} (h : xs.Perm ys) (hx : SetLike xs) : SetLike ys :=
  ⟨fun y hy => hx.1 y (h.mem_iff.mpr hy), (h.pairwise_iff fun h => ⟨h.2, h.1⟩).mp hx.2⟩

theorem orderFree_localWf : OrderFree localWf where
  dict h hd := h.nodup_iff.mp hd
  set h hx := setLike_perm h hx
  list _ := trivial
  tuple _ := trivial

theorem Same.wf_iff {v w : PyVal} (h : Same v w) : v.wf ↔ w.wf := h.everywhere orderFree_localWf

/-- Reading back does not see the orders either. -/
theorem Same.stored {v w : PyVal} (h : Same v w) : Same (stored v) (stored w) := by
  induction h with
  | refl v => exact .refl _
  | symm _ ih => exact ih.symm
  | trans _ _ ih ih' => exact ih.trans ih'
  | dictOrder h =>
    rw [stored_dict, stored_dict]
    exact .dictOrder (h.map _)
  | setOrder h => exact .setOrder h
  | inList xs ys _ ih =>
    simp only [stored_list, List.map_append, List.map_cons]
    exact .inList _ _ ih
  | inTuple xs ys _ ih =>
    simp only [stored_tuple, List.map_append, List.map_cons]
    exact .inList _ _ ih
  | inDict a b k _ ih =>
    simp only [stored_dict, List.map_append, List.map_cons]
    exact .inDict _ _ k ih

/-! ## 5. Well-formed dictionaries -/

theorem wf_put {d : PyDict} (h : (PyVal.dict d).wf) (k : PyKey) {v : PyVal} (hv : v.wf) :
    (PyVal.dict (Dict.put d k v)).wf :=
  everywhere_dict.mpr ⟨Dict.distinct_put k v (everywhere_dict.mp h).1,
    Dict.forall_put (everywhere_dict.mp h).2 hv⟩

theorem wf_getD {d : PyDict} (h : (PyVal.dict d).wf) (k : PyKey) {v : PyVal} (hv : v.wf) :
    ((Dict.get d k).getD v).wf := by
  cases hg : Dict.get d k with
  | none => exact hv
  | some w => exact (everywhere_dict.mp h).2 k w (Dict.mem_of_get hg)

theorem wf_empty : (PyVal.dict []).wf :=
  everywhere_dict.mpr ⟨List.nodup_nil, fun _ _ h => absurd h List.not_mem_nil⟩

end JsonDatabase
