/-
  File:      JsonDatabase/QueryLaws.lean
  Subject:   Comparisons and queries do not see the orders inside a value.

  `==` agrees on two values that differ only in the order of entries and members, except that it
  may meet a signaling NaN in one of them and a difference in the other. The orderings, `in` and
  whole queries follow.

  * `Same.pyEq`, `eqVals_agree`, `compareVals_agree`, `pyContains_agree` -- the comparisons;
  * `stored_indistinct` -- nor do they see that a tuple has become a list, unless they compare it with
    a sequence;
  * `matches_agree` -- criteria on a document and on what is read back of it.
-/
import JsonDatabase.Query
import JsonDatabase.RoundTrip
import JsonDatabase.Python.Equality

namespace JsonDatabase

open PyVal hiding none

/-! ## 1. Equality -/

theorem subset_perm {xs xs' ys ys' : List PyVal} (hx : xs.Perm xs') (hy : ys.Perm ys') :
    subset xs ys = subset xs' ys' := by
  rw [Bool.eq_iff_iff, subset_iff, subset_iff]
  simp only [hx.mem_iff, hy.mem_iff]

theorem eqEntries_perm {a a' b b' : PyDict} (ha : a.Perm a') (hb : b.Perm b')
    (hd : Dict.Distinct b) : eqEntries a b = eqEntries a' b' := by
  rw [Bool.eq_iff_iff, eqEntries_iff, eqEntries_iff]
  simp only [ha.mem_iff, Dict.get_perm hb hd]

/-- Lists that differ in one place, against a third. -/
theorem eqList_hole {v w : PyVal} (h : ∀ e, e.wf → pyEq v e = pyEq w e ∧ pyEq e v = pyEq e w)
    (ys : List PyVal) : ∀ xs zs : List PyVal, (∀ z ∈ zs, z.wf) →
      eqList (xs ++ v :: ys) zs = eqList (xs ++ w :: ys) zs ∧
        eqList zs (xs ++ v :: ys) = eqList zs (xs ++ w :: ys)
  | [], [], _ => by simp [eqList]
  | [], z :: zs, hz => by
      obtain ⟨h1, h2⟩ := h z (hz z List.mem_cons_self)
      simp only [List.nil_append, eqList, h1, h2, and_self]
  | x :: xs, [], _ => by simp [eqList]
  | x :: xs, z :: zs, hz => by
      obtain ⟨h1, h2⟩ := eqList_hole h ys xs zs fun z hz' => hz z (List.mem_cons_of_mem _ hz')
      simp only [List.cons_append, eqList, h1, h2, and_self]

theorem get_hole (a b : PyDict) (k k' : PyKey) :
    (∃ o, ∀ v, Dict.get (a ++ (k, v) :: b) k' = o) ∨
      ∀ v, Dict.get (a ++ (k, v) :: b) k' = some v := by
  induction a with
  | nil =>
    by_cases hk : k = k'
    · subst hk
      exact Or.inr fun v => Dict.get_cons_self _ _ _
    · exact Or.inl ⟨Dict.get b k', fun v => Dict.get_cons_ne hk _ _⟩
  | cons p a ih =>
    obtain ⟨k₀, v₀⟩ := p
    by_cases hk : k₀ = k'
    · subst hk
      exact Or.inl ⟨some v₀, fun v => Dict.get_cons_self _ _ _⟩
    · simp only [List.cons_append, Dict.get_cons_ne hk]
      exact ih

/-- Dictionaries that differ in one value, against a third. -/
theorem eqEntries_hole {v w : PyVal} (h : ∀ e, e.wf → pyEq v e = pyEq w e ∧ pyEq e v = pyEq e w)
    (a b : PyDict) (k : PyKey) {c : PyDict} (hc : ∀ k x, (k, x) ∈ c → x.wf) :
    eqEntries (a ++ (k, v) :: b) c = eqEntries (a ++ (k, w) :: b) c ∧
      eqEntries c (a ++ (k, v) :: b) = eqEntries c (a ++ (k, w) :: b) := by
  constructor
  · rw [Bool.eq_iff_iff, eqEntries_iff, eqEntries_iff]
    simp only [List.forall_mem_append, List.forall_mem_cons]
    refine and_congr_right fun _ => and_congr_left fun _ => exists_congr fun z => ?_
    refine and_congr_right fun hz => ?_
    rw [(h z (hc k z (Dict.mem_of_get hz))).1]
  · rw [Bool.eq_iff_iff, eqEntries_iff, eqEntries_iff]
    refine forall₂_congr fun kv hkv => ?_
    rcases get_hole a b k kv.1 with ⟨o, ho⟩ | ho
    · rw [ho, ho]
    · rw [ho, ho]
      simp only [Option.some.injEq, exists_eq_left']
      rw [(h kv.2 (hc kv.1 kv.2 hkv)).2]

/-- **`==` does not see the orders**, on either side. -/
theorem Same.pyEq {v w : PyVal} (h : Same v w) (hv : v.wf) {e : PyVal} (he : e.wf) :
    PyVal.pyEq v e = PyVal.pyEq w e ∧ PyVal.pyEq e v = PyVal.pyEq e w := by
  induction h generalizing e with
  | refl v => exact ⟨rfl, rfl⟩
  | symm h ih => exact ⟨(ih (h.wf_iff.mpr hv) he).1.symm, (ih (h.wf_iff.mpr hv) he).2.symm⟩
  | trans h h' ih ih' =>
    obtain ⟨h1, h2⟩ := ih hv he
    obtain ⟨h3, h4⟩ := ih' (h.wf_iff.mp hv) he
    exact ⟨h1.trans h3, h2.trans h4⟩
  | @dictOrder a b hp =>
    obtain ⟨hd, -⟩ := everywhere_dict.mp hv
    cases e with
    | dict c =>
      obtain ⟨hc, -⟩ := everywhere_dict.mp he
      simp only [PyVal.pyEq, hp.length_eq, eqEntries_perm hp (.refl c) hc,
        eqEntries_perm (.refl c) hp hd, and_self]
    | _ => simp [PyVal.pyEq, num, numEq, members]
  | @setOrder xs ys hp =>
    cases e with
    | set zs =>
      simp only [PyVal.pyEq, members, hp.length_eq, subset_perm hp (.refl zs),
        subset_perm (.refl zs) hp, and_self]
    | frozenset zs =>
      simp only [PyVal.pyEq, members, hp.length_eq, subset_perm hp (.refl zs),
        subset_perm (.refl zs) hp, and_self]
    | _ => simp [PyVal.pyEq, num, numEq, members]
  | @inList v w xs ys _ ih =>
    have hv := (everywhere_list.mp hv).2 v (by simp)
    cases e with
    | list zs =>
      simp only [PyVal.pyEq]
      exact eqList_hole (fun e he => ih hv he) ys xs zs (everywhere_list.mp he).2
    | _ => simp [PyVal.pyEq, num, numEq, members]
  | @inTuple v w xs ys _ ih =>
    have hv := (everywhere_tuple.mp hv).2 v (by simp)
    cases e with
    | tuple zs =>
      simp only [PyVal.pyEq]
      exact eqList_hole (fun e he => ih hv he) ys xs zs (everywhere_tuple.mp he).2
    | _ => simp [PyVal.pyEq, num, numEq, members]
  | @inDict v w a b k _ ih =>
    have hv := (everywhere_dict.mp hv).2 k v (by simp)
    cases e with
    | dict c =>
      obtain ⟨h1, h2⟩ := eqEntries_hole (fun e he => ih hv he) a b k (everywhere_dict.mp he).2
      simp only [PyVal.pyEq, List.length_append, List.length_cons, h1, h2, and_self]
    | _ => simp [PyVal.pyEq, num, numEq, members]

/-- No signaling NaN inside. -/
def quiet (v : PyVal) : Prop := everywhere (fun x => x.isSNaN = false) v

theorem raisesList_quiet : ∀ {xs ys : List PyVal}, (∀ x ∈ xs, ∀ y ∈ ys, eqRaises x y = false) →
    raisesList xs ys = false
  | [], _, _ => by simp [raisesList]
  | x :: xs, [], _ => by simp [raisesList]
  | x :: xs, y :: ys, h => by
      rw [raisesList, h x List.mem_cons_self y List.mem_cons_self,
        raisesList_quiet fun x hx y hy => h x (List.mem_cons_of_mem _ hx) y (List.mem_cons_of_mem _ hy)]
      simp

theorem raisesEntries_quiet {b : PyDict} : ∀ {a : List (PyKey × PyVal)},
    (∀ kv ∈ a, ∀ w, (kv.1, w) ∈ b → eqRaises kv.2 w = false) → raisesEntries a b = false
  | [], _ => rfl
  | (k, v) :: a, h => by
      rw [raisesEntries]
      split
      · rename_i w hw
        rw [h (k, v) List.mem_cons_self w (Dict.mem_of_get hw),
          raisesEntries_quiet fun kv hkv => h kv (List.mem_cons_of_mem _ hkv)]
        simp
      · rfl

/-- **`==` raises only where it meets a signaling NaN.** -/
theorem eqRaises_quiet {v e : PyVal} (hv : quiet v) (he : quiet e) : eqRaises v e = false := by
  have number {v : PyVal} (hv : quiet v) : numRaises v e = false := by
    rw [numRaises, hv.self, he.self]
    rfl
  induction v using PyVal.induct generalizing e with
  | list xs ih =>
    cases e with
    | list ys =>
      rw [eqRaises, raisesList_quiet fun x hx y hy => ih x hx ((everywhere_list.mp hv).2 x hx)
        ((everywhere_list.mp he).2 y hy) ?_, Bool.and_false]
      intro v hv
      rw [numRaises, hv.self, ((everywhere_list.mp he).2 y hy : quiet y).self]
      rfl
    | _ => rfl
  | tuple xs ih =>
    cases e with
    | tuple ys =>
      rw [eqRaises, raisesList_quiet fun x hx y hy => ih x hx ((everywhere_tuple.mp hv).2 x hx)
        ((everywhere_tuple.mp he).2 y hy) ?_]
      intro v hv
      rw [numRaises, hv.self, ((everywhere_tuple.mp he).2 y hy : quiet y).self]
      rfl
    | _ => rfl
  | dict a ih =>
    cases e with
    | dict b =>
      rw [eqRaises, raisesEntries_quiet fun kv hkv w hw => ih kv.1 kv.2 hkv
        ((everywhere_dict.mp hv).2 _ _ hkv) ((everywhere_dict.mp he).2 _ _ hw) ?_, Bool.and_false]
      intro v hv
      rw [numRaises, hv.self, ((everywhere_dict.mp he).2 _ _ hw : quiet w).self]
      rfl
    | _ => rfl
  | bool b => exact number hv
  | int i => exact number hv
  | float f => exact number hv
  | decimal d => exact number hv
  | _ => simp [eqRaises]

theorem orderFree_quiet : OrderFree fun x => x.isSNaN = false where
  dict _ _ := rfl
  set _ _ := rfl
  list _ := rfl
  tuple _ := rfl

theorem Same.quiet {v w : PyVal} (h : Same v w) (hv : quiet v) : JsonDatabase.quiet w :=
  (h.everywhere orderFree_quiet).mp hv

/-- `==` on both: the same answer, unless one meets a signaling NaN. -/
theorem eqVals_agree {v w e : PyVal} (h : Same v w) (hv : v.wf) (hq : quiet v) (he : e.wf) :
    Agree (quiet e) .invalidOperation (eqVals v e) (eqVals w e) := by
  rw [eqVals, eqVals, (h.pyEq hv he).1]
  exact .guard (eqRaises_quiet hq) (eqRaises_quiet (h.quiet hq)) (.refl _)

/-! ## 2. Orderings and membership -/

theorem compareSets_perm {op : CmpOp} {xs ys : List PyVal} (h : xs.Perm ys) (zs : List PyVal) :
    compareSets op xs zs = compareSets op ys zs := by
  cases op <;> simp only [compareSets, h.length_eq, subset_perm h (.refl zs),
    subset_perm (.refl zs) h]

theorem compareList_agree {op : CmpOp} {xs ys : List PyVal} (h : List.Forall₂ Same xs ys)
    (ih : ∀ x ∈ xs, ∀ y, Same x y → ∀ e : PyVal, e.wf →
      Agree (quiet e) .invalidOperation (compareVals op x e) (compareVals op y e))
    (hw : ∀ x ∈ xs, x.wf) (hq : ∀ x ∈ xs, quiet x) {zs : List PyVal} (hz : ∀ z ∈ zs, z.wf) :
    Agree (∀ z ∈ zs, quiet z) .invalidOperation (compareList op xs zs) (compareList op ys zs) := by
  induction h generalizing zs with
  | nil => exact .refl _
  | @cons x y xs ys hxy _ ihs =>
    cases zs with
    | nil =>
      rw [compareList, compareList]
      exact .refl _
    | cons z zs =>
      have hzw := hz z List.mem_cons_self
      have hxq := hq x List.mem_cons_self
      rw [compareList, compareList, (hxy.pyEq (hw x List.mem_cons_self) hzw).1]
      refine .guard (fun q => eqRaises_quiet hxq (q z List.mem_cons_self))
        (fun q => eqRaises_quiet (hxy.quiet hxq) (q z List.mem_cons_self)) ?_
      split
      · exact (ihs (fun x hx => ih x (List.mem_cons_of_mem _ hx))
          (fun x hx => hw x (List.mem_cons_of_mem _ hx))
          (fun x hx => hq x (List.mem_cons_of_mem _ hx))
          (fun z hz' => hz z (List.mem_cons_of_mem _ hz'))).mono
            fun q z hz' => q z (List.mem_cons_of_mem _ hz')
      · exact (ih x List.mem_cons_self y hxy z hzw).mono fun q => q z List.mem_cons_self

/-- **The orderings agree** on two values that differ in their orders. -/
theorem compareVals_agree {op : CmpOp} {v w e : PyVal} (h : Same v w) (hv : v.wf) (hq : quiet v)
    (he : e.wf) : Agree (quiet e) .invalidOperation (compareVals op v e) (compareVals op w e) := by
  induction v using PyVal.induct generalizing w e with
  | list xs ih =>
    cases h.inversion with
    | eq => exact .refl _
    | list hxs =>
      cases e with
      | list zs =>
        obtain ⟨-, hv⟩ := everywhere_list.mp hv
        obtain ⟨-, hq⟩ := everywhere_list.mp hq
        rw [compareVals, compareVals]
        exact (compareList_agree hxs (fun x hx y hxy e he => ih x hx hxy (hv x hx) (hq x hx) he)
          hv hq (everywhere_list.mp he).2).mono fun q => (everywhere_list.mp q).2
      | _ =>
        simp only [compareVals]
        exact .refl _
  | tuple xs ih =>
    cases h.inversion with
    | eq => exact .refl _
    | tuple hxs =>
      cases e with
      | tuple zs =>
        obtain ⟨-, hv⟩ := everywhere_tuple.mp hv
        obtain ⟨-, hq⟩ := everywhere_tuple.mp hq
        rw [compareVals, compareVals]
        exact (compareList_agree hxs (fun x hx y hxy e he => ih x hx hxy (hv x hx) (hq x hx) he)
          hv hq (everywhere_tuple.mp he).2).mono fun q => (everywhere_tuple.mp q).2
      | _ =>
        simp only [compareVals]
        exact .refl _
  | set xs ih =>
    cases h.inversion with
    | eq => exact .refl _
    | set hp =>
      cases e with
      | set zs =>
        simp only [compareVals, members, compareSets_perm hp]
        exact .refl _
      | frozenset zs =>
        simp only [compareVals, members, compareSets_perm hp]
        exact .refl _
      | _ =>
        simp only [compareVals, members]
        exact .refl _
  | dict a ih =>
    cases h.inversion with
    | eq => exact .refl _
    | dict _ _ =>
      simp only [compareVals]
      exact .refl _
  | _ =>
    cases h.inversion with
    | eq => exact .refl _

/-- One search in two lists, each for its own value. -/
theorem containsList_agree {q : Prop} {e e' : PyVal} {xs ys : List PyVal}
    (h : List.Forall₂ (fun x y => pyEq x e = pyEq y e' ∧
      (q → eqRaises x e = false ∧ eqRaises y e' = false)) xs ys) :
    Agree q .invalidOperation (containsList e xs) (containsList e' ys) := by
  induction h with
  | nil => exact .refl _
  | cons hxy _ ih =>
    rw [containsList, containsList, hxy.1]
    refine .guard (fun q => (hxy.2 q).1) (fun q => (hxy.2 q).2) ?_
    split
    · exact .refl _
    · exact ih

/-- **`in` agrees** on two containers that differ in their orders. -/
theorem pyContains_agree {v w e : PyVal} (h : Same v w) (hv : v.wf) (hq : quiet v) (he : e.wf) :
    Agree (quiet e) .invalidOperation (pyContains v e) (pyContains w e) := by
  have items {xs ys : List PyVal} (hs : List.Forall₂ Same xs ys) (hv : ∀ x ∈ xs, x.wf)
      (hq : ∀ x ∈ xs, quiet x) :
      Agree (quiet e) .invalidOperation (containsList e xs) (containsList e ys) :=
    containsList_agree (forall₂_imp_mem hs fun x hx y _ hxy => ⟨(hxy.pyEq (hv x hx) he).1,
      fun q => ⟨eqRaises_quiet (hq x hx) q, eqRaises_quiet (hxy.quiet (hq x hx)) q⟩⟩)
  cases h.inversion with
  | eq => exact .refl _
  | list hs => exact items hs (everywhere_list.mp hv).2 (everywhere_list.mp hq).2
  | tuple hs => exact items hs (everywhere_tuple.mp hv).2 (everywhere_tuple.mp hq).2
  | @set xs ys hp =>
    have hany : (xs.any fun x => PyVal.pyEq x e) = ys.any fun x => PyVal.pyEq x e := by
      rw [Bool.eq_iff_iff, List.any_eq_true, List.any_eq_true]
      simp only [hp.mem_iff]
    simp only [pyContains, hany]
    exact .refl _
  | @dict a b _ _ _ =>
    have hk : Dict.contains a e.toKey = Dict.contains b e.toKey := by
      have hg := h.get (everywhere_dict.mp hv).1 e.toKey
      unfold Dict.contains
      generalize Dict.get a e.toKey = o at hg ⊢
      generalize Dict.get b e.toKey = o' at hg ⊢
      cases hg <;> rfl
    simp only [pyContains, hk]
    exact .refl _

/-! ## 3. Tuples that come back as lists -/

mutual
/-- No list and no tuple outside a set. -/
def sequenceFree : PyVal → Bool
  | .list _ | .tuple _ => false
  | .dict kvs => sequenceFreeEntries kvs
  | _ => true

def sequenceFreeEntries : List (PyKey × PyVal) → Bool
  | [] => true
  | (_, v) :: kvs => sequenceFree v && sequenceFreeEntries kvs
end

theorem sequenceFree_dict : ∀ {kvs : PyDict},
    sequenceFree (.dict kvs) = true ↔ ∀ k v, (k, v) ∈ kvs → sequenceFree v = true
  | [] => by simp [sequenceFree, sequenceFreeEntries]
  | (k, v) :: kvs => by
      have ih := @sequenceFree_dict kvs
      rw [sequenceFree] at ih ⊢
      rw [sequenceFreeEntries, Bool.and_eq_true, ih]
      refine ⟨fun h k' v' hm => ?_, fun h => ⟨h k v List.mem_cons_self,
        fun k' v' hm => h k' v' (List.mem_cons_of_mem _ hm)⟩⟩
      rcases List.mem_cons.mp hm with e | hm
      · cases e
        exact h.1
      · exact h.2 k' v' hm

/-- `==` and its exceptions do not tell the two apart, on either side of `e`. -/
structure Indistinct (v w e : PyVal) : Prop where
  eq : pyEq v e = pyEq w e
  eq' : pyEq e v = pyEq e w
  raises : eqRaises v e = eqRaises w e
  raises' : eqRaises e v = eqRaises e w

theorem entries_indistinct {b : PyDict} : ∀ {a : PyDict},
    (∀ k v, (k, v) ∈ a → ∀ e, (k, e) ∈ b → Indistinct (stored v) v e) →
      eqEntries (a.map fun kv => (kv.1, stored kv.2)) b = eqEntries a b ∧
        raisesEntries (a.map fun kv => (kv.1, stored kv.2)) b = raisesEntries a b
  | [], _ => ⟨rfl, rfl⟩
  | (k, v) :: a, h => by
      obtain ⟨heq, hraises⟩ := @entries_indistinct b a fun k v hm =>
        h k v (List.mem_cons_of_mem _ hm)
      have hv := h k v List.mem_cons_self
      rw [List.map_cons, eqEntries, eqEntries, raisesEntries, raisesEntries, heq, hraises]
      cases hg : Dict.get b k with
      | none => exact ⟨rfl, rfl⟩
      | some e =>
        have hi := hv e (Dict.mem_of_get hg)
        simp only [hi.eq, hi.raises, and_self]

theorem entries_indistinct_right {b : PyDict} : ∀ {a : PyDict},
    (∀ k e, (k, e) ∈ a → ∀ v, (k, v) ∈ b → Indistinct (stored v) v e) →
      eqEntries a (b.map fun kv => (kv.1, stored kv.2)) = eqEntries a b ∧
        raisesEntries a (b.map fun kv => (kv.1, stored kv.2)) = raisesEntries a b
  | [], _ => by simp [eqEntries, raisesEntries]
  | (k, e) :: a, h => by
      obtain ⟨heq, hraises⟩ := @entries_indistinct_right b a fun k v hm =>
        h k v (List.mem_cons_of_mem _ hm)
      have he := h k e List.mem_cons_self
      rw [eqEntries, eqEntries, raisesEntries, raisesEntries, heq, hraises, Dict.get_map]
      cases hg : Dict.get b k with
      | none => exact ⟨rfl, rfl⟩
      | some v =>
        have hi := he v (Dict.mem_of_get hg)
        simp only [Option.map_some, hi.eq', hi.raises', and_self]

/-- **A value is compared as its stored form is**, with anything that holds no sequence. -/
theorem stored_indistinct {v e : PyVal} (he : sequenceFree e = true) : Indistinct (stored v) v e := by
  induction v using PyVal.induct generalizing e with
  | list xs ih =>
    cases e with
    | list ys | tuple ys => cases he
    | _ => constructor <;> simp [PyVal.pyEq, eqRaises, numRaises, num, numEq, members]
  | tuple xs ih =>
    cases e with
    | list ys | tuple ys => cases he
    | _ => constructor <;> simp [PyVal.pyEq, eqRaises, numRaises, num, numEq, members]
  | dict a ih =>
    cases e with
    | dict b =>
      have hb := sequenceFree_dict.mp he
      obtain ⟨h1, h2⟩ := @entries_indistinct b a fun k v hm e he' => ih k v hm (hb k e he')
      obtain ⟨h3, h4⟩ := @entries_indistinct_right a b fun k e he' v hm => ih k v hm (hb k e he')
      constructor <;> simp only [stored_dict, PyVal.pyEq, eqRaises, List.length_map, h1, h2, h3, h4]
    | _ => constructor <;> simp [PyVal.pyEq, eqRaises, numRaises, num, numEq, members]
  | _ => exact ⟨rfl, rfl, rfl, rfl⟩

theorem eqVals_stored {v e : PyVal} (he : sequenceFree e = true) : eqVals (stored v) e = eqVals v e := by
  rw [eqVals, eqVals, (stored_indistinct he).eq, (stored_indistinct he).raises]

theorem compareVals_stored {op : CmpOp} {v e : PyVal} (he : sequenceFree e = true) :
    compareVals op (stored v) e = compareVals op v e := by
  cases v with
  | list xs | tuple xs =>
    cases e with
    | list ys | tuple ys => cases he
    | _ => simp only [stored_list, stored_tuple, compareVals]
  | dict a => simp only [stored_dict, compareVals]
  | _ => rfl

theorem containsList_congr {e e' : PyVal} {xs ys : List PyVal}
    (h : List.Forall₂ (fun x y => pyEq x e = pyEq y e' ∧ eqRaises x e = eqRaises y e') xs ys) :
    containsList e xs = containsList e' ys := by
  induction h with
  | nil => rfl
  | cons hxy _ ih => rw [containsList, containsList, hxy.1, hxy.2, ih]

theorem pyContains_stored {v e : PyVal} (he : sequenceFree e = true) :
    pyContains (stored v) e = pyContains v e := by
  have items (xs : List PyVal) : containsList e (xs.map stored) = containsList e xs :=
    containsList_congr (List.forall₂_map_left_iff.mpr (List.forall₂_same.mpr fun x _ =>
      ⟨(stored_indistinct he).eq, (stored_indistinct he).raises⟩))
  cases v with
  | list xs | tuple xs => simp only [stored_list, stored_tuple, pyContains, items]
  | dict a => simp only [stored_dict, pyContains, Dict.contains, Dict.get_map, Option.isSome_map]
  | _ => rfl

theorem isMember_stored {name : String} {v : PyVal} {xs : List PyVal}
    (h : ∀ x ∈ xs, sequenceFree x = true) :
    isMember name (stored v) (.list xs) = isMember name v (.list xs) :=
  congrArg builtin (containsList_congr (List.forall₂_same.mpr fun x hx =>
    ⟨(stored_indistinct (h x hx)).eq', (stored_indistinct (h x hx)).raises'⟩))

/-! ## 4. Queries -/

/-- A signaling NaN met inside a query. -/
def signaled : PyExc := .builtin .invalidOperation

theorem Agree.builtin {α : Type} {q : Prop} {x y : Except ExcType α}
    (h : Agree q .invalidOperation x y) :
    Agree q signaled (JsonDatabase.builtin x) (JsonDatabase.builtin y) := by
  rcases h with rfl | ⟨hq, rfl | rfl⟩
  · exact .refl _
  · exact Or.inr ⟨hq, Or.inl rfl⟩
  · exact Or.inr ⟨hq, Or.inr rfl⟩

theorem Agree.orFalse {q : Prop} {x y : Except ExcType Bool} (h : Agree q .invalidOperation x y) :
    Agree q signaled (JsonDatabase.orFalse x) (JsonDatabase.orFalse y) := by
  rcases h with rfl | ⟨hq, rfl | rfl⟩
  · exact .refl _
  · exact Or.inr ⟨hq, Or.inl rfl⟩
  · exact Or.inr ⟨hq, Or.inr rfl⟩

theorem isMember_agree {name : String} {v w e : PyVal} (h : Same v w) (hv : v.wf) (hq : quiet v)
    (he : e.wf) : Agree (quiet e) signaled (isMember name v e) (isMember name w e) := by
  cases e with
  | list xs =>
    obtain ⟨-, he⟩ := everywhere_list.mp he
    refine .builtin (containsList_agree (List.forall₂_same.mpr fun x hx =>
      ⟨(h.pyEq hv (he x hx)).2, fun q => ?_⟩))
    have hx := (everywhere_list.mp q).2 x hx
    exact ⟨eqRaises_quiet hx hq, eqRaises_quiet hx (h.quiet hq)⟩
  | _ => exact .refl _

theorem matchesOperator_agree {op : QueryOp} {present : Bool} {v w e : PyVal} (h : Same v w)
    (hv : v.wf) (hq : quiet v) (he : e.wf) :
    Agree (quiet e) signaled (matchesOperator v present e op) (matchesOperator w present e op) := by
  have equal := (eqVals_agree h hv hq he).builtin
  have member (name : String) := @isMember_agree name _ _ _ h hv hq he
  cases present with
  | false =>
    cases op with
    | nin =>
      cases e with
      | list xs => exact .refl _
      | _ => exact .refl _
    | _ => exact .refl _
  | true =>
    cases op with
    | present => exact .refl _
    | eq => exact equal
    | ne => exact equal.map _
    | order op => exact (compareVals_agree h hv hq he).orFalse
    | isIn => exact member "$in"
    | nin =>
      cases e with
      | list xs => exact (member "$nin").map _
      | _ => exact .refl _
    | contains => exact (pyContains_agree h hv hq he).orFalse

theorem matchesOperators_agree {present : Bool} {v w : PyVal} (h : Same v w) (hv : v.wf)
    (hq : quiet v) : ∀ {expression : PyDict}, (∀ k e, (k, e) ∈ expression → e.wf) →
      Agree (∀ k e, (k, e) ∈ expression → quiet e) signaled
        (matchesOperators v present expression) (matchesOperators w present expression)
  | [], _ => .refl _
  | (k, e) :: rest, he => by
      rw [matchesOperators, matchesOperators]
      cases Dict.get OPERATORS k with
      | none => exact .refl _
      | some op =>
        refine .bind ((matchesOperator_agree h hv hq (he k e List.mem_cons_self)).mono
          fun q => q k e List.mem_cons_self) fun ok => ?_
        cases ok with
        | false => exact .refl _
        | true => exact (matchesOperators_agree h hv hq fun k e hm =>
            he k e (List.mem_cons_of_mem _ hm)).mono fun q k e hm => q k e (List.mem_cons_of_mem _ hm)

theorem contains_iff_of_rel {d w : PyDict} {k : PyKey}
    (h : Option.Rel Same ((Dict.get d k).map stored) (Dict.get w k)) :
    Dict.contains w k = Dict.contains d k := by
  unfold Dict.contains
  generalize Dict.get d k = o at h ⊢
  generalize Dict.get w k = o' at h ⊢
  cases o with
  | none =>
    cases h
    rfl
  | some v =>
    cases h
    rfl

/-- What an operator compares with holds no sequence: for `$in` and `$nin` that is each member of the
    list, and `$exists` compares with nothing. -/
def OperandFree (operator : PyKey) (expected : PyVal) : Prop :=
  match Dict.get OPERATORS operator with
  | some .present | none => True
  | some .isIn | some .nin => ∀ xs, expected = .list xs → ∀ x ∈ xs, sequenceFree x = true
  | some _ => sequenceFree expected = true

/-- What one field of the criteria compares with holds no sequence. -/
def CriterionFree (e : PyVal) : Prop :=
  (isOperatorExpression e = .ok true → ∀ expression, e = .dict expression →
    ∀ kv ∈ expression, OperandFree kv.1 kv.2) ∧
  (isOperatorExpression e = .ok false → sequenceFree e = true)

theorem matchesOperator_stored {op : QueryOp} {present : Bool} {v e : PyVal} {operator : PyKey}
    (hop : Dict.get OPERATORS operator = some op) (h : OperandFree operator e) :
    matchesOperator (stored v) present e op = matchesOperator v present e op := by
  rw [OperandFree, hop] at h
  have member (name : String) (h : ∀ xs, e = .list xs → ∀ x ∈ xs, sequenceFree x = true) :
      isMember name (stored v) e = isMember name v e := by
    cases e with
    | list xs => exact isMember_stored (h xs rfl)
    | _ => rfl
  cases op with
  | present => rfl
  | eq => simp only [matchesOperator, eqVals_stored h]
  | ne => simp only [matchesOperator, eqVals_stored h]
  | order op => simp only [matchesOperator, compareVals_stored h]
  | contains => simp only [matchesOperator, pyContains_stored h]
  | isIn => simp only [matchesOperator, member "$in" h]
  | nin => simp only [matchesOperator, member "$nin" h]

theorem matchesOperators_stored {present : Bool} {v : PyVal} : ∀ {expression : PyDict},
    (∀ kv ∈ expression, OperandFree kv.1 kv.2) →
      matchesOperators (stored v) present expression = matchesOperators v present expression
  | [], _ => rfl
  | (k, e) :: rest, h => by
      obtain ⟨he, hrest⟩ := List.forall_mem_cons.mp h
      rw [matchesOperators, matchesOperators, matchesOperators_stored hrest]
      cases hop : Dict.get OPERATORS k with
      | none => rfl
      | some op => simp only [matchesOperator_stored hop he]

theorem quiet_stored {v : PyVal} (h : quiet v) : quiet (stored v) := by
  induction v using PyVal.induct with
  | list xs ih =>
    rw [stored_list]
    refine everywhere_list.mpr ⟨rfl, List.forall_mem_map.mpr fun x hx => ih x hx ?_⟩
    exact (everywhere_list.mp h).2 x hx
  | tuple xs ih =>
    rw [stored_tuple]
    refine everywhere_list.mpr ⟨rfl, List.forall_mem_map.mpr fun x hx => ih x hx ?_⟩
    exact (everywhere_tuple.mp h).2 x hx
  | dict kvs ih =>
    rw [stored_dict]
    refine everywhere_dict.mpr ⟨rfl, fun k v hm => ?_⟩
    obtain ⟨⟨k', v'⟩, hv, e⟩ := List.mem_map.mp hm
    cases e
    exact ih k' v' hv ((everywhere_dict.mp h).2 k' v' hv)
  | _ => exact h

/-- **One field of the criteria** on a document and on what is read back of it: the document has no
    tuple there, or the criterion compares it with no sequence. -/
theorem matchesField_agree {d w : PyDict} (h : ReadsAs (.dict d) (.dict w))
    (hw : (PyVal.dict d).wf) (hq : quiet (.dict d)) {field : PyKey} {e : PyVal}
    (hu : (∀ v, Dict.get d field = some v → stored v = v) ∨ CriterionFree e) (he : e.wf) :
    Agree (quiet e) signaled (matchesField d field e) (matchesField w field e) := by
  obtain ⟨hd, hvs⟩ := everywhere_dict.mp hw
  have hg := h.get hd field
  have hsame : Same (stored ((Dict.get d field).getD .none)) ((Dict.get w field).getD .none) := by
    cases hdf : Dict.get d field with
    | none =>
      rw [hdf] at hg
      generalize Dict.get w field = o at hg
      cases hg
      exact .refl _
    | some v =>
      obtain ⟨v', hv', hs⟩ := h.get_left hd hdf
      rw [hv']
      exact hs
  have hin {p : PyVal → Prop} (hp : ∀ k v, (k, v) ∈ d → p v) (hnone : p .none) :
      p ((Dict.get d field).getD .none) := by
    cases hdf : Dict.get d field with
    | none => exact hnone
    | some v => exact hp field v (Dict.mem_of_get hdf)
  have hvw := wf_stored (hin hvs trivial)
  have hvq := quiet_stored (hin (everywhere_dict.mp hq).2 rfl)
  have hcase : stored ((Dict.get d field).getD .none) = (Dict.get d field).getD .none ∨
      CriterionFree e := by
    refine hu.imp_left fun hu => ?_
    cases hdf : Dict.get d field with
    | none => rfl
    | some v => exact hu v hdf
  cases field with
  | other t i => exact .refl _
  | str s =>
    simp only [matchesField, contains_iff_of_rel hg]
    generalize (Dict.get d (.str s)).getD .none = v at hsame hvw hvq hcase ⊢
    generalize (Dict.get w (.str s)).getD .none = v' at hsame ⊢
    have equal (hfree : stored v = v ∨ sequenceFree e = true) : Agree (quiet e) signaled
        (if Dict.contains d (.str s) then builtin (eqVals v e) else .ok false)
        (if Dict.contains d (.str s) then builtin (eqVals v' e) else .ok false) := by
      have hv : eqVals v e = eqVals (stored v) e :=
        hfree.elim (fun h => by rw [h]) fun h => (eqVals_stored h).symm
      rw [hv]
      split
      · exact (eqVals_agree hsame hvw hvq he).builtin
      · exact .refl _
    cases hop : isOperatorExpression e with
    | error err => exact .refl _
    | ok isOperators =>
      cases isOperators with
      | false => exact equal (hcase.imp_right fun h => h.2 hop)
      | true =>
        cases e with
        | dict expression =>
          have hv : matchesOperators v (Dict.contains d (.str s)) expression =
              matchesOperators (stored v) (Dict.contains d (.str s)) expression :=
            hcase.elim (fun h => by rw [h]) fun h => (matchesOperators_stored (h.1 hop _ rfl)).symm
          have hagree := @matchesOperators_agree (Dict.contains d (.str s)) _ _ hsame hvw hvq _
            (everywhere_dict.mp he).2
          rw [← hv] at hagree
          exact hagree.mono fun q => (everywhere_dict.mp q).2
        | _ => cases hop

/-- The entries of criteria. -/
def criteriaEntries : PyVal → PyDict
  | .dict criteria => criteria
  | _ => []

/-- **The criteria do not tell the document from its stored form**: in each field that they name the
    document has no tuple outside a set, or they compare it with no list and no tuple. -/
def Blind (criteria : PyVal) (document : PyDict) : Prop :=
  ∀ k e, (k, e) ∈ criteriaEntries criteria →
    (∀ v, Dict.get document k = some v → stored v = v) ∨ CriterionFree e

theorem matchesFields_agree {d w : PyDict} (h : ReadsAs (.dict d) (.dict w))
    (hw : (PyVal.dict d).wf) (hq : quiet (.dict d)) : ∀ {criteria : PyDict},
      Blind (.dict criteria) d → (∀ k e, (k, e) ∈ criteria → e.wf) →
        Agree (∀ k e, (k, e) ∈ criteria → quiet e) signaled
          (matchesFields (.dict d) criteria) (matchesFields (.dict w) criteria)
  | [], _, _ => .refl _
  | (k, e) :: rest, hu, he => by
      show Agree _ _ (matchesField d k e >>= fun ok => if ok then matchesFields _ rest else _)
        (matchesField w k e >>= fun ok => if ok then matchesFields _ rest else _)
      have first := matchesField_agree h hw hq (hu k e List.mem_cons_self) (he k e List.mem_cons_self)
      refine .bind (first.mono fun q => q k e List.mem_cons_self) fun ok => ?_
      cases ok with
      | false => exact .refl _
      | true =>
        have later := @matchesFields_agree d w h hw hq rest
          (fun k e hm => hu k e (List.mem_cons_of_mem _ hm)) fun k e hm =>
            he k e (List.mem_cons_of_mem _ hm)
        exact later.mono fun q k e hm => q k e (List.mem_cons_of_mem _ hm)

/-- **Criteria agree on a document and on what is read back of it**, unless they compare a tuple
    with a sequence or hold a signaling NaN. -/
theorem matches_agree {d w : PyDict} (h : ReadsAs (.dict d) (.dict w)) (hw : (PyVal.dict d).wf)
    (hq : quiet (.dict d)) {criteria : PyVal} (hc : criteria.wf) (hu : Blind criteria d) :
    Agree (quiet criteria) signaled (matchesCriteria (.dict d) criteria)
      (matchesCriteria (.dict w) criteria) := by
  cases criteria with
  | dict criteria =>
    exact (matchesFields_agree h hw hq hu (everywhere_dict.mp hc).2).mono
      fun q => (everywhere_dict.mp q).2
  | _ => exact .refl _

end JsonDatabase
