/-
  File:      JsonDatabase/Python/Equality.lean
  Subject:   `==` on Python values is symmetric and transitive.

  It is not reflexive, since a NaN equals nothing. Sets and dictionaries are compared by looking for
  what one side has in the other; as the sizes agree, nothing is left over there.

  * `exists_preimage` -- lists of one length whose members are matched without a clash;
  * `pyEq_trans`, `pyEq_symm` -- the laws, the second on values the interpreter can build.
-/
import JsonDatabase.Python.Compare
import JsonDatabase.Basis.Result

namespace JsonDatabase

/-- If every member of `xs` is related to one of `ys`, no two to the same, and the lists are of one
    length, then every member of `ys` is met. -/
theorem exists_preimage {α β : Type} {R : α → β → Prop} : ∀ {xs : List α} {ys : List β},
    xs.length = ys.length → (∀ x ∈ xs, ∃ y ∈ ys, R x y) →
      (xs.Pairwise fun x x' => ∀ y, R x y → ¬ R x' y) → ∀ y ∈ ys, ∃ x ∈ xs, R x y
  | [], ys, hlen, _, _ => by
      intro y hy
      rw [List.length_eq_zero_iff.mp hlen.symm] at hy
      cases hy
  | x :: xs, ys, hlen, hall, hdis => by
      obtain ⟨hx, hrest⟩ := List.forall_mem_cons.mp hall
      obtain ⟨hfirst, hdis⟩ := List.pairwise_cons.mp hdis
      obtain ⟨y₀, hy₀, hr⟩ := hx
      obtain ⟨l, r, rfl⟩ := List.append_of_mem hy₀
      have hlen' : xs.length = (l ++ r).length := by
        simp only [List.length_append, List.length_cons] at hlen ⊢
        omega
      have hrest' (x' : α) (hx' : x' ∈ xs) : ∃ y ∈ l ++ r, R x' y := by
        obtain ⟨y, hy, hr'⟩ := hrest x' hx'
        rcases List.mem_append.mp hy with hl | hy
        · exact ⟨y, List.mem_append_left _ hl, hr'⟩
        rcases List.mem_cons.mp hy with rfl | hy
        · exact absurd hr' (hfirst x' hx' y hr)
        · exact ⟨y, List.mem_append_right _ hy, hr'⟩
      have ih := exists_preimage hlen' hrest' hdis
      intro y hy
      rcases List.mem_append.mp hy with hl | hy
      · obtain ⟨x', hx', hr'⟩ := ih y (List.mem_append_left _ hl)
        exact ⟨x', List.mem_cons_of_mem _ hx', hr'⟩
      rcases List.mem_cons.mp hy with rfl | hy
      · exact ⟨x, List.mem_cons_self, hr⟩
      · obtain ⟨x', hx', hr'⟩ := ih y (List.mem_append_right _ hy)
        exact ⟨x', List.mem_cons_of_mem _ hx', hr'⟩

namespace PyVal

/-! ## 1. What `==` compares -/

theorem eqList_iff : ∀ {xs ys : List PyVal},
    eqList xs ys = true ↔ List.Forall₂ (fun x y => pyEq x y = true) xs ys
  | [], [] => by simp [eqList]
  | [], _ :: _ => by simp [eqList]
  | _ :: _, [] => by simp [eqList]
  | x :: xs, y :: ys => by rw [eqList, Bool.and_eq_true, List.forall₂_cons, @eqList_iff xs ys]

theorem eqEntries_iff {b : PyDict} : ∀ {a : List (PyKey × PyVal)},
    eqEntries a b = true ↔ ∀ kv ∈ a, ∃ w, Dict.get b kv.1 = some w ∧ pyEq kv.2 w = true
  | [] => by simp [eqEntries]
  | (k, v) :: a => by
      rw [eqEntries, Bool.and_eq_true, @eqEntries_iff b a, List.forall_mem_cons]
      refine and_congr_left' ?_
      cases Dict.get b k with
      | none => simp
      | some w => simp

theorem subset_iff {ys : List PyVal} : ∀ {xs : List PyVal},
    subset xs ys = true ↔ ∀ x ∈ xs, ∃ y ∈ ys, pyEq x y = true
  | [] => by simp [subset]
  | x :: xs => by
      rw [subset, Bool.and_eq_true, @subset_iff ys xs, List.forall_mem_cons, List.any_eq_true]

theorem pyEq_list {xs : List PyVal} {w : PyVal} : pyEq (.list xs) w = true ↔
    ∃ ys, w = .list ys ∧ List.Forall₂ (fun x y => pyEq x y = true) xs ys := by
  cases w with
  | list ys => simp [pyEq, eqList_iff]
  | _ => simp [pyEq]

theorem pyEq_tuple {xs : List PyVal} {w : PyVal} : pyEq (.tuple xs) w = true ↔
    ∃ ys, w = .tuple ys ∧ List.Forall₂ (fun x y => pyEq x y = true) xs ys := by
  cases w with
  | tuple ys => simp [pyEq, eqList_iff]
  | _ => simp [pyEq]

theorem pyEq_dict {a : PyDict} {w : PyVal} : pyEq (.dict a) w = true ↔
    ∃ b, w = .dict b ∧ a.length = b.length ∧
      ∀ kv ∈ a, ∃ u, Dict.get b kv.1 = some u ∧ pyEq kv.2 u = true := by
  cases w with
  | dict b => simp [pyEq, eqEntries_iff]
  | _ => simp [pyEq]

/-- A set or a frozenset is compared by its members. -/
theorem pyEq_members {v w : PyVal} {xs : List PyVal} (h : v.members = some xs) :
    pyEq v w = true ↔ ∃ ys, w.members = some ys ∧ xs.length = ys.length ∧
      ∀ x ∈ xs, ∃ y ∈ ys, pyEq x y = true := by
  cases v with
  | set xs' | frozenset xs' =>
    cases h
    cases hw : w.members with
    | none => simp [pyEq, hw]
    | some ys => simp [pyEq, hw, subset_iff]
  | _ => cases h

/-- A number is compared by its value. -/
theorem pyEq_num {v : PyVal} (h : v.num.isSome = true) (w : PyVal) :
    pyEq v w = numEq v.num w.num := by
  cases v with
  | bool b => rw [pyEq]
  | int i => rw [pyEq]
  | float f => rw [pyEq]
  | decimal d => rw [pyEq]
  | _ => cases h

theorem num_float (f : PyFloat) : (num (.float f)).isSome = true := by
  cases f <;> rfl

theorem num_decimal (d : Decimal) : (num (.decimal d)).isSome = true := by
  cases d <;> rfl

theorem numEq_symm {a b : Option PyNum} (h : numEq a b = true) : numEq b a = true := by
  unfold numEq PyNum.eq at *
  grind

theorem numEq_trans {a b c : Option PyNum} (h₁ : numEq a b = true) (h₂ : numEq b c = true) :
    numEq a c = true := by
  unfold numEq PyNum.eq at *
  grind

theorem isSome_of_numEq {a b : Option PyNum} (h : numEq a b = true) : b.isSome = true := by
  cases b with
  | none => cases a <;> cases h
  | some y => rfl

/-! ## 2. Transitivity -/

theorem pyEq_trans_num {a b c : PyVal} (ha : a.num.isSome = true) (h₁ : pyEq a b = true)
    (h₂ : pyEq b c = true) : pyEq a c = true := by
  rw [pyEq_num ha] at h₁ ⊢
  rw [pyEq_num (isSome_of_numEq h₁)] at h₂
  exact numEq_trans h₁ h₂

theorem pyEq_trans_members {a b c : PyVal} {xs : List PyVal} (ha : a.members = some xs)
    (ih : ∀ x ∈ xs, ∀ y z, pyEq x y = true → pyEq y z = true → pyEq x z = true)
    (h₁ : pyEq a b = true) (h₂ : pyEq b c = true) : pyEq a c = true := by
  obtain ⟨ys, hb, hlen, hxy⟩ := (pyEq_members ha).mp h₁
  obtain ⟨zs, hc, hlen', hyz⟩ := (pyEq_members hb).mp h₂
  refine (pyEq_members ha).mpr ⟨zs, hc, hlen.trans hlen', fun x hx => ?_⟩
  obtain ⟨y, hy, hxy⟩ := hxy x hx
  obtain ⟨z, hz, hyz⟩ := hyz y hy
  exact ⟨z, hz, ih x hx y z hxy hyz⟩

/-- **`==` is transitive.** -/
theorem pyEq_trans {a b c : PyVal} (h₁ : pyEq a b = true) (h₂ : pyEq b c = true) :
    pyEq a c = true := by
  induction a using PyVal.induct generalizing b c with
  | list xs ih =>
    obtain ⟨ys, rfl, hxy⟩ := pyEq_list.mp h₁
    obtain ⟨zs, rfl, hyz⟩ := pyEq_list.mp h₂
    exact pyEq_list.mpr ⟨zs, rfl, forall₂_comp_mem hxy hyz fun x hx _ _ => ih x hx⟩
  | tuple xs ih =>
    obtain ⟨ys, rfl, hxy⟩ := pyEq_tuple.mp h₁
    obtain ⟨zs, rfl, hyz⟩ := pyEq_tuple.mp h₂
    exact pyEq_tuple.mpr ⟨zs, rfl, forall₂_comp_mem hxy hyz fun x hx _ _ => ih x hx⟩
  | dict d ih =>
    obtain ⟨e, rfl, hlen, hde⟩ := pyEq_dict.mp h₁
    obtain ⟨f, rfl, hlen', hef⟩ := pyEq_dict.mp h₂
    refine pyEq_dict.mpr ⟨f, rfl, hlen.trans hlen', fun kv hm => ?_⟩
    obtain ⟨u, hu, hvu⟩ := hde kv hm
    obtain ⟨w, hw, huw⟩ := hef (kv.1, u) (Dict.mem_of_get hu)
    exact ⟨w, hw, ih kv.1 kv.2 hm hvu huw⟩
  | set xs ih => exact pyEq_trans_members rfl (fun x hx _ _ => ih x hx) h₁ h₂
  | frozenset xs ih => exact pyEq_trans_members rfl (fun x hx _ _ => ih x hx) h₁ h₂
  | bool b => exact pyEq_trans_num rfl h₁ h₂
  | int i => exact pyEq_trans_num rfl h₁ h₂
  | float f => exact pyEq_trans_num (num_float f) h₁ h₂
  | decimal d => exact pyEq_trans_num (num_decimal d) h₁ h₂
  | none =>
    cases b with
    | none => exact h₂
    | _ => simp [pyEq] at h₁
  | str s =>
    cases b with
    | str t =>
      obtain rfl : s = t := by simpa [pyEq] using h₁
      exact h₂
    | _ => simp [pyEq] at h₁
  | date d =>
    cases b with
    | date d' =>
      obtain rfl : d = d' := by simpa [pyEq] using h₁
      exact h₂
    | _ => simp [pyEq] at h₁
  | bytes x =>
    cases b with
    | bytes y =>
      obtain rfl : x = y := by simpa [pyEq] using h₁
      exact h₂
    | _ => simp [pyEq] at h₁
  | datetime d =>
    cases b with
    | datetime d' =>
      cases c with
      | datetime d'' =>
        simp only [pyEq, datetimeEq, decide_eq_true_eq] at h₁ h₂ ⊢
        exact ⟨h₁.1.trans h₂.1, h₁.2.trans h₂.2⟩
      | _ => simp [pyEq] at h₂
    | _ => simp [pyEq] at h₁
  | other t i =>
    cases b with
    | other t' i' =>
      obtain ⟨rfl, rfl⟩ : t = t' ∧ i = i' := by simpa [pyEq] using h₁
      exact h₂
    | _ => simp [pyEq] at h₁

/-! ## 3. Symmetry -/

theorem pyEq_symm_num {a b : PyVal} (ha : a.num.isSome = true) (h : pyEq a b = true) :
    pyEq b a = true := by
  rw [pyEq_num ha] at h
  rw [pyEq_num (isSome_of_numEq h)]
  exact numEq_symm h

theorem wf_members {v : PyVal} {xs : List PyVal} (hv : v.wf) (h : v.members = some xs) :
    SetLike xs ∧ ∀ x ∈ xs, x.wf := by
  cases v with
  | set xs' =>
    cases h
    exact everywhere_set.mp hv
  | frozenset xs' =>
    cases h
    exact everywhere_frozenset.mp hv
  | _ => cases h

/-- No two members of a set are equal to one value, so those of the other side are all met. -/
theorem pyEq_symm_members {a b : PyVal} {xs : List PyVal} (ha : a.members = some xs)
    (hset : SetLike xs) (ih : ∀ x ∈ xs, ∀ y, y.wf → pyEq x y = true → pyEq y x = true) (hb : b.wf)
    (h : pyEq a b = true) : pyEq b a = true := by
  obtain ⟨ys, hys, hlen, hall⟩ := (pyEq_members ha).mp h
  have hwf := (wf_members hb hys).2
  have hall' (x : PyVal) (hx : x ∈ xs) : ∃ y ∈ ys, y.wf ∧ pyEq x y = true := by
    obtain ⟨y, hy, hxy⟩ := hall x hx
    exact ⟨y, hy, hwf y hy, hxy⟩
  have hdis : xs.Pairwise fun x x' => ∀ y, y.wf ∧ pyEq x y = true → ¬ (y.wf ∧ pyEq x' y = true) := by
    refine hset.2.imp_of_mem fun hx hx' hne y hxy hxy' => ?_
    have heq := pyEq_trans hxy.2 (ih _ hx' y hxy'.1 hxy'.2)
    exact Bool.false_ne_true (hne.1.symm.trans heq)
  refine (pyEq_members hys).mpr ⟨xs, ha, hlen.symm, fun y hy => ?_⟩
  obtain ⟨x, hx, hy, hxy⟩ := exists_preimage hlen hall' hdis y hy
  exact ⟨x, hx, ih x hx y hy hxy⟩

/-- The keys of a dictionary differ, so those of the other side are all met. -/
theorem pyEq_symm_dict {a b : PyDict} (ha : Dict.Distinct a) (hb : (PyVal.dict b).wf)
    (ih : ∀ k v, (k, v) ∈ a → ∀ w, w.wf → pyEq v w = true → pyEq w v = true)
    (h : pyEq (.dict a) (.dict b) = true) : pyEq (.dict b) (.dict a) = true := by
  obtain ⟨b', e, hlen, hall⟩ := pyEq_dict.mp h
  cases e
  have hall' (kv : PyKey × PyVal) (hm : kv ∈ a) :
      ∃ kw ∈ b, kv.1 = kw.1 ∧ pyEq kv.2 kw.2 = true := by
    obtain ⟨w, hw, hvw⟩ := hall kv hm
    exact ⟨(kv.1, w), Dict.mem_of_get hw, rfl, hvw⟩
  have hdis : a.Pairwise fun kv kv' => ∀ kw : PyKey × PyVal, kv.1 = kw.1 ∧ pyEq kv.2 kw.2 = true →
      ¬ (kv'.1 = kw.1 ∧ pyEq kv'.2 kw.2 = true) := by
    refine (List.pairwise_map.mp ha).imp fun hne kw hk hk' => ?_
    exact hne (hk.1.trans hk'.1.symm)
  refine pyEq_dict.mpr ⟨a, rfl, hlen.symm, fun kw hm => ?_⟩
  obtain ⟨kv, hkv, hk, hvw⟩ := exists_preimage hlen hall' hdis kw hm
  refine ⟨kv.2, Dict.get_of_mem ha (hk ▸ hkv), ih kv.1 kv.2 hkv kw.2 ?_ hvw⟩
  exact (everywhere_dict.mp hb).2 kw.1 kw.2 hm

theorem pyEq_symm_of {a b : PyVal} (ha : a.wf) (hb : b.wf) (h : pyEq a b = true) :
    pyEq b a = true := by
  induction a using PyVal.induct generalizing b with
  | list xs ih =>
    obtain ⟨ys, rfl, hxy⟩ := pyEq_list.mp h
    have hwx := (everywhere_list.mp ha).2
    have hwy := (everywhere_list.mp hb).2
    exact pyEq_list.mpr ⟨xs, rfl, forall₂_flip_mem hxy fun x hx y hy => ih x hx (hwx x hx) (hwy y hy)⟩
  | tuple xs ih =>
    obtain ⟨ys, rfl, hxy⟩ := pyEq_tuple.mp h
    have hwx := (everywhere_tuple.mp ha).2
    have hwy := (everywhere_tuple.mp hb).2
    exact pyEq_tuple.mpr ⟨xs, rfl, forall₂_flip_mem hxy fun x hx y hy => ih x hx (hwx x hx) (hwy y hy)⟩
  | dict d ih =>
    obtain ⟨e, rfl, -⟩ := pyEq_dict.mp h
    obtain ⟨hd, hwd⟩ := everywhere_dict.mp ha
    exact pyEq_symm_dict hd hb (fun k v hm w hw => ih k v hm (hwd k v hm) hw) h
  | set xs ih =>
    obtain ⟨hset, hwx⟩ := everywhere_set.mp ha
    exact pyEq_symm_members rfl hset (fun x hx y hy => ih x hx (hwx x hx) hy) hb h
  | frozenset xs ih =>
    obtain ⟨hset, hwx⟩ := everywhere_frozenset.mp ha
    exact pyEq_symm_members rfl hset (fun x hx y hy => ih x hx (hwx x hx) hy) hb h
  | bool b => exact pyEq_symm_num rfl h
  | int i => exact pyEq_symm_num rfl h
  | float f => exact pyEq_symm_num (num_float f) h
  | decimal d => exact pyEq_symm_num (num_decimal d) h
  | datetime d =>
    cases b with
    | datetime d' =>
      simp only [pyEq, datetimeEq, decide_eq_true_eq] at h ⊢
      exact ⟨h.1.symm, h.2.symm⟩
    | _ => simp [pyEq] at h
  | none =>
    cases b with
    | none => exact h
    | _ => simp [pyEq] at h
  | str s =>
    cases b with
    | str t =>
      obtain rfl : s = t := by simpa [pyEq] using h
      exact h
    | _ => simp [pyEq] at h
  | date d =>
    cases b with
    | date d' =>
      obtain rfl : d = d' := by simpa [pyEq] using h
      exact h
    | _ => simp [pyEq] at h
  | bytes x =>
    cases b with
    | bytes y =>
      obtain rfl : x = y := by simpa [pyEq] using h
      exact h
    | _ => simp [pyEq] at h
  | other t i =>
    cases b with
    | other t' i' =>
      obtain ⟨rfl, rfl⟩ : t = t' ∧ i = i' := by simpa [pyEq] using h
      exact h
    | _ => simp [pyEq] at h

/-- **`==` is symmetric** on values that the interpreter can build. -/
theorem pyEq_symm {a b : PyVal} (ha : a.wf) (hb : b.wf) : pyEq a b = pyEq b a := by
  rw [Bool.eq_iff_iff]
  exact ⟨pyEq_symm_of ha hb, pyEq_symm_of hb ha⟩

end PyVal

end JsonDatabase
