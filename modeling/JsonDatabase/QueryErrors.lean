/-
  File:      JsonDatabase/QueryErrors.lean
  Subject:   When a query raises `QueryError`.

  Criteria are checked while they are matched, first against an empty document. That trial stops
  at the first part that asks for a field, and what stands behind it is not looked at.

  * `criteriaOk` -- the criteria that are well formed, `criteriaOk_raises` -- and never raise;
  * `stops` -- the fields at which the trial can stop;
  * `query_errors` -- the criteria whose errors depend on nothing but themselves.
-/
import JsonDatabase.Query

namespace JsonDatabase

open PyVal hiding none

/-! ## 1. Comparisons raise no `QueryError` -/

/-- Not a `QueryError`. -/
def NoQueryError (e : PyExc) : Prop := e.type ≠ .queryError

theorem eqVals_raises (a b : PyVal) : RaisesOnly (· ≠ .queryError) (eqVals a b) := by
  unfold eqVals
  split
  · exact .error ExcType.noConfusion
  · exact .ok _

theorem compareNums_raises (op : CmpOp) (a b : PyVal) :
    RaisesOnly (· ≠ .queryError) (compareNums op a b) := by
  unfold compareNums
  split
  · split
    · exact .error ExcType.noConfusion
    · exact .error ExcType.noConfusion
    · exact .ok _
  · exact .error ExcType.noConfusion

theorem compareList_raises {op : CmpOp} : ∀ {xs : List PyVal},
    (∀ x ∈ xs, ∀ y, RaisesOnly (· ≠ .queryError) (compareVals op x y)) →
      ∀ ys, RaisesOnly (· ≠ .queryError) (compareList op xs ys)
  | [], _, [] => .ok _
  | [], _, _ :: _ => .ok _
  | _ :: _, _, [] => .ok _
  | x :: xs, h, y :: ys => by
      rw [compareList]
      split
      · exact .error ExcType.noConfusion
      · split
        · exact compareList_raises (fun x hx => h x (List.mem_cons_of_mem _ hx)) ys
        · exact h x List.mem_cons_self y

theorem compareVals_raises (op : CmpOp) (a b : PyVal) :
    RaisesOnly (· ≠ .queryError) (compareVals op a b) := by
  have typeError : RaisesOnly (· ≠ .queryError) (.error .typeError : Except ExcType Bool) :=
    .error ExcType.noConfusion
  induction a using PyVal.induct generalizing b with
  | list xs ih =>
    cases b with
    | list ys => exact compareList_raises (fun x hx y => ih x hx y) ys
    | _ => exact typeError
  | tuple xs ih =>
    cases b with
    | tuple ys => exact compareList_raises (fun x hx y => ih x hx y) ys
    | _ => exact typeError
  | datetime d =>
    cases b with
    | datetime d' =>
      rw [compareVals]
      split
      · exact .ok _
      · exact typeError
    | _ => exact typeError
  | set xs =>
    rw [compareVals]
    split
    · exact .ok _
    · exact typeError
  | frozenset xs =>
    rw [compareVals]
    split
    · exact .ok _
    · exact typeError
  | str s =>
    cases b with
    | str t => exact .ok _
    | _ => exact typeError
  | bytes s =>
    cases b with
    | bytes t => exact .ok _
    | _ => exact typeError
  | date s =>
    cases b with
    | date t => exact .ok _
    | _ => exact typeError
  | bool _ => exact compareNums_raises op _ b
  | int _ => exact compareNums_raises op _ b
  | float _ => exact compareNums_raises op _ b
  | decimal _ => exact compareNums_raises op _ b
  | none => exact typeError
  | dict _ _ => exact typeError
  | other _ _ => exact typeError

theorem containsList_raises (e : PyVal) : ∀ xs,
    RaisesOnly (· ≠ .queryError) (containsList e xs)
  | [] => .ok _
  | x :: xs => by
      rw [containsList]
      split
      · exact .error ExcType.noConfusion
      · split
        · exact .ok _
        · exact containsList_raises e xs

theorem pyContains_raises (v e : PyVal) : RaisesOnly (· ≠ .queryError) (pyContains v e) := by
  have guarded {c : Prop} [Decidable c] (b : Bool) : RaisesOnly (· ≠ .queryError)
      (if c then .ok b else .error .typeError : Except ExcType Bool) := by
    split
    · exact .ok _
    · exact .error ExcType.noConfusion
  cases v with
  | str s =>
    cases e with
    | str t => exact .ok _
    | _ => exact .error ExcType.noConfusion
  | bytes b =>
    cases e with
    | bytes c => exact .ok _
    | int i =>
      rw [pyContains]
      split
      · exact .ok _
      · exact .error ExcType.noConfusion
    | bool t => exact .ok _
    | _ => exact .error ExcType.noConfusion
  | list xs => exact containsList_raises e xs
  | tuple xs => exact containsList_raises e xs
  | set xs => exact guarded _
  | frozenset xs => exact guarded _
  | dict kvs => exact guarded _
  | _ => exact .error ExcType.noConfusion

theorem builtin_raises {α : Type} {x : Except ExcType α} (h : RaisesOnly (· ≠ .queryError) x) :
    RaisesOnly NoQueryError (builtin x) := by
  cases x with
  | ok a => exact .ok a
  | error t => exact .error (h t rfl)

theorem orFalse_raises {x : Except ExcType Bool} (h : RaisesOnly (· ≠ .queryError) x) :
    RaisesOnly NoQueryError (orFalse x) := by
  unfold orFalse
  split
  · exact .ok _
  · exact builtin_raises h

/-! ## 2. Well-formed criteria -/

/-- A key that starts with a dollar sign. -/
def isDollar : PyKey → Bool
  | .str s => s.head? = some (ch '$')
  | .other _ _ => false

/-- `$in` and `$nin` take a list. -/
def operandOk : QueryOp → PyVal → Bool
  | .isIn, .list _ | .nin, .list _ => true
  | .isIn, _ | .nin, _ => false
  | _, _ => true

/-- A supported operator with an operand that it takes. -/
def operatorOk (entry : PyKey × PyVal) : Bool :=
  match Dict.get OPERATORS entry.1 with
  | some op => operandOk op entry.2
  | none => false

/-- A value to compare with, or an expression of operators only. -/
def expectedOk : PyVal → Bool
  | .dict expression =>
    if expression.any (fun kv => isDollar kv.1) then
      expression.all fun kv => isDollar kv.1 && operatorOk kv
    else true
  | _ => true

/-- A field name with what is expected of the field. -/
def fieldOk (entry : PyKey × PyVal) : Bool :=
  match entry.1 with
  | .str _ => expectedOk entry.2
  | .other _ _ => false

/-- Well-formed criteria. -/
def criteriaOk : PyVal → Bool
  | .none => true
  | .dict criteria => criteria.all fieldOk
  | _ => false

/-- The operator gives up on a missing field, whatever its operand. -/
def stopsOperator (entry : PyKey × PyVal) : Bool :=
  match Dict.get OPERATORS entry.1 with
  | none | some .ne | some .nin => false
  | some .present => truthy entry.2
  | some _ => true

/-- What is expected asks for the field: a value, or an expression with such an operator. -/
def expectedStops : PyVal → Bool
  | .dict expression =>
    if expression.any (fun kv => isDollar kv.1) then
      expression.all (fun kv => isDollar kv.1) && expression.any stopsOperator
    else true
  | _ => true

/-- A field at which criteria can fail on a document without fields. -/
def stops (entry : PyKey × PyVal) : Bool :=
  match entry.1 with
  | .str _ => expectedStops entry.2
  | .other _ _ => false

theorem length_opKeys : ∀ d : PyDict,
    ((strKeys d).filter fun k => k.head? = some (ch '$')).length = d.countP fun kv => isDollar kv.1
  | [] => rfl
  | (.str s, v) :: d => by
      rw [List.countP_cons, ← length_opKeys d, strKeys, List.filterMap_cons, List.filter_cons]
      split <;> rename_i h <;> simp [isDollar, strKeys, of_decide_eq_true, h]
  | (.other t i, v) :: d => by
      rw [List.countP_cons, ← length_opKeys d]
      rfl

/-- An expression has operators or not; one that mixes them with other keys raises. -/
theorem isOperatorExpression_dict (d : PyDict) :
    (d.any (fun kv => isDollar kv.1) = false ∧ isOperatorExpression (.dict d) = .ok false) ∨
    (d.any (fun kv => isDollar kv.1) = true ∧ d.all (fun kv => isDollar kv.1) = true ∧
      isOperatorExpression (.dict d) = .ok true) ∨
    (d.any (fun kv => isDollar kv.1) = true ∧ d.all (fun kv => isDollar kv.1) = false ∧
      ∃ e, isOperatorExpression (.dict d) = .error e ∧ e.type = .queryError) := by
  have hlen := length_opKeys d
  rw [isOperatorExpression]
  by_cases hn : ((strKeys d).filter fun k => k.head? = some (ch '$')) = []
  · refine Or.inl ⟨?_, if_pos hn⟩
    rw [hn, List.length_nil, eq_comm, List.countP_eq_zero] at hlen
    rw [List.any_eq_false]
    exact hlen
  · have hany : d.any (fun kv => isDollar kv.1) = true := by
      rw [List.any_eq_true]
      exact List.countP_pos_iff.mp (hlen ▸ List.length_pos_iff.mpr hn)
    rw [if_neg hn, hlen]
    by_cases hall : d.countP (fun kv => isDollar kv.1) = d.length
    · refine Or.inr (Or.inl ⟨hany, ?_, if_neg (not_not.mpr hall)⟩)
      exact List.all_eq_true.mpr (List.countP_eq_length.mp hall)
    · refine Or.inr (Or.inr ⟨hany, ?_, _, if_pos hall, rfl⟩)
      rw [Bool.eq_false_iff]
      exact fun h => hall (List.countP_eq_length.mpr (List.all_eq_true.mp h))

/-! ## 3. Well-formed criteria never raise -/

theorem isMember_raises (name : String) (actual : PyVal) (xs : List PyVal) :
    RaisesOnly NoQueryError (isMember name actual (.list xs)) :=
  builtin_raises (containsList_raises actual xs)

theorem matchesOperator_raises {op : QueryOp} {expected : PyVal} (h : operandOk op expected = true)
    (actual : PyVal) (present : Bool) :
    RaisesOnly NoQueryError (matchesOperator actual present expected op) := by
  have ifPresent {x : Except PyExc Bool} {b : Bool} (hx : RaisesOnly NoQueryError x) :
      RaisesOnly NoQueryError (if present then x else .ok b) := by
    cases present with
    | true => exact hx
    | false => exact .ok _
  have equal := builtin_raises (eqVals_raises actual expected)
  cases op with
  | present => exact .ok _
  | eq => exact ifPresent equal
  | ne => exact ifPresent (.map _ equal)
  | order op => exact ifPresent (orFalse_raises (compareVals_raises op actual expected))
  | contains => exact ifPresent (orFalse_raises (pyContains_raises actual expected))
  | isIn =>
    cases expected with
    | list xs => exact ifPresent (isMember_raises _ _ _)
    | _ => cases h
  | nin =>
    cases expected with
    | list xs => exact ifPresent (.map _ (isMember_raises _ _ _))
    | _ => cases h

theorem matchesOperators_raises (actual : PyVal) (present : Bool) : ∀ {expression : PyDict},
    (∀ kv ∈ expression, operatorOk kv = true) →
      RaisesOnly NoQueryError (matchesOperators actual present expression)
  | [], _ => .ok _
  | (k, x) :: rest, h => by
      have hk := h (k, x) List.mem_cons_self
      rw [operatorOk] at hk
      rw [matchesOperators]
      split at hk
      · rename_i op hg
        rw [hg]
        refine .bind (matchesOperator_raises hk actual present) fun ok _ => ?_
        cases ok with
        | false => exact .ok _
        | true =>
          exact matchesOperators_raises actual present fun kv hkv =>
            h kv (List.mem_cons_of_mem _ hkv)
      · cases hk

theorem matchesField_raises {entry : PyKey × PyVal} (h : fieldOk entry = true)
    (document : PyDict) : RaisesOnly NoQueryError (matchesField document entry.1 entry.2) := by
  obtain ⟨field, expected⟩ := entry
  cases field with
  | other t i => cases h
  | str s =>
    have equal : RaisesOnly NoQueryError (if Dict.contains document (.str s) then
        builtin (eqVals ((Dict.get document (.str s)).getD .none) expected) else .ok false) := by
      split
      · exact builtin_raises (eqVals_raises _ _)
      · exact .ok _
    cases expected with
    | dict expression =>
      rw [matchesField]
      rcases isOperatorExpression_dict expression with ⟨-, hop⟩ | ⟨hany, -, hop⟩ | ⟨hany, hall, -⟩
      · rw [hop]
        exact equal
      · rw [fieldOk, expectedOk, if_pos hany, List.all_eq_true] at h
        rw [hop]
        exact matchesOperators_raises _ _ fun kv hkv => (Bool.and_eq_true_iff.mp (h kv hkv)).2
      · rw [fieldOk, expectedOk, if_pos hany, List.all_eq_true] at h
        rw [Bool.eq_false_iff] at hall
        have hdollar := fun kv hkv => (Bool.and_eq_true_iff.mp (h kv hkv)).1
        exact absurd (List.all_eq_true.mpr hdollar) hall
    | _ => exact equal

theorem matchesFields_raises (document : PyDict) : ∀ {criteria : PyDict},
    (∀ entry ∈ criteria, fieldOk entry = true) →
      RaisesOnly NoQueryError (matchesFields (.dict document) criteria)
  | [], _ => .ok _
  | (k, e) :: rest, h => by
      show RaisesOnly NoQueryError (matchesField document k e >>= fun ok =>
        if ok then matchesFields (.dict document) rest else .ok false)
      refine .bind (matchesField_raises (h (k, e) List.mem_cons_self) document) fun ok _ => ?_
      cases ok with
      | false => exact .ok _
      | true =>
        exact matchesFields_raises document fun entry he => h entry (List.mem_cons_of_mem _ he)

theorem matchesCriteria_raises {criteria : PyVal} (h : criteriaOk criteria = true)
    (document : PyDict) : RaisesOnly NoQueryError (matchesCriteria (.dict document) criteria) := by
  cases criteria with
  | none => exact .ok _
  | dict criteria => exact matchesFields_raises document (List.all_eq_true.mp h)
  | _ => cases h

theorem selectDocuments_raises {criteria : PyVal} (h : criteriaOk criteria = true) :
    ∀ documents : List PyDict,
      RaisesOnly NoQueryError (selectDocuments criteria (documents.map PyVal.dict))
  | [] => .ok _
  | document :: rest => .bind (matchesCriteria_raises h document) fun _ _ =>
      .bind (selectDocuments_raises h rest) fun _ _ => .ok _

/-- **Well-formed criteria never raise `QueryError`.** -/
theorem criteriaOk_raises {criteria : PyVal} (h : criteriaOk criteria = true)
    (documents : List PyDict) :
    RaisesOnly NoQueryError (filterDocuments (documents.map PyVal.dict) criteria) :=
  .bind (matchesCriteria_raises h []) fun _ _ => selectDocuments_raises h documents

/-! ## 4. The trial on an empty document -/

/-- One outcome of the trial: it goes on, or it raises `QueryError`. -/
def Tried (ok : Bool) (r : Except PyExc Bool) : Prop :=
  (ok = true ∧ r = .ok true) ∨ (ok = false ∧ ∃ e, r = .error e ∧ e.type = .queryError)

theorem Tried.bind {a b : Bool} {x y : Except PyExc Bool} (hx : Tried a x) (hy : Tried b y) :
    Tried (a && b) (x >>= fun ok => if ok then y else .ok false) := by
  rcases hx with ⟨rfl, rfl⟩ | ⟨rfl, e, rfl, he⟩
  · exact hy
  · exact Or.inr ⟨rfl, e, rfl, he⟩

/-- An operator that does not give up on a missing field. -/
theorem matchesOperators_tried (actual : PyVal) : ∀ {expression : PyDict},
    (∀ kv ∈ expression, stopsOperator kv = false) →
      Tried (expression.all operatorOk) (matchesOperators actual false expression)
  | [], _ => Or.inl ⟨rfl, rfl⟩
  | (k, x) :: rest, h => by
      have hk := h (k, x) List.mem_cons_self
      have hrest := matchesOperators_tried actual fun kv hkv => h kv (List.mem_cons_of_mem _ hkv)
      rw [matchesOperators, List.all_cons]
      unfold stopsOperator at hk
      unfold operatorOk
      cases hg : Dict.get OPERATORS k with
      | none => exact Or.inr ⟨rfl, _, rfl, rfl⟩
      | some op =>
        simp only [hg] at hk ⊢
        refine Tried.bind ?_ hrest
        cases op with
        | ne => exact Or.inl ⟨rfl, rfl⟩
        | present => exact Or.inl ⟨rfl, congrArg Except.ok (by simp only [hk]; rfl)⟩
        | nin =>
          cases x with
          | list xs => exact Or.inl ⟨rfl, rfl⟩
          | _ => exact Or.inr ⟨rfl, _, rfl, rfl⟩
        | _ => cases hk

/-- An operator that gives up, in front. -/
theorem matchesOperators_stop {actual : PyVal} {kv : PyKey × PyVal} (h : stopsOperator kv = true)
    (rest : PyDict) : matchesOperators actual false (kv :: rest) = .ok false := by
  obtain ⟨k, x⟩ := kv
  rw [matchesOperators]
  unfold stopsOperator at h
  cases hg : Dict.get OPERATORS k with
  | none =>
    rw [hg] at h
    cases h
  | some op =>
    simp only [hg] at h ⊢
    cases op with
    | ne => cases h
    | nin => cases h
    | present =>
      have ht : truthy x = true := h
      rw [matchesOperator, ht]
      rfl
    | _ => rfl

/-- A field at which the trial does not stop. -/
theorem matchesField_tried {entry : PyKey × PyVal} (h : stops entry = false) :
    Tried (fieldOk entry) (matchesField [] entry.1 entry.2) := by
  obtain ⟨field, expected⟩ := entry
  cases field with
  | other t i => exact Or.inr ⟨rfl, _, rfl, rfl⟩
  | str s =>
    cases expected with
    | dict expression =>
      have h : expectedStops (.dict expression) = false := h
      rw [expectedStops] at h
      rw [matchesField, fieldOk, expectedOk]
      rcases isOperatorExpression_dict expression with ⟨hany, -⟩ | ⟨hany, hall, hop⟩ |
        ⟨hany, hall, e, hop, he⟩
      · rw [hany] at h
        cases h
      · rw [if_pos hany, hall, Bool.true_and, List.any_eq_false] at h
        have hok : (expression.all fun kv => isDollar kv.1 && operatorOk kv) =
            expression.all operatorOk := by
          rw [Bool.eq_iff_iff, List.all_eq_true, List.all_eq_true]
          refine forall₂_congr fun kv hkv => ?_
          rw [List.all_eq_true.mp hall kv hkv, Bool.true_and]
        rw [if_pos hany, hok, hop]
        exact matchesOperators_tried _ fun kv hkv => Bool.eq_false_iff.mpr (h kv hkv)
      · have hok : (expression.all fun kv => isDollar kv.1 && operatorOk kv) = false := by
          rw [Bool.eq_false_iff] at hall ⊢
          exact fun h => hall (List.all_eq_true.mpr fun kv hkv =>
            (Bool.and_eq_true_iff.mp (List.all_eq_true.mp h kv hkv)).1)
        rw [if_pos hany, hok, hop]
        exact Or.inr ⟨rfl, e, rfl, he⟩
    | _ => cases h

/-- Fields at none of which the trial stops. -/
theorem matchesFields_tried : ∀ {criteria : PyDict},
    (∀ entry ∈ criteria, stops entry = false) →
      Tried (criteria.all fieldOk) (matchesFields (.dict []) criteria)
  | [], _ => Or.inl ⟨rfl, rfl⟩
  | entry :: rest, h => by
      rw [List.all_cons]
      exact (matchesField_tried (h entry List.mem_cons_self)).bind
        (matchesFields_tried fun e he => h e (List.mem_cons_of_mem _ he))

/-- The entries of an expression in another order. -/
inductive SameExpression : PyVal → PyVal → Prop where
  | refl (v : PyVal) : SameExpression v v
  | perm {a b : PyDict} : a.Perm b → SameExpression (.dict a) (.dict b)

/-- A field at which the trial can stop stops it, when the right operator is in front. -/
theorem matchesField_stop {k : PyKey} {v : PyVal} (h : stops (k, v) = true) :
    ∃ w, SameExpression v w ∧ matchesField [] k w = .ok false := by
  cases k with
  | other t i => cases h
  | str s =>
    cases v with
    | dict expression =>
      have h : expectedStops (.dict expression) = true := h
      rw [expectedStops] at h
      rcases isOperatorExpression_dict expression with ⟨-, hop⟩ | ⟨hany, hall, -⟩ |
        ⟨hany, hall, -⟩
      · refine ⟨_, .refl _, ?_⟩
        rw [matchesField, hop]
        rfl
      · rw [if_pos hany, hall, Bool.true_and, List.any_eq_true] at h
        obtain ⟨kv, hkv, hstop⟩ := h
        obtain ⟨a, b, rfl⟩ := List.append_of_mem hkv
        have hp : (a ++ kv :: b).Perm (kv :: (a ++ b)) := List.perm_middle
        refine ⟨.dict (kv :: (a ++ b)), .perm hp, ?_⟩
        have hop : isOperatorExpression (.dict (kv :: (a ++ b))) = .ok true := by
          rcases isOperatorExpression_dict (kv :: (a ++ b)) with ⟨hno, -⟩ | ⟨-, -, hop⟩ |
            ⟨-, hno, -⟩
          · rw [← hp.any_eq, hany] at hno
            cases hno
          · exact hop
          · rw [← hp.all_eq, hall] at hno
            cases hno
        rw [matchesField, hop]
        exact matchesOperators_stop hstop _
      · rw [if_pos hany, hall] at h
        cases h
    | _ => exact ⟨_, .refl _, rfl⟩

/-! ## 5. Errors that depend on nothing but the criteria -/

/-- `find` raises `QueryError` on these documents. -/
def Raises (documents : List PyDict) (criteria : PyVal) : Prop :=
  ∃ e, filterDocuments (documents.map PyVal.dict) criteria = .error e ∧ e.type = .queryError

/-- The same field, and what is expected of it up to the order of its entries. -/
def SameField (x y : PyKey × PyVal) : Prop := x.1 = y.1 ∧ SameExpression x.2 y.2

/-- The fields of the criteria in another order, and the entries of each expression. -/
inductive Rearranged : PyVal → PyVal → Prop where
  | refl (v : PyVal) : Rearranged v v
  | fields {a b c : PyDict} : a.Perm b → List.Forall₂ SameField b c → Rearranged (.dict a) (.dict c)

/-- Some field of the criteria is one at which the trial can stop. -/
def criteriaStops : PyVal → Bool
  | .dict criteria => criteria.any stops
  | _ => false

/-- Whether `QueryError` is raised depends on neither the documents nor the order of the criteria:
    it is for malformed criteria, and is not for well-formed ones. -/
structure DataFree (criteria : PyVal) : Prop where
  documents : ∀ docs docs', Raises docs criteria ↔ Raises docs' criteria
  order : ∀ criteria', Rearranged criteria criteria' → ∀ docs, Raises docs criteria ↔
    Raises docs criteria'
  malformed : criteriaOk criteria = false → ∀ docs, Raises docs criteria
  wellFormed : criteriaOk criteria = true → ∀ docs, ¬ Raises docs criteria

theorem SameExpression.expectedOk {v w : PyVal} (h : SameExpression v w) :
    expectedOk v = JsonDatabase.expectedOk w := by
  cases h with
  | refl => rfl
  | perm hp => rw [JsonDatabase.expectedOk, JsonDatabase.expectedOk, hp.any_eq, hp.all_eq]

theorem SameExpression.expectedStops {v w : PyVal} (h : SameExpression v w) :
    expectedStops v = JsonDatabase.expectedStops w := by
  cases h with
  | refl => rfl
  | perm hp =>
    simp only [JsonDatabase.expectedStops, hp.any_eq, hp.all_eq]

theorem SameField.fieldOk {x y : PyKey × PyVal} (h : SameField x y) :
    fieldOk x = JsonDatabase.fieldOk y := by
  obtain ⟨k, v⟩ := x
  obtain ⟨k', w⟩ := y
  obtain ⟨rfl, hv⟩ : k = k' ∧ SameExpression v w := h
  cases k with
  | str s => exact hv.expectedOk
  | other t i => rfl

theorem SameField.stops {x y : PyKey × PyVal} (h : SameField x y) :
    stops x = JsonDatabase.stops y := by
  obtain ⟨k, v⟩ := x
  obtain ⟨k', w⟩ := y
  obtain ⟨rfl, hv⟩ : k = k' ∧ SameExpression v w := h
  cases k with
  | str s => exact hv.expectedStops
  | other t i => rfl

theorem all_sameField {b c : PyDict} (h : List.Forall₂ SameField b c) :
    b.all fieldOk = c.all fieldOk ∧ b.any stops = c.any stops := by
  induction h with
  | nil => exact ⟨rfl, rfl⟩
  | cons hxy _ ih =>
    simp only [List.all_cons, List.any_cons, hxy.fieldOk, hxy.stops, ih.1, ih.2, and_self]

theorem Rearranged.criteria {c c' : PyVal} (h : Rearranged c c') :
    criteriaOk c = criteriaOk c' ∧ criteriaStops c = criteriaStops c' := by
  cases h with
  | refl => exact ⟨rfl, rfl⟩
  | fields hp hs =>
    obtain ⟨hok, hstops⟩ := all_sameField hs
    exact ⟨hp.all_eq.trans hok, hp.any_eq.trans hstops⟩

/-- Malformed criteria at which the trial cannot stop are rejected by it. -/
theorem raises_of_tried {criteria : PyVal} (hok : criteriaOk criteria = false)
    (hs : criteriaStops criteria = false) (documents : List PyDict) :
    Raises documents criteria := by
  suffices h : ∃ e, matchesCriteria (.dict []) criteria = .error e ∧ e.type = .queryError by
    obtain ⟨e, he, ht⟩ := h
    refine ⟨e, ?_, ht⟩
    rw [filterDocuments, he]
    rfl
  cases criteria with
  | none => cases hok
  | dict criteria =>
    have hs := List.any_eq_false.mp hs
    have ht := matchesFields_tried fun entry he => Bool.eq_false_iff.mpr (hs entry he)
    rcases ht with ⟨h, -⟩ | ⟨-, h⟩
    · exact absurd (h.symm.trans hok) Bool.noConfusion
    · exact h
  | _ => exact ⟨_, rfl, rfl⟩

/-- Criteria at which the trial can stop have an order in which it does. -/
theorem exists_rearranged {criteria : PyVal} (h : criteriaStops criteria = true) :
    ∃ criteria', Rearranged criteria criteria' ∧ ¬ Raises [] criteria' := by
  cases criteria with
  | dict criteria =>
    obtain ⟨⟨k, v⟩, hm, hstop⟩ := List.any_eq_true.mp h
    obtain ⟨a, b, rfl⟩ := List.append_of_mem hm
    obtain ⟨w, hw, hfalse⟩ := matchesField_stop hstop
    refine ⟨.dict ((k, w) :: (a ++ b)), .fields List.perm_middle (.cons ⟨rfl, hw⟩ ?_), ?_⟩
    · exact List.forall₂_same.mpr fun x _ => ⟨rfl, .refl _⟩
    · intro hr
      obtain ⟨e, he, -⟩ := hr
      have htrial : matchesCriteria (.dict []) (.dict ((k, w) :: (a ++ b))) = .ok false := by
        show (matchesField [] k w >>= fun ok =>
          if ok then matchesFields (.dict []) (a ++ b) else .ok false) = _
        rw [hfalse]
        rfl
      rw [filterDocuments, htrial] at he
      cases he
  | _ => cases h

/-- `find` on a collection with these documents. -/
theorem findDocuments_raises {cp : Copier} {s : State} {collection : PyVal}
    {documents : List PyDict} (h : allDocuments cp s collection = .ok (documents.map PyVal.dict))
    (criteria : PyVal) : (∃ e, findDocuments cp s collection criteria = .error e ∧
      e.type = .queryError) ↔ Raises documents criteria := by
  rw [findDocuments, h]
  rfl

/-- A missing collection has no documents. -/
theorem allDocuments_missing {cp : Copier} {s : State} {collection : PyVal} {cs : PyDict}
    (hn : validateCollectionName collection = .ok ()) (hc : collectionsOf s = .ok cs)
    (hm : Dict.get cs collection.toKey = none) :
    allDocuments cp s collection = .ok (([] : List PyDict).map PyVal.dict) := by
  unfold allDocuments getCollectionRefOrEmpty
  simp only [hn, hc, hm, bind, Except.bind, pure, Except.pure]
  rfl

/-- **Which criteria raise the same on all data**: the well-formed ones, and those at none of whose
    fields the trial can stop. -/
theorem dataFree_iff (criteria : PyVal) :
    DataFree criteria ↔ criteriaOk criteria = true ∨ criteriaStops criteria = false := by
  constructor
  · intro h
    by_contra hn
    rw [not_or, Bool.not_eq_true, Bool.not_eq_false] at hn
    obtain ⟨hok, hs⟩ := hn
    obtain ⟨criteria', hc, hn⟩ := exists_rearranged hs
    exact hn ((h.order criteria' hc []).mp (h.malformed hok []))
  · intro h
    have never {c : PyVal} (hok : criteriaOk c = true) (docs : List PyDict) : ¬ Raises docs c :=
      fun hr => by
        obtain ⟨e, he, ht⟩ := hr
        exact criteriaOk_raises hok docs e he ht
    cases hok : criteriaOk criteria with
    | true =>
      exact
        { documents := fun docs docs' => iff_of_false (never hok docs) (never hok docs')
          order := fun c' hc docs =>
            iff_of_false (never hok docs) (never (hc.criteria.1.symm.trans hok) docs)
          malformed := fun hf => absurd (hok.symm.trans hf) Bool.noConfusion
          wellFormed := fun _ => never hok }
    | false =>
      have hs := h.resolve_left (by rw [hok]; exact Bool.false_ne_true)
      have always := raises_of_tried hok hs
      exact
        { documents := fun docs docs' => iff_of_true (always docs) (always docs')
          order := fun c' hc docs => iff_of_true (always docs)
            (raises_of_tried (hc.criteria.1.symm.trans hok) (hc.criteria.2.symm.trans hs) docs)
          malformed := fun _ => always
          wellFormed := fun hf => absurd (hok.symm.trans hf) Bool.noConfusion }

/-- **Which queries raise the same on all data.** Whether `find` raises `QueryError` depends on
    nothing but the criteria iff these are well formed or the trial cannot stop at any of their
    fields; a missing collection is an empty one. -/
theorem query_errors (criteria : PyVal) :
    (DataFree criteria ↔ criteriaOk criteria = true ∨ criteriaStops criteria = false) ∧
    (∀ cp s collection documents, allDocuments cp s collection = .ok (documents.map PyVal.dict) →
      ((∃ e, findDocuments cp s collection criteria = .error e ∧ e.type = .queryError) ↔
        Raises documents criteria)) ∧
    ∀ cp s collection cs, validateCollectionName collection = .ok () → collectionsOf s = .ok cs →
      Dict.get cs collection.toKey = none →
      ((∃ e, findDocuments cp s collection criteria = .error e ∧ e.type = .queryError) ↔
        Raises [] criteria) :=
  ⟨dataFree_iff criteria, fun _ _ _ _ h => findDocuments_raises h criteria,
    fun _ _ _ _ hn hc hm => findDocuments_raises (allDocuments_missing hn hc hm) criteria⟩

/-- A field with an operator that there is none of. -/
def nearField : PyKey × PyVal := (.str (lit "age"), .dict [(.str (lit "$near"), .int 20)])

/-- A field with a value. -/
def nameField : PyKey × PyVal := (.str (lit "name"), .str (lit "Ava"))

theorem raises_first {criteria : PyVal} {document : PyDict} {ok : Bool} {e : PyExc}
    (ht : matchesCriteria (.dict []) criteria = .ok ok)
    (h : matchesCriteria (.dict document) criteria = .error e) (he : e.type = .queryError) :
    Raises [document] criteria := by
  refine ⟨e, ?_, he⟩
  rw [filterDocuments, ht]
  show (matchesCriteria (.dict document) criteria >>= _) = _
  rw [h]
  rfl

theorem matchesFields_nameField (rest : PyDict) :
    matchesFields (.dict [nameField]) (nameField :: rest) =
      matchesFields (.dict [nameField]) rest := by
  have heq : eqVals (.str (lit "Ava")) (.str (lit "Ava")) = .ok true := by
    simp [eqVals, eqRaises, pyEq]
  show (builtin (eqVals (.str (lit "Ava")) (.str (lit "Ava"))) >>= fun ok =>
    if ok then matchesFields (.dict [nameField]) rest else .ok false) = _
  rw [heq]
  rfl

/-- **A malformed operator that is missed** on an empty collection, and found where a document has
    the field in front of it, or when it stands in front itself. -/
theorem near_missed : criteriaOk (.dict [nameField, nearField]) = false ∧
    Rearranged (.dict [nameField, nearField]) (.dict [nearField, nameField]) ∧
    ¬ Raises [] (.dict [nameField, nearField]) ∧ Raises [] (.dict [nearField, nameField]) ∧
    Raises [[nameField]] (.dict [nameField, nearField]) := by
  refine ⟨by decide, .fields (.swap _ _ _) ?_, fun h => ?_, ⟨_, rfl, rfl⟩, ?_⟩
  · exact List.forall₂_same.mpr fun x _ => ⟨rfl, .refl _⟩
  · obtain ⟨e, he, -⟩ := h
    cases he
  · exact raises_first rfl (matchesFields_nameField [nearField]) rfl

end JsonDatabase
