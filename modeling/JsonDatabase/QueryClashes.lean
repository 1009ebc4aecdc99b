/-
  File:      JsonDatabase/QueryClashes.lean
  Subject:   When a well-formed query raises.

  A comparison that raises `TypeError` does not match. Python has other exceptions for it: a
  `Decimal` that is not a number raises `InvalidOperation` when it is ordered, and a signaling one
  also by `==`; an integer that is no byte raises `ValueError` when it is looked for in bytes.

  * `orderClash`, `memberClash`, `containsClash` -- the pairs of values on which that happens;
  * `conditions` -- the criteria as one list of conditions, `Condition.holds` -- what each asks;
  * `well_formed_queries` -- the queries that return, exactly.
-/
import JsonDatabase.QueryErrors
import JsonDatabase.Visibility

namespace JsonDatabase

open PyVal hiding none

/-! ## 1. Pairs of values that clash -/

def isNaN (v : PyVal) : Bool :=
  match v.num with
  | some .nan => true
  | _ => false

/-- Two numbers, one of them a `Decimal` and one of them not a number. -/
def numClash (a b : PyVal) : Bool :=
  a.num.isSome && b.num.isSome && (a.isDecimal || b.isDecimal) && (isNaN a || isNaN b)

mutual
/-- An ordering raises something else than `TypeError`. -/
def orderClash : PyVal → PyVal → Bool
  | .list xs, w => match w with | .list ys => listClash xs ys | _ => false
  | .tuple xs, w => match w with | .tuple ys => listClash xs ys | _ => false
  | .bool b, w => numClash (.bool b) w
  | .int i, w => numClash (.int i) w
  | .float f, w => numClash (.float f) w
  | .decimal d, w => numClash (.decimal d) w
  | _, _ => false

/-- Sequences clash where they first differ, or on the way there. -/
def listClash : List PyVal → List PyVal → Bool
  | x :: xs, y :: ys => eqRaises x y || if pyEq x y then listClash xs ys else orderClash x y
  | _, _ => false
end

/-- `e in xs` raises: `==` does before a member is equal. -/
def memberClash (e : PyVal) : List PyVal → Bool
  | [] => false
  | x :: xs => eqRaises x e || (!pyEq x e && memberClash e xs)

/-- `e in v` raises something else than `TypeError`. -/
def containsClash (v e : PyVal) : Bool :=
  match v, e with
  | .bytes _, .int i => !decide (0 ≤ i ∧ i < 256)
  | .list xs, e | .tuple xs, e => memberClash e xs
  | _, _ => false

/-- A computation that raises just when there is a clash. -/
def ClashIff (clash : Bool) (x : Except ExcType Bool) : Prop :=
  (clash = true ∧ ∃ t, x = .error t ∧ t ≠ .typeError) ∨
    (clash = false ∧ ∀ t, x = .error t → t = .typeError)

namespace ClashIff

theorem ok (b : Bool) : ClashIff false (.ok b) := Or.inr ⟨rfl, nofun⟩

theorem typeError : ClashIff false (.error .typeError) :=
  Or.inr ⟨rfl, fun _ h => (Except.error.inj h).symm⟩

theorem raised {t : ExcType} (h : t ≠ .typeError) : ClashIff true (.error t) :=
  Or.inl ⟨rfl, t, rfl, h⟩

end ClashIff

theorem compareNums_clash (op : CmpOp) (a b : PyVal) :
    ClashIff (numClash a b) (compareNums op a b) := by
  unfold numClash compareNums isNaN
  cases ha : a.num with
  | none => exact .typeError
  | some x =>
    cases hb : b.num with
    | none => exact .typeError
    | some y =>
      cases hd : a.isDecimal || b.isDecimal with
      | false => cases x <;> cases y <;> exact .ok _
      | true =>
        cases x <;> cases y <;> first | exact .ok _ | exact .raised ExcType.noConfusion

theorem compareList_clash {op : CmpOp} : ∀ {xs : List PyVal},
    (∀ x ∈ xs, ∀ y, ClashIff (orderClash x y) (compareVals op x y)) →
      ∀ ys, ClashIff (listClash xs ys) (compareList op xs ys)
  | [], _, [] => .ok _
  | [], _, _ :: _ => .ok _
  | _ :: _, _, [] => .ok _
  | x :: xs, h, y :: ys => by
      rw [compareList, listClash]
      cases eqRaises x y with
      | true => exact .raised ExcType.noConfusion
      | false =>
        cases pyEq x y with
        | true => exact compareList_clash (fun x hx => h x (List.mem_cons_of_mem _ hx)) ys
        | false => exact h x List.mem_cons_self y

/-- **The orderings** raise something else than `TypeError` on the pairs that clash. -/
theorem compareVals_clash (op : CmpOp) (a b : PyVal) :
    ClashIff (orderClash a b) (compareVals op a b) := by
  induction a using PyVal.induct generalizing b with
  | list xs ih =>
    cases b with
    | list ys => exact compareList_clash (fun x hx y => ih x hx y) ys
    | _ => exact .typeError
  | tuple xs ih =>
    cases b with
    | tuple ys => exact compareList_clash (fun x hx y => ih x hx y) ys
    | _ => exact .typeError
  | datetime d =>
    cases b with
    | datetime d' =>
      rw [compareVals]
      split
      · exact .ok _
      · exact .typeError
    | _ => exact .typeError
  | set xs =>
    rw [compareVals]
    split
    · exact .ok _
    · exact .typeError
  | frozenset xs =>
    rw [compareVals]
    split
    · exact .ok _
    · exact .typeError
  | str s =>
    cases b with
    | str t => exact .ok _
    | _ => exact .typeError
  | bytes s =>
    cases b with
    | bytes t => exact .ok _
    | _ => exact .typeError
  | date s =>
    cases b with
    | date t => exact .ok _
    | _ => exact .typeError
  | bool x => exact compareNums_clash op (.bool x) b
  | int x => exact compareNums_clash op (.int x) b
  | float x => exact compareNums_clash op (.float x) b
  | decimal x => exact compareNums_clash op (.decimal x) b
  | none => exact .typeError
  | dict _ _ => exact .typeError
  | other _ _ => exact .typeError

theorem containsList_clash (e : PyVal) : ∀ xs,
    ClashIff (memberClash e xs) (containsList e xs)
  | [] => .ok _
  | x :: xs => by
      rw [containsList, memberClash]
      cases eqRaises x e with
      | true => exact .raised ExcType.noConfusion
      | false =>
        cases pyEq x e with
        | true => exact .ok _
        | false => exact containsList_clash e xs

/-- **Membership** raises something else than `TypeError` on the pairs that clash. -/
theorem pyContains_clash (v e : PyVal) : ClashIff (containsClash v e) (pyContains v e) := by
  have guarded {c : Prop} [Decidable c] (b : Bool) :
      ClashIff false (if c then .ok b else .error .typeError : Except ExcType Bool) := by
    split
    · exact .ok _
    · exact .typeError
  cases v with
  | str s =>
    cases e with
    | str t => exact .ok _
    | _ => exact .typeError
  | bytes b =>
    cases e with
    | bytes c => exact .ok _
    | bool t => exact .ok _
    | int i =>
      rw [pyContains, containsClash]
      by_cases h : 0 ≤ i ∧ i < 256
      · rw [if_pos h, decide_eq_true h]
        exact .ok _
      · rw [if_neg h, decide_eq_false h]
        exact .raised ExcType.noConfusion
    | _ => exact .typeError
  | list xs => exact containsList_clash e xs
  | tuple xs => exact containsList_clash e xs
  | set xs => exact guarded _
  | frozenset xs => exact guarded _
  | dict kvs => exact guarded _
  | _ => exact .typeError

/-! ## 2. The conditions of the criteria -/

/-- What is asked of one field: to equal a value, or to satisfy an operator. -/
inductive Condition where
  | equals (expected : PyVal)
  | operator (op : QueryOp) (expected : PyVal)

/-- The conditions in an expression of operators. -/
def operatorsOf (field : PyKey) (expression : PyDict) : List (PyKey × Condition) :=
  expression.filterMap fun kv =>
    (Dict.get OPERATORS kv.1).map fun op => (field, .operator op kv.2)

/-- The conditions on one field. -/
def conditionsOf (entry : PyKey × PyVal) : List (PyKey × Condition) :=
  match entry.2 with
  | .dict expression =>
    if expression.any (fun kv => isDollar kv.1) then operatorsOf entry.1 expression
    else [(entry.1, .equals entry.2)]
  | _ => [(entry.1, .equals entry.2)]

/-- All conditions, in order. -/
def conditions : PyVal → List (PyKey × Condition)
  | .dict criteria => criteria.flatMap conditionsOf
  | _ => []

/-- The field exists and is equal. -/
def equalTo (actual : Option PyVal) (expected : PyVal) : Bool := actual.any (pyEq · expected)

/-- The answer is yes. -/
def isTrue : Except ExcType Bool → Bool
  | .ok b => b
  | .error _ => false

/-- The members of a list. -/
def listed : PyVal → List PyVal
  | .list xs => xs
  | _ => []

namespace Condition

/-- **What a condition says** of the value of a field, if it exists. -/
def holds (actual : Option PyVal) : Condition → Bool
  | .equals expected | .operator .eq expected => equalTo actual expected
  | .operator .ne expected => !equalTo actual expected
  | .operator (.order op) expected => actual.any fun a => isTrue (compareVals op a expected)
  | .operator .isIn expected => (listed expected).any (equalTo actual)
  | .operator .nin expected => !(listed expected).any (equalTo actual)
  | .operator .contains expected => actual.any fun a => isTrue (pyContains a expected)
  | .operator .present expected => truthy expected == actual.isSome

/-- The comparison it needs raises something else than `TypeError`. -/
def clash (actual : Option PyVal) : Condition → Bool
  | .equals expected | .operator .eq expected | .operator .ne expected =>
    actual.any (eqRaises · expected)
  | .operator (.order _) expected => actual.any (orderClash · expected)
  | .operator .isIn expected | .operator .nin expected =>
    actual.any fun a => memberClash a (listed expected)
  | .operator .contains expected => actual.any (containsClash · expected)
  | .operator .present _ => false

/-- What the code computes for a condition. -/
def eval (actual : Option PyVal) : Condition → Except PyExc Bool
  | .equals expected =>
    if actual.isSome then builtin (eqVals (actual.getD .none) expected) else .ok false
  | .operator op expected => matchesOperator (actual.getD .none) actual.isSome expected op

/-- An operand that the operator takes. -/
def Ok : Condition → Prop
  | .equals expected => expected.wf
  | .operator op expected => operandOk op expected = true ∧ expected.wf

end Condition

/-- A computation returns `b`, unless there is a clash and it raises. -/
def Returns (clash : Bool) (b : Bool) (x : Except PyExc Bool) : Prop :=
  (clash = false ∧ x = .ok b) ∨ (clash = true ∧ ∃ e, x = .error e)

section

variable {clash b : Bool}

theorem Returns.not {x : Except PyExc Bool} (h : Returns clash b x) : Returns clash (!b) (x.map (!·)) := by
  rcases h with ⟨hc, rfl⟩ | ⟨hc, e, rfl⟩
  · exact Or.inl ⟨hc, rfl⟩
  · exact Or.inr ⟨hc, e, rfl⟩

theorem eqVals_returns (a e : PyVal) : Returns (eqRaises a e) (pyEq a e) (builtin (eqVals a e)) := by
  unfold eqVals
  cases eqRaises a e with
  | true => exact Or.inr ⟨rfl, _, rfl⟩
  | false => exact Or.inl ⟨rfl, rfl⟩

/-- A comparison whose `TypeError` counts as no. -/
theorem ClashIff.orFalse {x : Except ExcType Bool} (h : ClashIff clash x) :
    Returns clash (isTrue x) (JsonDatabase.orFalse x) := by
  rcases h with ⟨hc, t, rfl, ht⟩ | ⟨hc, ht⟩
  · refine Or.inr ⟨hc, .builtin t, ?_⟩
    cases t <;> first | exact absurd rfl ht | rfl
  · refine Or.inl ⟨hc, ?_⟩
    cases x with
    | ok b => rfl
    | error t =>
      cases ht t rfl
      rfl

/-- `in` of a list is the disjunction of `==` over its members. -/
theorem containsList_returns {a : PyVal} (ha : a.wf) : ∀ {xs : List PyVal}, (∀ x ∈ xs, x.wf) →
    Returns (memberClash a xs) (xs.any fun x => pyEq a x) (builtin (containsList a xs))
  | [], _ => Or.inl ⟨rfl, rfl⟩
  | x :: xs, hxs => by
      obtain ⟨hx, hxs⟩ := List.forall_mem_cons.mp hxs
      rw [containsList, memberClash, List.any_cons, pyEq_symm ha hx]
      cases eqRaises x a with
      | true => exact Or.inr ⟨rfl, _, rfl⟩
      | false =>
        cases pyEq x a with
        | true => exact Or.inl ⟨rfl, rfl⟩
        | false => exact containsList_returns ha hxs

end

/-- **One condition**: it is computed as it says, unless the comparison clashes. -/
theorem Condition.eval_returns {actual : Option PyVal} (ha : ∀ a, actual = some a → a.wf)
    {c : Condition} (hc : c.Ok) : Returns (c.clash actual) (c.holds actual) (c.eval actual) := by
  have missing {b : Bool} : Returns false b (.ok b) := Or.inl ⟨rfl, rfl⟩
  cases actual with
  | none =>
    cases c with
    | equals expected => exact missing
    | operator op expected =>
      cases op with
      | isIn =>
        cases expected with
        | list xs =>
          have hnone : xs.any (equalTo none) = false := List.any_eq_false.mpr fun _ _ => nofun
          show Returns false (xs.any (equalTo none)) (.ok false)
          rw [hnone]
          exact missing
        | _ => cases hc.1
      | nin =>
        cases expected with
        | list xs =>
          have hnone : xs.any (equalTo none) = false := List.any_eq_false.mpr fun _ _ => nofun
          show Returns false (!xs.any (equalTo none)) (.ok true)
          rw [hnone]
          exact missing
        | _ => cases hc.1
      | _ => exact missing
  | some a =>
    have ha := ha a rfl
    cases c with
    | equals expected => exact eqVals_returns a expected
    | operator op expected =>
      cases op with
      | eq => exact eqVals_returns a expected
      | ne => exact (eqVals_returns a expected).not
      | order op => exact (compareVals_clash op a expected).orFalse
      | contains => exact (pyContains_clash a expected).orFalse
      | present => exact missing
      | isIn =>
        cases expected with
        | list xs => exact containsList_returns ha (everywhere_list.mp hc.2).2
        | _ => cases hc.1
      | nin =>
        cases expected with
        | list xs => exact (containsList_returns ha (everywhere_list.mp hc.2).2).not
        | _ => cases hc.1

/-! ## 3. The criteria are their conditions, one after the other -/

/-- The conditions up to the first that does not hold. -/
def evalAll (document : PyDict) : List (PyKey × Condition) → Except PyExc Bool
  | [] => .ok true
  | p :: ps => do
    let ok ← p.2.eval (Dict.get document p.1)
    if ok then evalAll document ps else .ok false

section

variable {document : PyDict}

theorem evalAll_append (ps qs : List (PyKey × Condition)) :
    evalAll document (ps ++ qs) =
      evalAll document ps >>= fun ok => if ok then evalAll document qs else .ok false := by
  induction ps with
  | nil => rfl
  | cons p ps ih =>
    rw [List.cons_append, evalAll, evalAll, ih]
    cases p.2.eval (Dict.get document p.1) with
    | error e => rfl
    | ok b => cases b <;> rfl

theorem evalAll_singleton (p : PyKey × Condition) :
    evalAll document [p] = p.2.eval (Dict.get document p.1) := by
  rw [evalAll]
  cases p.2.eval (Dict.get document p.1) with
  | error e => rfl
  | ok b => cases b <;> rfl

theorem matchesOperators_eq (field : PyKey) : ∀ {expression : PyDict},
    (∀ kv ∈ expression, operatorOk kv = true) →
      matchesOperators ((Dict.get document field).getD .none) (Dict.contains document field)
        expression = evalAll document (operatorsOf field expression)
  | [], _ => rfl
  | (k, x) :: rest, h => by
      obtain ⟨hk, hrest⟩ := List.forall_mem_cons.mp h
      rw [operatorOk] at hk
      cases hg : Dict.get OPERATORS k with
      | none =>
        simp only [hg] at hk
        cases hk
      | some op =>
        have hcons : operatorsOf field ((k, x) :: rest) =
            (field, .operator op x) :: operatorsOf field rest := by
          simp [operatorsOf, hg]
        rw [matchesOperators, hg, hcons, evalAll, ← matchesOperators_eq field hrest]
        rfl

theorem matchesField_eq {entry : PyKey × PyVal} (h : fieldOk entry = true) :
    matchesField document entry.1 entry.2 = evalAll document (conditionsOf entry) := by
  obtain ⟨field, expected⟩ := entry
  cases field with
  | other t i => cases h
  | str s =>
    have equal : (if Dict.contains document (.str s) then
        builtin (eqVals ((Dict.get document (.str s)).getD .none) expected) else .ok false) =
          evalAll document [(.str s, .equals expected)] :=
      (evalAll_singleton (.str s, .equals expected)).symm
    cases expected with
    | dict expression =>
      show _ = evalAll document (if expression.any (fun kv => isDollar kv.1) then
        operatorsOf (.str s) expression else [(.str s, .equals (.dict expression))])
      rw [matchesField]
      rcases isOperatorExpression_dict expression with ⟨hany, hop⟩ | ⟨hany, -, hop⟩ | ⟨hany, hall, -⟩
      · rw [hop, hany]
        exact equal
      · rw [fieldOk, expectedOk, if_pos hany, List.all_eq_true] at h
        rw [hop, if_pos hany]
        exact matchesOperators_eq _ fun kv hkv => (Bool.and_eq_true_iff.mp (h kv hkv)).2
      · rw [fieldOk, expectedOk, if_pos hany, List.all_eq_true] at h
        rw [Bool.eq_false_iff] at hall
        have hdollar := fun kv hkv => (Bool.and_eq_true_iff.mp (h kv hkv)).1
        exact absurd (List.all_eq_true.mpr hdollar) hall
    | _ => exact equal

theorem matchesFields_eq : ∀ {criteria : PyDict}, (∀ entry ∈ criteria, fieldOk entry = true) →
    matchesFields (.dict document) criteria = evalAll document (criteria.flatMap conditionsOf)
  | [], _ => rfl
  | entry :: rest, h => by
      obtain ⟨hentry, hrest⟩ := List.forall_mem_cons.mp h
      show (matchesField document entry.1 entry.2 >>= fun ok =>
        if ok then matchesFields (.dict document) rest else .ok false) = _
      rw [List.flatMap_cons, evalAll_append, matchesField_eq hentry, matchesFields_eq hrest]

/-- **Matching is trying the conditions in order.** -/
theorem matchesCriteria_eq {criteria : PyVal} (h : criteriaOk criteria = true) :
    matchesCriteria (.dict document) criteria = evalAll document (conditions criteria) := by
  cases criteria with
  | none => rfl
  | dict criteria => exact matchesFields_eq (List.all_eq_true.mp h)
  | _ => cases h

/-- The operands of well-formed criteria are such as the operators take. -/
theorem conditions_ok {criteria : PyVal} (h : criteriaOk criteria = true) (hw : criteria.wf) :
    ∀ p ∈ conditions criteria, p.2.Ok := by
  cases criteria with
  | dict criteria =>
    have hentries := (everywhere_dict.mp hw).2
    intro p hp
    obtain ⟨⟨k, expected⟩, hentry, hp⟩ := List.mem_flatMap.mp hp
    have hwe := hentries k expected hentry
    have hfield := List.all_eq_true.mp h _ hentry
    have plain {q : PyKey × Condition} (hq : q ∈ [(k, Condition.equals expected)]) : q.2.Ok := by
      cases List.mem_singleton.mp hq
      exact hwe
    cases expected with
    | dict expression =>
      unfold conditionsOf at hp
      simp only at hp
      split at hp
      · rename_i hany
        obtain ⟨kv, hkv, hop⟩ := List.mem_filterMap.mp hp
        obtain ⟨op, hg, rfl⟩ := Option.map_eq_some_iff.mp hop
        cases k with
        | other t i => cases hfield
        | str s =>
          rw [fieldOk, expectedOk, if_pos hany, List.all_eq_true] at hfield
          have hok := (Bool.and_eq_true_iff.mp (hfield kv hkv)).2
          rw [operatorOk, hg] at hok
          exact ⟨hok, (everywhere_dict.mp hwe).2 kv.1 kv.2 hkv⟩
      · exact plain hp
    | _ => exact plain hp
  | _ =>
    intro p hp
    cases hp

/-! ## 4. Which queries return -/

/-- No condition clashes before one fails. -/
def ClashFree (document : PyDict) (ps : List (PyKey × Condition)) : Prop :=
  ∀ first p rest, ps = first ++ p :: rest →
    (∀ q ∈ first, q.2.holds (Dict.get document q.1) = true) →
      p.2.clash (Dict.get document p.1) = false

/-- All conditions hold. -/
def holdsAll (document : PyDict) (ps : List (PyKey × Condition)) : Bool :=
  ps.all fun p => p.2.holds (Dict.get document p.1)

theorem clashFree_nil : ClashFree document [] := by
  intro first p rest h
  cases first <;> cases h

theorem clashFree_cons {p : PyKey × Condition} {ps : List (PyKey × Condition)} :
    ClashFree document (p :: ps) ↔ p.2.clash (Dict.get document p.1) = false ∧
      (p.2.holds (Dict.get document p.1) = true → ClashFree document ps) := by
  constructor
  · intro h
    refine ⟨h [] p ps rfl nofun, fun hp first q rest hps hfirst => ?_⟩
    refine h (p :: first) q rest ?_ (List.forall_mem_cons.mpr ⟨hp, hfirst⟩)
    rw [hps]
    rfl
  · rintro ⟨hp, hrest⟩ first q rest hps hfirst
    cases first with
    | nil =>
      cases hps
      exact hp
    | cons p' first =>
      cases hps
      obtain ⟨hholds, hfirst⟩ := List.forall_mem_cons.mp hfirst
      exact hrest hholds first q rest rfl hfirst

/-- **The conditions in order**: they return whether all hold, or raise where one clashes. -/
theorem evalAll_cases (hd : (PyVal.dict document).wf) {ps : List (PyKey × Condition)}
    (hok : ∀ p ∈ ps, p.2.Ok) :
    (ClashFree document ps ∧ evalAll document ps = .ok (holdsAll document ps)) ∨
      (¬ ClashFree document ps ∧ ∃ e, evalAll document ps = .error e) := by
  induction ps with
  | nil => exact Or.inl ⟨clashFree_nil, rfl⟩
  | cons p ps ih =>
    obtain ⟨hp, hok⟩ := List.forall_mem_cons.mp hok
    have hwf (a : PyVal) (ha : Dict.get document p.1 = some a) : a.wf :=
      (everywhere_dict.mp hd).2 _ _ (Dict.mem_of_get ha)
    rw [clashFree_cons, evalAll, holdsAll, List.all_cons]
    rcases p.2.eval_returns hwf hp with ⟨hc, heval⟩ | ⟨hc, e, heval⟩
    · rw [heval, hc]
      cases p.2.holds (Dict.get document p.1) with
      | false => exact Or.inl ⟨⟨rfl, nofun⟩, rfl⟩
      | true =>
        rcases ih hok with ⟨hfree, hall⟩ | ⟨hfree, e, hall⟩
        · exact Or.inl ⟨⟨rfl, fun _ => hfree⟩, hall⟩
        · exact Or.inr ⟨fun h => hfree (h.2 rfl), e, hall⟩
    · rw [heval, hc]
      exact Or.inr ⟨fun h => Bool.noConfusion h.1, e, rfl⟩

/-- Nothing clashes with a missing field. -/
theorem clashFree_empty (ps : List (PyKey × Condition)) : ClashFree [] ps := by
  intro first p rest _ _
  cases p.2 with
  | equals expected => rfl
  | operator op expected => cases op <;> rfl

end

/-- **One document**: matching returns whether all conditions hold, iff none clashes before one
    fails. -/
theorem matchesCriteria_cases {criteria : PyVal} (hok : criteriaOk criteria = true)
    (hw : criteria.wf) {document : PyDict} (hd : (PyVal.dict document).wf) :
    (ClashFree document (conditions criteria) ∧
      matchesCriteria (.dict document) criteria = .ok (holdsAll document (conditions criteria))) ∨
    (¬ ClashFree document (conditions criteria) ∧
      ∃ e, matchesCriteria (.dict document) criteria = .error e) := by
  rw [matchesCriteria_eq hok]
  exact evalAll_cases hd (conditions_ok hok hw)

theorem matchesCriteria_returns_iff {criteria : PyVal} (hok : criteriaOk criteria = true)
    (hw : criteria.wf) {document : PyDict} (hd : (PyVal.dict document).wf) :
    (∃ b, matchesCriteria (.dict document) criteria = .ok b) ↔
      ClashFree document (conditions criteria) := by
  rcases matchesCriteria_cases hok hw hd with ⟨hfree, hm⟩ | ⟨hfree, e, hm⟩
  · exact iff_of_true ⟨_, hm⟩ hfree
  · refine iff_of_false (fun h => ?_) hfree
    obtain ⟨b, hb⟩ := h
    cases hm.symm.trans hb

/-- **All documents**: those for which all conditions hold, if none clashes. -/
theorem selectDocuments_eq {criteria : PyVal} (hok : criteriaOk criteria = true) (hw : criteria.wf) :
    ∀ {documents : List PyDict}, (∀ d ∈ documents, (PyVal.dict d).wf) →
      (∀ d ∈ documents, ClashFree d (conditions criteria)) →
        selectDocuments criteria (documents.map PyVal.dict) =
          .ok ((documents.filter fun d => holdsAll d (conditions criteria)).map PyVal.dict)
  | [], _, _ => rfl
  | document :: rest, hwf, hfree => by
      obtain ⟨hd, hwf⟩ := List.forall_mem_cons.mp hwf
      obtain ⟨hf, hfree⟩ := List.forall_mem_cons.mp hfree
      rcases matchesCriteria_cases hok hw hd with ⟨-, hm⟩ | ⟨hnot, -⟩
      · rw [List.map_cons, selectDocuments, hm, selectDocuments_eq hok hw hwf hfree, List.filter_cons]
        cases holdsAll document (conditions criteria) <;> rfl
      · exact absurd hf hnot

theorem filterDocuments_eq {criteria : PyVal} (hok : criteriaOk criteria = true) (hw : criteria.wf)
    {documents : List PyDict} (hwf : ∀ d ∈ documents, (PyVal.dict d).wf)
    (hfree : ∀ d ∈ documents, ClashFree d (conditions criteria)) :
    filterDocuments (documents.map PyVal.dict) criteria =
      .ok ((documents.filter fun d => holdsAll d (conditions criteria)).map PyVal.dict) := by
  obtain ⟨b, hb⟩ := (matchesCriteria_returns_iff hok hw wf_empty).mpr (clashFree_empty _)
  rw [filterDocuments, hb]
  exact selectDocuments_eq hok hw hwf hfree

/-- **Well-formed queries return iff nothing clashes**: matching a document returns a Boolean, and
    then whether all conditions hold, iff in the order of the criteria no condition before the
    first that fails needs a comparison that raises something else than `TypeError`; and `find`
    returns iff that is so for every document of the collection. -/
theorem well_formed_queries {criteria : PyVal} (hok : criteriaOk criteria = true)
    (hw : criteria.wf) :
    (∀ document, (PyVal.dict document).wf →
      ((∃ b, matchesCriteria (.dict document) criteria = .ok b) ↔
        ClashFree document (conditions criteria)) ∧
      ∀ b, matchesCriteria (.dict document) criteria = .ok b →
        b = holdsAll document (conditions criteria)) ∧
    ∀ cp s collection (documents : List PyDict), (∀ d ∈ documents, (PyVal.dict d).wf) →
      allDocuments cp s collection = .ok (documents.map PyVal.dict) →
        ((∃ ds, findDocuments cp s collection criteria = .ok ds) ↔
          ∀ d ∈ documents, ClashFree d (conditions criteria)) := by
  refine ⟨fun document hd => ⟨matchesCriteria_returns_iff hok hw hd, fun b hb => ?_⟩,
    fun cp s collection documents hwf hall => ⟨fun hds d hm => ?_, fun hfree => ?_⟩⟩
  · rcases matchesCriteria_cases hok hw hd with ⟨-, hm⟩ | ⟨-, e, hm⟩
    · exact Except.ok.inj (hb.symm.trans hm)
    · cases hm.symm.trans hb
  · obtain ⟨ds, hds⟩ := hds
    obtain ⟨all, hall', h⟩ := bind_ok.mp hds
    cases hall.symm.trans hall'
    obtain ⟨-, -, h⟩ := bind_ok.mp h
    exact (matchesCriteria_returns_iff hok hw (hwf d hm)).mp
      ((selectDocuments_ok h).1 _ (List.mem_map.mpr ⟨d, hm, rfl⟩))
  · exact ⟨_, bind_ok.mpr ⟨_, hall, filterDocuments_eq hok hw hwf hfree⟩⟩

/-- A document with a price. -/
def pricedDocument : PyObj :=
  ⟨.dict [(.str (lit "price"), .decimal (.finite ⟨false, 15, -1, by decide⟩))],
    everywhere_dict.mpr ⟨List.nodup_singleton _, fun _ _ h => by
      cases List.mem_singleton.mp h
      trivial⟩⟩

/-- The price is more than an operand. -/
def moreThan (operand : PyVal) : PyVal :=
  .dict [(.str (lit "price"), .dict [(.str (lit "$gt"), operand)])]

theorem wf_moreThan {operand : PyVal} (h : operand.wf) : (moreThan operand).wf :=
  wf_entry (wf_entry h)

/-- A price and a text. -/
theorem priced_returns :
    ∃ b, matchesCriteria pricedDocument.val (moreThan (.str (lit "cheap"))) = .ok b := by
  obtain ⟨hiff, -⟩ := (@well_formed_queries (moreThan (.str (lit "cheap"))) (by decide)
    (@wf_moreThan (.str (lit "cheap")) trivial)).1 _ pricedDocument.wf
  refine hiff.mpr (clashFree_cons.mpr ⟨rfl, fun _ => clashFree_nil⟩)

/-- **A price and a `Decimal` that is not a number**, as it is read from a file: the query raises
    `InvalidOperation`. -/
theorem price_nan_raises : validateDocument interpreter pricedDocument.val = .ok () ∧
    decode interpreter (envelope "decimal" (.str (lit "NaN"))) = .ok (.decimal (.nan false 0)) ∧
    criteriaOk (moreThan (.decimal (.nan false 0))) = true ∧
    ∃ e, matchesCriteria pricedDocument.val (moreThan (.decimal (.nan false 0))) = .error e ∧
      e.type = .invalidOperation :=
  ⟨rfl, rfl, by decide, _, rfl, rfl⟩

end JsonDatabase
