/-
  File:      JsonDatabase/QueryMeaning.lean
  Subject:   What a query selects.

  The evaluator goes through fields and operators and stops at the first that fails, with a rule of
  its own for a missing field at every operator. What it selects has a meaning without an order:
  the documents for which every condition holds. Comparisons are taken to return or to raise
  `TypeError`, and `==` to return.

  * `Condition.Behaves` -- that this is so for the comparison a condition needs;
  * `holdsAll_rearranged`, `holdsAll_perm` -- the order of fields and operators does not matter;
  * `query_meaning` -- the documents that are selected.
-/
import JsonDatabase.QueryClashes
import JsonDatabase.QueryLaws

namespace JsonDatabase

open PyVal hiding none

/-! ## 1. Comparisons that behave -/

/-- `==` returns, and the orderings and `in` return or raise `TypeError`, on the values that the
    condition compares. -/
def Condition.Behaves (actual : Option PyVal) : Condition → Prop
  | .equals expected | .operator .eq expected | .operator .ne expected =>
    ∀ a, actual = some a → ∃ b, eqVals a expected = .ok b
  | .operator .isIn expected | .operator .nin expected =>
    ∀ a, actual = some a → ∀ x ∈ listed expected, ∃ b, eqVals x a = .ok b
  | .operator (.order op) expected =>
    ∀ a, actual = some a → RaisesOnly (· = .typeError) (compareVals op a expected)
  | .operator .contains expected =>
    ∀ a, actual = some a → RaisesOnly (· = .typeError) (pyContains a expected)
  | .operator .present _ => True

theorem eqVals_returns_iff {a b : PyVal} : (∃ r, eqVals a b = .ok r) ↔ eqRaises a b = false := by
  unfold eqVals
  cases eqRaises a b with
  | true => exact iff_of_false nofun Bool.noConfusion
  | false => exact iff_of_true ⟨_, rfl⟩ rfl

theorem ClashIff.quiet {clash : Bool} {x : Except ExcType Bool} (h : ClashIff clash x)
    (hx : RaisesOnly (· = .typeError) x) : clash = false := by
  rcases h with ⟨-, t, hr, ht⟩ | ⟨hc, -⟩
  · exact absurd (hx t hr) ht
  · exact hc

theorem memberClash_quiet {a : PyVal} : ∀ {xs : List PyVal}, (∀ x ∈ xs, eqRaises x a = false) →
    memberClash a xs = false
  | [], _ => rfl
  | x :: xs, h => by
      obtain ⟨hx, hxs⟩ := List.forall_mem_cons.mp h
      rw [memberClash, hx, memberClash_quiet hxs, Bool.and_false]
      rfl

/-- What behaves does not clash. -/
theorem Condition.Behaves.clash {actual : Option PyVal} {c : Condition} (h : c.Behaves actual) :
    c.clash actual = false := by
  cases actual with
  | none =>
    cases c with
    | equals expected => rfl
    | operator op expected => cases op <;> rfl
  | some a =>
    cases c with
    | equals expected => exact eqVals_returns_iff.mp (h a rfl)
    | operator op expected =>
      cases op with
      | eq => exact eqVals_returns_iff.mp (h a rfl)
      | ne => exact eqVals_returns_iff.mp (h a rfl)
      | order op => exact (compareVals_clash op a expected).quiet (h a rfl)
      | contains => exact (pyContains_clash a expected).quiet (h a rfl)
      | present => rfl
      | isIn => exact memberClash_quiet fun x hx => eqVals_returns_iff.mp (h a rfl x hx)
      | nin => exact memberClash_quiet fun x hx => eqVals_returns_iff.mp (h a rfl x hx)

/-- All comparisons of the criteria with a document behave. -/
def Behaves (document : PyDict) (criteria : PyVal) : Prop :=
  ∀ p ∈ conditions criteria, p.2.Behaves (Dict.get document p.1)

theorem Behaves.clashFree {document : PyDict} {criteria : PyVal} (h : Behaves document criteria) :
    ClashFree document (conditions criteria) := by
  rintro first p rest hps -
  exact (h p (hps ▸ List.mem_append_right _ List.mem_cons_self)).clash

/-! ## 2. The order does not matter -/

section

variable {document : PyDict}

theorem holdsAll_append (ps qs : List (PyKey × Condition)) :
    holdsAll document (ps ++ qs) = (holdsAll document ps && holdsAll document qs) := List.all_append

theorem holdsAll_perm {ps qs : List (PyKey × Condition)} (h : ps.Perm qs) :
    holdsAll document ps = holdsAll document qs := h.all_eq

/-- One field, with the entries of what is expected in another order. -/
theorem holdsAll_sameField (hd : (PyVal.dict document).wf) {x y : PyKey × PyVal} (hw : x.2.wf)
    (h : SameField x y) :
    holdsAll document (conditionsOf x) = holdsAll document (conditionsOf y) := by
  obtain ⟨k, v⟩ := x
  obtain ⟨k', w⟩ := y
  obtain ⟨rfl, hv⟩ : k = k' ∧ SameExpression v w := h
  cases hv with
  | refl => rfl
  | @perm a b hp =>
    show holdsAll document (if a.any (fun kv => isDollar kv.1) then operatorsOf k a
        else [(k, .equals (.dict a))]) =
      holdsAll document (if b.any (fun kv => isDollar kv.1) then operatorsOf k b
        else [(k, .equals (.dict b))])
    rw [hp.any_eq]
    cases b.any (fun kv => isDollar kv.1) with
    | true => exact holdsAll_perm (hp.filterMap _)
    | false =>
      -- a dictionary to compare with: `==` does not see the order of its entries
      have hequal : equalTo (Dict.get document k) (.dict a) = equalTo (Dict.get document k) (.dict b) := by
        cases hg : Dict.get document k with
        | none => rfl
        | some actual =>
          have ha := (everywhere_dict.mp hd).2 _ _ (Dict.mem_of_get hg)
          exact ((Same.dictOrder hp).pyEq hw ha).2
      show (equalTo _ _ && true) = (equalTo _ _ && true)
      rw [hequal]

/-- **The fields in another order, and the operators of each.** -/
theorem holdsAll_rearranged (hd : (PyVal.dict document).wf) {c c' : PyVal} (hw : c.wf)
    (h : Rearranged c c') : holdsAll document (conditions c) = holdsAll document (conditions c') := by
  cases h with
  | refl => rfl
  | @fields a b c hp hs =>
    have hentries : ∀ x ∈ b, x.2.wf := fun x hx =>
      (everywhere_dict.mp hw).2 x.1 x.2 (hp.mem_iff.mpr hx)
    refine (holdsAll_perm (hp.flatMap_right conditionsOf)).trans ?_
    show holdsAll document (b.flatMap conditionsOf) = holdsAll document (c.flatMap conditionsOf)
    clear hp hw
    induction hs with
    | nil => rfl
    | @cons x y b c hxy _ ih =>
      obtain ⟨hx, hentries⟩ := List.forall_mem_cons.mp hentries
      rw [List.flatMap_cons, List.flatMap_cons, holdsAll_append, holdsAll_append,
        holdsAll_sameField hd hx hxy, ih hentries]

end

/-! ## 3. The result -/

/-- **What a query selects**: the documents for which every condition of the criteria holds, in
    their order. The order of fields and operators makes no difference, and criteria in two parts
    select what the one part selects of what the other does. -/
theorem query_meaning {criteria : PyVal} (hok : criteriaOk criteria = true) (hw : criteria.wf)
    {documents : List PyDict} (hd : ∀ d ∈ documents, (PyVal.dict d).wf)
    (hb : ∀ d ∈ documents, Behaves d criteria) :
    filterDocuments (documents.map PyVal.dict) criteria =
      .ok ((documents.filter fun d => holdsAll d (conditions criteria)).map PyVal.dict) ∧
    (∀ criteria', Rearranged criteria criteria' → criteria'.wf →
      (∀ d ∈ documents, Behaves d criteria') →
        filterDocuments (documents.map PyVal.dict) criteria' =
          filterDocuments (documents.map PyVal.dict) criteria) ∧
    ∀ a b, criteriaOk a = true → a.wf → criteriaOk b = true → b.wf →
      (conditions criteria).Perm (conditions a ++ conditions b) →
        ∃ found : List PyDict, filterDocuments (documents.map PyVal.dict) a = .ok (found.map PyVal.dict) ∧
          filterDocuments (found.map PyVal.dict) b =
            filterDocuments (documents.map PyVal.dict) criteria := by
  have hsel := filterDocuments_eq hok hw hd fun d hm => (hb d hm).clashFree
  refine ⟨hsel, fun criteria' hr hw' hb' => ?_, fun a b hoka hwa hokb hwb hp => ?_⟩
  · have hok' : criteriaOk criteria' = true := hr.criteria.1.symm.trans hok
    rw [hsel, filterDocuments_eq hok' hw' hd fun d hm => (hb' d hm).clashFree]
    refine congrArg (fun ds : List PyDict => Except.ok (ds.map PyVal.dict)) (List.filter_congr fun d hm => ?_)
    exact (holdsAll_rearranged (hd d hm) hw hr).symm
  · have ha : ∀ d ∈ documents, Behaves d a := fun d hm p hpm =>
      hb d hm p (hp.mem_iff.mpr (List.mem_append_left _ hpm))
    have hb : ∀ d ∈ documents, Behaves d b := fun d hm p hpm =>
      hb d hm p (hp.mem_iff.mpr (List.mem_append_right _ hpm))
    refine ⟨_, filterDocuments_eq hoka hwa hd fun d hm => (ha d hm).clashFree, ?_⟩
    have hmem (d : PyDict) (hm : d ∈ documents.filter fun d => holdsAll d (conditions a)) :
        d ∈ documents := (List.mem_filter.mp hm).1
    rw [hsel, filterDocuments_eq hokb hwb (fun d hm => hd d (hmem d hm))
      fun d hm => (hb d (hmem d hm)).clashFree, List.filter_filter]
    refine congrArg (fun ds : List PyDict => Except.ok (ds.map PyVal.dict)) (List.filter_congr fun d hm => ?_)
    rw [holdsAll_perm hp, holdsAll_append, Bool.and_comm]

/-- Two users, one with a role and one without. -/
def twoUsers : List PyDict :=
  [[(.str (lit "name"), .str (lit "Ava")), (.str (lit "role"), .str (lit "admin"))],
    [(.str (lit "name"), .str (lit "Noah"))]]

/-- The role is not `admin`. -/
def notAdmin : PyVal :=
  .dict [(.str (lit "role"), .dict [(.str (lit "$nin"), .list [.str (lit "admin")])])]

theorem nin_selects : filterDocuments (twoUsers.map PyVal.dict) notAdmin =
    .ok [.dict [(.str (lit "name"), .str (lit "Noah"))]] := by
  have hw : notAdmin.wf :=
    wf_entry (wf_entry (everywhere_list.mpr ⟨trivial, List.forall_mem_singleton.mpr trivial⟩))
  have hd : ∀ d ∈ twoUsers, (PyVal.dict d).wf := by
    have hadmin : Dict.Distinct [(PyKey.str (lit "name"), PyVal.str (lit "Ava")),
        (.str (lit "role"), .str (lit "admin"))] := by decide
    refine List.forall_mem_cons.mpr ⟨everywhere_dict.mpr ⟨hadmin, fun _ _ hm => ?_⟩,
      List.forall_mem_singleton.mpr (PyObj.field (lit "name") (lit "Noah")).wf⟩
    rcases List.mem_cons.mp hm with hm | hm
    · cases hm
      trivial
    · cases List.mem_singleton.mp hm
      trivial
  have hc : conditions notAdmin =
    [(.str (lit "role"), .operator .nin (.list [.str (lit "admin")]))] := rfl
  have hb : ∀ d ∈ twoUsers, Behaves d notAdmin := by
    unfold Behaves
    rw [hc]
    refine List.forall_mem_cons.mpr ⟨List.forall_mem_singleton.mpr ?_, List.forall_mem_singleton.mpr
      (List.forall_mem_singleton.mpr ?_)⟩
    · intro a ha x hx
      cases ha
      cases List.mem_singleton.mp hx
      exact ⟨_, rfl⟩
    · intro a ha
      cases ha
  have hselected : (twoUsers.filter fun d => holdsAll d (conditions notAdmin)) =
      [[(.str (lit "name"), .str (lit "Noah"))]] := by
    have hava : holdsAll [(.str (lit "name"), .str (lit "Ava")),
        (.str (lit "role"), .str (lit "admin"))] (conditions notAdmin) = false := by decide +kernel
    have hnoah : holdsAll [(.str (lit "name"), .str (lit "Noah"))] (conditions notAdmin) = true := by
      decide +kernel
    rw [twoUsers, List.filter_cons, hava, List.filter_cons, hnoah]
    rfl
  rw [(query_meaning (by decide) hw hd hb).1, hselected]
  rfl

end JsonDatabase
