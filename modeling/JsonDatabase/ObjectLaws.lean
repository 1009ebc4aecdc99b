/-
  File:      JsonDatabase/ObjectLaws.lean
  Subject:   The operations on objects do what the operations on values do.

  The state is a tree of dictionaries down to the single documents, and nothing in it that can be
  changed belongs to anyone else. An operation reads its arguments, copies what it takes in, and
  changes the tree only; so the value of the state changes as the operation on values says.

  * `IsState`, `During` -- the state object and its value, and what an operation leaves alone meanwhile;
  * `During.collection`, `During.assign` .. -- the parts of a state, and assigning to them;
  * `insertDocument_follows` .. `findDocuments_follows` -- one operation;
  * `Request.follows` -- any of them.
-/
import JsonDatabase.Objects
import JsonDatabase.Basis.Coupling

namespace JsonDatabase

open Heap hiding Reaches Agree Owns
open PyVal hiding none

/-! ## 1. The state and its owner -/

/-- A collection has documents for parts. -/
def collectionShape : Shape PyKey := .dict (fun _ => true) fun _ => .flat

def collectionsShape : Shape PyKey := .dict (fun _ => true) fun _ => collectionShape

/-- A state has the collections for a part; what else it holds is not taken apart. -/
def databaseShape : Shape PyKey := .dict (fun k => decide (k = COLLECTIONS)) fun _ => collectionsShape

/-- What belongs to nobody in the tree. -/
def free (own : Owner PyKey) : Set Nat := {r | own r = none}

/-- `state` is the tree that `own` describes, and its value is `s`. -/
structure IsState (state : PySlot) (own : Owner PyKey) (h : PyHeap) (s : State) : Prop where
  tree : Heap.Owns h own databaseShape [] state (PyVal.dict s)
  bound : ∀ r, own r ≠ none → r < h.length

/-- From `h` to `h'` only what belongs to the tree was changed, and the tree took in new objects
    only. -/
structure Since (h : PyHeap) (own : Owner PyKey) (h' : PyHeap) (own' : Owner PyKey) : Prop where
  length : h.length ≤ h'.length
  outside : ∀ r < h.length, own r = none → own' r = none ∧ h'[r]? = h[r]?
  frozen : ∀ (r : Nat) (c : Cell PyKey SeqType PySlot), h[r]? = some c → c.frozen = true →
    h'[r]? = some c

section

variable {state : PySlot} {own own' own₀ own₁ : Owner PyKey} {h h' h₀ h₁ : PyHeap} {s : State}
  {t t' : PySlot} {v : PyVal} {R : Set Nat} {r : Nat}

theorem Since.refl : Since h own h own := ⟨le_rfl, fun _ _ hn => ⟨hn, rfl⟩, fun _ _ hc _ => hc⟩

theorem Since.trans (h₁₂ : Since h₀ own₀ h₁ own₁) (h₂₃ : Since h₁ own₁ h own) :
    Since h₀ own₀ h own where
  length := h₁₂.length.trans h₂₃.length
  outside r hr hn := by
    obtain ⟨hn₁, hc₁⟩ := h₁₂.outside r hr hn
    obtain ⟨hn₂, hc₂⟩ := h₂₃.outside r (hr.trans_le h₁₂.length) hn₁
    exact ⟨hn₂, hc₂.trans hc₁⟩
  frozen r c hc hf := h₂₃.frozen r c (h₁₂.frozen r c hc hf) hf

theorem lt_of_some {c : Cell PyKey SeqType PySlot} (hc : h[r]? = some c) : r < h.length :=
  (List.getElem?_eq_some_iff.mp hc).1

theorem Since.agree (hs : Since h own h' own') (hR : R ⊆ free own) : Heap.Agree h h' R := by
  intro r c hc hr
  cases hf : c.frozen with
  | true => exact hs.frozen r c hc hf
  | false => exact (hs.outside r (lt_of_some hc) (hR (hr hf))).2.trans hc

theorem Since.append (hp : h <+: h') : Since h own h' own where
  length := hp.length_le
  outside r hr hn := by
    obtain ⟨cs, rfl⟩ := hp
    exact ⟨hn, List.getElem?_append_left hr⟩
  frozen r c hc _ := by
    obtain ⟨cs, rfl⟩ := hp
    rw [List.getElem?_append_left (lt_of_some hc)]
    exact hc

/-- What has a value without the tree keeps it, and the tree does not take it in. -/
theorem Since.moves {R' : Set Nat} (hs : Since h own h' own') (hv : HasValue h R t v)
    (hR : R ⊆ free own) (hR' : ∀ r ∈ R, own' r = none → r ∈ R') : HasValue h' R' t v := by
  have hagree := hs.agree hR
  refine ⟨fun r hr => ?_, (hv.frame hagree).value⟩
  obtain ⟨c, hc, hf⟩ := hv.inside r (hv.inside.reaches_old hagree hr)
  exact ⟨c, hagree r c hc hf, fun hn => hR' r (hf hn) (hs.outside r (lt_of_some hc) (hR (hf hn))).1⟩

theorem Since.argument (hs : Since h own h' own') (hv : HasValue h (free own) t v) :
    HasValue h' (free own') t v := hs.moves hv (le_refl _) fun _ _ hn => hn

theorem IsState.relabel (hh : IsState state own h s) (hp : h <+: h')
    (hl : ∀ r, own r ≠ none → own' r = own r) (hb : ∀ r, own' r ≠ none → r < h'.length) :
    IsState state own' h' s :=
  ⟨hh.tree.frame (.relabel hp hl hh.bound), hb⟩

/-- What is made anew belongs to nobody. -/
theorem IsState.fresh (hh : IsState state own h s) (hr : h.length ≤ r) : own r = none := by
  by_contra hn
  exact absurd (hh.bound r hn) (Nat.not_lt.mpr hr)

/-- An assignment to an object outside the tree. -/
theorem IsState.set_free (hh : IsState state own h s) {c₀ c : Cell PyKey SeqType PySlot}
    (hc₀ : h[r]? = some c₀) (hf : c₀.frozen = false) (hr : own r = none) : IsState state own (h.set r c) s := by
  refine ⟨hh.tree.frame ⟨fun r' l hr' _ => ?_, fun r' c' hc' hf' => ?_⟩, fun r' hr' => ?_⟩
  · have hne : r ≠ r' := by
      rintro rfl
      cases hr.symm.trans hr'
    exact ⟨hr', List.getElem?_set_ne hne⟩
  · have hne : r ≠ r' := by
      rintro rfl
      cases hc₀.symm.trans hc'
      cases hf.symm.trans hf'
    rw [List.getElem?_set_ne hne]
    exact hc'
  · rw [List.length_set]
    exact hh.bound r' hr'

/-! ## 2. While an operation runs -/

/-- The state while an operation runs that was called with `h₀` and `own₀`. -/
structure During (h₀ : PyHeap) (own₀ : Owner PyKey) (state : PySlot) (own : Owner PyKey) (h : PyHeap)
    (s : State) : Prop where
  held : IsState state own h s
  since : Since h₀ own₀ h own

/-- What the operation made, and did not put into the tree. -/
def made (h₀ : PyHeap) (own : Owner PyKey) : Set Nat := {r | h₀.length ≤ r ∧ own r = none}

theorem made_free : made h₀ own ⊆ free own := fun _ hr => hr.2

theorem During.start (hh : IsState state own h s) : During h own state own h s := ⟨hh, .refl⟩

theorem During.append (hd : During h₀ own₀ state own h s) (hp : h <+: h') :
    During h₀ own₀ state own h' s where
  held := hd.held.relabel hp (fun _ _ => rfl) fun r hr => (hd.held.bound r hr).trans_le hp.length_le
  since := hd.since.trans (.append hp)

/-- A copy is made of new objects. -/
theorem During.clone (hd : During h₀ own₀ state own h s) (hv : HasValue h R t v)
    (hc : Clone h t h' t') : During h₀ own₀ state own h' s ∧ HasValue h' (made h₀ own) t' v := by
  refine ⟨hd.append hc.old, (hc.hasValue hv.value).mono fun r hr => ?_⟩
  exact ⟨hd.since.length.trans hr, hd.held.fresh hr⟩

/-- An assignment to an object that the operation made. -/
theorem During.set_made (hd : During h₀ own₀ state own h s) {c₀ c : Cell PyKey SeqType PySlot}
    (hc₀ : h[r]? = some c₀) (hf : c₀.frozen = false) (hr : r ∈ made h₀ own) :
    During h₀ own₀ state own (h.set r c) s where
  held := hd.held.set_free hc₀ hf hr.2
  since := by
    refine ⟨by rw [List.length_set]; exact hd.since.length, fun r' hr' hn => ?_, fun r' c' hc' hf' => ?_⟩
    · obtain ⟨hn', hc'⟩ := hd.since.outside r' hr' hn
      have hne : r ≠ r' := fun e => absurd hr.1 (Nat.not_le.mpr (e ▸ hr'))
      exact ⟨hn', (List.getElem?_set_ne hne).trans hc'⟩
    · have hne : r ≠ r' := fun e => absurd hr.1 (Nat.not_le.mpr (e ▸ lt_of_some hc'))
      rw [List.getElem?_set_ne hne]
      exact hd.since.frozen r' c' hc' hf'

/-- What the operation made stays what it made. -/
theorem Since.made (hs : Since h own h' own') (hv : HasValue h (made h₀ own) t v) :
    HasValue h' (made h₀ own') t v := hs.moves hv made_free fun _ hr hn => ⟨hr.1, hn⟩

/-! ## 3. Reading, copying and assigning -/

theorem valueOf_run (hv : HasValue h R t v) : Objects.valueOf t h = .ok v h := by
  unfold Objects.valueOf
  rw [hv.value]

theorem deepcopy_cases (cp : Copier) (hv : HasValue h R t v) :
    (∃ e, JsonDatabase.deepcopy cp v = .error e ∧ Objects.deepcopy cp t h = .error e h) ∨
      (JsonDatabase.deepcopy cp v = .ok v ∧
        ∃ t' h', Objects.deepcopy cp t h = .ok t' h' ∧ Clone h t h' t') := by
  have hread := valueOf_run hv
  unfold Objects.deepcopy JsonDatabase.deepcopy
  cases hcp : cp.fails v with
  | some e =>
    refine Or.inl ⟨e, rfl, ?_⟩
    refine run_then_error hread ?_
    simp only [hcp]
    rfl
  | none =>
    obtain ⟨t', h', hcopy, hclone⟩ := deepcopy_clone hv.value
    refine Or.inr ⟨rfl, t', h', ?_, hclone⟩
    refine run_bind_ok.mpr ⟨v, h, hread, run_lift_bind_ok.mpr ⟨v, ?_, ?_⟩⟩
    · simp only [hcp]
    · simp only [hcopy]

theorem hasValue_dict {fields : PyDict} (hv : HasValue h R t (PyVal.dict fields)) :
    ∃ r entries, t = .ref r ∧ h[r]? = some (.dict entries) ∧ r ∈ R ∧
      Dict.Matches (fun _ => HasValue h (R \ {r})) entries fields :=
  HasValue.dict (V := PyVal) hv

theorem asDict_run {entries : Dict PyKey PySlot} (hc : h[r]? = some (.dict entries)) :
    Objects.asDict (.ref r) h = .ok (r, entries) h := by
  unfold Objects.asDict
  simp only [hc]

theorem setItem_run {entries : Dict PyKey PySlot} (hc : h[r]? = some (.dict entries)) (k : PyKey) :
    Objects.setItem (.ref r) k t h = .ok () (h.set r (.dict (Dict.put entries k t))) :=
  run_bind_ok.mpr ⟨(r, entries), h, asDict_run hc, rfl⟩

theorem delItem_run {entries : Dict PyKey PySlot} (hc : h[r]? = some (.dict entries)) (k : PyKey) :
    Objects.delItem (.ref r) k h = .ok () (h.set r (.dict (Dict.drop entries k))) :=
  run_bind_ok.mpr ⟨(r, entries), h, asDict_run hc, rfl⟩

theorem updateWith_run {r' : Nat} {entries new : Dict PyKey PySlot} (hc : h[r]? = some (.dict entries))
    (hc' : h[r']? = some (.dict new)) :
    Objects.updateWith (.ref r) (.ref r') h = .ok () (h.set r (.dict (Dict.merge entries new))) :=
  run_bind_ok.mpr ⟨(r, entries), h, asDict_run hc, run_bind_ok.mpr ⟨(r', new), h, asDict_run hc', rfl⟩⟩

theorem setdefault_found {entries : Dict PyKey PySlot} {k : PyKey} (hc : h[r]? = some (.dict entries))
    (hk : Dict.get entries k = some t) : Objects.setdefault (.ref r) k h = .ok t h := by
  refine run_bind_ok.mpr ⟨(r, entries), h, asDict_run hc, ?_⟩
  simp only [hk]
  rfl

theorem setdefault_missing {entries : Dict PyKey PySlot} {k : PyKey} (hc : h[r]? = some (.dict entries))
    (hk : Dict.get entries k = none) : Objects.setdefault (.ref r) k h =
      .ok (.ref h.length) ((h ++ [Cell.dict []]).set r (.dict (Dict.put entries k (.ref h.length)))) := by
  refine run_bind_ok.mpr ⟨(r, entries), h, asDict_run hc, ?_⟩
  simp only [hk]
  rfl

/-! ## 4. The parts of a state -/

/-- `t` is the dictionary of the collections. -/
structure CollectionsAt (state : PySlot) (h : PyHeap) (s : State) (t : PySlot) (collections : PyDict) :
    Prop where
  object : ∃ r top, state = .ref r ∧ h[r]? = some (.dict top) ∧ Dict.get top COLLECTIONS = some t
  value : Dict.get s COLLECTIONS = some (.dict collections)

/-- `t` is the collection under `name`. -/
structure CollectionAt (state : PySlot) (h : PyHeap) (s : State) (collections : PyDict) (name : PyKey)
    (t : PySlot) (docs : PyDict) : Prop where
  object : ∃ r cs, CollectionsAt state h s (.ref r) collections ∧ h[r]? = some (.dict cs) ∧
    Dict.get cs name = some t
  value : Dict.get collections name = some (.dict docs)

variable {collections docs fields : PyDict} {name id : PyKey} {w : PyVal}

/-- What there is under the key is the dictionary of the collections. -/
theorem IsState.exists_collections (hs : IsState state own h s) (hget : Dict.get s COLLECTIONS = some w) :
    ∃ t collections, w = .dict collections ∧ CollectionsAt state h s t collections := by
  obtain ⟨r, top, t, hr, -, hc, ht, ho, -⟩ := hs.tree.focus (by decide) hget
  obtain ⟨_, _, kvs, -, hw, -⟩ := owns_iff.mp ho
  obtain rfl : w = .dict kvs := hw
  exact ⟨t, kvs, rfl, ⟨r, top, hr, hc, ht⟩, hget⟩

/-- The collections as a part of the state. -/
theorem CollectionsAt.part (hc : CollectionsAt state h s t collections) (hs : IsState state own h s) :
    Heap.Owns h own collectionsShape [COLLECTIONS] t (PyVal.dict collections) ∧
      ∀ h' own' collections', SameOn h own h' own' {l | l ∉ under [COLLECTIONS]} →
        Heap.Owns h' own' collectionsShape [COLLECTIONS] t (PyVal.dict collections') →
          Heap.Owns h' own' databaseShape [] state
              (PyVal.dict (Dict.put s COLLECTIONS (.dict collections'))) ∧
            CollectionsAt state h' (Dict.put s COLLECTIONS (.dict collections')) t collections' := by
  obtain ⟨⟨r, top, rfl, htop, ht⟩, hvalue⟩ := hc
  obtain ⟨r', top', t', e, hr, htop', ht', ho, hback⟩ := hs.tree.focus (by decide) hvalue
  cases e
  cases htop.symm.trans htop'
  cases ht.symm.trans ht'
  refine ⟨ho, fun h' own' collections' hsame ho' => ⟨hback h' own' _ hsame ho', ?_, ?_⟩⟩
  · exact ⟨r, top, rfl, (hsame.labelled r _ hr (not_under_cons rfl)).2.trans htop, ht⟩
  · exact Dict.get_put_self s COLLECTIONS _

theorem CollectionsAt.collection (hc : CollectionsAt state h s t collections)
    (hs : IsState state own h s) (hget : Dict.get collections name = some w) :
    ∃ r cs t' docs, t = .ref r ∧ h[r]? = some (.dict cs) ∧ Dict.get cs name = some t' ∧
      w = .dict docs ∧ CollectionAt state h s collections name t' docs := by
  obtain ⟨r, cs, t', rfl, -, hcs, ht', ho, -⟩ := (hc.part hs).1.focus rfl hget
  obtain ⟨_, _, kvs, -, hw, -⟩ := owns_iff.mp ho
  obtain rfl : w = .dict kvs := hw
  exact ⟨r, cs, t', kvs, rfl, hcs, ht', rfl, ⟨r, cs, hc, hcs, ht'⟩, hget⟩

theorem sameOn_above {p : List PyKey} (hs : SameOn h own h' own' {l | l ∉ under (name :: p)}) :
    SameOn h own h' own' {l | l ∉ under p} :=
  hs.mono fun _ hl hu => hl (under_cons hu)

/-- A collection as a part of the state. -/
theorem CollectionAt.part (hc : CollectionAt state h s collections name t docs)
    (hs : IsState state own h s) :
    Heap.Owns h own collectionShape [name, COLLECTIONS] t (PyVal.dict docs) ∧
      ∀ h' own' docs', SameOn h own h' own' {l | l ∉ under [name, COLLECTIONS]} →
        Heap.Owns h' own' collectionShape [name, COLLECTIONS] t (PyVal.dict docs') →
          Heap.Owns h' own' databaseShape [] state (PyVal.dict (writeDocs s collections name docs')) ∧
            CollectionAt state h' (writeDocs s collections name docs')
              (Dict.put collections name (.dict docs')) name t docs' := by
  obtain ⟨⟨r, cs, hparent, hcs, ht⟩, hvalue⟩ := hc
  obtain ⟨hop, hback⟩ := hparent.part hs
  obtain ⟨r', cs', t', e, hr, hcs', ht', ho, hback'⟩ := hop.focus rfl hvalue
  cases e
  cases hcs.symm.trans hcs'
  cases ht.symm.trans ht'
  refine ⟨ho, fun h' own' docs' hsame ho' => ?_⟩
  obtain ⟨htree, hat⟩ := hback h' own' _ (sameOn_above hsame) (hback' h' own' _ hsame ho')
  refine ⟨htree, ⟨r, cs, hat, ?_, ht⟩, Dict.get_put_self collections name _⟩
  exact (hsame.labelled r _ hr (not_under_cons rfl)).2.trans hcs

/-- An operation goes on with another tree of the same objects outside. -/
theorem During.next (hd : During h₀ own₀ state own h s) (hs : Since h own h' own') {s' : State}
    (ht : Heap.Owns h' own' databaseShape [] state (PyVal.dict s'))
    (hb : ∀ r, own' r ≠ none → r < h'.length) : During h₀ own₀ state own' h' s' :=
  ⟨⟨ht, hb⟩, hd.since.trans hs⟩

section Create

variable {entries : Dict PyKey PySlot} {c : Cell PyKey SeqType PySlot} {l : Label PyKey}

/-- A new object that gets a label, and is put into a dictionary of the tree. -/
theorem Since.create (hc : h[r]? = some (.dict entries)) (hr : own r ≠ none) {e : Dict PyKey PySlot} :
    Since h own ((h ++ [c]).set r (.dict e)) (Function.update own h.length (some l)) where
  length := by simp
  outside r' hr' hn := by
    have hne : r ≠ r' := by
      rintro rfl
      exact hr hn
    refine ⟨(Function.update_of_ne hr'.ne _ _).trans hn, ?_⟩
    rw [List.getElem?_set_ne hne, List.getElem?_append_left hr']
  frozen r' c' hc' hf' := by
    have hne : r ≠ r' := by
      rintro rfl
      cases hc.symm.trans hc'
      cases hf'
    rw [List.getElem?_set_ne hne, List.getElem?_append_left (lt_of_some hc')]
    exact hc'

theorem bound_create (hb : ∀ r, own r ≠ none → r < h.length) {e : Dict PyKey PySlot} (r' : Nat)
    (hr' : Function.update own h.length (some l) r' ≠ none) :
    r' < ((h ++ [c]).set r (.dict e)).length := by
  rw [List.length_set, List.length_append, List.length_singleton]
  by_cases e : r' = h.length
  · omega
  · rw [Function.update_of_ne e] at hr'
    exact (hb r' hr').trans (Nat.lt_succ_self _)

end Create

/-- `state.setdefault("collections", {})`. -/
theorem During.setdefault_top (hd : During h₀ own₀ state own h s) : ∃ t h' own' collections,
    Objects.setdefault state COLLECTIONS h = .ok t h' ∧ collectionsOf s = .ok collections ∧
      During h₀ own₀ state own' h' (Dict.put s COLLECTIONS (.dict collections)) ∧ Since h own h' own' ∧
        CollectionsAt state h' (Dict.put s COLLECTIONS (.dict collections)) t collections := by
  unfold collectionsOf
  cases hget : Dict.get s COLLECTIONS with
  | some w =>
    obtain ⟨t, collections, rfl, hat⟩ := hd.held.exists_collections hget
    obtain ⟨r, top, rfl, htop, ht⟩ := hat.object
    refine ⟨t, h, own, collections, setdefault_found htop ht, rfl, ?_, .refl, ?_⟩
    · rwa [Dict.put_of_get hget]
    · rwa [Dict.put_of_get hget]
  | none =>
    obtain ⟨r, top, kvs, rfl, -, hr, -⟩ := owns_iff.mp hd.held.tree
    obtain ⟨top, h', own', htop, hmiss, rfl, rfl, ho, -⟩ :=
      hd.held.tree.create (by decide) hget hd.held.bound
    have hne : own r ≠ none := by
      rw [hr]
      exact Option.some_ne_none _
    have hs := Since.create (c := Cell.dict []) (l := .node [COLLECTIONS]) htop hne
      (e := Dict.put top COLLECTIONS (.ref h.length))
    refine ⟨.ref h.length, _, _, [], setdefault_missing htop hmiss, rfl,
      hd.next hs ho (bound_create hd.held.bound), hs,
      ⟨⟨r, Dict.put top COLLECTIONS (.ref h.length), rfl, ?_, Dict.get_put_self _ _ _⟩,
        Dict.get_put_self _ _ _⟩⟩
    exact List.getElem?_set_self ((lt_of_some htop).trans_le (by simp))

/-- `collections.setdefault(collection, {})`. -/
theorem During.setdefault_collection (hd : During h₀ own₀ state own h s)
    (hat : CollectionsAt state h s t collections) (name : PyKey) : ∃ t' h' own' docs,
    Objects.setdefault t name h = .ok t' h' ∧
      JsonDatabase.asDict ((Dict.get collections name).getD (.dict [])) = .ok docs ∧
        During h₀ own₀ state own' h' (writeDocs s collections name docs) ∧ Since h own h' own' ∧
          CollectionAt state h' (writeDocs s collections name docs)
            (Dict.put collections name (.dict docs)) name t' docs := by
  cases hget : Dict.get collections name with
  | some w =>
    obtain ⟨r, cs, t', docs, rfl, hcs, ht', rfl, hat'⟩ := hat.collection hd.held hget
    have hw : writeDocs s collections name docs = s := by
      unfold writeDocs
      rw [Dict.put_of_get hget, Dict.put_of_get hat.value]
    refine ⟨t', h, own, docs, setdefault_found hcs ht', rfl, ?_, .refl, ?_⟩
    · rwa [hw]
    · rwa [hw, Dict.put_of_get hget]
  | none =>
    obtain ⟨hpart, hback⟩ := hat.part hd.held
    obtain ⟨r, cs, kvs, rfl, -, hr, -⟩ := owns_iff.mp hpart
    obtain ⟨cs, h', own', hcs, hmiss, rfl, rfl, ho, hsame⟩ := hpart.create rfl hget hd.held.bound
    have hne : own r ≠ none := by
      rw [hr]
      exact Option.some_ne_none _
    have hs := Since.create (c := Cell.dict []) (l := .node [name, COLLECTIONS]) hcs hne
      (e := Dict.put cs name (.ref h.length))
    have habove := hsame.mono (M := {l | l ∉ under [COLLECTIONS]}) fun l hl e => hl (e ▸ List.suffix_rfl)
    obtain ⟨htree, hat'⟩ := hback _ _ _ habove ho
    refine ⟨.ref h.length, _, _, [], setdefault_missing hcs hmiss, rfl,
      hd.next hs htree (bound_create hd.held.bound), hs,
      ⟨⟨r, Dict.put cs name (.ref h.length), hat', ?_, Dict.get_put_self _ _ _⟩,
        Dict.get_put_self _ _ _⟩⟩
    exact List.getElem?_set_self ((lt_of_some hcs).trans_le (by simp))

/-- `_ensure_collection`. -/
theorem During.ensureCollection (hd : During h₀ own₀ state own h s) {c : PySlot} {n : PyVal}
    (hv : HasValue h R c n) :
    EndsAlike (fun t docs h' s' => ∃ own' collections, During h₀ own₀ state own' h' s' ∧
        Since h own h' own' ∧ CollectionAt state h' s' collections n.toKey t docs)
      (fun h' s' => ∃ own', During h₀ own₀ state own' h' s')
      (Objects.ensureCollection state c h) (JsonDatabase.ensureCollection n s) := by
  refine EndsAlike.left (valueOf_run hv) (EndsAlike.check ⟨own, hd⟩ fun _ _ => ?_)
  obtain ⟨tc, h₁, own₁, collections, hset, hcoll, hd₁, hs₁, hat⟩ := hd.setdefault_top
  obtain ⟨t, h₂, own₂, docs, hset', hdocs, hd₂, hs₂, hat'⟩ :=
    hd₁.setdefault_collection hat n.toKey
  have hw : writeDocs (Dict.put s COLLECTIONS (.dict collections)) collections n.toKey docs =
      writeDocs s collections n.toKey docs := Dict.put_put _ _ _ _
  rw [hw] at hd₂ hat'
  refine EndsAlike.left hset ?_
  rw [hset']
  refine EndsAlike.right (b := s) rfl (EndsAlike.right (run_lift_ok.mpr ⟨hcoll, rfl⟩)
    (EndsAlike.right (run_lift_ok.mpr ⟨hdocs, rfl⟩) (EndsAlike.right (b := ()) rfl ?_)))
  exact .ok ⟨own₂, _, hd₂, hs₁.trans hs₂, hat'⟩

theorem getElem_append (hp : h <+: h') {c : Cell PyKey SeqType PySlot} (hc : h[r]? = some c) :
    h'[r]? = some c := by
  obtain ⟨cs, rfl⟩ := hp
  rw [List.getElem?_append_left (lt_of_some hc)]
  exact hc

/-- New objects move no collection. -/
theorem CollectionAt.append (hat : CollectionAt state h s collections name t docs) (hp : h <+: h') :
    CollectionAt state h' s collections name t docs := by
  obtain ⟨⟨r, cs, ⟨⟨rs, top, hr, htop, htc⟩, hv⟩, hcs, ht⟩, hv'⟩ := hat
  exact ⟨⟨r, cs, ⟨⟨rs, top, hr, getElem_append hp htop, htc⟩, hv⟩, getElem_append hp hcs, ht⟩, hv'⟩

/-- As long as what belongs to the tree stays as it is, a collection stays where it is. -/
theorem CollectionAt.move (hat : CollectionAt state h s collections name t docs)
    (hs : IsState state own h s) (hsame : ∀ r, own r ≠ none → h'[r]? = h[r]?) :
    CollectionAt state h' s collections name t docs := by
  obtain ⟨⟨rc, cs, hparent, hcs, ht⟩, hv'⟩ := hat
  obtain ⟨rc', _, _, e, -, hrc, -⟩ := owns_iff.mp (hparent.part hs).1
  cases e
  obtain ⟨⟨rs, top, rfl, htop, htc⟩, hv⟩ := hparent
  obtain ⟨rs', _, _, e, -, hrs, -⟩ := owns_iff.mp hs.tree
  cases e
  have hlabel {r : Nat} {l : Label PyKey} (hr : own r = some l) : own r ≠ none := by
    rw [hr]
    exact Option.some_ne_none l
  exact ⟨⟨rc, cs, ⟨⟨rs, top, rfl, (hsame rs (hlabel hrs)).trans htop, htc⟩, hv⟩,
    (hsame rc (hlabel hrc)).trans hcs, ht⟩, hv'⟩

/-! ## 5. Documents -/

/-- A document as a part of the state. -/
theorem CollectionAt.document (hat : CollectionAt state h s collections name t docs)
    (hs : IsState state own h s) (hget : Dict.get docs id = some w) : ∃ r entries td fields,
      t = .ref r ∧ h[r]? = some (.dict entries) ∧ Dict.get entries id = some td ∧ w = .dict fields ∧
        Heap.Owns h own .flat [id, name, COLLECTIONS] td (PyVal.dict fields) ∧
        ∀ h' own' fields', SameOn h own h' own' {l | l ∉ under [id, name, COLLECTIONS]} →
          Heap.Owns h' own' .flat [id, name, COLLECTIONS] td (PyVal.dict fields') →
            Heap.Owns h' own' databaseShape [] state
                (PyVal.dict (writeDocs s collections name (Dict.put docs id (.dict fields')))) ∧
              CollectionAt state h' (writeDocs s collections name (Dict.put docs id (.dict fields')))
                (Dict.put collections name (.dict (Dict.put docs id (.dict fields')))) name t
                (Dict.put docs id (.dict fields')) := by
  obtain ⟨hpart, hback⟩ := hat.part hs
  obtain ⟨r, entries, td, rfl, -, hc, htd, ho, hback'⟩ := hpart.focus rfl hget
  obtain ⟨_, _, fields, -, hw, -⟩ := owns_iff.mp ho
  obtain rfl : w = .dict fields := hw
  exact ⟨r, entries, td, fields, rfl, hc, htd, rfl, ho, fun h' own' fields' hsame ho' =>
    hback h' own' _ (sameOn_above hsame) (hback' h' own' _ hsame ho')⟩

/-- Objects that the operation made may get labels. -/
theorem During.take (hd : During h₀ own₀ state own h s) (own' : Owner PyKey)
    (hl : ∀ r, own' r = own r ∨ (r ∈ made h₀ own ∧ r < h.length)) :
    During h₀ own₀ state own' h s ∧ SameOn h own h own' Set.univ := by
  have hkeep : ∀ r, own r ≠ none → own' r = own r := fun r hr =>
    (hl r).resolve_right fun hm => hr hm.1.2
  have hbound : ∀ r, own' r ≠ none → r < h.length := by
    intro r hr
    rcases hl r with e | hm
    · exact hd.held.bound r (e ▸ hr)
    · exact hm.2
  refine ⟨⟨hd.held.relabel (List.prefix_refl h) hkeep hbound, ?_⟩,
    .relabel (List.prefix_refl h) hkeep hd.held.bound⟩
  refine ⟨hd.since.length, fun r hr hn => ?_, hd.since.frozen⟩
  obtain ⟨hn', hc⟩ := hd.since.outside r hr hn
  exact ⟨((hl r).resolve_right fun hm => absurd hm.1.1 (Nat.not_le.mpr hr)).trans hn', hc⟩

open Classical in
/-- The labels after what the operation made has become a document at `p`, or the inside of one. -/
noncomputable def taken (h₀ h : PyHeap) (own : Owner PyKey) (p : List PyKey) : Owner PyKey :=
  fun r => if r ∈ made h₀ own ∧ r < h.length then some (.inner p) else own r

theorem taken_made {p : List PyKey} (hr : r ∈ made h₀ own) (hlt : r < h.length) :
    taken h₀ h own p r = some (.inner p) := if_pos ⟨hr, hlt⟩

theorem taken_cases (p : List PyKey) (r : Nat) :
    taken h₀ h own p r = own r ∨ (r ∈ made h₀ own ∧ r < h.length) := by
  by_cases hr : r ∈ made h₀ own ∧ r < h.length
  · exact Or.inr hr
  · exact Or.inl (if_neg hr)

/-- An assignment to a dictionary of the tree. -/
theorem During.set_node (hd : During h₀ own₀ state own h s) {p : List PyKey}
    {entries entries' : Dict PyKey PySlot} (hr : own r = some (.node p))
    (hc : h[r]? = some (.dict entries)) {s' : State}
    (ht : Heap.Owns (h.set r (.dict entries')) own databaseShape [] state (PyVal.dict s')) :
    During h₀ own₀ state own (h.set r (.dict entries')) s' ∧ Since h own (h.set r (.dict entries')) own := by
  have hne {r' : Nat} (hr' : own r' = none) : r ≠ r' := by
    rintro rfl
    cases hr.symm.trans hr'
  have hs : Since h own (h.set r (.dict entries')) own := by
    refine ⟨by rw [List.length_set], fun r' _ hn => ⟨hn, List.getElem?_set_ne (hne hn)⟩,
      fun r' c hc' hf => ?_⟩
    have hne' : r ≠ r' := by
      rintro rfl
      cases hc.symm.trans hc'
      cases hf
    rw [List.getElem?_set_ne hne']
    exact hc'
  exact ⟨hd.next hs ht fun r' hr' => by rw [List.length_set]; exact hd.held.bound r' hr', hs⟩

/-- **Storing a document** that the operation made, under an identifier. -/
theorem During.assign (hd : During h₀ own₀ state own h s)
    (hat : CollectionAt state h s collections name t docs)
    (hv : HasValue h (made h₀ own) (.ref r) (PyVal.dict fields)) (hf : Dict.Distinct fields)
    (id : PyKey) : ∃ h' own', Objects.setItem t id (.ref r) h = .ok () h' ∧
      During h₀ own₀ state own' h' (writeDocs s collections name (Dict.put docs id (.dict fields))) ∧
      CollectionAt state h' (writeDocs s collections name (Dict.put docs id (.dict fields)))
        (Dict.put collections name (.dict (Dict.put docs id (.dict fields)))) name t
        (Dict.put docs id (.dict fields)) ∧
      HasValue h' (owned own') (.ref r) (PyVal.dict fields) := by
  obtain ⟨r', fieldsOf, e, hr', hmade, -⟩ := hasValue_dict hv
  cases e
  -- the document is at the path, and what is in it is inside
  let p := [id, name, COLLECTIONS]
  let own' := Function.update (taken h₀ h own p) r (some (.node p))
  have hl : ∀ r', own' r' = own r' ∨ (r' ∈ made h₀ own ∧ r' < h.length) := by
    intro r'
    by_cases e : r' = r
    · subst e
      exact Or.inr ⟨hmade, lt_of_some hr'⟩
    · rw [show own' r' = taken h₀ h own p r' from Function.update_of_ne e _ _]
      exact taken_cases p r'
  obtain ⟨hd₁, hsame⟩ := hd.take own' hl
  have hdoc : Heap.Owns h own' .flat p (.ref r) (PyVal.dict fields) := by
    refine Owns.adopt (R := made h₀ own ∩ {r | r < h.length}) hv.existing hf
      (Function.update_self _ _ _) fun r' hr' hne => ?_
    exact (Function.update_of_ne hne _ _).trans (taken_made hr'.1 hr'.2)
  obtain ⟨hpart, hback⟩ := hat.part hd₁.held
  obtain ⟨δ, entries, kvs, rfl, hkvs, hδ, hc, hdist, hm⟩ := owns_iff.mp hpart
  obtain rfl : docs = kvs := PyVal.dict.inj hkvs
  have hset : SameOn h own' (h.set δ (.dict (Dict.put entries id (.ref r)))) own'
      {l | l ≠ .node [name, COLLECTIONS]} := .set hc rfl hδ
  have hwrite := Owns.write (V := PyVal) collectionShape hδ hc (Dict.distinct_put id _ hdist)
    (hm.put (k := id) ((Shape.at_owned rfl).mpr hdoc))
  have hoff := hset.mono (M := {l | l ∉ under [name, COLLECTIONS]}) fun l hl e => hl (e ▸ List.suffix_rfl)
  obtain ⟨htree, hat'⟩ := hback _ _ _ hoff hwrite
  obtain ⟨hd₂, -⟩ := hd₁.set_node hδ hc htree
  refine ⟨_, own', setItem_run hc id, hd₂, hat', (hdoc.frame (hset.mono fun l hl e => ?_)).hasValue⟩
  exact not_under_cons (k := id) (congrArg Label.path e) hl

/-- **Merging into a document** what the operation made. -/
theorem During.merge (hd : During h₀ own₀ state own h s)
    (hat : CollectionAt state h s collections name t docs) (hget : Dict.get docs id = some (.dict fields))
    {new : PyDict} (hv : HasValue h (made h₀ own) (.ref r) (PyVal.dict new)) :
    ∃ entries td h' own', (∃ δ, t = .ref δ ∧ h[δ]? = some (.dict entries)) ∧
      Dict.get entries id = some td ∧ Objects.updateWith td (.ref r) h = .ok () h' ∧
      During h₀ own₀ state own' h'
        (writeDocs s collections name (Dict.put docs id (.dict (Dict.merge fields new)))) ∧
      CollectionAt state h' (writeDocs s collections name (Dict.put docs id (.dict (Dict.merge fields new))))
        (Dict.put collections name (.dict (Dict.put docs id (.dict (Dict.merge fields new))))) name t
        (Dict.put docs id (.dict (Dict.merge fields new))) ∧
      HasValue h' (owned own') td (PyVal.dict (Dict.merge fields new)) := by
  obtain ⟨r', newEntries, e, hr', -, hnew⟩ := hasValue_dict hv.existing
  cases e
  let p := [id, name, COLLECTIONS]
  obtain ⟨hd₁, -⟩ := hd.take (taken h₀ h own p) (taken_cases p)
  obtain ⟨δ, entries, td, fields', ht, hc, htd, hw, hdoc, hback⟩ := hat.document hd₁.held hget
  obtain rfl : fields = fields' := PyVal.dict.inj hw
  obtain ⟨ρ, old, kvs, rfl, hkvs, hρ, hold, hdist, hm⟩ := owns_iff.mp hdoc
  obtain rfl : fields = kvs := PyVal.dict.inj hkvs
  have hin : Dict.Matches (Shape.At h (taken h₀ h own p) p .flat) newEntries new :=
    hnew.imp fun k s v hs => hs.mono fun r'' hr'' => taken_made hr''.1.1 hr''.1.2
  have hwrite := Owns.write (V := PyVal) .flat hρ hold (Dict.distinct_merge newEntries hdist)
    (hm.merge hin)
  have hset : SameOn h (taken h₀ h own p) (h.set ρ (.dict (Dict.merge old newEntries)))
      (taken h₀ h own p) {l | l ≠ .node p} := .set hold rfl hρ
  obtain ⟨htree, hat'⟩ := hback _ _ _ (hset.mono fun l hl e => hl (e ▸ List.suffix_rfl)) hwrite
  obtain ⟨hd₂, -⟩ := hd₁.set_node hρ hold htree
  exact ⟨entries, .ref ρ, _, _, ⟨δ, ht, hc⟩, htd, updateWith_run hold hr', hd₂, hat', hwrite.hasValue⟩

/-- **Removing a document.** -/
theorem During.remove (hd : During h₀ own₀ state own h s)
    (hat : CollectionAt state h s collections name t docs) (id : PyKey) :
    ∃ h', Objects.delItem t id h = .ok () h' ∧
      During h₀ own₀ state own h' (writeDocs s collections name (Dict.drop docs id)) := by
  obtain ⟨hpart, hback⟩ := hat.part hd.held
  obtain ⟨δ, entries, kvs, rfl, hkvs, hδ, hc, hdist, hm⟩ := owns_iff.mp hpart
  obtain rfl : docs = kvs := PyVal.dict.inj hkvs
  have hset : SameOn h own (h.set δ (.dict (Dict.drop entries id))) own
      {l | l ≠ .node [name, COLLECTIONS]} := .set hc rfl hδ
  have hwrite := Owns.write (V := PyVal) collectionShape hδ hc (Dict.distinct_drop id hdist)
    (hm.drop id)
  have hoff := hset.mono (M := {l | l ∉ under [name, COLLECTIONS]}) fun l hl e => hl (e ▸ List.suffix_rfl)
  obtain ⟨htree, -⟩ := hback _ _ _ hoff hwrite
  exact ⟨_, delItem_run hc id, (hd.set_node hδ hc htree).1⟩

/-! ## 6. What the operations are put together from -/

theorem During.argument (hd : During h₀ own₀ state own h s) (hv : HasValue h₀ (free own₀) t v) :
    HasValue h (free own) t v := hd.since.argument hv

section Steps

variable {α β : Type} {Q : α → β → PyHeap → State → Prop} {E : PyHeap → State → Prop}
  {f : PySlot → ObjM α} (cp : Copier)

/-- `copy.deepcopy` of a dictionary. -/
theorem During.copyDict (hd : During h₀ own₀ state own h s) (hv : HasValue h R t (PyVal.dict fields))
    {g : PyDict → Op β} (he : E h s)
    (hok : ∀ r h', During h₀ own₀ state own h' s → h <+: h' →
      HasValue h' (made h₀ own) (.ref r) (PyVal.dict fields) → EndsAlike Q E (f (.ref r) h') (g fields s)) :
    EndsAlike Q E ((Objects.deepcopy cp t >>= f) h)
      ((liftExcept (JsonDatabase.copyDict cp (.dict fields)) >>= g) s) := by
  unfold JsonDatabase.copyDict
  rcases deepcopy_cases cp hv with ⟨e, hcopy, hrun⟩ | ⟨hcopy, t', h', hrun, hclone⟩
  · rw [hcopy]
    have hleft : (Objects.deepcopy cp t >>= f) h = .error e h := run_bind_error.mpr (Or.inl hrun)
    rw [hleft]
    exact .error he
  · rw [hcopy]
    obtain ⟨hd', hv'⟩ := hd.clone hv hclone
    obtain ⟨r, entries, rfl, -⟩ := hasValue_dict hv'
    exact EndsAlike.left hrun (EndsAlike.right_lift rfl
      (hok r h' hd' hclone.old hv'))

/-- `copy.deepcopy` of something that is handed out. -/
theorem During.handOut (hd : During h₀ own₀ state own h s) (hv : HasValue h R t v)
    {Q : PySlot → PyVal → PyHeap → State → Prop} (he : E h s)
    (hok : ∀ t' h', During h₀ own₀ state own h' s → HasValue h' (made h₀ own) t' v → Q t' v h' s) :
    EndsAlike Q E (Objects.deepcopy cp t h) (liftExcept (JsonDatabase.deepcopy cp v) s) := by
  rcases deepcopy_cases cp hv with ⟨e, hcopy, hrun⟩ | ⟨hcopy, t', h', hrun, hclone⟩
  · rw [hcopy, hrun]
    exact .error he
  · rw [hcopy, hrun]
    obtain ⟨hd', hv'⟩ := hd.clone hv hclone
    exact .ok (hok t' h' hd' hv')

/-- An assignment of an atom to a dictionary that the operation made. -/
theorem During.setField (hd : During h₀ own₀ state own h s)
    (hv : HasValue h (made h₀ own) (.ref r) (PyVal.dict fields)) (k : PyKey)
    (ht : HasValue h ∅ t v) : ∃ h', Objects.setItem (.ref r) k t h = .ok () h' ∧
      During h₀ own₀ state own h' s ∧
        HasValue h' (made h₀ own) (.ref r) (PyVal.dict (Dict.put fields k v)) ∧
          ∀ r', own r' ≠ none → h'[r']? = h[r']? := by
  obtain ⟨r', entries, e, hc, hr, hm⟩ := hasValue_dict hv
  cases e
  have hset {R : Set Nat} (hR : r ∉ R) :
      Heap.Agree h (h.set r (.dict (Dict.put entries k t))) R := .set hc rfl hR
  have hm' : Dict.Matches (fun _ => HasValue h (made h₀ own \ {r})) (Dict.put entries k t)
      (Dict.put fields k v) := hm.put (ht.mono (Set.empty_subset _))
  have hplaces : Cell.Rel (HasValue (h.set r (.dict (Dict.put entries k t))) (made h₀ own))
      (Cell.dict (τ := SeqType) (Dict.put entries k t)) (Cell.dict (Dict.put fields k v)) :=
    hm'.imp fun k x w hx => (hx.frame (hset fun hin => hin.2 rfl)).mono fun r' hr' => hr'.1
  refine ⟨_, setItem_run hc k, hd.set_made hc rfl hr,
    .ref (List.getElem?_set_self (lt_of_some hc)) (fun _ => hr) hplaces, fun r' hr' => ?_⟩
  refine List.getElem?_set_ne ?_
  rintro rfl
  exact hr' hr.2

end Steps

/-- A new list. -/
theorem During.allocList (hd : During h₀ own₀ state own h s) {ts : List PySlot} {vs : List PyVal}
    (hts : List.Forall₂ (HasValue h (made h₀ own)) ts vs) : ∃ h',
      Objects.alloc (.items .list ts) h = .ok (.ref h.length) h' ∧ During h₀ own₀ state own h' s ∧
        HasValue h' (made h₀ own) (.ref h.length) (PyVal.list vs) := by
  have hp : h <+: h ++ [Cell.items SeqType.list ts] := List.prefix_append _ _
  have hplaces : Cell.Rel (HasValue (h ++ [Cell.items SeqType.list ts]) (made h₀ own))
      (Cell.items (κ := PyKey) SeqType.list ts) (Cell.items SeqType.list vs) :=
    ⟨rfl, hts.imp fun x v hx => hx.frame (.append _)⟩
  have hnew : h.length ∈ made h₀ own := ⟨hd.since.length, hd.held.fresh le_rfl⟩
  exact ⟨_, rfl, hd.append hp,
    HasValue.ref (V := PyVal) List.getElem?_concat_length (fun _ => hnew) hplaces⟩

/-- A string is an atom. -/
theorem hasValue_str {x : Str} (hv : HasValue h R t (PyVal.str x)) : t = .atom (.str x) := by
  cases t with
  | ref r =>
    obtain ⟨c, d, -, -, -, hb⟩ := hv.places
    exact absurd hb.symm (Denoting.leaf_ne_build (V := PyVal) (Atom.str x) d)
  | atom a =>
    have hx : PyVal.str x = a.val := hv.of_atom
    cases a <;> cases hx
    rfl

theorem CollectionAt.collectionsOf (hat : CollectionAt state h s collections name t docs) :
    JsonDatabase.collectionsOf s = .ok collections := by
  obtain ⟨r, cs, hparent, -⟩ := hat.object
  unfold JsonDatabase.collectionsOf
  rw [hparent.value]
  rfl

/-- `collection_state[document_id] = document`, on values. -/
theorem CollectionAt.assignDocument {c i : PyVal}
    (hat : CollectionAt state h s collections c.toKey t docs) (document : PyDict) :
    JsonDatabase.assignDocument c i document s =
      .ok () (writeDocs s collections c.toKey (Dict.put docs i.toKey (.dict document))) := by
  have h₂ : asDict ((Dict.get collections c.toKey).getD (.dict [])) = .ok docs := by
    rw [hat.value]
    rfl
  unfold JsonDatabase.assignDocument
  exact run_bind_ok.mpr ⟨s, s, rfl, run_lift_bind_ok.mpr ⟨collections, hat.collectionsOf,
    run_lift_bind_ok.mpr ⟨docs, h₂, rfl⟩⟩⟩

/-- Looking for a collection finds it in both, or in neither. -/
theorem IsState.findCollection (hs : IsState state own h s) (n : PyVal) :
    ∃ collections, collectionsOf s = .ok collections ∧
      ((Dict.get collections n.toKey = none ∧ Objects.findCollection state n h = .ok none h) ∨
        ∃ t docs, CollectionAt state h s collections n.toKey t docs ∧
          Objects.findCollection state n h = .ok (some t) h) := by
  obtain ⟨r, top, kvs, rfl, hkvs, -, hc, -, hm⟩ := owns_iff.mp hs.tree
  obtain rfl : s = kvs := PyVal.dict.inj hkvs
  unfold collectionsOf
  cases hget : Dict.get s COLLECTIONS with
  | none =>
    refine ⟨[], rfl, Or.inl ⟨rfl, ?_⟩⟩
    refine run_bind_ok.mpr ⟨_, h, asDict_run hc, ?_⟩
    simp only [hm.get_none hget]
    rfl
  | some w =>
    obtain ⟨tc, collections, rfl, hat⟩ := hs.exists_collections hget
    obtain ⟨rc, cs, cvs, rfl, hcvs, -, hcs, -, hmc⟩ := owns_iff.mp (hat.part hs).1
    obtain rfl : collections = cvs := PyVal.dict.inj hcvs
    have htop : Dict.get top COLLECTIONS = some (.ref rc) := by
      obtain ⟨r', top', e, htop', ht⟩ := hat.object
      cases e
      cases hc.symm.trans htop'
      exact ht
    have hrun : Objects.findCollection (.ref r) n h = .ok (Dict.get cs n.toKey) h := by
      refine run_bind_ok.mpr ⟨_, h, asDict_run hc, ?_⟩
      simp only [htop]
      exact run_bind_ok.mpr ⟨_, h, asDict_run hcs, rfl⟩
    refine ⟨collections, rfl, ?_⟩
    rw [hrun]
    cases hget' : Dict.get collections n.toKey with
    | none =>
      exact Or.inl ⟨rfl, by rw [hmc.get_none hget']⟩
    | some w =>
      obtain ⟨r', cs', t', docs, e, hcs', ht', -, hat'⟩ := hat.collection hs hget'
      cases e
      cases hcs.symm.trans hcs'
      exact Or.inr ⟨t', docs, hat', by rw [ht']⟩

section Finding

variable {cv iv : PyVal}

/-- What `_get_collection_ref` finds, on values. -/
theorem getCollectionRef_eq (hvalid : validateCollectionName cv = .ok ())
    (hcoll : collectionsOf s = .ok collections) : JsonDatabase.getCollectionRef s cv =
      match Dict.get collections cv.toKey with
      | none => .error (collectionNotFound cv)
      | some docs => asDict docs := by
  unfold JsonDatabase.getCollectionRef
  rw [hvalid, hcoll]
  rfl

theorem getCollectionRefOrEmpty_eq (hvalid : validateCollectionName cv = .ok ())
    (hcoll : collectionsOf s = .ok collections) : JsonDatabase.getCollectionRefOrEmpty s cv =
      match Dict.get collections cv.toKey with
      | none => .ok []
      | some docs => asDict docs := by
  unfold JsonDatabase.getCollectionRefOrEmpty
  rw [hvalid, hcoll]
  rfl

variable {α β : Type} {Q : α → β → PyHeap → State → Prop} {E : PyHeap → State → Prop} {c i : PySlot}

/-- `_get_collection_ref`. -/
theorem IsState.getCollectionRef (hs : IsState state own h s) (hc : HasValue h R c cv)
    {f : PySlot → ObjM α} {g : PyDict → Op β} (he : E h s)
    (hok : ∀ t collections docs, validateCollectionName cv = .ok () →
      CollectionAt state h s collections cv.toKey t docs → EndsAlike Q E (f t h) (g docs s)) :
    EndsAlike Q E ((Objects.getCollectionRef state c >>= f) h)
      ((liftExcept (JsonDatabase.getCollectionRef s cv) >>= g) s) := by
  unfold Objects.getCollectionRef
  simp only [bind_assoc]
  refine EndsAlike.left (valueOf_run hc) ?_
  cases hvalid : validateCollectionName cv with
  | error e =>
    have hvalue : JsonDatabase.getCollectionRef s cv = .error e := by
      unfold JsonDatabase.getCollectionRef
      rw [hvalid]
      rfl
    rw [hvalue]
    exact .error he
  | ok u =>
    obtain ⟨collections, hcoll, ⟨hget, hrun⟩ | ⟨t, docs, hat, hrun⟩⟩ := hs.findCollection cv
    · rw [getCollectionRef_eq hvalid hcoll, hget]
      exact EndsAlike.left rfl (EndsAlike.left hrun (.error he))
    · rw [getCollectionRef_eq hvalid hcoll, hat.value]
      exact EndsAlike.left rfl (EndsAlike.left hrun (EndsAlike.left rfl
        (EndsAlike.right_lift rfl (hok t collections docs hvalid hat))))

/-- `_get_document_ref`. -/
theorem IsState.getDocumentRef (hs : IsState state own h s) (hc : HasValue h R c cv)
    (hi : HasValue h R i iv) {f : PySlot → ObjM α} {g : PyDict → Op β} (he : E h s)
    (hok : ∀ t collections docs td fields, validateDocumentId iv = .ok () →
      CollectionAt state h s collections cv.toKey t docs →
        Dict.get docs iv.toKey = some (.dict fields) → HasValue h (owned own) td (PyVal.dict fields) →
          (∃ r entries, t = .ref r ∧ h[r]? = some (.dict entries) ∧
            Dict.get entries iv.toKey = some td) → EndsAlike Q E (f td h) (g fields s)) :
    EndsAlike Q E ((Objects.getDocumentRef state c i >>= f) h)
      ((liftExcept (JsonDatabase.getDocumentRef s cv iv) >>= g) s) := by
  unfold Objects.getDocumentRef JsonDatabase.getDocumentRef
  simp only [bind_assoc, liftExcept_bind]
  refine EndsAlike.left (valueOf_run hi) (EndsAlike.check he fun _ hvalid => ?_)
  refine hs.getCollectionRef hc he fun t collections docs _ hat => ?_
  obtain ⟨r, entries, kvs, rfl, hkvs, -, hcell, -, hm⟩ := owns_iff.mp (hat.part hs).1
  obtain rfl : docs = kvs := PyVal.dict.inj hkvs
  refine EndsAlike.left (asDict_run hcell) ?_
  cases hget : Dict.get docs iv.toKey with
  | none =>
    simp only [hm.get_none hget, bind_assoc]
    exact EndsAlike.left (valueOf_run hc) (.error he)
  | some w =>
    obtain ⟨td, htd, hat'⟩ := hm.get_some hget
    have ho := (Shape.at_owned rfl).mp hat'
    obtain ⟨-, -, fields, -, hw, -⟩ := owns_iff.mp ho
    obtain rfl : w = .dict fields := hw
    simp only [htd]
    exact EndsAlike.left rfl (EndsAlike.right_lift rfl
      (hok _ _ _ td fields hvalid hat hget ho.hasValue ⟨r, entries, rfl, hcell, htd⟩))

end Finding

end

end JsonDatabase
