/-
  File:      JsonDatabase/Basis/Owned.lean
  Subject:   Trees of dictionaries in a heap, each part with one owner.

  A label says where in the tree an object belongs: it is the dictionary at a path, or something inside
  the places of that dictionary. As an object has one label, no two parts of the tree share anything
  that can be changed; what is inside the places of one dictionary may be shared there.

  * `Shape` -- which entries of which dictionaries are dictionaries of the tree;
  * `Owns h own sh p s v` -- `s` is the tree at the path `p`, and its value is `v`;
  * `Owns.write`, `Owns.focus`, `Owns.adopt` -- assign to a dictionary of the tree; do something to a
    part of it; make a new object a part of it;
  * `Clone.owns` -- a clone of a tree is a tree.
-/
import JsonDatabase.Basis.DeepCopy

namespace JsonDatabase

/-! ## 1. Trees -/

/-- A dictionary whose entries are not dictionaries of the tree, or one of which some are. -/
inductive Shape (κ : Type) where
  | flat
  | dict (owned : κ → Bool) (child : κ → Shape κ)

/-- The place of an object in a tree; a path has the last key first. -/
inductive Label (κ : Type) where
  | node (path : List κ)
  | inner (path : List κ)

def Label.path {κ : Type} : Label κ → List κ
  | .node p => p
  | .inner p => p

/-- The labels of the objects that belong to a tree. -/
abbrev Owner (κ : Type) := Nat → Option (Label κ)

namespace Heap

variable {κ τ α V : Type} [SeqKind τ] [Denoting κ τ α V]

/-- What belongs inside the places of the dictionary at `p`. -/
def inner (own : Owner κ) (p : List κ) : Set Nat := {r | own r = some (.inner p)}

/-- All that belongs to the tree. -/
def owned (own : Owner κ) : Set Nat := {r | own r ≠ none}

/-- The dictionary at `p`; its entries are as `P` says. -/
def OwnsDict (h : Heap κ τ α) (own : Owner κ) (p : List κ) (P : κ → Slot α → V → Prop) (s : Slot α)
    (v : V) : Prop :=
  ∃ r entries kvs, s = .ref r ∧ v = Denoting.build (.dict kvs) ∧ own r = some (.node p) ∧
    h[r]? = some (.dict entries) ∧ Dict.Distinct entries ∧ Dict.Matches P entries kvs

/-- `s` is a tree at the path `p`, with the value `v`. -/
def Owns (h : Heap κ τ α) (own : Owner κ) : Shape κ → List κ → Slot α → V → Prop
  | .flat, p, s, v => OwnsDict h own p (fun _ => HasValue h (inner own p)) s v
  | .dict sub child, p, s, v => OwnsDict h own p (fun k s v =>
      if sub k = true then Owns h own (child k) (k :: p) s v else HasValue h (inner own p) s v) s v

/-- What the entry under `k` has to be. -/
def Shape.At (h : Heap κ τ α) (own : Owner κ) (p : List κ) : Shape κ → κ → Slot α → V → Prop
  | .flat, _, s, v => HasValue h (inner own p) s v
  | .dict sub child, k, s, v =>
    if sub k = true then Owns h own (child k) (k :: p) s v else HasValue h (inner own p) s v

variable {h h' : Heap κ τ α} {own own' : Owner κ} {sh : Shape κ} {p : List κ} {s t : Slot α}
  {v w : V} {k : κ} {r : Nat}

theorem owns_iff : Owns h own sh p s v ↔ OwnsDict h own p (Shape.At h own p sh) s v := by
  cases sh <;> exact Iff.rfl

theorem Shape.at_owned {sub : κ → Bool} {child : κ → Shape κ} (hk : sub k = true) :
    Shape.At h own p (.dict sub child) k s v ↔ Owns h own (child k) (k :: p) s v :=
  iff_of_eq (if_pos hk)

/-- A tree has its value, made of what belongs to it. -/
theorem Owns.hasValue : ∀ {sh : Shape κ} {p : List κ} {s : Slot α} {v : V}, Owns h own sh p s v →
    HasValue h (owned own) s v := by
  intro sh
  have hnode {p : List κ} {P : κ → Slot α → V → Prop} {s : Slot α} {v : V}
      (ho : OwnsDict h own p P s v) (hP : ∀ k s v, P k s v → HasValue h (owned own) s v) :
      HasValue h (owned own) s v := by
    obtain ⟨r, entries, kvs, rfl, rfl, hr, hc, -, hm⟩ := ho
    refine .ref hc (fun _ => ?_) (d := .dict kvs) (hm.imp hP)
    show own r ≠ none
    rw [hr]
    exact Option.some_ne_none _
  have hinner (p : List κ) {s : Slot α} {v : V} (hv : HasValue h (inner own p) s v) :
      HasValue h (owned own) s v := by
    refine hv.mono fun r hr => ?_
    show own r ≠ none
    rw [show own r = some (.inner p) from hr]
    exact Option.some_ne_none _
  induction sh with
  | flat =>
    intro p s v ho
    exact hnode ho fun k s v hv => hinner _ hv
  | dict sub child ih =>
    intro p s v ho
    refine hnode ho fun k s v hv => ?_
    by_cases hk : sub k = true
    · rw [if_pos hk] at hv
      exact ih k hv
    · rw [if_neg hk] at hv
      exact hinner _ hv

/-! ## 2. What does not matter to a part -/

/-- The objects with a label in `L`, and those that are frozen, are the same with the same label. -/
structure SameOn (h : Heap κ τ α) (own : Owner κ) (h' : Heap κ τ α) (own' : Owner κ)
    (L : Set (Label κ)) : Prop where
  labelled : ∀ (r : Nat) (l : Label κ), own r = some l → l ∈ L → own' r = some l ∧ h'[r]? = h[r]?
  frozen : ∀ (r : Nat) (c : Cell κ τ (Slot α)), h[r]? = some c → c.frozen = true → h'[r]? = some c

section SameOn

omit [Denoting κ τ α V]

theorem SameOn.mono {L M : Set (Label κ)} (hs : SameOn h own h' own' L) (hm : M ⊆ L) :
    SameOn h own h' own' M :=
  ⟨fun r l hr hl => hs.labelled r l hr (hm hl), hs.frozen⟩

theorem SameOn.trans {L : Set (Label κ)} {h'' : Heap κ τ α} {own'' : Owner κ}
    (h₁ : SameOn h own h' own' L) (h₂ : SameOn h' own' h'' own'' L) : SameOn h own h'' own'' L where
  labelled r l hr hl := by
    obtain ⟨hr', hc⟩ := h₁.labelled r l hr hl
    obtain ⟨hr'', hc'⟩ := h₂.labelled r l hr' hl
    exact ⟨hr'', hc'.trans hc⟩
  frozen r c hc hf := h₂.frozen r c (h₁.frozen r c hc hf) hf

theorem SameOn.agree {L : Set (Label κ)} (hs : SameOn h own h' own' L) {R : Set Nat}
    (hR : ∀ r ∈ R, ∃ l ∈ L, own r = some l) : Agree h h' R := by
  intro r c hc hr
  cases hf : c.frozen with
  | true => exact hs.frozen r c hc hf
  | false =>
    obtain ⟨l, hl, hown⟩ := hR r (hr hf)
    rw [(hs.labelled r l hown hl).2]
    exact hc

/-- New objects, and labels for objects that had none. -/
theorem SameOn.relabel {L : Set (Label κ)} (hp : h <+: h') (hl : ∀ r, own r ≠ none → own' r = own r)
    (hr : ∀ r, own r ≠ none → r < h.length) : SameOn h own h' own' L where
  labelled r l hown _ := by
    have hne : own r ≠ none := by
      rw [hown]
      exact Option.some_ne_none _
    obtain ⟨cs, rfl⟩ := hp
    exact ⟨(hl r hne).trans hown, List.getElem?_append_left (hr r hne)⟩
  frozen r c hc _ := by
    obtain ⟨cs, rfl⟩ := hp
    rw [List.getElem?_append_left (List.getElem?_eq_some_iff.mp hc).1]
    exact hc

/-- An assignment to an object matters to its own label only. -/
theorem SameOn.set {c₀ c : Cell κ τ (Slot α)} {l : Label κ} (hc₀ : h[r]? = some c₀)
    (hf : c₀.frozen = false) (hr : own r = some l) : SameOn h own (h.set r c) own {m | m ≠ l} where
  labelled r' l' hr' hl' := by
    have hne : r ≠ r' := by
      rintro rfl
      cases hr.symm.trans hr'
      exact hl' rfl
    exact ⟨hr', List.getElem?_set_ne hne⟩
  frozen r' c' hc' hf' := by
    have hne : r ≠ r' := by
      rintro rfl
      cases hc₀.symm.trans hc'
      cases hf.symm.trans hf'
    rw [List.getElem?_set_ne hne]
    exact hc'

end SameOn

theorem inner_frame {L : Set (Label κ)} (hs : SameOn h own h' own' L) (hL : Label.inner p ∈ L)
    (hv : HasValue h (inner own p) s v) : HasValue h' (inner own' p) s v :=
  (hv.frame (hs.agree fun _ hr => ⟨_, hL, hr⟩)).mono fun r hr => (hs.labelled r _ hr hL).1

/-- The labels at and below a path. -/
def under (p : List κ) : Set (Label κ) := {l | p <:+ l.path}

omit [SeqKind τ] [Denoting κ τ α V] in
theorem under_cons : under (k :: p) ⊆ under p := fun _ hl => (List.suffix_cons k p).trans hl

/-- **The frame rule for trees**: what happens elsewhere does not matter. -/
theorem Owns.frame : ∀ {sh : Shape κ} {p : List κ} {s : Slot α} {v : V}, Owns h own sh p s v →
    SameOn h own h' own' (under p) → Owns h' own' sh p s v := by
  intro sh
  have hnode {p : List κ} {P Q : κ → Slot α → V → Prop} {s : Slot α} {v : V}
      (ho : OwnsDict h own p P s v) (hs : SameOn h own h' own' (under p))
      (hP : ∀ k s v, P k s v → Q k s v) : OwnsDict h' own' p Q s v := by
    obtain ⟨r, entries, kvs, rfl, rfl, hr, hc, hd, hm⟩ := ho
    obtain ⟨hr', hc'⟩ := hs.labelled r _ hr List.suffix_rfl
    exact ⟨r, entries, kvs, rfl, rfl, hr', hc'.trans hc, hd, hm.imp hP⟩
  induction sh with
  | flat =>
    intro p s v ho hs
    exact hnode ho hs fun k s v hv => inner_frame hs List.suffix_rfl hv
  | dict sub child ih =>
    intro p s v ho hs
    refine hnode ho hs fun k s v hv => ?_
    by_cases hk : sub k = true
    · rw [if_pos hk] at hv ⊢
      exact ih k hv (hs.mono under_cons)
    · rw [if_neg hk] at hv ⊢
      exact inner_frame hs List.suffix_rfl hv

theorem Shape.At.frame {L : Set (Label κ)} (ha : Shape.At h own p sh k s v)
    (hs : SameOn h own h' own' L) (hin : Label.inner p ∈ L) (hk : under (k :: p) ⊆ L) :
    Shape.At h' own' p sh k s v := by
  cases sh with
  | flat => exact inner_frame hs hin ha
  | dict sub child =>
    unfold Shape.At at ha ⊢
    simp only at ha ⊢
    by_cases hsub : sub k = true
    · rw [if_pos hsub] at ha ⊢
      exact ha.frame (hs.mono hk)
    · rw [if_neg hsub] at ha ⊢
      exact inner_frame hs hin ha

/-! ## 3. Assigning to a part -/

omit [SeqKind τ] [Denoting κ τ α V] in
theorem not_under_cons {l : Label κ} (hl : l.path = p) : l ∉ under (k :: p) := by
  intro hs
  have hle : (k :: p).length ≤ l.path.length := List.IsSuffix.length_le hs
  rw [hl] at hle
  exact Nat.not_succ_le_self _ hle

omit [SeqKind τ] [Denoting κ τ α V] in
/-- Two entries of a dictionary lead to different parts. -/
theorem under_disjoint {k' : κ} (hne : k' ≠ k) {l : Label κ} (hl : l ∈ under (k' :: p)) :
    l ∉ under (k :: p) := by
  intro hl'
  have h₁ : (k' :: p) <:+ l.path := hl
  have h₂ : (k :: p) <:+ l.path := hl'
  have heq := (List.suffix_of_suffix_length_le h₁ h₂ le_rfl).eq_of_length rfl
  exact hne (List.cons.inj heq).1

/-- **Assigning to a dictionary of the tree.** -/
theorem Owns.write (sh : Shape κ) {entries₀ entries : Dict κ (Slot α)} {kvs : Dict κ V}
    (hr : own r = some (.node p)) (hc : h[r]? = some (.dict entries₀)) (hd : Dict.Distinct entries)
    (hm : Dict.Matches (Shape.At h own p sh) entries kvs) :
    Owns (h.set r (.dict entries)) own sh p (.ref r) (Denoting.build (.dict kvs) : V) := by
  refine owns_iff.mpr ⟨r, entries, kvs, rfl, rfl, hr, ?_, hd, hm.imp fun k s v ha => ?_⟩
  · exact List.getElem?_set_self (List.getElem?_eq_some_iff.mp hc).1
  · refine ha.frame (SameOn.set hc rfl hr) nofun fun l hl e => ?_
    exact not_under_cons (congrArg Label.path e) hl

/-- An empty dictionary is a part of any shape. -/
theorem Owns.empty (hr : own r = some (.node p)) (hc : h[r]? = some (.dict [])) :
    Owns h own sh p (.ref r) (Denoting.build (.dict []) : V) :=
  owns_iff.mpr ⟨r, [], [], rfl, rfl, hr, hc, Dict.distinct_nil, .nil⟩

omit [Denoting κ τ α V] in
/-- A new object with a label. -/
theorem SameOn.append {L : Set (Label κ)} {c : Cell κ τ (Slot α)} {l : Label κ}
    (hb : ∀ r, own r ≠ none → r < h.length) :
    SameOn h own (h ++ [c]) (Function.update own h.length (some l)) L :=
  .relabel (List.prefix_append h [c])
    (fun r hr => Function.update_of_ne (fun e => absurd (hb r hr) (by omega)) _ _) hb

variable [DecidableEq κ] {kvs : Dict κ V}

/-- **A part of a tree**, and the tree after something was done to the part. -/
theorem Owns.focus {sub : κ → Bool} {child : κ → Shape κ}
    (ho : Owns h own (.dict sub child) p s (Denoting.build (.dict kvs) : V)) (hk : sub k = true)
    (hget : Dict.get kvs k = some w) : ∃ r entries t, s = .ref r ∧ own r = some (.node p) ∧
      h[r]? = some (.dict entries) ∧ Dict.get entries k = some t ∧ Owns h own (child k) (k :: p) t w ∧
      ∀ h' own' w', SameOn h own h' own' {l | l ∉ under (k :: p)} →
        Owns h' own' (child k) (k :: p) t w' →
          Owns h' own' (.dict sub child) p s (Denoting.build (.dict (Dict.put kvs k w')) : V) := by
  obtain ⟨r, entries, kvs', rfl, hv, hr, hc, hd, hm⟩ := owns_iff.mp ho
  cases Denoting.build_injective hv
  obtain ⟨t, ht, hat⟩ := hm.get_some hget
  refine ⟨r, entries, t, rfl, hr, hc, ht, (Shape.at_owned hk).mp hat, fun h' own' w' hs ho' => ?_⟩
  obtain ⟨hr', hc'⟩ := hs.labelled r _ hr (not_under_cons rfl)
  refine owns_iff.mpr ⟨r, entries, _, rfl, rfl, hr', hc'.trans hc, hd, ?_⟩
  refine hm.put_right (hm.distinct.mp hd) ht (fun k' a b hne ha => ?_) ((Shape.at_owned hk).mpr ho')
  exact ha.frame hs (not_under_cons rfl) fun l hl => under_disjoint hne hl

omit [DecidableEq κ] in
/-- **A new part**: a dictionary with a value that gets the labels of a part. -/
theorem Owns.adopt {R : Set Nat} (hv : HasValue h R (.ref r) (Denoting.build (.dict kvs) : V))
    (hd : Dict.Distinct kvs) (hr : own r = some (.node p))
    (hin : ∀ r' ∈ R, r' ≠ r → own r' = some (.inner p)) :
    Owns h own .flat p (.ref r) (Denoting.build (.dict kvs) : V) := by
  obtain ⟨r', entries, e, hc, -, hm⟩ := hv.dict
  cases e
  exact owns_iff.mpr ⟨r, entries, kvs, rfl, rfl, hr, hc, hm.distinct.mpr hd,
    hm.imp fun k s v hs => hs.mono fun r' hr' => hin r' hr'.1 hr'.2⟩

/-- **A new empty part**: the dictionary at `p` gets an entry for it. -/
theorem Owns.create {sub : κ → Bool} {child : κ → Shape κ}
    (ho : Owns h own (.dict sub child) p (.ref r) (Denoting.build (.dict kvs) : V)) (hk : sub k = true)
    (hget : Dict.get kvs k = none) (hb : ∀ r, own r ≠ none → r < h.length) :
    ∃ entries h' own', h[r]? = some (.dict entries) ∧ Dict.get entries k = none ∧
      h' = (h ++ [Cell.dict []]).set r (.dict (Dict.put entries k (.ref h.length))) ∧
      own' = Function.update own h.length (some (.node (k :: p))) ∧
      Owns h' own' (.dict sub child) p (.ref r)
        (Denoting.build (.dict (Dict.put kvs k (Denoting.build (.dict [])))) : V) ∧
      SameOn h own h' own' {l | l ≠ .node p} := by
  obtain ⟨r', entries, kvs', e, hv, hr, hc, hd, hm⟩ := owns_iff.mp ho
  cases e
  cases Denoting.build_injective hv
  have hsame : SameOn h own (h ++ [Cell.dict []]) (Function.update own h.length (some (.node (k :: p))))
      Set.univ := .append hb
  obtain ⟨hr', hc'⟩ := hsame.labelled r _ hr trivial
  have hc₁ := hc'.trans hc
  have hm₁ := hm.imp fun k s v ha =>
    Shape.At.frame ha hsame (Set.mem_univ _) (Set.subset_univ _)
  have hnew : Owns (h ++ [Cell.dict []]) (Function.update own h.length (some (.node (k :: p)))) (child k)
      (k :: p) (.ref h.length) (Denoting.build (.dict []) : V) :=
    .empty (Function.update_self _ _ _) List.getElem?_concat_length
  refine ⟨entries, _, _, hc, hm.get_none hget, rfl, rfl, ?_, ?_⟩
  · exact .write _ hr' hc₁ (Dict.distinct_put k _ hd) (hm₁.put ((Shape.at_owned hk).mpr hnew))
  · exact (hsame.mono (Set.subset_univ _)).trans (.set hc₁ rfl hr')

/-! ## 4. Clones of trees -/

omit [DecidableEq κ] in
theorem Clone.reaches {ψ : Nat → Nat} {s' t' u : Slot α} (horigin : ∀ r', Reaches h' s' (.ref r') →
      ∃ c', h'[r']? = some c' ∧ h[ψ r']? = some (c'.map (Slot.map ψ)) ∧
        (c'.frozen = false → h.length ≤ r'))
    (ht : Reaches h' s' t') (hu : Reaches h' t' u) : Reaches h (t'.map ψ) (u.map ψ) := by
  induction hu with
  | refl => exact .refl
  | @inside r' c u hr hc hm ih =>
    obtain ⟨c', hc', hc'', -⟩ := horigin r' (ht.trans hr)
    cases hc.symm.trans hc'
    refine ih.inside hc'' ?_
    rw [Cell.slots_map]
    exact List.mem_map_of_mem hm

omit [DecidableEq κ] in
/-- **A clone of a tree is a tree**, of new objects. -/
theorem Clone.owns {s' : Slot α} (hc : Clone h s h' s') (ho : Owns h own sh p s v) :
    ∃ own', Owns h' own' sh p s' v ∧ ∀ r, own' r ≠ none → h.length ≤ r ∧ r < h'.length := by
  classical
  obtain ⟨hold, ψ, rfl, horigin⟩ := hc
  let own' : Owner κ := fun r' => if Reaches h' s' (.ref r') ∧ h.length ≤ r' then own (ψ r') else none
  have hnew {r' : Nat} (hr' : Reaches h' s' (.ref r')) (hle : h.length ≤ r') : own' r' = own (ψ r') :=
    if_pos ⟨hr', hle⟩
  have hvalue {t' : Slot α} (ht' : Reaches h' s' t') {q : List κ} {w : V}
      (hv : HasValue h (inner own q) (t'.map ψ) w) : HasValue h' (inner own' q) t' w := by
    have hclone : Clone h (t'.map ψ) h' t' := ⟨hold, ψ, rfl, fun r' hr' => horigin r' (ht'.trans hr')⟩
    refine .of_denote (fun r' hr' => ?_) (hclone.denote hv.value)
    obtain ⟨c', hc', hc, hle⟩ := horigin r' (ht'.trans hr')
    refine ⟨c', hc', fun hf => ?_⟩
    obtain ⟨c, hc₁, hin⟩ := hv.inside (ψ r') (Clone.reaches horigin ht' hr')
    cases hc.symm.trans hc₁
    show own' r' = some (.inner q)
    rw [hnew (ht'.trans hr') (hle hf)]
    exact hin (by rw [Cell.frozen_map]; exact hf)
  have hnode {t' : Slot α} (ht' : Reaches h' s' t') {q : List κ} {P Q : κ → Slot α → V → Prop} {w : V}
      (ho : OwnsDict h own q P (t'.map ψ) w)
      (hP : ∀ k u' w, Reaches h' s' u' → P k (u'.map ψ) w → Q k u' w) : OwnsDict h' own' q Q t' w := by
    obtain ⟨r, entries, kvs, e, rfl, hr, hc, hd, hm⟩ := ho
    cases t' with
    | atom a => cases e
    | ref r' =>
      cases e
      obtain ⟨c', hc', hc'', hle⟩ := horigin r' ht'
      cases c' with
      | items kind members => cases hc.symm.trans hc''
      | dict entries' =>
        cases hc.symm.trans hc''
        refine ⟨r', entries', kvs, rfl, rfl, (hnew ht' (hle rfl)).trans hr, hc', ?_, ?_⟩
        · unfold Dict.Distinct at hd ⊢
          rwa [Dict.keys_map] at hd
        · have hm' : Dict.Matches (fun k u' w => P k (u'.map ψ) w) entries' kvs :=
            List.forall₂_map_left_iff.mp hm
          exact hm'.imp_mem fun k u' w hu' _ hp => hP k u' w (ht'.inside hc' (Cell.mem_slots_dict hu')) hp
  have hall : ∀ sh q t' (w : V), Reaches h' s' t' → Owns h own sh q (t'.map ψ) w →
      Owns h' own' sh q t' w := by
    intro sh
    induction sh with
    | flat => exact fun q t' w ht' ho => hnode ht' ho fun k u' w hu' hv => hvalue hu' hv
    | dict sub child ih =>
      refine fun q t' w ht' ho => hnode ht' ho fun k u' w hu' hv => ?_
      by_cases hk : sub k = true
      · rw [if_pos hk] at hv ⊢
        exact ih k (k :: q) u' w hu' hv
      · rw [if_neg hk] at hv ⊢
        exact hvalue hu' hv
  refine ⟨own', hall sh p s' v .refl ho, fun r hr => ?_⟩
  have hin : Reaches h' s' (.ref r) ∧ h.length ≤ r := by
    by_contra hn
    exact hr (if_neg hn)
  obtain ⟨c', hc', -⟩ := horigin r hin.1
  exact ⟨hin.2, (List.getElem?_eq_some_iff.mp hc').1⟩

end Heap

end JsonDatabase
