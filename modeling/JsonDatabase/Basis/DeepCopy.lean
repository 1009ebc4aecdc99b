/-
  File:      JsonDatabase/Basis/DeepCopy.lean
  Subject:   Copying everything that a place leads to.

  The memo says which object was copied to which, so that an object is copied once and a structure
  that is shared stays shared. An object that can be changed is entered into the memo before what is
  inside it is copied. A frozen one may stand for its own copy, if nothing inside it was copied.

  * `copySlot`, `deepcopy` -- the copy;
  * `Clone h s h' s'` -- `s'` is made of new objects, each of them a copy of one under `s`;
  * `deepcopy_clone` -- the copy of what has a value succeeds, and it is a clone;
  * `Clone.hasValue` -- a clone has the value of the original.
-/
import JsonDatabase.Basis.Heap

namespace JsonDatabase

/-! ## 1. Mapping with a state -/

section MapAccum

variable {β γ σ : Type}

/-- Map a list from left to right, with a state that every step may change. -/
def mapAccum (f : β → σ → Option (γ × σ)) : List β → σ → Option (List γ × σ)
  | [], s => some ([], s)
  | x :: xs, s =>
    match f x s with
    | none => none
    | some (y, s') => (mapAccum f xs s').map fun p => (y :: p.1, p.2)

/-- Every step succeeds and keeps the invariant, and what it achieved stays achieved. -/
theorem mapAccum_some {f : β → σ → Option (γ × σ)} {I : σ → Prop} {le : σ → σ → Prop}
    {Q : σ → β → γ → Prop} (refl : ∀ s, le s s) (trans : ∀ s t u, le s t → le t u → le s u)
    (mono : ∀ s t x y, le s t → Q s x y → Q t x y) : ∀ {xs : List β},
    (∀ x ∈ xs, ∀ s, I s → ∃ y s', f x s = some (y, s') ∧ I s' ∧ le s s' ∧ Q s' x y) →
      ∀ s, I s → ∃ ys s', mapAccum f xs s = some (ys, s') ∧ I s' ∧ le s s' ∧ List.Forall₂ (Q s') xs ys
  | [], _, s, hs => ⟨[], s, rfl, hs, refl s, .nil⟩
  | x :: xs, hf, s, hs => by
      obtain ⟨hx, hxs⟩ := List.forall_mem_cons.mp hf
      obtain ⟨y, s', hy, hs', hle, hq⟩ := hx s hs
      obtain ⟨ys, s'', hys, hs'', hle', hqs⟩ := mapAccum_some refl trans mono hxs s' hs'
      refine ⟨y :: ys, s'', ?_, hs'', trans _ _ _ hle hle', .cons (mono _ _ _ _ hle' hq) hqs⟩
      unfold mapAccum
      simp only [hy, hys, Option.map_some]

/-- The step of one entry. -/
def entryAccum {κ : Type} (f : β → σ → Option (γ × σ)) (kv : κ × β) (s : σ) : Option ((κ × γ) × σ) :=
  (f kv.2 s).map fun p => ((kv.1, p.1), p.2)

/-- Replace what the places of an object hold, from the first to the last. -/
def Cell.mapAccum {κ τ : Type} (f : β → σ → Option (γ × σ)) :
    Cell κ τ β → σ → Option (Cell κ τ γ × σ)
  | .dict entries, s => (JsonDatabase.mapAccum (entryAccum f) entries s).map fun p => (.dict p.1, p.2)
  | .items kind members, s => (JsonDatabase.mapAccum f members s).map fun p => (.items kind p.1, p.2)

theorem Cell.mapAccum_some {κ τ : Type} {f : β → σ → Option (γ × σ)} {I : σ → Prop}
    (le : σ → σ → Prop) {Q : σ → β → γ → Prop} (refl : ∀ s, le s s)
    (trans : ∀ s t u, le s t → le t u → le s u) (mono : ∀ s t x y, le s t → Q s x y → Q t x y)
    {c : Cell κ τ β}
    (hf : ∀ x ∈ c.slots, ∀ s, I s → ∃ y s', f x s = some (y, s') ∧ I s' ∧ le s s' ∧ Q s' x y)
    (s : σ) (hs : I s) :
    ∃ d s', c.mapAccum f s = some (d, s') ∧ I s' ∧ le s s' ∧ Rel (Q s') c d := by
  cases c with
  | dict entries =>
    have hstep : ∀ kv ∈ entries, ∀ s, I s → ∃ kw s', entryAccum f kv s = some (kw, s') ∧ I s' ∧
        le s s' ∧ (kv.1 = kw.1 ∧ Q s' kv.2 kw.2) := by
      intro kv hkv s hs
      obtain ⟨y, s', hy, hs', hle, hq⟩ := hf kv.2 (mem_slots_dict hkv) s hs
      exact ⟨(kv.1, y), s', by simp only [entryAccum, hy, Option.map_some], hs', hle, rfl, hq⟩
    obtain ⟨es, s', hes, hs', hle, hq⟩ := JsonDatabase.mapAccum_some refl trans
      (fun s t kv kw hle hq => ⟨hq.1, mono s t kv.2 kw.2 hle hq.2⟩) hstep s hs
    exact ⟨.dict es, s', by simp only [Cell.mapAccum, hes, Option.map_some], hs', hle, hq⟩
  | items kind members =>
    have hf : ∀ x ∈ members, _ := hf
    obtain ⟨ys, s', hys, hs', hle, hq⟩ := JsonDatabase.mapAccum_some refl trans mono hf s hs
    exact ⟨.items kind ys, s', by simp only [Cell.mapAccum, hys, Option.map_some], hs', hle, rfl, hq⟩

end MapAccum

/-! ## 2. The copy -/

namespace Heap

variable {κ τ α V : Type} [SeqKind τ]

/-- The heap with the copies made so far, and the memo: which object was copied to which. -/
structure Copying (κ τ α : Type) where
  heap : Heap κ τ α
  memo : List (Nat × Nat)

/-- An object of the same kind with nothing in it. -/
def emptyLike : Cell κ τ (Slot α) → Cell κ τ (Slot α)
  | .dict _ => .dict []
  | .items kind _ => .items kind []

/-- A copy of it may be the object itself. -/
def reusable : Cell κ τ (Slot α) → Bool
  | .dict _ => false
  | .items kind _ => SeqKind.reused kind

variable [DecidableEq κ] [DecidableEq τ] [DecidableEq α]

/-- The copy of what a place holds, at most `n` objects deep. -/
def copySlot : Nat → Slot α → Copying κ τ α → Option (Slot α × Copying κ τ α)
  | _, .atom a, st => some (.atom a, st)
  | 0, .ref _, _ => none
  | n + 1, .ref r, st =>
    match st.memo.lookup r with
    | some r' => some (.ref r', st)
    | none =>
      match st.heap[r]? with
      | none => none
      | some c =>
        if c.frozen then
          match c.mapAccum (copySlot n) st with
          | none => none
          | some (c', st) =>
            if reusable c && decide (c' = c) then some (.ref r, st)
            else some (.ref st.heap.length,
              ⟨st.heap ++ [c'], (r, st.heap.length) :: st.memo⟩)
        else
          match c.mapAccum (copySlot n)
              ⟨st.heap ++ [emptyLike c], (r, st.heap.length) :: st.memo⟩ with
          | none => none
          | some (c', st') => some (.ref st.heap.length, ⟨st'.heap.set st.heap.length c', st'.memo⟩)

/-- A copy of everything that `s` leads to. -/
def deepcopy (h : Heap κ τ α) (s : Slot α) : Option (Slot α × Heap κ τ α) :=
  (copySlot h.length s ⟨h, []⟩).map fun p => (p.1, p.2.heap)

/-! ## 3. While a copy is made -/

omit [DecidableEq κ] [DecidableEq τ] [DecidableEq α] in
/-- Frozen all the way down. -/
inductive Plain (h : Heap κ τ α) : Slot α → Prop
  | atom (a : α) : Plain h (.atom a)
  | ref {r : Nat} {c : Cell κ τ (Slot α)} : h[r]? = some c → c.frozen = true →
      (∀ t ∈ c.slots, Plain h t) → Plain h (.ref r)

/-- What the second holds is a copy of what the first holds. -/
inductive CopyOf (h : Heap κ τ α) (memo : List (Nat × Nat)) : Slot α → Slot α → Prop
  | atom (a : α) : CopyOf h memo (.atom a) (.atom a)
  | same {r : Nat} : Plain h (.ref r) → CopyOf h memo (.ref r) (.ref r)
  | made {r r' : Nat} : (r, r') ∈ memo → CopyOf h memo (.ref r) (.ref r')

/-- The objects of `h` are untouched, each new object is the copy of one of them, and it is complete
    unless it is in `O`. -/
structure CopyInv (h : Heap κ τ α) (O : Set Nat) (st : Copying κ τ α) : Prop where
  old : h <+: st.heap
  memo : ∀ r r', (r, r') ∈ st.memo → r < h.length ∧ h.length ≤ r' ∧ r' < st.heap.length
  one : ∀ r₁ r₂ r', (r₁, r') ∈ st.memo → (r₂, r') ∈ st.memo → r₁ = r₂
  done : ∀ r r', (r, r') ∈ st.memo → r' ∉ O → ∃ c c', h[r]? = some c ∧ st.heap[r']? = some c' ∧
    Cell.Rel (CopyOf h st.memo) c c'

omit [SeqKind τ] [DecidableEq κ] [DecidableEq τ] [DecidableEq α] in
theorem mem_of_lookup {r r' : Nat} : ∀ {memo : List (Nat × Nat)}, memo.lookup r = some r' → (r, r') ∈ memo
  | [], h => by cases h
  | (k, v) :: memo, h => by
      rw [List.lookup_cons] at h
      split at h
      · rename_i hk
        cases h
        rw [eq_of_beq hk]
        exact List.mem_cons_self
      · exact List.mem_cons_of_mem _ (mem_of_lookup h)

section

variable {h : Heap κ τ α} {O : Set Nat} {st : Copying κ τ α} {memo memo' : List (Nat × Nat)}
  {r : Nat} {c c' : Cell κ τ (Slot α)}

omit [DecidableEq κ] [DecidableEq τ] [DecidableEq α]

theorem CopyOf.mono {s t : Slot α} (hc : CopyOf h memo s t) (hm : memo ⊆ memo') : CopyOf h memo' s t := by
  cases hc with
  | atom a => exact .atom a
  | same hp => exact .same hp
  | made hmem => exact .made (hm hmem)

theorem CopyInv.start : CopyInv h ∅ ⟨h, []⟩ where
  old := List.prefix_refl h
  memo _ _ hm := nomatch hm
  one _ _ _ hm := nomatch hm
  done _ _ hm := nomatch hm

/-- An object that is its own copy is frozen all the way down. -/
theorem CopyInv.plain (hst : CopyInv h O st) (hc : h[r]? = some c) (hf : c.frozen = true)
    (hrel : Cell.Rel (CopyOf h st.memo) c c) : Plain h (.ref r) := by
  refine .ref hc hf fun t ht => ?_
  have hself : CopyOf h st.memo t t := hrel.self t ht
  cases t with
  | atom a => exact .atom a
  | ref r =>
    cases hself with
    | same hp => exact hp
    | made hm =>
      obtain ⟨hlt, hle, -⟩ := hst.memo r r hm
      omega

/-- A new object is entered into the memo; complete, or to be completed. -/
theorem CopyInv.alloc (hst : CopyInv h O st) (hr : r < h.length) {O' : Set Nat} (hO : O ⊆ O')
    (hnew : st.heap.length ∉ O' → ∃ c₀, h[r]? = some c₀ ∧
      Cell.Rel (CopyOf h ((r, st.heap.length) :: st.memo)) c₀ c) :
    CopyInv h O' ⟨st.heap ++ [c], (r, st.heap.length) :: st.memo⟩ where
  old := hst.old.trans (List.prefix_append _ _)
  memo r₁ r' hm := by
    rcases List.mem_cons.mp hm with e | hm
    · cases e
      exact ⟨hr, hst.old.length_le, by simp⟩
    · obtain ⟨h₁, h₂, h₃⟩ := hst.memo r₁ r' hm
      exact ⟨h₁, h₂, by simp only [List.length_append]; omega⟩
  one r₁ r₂ r' h₁ h₂ := by
    rcases List.mem_cons.mp h₁ with e₁ | h₁
    · cases e₁
      rcases List.mem_cons.mp h₂ with e₂ | h₂
      · cases e₂
        rfl
      · exact absurd (hst.memo _ _ h₂).2.2 (lt_irrefl _)
    · rcases List.mem_cons.mp h₂ with e₂ | h₂
      · cases e₂
        exact absurd (hst.memo _ _ h₁).2.2 (lt_irrefl _)
      · exact hst.one r₁ r₂ r' h₁ h₂
  done r₁ r' hm hr' := by
    rcases List.mem_cons.mp hm with e | hm
    · cases e
      obtain ⟨c₀, hc₀, hrel⟩ := hnew hr'
      exact ⟨c₀, c, hc₀, by simp, hrel⟩
    · obtain ⟨c₀, c₁, hc₀, hc₁, hrel⟩ := hst.done r₁ r' hm fun h => hr' (hO h)
      refine ⟨c₀, c₁, hc₀, ?_, hrel.imp fun _ _ hx => hx.mono (List.subset_cons_self _ _)⟩
      rw [List.getElem?_append_left (hst.memo _ _ hm).2.2]
      exact hc₁

/-- The object that was left open is completed. -/
theorem CopyInv.close {r' : Nat} (hst : CopyInv h (insert r' O) st) (hm : (r, r') ∈ st.memo)
    (hc : h[r]? = some c) (hrel : Cell.Rel (CopyOf h st.memo) c c') :
    CopyInv h O ⟨st.heap.set r' c', st.memo⟩ where
  old := by
    obtain ⟨cs, hcs⟩ := hst.old
    refine ⟨cs.set (r' - h.length) c', ?_⟩
    show h ++ cs.set (r' - h.length) c' = st.heap.set r' c'
    rw [← hcs, List.set_append_right _ _ (hst.memo _ _ hm).2.1]
  memo r₁ r₂ hm := by
    obtain ⟨h₁, h₂, h₃⟩ := hst.memo r₁ r₂ hm
    exact ⟨h₁, h₂, by simpa using h₃⟩
  one := hst.one
  done r₁ r₂ hm₁ hO := by
    by_cases e : r₂ = r'
    · subst e
      obtain rfl := hst.one _ _ _ hm hm₁
      exact ⟨c, c', hc, List.getElem?_set_self (hst.memo _ _ hm).2.2, hrel⟩
    · obtain ⟨c₀, c₁, hc₀, hc₁, hrel₁⟩ := hst.done r₁ r₂ hm₁ fun hin => by
        rcases Set.mem_insert_iff.mp hin with h | h
        · exact e h
        · exact hO h
      refine ⟨c₀, c₁, hc₀, ?_, hrel₁⟩
      rw [List.getElem?_set_ne fun h => e h.symm]
      exact hc₁

end

/-- **The copy of what has a value**: it succeeds, whatever was copied before. -/
theorem copySlot_some [Denoting κ τ α V] {h : Heap κ τ α} {n : Nat} {s : Slot α} {v : V}
    (hd : denote h n s = some v) {O : Set Nat} {st : Copying κ τ α} (hst : CopyInv h O st) :
    ∃ s' st', copySlot n s st = some (s', st') ∧ CopyInv h O st' ∧ st.memo ⊆ st'.memo ∧
      CopyOf h st'.memo s s' := by
  induction n generalizing s v O st with
  | zero =>
    cases s with
    | atom a => exact ⟨.atom a, st, rfl, hst, List.Subset.refl _, .atom a⟩
    | ref r => cases hd
  | succ n ih =>
    cases s with
    | atom a => exact ⟨.atom a, st, rfl, hst, List.Subset.refl _, .atom a⟩
    | ref r =>
      obtain ⟨c, d, hc, hrel, -⟩ := denote_succ.mp hd
      have hr : r < h.length := (List.getElem?_eq_some_iff.mp hc).1
      have hinside {O : Set Nat} (st : Copying κ τ α) (hst : CopyInv h O st) :=
        Cell.mapAccum_some (f := copySlot n) (I := CopyInv h O) (fun st st' => st.memo ⊆ st'.memo)
          (Q := fun st x y => CopyOf h st.memo x y)
          (fun _ => List.Subset.refl _) (fun _ _ _ => List.Subset.trans) (fun _ _ _ _ hm hx => hx.mono hm)
          (c := c) (fun x hx st hst => (hrel.exists hx).elim fun w hw => ih hw hst) st hst
      unfold copySlot
      cases hlook : st.memo.lookup r with
      | some r' => exact ⟨.ref r', st, rfl, hst, List.Subset.refl _, .made (mem_of_lookup hlook)⟩
      | none =>
        have hheap : st.heap[r]? = some c := by
          obtain ⟨cs, hcs⟩ := hst.old
          rw [← hcs, List.getElem?_append_left hr]
          exact hc
        simp only [hheap]
        cases hf : c.frozen with
        | true =>
          simp only [if_true]
          obtain ⟨c', st', hmap, hst', hsub, hrel'⟩ := hinside st hst
          simp only [hmap]
          cases hreuse : reusable c && decide (c' = c) with
          | true =>
            obtain rfl : c' = c := of_decide_eq_true (Bool.and_eq_true _ _ ▸ hreuse).2
            simp only [if_true]
            exact ⟨.ref r, st', rfl, hst', hsub, .same (hst'.plain hc hf hrel')⟩
          | false =>
            simp only [Bool.false_eq_true, if_false]
            refine ⟨_, _, rfl, hst'.alloc hr (Set.Subset.refl O) fun _ => ⟨c, hc, ?_⟩,
              List.Subset.trans hsub (List.subset_cons_self _ _), .made List.mem_cons_self⟩
            exact hrel'.imp fun _ _ hx => hx.mono (List.subset_cons_self _ _)
        | false =>
          simp only [Bool.false_eq_true, if_false]
          have hopen : CopyInv h (insert st.heap.length O)
              ⟨st.heap ++ [emptyLike c], (r, st.heap.length) :: st.memo⟩ :=
            hst.alloc hr (Set.subset_insert _ _) fun hn => absurd (Set.mem_insert _ _) hn
          obtain ⟨c', st', hmap, hst', hsub, hrel'⟩ := hinside _ hopen
          have hm : (r, st.heap.length) ∈ st'.memo := hsub List.mem_cons_self
          simp only [hmap]
          exact ⟨_, _, rfl, hst'.close hm hc hrel',
            List.Subset.trans (List.subset_cons_self _ _) hsub, .made hm⟩

/-! ## 4. Clones -/

/-- **A clone**: the objects of `h` are as they were, and whatever is reached from `s'` is a copy of an
    object of `h`, and new if it can be changed. No two objects of `h` have a copy in common. -/
structure Clone (h : Heap κ τ α) (s : Slot α) (h' : Heap κ τ α) (s' : Slot α) : Prop where
  old : h <+: h'
  origin : ∃ ψ : Nat → Nat, s'.map ψ = s ∧ ∀ r', Reaches h' s' (.ref r') →
    ∃ c', h'[r']? = some c' ∧ h[ψ r']? = some (c'.map (Slot.map ψ)) ∧ (c'.frozen = false → h.length ≤ r')

omit [DecidableEq κ] [DecidableEq τ] [DecidableEq α]

section

variable {h h' : Heap κ τ α} {s s' t : Slot α}

/-- What is reached from a copy is a copy. -/
theorem CopyInv.reaches {st : Copying κ τ α} (hst : CopyInv h ∅ st) (hs : CopyOf h st.memo s s')
    (hr : Reaches st.heap s' t) : ∃ u, CopyOf h st.memo u t := by
  induction hr with
  | refl => exact ⟨s, hs⟩
  | @inside r c t _ hc ht ih =>
    obtain ⟨u, hu⟩ := ih
    cases hu with
    | same hp =>
      cases hp with
      | ref hc' _ hslots =>
        obtain ⟨cs, hcs⟩ := hst.old
        rw [← hcs, List.getElem?_append_left (List.getElem?_eq_some_iff.mp hc').1] at hc
        cases hc.symm.trans hc'
        have hp := hslots t ht
        cases t with
        | atom a => exact ⟨_, .atom a⟩
        | ref r => exact ⟨_, .same hp⟩
    | made hm =>
      obtain ⟨c₀, c₁, -, hc₁, hrel⟩ := hst.done _ _ hm (Set.notMem_empty _)
      cases hc.symm.trans hc₁
      exact hrel.flip.exists ht

/-- A finished copy is a clone. -/
theorem CopyInv.clone {st : Copying κ τ α} (hst : CopyInv h ∅ st) (hs : CopyOf h st.memo s s') :
    Clone h s st.heap s' := by
  classical
  -- the object that a new object is the copy of
  let ψ : Nat → Nat := fun r' => if hr : ∃ r, (r, r') ∈ st.memo then hr.choose else r'
  have hmade {r r' : Nat} (hm : (r, r') ∈ st.memo) : ψ r' = r := by
    have hex : ∃ r, (r, r') ∈ st.memo := ⟨r, hm⟩
    show (if hr : ∃ r, (r, r') ∈ st.memo then hr.choose else r') = r
    rw [dif_pos hex]
    exact hst.one _ _ _ hex.choose_spec hm
  have hsame {r : Nat} (hr : r < h.length) : ψ r = r := by
    refine dif_neg fun hex => ?_
    obtain ⟨r₀, hm⟩ := hex
    have := (hst.memo _ _ hm).2.1
    omega
  have hplain {t : Slot α} (hp : Plain h t) : t.map ψ = t := by
    cases hp with
    | atom a => rfl
    | ref hc _ _ => exact congrArg Slot.ref (hsame (List.getElem?_eq_some_iff.mp hc).1)
  have hcopy (u t : Slot α) (hc : CopyOf h st.memo u t) : t.map ψ = u := by
    cases hc with
    | atom a => rfl
    | same hp => exact hplain hp
    | made hm => exact congrArg Slot.ref (hmade hm)
  refine ⟨hst.old, ψ, hcopy s s' hs, fun r' hr' => ?_⟩
  obtain ⟨u, hu⟩ := hst.reaches hs hr'
  cases hu with
  | same hp =>
    cases hp with
    | @ref _ c hc hf hslots =>
      refine ⟨c, ?_, ?_, fun hn => absurd (hf.symm.trans hn) Bool.noConfusion⟩
      · obtain ⟨cs, hcs⟩ := hst.old
        rw [← hcs, List.getElem?_append_left (List.getElem?_eq_some_iff.mp hc).1]
        exact hc
      · rw [hsame (List.getElem?_eq_some_iff.mp hc).1, Cell.map_id fun t ht => hplain (hslots t ht)]
        exact hc
  | made hm =>
    obtain ⟨c, c', hc, hc', hrel⟩ := hst.done _ _ hm (Set.notMem_empty _)
    refine ⟨c', hc', ?_, fun _ => (hst.memo _ _ hm).2.1⟩
    rw [hmade hm, hrel.map_eq hcopy]
    exact hc

variable [Denoting κ τ α V] {v : V}

/-- **What has a value has a clone.** -/
theorem deepcopy_clone [DecidableEq κ] [DecidableEq τ] [DecidableEq α] (hv : valueOf h s = some v) :
    ∃ s' h', deepcopy h s = some (s', h') ∧ Clone h s h' s' := by
  obtain ⟨s', st, hcopy, hst, -, hs⟩ := copySlot_some hv (CopyInv.start (h := h))
  refine ⟨s', st.heap, ?_, hst.clone hs⟩
  unfold deepcopy
  rw [hcopy]
  rfl

theorem Clone.denote (hc : Clone h s h' s') : ∀ {n : Nat} {v : V}, denote h n s = some v →
    denote h' n s' = some v := by
  obtain ⟨-, ψ, rfl, horigin⟩ := hc
  have hall : ∀ n t v, Reaches h' s' t → Heap.denote h n (t.map ψ) = some (v : V) →
      Heap.denote h' n t = some v := by
    intro n
    induction n with
    | zero =>
      intro t v _ hd
      cases t with
      | atom a => exact hd
      | ref r => cases hd
    | succ n ih =>
      intro t v ht hd
      cases t with
      | atom a => exact hd
      | ref r' =>
        obtain ⟨c', hc', hc, -⟩ := horigin r' ht
        obtain ⟨c, d, hc₁, hrel, hb⟩ := denote_succ.mp hd
        cases hc.symm.trans hc₁
        exact denote_succ.mpr ⟨c', d, hc', (Cell.rel_map.mp hrel).imp_mem fun u hu w hw =>
          ih u w (ht.inside hc' hu) hw, hb⟩
  exact fun {n v} hd => hall n s' v .refl hd

/-- **A clone has the same value**, and whatever can be changed in it is new. -/
theorem Clone.hasValue (hc : Clone h s h' s') (hv : valueOf h s = some v) :
    HasValue h' {r | h.length ≤ r} s' v := by
  refine .of_denote (fun r' hr' => ?_) (hc.denote hv)
  obtain ⟨-, ψ, -, horigin⟩ := hc
  obtain ⟨c', hc', -, hnew⟩ := horigin r' hr'
  exact ⟨c', hc', hnew⟩

end

end Heap

end JsonDatabase
