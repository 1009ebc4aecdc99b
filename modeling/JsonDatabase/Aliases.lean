/-
  File:      JsonDatabase/Aliases.lean
  Subject:   A caller that keeps hold of objects between its calls.

  Python passes objects, not values: the caller still has the document it passed, the one it got, and
  whatever it finds inside them, and may change any of them at any time. Here it does so between the
  calls, in any way, and calls with whatever it holds. The calls end as on values all the same.

  * `store_hasValue`, `store_owns` -- what `load` returns is made of new objects, each in one place;
  * `Objects.enter`, `StateObject` -- the state object of a transaction, and of an autocommit write;
  * `Process`, `Process.Acts`, `Process.Runs` -- the caller, the state object, and what happens to them;
  * `play` -- the same calls on values;
  * `aliases_do_not_matter` -- the calls end alike, and the caller never gets at the state;
  * `callers_objects_kept` -- and no call changes an object that the caller can get at.
-/
import JsonDatabase.ObjectRuns
import JsonDatabase.History
import JsonDatabase.Durability

namespace JsonDatabase

open Heap hiding Reaches Agree Owns
open PyVal hiding none

/-! ## 1. Values put into the heap -/

/-- The objects that are new in `h'`. -/
def between (h h' : PyHeap) : Set Nat := {r | h.length ≤ r ∧ r < h'.length}

section Store

variable {h h' h₁ h₂ : PyHeap} {t : PySlot} {v : PyVal}

theorem between_left (hp : h₁ <+: h₂) : between h h₁ ⊆ between h h₂ :=
  fun _ hr => ⟨hr.1, hr.2.trans_le hp.length_le⟩

theorem between_right (hp : h <+: h₁) : between h₁ h₂ ⊆ between h h₂ :=
  fun _ hr => ⟨hp.length_le.trans hr.1, hr.2⟩

/-- A new object, after what is in its places. -/
theorem store_object {c : Cell PyKey SeqType PySlot} {d : Cell PyKey SeqType PyVal} (hp : h <+: h₁)
    (hr : Cell.Rel (HasValue h₁ (between h h₁)) c d) : h <+: h₁ ++ [c] ∧
      HasValue (h₁ ++ [c]) (between h (h₁ ++ [c])) (.ref h₁.length) (objectValue d) := by
  have hlast : h₁ <+: h₁ ++ [c] := List.prefix_append h₁ [c]
  refine ⟨hp.trans hlast, .ref List.getElem?_concat_length (fun _ => ⟨hp.length_le, by simp⟩) ?_⟩
  exact hr.imp fun t v hv => (hv.later hlast).mono (between_left hlast)

mutual
/-- A value is put into new objects only. -/
theorem store_hasValue : ∀ (v : PyVal) (h : PyHeap), h <+: (store v h).2 ∧
    HasValue (store v h).2 (between h (store v h).2) (store v h).1 v
  | .frozenset xs, h =>
    have ih := storeList_hasValue xs h
    store_object (c := .items .frozenset _) (d := .items .frozenset xs) ih.1 ⟨rfl, ih.2⟩
  | .set xs, h =>
    have ih := storeList_hasValue xs h
    store_object (c := .items .set _) (d := .items .set xs) ih.1 ⟨rfl, ih.2⟩
  | .dict kvs, h =>
    have ih := storeEntries_hasValue kvs h
    store_object (c := .dict _) (d := .dict kvs) ih.1 ih.2
  | .list xs, h =>
    have ih := storeList_hasValue xs h
    store_object (c := .items .list _) (d := .items .list xs) ih.1 ⟨rfl, ih.2⟩
  | .tuple xs, h =>
    have ih := storeList_hasValue xs h
    store_object (c := .items .tuple _) (d := .items .tuple xs) ih.1 ⟨rfl, ih.2⟩
  | .none, _ => ⟨List.prefix_rfl, .atom Atom.none⟩
  | .bool b, _ => ⟨List.prefix_rfl, .atom (Atom.bool b)⟩
  | .int i, _ => ⟨List.prefix_rfl, .atom (Atom.int i)⟩
  | .float f, _ => ⟨List.prefix_rfl, .atom (Atom.float f)⟩
  | .str s, _ => ⟨List.prefix_rfl, .atom (Atom.str s)⟩
  | .datetime d, _ => ⟨List.prefix_rfl, .atom (Atom.datetime d)⟩
  | .date d, _ => ⟨List.prefix_rfl, .atom (Atom.date d)⟩
  | .decimal d, _ => ⟨List.prefix_rfl, .atom (Atom.decimal d)⟩
  | .bytes b, _ => ⟨List.prefix_rfl, .atom (Atom.bytes b)⟩
  | .other t i, _ => ⟨List.prefix_rfl, .atom (Atom.other t i)⟩

theorem storeList_hasValue : ∀ (xs : List PyVal) (h : PyHeap), h <+: (storeList xs h).2 ∧
    List.Forall₂ (HasValue (storeList xs h).2 (between h (storeList xs h).2)) (storeList xs h).1 xs
  | [], _ => ⟨List.prefix_rfl, .nil⟩
  | x :: xs, h =>
    have hx := store_hasValue x h
    have hxs := storeList_hasValue xs (store x h).2
    ⟨hx.1.trans hxs.1, .cons ((hx.2.later hxs.1).mono (between_left hxs.1))
      (hxs.2.imp fun _ _ hv => hv.mono (between_right hx.1))⟩

theorem storeEntries_hasValue : ∀ (kvs : List (PyKey × PyVal)) (h : PyHeap),
    h <+: (storeEntries kvs h).2 ∧
      Dict.Matches (fun _ => HasValue (storeEntries kvs h).2 (between h (storeEntries kvs h).2))
        (storeEntries kvs h).1 kvs
  | [], _ => ⟨List.prefix_rfl, .nil⟩
  | (_, v) :: kvs, h =>
    have hx := store_hasValue v h
    have hxs := storeEntries_hasValue kvs (store v h).2
    ⟨hx.1.trans hxs.1, .cons ((hx.2.later hxs.1).mono (between_left hxs.1))
      (hxs.2.imp fun _ _ _ hv => hv.mono (between_right hx.1))⟩
end

/-- Dictionaries where the shape has them. -/
def HasShape : Shape PyKey → PyVal → Prop
  | .flat, v => ∃ kvs, v = .dict kvs ∧ Dict.Distinct kvs
  | .dict sub child, v => ∃ kvs, v = .dict kvs ∧ Dict.Distinct kvs ∧
      ∀ k w, (k, w) ∈ kvs → sub k = true → HasShape (child k) w

theorem hasShape_of_wellFormed {s : State} (hs : WellFormed s) : HasShape databaseShape (.dict s) := by
  obtain ⟨cs, hget, hcs⟩ := hs.shape
  have hd := (everywhere_dict.mp hs.wf).1
  refine ⟨s, rfl, hd, fun k w hm hk => ?_⟩
  obtain rfl : k = COLLECTIONS := of_decide_eq_true hk
  cases (Dict.get_of_mem hd hm).symm.trans hget
  have hw := (everywhere_dict.mp hs.wf).2 _ _ hm
  refine ⟨cs, rfl, (everywhere_dict.mp hw).1, fun name w hm _ => ?_⟩
  obtain ⟨-, docs, hdocs, hshape⟩ := hcs _ hm
  cases hdocs
  have hw := (everywhere_dict.mp hw).2 _ _ hm
  refine ⟨docs, rfl, (everywhere_dict.mp hw).1, fun id w hm _ => ?_⟩
  obtain ⟨_, fields, e, -, -⟩ := hshape _ hm
  cases e
  exact ⟨fields, rfl, (everywhere_dict.mp ((everywhere_dict.mp hw).2 _ _ hm)).1⟩

/-- The labels of two heaps that were made one after the other. -/
def splitAt (n : Nat) (own₁ own₂ : Owner PyKey) : Owner PyKey :=
  fun r => if r < n then own₁ r else own₂ r

/-- The labels are for objects that are new in `h'`. -/
def Labels (own : Owner PyKey) (h h' : PyHeap) : Prop := ∀ r, own r ≠ none → r ∈ between h h'

variable {own own₁ own₂ : Owner PyKey} {sh : Shape PyKey} {p : List PyKey} {k : PyKey}

theorem splitAt_left (h₁₂ : Labels own₁ h h₁) {r : Nat} (hr : own₁ r ≠ none) :
    splitAt h₁.length own₁ own₂ r = own₁ r := if_pos (h₁₂ r hr).2

theorem splitAt_right (h₂₃ : Labels own₂ h₁ h₂) {r : Nat} (hr : own₂ r ≠ none) :
    splitAt h₁.length own₁ own₂ r = own₂ r := if_neg (Nat.not_lt.mpr (h₂₃ r hr).1)

theorem splitAt_labels (hp : h <+: h₁) (hp' : h₁ <+: h₂) (h₁₂ : Labels own₁ h h₁)
    (h₂₃ : Labels own₂ h₁ h₂) : Labels (splitAt h₁.length own₁ own₂) h h₂ := by
  intro r hr
  unfold splitAt at hr
  split at hr
  · exact between_left hp' (h₁₂ r hr)
  · exact between_right hp (h₂₃ r hr)

theorem at_relabel (ha : Shape.At h own p sh k t v) (hp : h <+: h') (hb : Labels own h₁ h)
    (hl : ∀ r, own r ≠ none → own₁ r = own r) : Shape.At h' own₁ p sh k t v :=
  Shape.At.frame ha (.relabel (L := Set.univ) hp hl fun r hr => (hb r hr).2) (Set.mem_univ _)
    (Set.subset_univ _)

/-- What is not a dictionary of the tree gets the labels inside one. -/
theorem store_inner (p : List PyKey) (v : PyVal) (h : PyHeap) : ∃ own : Owner PyKey,
    HasValue (store v h).2 (inner own p) (store v h).1 v ∧ Labels own h (store v h).2 := by
  classical
  refine ⟨fun r => if r ∈ between h (store v h).2 then some (.inner p) else none, ?_, fun r hr => ?_⟩
  · exact (store_hasValue v h).2.mono fun r hr => if_pos hr
  · by_contra hn
    exact hr (if_neg hn)

/-- The entries of a dictionary, one after the other. -/
theorem storeEntries_owns {kvs : PyDict} (hone : ∀ k v, (k, v) ∈ kvs → ∀ h, ∃ own,
      Shape.At (store v h).2 own p sh k (store v h).1 v ∧ Labels own h (store v h).2) (h : PyHeap) :
    ∃ own, Dict.Matches (Shape.At (storeEntries kvs h).2 own p sh) (storeEntries kvs h).1 kvs ∧
      Labels own h (storeEntries kvs h).2 := by
  induction kvs generalizing h with
  | nil => exact ⟨fun _ => none, .nil, fun _ hr => absurd rfl hr⟩
  | cons kv kvs ih =>
    obtain ⟨k, v⟩ := kv
    obtain ⟨own₁, hat, h₁₂⟩ := hone k v (List.mem_cons_self ..) h
    obtain ⟨own₂, hm, h₂₃⟩ := ih (fun k v hm => hone k v (List.mem_cons_of_mem _ hm)) (store v h).2
    have hp := (store_hasValue v h).1
    have hp' := (storeEntries_hasValue kvs (store v h).2).1
    refine ⟨splitAt (store v h).2.length own₁ own₂, .cons ?_ (hm.imp fun k s w ha => ?_), ?_⟩
    · exact at_relabel hat hp' h₁₂ fun r hr => splitAt_left h₁₂ hr
    · exact at_relabel ha List.prefix_rfl h₂₃ fun r hr => splitAt_right h₂₃ hr
    · exact splitAt_labels hp hp' h₁₂ h₂₃

/-- The dictionary itself, after its entries. -/
theorem store_node (sh : Shape PyKey) {kvs : PyDict} (hd : Dict.Distinct kvs)
    (hone : ∀ k v, (k, v) ∈ kvs → ∀ h, ∃ own,
      Shape.At (store v h).2 own p sh k (store v h).1 v ∧ Labels own h (store v h).2) (h : PyHeap) :
    ∃ own, Heap.Owns (store (.dict kvs) h).2 own sh p (store (.dict kvs) h).1 (PyVal.dict kvs) ∧
      Labels own h (store (.dict kvs) h).2 := by
  obtain ⟨own, hm, hl⟩ := storeEntries_owns hone h
  unfold store
  set es := (storeEntries kvs h).1
  set h₁ := (storeEntries kvs h).2
  have hp : h <+: h₁ := (storeEntries_hasValue kvs h).1
  have hlast : h₁ <+: h₁ ++ [Cell.dict es] := List.prefix_append h₁ _
  refine ⟨Function.update own h₁.length (some (.node p)), owns_iff.mpr
    ⟨h₁.length, es, kvs, rfl, rfl, Function.update_self _ _ _, List.getElem?_concat_length,
      hm.distinct.mpr hd, hm.imp fun k s v ha => ?_⟩, fun r hr => ?_⟩
  · refine at_relabel ha hlast hl fun r hr => Function.update_of_ne (fun e => ?_) _ _
    exact absurd (hl r hr).2 (by omega)
  · by_cases e : r = h₁.length
    · refine ⟨e ▸ hp.length_le, ?_⟩
      rw [e, List.length_append, List.length_singleton]
      exact Nat.lt_succ_self _
    · rw [Function.update_of_ne e] at hr
      exact between_left hlast (hl r hr)

/-- **A value of the shape becomes a tree of new objects.** -/
theorem store_owns {v : PyVal} (hf : HasShape sh v) (h : PyHeap) :
    ∃ own, Heap.Owns (store v h).2 own sh p (store v h).1 v ∧ Labels own h (store v h).2 := by
  induction sh generalizing p v h with
  | flat =>
    obtain ⟨kvs, rfl, hd⟩ := hf
    exact store_node .flat hd (fun k v _ h => store_inner p v h) h
  | dict sub child ih =>
    obtain ⟨kvs, rfl, hd, hchild⟩ := hf
    refine store_node _ hd (fun k v hm h => ?_) h
    by_cases hk : sub k = true
    · obtain ⟨own, ho, hl⟩ := ih k (p := k :: p) (hchild k v hm hk) h
      exact ⟨own, (Shape.at_owned hk).mpr ho, hl⟩
    · obtain ⟨own, hv, hl⟩ := store_inner p v h
      exact ⟨own, (iff_of_eq (if_neg hk)).mpr hv, hl⟩

end Store

/-! ## 2. The state object -/

/-- `Transaction.__enter__`: the state is a copy of what `load` returned. -/
def Objects.enter (cp : Copier) (loaded : State) : ObjM PySlot := do
  let original ← newObject (.dict loaded)
  deepcopy cp original

/-- A transaction works on a copy of what `load` returned, an autocommit write on that itself. -/
inductive StateObject (cp : Copier) (loaded : State) (h : PyHeap) (state : PySlot) (h' : PyHeap) : Prop
  | transaction : Objects.enter cp loaded h = .ok state h' → StateObject cp loaded h state h'
  | autocommit : Objects.newObject (.dict loaded) h = .ok state h' → StateObject cp loaded h state h'

theorem StateObject.isState {cp : Copier} {loaded : State} {h h' : PyHeap} {state : PySlot}
    (ho : StateObject cp loaded h state h') (hw : WellFormed loaded) :
    ∃ own, IsState state own h' loaded ∧ Labels own h h' ∧ h <+: h' := by
  obtain ⟨own, htree, hlabels⟩ := store_owns (p := []) (hasShape_of_wellFormed hw) h
  obtain ⟨hp, hv⟩ := store_hasValue (.dict loaded) h
  cases ho with
  | autocommit ho =>
    cases ho
    exact ⟨own, ⟨htree, fun r hr => (hlabels r hr).2⟩, hlabels, hp⟩
  | transaction ho =>
    obtain ⟨_, _, hnew, hcopy⟩ := run_bind_ok.mp ho
    cases hnew
    rcases deepcopy_cases cp hv with ⟨e, -, herror⟩ | ⟨-, t', h₂, hok, hclone⟩
    · exact (nomatch hcopy.symm.trans herror)
    · cases hcopy.symm.trans hok
      obtain ⟨own', htree', hnew⟩ := hclone.owns htree
      refine ⟨own', ⟨htree', fun r hr => (hnew r hr).2⟩, fun r hr => ?_, hp.trans hclone.old⟩
      exact ⟨hp.length_le.trans (hnew r hr).1, (hnew r hr).2⟩

/-! ## 3. The caller -/

/-- The objects, what the caller holds, and the object that the calls work on. -/
structure Process where
  heap : PyHeap
  names : List PySlot
  state : PySlot

namespace Process

/-- The caller can get at the object. -/
def Sees (p : Process) (r : Nat) : Prop := ∃ t ∈ p.names, Heap.Reaches p.heap t (.ref r)

/-- What the caller does on its own: it looks into an object, makes one of what it holds, or gives one
    that can be changed other contents. -/
inductive Acts (p : Process) : Process → Prop
  | literal (a : Atom) : Acts p { p with names := .atom a :: p.names }
  | look {r : Nat} {c : Cell PyKey SeqType PySlot} {t : PySlot} : .ref r ∈ p.names →
      p.heap[r]? = some c → t ∈ c.slots → Acts p { p with names := t :: p.names }
  | make {c : Cell PyKey SeqType PySlot} : (∀ t ∈ c.slots, t ∈ p.names) →
      Acts p { p with heap := p.heap ++ [c], names := .ref p.heap.length :: p.names }
  | write {r : Nat} {c₀ c : Cell PyKey SeqType PySlot} : .ref r ∈ p.names → p.heap[r]? = some c₀ →
      c₀.frozen = false → (∀ t ∈ c.slots, t ∈ p.names) → Acts p { p with heap := p.heap.set r c }

/-- What the caller passes: something it holds, with a value. -/
def Passes (p : Process) (t : PySlot) (o : PyObj) : Prop :=
  t ∈ p.names ∧ Heap.valueOf p.heap t = some o.val

/-- A call: the value of the result, which the caller then holds, or an exception. -/
def call (rt : Runtime) (cp : Copier) (p : Process) (request : Request PySlot) :
    Except PyExc (Option PyVal) × Process :=
  match request.perform rt cp p.state p.heap with
  | .ok t h' => (.ok (Heap.valueOf h' t), { p with heap := h', names := t :: p.names })
  | .error e h' => (.error e, { p with heap := h' })

/-- Calls with arguments of these values, and between them whatever the caller does. -/
inductive Runs (rt : Runtime) (cp : Copier) (p₀ : Process) :
    List (Request PyObj) → List (Except PyExc (Option PyVal)) → Process → Prop
  | start : Runs rt cp p₀ [] [] p₀
  | acts {requests : List (Request PyObj)} {outcomes : List (Except PyExc (Option PyVal))}
      {p p' : Process} : Runs rt cp p₀ requests outcomes p → p.Acts p' →
      Runs rt cp p₀ requests outcomes p'
  | calls {requests : List (Request PyObj)} {outcomes : List (Except PyExc (Option PyVal))}
      {p : Process} (request : Request PySlot) (values : Request PyObj) :
      Runs rt cp p₀ requests outcomes p → request.Rel p.Passes values →
      Runs rt cp p₀ (requests ++ [values]) (outcomes ++ [(p.call rt cp request).1])
        (p.call rt cp request).2

end Process

/-- The same calls on values: how each of them ends, and the state after them. -/
def play (rt : Runtime) (cp : Copier) : State → List (Request PyObj) →
    List (Except PyExc PyVal) × State
  | s, [] => ([], s)
  | s, request :: rest =>
    match request.run rt cp s with
    | .ok v s' => (.ok v :: (play rt cp s' rest).1, (play rt cp s' rest).2)
    | .error e s' => (.error e :: (play rt cp s' rest).1, (play rt cp s' rest).2)

theorem play_append (rt : Runtime) (cp : Copier) (s : State) (xs ys : List (Request PyObj)) :
    play rt cp s (xs ++ ys) = ((play rt cp s xs).1 ++ (play rt cp (play rt cp s xs).2 ys).1,
      (play rt cp (play rt cp s xs).2 ys).2) := by
  induction xs generalizing s with
  | nil => rfl
  | cons request rest ih =>
    rw [List.cons_append, play, play]
    cases request.run rt cp s with
    | ok v s' => simp only [ih, List.cons_append]
    | error e s' => simp only [ih, List.cons_append]

/-- After writes only, the state is the one that `runCalls` makes. -/
theorem play_runCalls (rt : Runtime) (cp : Copier) (s : State) (calls : List OpCall) :
    (play rt cp s (calls.map OpCall.request)).2 = runCalls rt cp calls s := by
  induction calls generalizing s with
  | nil => rfl
  | cons call rest ih =>
    rw [List.map_cons, play, OpCall.request_run, runCalls, List.foldl_cons]
    unfold OpCall.after
    cases call.run rt cp s with
    | ok v s' => exact ih s'
    | error e s' => exact ih s'

/-! ## 4. The caller never gets at the state -/

theorem Request.Rel.imp {A B : Type} {P Q : A → B → Prop} {x : Request A} {y : Request B}
    (hr : x.Rel P y) (hpq : ∀ a b, P a b → Q a b) : x.Rel Q y := by
  cases hr with
  | insert hc hd => exact .insert (hpq _ _ hc) (hpq _ _ hd)
  | update hc hi hd => exact .update (hpq _ _ hc) (hpq _ _ hi) (hpq _ _ hd)
  | replace hc hi hd => exact .replace (hpq _ _ hc) (hpq _ _ hi) (hpq _ _ hd)
  | delete hc hi => exact .delete (hpq _ _ hc) (hpq _ _ hi)
  | upsert hc hi hd => exact .upsert (hpq _ _ hc) (hpq _ _ hi) (hpq _ _ hd)
  | bulkInsert hc hd => exact .bulkInsert (hpq _ _ hc) (hpq _ _ hd)
  | bulkUpdate hc hu => exact .bulkUpdate (hpq _ _ hc) (hpq _ _ hu)
  | get hc hi => exact .get (hpq _ _ hc) (hpq _ _ hi)
  | all hc => exact .all (hpq _ _ hc)
  | find hc hq => exact .find (hpq _ _ hc) (hpq _ _ hq)
  | state => exact .state

/-- What belongs to nobody stays so. -/
theorem Since.inside {h h' : PyHeap} {own own' : Owner PyKey} {t : PySlot} (hs : Since h own h' own')
    (hi : Inside h (free own) t) : Inside h' (free own') t := by
  have hagree := hs.agree le_rfl
  intro r hr
  obtain ⟨c, hc, hf⟩ := hi r (hi.reaches_old hagree hr)
  exact ⟨c, hagree r c hc hf, fun hn => (hs.outside r (lt_of_some hc) (hf hn)).1⟩

namespace Process

variable {rt : Runtime} {cp : Copier} {p p' p₀ : Process} {own : Owner PyKey} {s : State}

/-- The state object is a tree with this value, and nothing in it that can be changed can be got at. -/
structure Apart (own : Owner PyKey) (p : Process) (s : State) : Prop where
  held : IsState p.state own p.heap s
  names : ∀ t ∈ p.names, Inside p.heap (free own) t

theorem Apart.sees (ha : Apart own p s) {r : Nat} (hr : p.Sees r) :
    ∃ c, p.heap[r]? = some c ∧ (c.frozen = false → r ∈ free own) := by
  obtain ⟨t, ht, hr⟩ := hr
  exact ha.names t ht r hr

theorem Apart.passes (ha : Apart own p s) {t : PySlot} {o : PyObj} (hp : p.Passes t o) :
    HasValue p.heap (free own) t o.val := ⟨ha.names t hp.1, hp.2⟩

/-- Whatever the caller does on its own. -/
theorem Apart.acts (ha : Apart own p s) (hact : p.Acts p') : Apart own p' s := by
  cases hact with
  | literal a => exact ⟨ha.held, List.forall_mem_cons.mpr ⟨.atom a, ha.names⟩⟩
  | look hr hc ht =>
    refine ⟨ha.held, List.forall_mem_cons.mpr ⟨?_, ha.names⟩⟩
    exact (ha.names _ hr).reached (Reaches.refl.inside hc ht)
  | @make c hc =>
    have hd := (During.start ha.held).append (List.prefix_append p.heap [c])
    refine ⟨hd.held, List.forall_mem_cons.mpr ⟨?_, fun t ht => hd.since.inside (ha.names t ht)⟩⟩
    intro r hr
    rcases hr.cases_head with e | ⟨c₀, t, hc₀, ht, hr⟩
    · cases e
      exact ⟨c, List.getElem?_concat_length, fun _ => ha.held.fresh le_rfl⟩
    · cases List.getElem?_concat_length.symm.trans hc₀
      exact hd.since.inside (ha.names t (hc t ht)) r hr
  | @write r c₀ c hr hc₀ hf hc =>
    obtain ⟨c₁, hc₁, hfree⟩ := ha.names _ hr r .refl
    cases hc₀.symm.trans hc₁
    refine ⟨ha.held.set_free hc₀ hf (hfree hf), fun t ht => ?_⟩
    -- what could be got at before, is all that can be got at now
    refine inside_of_closed (C := {r | p.Sees r}) (fun r e => ⟨t, ht, e ▸ .refl⟩) fun r' hr' => ?_
    by_cases e : r = r'
    · subst e
      refine ⟨c, List.getElem?_set_self (lt_of_some hc₀), fun _ => hfree hf, fun r' hr' => ?_⟩
      exact ⟨_, hc _ hr', .refl⟩
    · obtain ⟨c', hc', hf'⟩ := ha.sees hr'
      obtain ⟨t', ht', hreach⟩ := hr'
      exact ⟨c', (List.getElem?_set_ne e).trans hc', hf', fun r₂ hr₂ => ⟨t', ht', hreach.inside hc' hr₂⟩⟩

/-- A call ends as on values. It changes nothing that is not in the state, and the caller gets new
    objects only. -/
theorem Apart.call (rt : Runtime) (cp : Copier) (ha : Apart own p s) {request : Request PySlot}
    {values : Request PyObj} (hrel : request.Rel p.Passes values) :
    ∃ own' o s', play rt cp s [values] = ([o], s') ∧
      (p.call rt cp request).1 = o.map some ∧ Apart own' (p.call rt cp request).2 s' ∧
      Since p.heap own (p.call rt cp request).2.heap own' ∧
      ∀ t ∈ (p.call rt cp request).2.names, t ∈ p.names ∨
        Inside (p.call rt cp request).2.heap (made p.heap own') t := by
  have hends := Request.follows rt cp ha.held (hrel.imp fun _ _ => ha.passes)
  unfold Process.call play
  cases hperform : request.perform rt cp p.state p.heap with
  | ok t h' =>
    cases hrun : values.run rt cp s with
    | error e s' =>
      rw [hperform, hrun] at hends
      cases hends
    | ok v s' =>
      rw [hperform, hrun] at hends
      cases hends with
      | ok hq =>
        obtain ⟨own', hd, hv⟩ := hq
        refine ⟨own', .ok v, s', rfl, congrArg Except.ok hv.value, ⟨hd.held, ?_⟩, hd.since, ?_⟩
        · refine List.forall_mem_cons.mpr ⟨hv.inside.mono made_free, fun t ht => ?_⟩
          exact hd.since.inside (ha.names t ht)
        · exact List.forall_mem_cons.mpr ⟨Or.inr hv.inside, fun t ht => Or.inl ht⟩
  | error e h' =>
    cases hrun : values.run rt cp s with
    | ok v s' =>
      rw [hperform, hrun] at hends
      cases hends
    | error e s' =>
      rw [hperform, hrun] at hends
      cases hends with
      | error he =>
        obtain ⟨own', hd⟩ := he
        refine ⟨own', .error e, s', rfl, rfl, ⟨hd.held, fun t ht => ?_⟩, hd.since, fun t ht => Or.inl ht⟩
        exact hd.since.inside (ha.names t ht)

/-- The caller keeps what it holds. -/
theorem mem_call {t : PySlot} (ht : t ∈ p.names) (request : Request PySlot) :
    t ∈ (p.call rt cp request).2.names := by
  unfold Process.call
  cases request.perform rt cp p.state p.heap with
  | ok t' h' => exact List.mem_cons_of_mem _ ht
  | error e h' => exact ht

/-- What can be got at does not change. -/
theorem Apart.call_keeps (rt : Runtime) (cp : Copier) (ha : Apart own p s) {request : Request PySlot}
    {values : Request PyObj} (hrel : request.Rel p.Passes values) {r : Nat} (hr : p.Sees r) :
    (p.call rt cp request).2.heap[r]? = p.heap[r]? := by
  obtain ⟨own', o, s', -, -, -, hsince, -⟩ := ha.call rt cp hrel
  obtain ⟨c, hc, hfree⟩ := ha.sees hr
  exact (hsince.agree le_rfl r c hc hfree).trans hc.symm

/-- A call that returns a dictionary: the caller gets an object. -/
theorem Apart.call_dict (ha : Apart own p s) {request : Request PySlot} {values : Request PyObj}
    (hrel : request.Rel p.Passes values) {fields : PyDict} {s' : State}
    (hrun : values.run rt cp s = .ok (.dict fields) s') : ∃ own' r entries,
      Apart own' (p.call rt cp request).2 s' ∧ .ref r ∈ (p.call rt cp request).2.names ∧
        (p.call rt cp request).2.heap[r]? = some (.dict entries) := by
  have hends := Request.follows rt cp ha.held (hrel.imp fun _ _ => ha.passes)
  obtain ⟨own', o, s₁, hplay, -, ha', -, -⟩ := ha.call rt cp hrel
  rw [play, hrun] at hplay
  obtain ⟨-, rfl⟩ := Prod.mk.inj hplay
  unfold Process.call at ha' ⊢
  cases hperform : request.perform rt cp p.state p.heap with
  | ok t h' =>
    rw [hperform, hrun] at hends
    rw [hperform] at ha'
    cases hends with
    | ok hq =>
      obtain ⟨_, -, hv⟩ := hq
      obtain ⟨r, entries, rfl, hr, -⟩ := hv.dict
      exact ⟨own', r, entries, ha', List.mem_cons_self, hr⟩
  | error e h' =>
    rw [hperform, hrun] at hends
    cases hends

/-- A call, and then the caller empties a dictionary that it holds. -/
theorem Runs.call_empty {requests : List (Request PyObj)} {outcomes : List (Except PyExc (Option PyVal))}
    (h : Runs rt cp p₀ requests outcomes p) {request : Request PySlot} {values : Request PyObj}
    (hrel : request.Rel p.Passes values) {r : Nat} {entries : Dict PyKey PySlot}
    (hr : .ref r ∈ (p.call rt cp request).2.names)
    (hc : (p.call rt cp request).2.heap[r]? = some (.dict entries)) : ∃ outcomes' p',
      Runs rt cp p₀ (requests ++ [values]) outcomes' p' ∧ p'.names = (p.call rt cp request).2.names ∧
        p'.heap[r]? = some (.dict []) :=
  ⟨_, _, (h.calls request values hrel).acts (.write hr hc rfl (List.forall_mem_nil _)), rfl,
    List.getElem?_set_self (lt_of_some hc)⟩

/-- **Calls and the caller's own doings**, in any order. -/
theorem Runs.apart (ha : Apart own p₀ s) {requests : List (Request PyObj)}
    {outcomes : List (Except PyExc (Option PyVal))} (hr : Runs rt cp p₀ requests outcomes p) :
    outcomes = (play rt cp s requests).1.map (Except.map some) ∧
      ∃ own', Apart own' p (play rt cp s requests).2 := by
  induction hr with
  | start => exact ⟨rfl, own, ha⟩
  | acts _ hact ih =>
    obtain ⟨ho, own', ha'⟩ := ih
    exact ⟨ho, own', ha'.acts hact⟩
  | calls _ _ _ hrel ih =>
    obtain ⟨ho, own', ha'⟩ := ih
    obtain ⟨own₂, o, s', hplay, hout, ha₂, -, -⟩ := ha'.call rt cp hrel
    rw [play_append, hplay, ho, hout, List.map_append]
    exact ⟨rfl, own₂, ha₂⟩

end Process

/-- A transaction that was just entered. -/
theorem StateObject.apart {cp : Copier} {loaded : State} {h h' : PyHeap} {state : PySlot}
    {names : List PySlot} (ho : StateObject cp loaded h state h') (hw : WellFormed loaded)
    (hnames : ∀ t ∈ names, Inside h Set.univ t) :
    ∃ own, Process.Apart own ⟨h', names, state⟩ loaded := by
  obtain ⟨own, hs, hlabels, hp⟩ := ho.isState hw
  refine ⟨own, hs, fun t ht r hr => ?_⟩
  obtain ⟨cs, rfl⟩ := hp
  have hagree : Heap.Agree h (h ++ cs) Set.univ := .append cs
  obtain ⟨c, hc, -⟩ := hnames t ht r ((hnames t ht).reaches_old hagree hr)
  refine ⟨c, hagree r c hc fun _ => trivial, fun _ => ?_⟩
  by_contra hn
  exact absurd (hlabels r hn).1 (Nat.not_le.mpr (lt_of_some hc))

section

variable {rt : Runtime} {cp : Copier} {now : DateTime} {file : FileRead} {loaded : State}
  {h h' : PyHeap} {state : PySlot} {names : List PySlot} {requests : List (Request PyObj)}
  {outcomes : List (Except PyExc (Option PyVal))} {p : Process}

/-- **What the caller does with its objects does not matter.** Whatever it keeps and changes between the
    calls, the calls end as on values, and so does the state; all that can be got at both from the
    caller and from the state is tuples and frozensets. -/
theorem aliases_do_not_matter (hload : load rt now file = .ok loaded)
    (hstate : StateObject cp loaded h state h') (hnames : ∀ t ∈ names, Inside h Set.univ t)
    (hruns : Process.Runs rt cp ⟨h', names, state⟩ requests outcomes p) :
    outcomes = (play rt cp loaded requests).1.map (Except.map some) ∧
      Heap.valueOf p.heap p.state = some (PyVal.dict (play rt cp loaded requests).2) ∧
      ∀ r c, p.Sees r → Heap.Reaches p.heap p.state (.ref r) → p.heap[r]? = some c →
        c.frozen = true := by
  obtain ⟨own, ha⟩ := hstate.apart (load_loaded hload).wellFormed hnames
  obtain ⟨ho, own', ha'⟩ := hruns.apart ha
  have hv := ha'.held.tree.hasValue
  refine ⟨ho, hv.value, fun r c hsees hreach hc => ?_⟩
  obtain ⟨c₁, hc₁, hfree⟩ := ha'.sees hsees
  obtain ⟨c₂, hc₂, howned⟩ := hv.inside r hreach
  cases hc.symm.trans hc₁
  cases hc.symm.trans hc₂
  by_contra hn
  exact howned (Bool.eq_false_iff.mpr hn) (hfree (Bool.eq_false_iff.mpr hn))

/-- A caller gets the empty list of documents, puts the list into itself, and asks again. -/
theorem list_in_itself : ∃ loaded state h', load interpreter epoch .missing = .ok loaded ∧
    StateObject .total loaded [] state h' ∧ ∃ p : Process, p.Sees 3 ∧
      Process.Runs interpreter .total ⟨h', [], state⟩
        [.all (.str (lit "users")), .all (.str (lit "users"))]
        [.ok (some (.list [])), .ok (some (.list []))] p := by
  obtain ⟨d, -, hload⟩ := loaded_empty interpreter epoch
  have h₀ : Process.Runs interpreter .total ⟨(store (.dict (emptyState epoch (.str d))) []).2, [], .ref 2⟩
      [] [] _ := .start
  have h₁ := h₀.acts (.literal (.str (lit "users")))
  have h₂ := h₁.calls (.all _) (.all (.str (lit "users"))) (.all ⟨List.mem_cons_self .., rfl⟩)
  have h₃ := h₂.acts (.write (r := 3) (c := .items .list [.ref 3]) (List.mem_cons_self ..) rfl rfl
    (List.forall_mem_singleton.mpr (List.mem_cons_self ..)))
  refine ⟨_, _, _, hload, .autocommit rfl, _, ?_, h₃.calls (.all _) _
    (.all ⟨List.mem_cons_of_mem _ (List.mem_cons_self ..), rfl⟩)⟩
  exact ⟨.ref 3, List.mem_cons_of_mem _ (List.mem_cons_self ..), .refl⟩

/-- The calls of a caller that inserts a document and gets it, twice. -/
def insertAndGet : List (Request PyObj) :=
  [.insert (.str (lit "users")) (.field (lit "name") (lit "Ava")) ⟨0⟩,
    .get (.str (lit "users")) (.str (Uuid.text ⟨0⟩)), .get (.str (lit "users")) (.str (Uuid.text ⟨0⟩))]

/-- The objects of an empty state. -/
def emptyHeap (d : Str) : PyHeap := (store (.dict (emptyState epoch (.str d))) []).2

/-- A caller with a document. -/
def callerWithDocument (d : Str) : Process where
  heap := emptyHeap d ++ [.dict [(.str (lit "name"), .atom (.str (lit "Ava")))]]
  names := [.ref (emptyHeap d).length, .atom (.str (lit "Ava")), .atom (.str (Uuid.text ⟨0⟩)),
    .atom (.str (lit "users"))]
  state := (store (.dict (emptyState epoch (.str d))) []).1

theorem callerWithDocument_runs (d : Str) : Process.Runs interpreter .total
    ⟨emptyHeap d, [], (callerWithDocument d).state⟩ [] [] (callerWithDocument d) :=
  (((Process.Runs.start.acts (.literal (.str (lit "users")))).acts
    (.literal (.str (Uuid.text ⟨0⟩)))).acts (.literal (.str (lit "Ava")))).acts
      (.make (List.forall_mem_singleton.mpr (List.mem_cons_self ..)))

/-- When the document is inserted the caller empties the one it has passed, then the one it got. -/
theorem emptied_documents {d : Str}
    (hload : load interpreter epoch .missing = .ok (emptyState epoch (.str d))) :
    ∃ passed got outcomes outcomes' outcomes'' p p' p'',
    Process.Runs interpreter .total ⟨emptyHeap d, [], (callerWithDocument d).state⟩
      (insertAndGet.take 1) outcomes p ∧
    (.ref passed ∈ p.names ∧ p.heap[passed]? = some (.dict [])) ∧
    Process.Runs interpreter .total ⟨emptyHeap d, [], (callerWithDocument d).state⟩
      (insertAndGet.take 2) outcomes' p' ∧
    (.ref got ∈ p'.names ∧ p'.heap[got]? = some (.dict [])) ∧
    Process.Runs interpreter .total ⟨emptyHeap d, [], (callerWithDocument d).state⟩ insertAndGet
      outcomes'' p'' := by
  have hstate : StateObject .total (emptyState epoch (.str d)) [] (callerWithDocument d).state
    (emptyHeap d) := .autocommit rfl
  obtain ⟨own₀, ha₀⟩ : ∃ own, Process.Apart own ⟨_, [], _⟩ _ :=
    hstate.apart (load_loaded hload).wellFormed (List.forall_mem_nil _)
  have h := callerWithDocument_runs d
  obtain ⟨-, own, ha⟩ := h.apart ha₀
  -- the document is inserted, and emptied
  have hrel : Request.Rel (callerWithDocument d).Passes
    (.insert (.atom (.str (lit "users"))) (.ref (emptyHeap d).length) ⟨0⟩)
    (.insert (.str (lit "users")) (.field (lit "name") (lit "Ava")) ⟨0⟩) :=
      .insert ⟨.tail _ (.tail _ (.tail _ (.head _))), rfl⟩ ⟨.head _, rfl⟩
  have hheld := ha.call_keeps interpreter .total hrel ⟨.ref (emptyHeap d).length, .head _, .refl⟩
  have hpassed : (callerWithDocument d).heap[(emptyHeap d).length]? = some _ :=
    List.getElem?_concat_length
  obtain ⟨outcomes, p, h₁, hnames, hempty⟩ :=
    h.call_empty hrel (Process.mem_call (.head _) _) (hheld.trans hpassed)
  have hin {t : PySlot} (ht : t ∈ (callerWithDocument d).names) : t ∈ p.names :=
    hnames ▸ Process.mem_call ht _
  -- the stored one is got, and emptied
  obtain ⟨-, own₁, ha₁⟩ := h₁.apart ha₀
  have hget : Request.Rel p.Passes (.get (.atom (.str (lit "users"))) (.atom (.str (Uuid.text ⟨0⟩))))
    (.get (.str (lit "users")) (.str (Uuid.text ⟨0⟩))) :=
      .get ⟨hin (.tail _ (.tail _ (.tail _ (.head _)))), denote_atom ..⟩
        ⟨hin (.tail _ (.tail _ (.head _))), denote_atom ..⟩
  have hrun : (Request.get (.str (lit "users")) (.str (Uuid.text ⟨0⟩))).run interpreter .total
      (play interpreter .total (emptyState epoch (.str d)) (insertAndGet.take 1)).2 =
    .ok (named (lit "Ava")).2
      (play interpreter .total (emptyState epoch (.str d)) (insertAndGet.take 1)).2 := rfl
  obtain ⟨own₂, r, entries, -, hr, hentries⟩ := ha₁.call_dict hget hrun
  obtain ⟨outcomes', p', h₂, hnames', hempty'⟩ := h₁.call_empty hget hr hentries
  have hin' {t : PySlot} (ht : t ∈ (callerWithDocument d).names) : t ∈ p'.names :=
    hnames' ▸ Process.mem_call (hin ht) _
  have hagain : Request.Rel p'.Passes
    (.get (.atom (.str (lit "users"))) (.atom (.str (Uuid.text ⟨0⟩))))
    (.get (.str (lit "users")) (.str (Uuid.text ⟨0⟩))) :=
      .get ⟨hin' (.tail _ (.tail _ (.tail _ (.head _)))), denote_atom ..⟩
        ⟨hin' (.tail _ (.tail _ (.head _))), denote_atom ..⟩
  exact ⟨_, r, outcomes, outcomes', _, p, p', _, h₁, ⟨hin (.head _), hempty⟩, h₂,
    ⟨hnames' ▸ hr, hempty'⟩, h₂.calls _ _ hagain⟩

/-- The caller gets the document as it was inserted, both times, and so it is in the state. -/
theorem aliases_do_not_matter_documents : ∃ d passed got outcomes outcomes' p p' p'',
    Process.Runs interpreter .total ⟨emptyHeap d, [], (callerWithDocument d).state⟩
      (insertAndGet.take 1) outcomes p ∧
    (.ref passed ∈ p.names ∧ p.heap[passed]? = some (.dict [])) ∧
    Process.Runs interpreter .total ⟨emptyHeap d, [], (callerWithDocument d).state⟩
      (insertAndGet.take 2) outcomes' p' ∧
    (.ref got ∈ p'.names ∧ p'.heap[got]? = some (.dict [])) ∧
    Process.Runs interpreter .total ⟨emptyHeap d, [], (callerWithDocument d).state⟩ insertAndGet
      [.ok (some (.str (Uuid.text ⟨0⟩))), .ok (some (named (lit "Ava")).2),
        .ok (some (named (lit "Ava")).2)] p'' ∧
    Heap.valueOf p''.heap p''.state =
      some (PyVal.dict (usersOnly epoch (.str d) [named (lit "Ava")])) := by
  obtain ⟨d, -, hload⟩ := loaded_empty interpreter epoch
  obtain ⟨passed, got, outcomes, outcomes', outcomes'', p, p', p'', h, hp, h', hp', h''⟩ :=
    emptied_documents hload
  obtain ⟨hout, hstate, -⟩ := aliases_do_not_matter hload (.autocommit rfl) (List.forall_mem_nil _) h''
  have hplay : outcomes'' = [.ok (some (.str (Uuid.text ⟨0⟩))), .ok (some (named (lit "Ava")).2),
    .ok (some (named (lit "Ava")).2)] := hout
  rw [hplay] at h''
  exact ⟨d, passed, got, outcomes, outcomes', p, p', p'', h, hp, h', hp', h'', hstate⟩

/-- **A call does not touch the caller's objects**: those that the caller could get at are as before,
    and those that it can get at now are these, or new, or cannot be changed. -/
theorem callers_objects_kept (hload : load rt now file = .ok loaded)
    (hstate : StateObject cp loaded h state h') (hnames : ∀ t ∈ names, Inside h Set.univ t)
    (hruns : Process.Runs rt cp ⟨h', names, state⟩ requests outcomes p) {request : Request PySlot}
    {values : Request PyObj} (hrel : request.Rel p.Passes values) :
    (∀ r, p.Sees r → (p.call rt cp request).2.heap[r]? = p.heap[r]?) ∧
      ∀ r c, (p.call rt cp request).2.Sees r → (p.call rt cp request).2.heap[r]? = some c →
        c.frozen = false → p.Sees r ∨ p.heap.length ≤ r := by
  obtain ⟨own, ha⟩ := hstate.apart (load_loaded hload).wellFormed hnames
  obtain ⟨-, own', ha'⟩ := hruns.apart ha
  obtain ⟨own₂, o, s', -, -, -, hsince, hnew⟩ := ha'.call rt cp hrel
  have hagree := hsince.agree le_rfl
  refine ⟨fun r hr => ha'.call_keeps rt cp hrel hr, fun r c hr hc hf => ?_⟩
  · obtain ⟨t, ht, hreach⟩ := hr
    rcases hnew t ht with hold | hmade
    · exact Or.inl ⟨t, hold, (ha'.names t hold).reaches_old hagree hreach⟩
    · obtain ⟨c', hc', hmade⟩ := hmade r hreach
      cases hc.symm.trans hc'
      exact Or.inr (hmade hf).1

theorem callers_objects_kept_state : ∃ p : Process, p.Sees 3 ∧
    ∀ r, p.Sees r → (p.call interpreter .total .state).2.heap[r]? = p.heap[r]? := by
  obtain ⟨loaded, _, _, hload, hstate, p, hsees, hruns⟩ := list_in_itself
  exact ⟨p, hsees, (callers_objects_kept hload hstate (List.forall_mem_nil _) hruns .state).1⟩

end

end JsonDatabase
