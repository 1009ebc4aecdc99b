/-
  File:      JsonDatabase/ObjectRuns.lean
  Subject:   Every call on objects ends as the call on values does.

  Both are taken through in step: what is read, what is copied, what is assigned. Where the call on
  values writes down a new state, the call on objects has changed the tree in one place.

  * `Mirrors` -- what is to be shown of a call;
  * `insertDocument_follows` .. `findDocuments_follows` -- one call;
  * `Request.follows` -- any of them.
-/
import JsonDatabase.ObjectLaws
import JsonDatabase.Representation

namespace JsonDatabase

open Heap hiding Reaches Agree Owns
open PyVal hiding none

/-- Both returned, or both raised the same; the state object has the value of the new state; the result
    has the value of the result, and is made of new objects that are not in the state. -/
def Mirrors (state : PySlot) (own : Owner PyKey) (h : PyHeap) :
    EStateM.Result PyExc PyHeap PySlot → EStateM.Result PyExc State PyVal → Prop :=
  EndsAlike (fun t v h' s' => ∃ own', During h own state own' h' s' ∧ HasValue h' (made h own') t v)
    fun h' s' => ∃ own', During h own state own' h' s'

section

variable {rt : Runtime} {cp : Copier} {state : PySlot} {own : Owner PyKey} {h : PyHeap} {s : State}
  {c i d : PySlot} {cv iv dv : PyVal}

/-- A document in the arguments, checked. -/
theorem wf_fields {fields : PyDict} (hw : (PyVal.dict fields).wf) : Dict.Distinct fields :=
  (everywhere_dict.mp hw).1

/-! ## 1. Writes of one document -/

/-- `_ensure_collection(state, collection)[document_id] = stored`. -/
theorem During.storeUnder {h₀ : PyHeap} {own₀ : Owner PyKey} (hd : During h₀ own₀ state own h s)
    (iv : PyVal) {r : Nat} {fields : PyDict} (hc : HasValue h₀ (free own₀) c cv)
    (hv : HasValue h (made h₀ own) (.ref r) (PyVal.dict fields)) (hf : Dict.Distinct fields)
    {α β : Type} {Q : α → β → PyHeap → State → Prop} {f : Unit → ObjM α} {g : Unit → Op β}
    (hok : ∀ h' s' own', During h₀ own₀ state own' h' s' →
      HasValue h' (owned own') (.ref r) (PyVal.dict fields) → EndsAlike Q
        (fun h' s' => ∃ own', During h₀ own₀ state own' h' s') (f () h') (g () s')) :
    EndsAlike Q (fun h' s' => ∃ own', During h₀ own₀ state own' h' s')
      ((Objects.ensureCollection state c >>= fun documents =>
        Objects.setItem documents iv.toKey (.ref r) >>= f) h)
      ((JsonDatabase.ensureCollection cv >>= fun _ =>
        JsonDatabase.assignDocument cv iv fields >>= g) s) := by
  refine EndsAlike.bind (hd.ensureCollection (hd.argument hc)) ?_
  intro t docs h₁ s₁ _ _ hq
  obtain ⟨own₁, collections, hd₁, hs₁, hat⟩ := hq
  obtain ⟨h₂, own₂, hset, hd₂, -, hv₂⟩ := hd₁.assign hat (hs₁.made hv) hf iv.toKey
  exact EndsAlike.left hset (EndsAlike.right (hat.assignDocument fields) (hok h₂ _ own₂ hd₂ hv₂))

theorem insertDocument_follows (hs : IsState state own h s) (hc : HasValue h (free own) c cv)
    (hd : HasValue h (free own) d dv) (hw : dv.wf) (uuid : Uuid) :
    Mirrors state own h (Objects.insertDocument rt cp state c d uuid h)
      (JsonDatabase.insertDocument rt cp cv dv uuid s) := by
  have hd₀ := During.start hs
  have he : ∃ own', During h own state own' h s := ⟨own, hd₀⟩
  refine EndsAlike.left (valueOf_run hd) (EndsAlike.check he fun _ _ => ?_)
  refine EndsAlike.check he fun fields hfields => EndsAlike.check he fun _ _ => ?_
  obtain rfl : dv = .dict fields := by
    cases dv <;> cases hfields
    rfl
  refine hd₀.copyDict cp hd he fun r h₁ hd₁ _ hv₁ => ?_
  obtain ⟨h₂, hset, hd₂, hv₂, -⟩ := hd₁.setField hv₁ ID (HasValue.atom (V := PyVal) (Atom.str uuid.text))
  refine EndsAlike.left hset ?_
  refine hd₂.storeUnder (.str uuid.text) hc hv₂ (Dict.distinct_put _ _ (wf_fields hw)) ?_
  exact fun h' s' own' hd' _ => .ok ⟨own', hd', .atom _⟩

theorem upsertDocument_follows (hs : IsState state own h s) (hc : HasValue h (free own) c cv)
    (hi : HasValue h (free own) i iv) (hd : HasValue h (free own) d dv) (hw : dv.wf) :
    Mirrors state own h (Objects.upsertDocument rt cp state c i d h)
      (JsonDatabase.upsertDocument rt cp cv iv dv s) := by
  have hd₀ := During.start hs
  have he : ∃ own', During h own state own' h s := ⟨own, hd₀⟩
  refine EndsAlike.left (valueOf_run hi) (EndsAlike.check he fun _ hid => ?_)
  obtain ⟨x, rfl, -⟩ := validateDocumentId_ok.mp hid
  obtain rfl := hasValue_str hi
  refine EndsAlike.left (valueOf_run hd) (EndsAlike.check he fun _ hvalid => ?_)
  obtain ⟨fields, -, rfl, -⟩ := validateDocument_ok.mp hvalid
  refine hd₀.copyDict cp hd he fun r h₁ hd₁ _ hv₁ => ?_
  refine EndsAlike.left_lift rfl (EndsAlike.check ⟨own, hd₁⟩ fun _ _ => ?_)
  obtain ⟨h₂, hset, hd₂, hv₂, -⟩ := hd₁.setField hv₁ ID (HasValue.atom (V := PyVal) (Atom.str x))
  refine EndsAlike.left hset ?_
  refine hd₂.storeUnder (.str x) hc hv₂ (Dict.distinct_put _ _ (wf_fields hw)) ?_
  exact fun h' s' own' hd' _ => .ok ⟨own', hd', .atom _⟩

theorem replaceDocument_follows (hs : IsState state own h s) (hc : HasValue h (free own) c cv)
    (hi : HasValue h (free own) i iv) (hd : HasValue h (free own) d dv) (hw : dv.wf) :
    Mirrors state own h (Objects.replaceDocument rt cp state c i d h)
      (JsonDatabase.replaceDocument rt cp cv iv dv s) := by
  have hd₀ := During.start hs
  have he : ∃ own', During h own state own' h s := ⟨own, hd₀⟩
  refine EndsAlike.left (valueOf_run hd) (EndsAlike.check he fun _ hvalid => ?_)
  obtain ⟨fields, -, rfl, -⟩ := validateDocument_ok.mp hvalid
  refine hd₀.copyDict cp hd he fun r h₁ hd₁ _ hv₁ => ?_
  have he₁ : ∃ own', During h own state own' h₁ s := ⟨own, hd₁⟩
  refine EndsAlike.left (valueOf_run (hd₁.argument hi)) (EndsAlike.left_lift rfl ?_)
  refine EndsAlike.check he₁ fun _ _ => EndsAlike.right_get ?_
  refine hd₁.held.getDocumentRef (hd₁.argument hc) (hd₁.argument hi) he₁ ?_
  intro t collections docs td old hid _ _ _ _
  obtain ⟨x, rfl, -⟩ := validateDocumentId_ok.mp hid
  obtain rfl := hasValue_str hi
  obtain ⟨h₂, hset, hd₂, hv₂, -⟩ := hd₁.setField hv₁ ID (HasValue.atom (V := PyVal) (Atom.str x))
  refine EndsAlike.left hset ?_
  refine hd₂.storeUnder (.str x) hc hv₂ (Dict.distinct_put _ _ (wf_fields hw)) ?_
  intro h₃ s₃ own₃ hd₃ hv₃
  exact hd₃.handOut cp hv₃ ⟨own₃, hd₃⟩ fun t' h₄ hd₄ hv₄ => ⟨own₃, hd₄, hv₄⟩

theorem updateDocument_follows (hs : IsState state own h s) (hc : HasValue h (free own) c cv)
    (hi : HasValue h (free own) i iv) (hd : HasValue h (free own) d dv) :
    Mirrors state own h (Objects.updateDocument rt cp state c i d h)
      (JsonDatabase.updateDocument rt cp cv iv dv s) := by
  have hd₀ := During.start hs
  have he : ∃ own', During h own state own' h s := ⟨own, hd₀⟩
  refine EndsAlike.left (valueOf_run hd) (EndsAlike.check he fun _ hvalid => ?_)
  obtain ⟨fields, -, rfl, -⟩ := validateDocument_ok.mp hvalid
  refine EndsAlike.check he fun _ hfields => EndsAlike.check he fun _ _ => ?_
  cases hfields
  refine EndsAlike.right_get (hs.getDocumentRef hc hi he ?_)
  intro t collections docs td old _ hat hget _ hplace
  refine hd₀.copyDict cp hd he fun r h₁ hd₁ hp hv₁ => ?_
  obtain ⟨entries, td', h₂, own₂, ⟨δ, rfl, hδ⟩, htd', hupdate, hd₂, -, hv₂⟩ :=
    hd₁.merge (hat.append hp) hget hv₁
  obtain rfl : td' = td := by
    obtain ⟨r', entries', e, hr', htd⟩ := hplace
    cases e
    cases (getElem_append hp hr').symm.trans hδ
    exact Option.some.inj (htd'.symm.trans htd)
  refine EndsAlike.left hupdate (EndsAlike.right (hat.assignDocument (Dict.merge old fields)) ?_)
  exact hd₂.handOut cp hv₂ ⟨own₂, hd₂⟩ fun t' h₃ hd₃ hv₃ => ⟨own₂, hd₃, hv₃⟩

theorem deleteDocument_follows (hs : IsState state own h s) (hc : HasValue h (free own) c cv)
    (hi : HasValue h (free own) i iv) :
    Mirrors state own h (Objects.deleteDocument state c i h) (JsonDatabase.deleteDocument cv iv s) := by
  have hd₀ := During.start hs
  have he : ∃ own', During h own state own' h s := ⟨own, hd₀⟩
  refine EndsAlike.left (valueOf_run hi) (EndsAlike.check he fun _ _ => ?_)
  refine EndsAlike.right_get (hs.getCollectionRef hc he ?_)
  intro t collections docs _ hat
  obtain ⟨r, entries, kvs, rfl, hkvs, -, hcell, -, hm⟩ := owns_iff.mp (hat.part hs).1
  obtain rfl : docs = kvs := PyVal.dict.inj hkvs
  refine EndsAlike.left (asDict_run hcell) (EndsAlike.left (valueOf_run hc) ?_)
  simp only [hm.contains_eq]
  refine EndsAlike.check he fun _ _ => EndsAlike.right (run_lift_ok.mpr ⟨hat.collectionsOf, rfl⟩) ?_
  obtain ⟨h', hdel, hd'⟩ := hd₀.remove hat iv.toKey
  exact EndsAlike.left hdel (EndsAlike.right (b := ()) rfl (.ok ⟨own, hd', .atom Atom.none⟩))

/-! ## 2. Writes of many documents -/

/-- A list is read as the list of what its places hold. -/
theorem asList_cases {R : Set Nat} {t : PySlot} {v : PyVal} (hv : HasValue h R t v) :
    (∃ ts vs, v = .list vs ∧ Objects.asList t h = .ok (some ts) h ∧
      List.Forall₂ (HasValue h R) ts vs) ∨
      (∀ vs, v ≠ .list vs) ∧ Objects.asList t h = .ok none h := by
  cases t with
  | atom a =>
    refine Or.inr ⟨fun vs e => ?_, rfl⟩
    have ha := hv.of_atom
    rw [e] at ha
    exact Denoting.leaf_ne_build (V := PyVal) a (Cell.items SeqType.list vs) ha.symm
  | ref r =>
    obtain ⟨c, d, hc, -, hrel, rfl⟩ := hv.places
    unfold Objects.asList
    simp only [hc]
    cases c with
    | dict entries =>
      cases d with
      | dict kvs => exact Or.inr ⟨nofun, rfl⟩
      | items kind vs => exact hrel.elim
    | items kind ts =>
      cases d with
      | dict kvs => exact hrel.elim
      | items kind' vs =>
        obtain ⟨rfl, hrel⟩ := hrel
        have hts := hrel.imp fun _ _ hx => hx.mono Set.sdiff_subset
        cases kind with
        | list => exact Or.inl ⟨ts, vs, rfl, rfl, hts⟩
        | _ => exact Or.inr ⟨nofun, rfl⟩

/-- The first loop of `bulk_insert_documents` changes nothing. -/
theorem checkInserts_run {R : Set Nat} {ts : List PySlot} {vs : List PyVal}
    (hts : List.Forall₂ (HasValue h R) ts vs) :
    Objects.checkInserts rt ts h = liftExcept (forEach (checkInsert rt) vs) h := by
  induction hts with
  | nil => rfl
  | @cons t v ts vs hv _ ih =>
    unfold Objects.checkInserts forEach
    rw [liftExcept_bind]
    show EStateM.bind _ _ h = EStateM.bind _ _ h
    unfold EStateM.bind
    rw [valueOf_run hv]
    show EStateM.bind _ _ h = _
    unfold EStateM.bind
    cases hcheck : checkInsert rt v with
    | ok u => exact ih
    | error e => rfl

/-- The second loop of `bulk_insert_documents`. -/
theorem storeInserts_follows {h₀ : PyHeap} {own₀ : Owner PyKey} {t : PySlot}
    {xs : List (Uuid × PySlot)} {ys : List (Uuid × PyVal)}
    (hxs : List.Forall₂ (fun x y => x.1 = y.1 ∧ HasValue h₀ (free own₀) x.2 y.2 ∧ y.2.wf ∧
      ∃ fields, y.2 = .dict fields) xs ys) :
    ∀ {h : PyHeap} {own : Owner PyKey} {s : State} {collections docs : PyDict},
      During h₀ own₀ state own h s → CollectionAt state h s collections cv.toKey t docs →
        EndsAlike (fun _ _ h' s' => ∃ own', During h₀ own₀ state own' h' s')
          (fun h' s' => ∃ own', During h₀ own₀ state own' h' s')
          (Objects.storeInserts cp t xs h) (JsonDatabase.storeInserts cp cv ys s) := by
  induction hxs with
  | nil => exact fun hd _ => .ok ⟨_, hd⟩
  | @cons x y xs ys hxy _ ih =>
    intro h own s collections docs hd hat
    obtain ⟨uuid, d⟩ := x
    obtain ⟨uuid', dv⟩ := y
    obtain ⟨rfl, hv, hw, fields, rfl⟩ := hxy
    refine hd.copyDict cp (hd.argument hv) ⟨own, hd⟩ fun r h₁ hd₁ hp hv₁ => ?_
    obtain ⟨h₂, hset, hd₂, hv₂, hsame⟩ :=
      hd₁.setField hv₁ ID (HasValue.atom (V := PyVal) (Atom.str uuid.text))
    have hat₂ := (hat.append hp).move hd₁.held hsame
    obtain ⟨h₃, own₃, hset', hd₃, hat₃, -⟩ :=
      hd₂.assign hat₂ hv₂ (Dict.distinct_put _ _ (wf_fields hw)) (.str uuid.text)
    exact EndsAlike.left hset (EndsAlike.left hset'
      (EndsAlike.right (hat₂.assignDocument (i := .str uuid.text) _) (ih hd₃ hat₃)))

/-- What holds of every member on the right may be added to a relation. -/
theorem forall₂_and {β γ : Type} {P : β → γ → Prop} {Q : γ → Prop} {xs : List β} {ys : List γ}
    (h : List.Forall₂ P xs ys) (hq : ∀ y ∈ ys, Q y) : List.Forall₂ (fun x y => P x y ∧ Q y) xs ys :=
  ((List.forall₂_and_left ys xs).mpr ⟨hq, h.flip⟩).flip.imp fun _ _ hp => ⟨hp.2, hp.1⟩

theorem forall₂_zip {α β γ : Type} {P : β → γ → Prop} {xs : List β} {ys : List γ}
    (h : List.Forall₂ P xs ys) : ∀ ids : List α,
      List.Forall₂ (fun x y => x.1 = y.1 ∧ P x.2 y.2) (ids.zip xs) (ids.zip ys) := by
  induction h with
  | nil =>
    intro ids
    cases ids <;> exact .nil
  | cons hp _ ih =>
    intro ids
    cases ids with
    | nil => exact .nil
    | cons id ids => exact .cons ⟨rfl, hp⟩ (ih ids)

theorem bulkInsertDocuments_follows (hs : IsState state own h s) (hc : HasValue h (free own) c cv)
    (hd : HasValue h (free own) d dv) (hw : dv.wf) (uuids : Nat → Uuid) :
    Mirrors state own h (Objects.bulkInsertDocuments rt cp state c d uuids h)
      (JsonDatabase.bulkInsertDocuments rt cp cv dv uuids s) := by
  have hd₀ := During.start hs
  have he : ∃ own', During h own state own' h s := ⟨own, hd₀⟩
  rcases asList_cases hd with ⟨ts, vs, rfl, hrun, hts⟩ | ⟨hno, hrun⟩
  · refine EndsAlike.left hrun ?_
    refine EndsAlike.left_congr (checkInserts_run hts) (EndsAlike.check he fun _ hcheck => ?_)
    have hdocs (v : PyVal) (hv : v ∈ vs) : v.wf ∧ ∃ fields, v = .dict fields := by
      refine ⟨(everywhere_list.mp hw).2 v hv, ?_⟩
      obtain ⟨_, hvalid, -⟩ := bind_ok.mp (forEach_ok.mp hcheck v hv)
      obtain ⟨fields, -, e, -⟩ := validateDocument_ok.mp hvalid
      exact ⟨fields, e⟩
    rw [hts.length_eq]
    refine EndsAlike.bind (hd₀.ensureCollection hc) fun t docs h₁ s₁ _ _ hq => ?_
    obtain ⟨own₁, collections, hd₁, -, hat⟩ := hq
    have hxs := forall₂_zip (forall₂_and hts hdocs) ((List.range vs.length).map uuids)
    refine EndsAlike.bind (storeInserts_follows hxs hd₁ hat) fun _ _ h₂ s₂ _ _ hq₂ => ?_
    obtain ⟨own₂, hd₂⟩ := hq₂
    obtain ⟨h₃, halloc, hd₃, hv₃⟩ := hd₂.allocList (List.forall₂_map_left_iff.mpr
      (List.forall₂_map_right_iff.mpr (List.forall₂_same.mpr fun (u : Uuid) (_ : u ∈ _) =>
        HasValue.atom (V := PyVal) (Atom.str u.text))))
    rw [halloc]
    exact .ok ⟨own₂, hd₃, hv₃⟩
  · have hvalue : JsonDatabase.bulkInsertDocuments rt cp cv dv uuids s =
        .error (validationError "bulk_insert() expects a list of documents") s := by
      cases dv with
      | list vs => exact absurd rfl (hno vs)
      | _ => rfl
    rw [hvalue]
    exact EndsAlike.left hrun (.error he)

/-- An item is read as the pair that its two places give, or it is no pair. -/
theorem asPair_cases (rt : Runtime) (cv : PyVal) {R : Set Nat} {t : PySlot} {v : PyVal} (hv : HasValue h R t v) :
    (∃ a b av bv, Objects.asPair t h = .ok (some (a, b)) h ∧
      (v = .tuple [av, bv] ∨ v = .list [av, bv]) ∧ HasValue h R a av ∧ HasValue h R b bv) ∨
      (Objects.asPair t h = .ok none h ∧ ∀ docs, checkUpdate rt cv docs v =
        .error (validationError "bulk_update() expects (document_id, updates) pairs")) := by
  have hatom {a : Atom} (docs : PyDict) : checkUpdate rt cv docs a.val =
      .error (validationError "bulk_update() expects (document_id, updates) pairs") := by
    cases a <;> rfl
  cases t with
  | atom a =>
    obtain rfl := hv.of_atom
    exact Or.inr ⟨rfl, hatom⟩
  | ref r =>
    obtain ⟨c, d, hc, -, hrel, rfl⟩ := hv.places
    unfold Objects.asPair
    simp only [hc]
    cases c with
    | dict entries =>
      cases d with
      | dict kvs => exact Or.inr ⟨rfl, fun _ => rfl⟩
      | items kind vs => exact hrel.elim
    | items kind ts =>
      cases d with
      | dict kvs => exact hrel.elim
      | items kind' vs =>
        obtain ⟨rfl, hrel⟩ := hrel
        have hts := hrel.imp fun _ _ hx => hx.mono (Set.sdiff_subset (s := R))
        rcases hts with _ | ⟨ha, _ | ⟨hb, _ | ⟨hx, hrest⟩⟩⟩
        · cases kind <;> exact Or.inr ⟨rfl, fun _ => rfl⟩
        · cases kind <;> exact Or.inr ⟨rfl, fun _ => rfl⟩
        · cases kind with
          | tuple => exact Or.inl ⟨_, _, _, _, rfl, Or.inl rfl, ha, hb⟩
          | list => exact Or.inl ⟨_, _, _, _, rfl, Or.inr rfl, ha, hb⟩
          | set => exact Or.inr ⟨rfl, fun _ => rfl⟩
          | frozenset => exact Or.inr ⟨rfl, fun _ => rfl⟩
        · cases kind <;> exact Or.inr ⟨rfl, fun _ => rfl⟩

/-- What the first loop of `bulk_update_documents` has found out about a pair. -/
structure CheckedPair (h : PyHeap) (R : Set Nat) (docs : PyDict) (x : PySlot × PySlot)
    (y : PyVal × PyVal) : Prop where
  id : HasValue h R x.1 y.1
  update : HasValue h R x.2 y.2
  valid : validateDocumentId y.1 = .ok ()
  found : Dict.contains docs y.1.toKey = true
  fields : ∃ fields, y.2 = .dict fields

/-- The first loop of `bulk_update_documents` changes nothing. -/
theorem checkUpdates_follows (rt : Runtime) (s : State) {R : Set Nat} {r : Nat} {entries : Dict PyKey PySlot} {docs : PyDict}
    {P : PyKey → PySlot → PyVal → Prop} (hc : HasValue h R c cv) (hcell : h[r]? = some (.dict entries))
    (hm : Dict.Matches P entries docs) {ts : List PySlot} {vs : List PyVal}
    (hts : List.Forall₂ (HasValue h R) ts vs) :
    EndsAlike (fun xs ys h' s' => h' = h ∧ s' = s ∧ List.Forall₂ (CheckedPair h R docs) xs ys)
      (fun h' s' => h' = h ∧ s' = s)
      (Objects.checkUpdates rt c (.ref r) ts h)
      (liftExcept (vs.mapM (checkUpdate rt cv docs)) s) := by
  induction hts with
  | nil => exact .ok ⟨rfl, rfl, .nil⟩
  | @cons t v ts vs hv _ ih =>
    rw [List.mapM_cons]
    simp only [liftExcept_bind]
    unfold Objects.checkUpdates
    rcases asPair_cases rt cv hv with ⟨a, b, av, bv, hrun, hpair, ha, hb⟩ | ⟨hrun, hvalue⟩
    · refine EndsAlike.left hrun ?_
      have hvalue : checkUpdate rt cv docs v = (do
          validateDocumentId av
          raiseIf (!Dict.contains docs av.toKey) (documentNotFound cv av)
          validateDocument rt bv
          let fields ← asDict bv
          raiseIf (Dict.contains fields ID) (validationError "bulk_update() cannot change document id")
          return (av, bv)) := by
        rcases hpair with rfl | rfl <;> rfl
      rw [hvalue]
      simp only [liftExcept_bind, bind_assoc]
      refine EndsAlike.left (valueOf_run ha) (EndsAlike.check ⟨rfl, rfl⟩ fun _ hvalid => ?_)
      refine EndsAlike.left (asDict_run hcell) (EndsAlike.left (valueOf_run hc) ?_)
      simp only [hm.contains_eq]
      refine EndsAlike.check ⟨rfl, rfl⟩ fun _ hfound => EndsAlike.left (valueOf_run hb) ?_
      refine EndsAlike.check ⟨rfl, rfl⟩ fun _ hdoc => EndsAlike.check ⟨rfl, rfl⟩ fun fields hfields => ?_
      refine EndsAlike.check ⟨rfl, rfl⟩ fun _ _ => EndsAlike.right_lift rfl ?_
      refine EndsAlike.bind ih fun xs ys h' s' _ _ hq => ?_
      obtain ⟨rfl, rfl, hq⟩ := hq
      have hin : Dict.contains docs av.toKey = true := by
        have hn : (!Dict.contains docs av.toKey) = false := raiseIf_ok.mp hfound
        simpa using hn
      exact .ok ⟨rfl, rfl, .cons ⟨ha, hb, hvalid, hin, fields, asDict_ok.mp hfields⟩ hq⟩
    · rw [hvalue docs]
      exact EndsAlike.left hrun (.error ⟨rfl, rfl⟩)

/-- The second loop of `bulk_update_documents`. -/
theorem applyUpdates_follows {h₀ : PyHeap} {own₀ : Owner PyKey} {t : PySlot}
    (hname : validateCollectionName cv = .ok ()) {docs₀ : PyDict} {xs : List (PySlot × PySlot)}
    {ys : List (PyVal × PyVal)} (hxs : List.Forall₂ (CheckedPair h₀ (free own₀) docs₀) xs ys) :
    ∀ {h : PyHeap} {own : Owner PyKey} {s : State} {collections docs : PyDict},
      During h₀ own₀ state own h s → CollectionAt state h s collections cv.toKey t docs →
        Dict.keys docs = Dict.keys docs₀ →
        EndsAlike (fun _ _ h' s' => ∃ own', During h₀ own₀ state own' h' s')
          (fun h' s' => ∃ own', During h₀ own₀ state own' h' s')
          (Objects.applyUpdates cp t xs h) (JsonDatabase.applyUpdates cp cv ys s) := by
  induction hxs with
  | nil => exact fun hd _ _ => .ok ⟨_, hd⟩
  | @cons x y xs ys hxy _ ih =>
    intro h own s collections docs hd hat hkeys
    obtain ⟨a, b⟩ := x
    obtain ⟨av, bv⟩ := y
    obtain ⟨ha, hb, hvalid, hfound, new, e⟩ := hxy
    cases e
    have hmem : av.toKey ∈ Dict.keys docs := by
      rw [hkeys]
      exact Dict.get_isSome_iff.mp hfound
    obtain ⟨w, hget⟩ := Option.isSome_iff_exists.mp (Dict.get_isSome_iff.mpr hmem)
    obtain ⟨r, entries, td, fields, rfl, hcell, htd, rfl, hdoc, -⟩ := hat.document hd.held hget
    have hvalue : JsonDatabase.getDocumentRef s cv av = .ok fields := by
      unfold JsonDatabase.getDocumentRef
      have hdocs : JsonDatabase.getCollectionRef s cv = .ok docs := by
        rw [getCollectionRef_eq hname hat.collectionsOf, hat.value]
        rfl
      refine bind_ok.mpr ⟨(), hvalid, bind_ok.mpr ⟨docs, hdocs, ?_⟩⟩
      simp only [hget]
      rfl
    refine EndsAlike.left (valueOf_run (hd.argument ha)) (EndsAlike.left (asDict_run hcell) ?_)
    refine EndsAlike.right_get (EndsAlike.right (run_lift_ok.mpr ⟨hvalue, rfl⟩) ?_)
    simp only [htd]
    refine hd.copyDict cp (hd.argument hb) ⟨own, hd⟩ fun r' h₁ hd₁ hp hv₁ => ?_
    obtain ⟨entries', td', h₂, own₂, ⟨δ, e, hδ⟩, htd', hupdate, hd₂, hat₂, -⟩ :=
      hd₁.merge (hat.append hp) hget hv₁
    cases e
    cases (getElem_append hp hcell).symm.trans hδ
    cases htd.symm.trans htd'
    refine EndsAlike.left hupdate (EndsAlike.right (hat.assignDocument (Dict.merge fields new)) ?_)
    exact ih hd₂ hat₂ ((Dict.keys_put hmem _).trans hkeys)

theorem bulkUpdateDocuments_follows (hs : IsState state own h s) (hc : HasValue h (free own) c cv)
    (hd : HasValue h (free own) d dv) :
    Mirrors state own h (Objects.bulkUpdateDocuments rt cp state c d h)
      (JsonDatabase.bulkUpdateDocuments rt cp cv dv s) := by
  have hd₀ := During.start hs
  have he : ∃ own', During h own state own' h s := ⟨own, hd₀⟩
  rcases asList_cases hd with ⟨ts, vs, rfl, hrun, hts⟩ | ⟨hno, hrun⟩
  · refine EndsAlike.left hrun (EndsAlike.right_get (hs.getCollectionRef hc he ?_))
    intro t collections docs hname hat
    obtain ⟨r, entries, kvs, rfl, hkvs, -, hcell, -, hm⟩ := owns_iff.mp (hat.part hs).1
    obtain rfl : docs = kvs := PyVal.dict.inj hkvs
    have hcheck := (checkUpdates_follows rt s hc hcell hm hts).mono
      (fun _ _ _ _ hq => hq) fun h' s' hq => show ∃ own', During h own state own' h' s' by
        obtain ⟨rfl, rfl⟩ := hq
        exact he
    refine EndsAlike.bind hcheck fun xs ys h' s' _ _ hq => ?_
    obtain ⟨rfl, rfl, hxs⟩ := hq
    refine EndsAlike.bind (applyUpdates_follows hname hxs hd₀ hat rfl) fun _ _ h₁ s₁ _ _ hq => ?_
    obtain ⟨own₁, hd₁⟩ := hq
    rw [hxs.length_eq]
    exact .ok ⟨own₁, hd₁, .atom (Atom.int _)⟩
  · have hvalue : JsonDatabase.bulkUpdateDocuments rt cp cv dv s =
        .error (validationError "bulk_update() expects a list of updates") s := by
      cases dv with
      | list vs => exact absurd rfl (hno vs)
      | _ => rfl
    rw [hvalue]
    exact EndsAlike.left hrun (.error he)

/-! ## 3. Reads -/

theorem getDocument_follows (hs : IsState state own h s) (hc : HasValue h (free own) c cv)
    (hi : HasValue h (free own) i iv) : Mirrors state own h (Objects.getDocument cp state c i h)
      (liftExcept (JsonDatabase.getDocument cp s cv iv) s) := by
  have hd₀ := During.start hs
  have he : ∃ own', During h own state own' h s := ⟨own, hd₀⟩
  unfold JsonDatabase.getDocument
  rw [liftExcept_bind]
  refine hs.getDocumentRef hc hi he fun t collections docs td fields _ _ _ hdoc _ => ?_
  exact hd₀.handOut cp hdoc he fun t' h' hd' hv' => ⟨own, hd', hv'⟩

/-- `_get_collection_ref(..., missing_ok=True).values()` changes nothing. -/
theorem documentsOrNone_follows (hs : IsState state own h s) (hc : HasValue h (free own) c cv) :
    EndsAlike (fun ts docs h' s' => h' = h ∧ s' = s ∧
        List.Forall₂ (fun t kv => HasValue h (owned own) t kv.2) ts docs)
      (fun h' s' => h' = h ∧ s' = s)
      (Objects.documentsOrNone state c h) (liftExcept (getCollectionRefOrEmpty s cv) s) := by
  refine EndsAlike.left (valueOf_run hc) ?_
  cases hvalid : validateCollectionName cv with
  | error e =>
    have hvalue : getCollectionRefOrEmpty s cv = .error e := by
      unfold getCollectionRefOrEmpty
      rw [hvalid]
      rfl
    rw [hvalue]
    exact .error ⟨rfl, rfl⟩
  | ok u =>
    obtain ⟨collections, hcoll, ⟨hget, hrun⟩ | ⟨t, docs, hat, hrun⟩⟩ := hs.findCollection cv
    · rw [getCollectionRefOrEmpty_eq hvalid hcoll, hget]
      exact EndsAlike.left rfl (EndsAlike.left hrun (.ok ⟨rfl, rfl, .nil⟩))
    · obtain ⟨r, entries, kvs, rfl, hkvs, -, hcell, -, hm⟩ := owns_iff.mp (hat.part hs).1
      obtain rfl : docs = kvs := PyVal.dict.inj hkvs
      rw [getCollectionRefOrEmpty_eq hvalid hcoll, hat.value]
      refine EndsAlike.left rfl (EndsAlike.left hrun (EndsAlike.left (asDict_run hcell) ?_))
      refine .ok ⟨rfl, rfl, List.forall₂_map_left_iff.mpr (List.Forall₂.imp (fun x y hxy => ?_) hm)⟩
      exact ((Shape.at_owned rfl).mp hxy.2).hasValue

/-- The copies are made one after the other. -/
theorem copyAll_follows {h₀ : PyHeap} {own₀ : Owner PyKey} {R : Set Nat} {ts : List PySlot}
    {docs : PyDict} : ∀ {h : PyHeap} {s : State},
      List.Forall₂ (fun t kv => HasValue h R t kv.2) ts docs → During h₀ own₀ state own h s →
        EndsAlike (fun cs vs h' s' => During h₀ own₀ state own h' s' ∧ h <+: h' ∧
            List.Forall₂ (HasValue h' (made h₀ own)) cs vs)
          (fun h' s' => During h₀ own₀ state own h' s')
          (Objects.copyAll cp ts h) (liftExcept (docs.mapM fun kv => JsonDatabase.deepcopy cp kv.2) s) := by
  induction ts generalizing docs with
  | nil =>
    intro h s hts hd
    cases hts
    exact .ok ⟨hd, List.prefix_refl h, .nil⟩
  | cons t ts ih =>
    intro h s hts hd
    cases hts with
    | @cons _ kv _ docs hv hts =>
      rw [List.mapM_cons]
      simp only [liftExcept_bind]
      unfold Objects.copyAll
      refine EndsAlike.bind (Q := fun t' v h' s' => During h₀ own₀ state own h' s' ∧ h <+: h' ∧
        HasValue h' (made h₀ own) t' v) ?_ fun t' v h₁ s₁ _ hcopied hq => ?_
      · rcases deepcopy_cases cp hv with ⟨e, hcopy, hrun⟩ | ⟨hcopy, t', h', hrun, hclone⟩
        · rw [hcopy, hrun]
          exact .error hd
        · rw [hcopy, hrun]
          obtain ⟨hd', hv'⟩ := hd.clone hv hclone
          exact .ok ⟨hd', hclone.old, hv'⟩
      · obtain ⟨hd₁, hp₁, hv₁⟩ := hq
        have hts₁ : List.Forall₂ (fun t kv => HasValue h₁ R t kv.2) ts docs :=
          hts.imp fun _ _ hx => hx.later hp₁
        refine EndsAlike.bind (ih hts₁ hd₁) fun cs vs h₂ s₂ _ _ hq₂ => ?_
        obtain ⟨hd₂, hp₂, hcs⟩ := hq₂
        exact .ok ⟨hd₂, hp₁.trans hp₂, .cons (hv₁.later hp₂) hcs⟩

/-- `all_documents`, before the list is made. -/
theorem allCopies_follows (hs : IsState state own h s) (hc : HasValue h (free own) c cv) :
    EndsAlike (fun cs vs h' s' => During h own state own h' s' ∧
        List.Forall₂ (HasValue h' (made h own)) cs vs)
      (fun h' s' => During h own state own h' s')
      (Objects.allCopies cp state c h) (liftExcept (JsonDatabase.allDocuments cp s cv) s) := by
  unfold Objects.allCopies JsonDatabase.allDocuments
  rw [liftExcept_bind]
  have hd₀ := During.start hs
  have hfind := (documentsOrNone_follows hs hc).mono (fun _ _ _ _ hq => hq)
    fun h' s' hq => show During h own state own h' s' by
      obtain ⟨rfl, rfl⟩ := hq
      exact hd₀
  refine EndsAlike.bind hfind fun ts docs h' s' _ _ hq => ?_
  obtain ⟨rfl, rfl, hts⟩ := hq
  exact (copyAll_follows hts hd₀).mono (fun _ _ _ _ hq => ⟨hq.1, hq.2.2⟩) fun _ _ hq => hq

theorem allDocuments_follows (hs : IsState state own h s) (hc : HasValue h (free own) c cv) :
    Mirrors state own h (Objects.allDocuments cp state c h)
      ((liftExcept (JsonDatabase.allDocuments cp s cv) >>= fun vs => pure (.list vs) : Op PyVal) s) := by
  refine EndsAlike.bind ((allCopies_follows hs hc).mono (fun _ _ _ _ hq => hq) fun _ _ hq => ⟨own, hq⟩)
    fun cs vs h₁ s₁ _ _ hq => ?_
  obtain ⟨hd₁, hcs⟩ := hq
  obtain ⟨h₂, halloc, hd₂, hv₂⟩ := hd₁.allocList hcs
  rw [halloc]
  exact .ok ⟨own, hd₂, hv₂⟩

/-- The documents that match are the same. -/
theorem selectDocuments_follows {R : Set Nat} (criteria : PyVal) {cs : List PySlot} {vs : List PyVal}
    (hcs : List.Forall₂ (HasValue h R) cs vs) :
    EndsAlike (fun xs ys h' s' => h' = h ∧ s' = s ∧ List.Forall₂ (HasValue h R) xs ys)
      (fun h' s' => h' = h ∧ s' = s) (Objects.selectDocuments criteria cs h)
      (liftExcept (JsonDatabase.selectDocuments criteria vs) s) := by
  induction hcs with
  | nil => exact .ok ⟨rfl, rfl, .nil⟩
  | @cons t v cs vs hv _ ih =>
    unfold Objects.selectDocuments JsonDatabase.selectDocuments
    simp only [liftExcept_bind]
    refine EndsAlike.left (valueOf_run hv) (EndsAlike.check ⟨rfl, rfl⟩ fun ok _ => ?_)
    refine EndsAlike.bind ih fun xs ys h' s' _ _ hq => ?_
    obtain ⟨rfl, rfl, hq⟩ := hq
    cases ok with
    | true => exact .ok ⟨rfl, rfl, .cons hv hq⟩
    | false => exact .ok ⟨rfl, rfl, hq⟩

theorem findDocuments_follows (hs : IsState state own h s) (hc : HasValue h (free own) c cv)
    (hd : HasValue h (free own) d dv) : Mirrors state own h (Objects.findDocuments cp state c d h)
      ((liftExcept (JsonDatabase.findDocuments cp s cv dv) >>= fun vs => pure (.list vs) : Op PyVal) s) := by
  unfold Objects.findDocuments JsonDatabase.findDocuments filterDocuments
  simp only [liftExcept_bind, bind_assoc]
  refine EndsAlike.bind ((allCopies_follows hs hc).mono (fun _ _ _ _ hq => hq) fun _ _ hq => ⟨own, hq⟩)
    fun cs vs h₁ s₁ _ _ hq => ?_
  obtain ⟨hd₁, hcs⟩ := hq
  have he₁ : ∃ own', During h own state own' h₁ s₁ := ⟨own, hd₁⟩
  refine EndsAlike.left (valueOf_run (hd₁.argument hd)) (EndsAlike.check he₁ fun _ _ => ?_)
  have hselect := (selectDocuments_follows (s := s₁) dv hcs).mono (fun _ _ _ _ hq => hq)
    fun h' s' hq => show ∃ own', During h own state own' h' s' by
      obtain ⟨rfl, rfl⟩ := hq
      exact he₁
  refine EndsAlike.bind hselect fun xs ys h' s' _ _ hq => ?_
  obtain ⟨rfl, rfl, hxs⟩ := hq
  obtain ⟨h₂, halloc, hd₂, hv₂⟩ := hd₁.allocList hxs
  rw [halloc]
  exact .ok ⟨own, hd₂, hv₂⟩

/-! ## 4. Any call -/

/-- **One call**: on objects it ends as it does on values. -/
theorem Request.follows (rt : Runtime) (cp : Copier) {request : Request PySlot} {values : Request PyObj} (hs : IsState state own h s)
    (hr : request.Rel (fun t o => HasValue h (free own) t o.val) values) :
    Mirrors state own h (request.perform rt cp state h) (values.run rt cp s) := by
  have hd₀ := During.start hs
  cases hr with
  | insert hc hd => exact insertDocument_follows hs hc hd (PyObj.wf _) _
  | update hc hi hd => exact updateDocument_follows hs hc hi hd
  | replace hc hi hd => exact replaceDocument_follows hs hc hi hd (PyObj.wf _)
  | delete hc hi => exact deleteDocument_follows hs hc hi
  | upsert hc hi hd => exact upsertDocument_follows hs hc hi hd (PyObj.wf _)
  | bulkInsert hc hd => exact bulkInsertDocuments_follows hs hc hd (PyObj.wf _) _
  | bulkUpdate hc hd => exact bulkUpdateDocuments_follows hs hc hd
  | get hc hi => exact EndsAlike.right_get (getDocument_follows hs hc hi)
  | all hc => exact EndsAlike.right_get (allDocuments_follows hs hc)
  | find hc hd => exact EndsAlike.right_get (findDocuments_follows hs hc hd)
  | state =>
    refine EndsAlike.right_get (hd₀.handOut cp hs.tree.hasValue ⟨own, hd₀⟩ ?_)
    exact fun t' h' hd' hv' => ⟨own, hd', hv'⟩

end

end JsonDatabase
