/-
  File:      JsonDatabase/Basis/Heap.lean
  Subject:   Objects that refer to each other, and the values they have.

  A place holds an atom or a reference; an object is a dictionary or a sequence of places. Objects
  may be shared and may contain themselves; one that does has no value. Dictionaries can be changed,
  and so can sequences, unless their kind is frozen.

  * `Slot`, `Cell`, `Heap` -- places, objects, and all objects there are;
  * `Reaches` -- what can be got at from a place;
  * `denote`, `valueOf` -- the value of a place, read to some depth and read in full;
  * `HasValue h R s v` -- `s` has the value `v`, and whatever can be changed in it is in `R`, with the
    frame rule: changes outside `R` do not matter.
-/
import JsonDatabase.Basis.Dict
import Mathlib.Data.Set.Basic
import Mathlib.Data.Fintype.Card
import Mathlib.Order.Basic

namespace JsonDatabase

/-! ## 1. Dictionaries that match key by key -/

namespace Dict

variable {κ α β : Type}

/-- The same keys in the same order, with related values. -/
def Matches (P : κ → α → β → Prop) (d : Dict κ α) (e : Dict κ β) : Prop :=
  List.Forall₂ (fun a b => a.1 = b.1 ∧ P a.1 a.2 b.2) d e

namespace Matches

variable {P Q : κ → α → β → Prop} {d d' : Dict κ α} {e e' : Dict κ β}

theorem nil : Matches P ([] : Dict κ α) ([] : Dict κ β) := List.Forall₂.nil

theorem cons {k : κ} {a : α} {b : β} (h : P k a b) (hs : Matches P d e) :
    Matches P ((k, a) :: d) ((k, b) :: e) := List.Forall₂.cons ⟨rfl, h⟩ hs

theorem keys_eq (h : Matches P d e) : keys d = keys e := by
  induction h with
  | nil => rfl
  | cons hab _ ih =>
    unfold keys at ih ⊢
    rw [List.map_cons, List.map_cons, hab.1, ih]

theorem distinct (h : Matches P d e) : Distinct d ↔ Distinct e := by
  unfold Distinct
  rw [h.keys_eq]

theorem imp_mem (h : Matches P d e) (hpq : ∀ k a b, (k, a) ∈ d → (k, b) ∈ e → P k a b → Q k a b) :
    Matches Q d e := by
  induction h with
  | nil => exact nil
  | @cons x y d e hab hs ih =>
    obtain ⟨k, a⟩ := x
    obtain ⟨k', b⟩ := y
    obtain ⟨rfl, hp⟩ := hab
    exact cons (hpq k a b List.mem_cons_self List.mem_cons_self hp) (ih fun k a b ha hb =>
      hpq k a b (List.mem_cons_of_mem _ ha) (List.mem_cons_of_mem _ hb))

theorem imp (h : Matches P d e) (hpq : ∀ k a b, P k a b → Q k a b) : Matches Q d e :=
  h.imp_mem fun k a b _ _ => hpq k a b

theorem mem (h : Matches P d e) {k : κ} {a : α} (hm : (k, a) ∈ d) : ∃ b, (k, b) ∈ e ∧ P k a b := by
  induction h with
  | nil => cases hm
  | @cons x y d e hab hs ih =>
    obtain ⟨k', b⟩ := y
    rcases List.mem_cons.mp hm with rfl | hm
    · obtain ⟨rfl, hp⟩ := hab
      exact ⟨b, List.mem_cons_self, hp⟩
    · obtain ⟨b', hb', hp⟩ := ih hm
      exact ⟨b', List.mem_cons_of_mem _ hb', hp⟩

variable [DecidableEq κ]

/-- A key is found in both or in neither. -/
theorem get (h : Matches P d e) (k : κ) : (Dict.get d k = none ∧ Dict.get e k = none) ∨
    ∃ a b, Dict.get d k = some a ∧ Dict.get e k = some b ∧ P k a b := by
  induction h with
  | nil => exact Or.inl ⟨rfl, rfl⟩
  | @cons x y d e hab hs ih =>
    obtain ⟨k₀, a⟩ := x
    obtain ⟨k₁, b⟩ := y
    obtain ⟨rfl, hp⟩ := hab
    rw [get_cons, get_cons]
    by_cases hk : k₀ = k
    · subst hk
      exact Or.inr ⟨a, b, if_pos rfl, if_pos rfl, hp⟩
    · rw [if_neg hk, if_neg hk]
      exact ih

theorem get_some (h : Matches P d e) {k : κ} {b : β} (hb : Dict.get e k = some b) :
    ∃ a, Dict.get d k = some a ∧ P k a b := by
  rcases h.get k with ⟨-, hn⟩ | ⟨a, b', ha, hb', hp⟩
  · cases hn.symm.trans hb
  · cases hb'.symm.trans hb
    exact ⟨a, ha, hp⟩

theorem get_none (h : Matches P d e) {k : κ} (hb : Dict.get e k = none) : Dict.get d k = none := by
  rcases h.get k with ⟨hn, -⟩ | ⟨a, b', -, hb', -⟩
  · exact hn
  · cases hb'.symm.trans hb

theorem contains_eq (h : Matches P d e) (k : κ) : Dict.contains d k = Dict.contains e k := by
  unfold Dict.contains
  rcases h.get k with ⟨hd, he⟩ | ⟨a, b, hd, he, -⟩
  · rw [hd, he]
    rfl
  · rw [hd, he]
    rfl

theorem put (h : Matches P d e) {k : κ} {a : α} {b : β} (hp : P k a b) :
    Matches P (Dict.put d k a) (Dict.put e k b) := by
  induction h with
  | nil => exact cons hp nil
  | @cons x y d e hab hs ih =>
    obtain ⟨k₀, a₀⟩ := x
    obtain ⟨k₁, b₀⟩ := y
    obtain ⟨rfl, hp₀⟩ := hab
    unfold Dict.put
    by_cases hk : k₀ = k
    · subst hk
      rw [if_pos rfl, if_pos rfl]
      exact cons hp hs
    · simp only [if_neg hk]
      exact cons hp₀ ih

theorem drop (h : Matches P d e) (k : κ) : Matches P (Dict.drop d k) (Dict.drop e k) := by
  induction h with
  | nil => exact nil
  | @cons x y d e hab hs ih =>
    obtain ⟨k₀, a₀⟩ := x
    obtain ⟨k₁, b₀⟩ := y
    obtain ⟨rfl, hp₀⟩ := hab
    unfold Dict.drop
    by_cases hk : k₀ = k
    · subst hk
      simp only [if_true]
      exact hs
    · simp only [if_neg hk]
      exact cons hp₀ ih

theorem merge (h : Matches P d e) (h' : Matches P d' e') :
    Matches P (Dict.merge d d') (Dict.merge e e') := by
  induction h' generalizing d e with
  | nil => exact h
  | @cons x y d' e' hab hs ih =>
    obtain ⟨k, a⟩ := x
    obtain ⟨k', b⟩ := y
    obtain ⟨rfl, hp⟩ := hab
    exact ih (h.put hp)

/-- Other values under one key: elsewhere the relation may be exchanged. -/
theorem put_right (h : Matches P d e) (hd : Distinct e) {k : κ} {a : α} {b : β}
    (ha : Dict.get d k = some a) (hpq : ∀ k' a b, k' ≠ k → P k' a b → Q k' a b) (hq : Q k a b) :
    Matches Q d (Dict.put e k b) := by
  induction h with
  | nil => cases ha
  | @cons x y d e hab hs ih =>
    obtain ⟨k₀, a₀⟩ := x
    obtain ⟨k₁, b₀⟩ := y
    obtain ⟨rfl, hp₀⟩ := hab
    obtain ⟨hfresh, hd⟩ := distinct_cons.mp hd
    rw [get_cons] at ha
    unfold Dict.put
    by_cases hk : k₀ = k
    · subst hk
      rw [if_pos rfl] at ha ⊢
      cases ha
      refine cons hq (Matches.imp_mem hs fun k' a' b' _ hb' hp' => hpq k' a' b' ?_ hp')
      rintro rfl
      exact hfresh (mem_keys_of_mem hb')
    · rw [if_neg hk] at ha
      simp only [if_neg hk]
      exact cons (hpq _ _ _ hk hp₀) (ih hd ha)

end Matches

end Dict

/-! ## 2. Objects -/

/-- What a variable or a place in an object holds. -/
inductive Slot (α : Type) where
  | atom (a : α)
  | ref (r : Nat)
  deriving DecidableEq

def Slot.map {α : Type} (f : Nat → Nat) : Slot α → Slot α
  | .atom a => .atom a
  | .ref r => .ref (f r)

/-- An object, with what its places hold. -/
inductive Cell (κ τ β : Type) where
  | dict (entries : Dict κ β)
  | items (kind : τ) (members : List β)
  deriving DecidableEq

/-- The kinds of sequences. Those that are frozen cannot be changed; of those that are reused no copy
    is made if nothing inside had to be copied. -/
class SeqKind (τ : Type) where
  frozen : τ → Bool
  reused : τ → Bool

/-- How values are put together, without confusion, from atoms and from the values that the places
    of an object have. -/
class Denoting (κ τ α : outParam Type) (V : Type) where
  leaf : α → V
  build : Cell κ τ V → V
  build_injective : Function.Injective build
  leaf_ne_build : ∀ a c, leaf a ≠ build c

namespace Cell

variable {κ τ α β γ : Type}

/-- What the places hold. -/
def slots : Cell κ τ β → List β
  | .dict entries => entries.map (·.2)
  | .items _ members => members

def map (f : β → γ) : Cell κ τ β → Cell κ τ γ
  | .dict entries => .dict (entries.map fun kv => (kv.1, f kv.2))
  | .items kind members => .items kind (members.map f)

/-- Both have the same places, and they hold related things. -/
def Rel (P : β → γ → Prop) : Cell κ τ β → Cell κ τ γ → Prop
  | .dict d, .dict e => Dict.Matches (fun _ => P) d e
  | .items k xs, .items k' ys => k = k' ∧ List.Forall₂ P xs ys
  | _, _ => False

theorem rel_map {δ : Type} {P : γ → δ → Prop} {f : β → γ} {c : Cell κ τ β} {d : Cell κ τ δ} :
    Rel P (c.map f) d ↔ Rel (fun x y => P (f x) y) c d := by
  cases c with
  | dict entries =>
    cases d with
    | dict es => exact List.forall₂_map_left_iff
    | items kind ys => exact Iff.rfl
  | items kind members =>
    cases d with
    | dict es => exact Iff.rfl
    | items kind' ys => exact and_congr_right' List.forall₂_map_left_iff

/-- Replace what every place holds, if that is possible everywhere. -/
def traverse (f : β → Option γ) : Cell κ τ β → Option (Cell κ τ γ)
  | .dict entries => (entries.mapM fun kv => (f kv.2).map fun v => (kv.1, v)).map .dict
  | .items kind members => (members.mapM f).map (.items kind)

def frozen [SeqKind τ] : Cell κ τ β → Bool
  | .dict _ => false
  | .items kind _ => SeqKind.frozen kind

@[simp] theorem frozen_map [SeqKind τ] (f : β → γ) (c : Cell κ τ β) : (c.map f).frozen = c.frozen := by
  cases c <;> rfl

@[simp] theorem slots_map (f : β → γ) (c : Cell κ τ β) : (c.map f).slots = c.slots.map f := by
  cases c with
  | dict entries => simp [map, slots]
  | items kind members => rfl

theorem mem_slots_dict {entries : Dict κ β} {k : κ} {s : β} (h : (k, s) ∈ entries) :
    s ∈ (Cell.dict entries : Cell κ τ β).slots := List.mem_map.mpr ⟨(k, s), h, rfl⟩

theorem mapM_some {f : β → Option γ} : ∀ {xs : List β} {ys : List γ},
    xs.mapM f = some ys ↔ List.Forall₂ (fun x y => f x = some y) xs ys
  | [], ys => by
      rw [List.mapM_nil]
      constructor
      · intro h
        cases h
        exact .nil
      · intro h
        cases h
        rfl
  | x :: xs, ys => by
      rw [List.mapM_cons]
      constructor
      · intro h
        obtain ⟨y, hy, h⟩ := Option.bind_eq_some_iff.mp h
        obtain ⟨ys', hys, h⟩ := Option.bind_eq_some_iff.mp h
        cases h
        exact .cons hy (mapM_some.mp hys)
      · intro h
        cases h with
        | cons hy hys =>
          exact Option.bind_eq_some_iff.mpr ⟨_, hy,
            Option.bind_eq_some_iff.mpr ⟨_, mapM_some.mpr hys, rfl⟩⟩

theorem traverse_iff {f : β → Option γ} {c : Cell κ τ β} {d : Cell κ τ γ} :
    c.traverse f = some d ↔ Rel (fun x y => f x = some y) c d := by
  cases c with
  | dict entries =>
    unfold traverse
    rw [Option.map_eq_some_iff]
    have hpair (kv : κ × β) (kw : κ × γ) : ((f kv.2).map fun v => (kv.1, v)) = some kw ↔
        kv.1 = kw.1 ∧ f kv.2 = some kw.2 := by
      rw [Option.map_eq_some_iff]
      constructor
      · intro h
        obtain ⟨v, hv, rfl⟩ := h
        exact ⟨rfl, hv⟩
      · intro h
        exact ⟨kw.2, h.2, Prod.ext h.1 rfl⟩
    constructor
    · intro h
      obtain ⟨es, hes, rfl⟩ := h
      exact (mapM_some.mp hes).imp fun kv kw h => (hpair kv kw).mp h
    · intro h
      cases d with
      | dict es => exact ⟨es, mapM_some.mpr (List.Forall₂.imp (fun kv kw h => (hpair kv kw).mpr h) h), rfl⟩
      | items kind ys => exact h.elim
  | items kind members =>
    unfold traverse
    rw [Option.map_eq_some_iff]
    constructor
    · intro h
      obtain ⟨ys, hys, rfl⟩ := h
      exact ⟨rfl, mapM_some.mp hys⟩
    · intro h
      cases d with
      | dict es => exact h.elim
      | items kind' ys =>
        obtain ⟨rfl, hys⟩ := h
        exact ⟨ys, mapM_some.mpr hys, rfl⟩

section Rel

variable {P Q : β → γ → Prop} {c : Cell κ τ β} {d : Cell κ τ γ}

theorem Rel.imp_mem (h : Rel P c d) (hpq : ∀ x ∈ c.slots, ∀ y, P x y → Q x y) : Rel Q c d := by
  cases c with
  | dict entries =>
    cases d with
    | dict es =>
      have h : Dict.Matches (fun _ => P) entries es := h
      exact h.imp_mem fun k a b ha _ hp => hpq a (mem_slots_dict ha) b hp
    | items kind ys => exact h.elim
  | items kind members =>
    cases d with
    | dict es => exact h.elim
    | items kind' ys =>
      obtain ⟨rfl, h⟩ := h
      refine ⟨rfl, ?_⟩
      have hall : ∀ x ∈ members, ∀ y, P x y → Q x y := hpq
      clear hpq
      induction h with
      | nil => exact .nil
      | cons hp _ ih =>
        obtain ⟨hx, hxs⟩ := List.forall_mem_cons.mp hall
        exact .cons (hx _ hp) (ih hxs)

theorem Rel.imp (h : Rel P c d) (hpq : ∀ x y, P x y → Q x y) : Rel Q c d :=
  h.imp_mem fun x _ y => hpq x y

theorem Rel.exists (h : Rel P c d) {x : β} (hx : x ∈ c.slots) : ∃ y, P x y := by
  cases c with
  | dict entries =>
    cases d with
    | dict es =>
      have h : Dict.Matches (fun _ => P) entries es := h
      obtain ⟨kv, hkv, rfl⟩ := List.mem_map.mp hx
      obtain ⟨b, -, hp⟩ := h.mem (k := kv.1) hkv
      exact ⟨b, hp⟩
    | items kind ys => exact h.elim
  | items kind members =>
    cases d with
    | dict es => exact h.elim
    | items kind' ys =>
      obtain ⟨rfl, h⟩ := h
      induction h with
      | nil => cases hx
      | cons hp _ ih =>
        rcases List.mem_cons.mp hx with rfl | hx
        · exact ⟨_, hp⟩
        · exact ih hx

theorem Rel.flip (h : Rel P c d) : Rel (fun y x => P x y) d c := by
  cases c with
  | dict entries =>
    cases d with
    | dict es =>
      have h : List.Forall₂ (fun a b => a.1 = b.1 ∧ P a.2 b.2) entries es := h
      exact h.flip.imp fun _ _ hp => ⟨hp.1.symm, hp.2⟩
    | items kind ys => exact h.elim
  | items kind members =>
    cases d with
    | dict es => exact h.elim
    | items kind' ys => exact ⟨h.1.symm, h.2.flip⟩

/-- Places whose contents the relation determines. -/
theorem Rel.map_eq {f : γ → β} (h : Rel P c d) (hf : ∀ x y, P x y → f y = x) : d.map f = c := by
  cases c with
  | dict entries =>
    cases d with
    | dict es =>
      have h : List.Forall₂ (fun a b => a.1 = b.1 ∧ P a.2 b.2) entries es := h
      refine congrArg Cell.dict (List.forall₂_eq_eq_eq ▸ (List.forall₂_map_left_iff.mpr ?_))
      exact h.flip.imp fun kw kv hp => Prod.ext hp.1.symm (hf _ _ hp.2)
    | items kind ys => exact h.elim
  | items kind members =>
    cases d with
    | dict es => exact h.elim
    | items kind' ys =>
      obtain ⟨rfl, h⟩ := h
      refine congrArg (Cell.items kind) (List.forall₂_eq_eq_eq ▸ (List.forall₂_map_left_iff.mpr ?_))
      exact h.flip.imp fun _ _ hp => hf _ _ hp

theorem map_id {f : β → β} {c : Cell κ τ β} (h : ∀ x ∈ c.slots, f x = x) : c.map f = c := by
  cases c with
  | dict entries =>
    refine congrArg Cell.dict ((List.map_congr_left fun kv hkv => ?_).trans (List.map_id entries))
    exact Prod.ext rfl (h kv.2 (mem_slots_dict hkv))
  | items kind members =>
    exact congrArg (Cell.items kind) ((List.map_congr_left h).trans (List.map_id members))

theorem Rel.self {P : β → β → Prop} {c : Cell κ τ β} (h : Rel P c c) : ∀ x ∈ c.slots, P x x := by
  cases c with
  | dict entries =>
    have h : List.Forall₂ (fun a b => a.1 = b.1 ∧ P a.2 b.2) entries entries := h
    intro x hx
    obtain ⟨kv, hkv, rfl⟩ := List.mem_map.mp hx
    exact (List.forall₂_same.mp h kv hkv).2
  | items kind members => exact List.forall₂_same.mp h.2

/-- What is put together place by place. -/
theorem exists_rel {c : Cell κ τ β} (h : ∀ x ∈ c.slots, ∃ y : γ, P x y) : ∃ d, Rel P c d := by
  have hlist : ∀ xs : List β, (∀ x ∈ xs, ∃ y : γ, P x y) → ∃ ys, List.Forall₂ P xs ys := by
    intro xs
    induction xs with
    | nil => exact fun _ => ⟨[], .nil⟩
    | cons x xs ih =>
      intro hall
      obtain ⟨⟨y, hy⟩, hxs⟩ := List.forall_mem_cons.mp hall
      obtain ⟨ys, hys⟩ := ih hxs
      exact ⟨y :: ys, .cons hy hys⟩
  cases c with
  | dict entries =>
    induction entries with
    | nil => exact ⟨.dict [], Dict.Matches.nil (P := fun _ => P)⟩
    | cons kv entries ih =>
      obtain ⟨⟨y, hy⟩, hes⟩ := List.forall_mem_cons.mp h
      obtain ⟨d, hd⟩ := ih hes
      cases d with
      | dict es =>
        have hd : Dict.Matches (fun _ => P) entries es := hd
        exact ⟨.dict ((kv.1, y) :: es), Dict.Matches.cons hy hd⟩
      | items kind ys => exact hd.elim
  | items kind members =>
    obtain ⟨ys, hys⟩ := hlist members h
    exact ⟨.items kind ys, rfl, hys⟩

end Rel

end Cell

/-! ## 3. What can be reached, and what it is worth -/

/-- All objects there are; an object is named by its place in the list. -/
abbrev Heap (κ τ α : Type) := List (Cell κ τ (Slot α))

namespace Heap

variable {κ τ α V : Type} {h h' : Heap κ τ α} {r : Nat} {s t : Slot α}

/-- From what `s` holds, `t` can be got at by looking into objects. -/
inductive Reaches (h : Heap κ τ α) (s : Slot α) : Slot α → Prop
  | refl : Reaches h s s
  | inside {r : Nat} {c : Cell κ τ (Slot α)} {t : Slot α} : Reaches h s (.ref r) → h[r]? = some c →
      t ∈ c.slots → Reaches h s t

theorem Reaches.trans {u : Slot α} (h₁ : Reaches h s t) (h₂ : Reaches h t u) : Reaches h s u := by
  induction h₂ with
  | refl => exact h₁
  | inside _ hc ht ih => exact ih.inside hc ht

/-- Anything reached is the place itself, or is reached from inside its object. -/
theorem Reaches.cases_head (hr : Reaches h (.ref r) t) : t = .ref r ∨
    ∃ c u, h[r]? = some c ∧ u ∈ c.slots ∧ Reaches h u t := by
  induction hr with
  | refl => exact Or.inl rfl
  | @inside r' c t _ hc ht ih =>
    rcases ih with e | ⟨c', u, hc', hu, hr'⟩
    · cases e
      exact Or.inr ⟨c, t, hc, ht, .refl⟩
    · exact Or.inr ⟨c', u, hc', hu, hr'.inside hc ht⟩

theorem Reaches.atom {a : α} (hr : Reaches h (.atom a) t) : t = .atom a := by
  induction hr with
  | refl => rfl
  | inside _ _ _ ih => cases ih

section Denote

variable [Denoting κ τ α V]

/-- The value of a place, looking at most `n` objects deep. -/
def denote (h : Heap κ τ α) : Nat → Slot α → Option V
  | _, .atom a => some (Denoting.leaf a)
  | 0, .ref _ => none
  | n + 1, .ref r =>
    match h[r]? with
    | none => none
    | some c => (c.traverse (denote h n)).map Denoting.build

/-- The value of a place; an object that contains itself has none. -/
def valueOf (h : Heap κ τ α) (s : Slot α) : Option V := denote h h.length s

@[simp] theorem denote_atom (n : Nat) (a : α) :
    denote h n (.atom a) = some (Denoting.leaf a : V) := by
  cases n <;> rfl

theorem denote_succ {n : Nat} {v : V} : denote h (n + 1) (.ref r) = some v ↔
    ∃ c d, h[r]? = some c ∧ Cell.Rel (fun s w => denote h n s = some w) c d ∧ Denoting.build d = v := by
  show (match h[r]? with
    | none => none
    | some c => (c.traverse (denote h n)).map Denoting.build) = some v ↔ _
  cases hc : h[r]? with
  | none =>
    refine ⟨nofun, fun hd => ?_⟩
    obtain ⟨c, d, hc', -⟩ := hd
    cases hc'
  | some c =>
    simp only [Option.map_eq_some_iff, Cell.traverse_iff]
    constructor
    · intro hd
      obtain ⟨d, hd, hb⟩ := hd
      exact ⟨c, d, rfl, hd, hb⟩
    · intro hd
      obtain ⟨c', d, hc', hd, hb⟩ := hd
      cases hc'
      exact ⟨d, hd, hb⟩

theorem denote_mono {n m : Nat} {v : V} (hd : denote h n s = some v) (hm : n ≤ m) :
    denote h m s = some v := by
  induction n generalizing s v m with
  | zero =>
    cases s with
    | atom a => rwa [denote_atom] at hd ⊢
    | ref r => cases hd
  | succ n ih =>
    cases s with
    | atom a => rwa [denote_atom] at hd ⊢
    | ref r =>
      obtain ⟨m, rfl⟩ : ∃ m', m = m' + 1 := ⟨m - 1, by omega⟩
      obtain ⟨c, d, hc, hd, hb⟩ := denote_succ.mp hd
      exact denote_succ.mpr ⟨c, d, hc, hd.imp fun x w hx => ih hx (by omega), hb⟩

theorem denote_unique {n m : Nat} {v w : V} (h₁ : denote h n s = some v) (h₂ : denote h m s = some w) :
    v = w := by
  have h₁ := denote_mono h₁ (Nat.le_max_left n m)
  have h₂ := denote_mono h₂ (Nat.le_max_right n m)
  exact Option.some.inj (h₁.symm.trans h₂)

/-- What can be reached from a place with a value has a value, read no deeper. -/
theorem Reaches.denotes {n : Nat} {v : V} (hr : Reaches h s t) (hd : denote h n s = some v) :
    ∃ w : V, denote h n t = some w := by
  induction hr with
  | refl => exact ⟨v, hd⟩
  | @inside r c t _ hc ht ih =>
    obtain ⟨w, hw⟩ := ih
    cases n with
    | zero => cases hw
    | succ n =>
      obtain ⟨c', d, hc', hrel, -⟩ := denote_succ.mp hw
      cases hc.symm.trans hc'
      obtain ⟨w', hw'⟩ := hrel.exists ht
      exact ⟨w', denote_mono hw' (Nat.le_succ n)⟩

variable (V) in
/-- `n` is the least depth to which the object has to be read. -/
def Rank (h : Heap κ τ α) (n r : Nat) : Prop :=
  (∃ v : V, denote h n (.ref r) = some v) ∧ ∀ m < n, (denote h m (.ref r) : Option V) = none

theorem exists_rank {n : Nat} {v : V} (hd : denote h n (.ref r) = some v) : ∃ k ≤ n, Rank V h k r := by
  induction n using Nat.strong_induction_on generalizing v with
  | _ n ih =>
    by_cases hm : ∃ m < n, (denote h m (.ref r) : Option V) ≠ none
    · obtain ⟨m, hlt, hm⟩ := hm
      obtain ⟨w, hw⟩ := Option.ne_none_iff_exists'.mp hm
      obtain ⟨k, hk, hrank⟩ := ih m hlt hw
      exact ⟨k, hk.trans hlt.le, hrank⟩
    · refine ⟨n, le_rfl, ⟨v, hd⟩, fun m hlt => ?_⟩
      by_contra hne
      exact hm ⟨m, hlt, hne⟩

theorem Rank.unique {n m : Nat} (h₁ : Rank V h n r) (h₂ : Rank V h m r) : n = m := by
  obtain ⟨v, hv⟩ := h₁.1
  obtain ⟨w, hw⟩ := h₂.1
  rcases lt_trichotomy n m with hlt | rfl | hlt
  · cases hv.symm.trans (h₂.2 n hlt)
  · rfl
  · cases hw.symm.trans (h₁.2 m hlt)

theorem Rank.lt_length {n : Nat} (hr : Rank V h n r) : r < h.length := by
  obtain ⟨v, hv⟩ := hr.1
  cases n with
  | zero => cases hv
  | succ n =>
    obtain ⟨c, d, hc, -⟩ := denote_succ.mp hv
    exact (List.getElem?_eq_some_iff.mp hc).1

/-- An object read `n + 2` deep contains one that is read `n + 1` deep. -/
theorem Rank.pred {n : Nat} (hr : Rank V h (n + 2) r) : ∃ r', Rank V h (n + 1) r' := by
  obtain ⟨⟨v, hv⟩, hmin⟩ := hr
  obtain ⟨c, d, hc, hrel, hb⟩ := denote_succ.mp hv
  by_cases hall : ∀ s ∈ c.slots, ∃ w : V, denote h n s = some w
  · obtain ⟨d', hd'⟩ := Cell.exists_rel hall
    have hsome := denote_succ.mpr ⟨c, d', hc, hd', rfl⟩
    cases hsome.symm.trans (hmin (n + 1) (Nat.lt_succ_self _))
  · obtain ⟨s, hs, hnone⟩ : ∃ s, s ∈ c.slots ∧ ¬ ∃ w : V, denote h n s = some w := by
      by_contra hno
      exact hall fun s hs => Classical.byContradiction fun hn => hno ⟨s, hs, hn⟩
    obtain ⟨w, hw⟩ := hrel.exists hs
    cases s with
    | atom a => exact absurd ⟨_, denote_atom n a⟩ hnone
    | ref r' =>
      refine ⟨r', ⟨w, hw⟩, fun m hm => ?_⟩
      by_contra hne
      obtain ⟨u, hu⟩ := Option.ne_none_iff_exists'.mp hne
      exact hnone ⟨u, denote_mono hu (Nat.le_of_lt_succ hm)⟩

theorem Rank.below {n : Nat} : ∀ {r : Nat}, Rank V h (n + 1) r →
    ∀ k < n + 1, ∃ r', Rank V h (k + 1) r' := by
  induction n with
  | zero =>
    intro r hr k hk
    obtain rfl : k = 0 := by omega
    exact ⟨r, hr⟩
  | succ n ih =>
    intro r hr k hk
    by_cases hkn : k = n + 1
    · subst hkn
      exact ⟨r, hr⟩
    · obtain ⟨r', hr'⟩ := hr.pred
      exact ih hr' k (by omega)

/-- The objects of the ranks up to `n` differ, so there are `n` of them. -/
theorem Rank.le_length {n : Nat} (hr : Rank V h n r) : n ≤ h.length := by
  cases n with
  | zero => exact Nat.zero_le _
  | succ n =>
    choose f hf using hr.below
    have hinj : Function.Injective fun k : Fin (n + 1) =>
        (⟨f k k.2, (hf k k.2).lt_length⟩ : Fin h.length) := by
      intro j k e
      have he : f j j.2 = f k k.2 := congrArg Fin.val e
      have hj := hf j j.2
      rw [he] at hj
      have := hj.unique (hf k k.2)
      exact Fin.ext (by omega)
    simpa using Fintype.card_le_of_injective _ hinj

/-- **A place that has a value has one when it is read as deep as there are objects.** -/
theorem denote_valueOf {n : Nat} {v : V} (hd : denote h n s = some v) : valueOf h s = some v := by
  cases s with
  | atom a =>
    rw [denote_atom] at hd
    exact (denote_atom _ a).trans hd
  | ref r =>
    obtain ⟨k, hk, hrank⟩ := exists_rank hd
    obtain ⟨w, hw⟩ := hrank.1
    have hv := denote_mono hw hrank.le_length
    rw [denote_unique hd hw]
    exact hv

/-- An object with a value is not reached from inside itself. -/
theorem not_reaches_self {n : Nat} {v : V} {c : Cell κ τ (Slot α)} (hd : denote h n (.ref r) = some v)
    (hc : h[r]? = some c) (ht : t ∈ c.slots) : ¬ Reaches h t (.ref r) := by
  intro hr
  obtain ⟨k, -, hrank⟩ := exists_rank hd
  obtain ⟨w, hw⟩ := hrank.1
  cases k with
  | zero => cases hw
  | succ k =>
    obtain ⟨c', d, hc', hrel, -⟩ := denote_succ.mp hw
    cases hc.symm.trans hc'
    obtain ⟨u, hu⟩ := hrel.exists ht
    obtain ⟨u', hu'⟩ := hr.denotes hu
    cases hu'.symm.trans (hrank.2 k (Nat.lt_succ_self k))

end Denote

/-! ## 4. Values within a region -/

section Regions

variable [SeqKind τ] {R S : Set Nat}

/-- Everything that is reached exists, and what can be changed is in `R`. -/
def Inside (h : Heap κ τ α) (R : Set Nat) (s : Slot α) : Prop :=
  ∀ r, Reaches h s (.ref r) → ∃ c, h[r]? = some c ∧ (c.frozen = false → r ∈ R)

/-- The objects of `R`, and those that are frozen, are the same in `h'`. -/
def Agree (h h' : Heap κ τ α) (R : Set Nat) : Prop :=
  ∀ r c, h[r]? = some c → (c.frozen = false → r ∈ R) → h'[r]? = some c

theorem Agree.append (cs : List (Cell κ τ (Slot α))) : Agree h (h ++ cs) R := by
  intro r c hc _
  rw [List.getElem?_append_left (List.getElem?_eq_some_iff.mp hc).1]
  exact hc

theorem Agree.set {c₀ c : Cell κ τ (Slot α)} (hc₀ : h[r]? = some c₀) (hf : c₀.frozen = false)
    (hr : r ∉ R) : Agree h (h.set r c) R := by
  intro r' c' hc' hr'
  have hne : r ≠ r' := by
    rintro rfl
    cases hc₀.symm.trans hc'
    exact hr (hr' hf)
  rw [List.getElem?_set_ne hne]
  exact hc'

theorem Inside.mono (hi : Inside h R s) (hs : R ⊆ S) : Inside h S s := by
  intro r hr
  obtain ⟨c, hc, hf⟩ := hi r hr
  exact ⟨c, hc, fun h => hs (hf h)⟩

theorem Inside.atom (a : α) : Inside h R (.atom a) := fun _ hr => nomatch hr.atom

theorem Inside.reached (hi : Inside h R s) (hr : Reaches h s t) : Inside h R t :=
  fun r ht => hi r (hr.trans ht)

/-- A set of objects that nothing leads out of. -/
theorem inside_of_closed {C : Set Nat} (hs : ∀ r, s = .ref r → r ∈ C)
    (hc : ∀ r ∈ C, ∃ c, h[r]? = some c ∧ (c.frozen = false → r ∈ R) ∧
      ∀ r', Slot.ref r' ∈ c.slots → r' ∈ C) : Inside h R s := by
  have hin : ∀ t, Reaches h s t → ∀ r, t = .ref r → r ∈ C := by
    intro t ht
    induction ht with
    | refl => exact hs
    | @inside r₀ c t _ hc₀ hm ih =>
      intro r e
      obtain ⟨c', hc', -, hslots⟩ := hc r₀ (ih r₀ rfl)
      cases hc₀.symm.trans hc'
      exact hslots r (e ▸ hm)
  intro r hr
  obtain ⟨c, hc, hf, -⟩ := hc r (hin _ hr r rfl)
  exact ⟨c, hc, hf⟩

/-- What is reached from a place whose objects stayed the same was reached before. -/
theorem Inside.reaches_old (hi : Inside h R s) (ha : Agree h h' R) (hr : Reaches h' s t) :
    Reaches h s t := by
  induction hr with
  | refl => exact .refl
  | @inside r c t _ hc ht ih =>
    obtain ⟨c', hc', hf⟩ := hi r ih
    cases hc.symm.trans (ha r c' hc' hf)
    exact ih.inside hc' ht

theorem Inside.frame (hi : Inside h R s) (ha : Agree h h' R) : Inside h' R s := by
  intro r hr
  obtain ⟨c, hc, hf⟩ := hi r (hi.reaches_old ha hr)
  exact ⟨c, ha r c hc hf, hf⟩

variable [Denoting κ τ α V] {v w : V}

theorem denote_frame (ha : Agree h h' R) {n : Nat} (hi : Inside h R s) (hd : denote h n s = some v) :
    denote h' n s = some v := by
  induction n generalizing s v with
  | zero =>
    cases s with
    | atom a => rwa [denote_atom] at hd ⊢
    | ref r => cases hd
  | succ n ih =>
    cases s with
    | atom a => rwa [denote_atom] at hd ⊢
    | ref r =>
      obtain ⟨c, d, hc, hrel, hb⟩ := denote_succ.mp hd
      obtain ⟨c', hc', hf⟩ := hi r .refl
      cases hc.symm.trans hc'
      refine denote_succ.mpr ⟨c, d, ha r c hc hf, hrel.imp_mem fun t ht w hw => ?_, hb⟩
      exact ih (hi.reached (Reaches.refl.inside hc ht)) hw

/-- `s` has the value `v`, and whatever can be changed in it is in `R`. -/
structure HasValue (h : Heap κ τ α) (R : Set Nat) (s : Slot α) (v : V) : Prop where
  inside : Inside h R s
  value : valueOf h s = some v

namespace HasValue

theorem of_denote {n : Nat} (hi : Inside h R s) (hd : denote h n s = some v) : HasValue h R s v :=
  ⟨hi, denote_valueOf hd⟩

/-- **The frame rule**: a change outside the region leaves the value. -/
theorem frame (hv : HasValue h R s v) (ha : Agree h h' R) : HasValue h' R s v :=
  of_denote (hv.inside.frame ha) (denote_frame ha hv.inside hv.value)

/-- New objects matter even less. -/
theorem later (hv : HasValue h R s v) (hp : h <+: h') : HasValue h' R s v := by
  obtain ⟨cs, rfl⟩ := hp
  exact hv.frame (.append cs)

theorem mono (hv : HasValue h R s v) (hs : R ⊆ S) : HasValue h S s v := ⟨hv.inside.mono hs, hv.value⟩

/-- Only what exists is reached. -/
theorem existing (hv : HasValue h R s v) : HasValue h (R ∩ {r | r < h.length}) s v := by
  refine ⟨fun r hr => ?_, hv.value⟩
  obtain ⟨c, hc, hf⟩ := hv.inside r hr
  exact ⟨c, hc, fun hn => ⟨hf hn, (List.getElem?_eq_some_iff.mp hc).1⟩⟩

theorem unique (hv : HasValue h R s v) (hw : HasValue h S s w) : v = w :=
  denote_unique hv.value hw.value

theorem atom (a : α) : HasValue h R (.atom a) (Denoting.leaf a : V) :=
  ⟨.atom a, denote_atom _ a⟩

theorem of_atom {a : α} (hv : HasValue h R (.atom a) v) : v = Denoting.leaf a :=
  hv.unique (S := R) (.atom a)

/-- An object whose places have values. -/
theorem ref {c : Cell κ τ (Slot α)} {d : Cell κ τ V} (hc : h[r]? = some c) (hf : c.frozen = false → r ∈ R)
    (hd : Cell.Rel (HasValue h R) c d) : HasValue h R (.ref r) (Denoting.build d : V) := by
  refine of_denote (n := h.length + 1) (fun r' hr' => ?_)
    (denote_succ.mpr ⟨c, d, hc, hd.imp fun _ _ hx => hx.value, rfl⟩)
  rcases hr'.cases_head with e | ⟨c', t, hc', ht, hr⟩
  · cases e
    exact ⟨c, hc, hf⟩
  · cases hc.symm.trans hc'
    obtain ⟨x, hx⟩ := hd.exists ht
    exact hx.inside r' hr

/-- The places of an object with a value have values, and the object is not in them. -/
theorem places (hv : HasValue h R (.ref r) v) : ∃ c d, h[r]? = some c ∧ (c.frozen = false → r ∈ R) ∧
    Cell.Rel (HasValue h (R \ {r})) c d ∧ Denoting.build d = v := by
  obtain ⟨c, hc, hf⟩ := hv.inside r .refl
  obtain ⟨hi, hd⟩ := hv
  have hmore : denote h (h.length + 1) (.ref r) = some v := denote_mono hd (Nat.le_succ _)
  obtain ⟨c', d, hc', hrel, hb⟩ := denote_succ.mp hmore
  cases hc.symm.trans hc'
  refine ⟨c, d, hc, hf, hrel.imp_mem fun t ht w hw => of_denote (fun r' hr' => ?_) hw, hb⟩
  obtain ⟨c', hc', hf'⟩ := hi r' ((Reaches.refl.inside hc ht).trans hr')
  refine ⟨c', hc', fun h => ⟨hf' h, ?_⟩⟩
  rintro rfl
  exact not_reaches_self hd hc ht hr'

/-- A place with the value of a dictionary refers to one that can be changed. -/
theorem dict {kvs : Dict κ V} (hv : HasValue h R s (Denoting.build (.dict kvs) : V)) :
    ∃ r entries, s = .ref r ∧ h[r]? = some (.dict entries) ∧ r ∈ R ∧
      Dict.Matches (fun _ => HasValue h (R \ {r})) entries kvs := by
  cases s with
  | atom a => exact absurd hv.of_atom.symm (Denoting.leaf_ne_build a _)
  | ref r =>
    obtain ⟨c, d, hc, hf, hrel, hb⟩ := hv.places
    obtain rfl := Denoting.build_injective hb
    cases c with
    | dict entries => exact ⟨r, entries, rfl, hc, hf rfl, hrel⟩
    | items kind members => exact hrel.elim

end HasValue

end Regions

end Heap

end JsonDatabase
