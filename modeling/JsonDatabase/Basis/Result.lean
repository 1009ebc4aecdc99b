/-
  File:      JsonDatabase/Basis/Result.lean
  Subject:   Computations that may fail, taken apart.

  `bind_ok`, `map_ok` and `mapM_ok` turn "the whole computation returned" into what its parts
  returned; `RaisesOnly` bounds what it may raise; `Agree` compares two computations step by step;
  `forall₂_perm` carries a traversal along a permutation.
-/
import Mathlib.Data.List.Forall2
import Mathlib.Data.List.Perm.Basic

namespace JsonDatabase

section

variable {ε α β γ : Type}

theorem bind_ok {x : Except ε α} {f : α → Except ε β} {b : β} :
    (x >>= f) = .ok b ↔ ∃ a, x = .ok a ∧ f a = .ok b := by
  cases x with
  | ok a =>
    refine ⟨fun h => ⟨a, rfl, h⟩, fun h => ?_⟩
    obtain ⟨a', e, h⟩ := h
    cases e
    exact h
  | error e =>
    refine ⟨fun h => (by cases h), fun h => ?_⟩
    obtain ⟨a', e, -⟩ := h
    cases e

theorem bind_unit_ok {x : Except ε Unit} {f : Unit → Except ε β} {b : β} :
    (x >>= f) = .ok b ↔ x = .ok () ∧ f () = .ok b := by
  rw [bind_ok]
  exact ⟨fun ⟨_, h⟩ => h, fun h => ⟨(), h⟩⟩

theorem map_ok {x : Except ε α} {f : α → β} {b : β} :
    x.map f = .ok b ↔ ∃ a, x = .ok a ∧ f a = b := by
  cases x with
  | ok a =>
    refine ⟨fun h => ⟨a, rfl, Except.ok.inj h⟩, fun h => ?_⟩
    obtain ⟨a', e, h⟩ := h
    cases e
    exact congrArg Except.ok h
  | error e =>
    refine ⟨fun h => (by cases h), fun h => ?_⟩
    obtain ⟨a', e, -⟩ := h
    cases e

theorem isOk_iff {x : Except ε α} : x.isOk = true ↔ ∃ a, x = .ok a := by
  cases x with
  | ok a => exact iff_of_true rfl ⟨a, rfl⟩
  | error e => exact iff_of_false nofun nofun

theorem toOption_eq_some {x : Except ε α} {a : α} : x.toOption = some a ↔ x = .ok a := by
  cases x with
  | ok b => exact ⟨fun h => congrArg _ (Option.some.inj h), fun h => congrArg _ (Except.ok.inj h)⟩
  | error e => exact iff_of_false nofun nofun

/-- A traversal returns the results of its elements. -/
theorem mapM_ok {f : α → Except ε β} : ∀ {xs : List α} {ys : List β},
    xs.mapM f = .ok ys ↔ List.Forall₂ (fun x y => f x = .ok y) xs ys
  | [], ys => by
      rw [List.mapM_nil]
      refine ⟨fun h => ?_, fun h => ?_⟩
      · cases h
        exact .nil
      · cases h
        rfl
  | x :: xs, ys => by
      rw [List.mapM_cons]
      refine ⟨fun h => ?_, fun h => ?_⟩
      · obtain ⟨y, hy, h⟩ := bind_ok.mp h
        obtain ⟨ys', hys, h⟩ := bind_ok.mp h
        cases h
        exact .cons hy (mapM_ok.mp hys)
      · cases h with
        | cons hy hys =>
          exact bind_ok.mpr ⟨_, hy, bind_ok.mpr ⟨_, mapM_ok.mpr hys, rfl⟩⟩

theorem bind_error {x : Except ε α} {f : α → Except ε β} {e : ε} (h : (x >>= f) = .error e) :
    x = .error e ∨ ∃ a, x = .ok a ∧ f a = .error e := by
  cases x with
  | ok a => exact Or.inr ⟨a, rfl, h⟩
  | error e' =>
    cases h
    exact Or.inl rfl

theorem map_error {x : Except ε α} {f : α → β} {e : ε} (h : x.map f = .error e) :
    x = .error e := by
  cases x with
  | ok a => cases h
  | error e' =>
    cases h
    rfl

/-- A traversal raises what one of its elements raised. -/
theorem mapM_error {f : α → Except ε β} {e : ε} : ∀ {xs : List α}, xs.mapM f = .error e →
    ∃ x ∈ xs, f x = .error e
  | [], h => by
      rw [List.mapM_nil] at h
      cases h
  | x :: xs, h => by
      rw [List.mapM_cons] at h
      rcases bind_error h with h | ⟨y, -, h⟩
      · exact ⟨x, by simp, h⟩
      · rcases bind_error h with h | ⟨ys, -, h⟩
        · obtain ⟨x', hx', h⟩ := mapM_error h
          exact ⟨x', by simp [hx'], h⟩
        · cases h

/-- A loop: the first exception ends it. -/
def forEach (f : α → Except ε Unit) : List α → Except ε Unit
  | [] => .ok ()
  | x :: xs => do
    f x
    forEach f xs

theorem forEach_ok {f : α → Except ε Unit} : ∀ {xs : List α},
    forEach f xs = .ok () ↔ ∀ x ∈ xs, f x = .ok ()
  | [] => ⟨fun _ _ h => absurd h List.not_mem_nil, fun _ => rfl⟩
  | x :: xs => by
      rw [forEach, bind_ok, List.forall_mem_cons]
      refine ⟨fun h => ?_, fun h => ⟨(), h.1, forEach_ok.mpr h.2⟩⟩
      obtain ⟨_, hx, h⟩ := h
      exact ⟨hx, forEach_ok.mp h⟩

theorem forEach_error {f : α → Except ε Unit} {e : ε} : ∀ {xs : List α},
    forEach f xs = .error e → ∃ x ∈ xs, f x = .error e
  | [], h => by cases h
  | x :: xs, h => by
      rw [forEach] at h
      rcases bind_error h with h | ⟨_, -, h⟩
      · exact ⟨x, by simp, h⟩
      · obtain ⟨x', hx', h⟩ := forEach_error h
        exact ⟨x', by simp [hx'], h⟩

/-- Whatever the computation raises satisfies `P`. -/
def RaisesOnly (P : ε → Prop) (x : Except ε α) : Prop := ∀ e, x = .error e → P e

namespace RaisesOnly

variable {P : ε → Prop}

theorem ok (a : α) : RaisesOnly P (.ok a : Except ε α) := nofun

theorem error {e : ε} (h : P e) : RaisesOnly P (.error e : Except ε α) := fun _ he => by
  cases he
  exact h

/-- What comes after is asked only about what was returned. -/
theorem bind {x : Except ε α} {f : α → Except ε β} (hx : RaisesOnly P x)
    (hf : ∀ a, x = .ok a → RaisesOnly P (f a)) : RaisesOnly P (x >>= f) := by
  intro e he
  rcases bind_error he with he | ⟨a, ha, he⟩
  · exact hx e he
  · exact hf a ha e he

theorem map {x : Except ε α} (f : α → β) (hx : RaisesOnly P x) : RaisesOnly P (x.map f) :=
  fun e he => hx e (map_error he)

theorem mapM {f : α → Except ε β} {xs : List α} (h : ∀ x ∈ xs, RaisesOnly P (f x)) :
    RaisesOnly P (xs.mapM f) := by
  intro e he
  obtain ⟨x, hx, he⟩ := mapM_error he
  exact h x hx e he

theorem forEach {f : α → Except ε Unit} {xs : List α} (h : ∀ x ∈ xs, RaisesOnly P (f x)) :
    RaisesOnly P (forEach f xs) := by
  intro e he
  obtain ⟨x, hx, he⟩ := forEach_error he
  exact h x hx e he

end RaisesOnly

/-- Two computations agree: they are the same, or one of them raises `e` where `q` fails. -/
def Agree (q : Prop) (e : ε) (x y : Except ε α) : Prop :=
  x = y ∨ ¬ q ∧ (x = .error e ∨ y = .error e)

namespace Agree

variable {q q' : Prop} {e : ε}

theorem refl (x : Except ε α) : Agree q e x x := Or.inl rfl

theorem mono {x y : Except ε α} (h : Agree q e x y) (hq : q' → q) : Agree q' e x y :=
  h.imp_right fun h => ⟨fun h' => h.1 (hq h'), h.2⟩

theorem bind {x y : Except ε α} {f g : α → Except ε β} (h : Agree q e x y)
    (hf : ∀ a, Agree q e (f a) (g a)) : Agree q e (x >>= f) (y >>= g) := by
  rcases h with rfl | ⟨hq, rfl | rfl⟩
  · cases x with
    | ok a => exact hf a
    | error e => exact .refl _
  · exact Or.inr ⟨hq, Or.inl rfl⟩
  · exact Or.inr ⟨hq, Or.inr rfl⟩

theorem map {x y : Except ε α} (f : α → β) (h : Agree q e x y) :
    Agree q e (x.map f) (y.map f) := by
  rcases h with rfl | ⟨hq, rfl | rfl⟩
  · exact .refl _
  · exact Or.inr ⟨hq, Or.inl rfl⟩
  · exact Or.inr ⟨hq, Or.inr rfl⟩

/-- Guards that raise only where `q` fails. -/
theorem guard {b c : Bool} {x y : Except ε α} (hb : q → b = false) (hc : q → c = false)
    (h : Agree q e x y) : Agree q e (if b then .error e else x) (if c then .error e else y) := by
  by_cases hq : q
  · rw [hb hq, hc hq]
    exact h
  · cases b with
    | true => exact Or.inr ⟨hq, Or.inl rfl⟩
    | false =>
      cases c with
      | true => exact Or.inr ⟨hq, Or.inr rfl⟩
      | false => exact h

/-- Both returned: they returned the same. -/
theorem ok {x y : Except ε α} (h : Agree q e x y) {a b : α} (hx : x = .ok a) (hy : y = .ok b) :
    a = b := by
  rcases h with h | ⟨-, h | h⟩
  · exact Except.ok.inj (hx.symm.trans (h.trans hy))
  · cases hx.symm.trans h
  · cases hy.symm.trans h

theorem eq {x y : Except ε α} (h : Agree q e x y) (hq : q) : x = y := by
  rcases h with h | ⟨hn, -⟩
  · exact h
  · exact absurd hq hn

end Agree

/-- Related lists stay related when one of them is permuted and the other follows. -/
theorem forall₂_perm {R : α → β → Prop} {xs xs' : List α} {ys : List β}
    (h : List.Forall₂ R xs ys) (hp : xs.Perm xs') :
    ∃ ys', List.Forall₂ R xs' ys' ∧ ys.Perm ys' := by
  obtain ⟨ys', h', hp'⟩ := List.perm_comp_forall₂ hp.symm h
  exact ⟨ys', h', hp'.symm⟩

theorem forall₂_mem_left {R : α → β → Prop} {xs : List α} {ys : List β}
    (h : List.Forall₂ R xs ys) {x : α} (hx : x ∈ xs) : ∃ y ∈ ys, R x y := by
  induction h with
  | nil => cases hx
  | cons hr _ ih =>
    rcases List.mem_cons.mp hx with rfl | hx
    · exact ⟨_, List.mem_cons_self, hr⟩
    · obtain ⟨y, hy, hr'⟩ := ih hx
      exact ⟨y, List.mem_cons_of_mem _ hy, hr'⟩

theorem forall₂_mem_right {R : α → β → Prop} {xs : List α} {ys : List β}
    (h : List.Forall₂ R xs ys) {y : β} (hy : y ∈ ys) : ∃ x ∈ xs, R x y := by
  obtain ⟨x, hx, hr⟩ := forall₂_mem_left h.flip hy
  exact ⟨x, hx, hr⟩

/-- Every element is related to something iff the whole list is. -/
theorem forall₂_exists {R : α → β → Prop} {xs : List α} :
    (∃ ys, List.Forall₂ R xs ys) ↔ ∀ x ∈ xs, ∃ y, R x y := by
  constructor
  · intro h x hx
    obtain ⟨ys, h⟩ := h
    obtain ⟨y, -, hy⟩ := forall₂_mem_left h hx
    exact ⟨y, hy⟩
  · intro h
    induction xs with
    | nil => exact ⟨[], .nil⟩
    | cons x xs ih =>
      obtain ⟨y, hy⟩ := h x List.mem_cons_self
      obtain ⟨ys, hys⟩ := ih fun x hx => h x (List.mem_cons_of_mem _ hx)
      exact ⟨y :: ys, .cons hy hys⟩

theorem forall₂_imp_mem {R S : α → β → Prop} {xs : List α} {ys : List β}
    (h : List.Forall₂ R xs ys) (hi : ∀ x ∈ xs, ∀ y ∈ ys, R x y → S x y) : List.Forall₂ S xs ys := by
  induction h with
  | nil => exact .nil
  | cons hr _ ih =>
    exact .cons (hi _ (by simp) _ (by simp) hr)
      (ih fun x hx y hy => hi x (by simp [hx]) y (by simp [hy]))

theorem forall₂_flip_mem {R : α → β → Prop} {S : β → α → Prop} {xs : List α} {ys : List β}
    (h : List.Forall₂ R xs ys) (hi : ∀ x ∈ xs, ∀ y ∈ ys, R x y → S y x) : List.Forall₂ S ys xs :=
  (forall₂_imp_mem h hi).flip

theorem forall₂_comp_mem {γ : Type} {R : α → β → Prop} {S : β → γ → Prop} {T : α → γ → Prop}
    {xs : List α} {ys : List β} {zs : List γ} (h : List.Forall₂ R xs ys)
    (h' : List.Forall₂ S ys zs) (hi : ∀ x ∈ xs, ∀ y z, R x y → S y z → T x z) :
    List.Forall₂ T xs zs := by
  induction h generalizing zs with
  | nil =>
    cases h'
    exact .nil
  | cons hr _ ih =>
    cases h' with
    | cons hr' h' =>
      exact .cons (hi _ (by simp) _ _ hr hr') (ih h' fun x hx => hi x (by simp [hx]))

theorem forall₂_symm {R : α → α → Prop} (hR : ∀ x y, R x y → R y x) {xs ys : List α}
    (h : List.Forall₂ R xs ys) : List.Forall₂ R ys xs :=
  forall₂_flip_mem h fun x _ y _ => hR x y

theorem forall₂_trans {R : α → α → Prop} (hR : ∀ x y z, R x y → R y z → R x z)
    {xs ys zs : List α} (h : List.Forall₂ R xs ys) (h' : List.Forall₂ R ys zs) :
    List.Forall₂ R xs zs :=
  forall₂_comp_mem h h' fun x _ => hR x

/-- Related lists around a hole. -/
theorem forall₂_hole {R : α → β → Prop} {xs ys : List α} {x : α} {zs : List β} :
    List.Forall₂ R (xs ++ x :: ys) zs ↔
      ∃ a z b, zs = a ++ z :: b ∧ List.Forall₂ R xs a ∧ R x z ∧ List.Forall₂ R ys b := by
  induction xs generalizing zs with
  | nil =>
    refine ⟨fun h => ?_, fun h => ?_⟩
    · cases h with
      | cons hr h => exact ⟨[], _, _, rfl, .nil, hr, h⟩
    · obtain ⟨a, z, b, rfl, ha, hr, h⟩ := h
      cases ha
      exact .cons hr h
  | cons x' xs ih =>
    refine ⟨fun h => ?_, fun h => ?_⟩
    · cases h with
      | cons hr' h =>
        obtain ⟨a, z, b, rfl, ha, hr, h⟩ := ih.mp h
        exact ⟨_ :: a, z, b, rfl, .cons hr' ha, hr, h⟩
    · obtain ⟨a, z, b, rfl, ha, hr, h⟩ := h
      cases ha with
      | cons hr' ha => exact .cons hr' (ih.mpr ⟨_, z, b, rfl, ha, hr, h⟩)

/-- Between related lists a third one is chosen element by element. -/
theorem forall₂_choose {R : α → β → Prop} {S : α → γ → Prop} {T : β → γ → Prop}
    {xs : List α} {ys : List β} (h : List.Forall₂ R xs ys)
    (hc : ∀ x ∈ xs, ∀ y ∈ ys, R x y → ∃ z, S x z ∧ T y z) :
    ∃ zs, List.Forall₂ S xs zs ∧ List.Forall₂ T ys zs := by
  induction h with
  | nil => exact ⟨[], .nil, .nil⟩
  | cons hr _ ih =>
    obtain ⟨z, hs, ht⟩ := hc _ (by simp) _ (by simp) hr
    obtain ⟨zs, hss, hts⟩ := ih fun x hx y hy => hc x (by simp [hx]) y (by simp [hy])
    exact ⟨z :: zs, .cons hs hss, .cons ht hts⟩

/-- Two lists related to a third one element by element. -/
theorem forall₂_join {R : α → β → Prop} {S : α → γ → Prop} {T : β → γ → Prop}
    {xs : List α} {ys : List β} {zs : List γ} (h : List.Forall₂ R xs ys)
    (h' : List.Forall₂ S xs zs) (hj : ∀ x ∈ xs, ∀ y z, R x y → S x z → T y z) :
    List.Forall₂ T ys zs := by
  induction h generalizing zs with
  | nil =>
    cases h' with
    | nil => exact .nil
  | cons hr _ ih =>
    cases h' with
    | cons hs h' =>
      exact .cons (hj _ (by simp) _ _ hr hs) (ih h' fun x hx => hj x (by simp [hx]))

theorem mapM_map_congr {f : β → Except ε α} {f' : γ → Except ε α} {g : γ → β}
    {xs : List γ} (h : ∀ x ∈ xs, f (g x) = f' x) : (xs.map g).mapM f = xs.mapM f' := by
  induction xs with
  | nil => rfl
  | cons x xs ih =>
    rw [List.map_cons, List.mapM_cons, List.mapM_cons, h x (by simp),
      ih fun y hy => h y (by simp [hy])]

end

end JsonDatabase
