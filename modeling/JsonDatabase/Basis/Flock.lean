/-
  File:      JsonDatabase/Basis/Flock.lean
  Subject:   Exclusive locks on an open file, and the path it is opened by.

  Opening a path gives a new handle of the file the path is bound to, and makes and binds a file if
  there is none. A lock belongs to the file, not to the path: one handle of a file at a time may
  have it. Closing a handle gives its lock up.

  * `Flock`, `opened`, `take`, `unlock`, `close`, `closeAll`, `unlink` -- the state and its changes;
  * `Pinned` -- every open handle is one of the file the path is bound to. Every change but `unlink`
    keeps this;
  * `Pinned.exclusive` -- then at most one handle has a lock.
-/
import Mathlib.Logic.Function.Basic

namespace JsonDatabase

structure Flock where
  /-- The file the path is bound to. -/
  entry : Option Nat
  /-- The number of the next file. -/
  inodes : Nat
  /-- The file an open handle is one of. -/
  file : Nat → Option Nat
  /-- The handle that has the lock of a file. -/
  holder : Nat → Option Nat
  /-- The number of the next handle. -/
  fresh : Nat

namespace Flock

/-- Nothing is open; the path may be bound. -/
def start (entry : Option Nat) : Flock :=
  ⟨entry, (entry.map (· + 1)).getD 0, fun _ => none, fun _ => none, 0⟩

section

variable (s : Flock)

/-- The handle has the lock of its file. -/
def Holds (h : Nat) : Prop := ∃ i, s.file h = some i ∧ s.holder i = some h

/-- The lock would be given to the handle. -/
def Free (h : Nat) : Prop := ∃ i, s.file h = some i ∧ (s.holder i = none ∨ s.holder i = some h)

/-! ## 1. Changes -/

/-- The path was opened; the new handle is `s.fresh`. -/
def opened : Flock :=
  { s with
    entry := some (s.entry.getD s.inodes)
    inodes := if s.entry.isSome then s.inodes else s.inodes + 1
    file := Function.update s.file s.fresh (some (s.entry.getD s.inodes))
    fresh := s.fresh + 1 }

/-- The lock is given to the handle. -/
def take (h : Nat) : Flock :=
  match s.file h with
  | some i => { s with holder := Function.update s.holder i (some h) }
  | none => s

/-- Handles give their locks up. -/
def dropLocks (p : Nat → Prop) [DecidablePred p] : Nat → Option Nat := fun i =>
  match s.holder i with
  | some h => if p h then none else some h
  | none => none

def unlock (h : Nat) : Flock := { s with holder := s.dropLocks (· = h) }

/-- Handles are closed, which gives their locks up. -/
def closeAll (p : Nat → Prop) [DecidablePred p] : Flock :=
  { s with
    file := fun h => if p h then none else s.file h
    holder := s.dropLocks p }

def close (h : Nat) : Flock := s.closeAll (· = h)

/-- The path is removed; open handles stay. -/
def unlink : Flock := { s with entry := none }

end

variable {s : Flock} {h h' : Nat}

theorem dropLocks_eq_some {p : Nat → Prop} [DecidablePred p] {i : Nat} :
    s.dropLocks p i = some h ↔ s.holder i = some h ∧ ¬ p h := by
  unfold dropLocks
  cases hi : s.holder i with
  | none => simp only [reduceCtorEq, false_and]
  | some h' =>
    by_cases hp : p h'
    · simp only [if_pos hp, reduceCtorEq, Option.some.injEq, false_iff, not_and, not_not]
      exact fun e => e ▸ hp
    · simp only [if_neg hp, Option.some.injEq]
      exact ⟨fun e => ⟨e, e ▸ hp⟩, And.left⟩

/-! ## 2. What the changes do to a handle -/

theorem file_opened_self : s.opened.file s.fresh = some (s.entry.getD s.inodes) :=
  Function.update_self _ _ _

theorem file_opened_ne (hne : h ≠ s.fresh) : s.opened.file h = s.file h :=
  Function.update_of_ne hne _ _

theorem file_take : (s.take h).file = s.file := by
  unfold take
  cases s.file h <;> rfl

theorem entry_take : (s.take h).entry = s.entry := by
  unfold take
  cases s.file h <;> rfl

theorem fresh_take : (s.take h).fresh = s.fresh := by
  unfold take
  cases s.file h <;> rfl

/-- A free lock is had after it was taken. -/
theorem holds_take (hf : s.Free h) : (s.take h).Holds h := by
  obtain ⟨i, hi, -⟩ := hf
  refine ⟨i, (congrFun file_take h).trans hi, ?_⟩
  simp only [take, hi, Function.update_self]

/-- Nobody loses a lock to the one who takes it. -/
theorem Holds.take (hh : s.Holds h') (hf : s.Free h) : (s.take h).Holds h' := by
  by_cases he : h' = h
  · rw [he]
    exact holds_take hf
  · obtain ⟨i, hi, hfree⟩ := hf
    obtain ⟨j, hj, hold⟩ := hh
    refine ⟨j, (congrFun file_take h').trans hj, ?_⟩
    have hne : j ≠ i := by
      rintro rfl
      rcases hfree with hn | hn
      · cases hn.symm.trans hold
      · exact he (Option.some.inj (hold.symm.trans hn))
    simp only [Flock.take, hi, Function.update_of_ne hne]
    exact hold

theorem Holds.opened (hh : s.Holds h) (hlt : h < s.fresh) : s.opened.Holds h := by
  obtain ⟨i, hi, hold⟩ := hh
  exact ⟨i, (file_opened_ne (Nat.ne_of_lt hlt)).trans hi, hold⟩

theorem Holds.unlock (hh : s.Holds h) (hne : h ≠ h') : (s.unlock h').Holds h := by
  obtain ⟨i, hi, hold⟩ := hh
  exact ⟨i, hi, dropLocks_eq_some.mpr ⟨hold, hne⟩⟩

theorem Holds.closeAll {p : Nat → Prop} [DecidablePred p] (hh : s.Holds h) (hp : ¬ p h) :
    (s.closeAll p).Holds h := by
  obtain ⟨i, hi, hold⟩ := hh
  exact ⟨i, (if_neg hp).trans hi, dropLocks_eq_some.mpr ⟨hold, hp⟩⟩

theorem file_closeAll {p : Nat → Prop} [DecidablePred p] (hp : p h) : (s.closeAll p).file h = none :=
  if_pos hp

theorem file_closeAll_ne {p : Nat → Prop} [DecidablePred p] (hp : ¬ p h) :
    (s.closeAll p).file h = s.file h := if_neg hp

theorem file_close_self : (s.close h).file h = none := if_pos rfl

theorem file_close_ne (hne : h ≠ h') : (s.close h').file h = s.file h := if_neg hne

theorem Holds.close (hh : s.Holds h) (hne : h ≠ h') : (s.close h').Holds h := hh.closeAll hne

/-! ## 3. One file -/

/-- Every open handle is one of the file the path is bound to, and locks belong to open handles. -/
structure Pinned (s : Flock) : Prop where
  bound : ∀ h i, s.file h = some i → s.entry = some i
  old : ∀ h i, s.file h = some i → h < s.fresh
  holder : ∀ i h, s.holder i = some h → s.file h = some i

theorem pinned_start (entry : Option Nat) : (start entry).Pinned := ⟨nofun, nofun, nofun⟩

namespace Pinned

/-- **At most one handle has a lock.** -/
theorem exclusive (hp : s.Pinned) (hh : s.Holds h) (hh' : s.Holds h') : h = h' := by
  obtain ⟨i, hi, hold⟩ := hh
  obtain ⟨j, hj, hold'⟩ := hh'
  obtain rfl : i = j := Option.some.inj ((hp.bound h i hi).symm.trans (hp.bound h' j hj))
  exact Option.some.inj (hold.symm.trans hold')

/-- The path stays bound to its file. -/
theorem entry_opened {i : Nat} (he : s.entry = some i) : s.opened.entry = some i := by
  show some (s.entry.getD s.inodes) = _
  rw [he]
  rfl

theorem opened (hp : s.Pinned) : s.opened.Pinned := by
  refine ⟨fun h i hi => ?_, fun h i hi => ?_, fun i h hi => ?_⟩
  · by_cases hf : h = s.fresh
    · subst hf
      exact file_opened_self.symm.trans hi
    · rw [file_opened_ne hf] at hi
      exact entry_opened (hp.bound h i hi)
  · by_cases hf : h = s.fresh
    · subst hf
      exact Nat.lt_succ_self _
    · rw [file_opened_ne hf] at hi
      exact Nat.lt_succ_of_lt (hp.old h i hi)
  · have hfile := hp.holder i h hi
    exact (file_opened_ne (Nat.ne_of_lt (hp.old h i hfile))).trans hfile

theorem take (hp : s.Pinned) (h : Nat) : (s.take h).Pinned := by
  refine ⟨fun h' i hi => ?_, fun h' i hi => ?_, fun i h' hi => ?_⟩
  · rw [file_take] at hi
    rw [entry_take]
    exact hp.bound h' i hi
  · rw [file_take] at hi
    rw [fresh_take]
    exact hp.old h' i hi
  · rw [file_take]
    unfold Flock.take at hi
    cases hf : s.file h with
    | none =>
      rw [hf] at hi
      exact hp.holder i h' hi
    | some j =>
      rw [hf] at hi
      by_cases hij : i = j
      · subst hij
        rw [show h' = h from Option.some.inj (hi.symm.trans (Function.update_self _ _ _))]
        exact hf
      · exact hp.holder i h' ((Function.update_of_ne hij _ _).symm.trans hi)

theorem unlock (hp : s.Pinned) (h : Nat) : (s.unlock h).Pinned :=
  ⟨hp.bound, hp.old, fun i h' hi => hp.holder i h' (dropLocks_eq_some.mp hi).1⟩

theorem closeAll (hp : s.Pinned) (p : Nat → Prop) [DecidablePred p] : (s.closeAll p).Pinned := by
  have hfile {h i : Nat} (hi : (s.closeAll p).file h = some i) : s.file h = some i := by
    by_cases hph : p h
    · rw [file_closeAll hph] at hi
      cases hi
    · rwa [file_closeAll_ne hph] at hi
  refine ⟨fun h i hi => hp.bound h i (hfile hi), fun h i hi => hp.old h i (hfile hi),
    fun i h hi => ?_⟩
  obtain ⟨hold, hph⟩ := dropLocks_eq_some.mp hi
  exact (file_closeAll_ne hph).trans (hp.holder i h hold)

end Pinned

/-- Two handles are open, one has the lock and closes; the path is unlinked, opened again and
    locked; and the handle that waited has a lock as well. -/
example : let s := ((((start none).opened.opened.take 0).close 0).unlink.opened.take 2).take 1
    s.Holds 1 ∧ s.Holds 2 := ⟨⟨0, rfl, rfl⟩, ⟨1, rfl, rfl⟩⟩

end Flock

end JsonDatabase
