/-
  File:      JsonDatabase/Basis/Disk.lean
  Subject:   One file of a file system that a crash may hit.

  A path is an entry of a directory and is bound to a numbered file. A file that is not synced may
  lose anything in a crash, and may be torn. A rename is one step, and survives a crash for certain
  once the directory is synced; until then each of them may or may not have happened. Programs
  write through a buffer of their own, which may run over into the file at any time.

  * `Disk`, `create`, `setTemp`, `place`, `unlink`, `syncDirectory` -- the state and what changes it;
  * `Recovers` -- what may be found at the path after a crash;
  * `Intact` -- every file the path may be bound to is synced and its content satisfies a predicate;
    one rule for each change, and what follows for a crash.
-/
import Mathlib.Data.List.Basic
import Mathlib.Logic.Function.Basic

namespace JsonDatabase

/-- A file as programs see it, and whether the disk has it. -/
structure StoredFile (β : Type) where
  content : List β
  synced : Bool

/-- What a crash may leave of a file. -/
def StoredFile.Survives {β : Type} (f : StoredFile β) (content : List β) : Prop :=
  f.synced = true → content = f.content

structure Disk (β : Type) where
  /-- The file the path is bound to on the disk. -/
  entry : Option Nat
  /-- The files renamed to the path since the directory was synced, the newest first. -/
  renames : List Nat
  files : Nat → StoredFile β
  /-- The temporary file. -/
  temp : Option Nat
  /-- What was written to the temporary file and is not in it yet. -/
  buffer : List β
  /-- The number of the next file. -/
  fresh : Nat

namespace Disk

variable {β : Type}

/-- A disk with nothing pending, and its content at the path. -/
def start : Option (List β) → Disk β
  | some content => ⟨some 0, [], fun _ => ⟨content, true⟩, none, [], 1⟩
  | none => ⟨none, [], fun _ => ⟨[], false⟩, none, [], 0⟩

section

variable (d : Disk β)

/-- What the path may be bound to after a crash, the newest first. -/
def bindings : List (Option Nat) := d.renames.map some ++ [d.entry]

/-- What the path is bound to for programs. -/
def newest : Option Nat := d.renames.head?.or d.entry

def contentOf (b : Option Nat) : Option (List β) := b.map fun i => (d.files i).content

/-- **After a crash** the path is bound to any of its bindings, and holds what the crash left. -/
def Recovers (found : Option (List β)) : Prop :=
  ∃ b ∈ d.bindings,
    match b with
    | none => found = none
    | some i => ∃ content, (d.files i).Survives content ∧ found = some content

/-! ## 1. Changes -/

/-- A new temporary file. -/
def create : Disk β :=
  { d with
    files := Function.update d.files d.fresh ⟨[], false⟩
    temp := some d.fresh
    buffer := []
    fresh := d.fresh + 1 }

/-- The temporary file. -/
def tempFile : StoredFile β :=
  match d.temp with
  | some i => d.files i
  | none => ⟨[], false⟩

/-- The temporary file and the buffer are changed. -/
def setTemp (f : StoredFile β) (buffer : List β) : Disk β :=
  match d.temp with
  | some i => { d with files := Function.update d.files i f, buffer := buffer }
  | none => d

/-- The temporary file is renamed to the path. -/
def place : Disk β :=
  match d.temp with
  | some i => { d with renames := i :: d.renames, temp := none }
  | none => d

def unlink : Disk β := { d with temp := none }

def syncDirectory : Disk β := { d with entry := d.newest, renames := [] }

end

/-! ## 2. What the changes keep -/

section

variable {d : Disk β} {f : StoredFile β} {buffer : List β}

theorem mem_bindings {b : Option Nat} :
    b ∈ d.bindings ↔ (∃ i ∈ d.renames, b = some i) ∨ b = d.entry := by
  simp only [bindings, List.mem_append, List.mem_map, List.mem_singleton, eq_comm]

theorem newest_mem : d.newest ∈ d.bindings := by
  refine mem_bindings.mpr ?_
  unfold newest
  cases hr : d.renames with
  | nil => exact .inr rfl
  | cons i rest => exact .inl ⟨i, List.mem_cons_self, rfl⟩

@[simp] theorem temp_setTemp : (d.setTemp f buffer).temp = d.temp := by
  unfold setTemp
  cases h : d.temp with
  | none => exact h
  | some i => rfl

theorem isSome_setTemp (h : d.temp.isSome = true) : (d.setTemp f buffer).temp.isSome = true := by
  rw [temp_setTemp]
  exact h

theorem setTemp_of_temp {i : Nat} (h : d.temp = some i) :
    d.setTemp f buffer = { d with files := Function.update d.files i f, buffer := buffer } := by
  simp only [setTemp, h]

theorem tempFile_setTemp (h : d.temp.isSome = true) : (d.setTemp f buffer).tempFile = f := by
  obtain ⟨i, hi⟩ := Option.isSome_iff_exists.mp h
  simp only [setTemp_of_temp hi, tempFile, hi, Function.update_self]

theorem buffer_setTemp (h : d.temp.isSome = true) : (d.setTemp f buffer).buffer = buffer := by
  obtain ⟨i, hi⟩ := Option.isSome_iff_exists.mp h
  rw [setTemp_of_temp hi]

theorem tempFile_create : d.create.tempFile = ⟨[], false⟩ := Function.update_self _ _ _

theorem place_of_temp {i : Nat} (h : d.temp = some i) :
    d.place = { d with renames := i :: d.renames, temp := none } := by
  simp only [place, h]

/-- A file that was placed is the newest. -/
theorem content_place (h : d.temp.isSome = true) :
    d.place.contentOf d.place.newest = some d.tempFile.content := by
  obtain ⟨i, hi⟩ := Option.isSome_iff_exists.mp h
  rw [place_of_temp hi]
  simp only [newest, List.head?_cons, Option.some_or, contentOf, Option.map_some, tempFile, hi]

end

/-! ## 3. Intact disks -/

/-- Every file the path may be bound to is synced and is not the temporary one, and every content
    the path may have satisfies `P`. -/
structure Intact (d : Disk β) (P : Option (List β) → Prop) : Prop where
  temp : ∀ i, d.temp = some i → i < d.fresh ∧ some i ∉ d.bindings
  synced : ∀ i, some i ∈ d.bindings → i < d.fresh ∧ (d.files i).synced = true
  content : ∀ b ∈ d.bindings, P (d.contentOf b)

theorem intact_start {found : Option (List β)} {P : Option (List β) → Prop} (h : P found) :
    (start found).Intact P := by
  cases found with
  | none =>
    refine ⟨nofun, fun i hi => ?_, fun b hb => ?_⟩
    · cases List.mem_singleton.mp hi
    · rw [show b = none from List.mem_singleton.mp hb]
      exact h
  | some content =>
    refine ⟨nofun, fun i hi => ?_, fun b hb => ?_⟩
    · cases List.mem_singleton.mp hi
      exact ⟨Nat.zero_lt_one, rfl⟩
    · rw [show b = some 0 from List.mem_singleton.mp hb]
      exact h

namespace Intact

variable {d : Disk β} {P P' : Option (List β) → Prop}

theorem mono (h : d.Intact P) (hP : ∀ c, P c → P' c) : d.Intact P' :=
  ⟨h.temp, h.synced, fun b hb => hP _ (h.content b hb)⟩

/-- **What a crash leaves of an intact disk** is one of the contents. -/
theorem recovers (h : d.Intact P) {found : Option (List β)} (hr : d.Recovers found) : P found := by
  obtain ⟨b, hb, hfound⟩ := hr
  have hP := h.content b hb
  cases b with
  | none =>
    rw [hfound]
    exact hP
  | some i =>
    obtain ⟨content, hs, rfl⟩ := hfound
    rw [hs (h.synced i hb).2]
    exact hP

/-- A change of one file that the path is not bound to. -/
theorem contentOf_update {files : Nat → StoredFile β} {i : Nat} {f : StoredFile β} {b : Option Nat}
    (hb : b ≠ some i) :
    b.map (fun j => (Function.update files i f j).content) = b.map fun j => (files j).content := by
  cases b with
  | none => rfl
  | some j =>
    have hj : j ≠ i := fun e => hb (congrArg some e)
    simp only [Option.map_some, Function.update_of_ne hj]

theorem create (h : d.Intact P) : d.create.Intact P := by
  have hne : some d.fresh ∉ d.bindings := fun hm => Nat.lt_irrefl _ (h.synced _ hm).1
  refine ⟨fun i hi => ?_, fun i hi => ?_, fun b hb => ?_⟩
  · cases hi
    exact ⟨Nat.lt_succ_self _, hne⟩
  · obtain ⟨hlt, hs⟩ := h.synced i hi
    refine ⟨Nat.lt_succ_of_lt hlt, ?_⟩
    show (Function.update d.files d.fresh _ i).synced = true
    rw [Function.update_of_ne (Nat.ne_of_lt hlt)]
    exact hs
  · show P (b.map _)
    rw [show d.create.files = Function.update d.files d.fresh ⟨[], false⟩ from rfl,
      contentOf_update fun e => hne (e ▸ hb)]
    exact h.content b hb

theorem setTemp (h : d.Intact P) (f : StoredFile β) (buffer : List β) :
    (d.setTemp f buffer).Intact P := by
  cases hi : d.temp with
  | none =>
    rw [show d.setTemp f buffer = d by simp only [Disk.setTemp, hi]]
    exact h
  | some i =>
    have hne := (h.temp i hi).2
    rw [setTemp_of_temp hi]
    refine ⟨h.temp, fun j hj => ?_, fun b hb => ?_⟩
    · have hji : j ≠ i := fun e => hne (e ▸ hj)
      refine ⟨(h.synced j hj).1, ?_⟩
      show (Function.update d.files i f j).synced = true
      rw [Function.update_of_ne hji]
      exact (h.synced j hj).2
    · show P (b.map _)
      rw [contentOf_update fun e => hne (e ▸ hb)]
      exact h.content b hb

theorem unlink (h : d.Intact P) : d.unlink.Intact P := ⟨nofun, h.synced, h.content⟩

/-- A synced file whose content satisfies the predicate may be placed. -/
theorem place (h : d.Intact P) (hs : d.temp.isSome = true → d.tempFile.synced = true)
    (hP : d.temp.isSome = true → P (some d.tempFile.content)) : d.place.Intact P := by
  cases hi : d.temp with
  | none =>
    rw [show d.place = d by simp only [Disk.place, hi]]
    exact h
  | some i =>
    have hfile : d.tempFile = d.files i := by simp only [tempFile, hi]
    rw [hi, hfile] at hs hP
    rw [place_of_temp hi]
    refine ⟨nofun, fun j hj => ?_, fun b hb => ?_⟩
    · rcases List.mem_cons.mp hj with e | hj
      · cases e
        exact ⟨(h.temp _ hi).1, hs rfl⟩
      · exact h.synced j hj
    · rcases List.mem_cons.mp hb with rfl | hb
      · exact hP rfl
      · exact h.content b hb

/-- After the directory is synced only the newest binding is left. -/
theorem syncDirectory (h : d.Intact P) (hP : P' (d.contentOf d.newest)) :
    d.syncDirectory.Intact P' := by
  have hmem (b : Option Nat) (hb : b ∈ d.syncDirectory.bindings) : b = d.newest :=
    List.mem_singleton.mp hb
  refine ⟨fun i hi => ?_, fun i hi => ?_, fun b hb => ?_⟩
  · obtain ⟨hlt, hne⟩ := h.temp i hi
    exact ⟨hlt, fun hm => hne (hmem _ hm ▸ newest_mem)⟩
  · exact h.synced i (hmem _ hi ▸ newest_mem)
  · rw [hmem b hb]
    exact hP

end Intact

end Disk

end JsonDatabase
