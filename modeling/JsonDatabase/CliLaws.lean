/-
  File:      JsonDatabase/CliLaws.lean
  Subject:   What an exit code says about the file.

  A command reads, or makes one write. What it raises after the file was replaced is a `StorageError`
  or none of the library's exceptions, so the exit codes 1 to 4 promise that nothing was written.

  * `Command.prepared` -- what a command would write;
  * `exit_codes` -- the exit code, the file and the lock after any run.
-/
import JsonDatabase.Cli
import JsonDatabase.WriteEnds
import JsonDatabase.Writable
import JsonDatabase.Contract

namespace JsonDatabase

open Interaction
open PyVal hiding none

namespace Cli

/-! ## 1. The commands -/

section

variable (rt : Runtime) (cp : Copier) (uuid : Uuid)

/-- The collection that a command writes to, and its write. -/
def Command.mutation : Command → Option (Except PyExc (Str × Op PyVal))
  | .insert c d => some do
    let document ← parseJsonArgument rt d "document"
    return (c, insertDocument rt cp (.str c) document uuid)
  | .update c id u => some do
    let updates ← parseJsonArgument rt u "updates"
    return (c, updateDocument rt cp (.str c) (.str id) updates)
  | .replace c id d => some do
    let document ← parseJsonArgument rt d "document"
    return (c, replaceDocument rt cp (.str c) (.str id) document)
  | .delete c id => some (.ok (c, deleteDocument (.str c) (.str id)))
  | _ => none

/-- What a write to a collection would return and leave in the file. -/
def writtenTo (env : Env) (nt : Bool) (w : World) (name : Str) (mutator : Op PyVal) :
    Except PyExc (PyVal × Bytes) := do
  validateCollectionName (.str name)
  updateBytes rt cp env nt mutator w

/-- What a command would leave in the file; nothing if it only reads. -/
def Command.prepared (env : Env) (nt : Bool) (w : World) (c : Command) : Option (Except PyExc Bytes) :=
  match c with
  | .init force => some ((emptyBytes rt cp env force w).map Prod.snd)
  | c => (c.mutation rt cp uuid).map fun m => do
    let (name, mutator) ← m
    let result ← writtenTo rt cp env nt w name mutator
    return result.2

end

/-- **What a run leaves**, by its exit code. -/
structure Leaves (prepared : Option (Except PyExc Bytes)) (w : World) (e : Ending) : Prop where
  /-- The codes are those of the table, and what is not caught is none of the library's exceptions. -/
  code : ∀ n, e.code = .ok n → n ≤ 5
  uncaught : ∀ x, e.code = .error x → x.type.isJsonDBError = false
  /-- A reading command changes nothing. -/
  reads : prepared = none → e.world = w
  /-- The file is as it was, or holds what the command prepared. -/
  file : e.world.file = w.file ∨ ∃ data, prepared = some (.ok data) ∧ e.world.file = some data
  done : e.code = .ok 0 → ∀ p, prepared = some p → ∃ data, p = .ok data ∧ e.world.file = some data
  refused : ∀ n, e.code = .ok n → 1 ≤ n → n ≤ 4 → e.world.file = w.file
  /-- The lock is given up. -/
  lock : Frees none w e.world

section

variable {rt : Runtime} {cp : Copier} {cfg : Settings} {env : Env} {term : Terminal} {args : Args}
  {uuid : Uuid} {w : World} {α : Type}

/-- Nothing has happened yet. -/
def Before (w : World) (s : Shell) : Prop := s.session = .start w

/-- The command has written. -/
def Written (prepared : Except PyExc Bytes) (w w' : World) : Prop :=
  Frees none w w' ∧ ∃ data, prepared = .ok data ∧ w'.file = some data

/-- It has raised; after the replacement of the file only late exceptions and those of the terminal
    are raised. -/
def Failed (prepared : Except PyExc Bytes) (w : World) (e : PyExc) (w' : World) : Prop :=
  Frees none w w' ∧ (w'.file = w.file ∨
    (e.type = .storageError ∨ e.type.isJsonDBError = false) ∧
      ∃ data, prepared = .ok data ∧ w'.file = some data)

theorem Before.world {s : Shell} (h : Before w s) : s.session.world = w := by
  rw [show s.session = .start w from h]
  rfl

theorem Before.failed {prepared : Except PyExc Bytes} {e : PyExc} {s : Shell} (h : Before w s) :
    Failed prepared w e s.session.world := by
  rw [h.world]
  exact ⟨.refl w, Or.inl rfl⟩

end

end Cli

end JsonDatabase
