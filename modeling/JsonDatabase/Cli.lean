/-
  File:      JsonDatabase/Cli.lean
  Subject:   `cli.py`: one run of the command line.

  What `parse_args` returns is given. A run opens the database, does one thing, prints, and ends with
  an exit code, or with an exception that `main` does not catch. What is printed stays printed.

  * `Command`, `Args`, `Output` -- what a run is asked for and what it prints;
  * `dispatch`, `main` -- the commands, and the exit codes of the exceptions;
  * `exec` -- a run in a world.
-/
import JsonDatabase.Session
import JsonDatabase.Query
import JsonDatabase.LockBudget
import JsonDatabase.Rewritten

namespace JsonDatabase

open Interaction
open PyVal hiding none

/-! ## 1. Reads of the database -/

/-- The `except` clauses of `check_integrity`. -/
def integrityFailure (e : PyExc) : Prog IntegrityReport :=
  match e.type with
  | .integrityError => pure ⟨false, .corrupt, e.msg, e.expected, e.actual⟩
  | .databaseFormatError => pure ⟨false, .format, e.msg, none, none⟩
  | .storageError => pure ⟨false, .storage, e.msg, none, none⟩
  | _ => raise e

def integrityPassed : IntegrityReport := ⟨true, .ok, [.text "integrity check passed"], none, none⟩

def databaseMissing : IntegrityReport :=
  ⟨false, .missing, [.text "database file does not exist: ", .dbPath], none, none⟩

/-- `StorageEngine.check_integrity`, with its system calls. -/
def engineCheck (rt : Runtime) (cfg : Settings) : Prog IntegrityReport := do
  let present : Bool ← sys .pathExists
  if present then (engineLoad rt cfg >>= fun _ => pure integrityPassed).rescue integrityFailure
  else pure databaseMissing

/-- `Database.collections` of a state; the names of a loaded state are strings. -/
def collectionNames (state : State) : Except PyExc (List Str) := do
  let collections ← collectionsOf state
  return (strKeys collections).insertionSort (· ≤ ·)

namespace Cli

/-! ## 2. What a run is asked for, and what it prints -/

/-- The subcommands with their arguments. -/
inductive Command where
  | init (force : Bool)
  | insert (collection document : Str)
  | get (collection documentId : Str)
  | update (collection documentId updates : Str)
  | replace (collection documentId document : Str)
  | delete (collection documentId : Str)
  | query (collection criteria : Str)
  | dump (collection : Option Str)
  | check (asJson : Bool)
  | collections

/-- What `parse_args` returns. -/
structure Args where
  db : Str
  timeout : PyVal
  pretty : Bool
  command : Command

/-- Something printed: a line or bytes on standard output, the report as JSON, or a line on standard
    error. -/
inductive Output where
  | line (text : List Part)
  | json (data : Bytes)
  | report (r : IntegrityReport)
  | error (text : List Part)

/-- Standard output and standard error, with what printing raises: a `UnicodeEncodeError` or a
    `BrokenPipeError`, say, but none of the library's own exceptions. -/
structure Terminal where
  fails : Output → Option PyExc
  foreign : ∀ o e, fails o = some e → e.type.isJsonDBError = false

/-- A terminal that takes everything. -/
def Terminal.total : Terminal := ⟨fun _ => none, nofun⟩

/-- A run: its `Database`, and what it has printed. -/
structure Shell where
  session : Session
  printed : List Output

/-- A part of a run. -/
abbrev Run := EStateM PyExc Shell

section

variable (rt : Runtime) (cp : Copier) (cfg : Settings) (env : Env) (term : Terminal)

/-- `print`, or a write to a stream. -/
def print (o : Output) : Run Unit := fun s =>
  match term.fails o with
  | none => .ok () { s with printed := s.printed ++ [o] }
  | some e => .error e s

/-- A method of the `Database`. -/
def onDatabase {α : Type} (method : Session → Except PyExc α × Session) : Run α := fun s =>
  match method s.session with
  | (.ok a, db) => .ok a { s with session := db }
  | (.error e, db) => .error e { s with session := db }

/-- A method that reads the state. -/
def readDb {α : Type} (f : State → Except PyExc α) : Run α :=
  onDatabase fun s => (s.read rt cp cfg env f, s)

/-- A write method of `db.collection(name)`. -/
def writeTo (name : Str) (mutator : Op PyVal) : Run PyVal := do
  liftExcept (validateCollectionName (.str name))
  onDatabase (Session.write rt cp cfg env mutator)

/-- A read method of `db.collection(name)`. -/
def readFrom {α : Type} (name : Str) (f : State → Except PyExc α) : Run α := do
  liftExcept (validateCollectionName (.str name))
  readDb rt cp cfg env f

/-- `_parse_json_argument`. -/
def parseJsonArgument (value : Str) (label : String) : Except PyExc PyVal :=
  Except.handle (serializerLoads rt (.str value)) (· = .serializationError) fun e =>
    ⟨.serializationError, .text "invalid JSON " :: .text label :: .text ": " :: e.msg, none, none⟩

/-- `JsonSerializer(pretty=...)`. -/
def style (pretty : Bool) : Style := if pretty then indented else compact

/-- `_print_json`. -/
def printJson (pretty : Bool) (value : PyVal) : Run Unit := do
  let data ← liftExcept (dumpBytes rt (style pretty) value)
  print term (.json data)

/-- The lines printed for a report that is not in order. -/
def printReport (report : IntegrityReport) : Run Unit := do
  print term (.error (.text "ERROR: " :: report.message))
  match report.expected with
  | some expected => print term (.error [.text "expected: ", .str expected])
  | none => pure ()
  match report.actual with
  | some actual => print term (.error [.text "actual:   ", .str actual])
  | none => pure ()

/-- What `dump` prints: the documents of a collection, or everything, also if the name is empty. -/
def dumpPayload : Option Str → Run PyVal
  | some (c :: name) => do
    let documents ← readFrom rt cp cfg env (c :: name) fun state =>
      allDocuments cp state (.str (c :: name))
    return .list documents
  | _ => readDb rt cp cfg env fun state => .ok (.dict state)

/-- `for collection in db.collections(): print(collection)`. -/
def printNames : List Str → Run Unit
  | [] => pure ()
  | name :: names => do
    print term (.line [.str (.str name)])
    printNames names

/-! ## 3. The commands -/

/-- The body of the `try` statement of `main`; `uuid` is what `insert` would generate. -/
def dispatch (args : Args) (uuid : Uuid) : Run Nat := do
  liftExcept (validateLockTimeout args.timeout)
  match args.command with
  | .init force =>
    onDatabase (Session.init rt cp cfg env force)
    print term (.line [.text "initialized: ", .str (.str args.db)])
    return 0
  | .insert collection document =>
    let document ← liftExcept (parseJsonArgument rt document "document")
    let documentId ← writeTo rt cp cfg env collection
      (insertDocument rt cp (.str collection) document uuid)
    print term (.line [.str documentId])
    return 0
  | .get collection documentId =>
    let document ← readFrom rt cp cfg env collection fun state =>
      getDocument cp state (.str collection) (.str documentId)
    printJson rt term args.pretty document
    return 0
  | .update collection documentId updates =>
    let updates ← liftExcept (parseJsonArgument rt updates "updates")
    let document ← writeTo rt cp cfg env collection
      (updateDocument rt cp (.str collection) (.str documentId) updates)
    printJson rt term args.pretty document
    return 0
  | .replace collection documentId document =>
    let document ← liftExcept (parseJsonArgument rt document "document")
    let document ← writeTo rt cp cfg env collection
      (replaceDocument rt cp (.str collection) (.str documentId) document)
    printJson rt term args.pretty document
    return 0
  | .delete collection documentId =>
    let _ ← writeTo rt cp cfg env collection (deleteDocument (.str collection) (.str documentId))
    print term (.line [.text "deleted: ", .str (.str collection), .text "/", .str (.str documentId)])
    return 0
  | .query collection criteria =>
    let criteria ← liftExcept (parseJsonArgument rt criteria "criteria")
    let documents ← readFrom rt cp cfg env collection fun state =>
      findDocuments cp state (.str collection) criteria
    printJson rt term args.pretty (.list documents)
    return 0
  | .dump collection =>
    let payload ← dumpPayload rt cp cfg env collection
    printJson rt term args.pretty payload
    return 0
  | .check asJson =>
    let report ← onDatabase fun s => (((engineCheck rt cfg).run env s.world).1, s)
    if asJson then
      print term (.report report)
      return if report.ok then 0 else 4
    else if report.ok then
      print term (.line [.text "OK: integrity check passed"])
      return 0
    else
      printReport term report
      return 4
  | .collections =>
    let names ← readDb rt cp cfg env collectionNames
    printNames term names
    return 0

/-- The `except` clauses of `main`: what is put before the message, and the exit code. All
    subclasses of `JsonDBError` are named, so the clause for any other is not reached. -/
def exitCode : ExcType → Option (String × Nat)
  | .notFoundError => some ("error: ", 1)
  | .validationError | .serializationError | .queryError | .transactionError => some ("error: ", 2)
  | .lockError => some ("error: ", 3)
  | .integrityError | .databaseFormatError => some ("error: ", 4)
  | .storageError => some ("storage error: ", 5)
  | _ => none

/-- An `except` clause. -/
def handleError (e : PyExc) : Run Nat :=
  match exitCode e.type with
  | some (label, code) => do
    print term (.error (.text label :: e.msg))
    return code
  | none => throw e

/-- `main`, after `parse_args`. -/
def main (args : Args) (uuid : Uuid) : Run Nat := fun s =>
  match dispatch rt cp cfg env term args uuid s with
  | .ok code s' => .ok code s'
  | .error e s' => handleError term e s'

end

/-- The end of a run: the exit code or the exception that was not caught, what was printed, and the
    world. -/
structure Ending where
  code : Except PyExc Nat
  printed : List Output
  world : World

/-- A run in a world, with a new `Database`. -/
def exec (rt : Runtime) (cp : Copier) (cfg : Settings) (env : Env) (term : Terminal) (args : Args)
    (uuid : Uuid) (w : World) : Ending :=
  match main rt cp cfg env term args uuid ⟨.start w, []⟩ with
  | .ok code s => ⟨.ok code, s.printed, s.session.world⟩
  | .error e s => ⟨.error e, s.printed, s.session.world⟩

end Cli

end JsonDatabase
