/-
  File:      JsonDatabase/Storage.lean
  Subject:   `storage.py`: from the bytes of a file to a state, and back.

  * `validateRawDocumentFields`, `validateStateShape` -- the checks on the parsed text and on the
    decoded state;
  * `computeChecksum`, `verifyChecksum` -- the digest of the canonical form with the field that
    holds it nulled;
  * `load`, `checkIntegrity` -- reading, and the report about it;
  * `prepareForCommit`, `commitBytes` -- what a commit writes.
-/
import JsonDatabase.Collection

namespace JsonDatabase

open PyVal hiding none

def FORMAT : Str := lit "json_database"

def VERSION : Int := 1

def FORMAT_KEY : PyKey := .str (lit "format")

def VERSION_KEY : PyKey := .str (lit "version")

def CREATED_AT : PyKey := .str (lit "created_at")

def UPDATED_AT : PyKey := .str (lit "updated_at")

def CONTENT_SHA256 : PyKey := .str (lit "content_sha256")

/-- A `DatabaseFormatError`; its message ends with the path in brackets. -/
def formatError (msg : List Part) : PyExc :=
  ⟨.databaseFormatError, msg ++ [.text " [", .dbPath, .text "]"], none, none⟩

/-! ## 1. The parsed text -/

mutual
/-- `_validate_raw_value_for_reserved_keys` returns: an object with the reserved key is exactly
    an envelope. What is inside an envelope is not looked at. -/
def rawValueOk : Json → Bool
  | .obj kvs =>
    if Dict.contains kvs TYPE_KEY then
      (Dict.keys kvs).all (fun k => k = TYPE_KEY || k = VALUE_KEY) && Dict.contains kvs VALUE_KEY
    else rawEntriesOk kvs
  | .arr xs => rawListOk xs
  | _ => true

def rawListOk : List Json → Bool
  | [] => true
  | x :: xs => rawValueOk x && rawListOk xs

def rawEntriesOk : List (Str × Json) → Bool
  | [] => true
  | (_, v) :: kvs => rawValueOk v && rawEntriesOk kvs
end

/-- `_validate_raw_document_tree`. -/
def validateRawDocumentTree (document : Dict Str Json) : Except PyExc Unit :=
  if Dict.contains document TYPE_KEY then
    .error (formatError [.text "__jsondb_type__ is reserved and cannot be a document field"])
  else if rawEntriesOk document then .ok ()
  else .error (formatError [.text "__jsondb_type__ is reserved for internal serialization"])

def isEmptyStr : Option Json → Bool
  | some (.str []) => true
  | _ => false

/-- One document of a collection in the parsed text. -/
def validateRawDocument (entry : Str × Json) : Except PyExc Unit := do
  raiseIf (entry.1 = []) (formatError [.text "document id cannot be empty"])
  match entry.2 with
  | .obj fields => do
    raiseIf (isEmptyStr (Dict.get fields (lit "id")))
      (formatError [.text "document id field cannot be empty"])
    validateRawDocumentTree fields
  | _ => .ok ()

/-- `validate_collection_name`, its `ValidationError` turned into a `DatabaseFormatError`. -/
def validateStoredName (name : PyKey) : Except PyExc Unit :=
  Except.handle (validateCollectionName name.toVal) (· = .validationError) fun e =>
    formatError (.text "invalid collection name " :: .repr name.toVal :: .text ": " :: e.msg)

/-- One collection in the parsed text. -/
def validateRawCollection (entry : Str × Json) : Except PyExc Unit := do
  validateStoredName (.str entry.1)
  match entry.2 with
  | .obj documents => forEach validateRawDocument documents
  | _ => .ok ()

/-- `_validate_raw_document_fields`. -/
def validateRawDocumentFields : Json → Except PyExc Unit
  | .obj state =>
    match Dict.get state (lit "collections") with
    | some (.obj collections) => forEach validateRawCollection collections
    | _ => .ok ()
  | _ => .ok ()

/-! ## 2. The decoded state -/

/-- `if a != b: raise e`. -/
def raiseUnlessEq (a b : PyVal) (e : PyExc) : Except PyExc Unit :=
  match eqVals a b with
  | .ok r => raiseIf (!r) e
  | .error t => .error (.builtin t)

/-- One document of a collection. -/
def validateDocumentShape (collectionName : PyKey) (entry : PyKey × PyVal) : Except PyExc Unit :=
  match entry.1 with
  | .other _ _ =>
    .error (formatError [.text "document id must be a string in ", .str collectionName.toVal])
  | .str id => do
    raiseIf (id = [])
      (formatError [.text "document id cannot be empty in ", .str collectionName.toVal])
    match entry.2 with
    | .dict fields =>
      raiseUnlessEq ((Dict.get fields ID).getD .none) (.str id)
        (formatError [.text "document id mismatch: ", .str collectionName.toVal, .text "/",
          .str (.str id)])
    | _ => .error (formatError [.text "document must be an object: ", .str collectionName.toVal,
        .text "/", .str (.str id)])

/-- One collection. -/
def validateCollectionShape (entry : PyKey × PyVal) : Except PyExc Unit := do
  validateStoredName entry.1
  match entry.2 with
  | .dict documents => forEach (validateDocumentShape entry.1) documents
  | _ => .error (formatError [.text "collection must be an object: ", .str entry.1.toVal])

def isStr : Option PyVal → Bool
  | some (.str _) => true
  | _ => false

/-- `_validate_state_shape`. -/
def validateStateShape (requireChecksum : Bool) (state : PyVal) : Except PyExc Unit :=
  match state with
  | .dict state =>
    match Dict.get state META with
    | some (.dict fields) => do
      let format := (Dict.get fields FORMAT_KEY).getD .none
      raiseUnlessEq format (.str FORMAT)
        (formatError [.text "database format is not json_database: ", .repr format])
      let version := (Dict.get fields VERSION_KEY).getD .none
      raiseUnlessEq version (.int VERSION)
        (formatError [.text "unsupported database version: ", .repr version,
          .text " (expected 1)"])
      raiseIf (requireChecksum && !isStr (Dict.get fields CONTENT_SHA256))
        (formatError [.text "database checksum missing"])
      match Dict.get state COLLECTIONS with
      | some (.dict collections) => forEach validateCollectionShape collections
      | _ => .error (formatError [.text "database collections must be an object"])
    | _ => .error (formatError [.text "database meta must be an object"])
  | _ => .error (formatError [.text "database state must be an object"])

/-! ## 3. The checksum -/

variable (rt : Runtime)

/-- The state with its checksum field set to `v`; `setdefault("meta", {})` first. -/
def setChecksum (state : State) (v : PyVal) : Except PyExc State := do
  let fields ← asDict ((Dict.get state META).getD (.dict []))
  return Dict.put state META (.dict (Dict.put fields CONTENT_SHA256 v))

/-- `compute_checksum`. -/
def computeChecksum (cp : Copier) (state : State) : Except PyExc Str := do
  let canonical ← copyDict cp (.dict state)
  let canonical ← setChecksum canonical .none
  let bytes ← dumpBytes rt compact (.dict canonical)
  return rt.sha256 bytes

/-- `_verify_checksum`. What was decoded from a file is taken to be copied without an exception. -/
def verifyChecksum (state : State) : Except PyExc Unit := do
  let fields ← asDict ((Dict.get state META).getD .none)
  let expected := (Dict.get fields CONTENT_SHA256).getD .none
  let actual ← computeChecksum rt .total state
  raiseUnlessEq expected (.str actual)
    ⟨.integrityError, [.text "database checksum mismatch; file may be corrupt or modified ",
      .text "outside json_database [", .dbPath, .text "]"], some expected, some (.str actual)⟩

/-! ## 4. Loading -/

/-- `make_empty_state` at the time `now`; there is next to nothing to copy in it. -/
def makeEmptyState (now : DateTime) : Except PyExc State := do
  let state : State :=
    [(META, .dict [(FORMAT_KEY, .str FORMAT), (VERSION_KEY, .int VERSION),
        (CREATED_AT, .datetime now), (UPDATED_AT, .datetime now), (CONTENT_SHA256, .none)]),
      (COLLECTIONS, .dict [])]
  let digest ← computeChecksum rt .total state
  setChecksum state (.str digest)

/-- What reading the database path finds. -/
inductive FileRead where
  | missing
  /-- Reading raised an `OSError`. -/
  | unreadable
  | bytes (b : Bytes)

/-- `json.loads(raw.decode("utf-8"))`, with the exceptions that `load` translates. -/
def parseBytes (raw : Bytes) : Except PyExc Json :=
  match utf8Decode raw with
  | none => .error ⟨.databaseFormatError, [.text "invalid database JSON: ", .system], none, none⟩
  | some text =>
    match loads rt.floats text with
    | .ok parsed => .ok parsed
    | .error .decode =>
      .error ⟨.databaseFormatError, [.text "invalid database JSON: ", .system], none, none⟩
    | .error .intTooLong => .error (.builtin .valueError)
    | .error .outOfFuel => .error (.builtin .recursionError)

/-- `load` on the bytes of a file. -/
def loadBytes (raw : Bytes) : Except PyExc State := do
  raiseIf (raw = []) ⟨.databaseFormatError, [.text "database file is empty: ", .dbPath], none, none⟩
  let parsed ← parseBytes rt raw
  validateRawDocumentFields parsed
  let state ← Except.handle (decode rt parsed) (· = .serializationError) fun e =>
    ⟨.databaseFormatError, .text "invalid database JSON: " :: e.msg, none, none⟩
  validateStateShape true state
  let state ← asDict state
  verifyChecksum rt state
  return state

/-- `StorageEngine.load` at the time `now`. -/
def load (now : DateTime) : FileRead → Except PyExc State
  | .missing => makeEmptyState rt now
  | .unreadable => .error ⟨.storageError, [.text "could not read database file ", .dbPath,
      .text ": ", .system], none, none⟩
  | .bytes raw => loadBytes rt raw

inductive IntegrityStatus where
  | ok
  | missing
  | corrupt
  | format
  | storage
  deriving DecidableEq

structure IntegrityReport where
  ok : Bool
  status : IntegrityStatus
  message : List Part
  expected : Option PyVal
  actual : Option PyVal

/-- `StorageEngine.check_integrity` at the time `now`. -/
def checkIntegrity (now : DateTime) (file : FileRead) : Except PyExc IntegrityReport :=
  match file with
  | .missing => .ok ⟨false, .missing, [.text "database file does not exist: ", .dbPath], none, none⟩
  | file =>
    match load rt now file with
    | .ok _ => .ok ⟨true, .ok, [.text "integrity check passed"], none, none⟩
    | .error e =>
      match e.type with
      | .integrityError => .ok ⟨false, .corrupt, e.msg, e.expected, e.actual⟩
      | .databaseFormatError => .ok ⟨false, .format, e.msg, none, none⟩
      | .storageError => .ok ⟨false, .storage, e.msg, none, none⟩
      | _ => .error e

/-! ## 5. Committing -/

/-- `d.setdefault(k, v)`. -/
def setDefault (d : PyDict) (k : PyKey) (v : PyVal) : PyDict :=
  if Dict.contains d k then d else Dict.put d k v

/-- The meta block of a commit at `now`, its checksum still null. -/
def stampMeta (now : DateTime) (fields : PyDict) : PyDict :=
  let fields := setDefault fields FORMAT_KEY (.str FORMAT)
  let fields := setDefault fields VERSION_KEY (.int VERSION)
  let fields := setDefault fields CREATED_AT (.datetime now)
  let fields := Dict.put fields UPDATED_AT (.datetime now)
  Dict.put fields CONTENT_SHA256 .none

/-- The copy that `_prepare_for_commit` works on, stamped, before it has its checksum. -/
def stampState (now : DateTime) (state : State) : Except PyExc State := do
  let fields ← asDict ((Dict.get state META).getD (.dict []))
  return Dict.put state META (.dict (stampMeta now fields))

/-- `_prepare_for_commit` at the time `now`. -/
def prepareForCommit (cp : Copier) (now : DateTime) (state : State) : Except PyExc State := do
  validateStateShape false (.dict state)
  let copied ← copyDict cp (.dict state)
  let stamped ← stampState now copied
  let digest ← computeChecksum rt cp stamped
  let prepared ← setChecksum stamped (.str digest)
  validateStateShape true (.dict prepared)
  return prepared

/-- The bytes a commit writes. -/
def commitBytes (cp : Copier) (now : DateTime) (state : State) : Except PyExc Bytes := do
  let prepared ← prepareForCommit rt cp now state
  dumpBytes rt indented (.dict prepared)

end JsonDatabase
