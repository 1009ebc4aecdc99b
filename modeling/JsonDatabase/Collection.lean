/-
  File:      JsonDatabase/Collection.lean
  Subject:   `collection.py`: the operations on a state.

  A state is the dictionary that was loaded: `meta`, `collections`, and whatever else the file
  held. The write operations change it in place, so what they did before raising stays done.
  `copy.deepcopy` is the identity on values, but it may raise.

  * `validateCollectionName`, `validateDocument` -- what the API accepts;
  * `insertDocument` .. `bulkUpdateDocuments` -- the seven writes, and `OpCall.run` for any of
    them;
  * `getDocument`, `allDocuments` -- the reads.
-/
import JsonDatabase.Serializer
import JsonDatabase.Basis.Program
import JsonDatabase.Basis.Result

namespace JsonDatabase

open PyVal hiding none

/-! ## 1. What the operations use -/

/-- A loaded database. -/
abbrev State := PyDict

/-- A write: it may raise, with whatever it had changed by then. -/
abbrev Op := EStateM PyExc State

/-- What a write returns and the state it leaves, if it returns. -/
def Op.result {α : Type} (op : Op α) (s : State) : Except PyExc (α × State) :=
  match op s with
  | .ok r s' => .ok (r, s')
  | .error e _ => .error e

theorem Op.result_iff {α : Type} {op : Op α} {s s' : State} {r : α} :
    op.result s = .ok (r, s') ↔ op s = .ok r s' := by
  unfold Op.result
  constructor
  · intro h
    cases hs : op s with
    | ok a s₁ =>
      rw [hs] at h
      cases h
      rfl
    | error e s₁ =>
      rw [hs] at h
      cases h
  · intro h
    rw [h]

def META : PyKey := .str (lit "meta")

def COLLECTIONS : PyKey := .str (lit "collections")

def ID : PyKey := .str (lit "id")

/-- A generated identifier. -/
structure Uuid where
  bits : Fin (2 ^ 128)
  deriving DecidableEq

instance uuid_neZero : NeZero (2 ^ 128) := ⟨by decide⟩

/-- The lowest `n` hexadecimal digits. -/
def hexDigits : Nat → Nat → Str
  | 0, _ => []
  | n + 1, m => hexDigits n (m / 16) ++ [hexDigit (m % 16)]

/-- `str(u)`: 32 hexadecimal digits in groups of 8, 4, 4, 4 and 12. -/
def Uuid.text (u : Uuid) : Str :=
  hexDigits 8 (u.bits / 2 ^ 96) ++ dash :: (hexDigits 4 (u.bits / 2 ^ 80) ++ dash ::
    (hexDigits 4 (u.bits / 2 ^ 64) ++ dash :: (hexDigits 4 (u.bits / 2 ^ 48) ++ dash ::
      hexDigits 12 u.bits)))

/-- `copy.deepcopy`: the exceptions it raises, a `RecursionError` on deep nesting say. -/
structure Copier where
  fails : PyVal → Option PyExc

/-- Copying always succeeds. -/
def Copier.total : Copier := ⟨fun _ => none⟩

def deepcopy (cp : Copier) (v : PyVal) : Except PyExc PyVal :=
  match cp.fails v with
  | none => .ok v
  | some e => .error e

/-- What a method of `dict` needs. -/
def asDict : PyVal → Except PyExc PyDict
  | .dict kvs => .ok kvs
  | _ => .error (.builtin .attributeError)

def validationError (s : String) : PyExc := .plain .validationError s

/-! ## 2. Validation -/

/-- `[A-Za-z0-9_-]`. -/
def nameChar (c : CodePoint) : Bool :=
  decide (0x41 ≤ c.val ∧ c.val ≤ 0x5A ∨ 0x61 ≤ c.val ∧ c.val ≤ 0x7A ∨ 0x30 ≤ c.val ∧ c.val ≤ 0x39 ∨
    c.val = 0x5F ∨ c.val = 0x2D)

/-- `_COLLECTION_RE.match`: `$` also matches before a newline at the very end. -/
def collectionRe (s : Str) : Bool :=
  let body := if s.getLast? = some 0x0A then s.dropLast else s
  !body.isEmpty && body.all nameChar

/-- `PurePath(name).name`: the last component that is neither empty nor a single dot. -/
def purePathName (s : Str) : Str :=
  (((s.splitOn (ch '/')).filter fun p => p ≠ [] && p ≠ [dot]).getLast?).getD []

/-- `validate_collection_name`. -/
def validateCollectionName : PyVal → Except PyExc Unit
  | .str name =>
    if name = [] then .error (validationError "collection name cannot be empty")
    else if name.take 2 = lit "__" then
      .error (validationError "collection name cannot start with __")
    else if purePathName name ≠ name ∨ ch '/' ∈ name ∨ backslash ∈ name then
      .error (validationError "collection name cannot contain path separators")
    else if collectionRe name then .ok ()
    else .error (validationError
      "collection name may only contain letters, numbers, underscore, and dash")
  | _ => .error (validationError "collection name must be a string")

mutual
/-- `_reject_reserved_type_key` raises. -/
def reservedInside : PyVal → Bool
  | .dict kvs => Dict.contains kvs (.str TYPE_KEY) || reservedInsideEntries kvs
  | .list xs => reservedInsideList xs
  | .tuple xs => reservedInsideList xs
  | .set xs => reservedInsideList xs
  | _ => false

def reservedInsideList : List PyVal → Bool
  | [] => false
  | x :: xs => reservedInside x || reservedInsideList xs

def reservedInsideEntries : List (PyKey × PyVal) → Bool
  | [] => false
  | (_, v) :: kvs => reservedInside v || reservedInsideEntries kvs
end

/-- `validate_document`. -/
def validateDocument (rt : Runtime) (document : PyVal) : Except PyExc Unit :=
  match document with
  | .dict _ => do
    raiseIf (reservedInside document)
      (validationError "__jsondb_type__ is reserved for internal serialization")
    Except.handle (validate rt document) (· = .serializationError)
      fun e => ⟨.validationError, .text "document contains unserializable value: " :: e.msg,
        none, none⟩
  | _ => .error (validationError "document must be an object")

/-- `_validate_document_id`. -/
def validateDocumentId : PyVal → Except PyExc Unit
  | .str id =>
    if id = [] then .error (validationError "document id must be a non-empty string") else .ok ()
  | _ => .error (validationError "document id must be a non-empty string")

/-- `_validate_body_id`. -/
def validateBodyId (operation : String) (stored : PyDict) (documentId : PyVal) :
    Except PyExc Unit :=
  match Dict.get stored ID with
  | none => .ok ()
  | some v =>
    match eqVals v documentId with
    | .ok true => .ok ()
    | .ok false => .error (validationError (operation ++ "() cannot change document id"))
    | .error t => .error (.builtin t)

/-! ## 3. Finding collections and documents -/

def collectionNotFound (collection : PyVal) : PyExc :=
  ⟨.notFoundError, [.text "collection not found: ", .str collection], none, none⟩

def documentNotFound (collection documentId : PyVal) : PyExc :=
  ⟨.notFoundError, [.text "document not found: ", .str collection, .text "/", .str documentId],
    none, none⟩

/-- `state.setdefault("collections", {})`, before the default is stored. -/
def collectionsOf (state : State) : Except PyExc PyDict :=
  asDict ((Dict.get state COLLECTIONS).getD (.dict []))

/-- The state after an assignment inside the collection under `name`. -/
def writeDocs (state : State) (collections : PyDict) (name : PyKey) (docs : PyDict) : State :=
  Dict.put state COLLECTIONS (.dict (Dict.put collections name (.dict docs)))

/-- `_ensure_collection`: the documents of the collection, created if it is missing. -/
def ensureCollection (collection : PyVal) : Op PyDict := do
  liftExcept (validateCollectionName collection)
  let state ← get
  let collections ← liftExcept (collectionsOf state)
  let docs ← liftExcept (asDict ((Dict.get collections collection.toKey).getD (.dict [])))
  set (writeDocs state collections collection.toKey docs)
  return docs

/-- `collection_state[document_id] = document` on a collection that exists. -/
def assignDocument (collection documentId : PyVal) (document : PyDict) : Op Unit := do
  let state ← get
  let collections ← liftExcept (collectionsOf state)
  let docs ← liftExcept (asDict ((Dict.get collections collection.toKey).getD (.dict [])))
  set (writeDocs state collections collection.toKey
    (Dict.put docs documentId.toKey (.dict document)))

/-- `_get_collection_ref`. -/
def getCollectionRef (state : State) (collection : PyVal) : Except PyExc PyDict := do
  validateCollectionName collection
  let collections ← collectionsOf state
  match Dict.get collections collection.toKey with
  | none => throw (collectionNotFound collection)
  | some docs => asDict docs

/-- `_get_collection_ref(..., missing_ok=True)`. -/
def getCollectionRefOrEmpty (state : State) (collection : PyVal) : Except PyExc PyDict := do
  validateCollectionName collection
  let collections ← collectionsOf state
  match Dict.get collections collection.toKey with
  | none => return []
  | some docs => asDict docs

/-- `_get_document_ref`. -/
def getDocumentRef (state : State) (collection documentId : PyVal) : Except PyExc PyDict := do
  validateDocumentId documentId
  let docs ← getCollectionRef state collection
  match Dict.get docs documentId.toKey with
  | none => throw (documentNotFound collection documentId)
  | some document => asDict document

/-! ## 4. Writes -/

section Writes

variable (rt : Runtime) (cp : Copier)

/-- `copy.deepcopy` of a dictionary. -/
def copyDict (document : PyVal) : Except PyExc PyDict := do
  let stored ← deepcopy cp document
  asDict stored

/-- `insert_document`. -/
def insertDocument (collection document : PyVal) (uuid : Uuid) : Op PyVal := do
  liftExcept (validateDocument rt document)
  let fields ← liftExcept (asDict document)
  liftExcept (raiseIf (Dict.contains fields ID)
    (validationError "insert() rejects user-supplied id"))
  let documentId : PyVal := .str uuid.text
  let stored ← liftExcept (copyDict cp document)
  let _ ← ensureCollection collection
  assignDocument collection documentId (Dict.put stored ID documentId)
  return documentId

/-- `update_document`. -/
def updateDocument (collection documentId updates : PyVal) : Op PyVal := do
  liftExcept (validateDocument rt updates)
  let fields ← liftExcept (asDict updates)
  liftExcept (raiseIf (Dict.contains fields ID)
    (validationError "update() cannot change document id"))
  let state ← get
  let document ← liftExcept (getDocumentRef state collection documentId)
  let fields ← liftExcept (copyDict cp updates)
  let merged := Dict.merge document fields
  assignDocument collection documentId merged
  liftExcept (deepcopy cp (.dict merged))

/-- `replace_document`. -/
def replaceDocument (collection documentId document : PyVal) : Op PyVal := do
  liftExcept (validateDocument rt document)
  let stored ← liftExcept (copyDict cp document)
  liftExcept (validateBodyId "replace" stored documentId)
  let state ← get
  let _ ← liftExcept (getDocumentRef state collection documentId)
  let stored := Dict.put stored ID documentId
  let _ ← ensureCollection collection
  assignDocument collection documentId stored
  liftExcept (deepcopy cp (.dict stored))

/-- `delete_document`. -/
def deleteDocument (collection documentId : PyVal) : Op PyVal := do
  liftExcept (validateDocumentId documentId)
  let state ← get
  let docs ← liftExcept (getCollectionRef state collection)
  liftExcept (raiseIf (!Dict.contains docs documentId.toKey)
    (documentNotFound collection documentId))
  let collections ← liftExcept (collectionsOf state)
  set (writeDocs state collections collection.toKey (Dict.drop docs documentId.toKey))
  return .none

/-- `upsert_document`. -/
def upsertDocument (collection documentId document : PyVal) : Op PyVal := do
  liftExcept (validateDocumentId documentId)
  liftExcept (validateDocument rt document)
  let stored ← liftExcept (copyDict cp document)
  liftExcept (validateBodyId "upsert" stored documentId)
  let _ ← ensureCollection collection
  assignDocument collection documentId (Dict.put stored ID documentId)
  return documentId

/-- The first loop of `bulk_insert_documents`. -/
def checkInsert (document : PyVal) : Except PyExc Unit := do
  validateDocument rt document
  let fields ← asDict document
  raiseIf (Dict.contains fields ID) (validationError "bulk_insert() rejects user-supplied id")

/-- The second loop of `bulk_insert_documents`. -/
def storeInserts (collection : PyVal) : List (Uuid × PyVal) → Op Unit
  | [] => return ()
  | (uuid, document) :: rest => do
    let stored ← liftExcept (copyDict cp document)
    assignDocument collection (.str uuid.text) (Dict.put stored ID (.str uuid.text))
    storeInserts collection rest

/-- `bulk_insert_documents`; `uuids i` is generated for the document at `i`. -/
def bulkInsertDocuments (collection documents : PyVal) (uuids : Nat → Uuid) : Op PyVal :=
  match documents with
  | .list documents => do
    liftExcept (forEach (checkInsert rt) documents)
    let ids := (List.range documents.length).map uuids
    let _ ← ensureCollection collection
    storeInserts cp collection (ids.zip documents)
    return .list (ids.map fun u => .str u.text)
  | _ => throw (validationError "bulk_insert() expects a list of documents")

/-- The first loop of `bulk_update_documents`: the pair an item gives. -/
def checkUpdate (collection : PyVal) (docs : PyDict) (item : PyVal) :
    Except PyExc (PyVal × PyVal) :=
  match item with
  | .tuple [documentId, update] | .list [documentId, update] => do
    validateDocumentId documentId
    raiseIf (!Dict.contains docs documentId.toKey) (documentNotFound collection documentId)
    validateDocument rt update
    let fields ← asDict update
    raiseIf (Dict.contains fields ID) (validationError "bulk_update() cannot change document id")
    return (documentId, update)
  | _ => .error (validationError "bulk_update() expects (document_id, updates) pairs")

/-- The second loop of `bulk_update_documents`. -/
def applyUpdates (collection : PyVal) : List (PyVal × PyVal) → Op Unit
  | [] => return ()
  | (documentId, update) :: rest => do
    let state ← get
    let document ← liftExcept (getDocumentRef state collection documentId)
    let fields ← liftExcept (copyDict cp update)
    assignDocument collection documentId (Dict.merge document fields)
    applyUpdates collection rest

/-- `bulk_update_documents`. -/
def bulkUpdateDocuments (collection updates : PyVal) : Op PyVal :=
  match updates with
  | .list updates => do
    let state ← get
    let docs ← liftExcept (getCollectionRef state collection)
    let normalized ← liftExcept (updates.mapM (checkUpdate rt collection docs))
    applyUpdates cp collection normalized
    return .int normalized.length
  | _ => throw (validationError "bulk_update() expects a list of updates")

end Writes

/-- A call of a write operation, with the identifiers it would generate. -/
inductive OpCall where
  | insert (collection document : PyObj) (uuid : Uuid)
  | update (collection documentId updates : PyObj)
  | replace (collection documentId document : PyObj)
  | delete (collection documentId : PyObj)
  | upsert (collection documentId document : PyObj)
  | bulkInsert (collection documents : PyObj) (uuids : Nat → Uuid)
  | bulkUpdate (collection updates : PyObj)

def OpCall.run (rt : Runtime) (cp : Copier) : OpCall → Op PyVal
  | .insert c d u => insertDocument rt cp c.val d.val u
  | .update c i u => updateDocument rt cp c.val i.val u.val
  | .replace c i d => replaceDocument rt cp c.val i.val d.val
  | .delete c i => deleteDocument c.val i.val
  | .upsert c i d => upsertDocument rt cp c.val i.val d.val
  | .bulkInsert c ds us => bulkInsertDocuments rt cp c.val ds.val us
  | .bulkUpdate c us => bulkUpdateDocuments rt cp c.val us.val

/-! ## 5. Reads -/

/-- `get_document`. -/
def getDocument (cp : Copier) (state : State) (collection documentId : PyVal) :
    Except PyExc PyVal := do
  let document ← getDocumentRef state collection documentId
  deepcopy cp (.dict document)

/-- `all_documents`. -/
def allDocuments (cp : Copier) (state : State) (collection : PyVal) :
    Except PyExc (List PyVal) := do
  let docs ← getCollectionRefOrEmpty state collection
  docs.mapM fun kv => deepcopy cp kv.2

end JsonDatabase
