/-
  File:      JsonDatabase/Objects.lean
  Subject:   `collection.py` on objects: what is changed in place, what is copied, what is handed out.

  The state of a transaction is an object, and so are the documents that the caller passes and gets.
  Here the operations do to objects what the source does: `setdefault` and `update` in place, and
  `copy.deepcopy` where a document comes in or goes out. What a traversal of an object reads is its
  value; a traversal of an object that contains itself ends in a `RecursionError`. An operation
  reads the value of an argument before it looks at its type, so of a list that contains itself,
  where a document or a name is asked for, the source may say `ValidationError` instead.

  * `PySlot`, `PyHeap`, `newObject` -- Python objects, and a new one with a given value;
  * `setdefault`, `setItem`, `delItem`, `updateWith` -- the methods of `dict`;
  * `Objects.insertDocument` .. `Objects.findDocuments` -- the operations;
  * `Request.run`, `Request.perform` -- any of them, on values and on objects.
-/
import JsonDatabase.Query
import JsonDatabase.Basis.Owned

namespace JsonDatabase

open PyVal hiding none

/-! ## 1. Objects -/

/-- The types of sequences. -/
inductive SeqType where
  | list
  | tuple
  | set
  | frozenset
  deriving DecidableEq

instance seqType_kind : SeqKind SeqType where
  frozen
    | .tuple | .frozenset => true
    | .list | .set => false
  reused
    | .tuple => true
    | _ => false

/-- An object without places. None of them can be changed, so it does not matter which one it is. -/
inductive Atom where
  | none
  | bool (b : Bool)
  | int (i : Int)
  | float (f : PyFloat)
  | str (s : Str)
  | datetime (d : DateTime)
  | date (d : Date)
  | decimal (d : Decimal)
  | bytes (b : Bytes)
  | other (typeName : String) (ident : Nat)
  deriving DecidableEq

def Atom.val : Atom → PyVal
  | .none => .none
  | .bool b => .bool b
  | .int i => .int i
  | .float f => .float f
  | .str s => .str s
  | .datetime d => .datetime d
  | .date d => .date d
  | .decimal d => .decimal d
  | .bytes b => .bytes b
  | .other t i => .other t i

/-- The value of an object whose places have these values. -/
def objectValue : Cell PyKey SeqType PyVal → PyVal
  | .dict kvs => .dict kvs
  | .items .list xs => .list xs
  | .items .tuple xs => .tuple xs
  | .items .set xs => .set xs
  | .items .frozenset xs => .frozenset xs

instance pyVal_denoting : Denoting PyKey SeqType Atom PyVal where
  leaf := Atom.val
  build := objectValue
  build_injective := by
    intro c d h
    cases c with
    | dict kvs =>
      cases d with
      | dict kvs' => exact congrArg Cell.dict (PyVal.dict.inj h)
      | items kind ys => cases kind <;> cases h
    | items kind xs =>
      cases d with
      | dict kvs' => cases kind <;> cases h
      | items kind' ys => cases kind <;> cases kind' <;> cases h <;> rfl
  leaf_ne_build := by
    intro a c h
    cases c with
    | dict kvs => cases a <;> cases h
    | items kind xs => cases kind <;> cases a <;> cases h

abbrev PySlot := Slot Atom

abbrev PyHeap := Heap PyKey SeqType Atom

/-- A program on objects; what it changed before raising stays changed. -/
abbrev ObjM := EStateM PyExc PyHeap

namespace Objects

def recursionError : PyExc := .builtin .recursionError

/-- What a traversal of the object reads. -/
def valueOf (s : PySlot) : ObjM PyVal := fun h =>
  match Heap.valueOf h s with
  | some v => .ok v h
  | none => .error recursionError h

/-- `copy.deepcopy`. -/
def deepcopy (cp : Copier) (s : PySlot) : ObjM PySlot := do
  let v ← valueOf s
  let _ ← liftExcept (JsonDatabase.deepcopy cp v)
  fun h => match Heap.deepcopy h s with
    | some (s', h') => .ok s' h'
    | none => .error recursionError h

/-- A new object. -/
def alloc (c : Cell PyKey SeqType PySlot) : ObjM PySlot := fun h => .ok (.ref h.length) (h ++ [c])

/-- What a method of `dict` needs: the dictionary, and what it holds. -/
def asDict (s : PySlot) : ObjM (Nat × Dict PyKey PySlot) := fun h =>
  match s with
  | .atom _ => .error (.builtin .attributeError) h
  | .ref r =>
    match h[r]? with
    | some (.dict entries) => .ok (r, entries) h
    | _ => .error (.builtin .attributeError) h

/-- The dictionary `r` with other entries. -/
def setEntries (r : Nat) (entries : Dict PyKey PySlot) : ObjM Unit := fun h =>
  .ok () (h.set r (.dict entries))

/-- `d[k] = s`. -/
def setItem (d : PySlot) (k : PyKey) (s : PySlot) : ObjM Unit := do
  let (r, entries) ← asDict d
  setEntries r (Dict.put entries k s)

/-- `del d[k]`. -/
def delItem (d : PySlot) (k : PyKey) : ObjM Unit := do
  let (r, entries) ← asDict d
  setEntries r (Dict.drop entries k)

/-- `d.update(fields)`. -/
def updateWith (d fields : PySlot) : ObjM Unit := do
  let (r, entries) ← asDict d
  let (_, new) ← asDict fields
  setEntries r (Dict.merge entries new)

/-- `d.setdefault(k, {})`. -/
def setdefault (d : PySlot) (k : PyKey) : ObjM PySlot := do
  let (r, entries) ← asDict d
  match Dict.get entries k with
  | some s => return s
  | none =>
    let s ← alloc (.dict [])
    setEntries r (Dict.put entries k s)
    return s

end Objects

mutual
/-- Put a value into the heap, as new objects only. -/
def store : PyVal → PyHeap → PySlot × PyHeap
  | .frozenset xs, h =>
    let p := storeList xs h
    (.ref p.2.length, p.2 ++ [.items .frozenset p.1])
  | .set xs, h =>
    let p := storeList xs h
    (.ref p.2.length, p.2 ++ [.items .set p.1])
  | .dict kvs, h =>
    let p := storeEntries kvs h
    (.ref p.2.length, p.2 ++ [.dict p.1])
  | .list xs, h =>
    let p := storeList xs h
    (.ref p.2.length, p.2 ++ [.items .list p.1])
  | .tuple xs, h =>
    let p := storeList xs h
    (.ref p.2.length, p.2 ++ [.items .tuple p.1])
  | .none, h => (.atom .none, h)
  | .bool b, h => (.atom (.bool b), h)
  | .int i, h => (.atom (.int i), h)
  | .float f, h => (.atom (.float f), h)
  | .str s, h => (.atom (.str s), h)
  | .datetime d, h => (.atom (.datetime d), h)
  | .date d, h => (.atom (.date d), h)
  | .decimal d, h => (.atom (.decimal d), h)
  | .bytes b, h => (.atom (.bytes b), h)
  | .other t i, h => (.atom (.other t i), h)

def storeList : List PyVal → PyHeap → List PySlot × PyHeap
  | [], h => ([], h)
  | x :: xs, h =>
    let p := store x h
    let q := storeList xs p.2
    (p.1 :: q.1, q.2)

def storeEntries : List (PyKey × PyVal) → PyHeap → Dict PyKey PySlot × PyHeap
  | [], h => ([], h)
  | (k, v) :: kvs, h =>
    let p := store v h
    let q := storeEntries kvs p.2
    ((k, p.1) :: q.1, q.2)
end

namespace Objects

/-- What `load` returns: an object that was just made. -/
def newObject (v : PyVal) : ObjM PySlot := fun h => .ok (store v h).1 (store v h).2

/-! ## 2. Finding collections and documents -/

/-- `_ensure_collection`. -/
def ensureCollection (state collection : PySlot) : ObjM PySlot := do
  let name ← valueOf collection
  liftExcept (validateCollectionName name)
  let collections ← setdefault state COLLECTIONS
  setdefault collections name.toKey

/-- The collection under `name`, if there is one: `collections = state.get("collections") or {}`. -/
def findCollection (state : PySlot) (name : PyVal) : ObjM (Option PySlot) := do
  let (_, top) ← asDict state
  match Dict.get top COLLECTIONS with
  | none => return none
  | some s =>
    let (_, collections) ← asDict s
    return Dict.get collections name.toKey

/-- `_get_collection_ref`. -/
def getCollectionRef (state collection : PySlot) : ObjM PySlot := do
  let name ← valueOf collection
  liftExcept (validateCollectionName name)
  match ← findCollection state name with
  | none => throw (collectionNotFound name)
  | some documents => return documents

/-- The documents in `_get_collection_ref(..., missing_ok=True).values()`. -/
def documentsOrNone (state collection : PySlot) : ObjM (List PySlot) := do
  let name ← valueOf collection
  liftExcept (validateCollectionName name)
  match ← findCollection state name with
  | none => return []
  | some documents =>
    let (_, entries) ← asDict documents
    return entries.map (·.2)

/-- `_get_document_ref`. -/
def getDocumentRef (state collection documentId : PySlot) : ObjM PySlot := do
  let id ← valueOf documentId
  liftExcept (validateDocumentId id)
  let documents ← getCollectionRef state collection
  let (_, entries) ← asDict documents
  match Dict.get entries id.toKey with
  | none =>
    let name ← valueOf collection
    throw (documentNotFound name id)
  | some document => return document

/-! ## 3. The operations -/

section Operations

variable (rt : Runtime) (cp : Copier)

/-- `insert_document`. -/
def insertDocument (state collection document : PySlot) (uuid : Uuid) : ObjM PySlot := do
  let v ← valueOf document
  liftExcept (validateDocument rt v)
  let fields ← liftExcept (JsonDatabase.asDict v)
  liftExcept (raiseIf (Dict.contains fields ID)
    (validationError "insert() rejects user-supplied id"))
  let documentId : PySlot := .atom (.str uuid.text)
  let stored ← deepcopy cp document
  setItem stored ID documentId
  let documents ← ensureCollection state collection
  setItem documents (.str uuid.text) stored
  return documentId

/-- `get_document`. -/
def getDocument (state collection documentId : PySlot) : ObjM PySlot := do
  let document ← getDocumentRef state collection documentId
  deepcopy cp document

/-- `update_document`. -/
def updateDocument (state collection documentId updates : PySlot) : ObjM PySlot := do
  let v ← valueOf updates
  liftExcept (validateDocument rt v)
  let fields ← liftExcept (JsonDatabase.asDict v)
  liftExcept (raiseIf (Dict.contains fields ID)
    (validationError "update() cannot change document id"))
  let document ← getDocumentRef state collection documentId
  let new ← deepcopy cp updates
  updateWith document new
  deepcopy cp document

/-- `replace_document`. -/
def replaceDocument (state collection documentId document : PySlot) : ObjM PySlot := do
  let v ← valueOf document
  liftExcept (validateDocument rt v)
  let stored ← deepcopy cp document
  let id ← valueOf documentId
  let fields ← liftExcept (JsonDatabase.asDict v)
  liftExcept (validateBodyId "replace" fields id)
  let _ ← getDocumentRef state collection documentId
  setItem stored ID documentId
  let documents ← ensureCollection state collection
  setItem documents id.toKey stored
  deepcopy cp stored

/-- `delete_document`. -/
def deleteDocument (state collection documentId : PySlot) : ObjM PySlot := do
  let id ← valueOf documentId
  liftExcept (validateDocumentId id)
  let documents ← getCollectionRef state collection
  let (_, entries) ← asDict documents
  let name ← valueOf collection
  liftExcept (raiseIf (!Dict.contains entries id.toKey) (documentNotFound name id))
  delItem documents id.toKey
  return .atom .none

/-- `upsert_document`. -/
def upsertDocument (state collection documentId document : PySlot) : ObjM PySlot := do
  let id ← valueOf documentId
  liftExcept (validateDocumentId id)
  let v ← valueOf document
  liftExcept (validateDocument rt v)
  let stored ← deepcopy cp document
  let fields ← liftExcept (JsonDatabase.asDict v)
  liftExcept (validateBodyId "upsert" fields id)
  setItem stored ID documentId
  let documents ← ensureCollection state collection
  setItem documents id.toKey stored
  return documentId

/-- The first loop of `bulk_insert_documents`. -/
def checkInserts : List PySlot → ObjM Unit
  | [] => return ()
  | document :: rest => do
    let v ← valueOf document
    liftExcept (checkInsert rt v)
    checkInserts rest

/-- The second loop of `bulk_insert_documents`. -/
def storeInserts (documents : PySlot) : List (Uuid × PySlot) → ObjM Unit
  | [] => return ()
  | (uuid, document) :: rest => do
    let stored ← deepcopy cp document
    setItem stored ID (.atom (.str uuid.text))
    setItem documents (.str uuid.text) stored
    storeInserts documents rest

/-- What a list holds. -/
def asList (s : PySlot) : ObjM (Option (List PySlot)) := fun h =>
  match s with
  | .atom _ => .ok none h
  | .ref r =>
    match h[r]? with
    | some (.items .list members) => .ok (some members) h
    | _ => .ok none h

/-- `bulk_insert_documents`. -/
def bulkInsertDocuments (state collection documents : PySlot) (uuids : Nat → Uuid) : ObjM PySlot := do
  match ← asList documents with
  | none => throw (validationError "bulk_insert() expects a list of documents")
  | some documents =>
    checkInserts rt documents
    let ids := (List.range documents.length).map uuids
    let collectionState ← ensureCollection state collection
    storeInserts cp collectionState (ids.zip documents)
    alloc (.items .list (ids.map fun u => .atom (.str u.text)))

/-- The two places of a tuple or a list of two. -/
def asPair (s : PySlot) : ObjM (Option (PySlot × PySlot)) := fun h =>
  match s with
  | .atom _ => .ok none h
  | .ref r =>
    match h[r]? with
    | some (.items .tuple [a, b]) => .ok (some (a, b)) h
    | some (.items .list [a, b]) => .ok (some (a, b)) h
    | _ => .ok none h

/-- The first loop of `bulk_update_documents`: the pairs, in a list of its own. -/
def checkUpdates (collection documents : PySlot) : List PySlot → ObjM (List (PySlot × PySlot))
  | [] => return []
  | item :: rest => do
    match ← asPair item with
    | none => throw (validationError "bulk_update() expects (document_id, updates) pairs")
    | some (documentId, update) =>
      let id ← valueOf documentId
      liftExcept (validateDocumentId id)
      let (_, entries) ← asDict documents
      let name ← valueOf collection
      liftExcept (raiseIf (!Dict.contains entries id.toKey) (documentNotFound name id))
      let v ← valueOf update
      liftExcept (validateDocument rt v)
      let fields ← liftExcept (JsonDatabase.asDict v)
      liftExcept (raiseIf (Dict.contains fields ID)
        (validationError "bulk_update() cannot change document id"))
      let normalized ← checkUpdates collection documents rest
      return (documentId, update) :: normalized

/-- The second loop of `bulk_update_documents`. -/
def applyUpdates (documents : PySlot) : List (PySlot × PySlot) → ObjM Unit
  | [] => return ()
  | (documentId, update) :: rest => do
    let id ← valueOf documentId
    let (_, entries) ← asDict documents
    match Dict.get entries id.toKey with
    | none => throw (.builtin .attributeError)
    | some document =>
      let new ← deepcopy cp update
      updateWith document new
      applyUpdates documents rest

/-- `bulk_update_documents`. -/
def bulkUpdateDocuments (state collection updates : PySlot) : ObjM PySlot := do
  match ← asList updates with
  | none => throw (validationError "bulk_update() expects a list of updates")
  | some updates =>
    let documents ← getCollectionRef state collection
    let normalized ← checkUpdates rt collection documents updates
    applyUpdates cp documents normalized
    return .atom (.int normalized.length)

/-- The copies that `all_documents` makes. -/
def copyAll : List PySlot → ObjM (List PySlot)
  | [] => return []
  | document :: rest => do
    let copied ← deepcopy cp document
    let copies ← copyAll rest
    return copied :: copies

/-- `all_documents`, before the list of the copies is made. -/
def allCopies (state collection : PySlot) : ObjM (List PySlot) := do
  let documents ← documentsOrNone state collection
  copyAll cp documents

/-- `all_documents`. -/
def allDocuments (state collection : PySlot) : ObjM PySlot := do
  let copies ← allCopies cp state collection
  alloc (.items .list copies)

/-- The documents that match. -/
def selectDocuments (criteria : PyVal) : List PySlot → ObjM (List PySlot)
  | [] => return []
  | document :: rest => do
    let v ← valueOf document
    let ok ← liftExcept (matchesCriteria v criteria)
    let selected ← selectDocuments criteria rest
    return if ok then document :: selected else selected

/-- `find_documents`. -/
def findDocuments (state collection criteria : PySlot) : ObjM PySlot := do
  let documents ← allCopies cp state collection
  let criteria ← valueOf criteria
  let _ ← liftExcept (matchesCriteria (.dict []) criteria)
  let selected ← selectDocuments criteria documents
  alloc (.items .list selected)

end Operations

end Objects

/-! ## 4. Any of them -/

/-- A call on a transaction, with arguments of some kind and the identifiers it would generate. -/
inductive Request (A : Type) where
  | insert (collection document : A) (uuid : Uuid)
  | update (collection documentId updates : A)
  | replace (collection documentId document : A)
  | delete (collection documentId : A)
  | upsert (collection documentId document : A)
  | bulkInsert (collection documents : A) (uuids : Nat → Uuid)
  | bulkUpdate (collection updates : A)
  | get (collection documentId : A)
  | all (collection : A)
  | find (collection criteria : A)
  | state

/-- The same call with related arguments. -/
inductive Request.Rel {A B : Type} (P : A → B → Prop) : Request A → Request B → Prop
  | insert {c d : A} {c' d' : B} {u : Uuid} : P c c' → P d d' → Rel P (.insert c d u) (.insert c' d' u)
  | update {c i d : A} {c' i' d' : B} : P c c' → P i i' → P d d' →
      Rel P (.update c i d) (.update c' i' d')
  | replace {c i d : A} {c' i' d' : B} : P c c' → P i i' → P d d' →
      Rel P (.replace c i d) (.replace c' i' d')
  | delete {c i : A} {c' i' : B} : P c c' → P i i' → Rel P (.delete c i) (.delete c' i')
  | upsert {c i d : A} {c' i' d' : B} : P c c' → P i i' → P d d' →
      Rel P (.upsert c i d) (.upsert c' i' d')
  | bulkInsert {c ds : A} {c' ds' : B} {us : Nat → Uuid} : P c c' → P ds ds' →
      Rel P (.bulkInsert c ds us) (.bulkInsert c' ds' us)
  | bulkUpdate {c us : A} {c' us' : B} : P c c' → P us us' →
      Rel P (.bulkUpdate c us) (.bulkUpdate c' us')
  | get {c i : A} {c' i' : B} : P c c' → P i i' → Rel P (.get c i) (.get c' i')
  | all {c : A} {c' : B} : P c c' → Rel P (.all c) (.all c')
  | find {c q : A} {c' q' : B} : P c c' → P q q' → Rel P (.find c q) (.find c' q')
  | state : Rel P .state .state

section

variable (rt : Runtime) (cp : Copier)

/-- The call on values. -/
def Request.run : Request PyObj → Op PyVal
  | .insert c d u => JsonDatabase.insertDocument rt cp c.val d.val u
  | .update c i d => JsonDatabase.updateDocument rt cp c.val i.val d.val
  | .replace c i d => JsonDatabase.replaceDocument rt cp c.val i.val d.val
  | .delete c i => JsonDatabase.deleteDocument c.val i.val
  | .upsert c i d => JsonDatabase.upsertDocument rt cp c.val i.val d.val
  | .bulkInsert c ds us => JsonDatabase.bulkInsertDocuments rt cp c.val ds.val us
  | .bulkUpdate c us => JsonDatabase.bulkUpdateDocuments rt cp c.val us.val
  | .get c i => do
    let state ← MonadState.get
    liftExcept (JsonDatabase.getDocument cp state c.val i.val)
  | .all c => do
    let state ← MonadState.get
    let documents ← liftExcept (JsonDatabase.allDocuments cp state c.val)
    return .list documents
  | .find c q => do
    let state ← MonadState.get
    let documents ← liftExcept (JsonDatabase.findDocuments cp state c.val q.val)
    return .list documents
  | .state => do
    let state ← MonadState.get
    liftExcept (JsonDatabase.deepcopy cp (.dict state))

/-- The call on objects; `state` is the object that the transaction works on. -/
def Request.perform (state : PySlot) : Request PySlot → ObjM PySlot
  | .insert c d u => Objects.insertDocument rt cp state c d u
  | .update c i d => Objects.updateDocument rt cp state c i d
  | .replace c i d => Objects.replaceDocument rt cp state c i d
  | .delete c i => Objects.deleteDocument state c i
  | .upsert c i d => Objects.upsertDocument rt cp state c i d
  | .bulkInsert c ds us => Objects.bulkInsertDocuments rt cp state c ds us
  | .bulkUpdate c us => Objects.bulkUpdateDocuments rt cp state c us
  | .get c i => Objects.getDocument cp state c i
  | .all c => Objects.allDocuments cp state c
  | .find c q => Objects.findDocuments cp state c q
  | .state => Objects.deepcopy cp state

end

/-- A write as a call. -/
def OpCall.request : OpCall → Request PyObj
  | .insert c d u => .insert c d u
  | .update c i u => .update c i u
  | .replace c i d => .replace c i d
  | .delete c i => .delete c i
  | .upsert c i d => .upsert c i d
  | .bulkInsert c ds us => .bulkInsert c ds us
  | .bulkUpdate c us => .bulkUpdate c us

theorem OpCall.request_run (rt : Runtime) (cp : Copier) (call : OpCall) :
    call.request.run rt cp = call.run rt cp := by
  cases call <;> rfl

end JsonDatabase
