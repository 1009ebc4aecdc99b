/-
  File:      JsonDatabase/Query.lean
  Subject:   `query.py`: which documents a query selects.

  Criteria are an object: each field is compared by `==`, or by the operators of an object whose
  keys all start with a dollar sign. A comparison that raises `TypeError` does not match; any
  other exception of a comparison ends the query.

  * `matches` -- one document against the criteria;
  * `filterDocuments`, `findDocuments` -- all documents of a collection.
-/
import JsonDatabase.Collection

namespace JsonDatabase

open PyVal hiding none

def queryError (msg : List Part) : PyExc := ⟨.queryError, msg, none, none⟩

/-- An exception of the interpreter's own. -/
def builtin {α : Type} : Except ExcType α → Except PyExc α := Except.mapError .builtin

inductive QueryOp where
  | eq
  | ne
  | order (op : CmpOp)
  | isIn
  | nin
  | contains
  | present

/-- The operators by their names. -/
def OPERATORS : Dict PyKey QueryOp :=
  [(.str (lit "$eq"), .eq), (.str (lit "$ne"), .ne), (.str (lit "$gt"), .order .gt),
    (.str (lit "$gte"), .order .ge), (.str (lit "$lt"), .order .lt), (.str (lit "$lte"), .order .le),
    (.str (lit "$in"), .isIn), (.str (lit "$nin"), .nin), (.str (lit "$contains"), .contains),
    (.str (lit "$exists"), .present)]

/-- `sorted` of strings, as a list object. -/
def sortedNames (names : List Str) : PyVal :=
  .list ((names.insertionSort (· ≤ ·)).map .str)

/-- The keys that are strings. -/
def strKeys {α : Type} (d : Dict PyKey α) : List Str :=
  d.filterMap fun kv =>
    match kv.1 with
    | .str s => some s
    | .other _ _ => none

/-- `_is_operator_expression`. -/
def isOperatorExpression : PyVal → Except PyExc Bool
  | .dict value =>
    let opKeys := (strKeys value).filter fun k => k.head? = some (ch '$')
    if opKeys = [] then .ok false
    else if opKeys.length ≠ value.length then
      .error (queryError [.text "query expression may not mix operators with field names ",
        .text "(saw operators ", .repr (sortedNames opKeys), .text " mixed with other keys)"])
    else .ok true
  | _ => .ok false

/-- A comparison whose `TypeError` counts as no, as in `_compare` and in `$contains`. -/
def orFalse : Except ExcType Bool → Except PyExc Bool
  | .error .typeError => .ok false
  | r => builtin r

/-- `actual in expected`, for an operator that asks for a list. -/
def isMember (name : String) (actual : PyVal) : PyVal → Except PyExc Bool
  | .list xs => builtin (containsList actual xs)
  | _ => .error (queryError [.text (name ++ " expects a list")])

/-- One operator; a missing field satisfies none but the two negative ones and `$exists`. -/
def matchesOperator (actual : PyVal) (present : Bool) (expected : PyVal) :
    QueryOp → Except PyExc Bool
  | .present => .ok (truthy expected == present)
  | .ne => if present then (builtin (eqVals actual expected)).map (!·) else .ok true
  | .nin =>
    match expected with
    | .list _ => if present then (isMember "$nin" actual expected).map (!·) else .ok true
    | _ => isMember "$nin" actual expected
  | .eq => if present then builtin (eqVals actual expected) else .ok false
  | .order op => if present then orFalse (compareVals op actual expected) else .ok false
  | .isIn => if present then isMember "$in" actual expected else .ok false
  | .contains => if present then orFalse (pyContains actual expected) else .ok false

/-- `_matches_operators`. -/
def matchesOperators (actual : PyVal) (present : Bool) : PyDict → Except PyExc Bool
  | [] => .ok true
  | (operator, expected) :: rest =>
    match Dict.get OPERATORS operator with
    | none => .error (queryError [.text "unsupported query operator: ", .str operator.toVal,
        .text " (supported: ", .repr (sortedNames (strKeys OPERATORS)), .text ")"])
    | some op => do
      let ok ← matchesOperator actual present expected op
      if ok then matchesOperators actual present rest else .ok false

/-- One field of the criteria. -/
def matchesField (document : PyDict) (field : PyKey) (expected : PyVal) : Except PyExc Bool :=
  let present := Dict.contains document field
  let actual := (Dict.get document field).getD .none
  match field with
  | .other _ _ => .error (queryError [.text "query fields must be strings"])
  | .str _ => do
    let isOperators ← isOperatorExpression expected
    match isOperators, expected with
    | true, .dict expression => matchesOperators actual present expression
    | _, _ => if present then builtin (eqVals actual expected) else .ok false

/-- The fields of the criteria, up to the first that does not match. -/
def matchesFields (document : PyVal) : PyDict → Except PyExc Bool
  | [] => .ok true
  | (field, expected) :: rest => do
    let fields ← asDict document
    let ok ← matchesField fields field expected
    if ok then matchesFields document rest else .ok false

/-- `matches`. -/
def matchesCriteria (document : PyVal) : PyVal → Except PyExc Bool
  | .none => .ok true
  | .dict criteria => matchesFields document criteria
  | _ => .error (queryError [.text "query criteria must be an object"])

/-- The documents that match. -/
def selectDocuments (criteria : PyVal) : List PyVal → Except PyExc (List PyVal)
  | [] => .ok []
  | document :: rest => do
    let ok ← matchesCriteria document criteria
    let selected ← selectDocuments criteria rest
    return if ok then document :: selected else selected

/-- `filter_documents`: the criteria are tried on an empty document first. -/
def filterDocuments (documents : List PyVal) (criteria : PyVal) : Except PyExc (List PyVal) := do
  let _ ← matchesCriteria (.dict []) criteria
  selectDocuments criteria documents

/-- `find_documents`. -/
def findDocuments (cp : Copier) (state : State) (collection criteria : PyVal) :
    Except PyExc (List PyVal) := do
  let documents ← allDocuments cp state collection
  filterDocuments documents criteria

end JsonDatabase
