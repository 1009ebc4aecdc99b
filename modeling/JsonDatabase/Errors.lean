/-
  File:      JsonDatabase/Errors.lean
  Subject:   The exceptions: `errors.py`, and those of the interpreter.

  A message is the list of its parts: fixed text, the values it quotes, and the text of another
  exception or of the operating system, which is not spelled out.
-/
import JsonDatabase.Python.Value

namespace JsonDatabase

inductive ExcType where
  | serializationError
  | lockError
  | integrityError
  | notFoundError
  | transactionError
  | queryError
  | validationError
  | storageError
  | databaseFormatError
  | valueError
  | unicodeEncodeError
  | typeError
  | overflowError
  | attributeError
  | invalidOperation
  | recursionError
  | osError
  | permissionError
  deriving DecidableEq

namespace ExcType

/-- The subclasses of `JsonDBError`. -/
def isJsonDBError : ExcType → Bool
  | .serializationError | .lockError | .integrityError | .notFoundError | .transactionError
  | .queryError | .validationError | .storageError | .databaseFormatError => true
  | _ => false

/-- `ValueError` and its subclasses. -/
def isValueError : ExcType → Bool
  | .valueError | .unicodeEncodeError => true
  | _ => false

/-- `OSError` and its subclasses. -/
def isOSError : ExcType → Bool
  | .osError | .permissionError => true
  | _ => false

theorem not_isJsonDBError {t : ExcType} (h : t.isOSError = true) : ¬ t.isJsonDBError = true := by
  cases t <;> simp_all [isOSError, isJsonDBError]

end ExcType

/-- A part of a message. -/
inductive Part where
  | text (s : String)
  /-- `str` of a value. -/
  | str (v : PyVal)
  /-- `repr` of a value. -/
  | repr (v : PyVal)
  | dbPath
  | lockPath
  /-- Text of the interpreter's own. -/
  | system

/-- An exception; `expected` and `actual` are those of an `IntegrityError`. -/
structure PyExc where
  type : ExcType
  msg : List Part
  expected : Option PyVal := none
  actual : Option PyVal := none

/-- An exception with a fixed message. -/
def PyExc.plain (t : ExcType) (s : String) : PyExc := ⟨t, [.text s], none, none⟩

/-- An exception whose message is the interpreter's. -/
def PyExc.builtin (t : ExcType) : PyExc := ⟨t, [.system], none, none⟩

/-- The type of the exception, if there was one. -/
def raised {α : Type} : Except PyExc α → Option ExcType
  | .ok _ => none
  | .error e => some e.type

theorem raised_eq_none {α : Type} {r : Except PyExc α} : raised r = none ↔ ∃ a, r = .ok a := by
  cases r with
  | ok a => exact iff_of_true rfl ⟨a, rfl⟩
  | error e => exact iff_of_false nofun nofun

theorem raised_eq_some {α : Type} {r : Except PyExc α} {t : ExcType} :
    raised r = some t ↔ ∃ e, r = .error e ∧ e.type = t := by
  cases r with
  | ok a => exact iff_of_false nofun nofun
  | error e => simp [raised]

/-- `if c: raise e`. -/
def raiseIf (c : Bool) (e : PyExc) : Except PyExc Unit := if c then .error e else .ok ()

theorem raiseIf_ok {c : Bool} {e : PyExc} : raiseIf c e = .ok () ↔ c = false := by
  cases c <;> simp [raiseIf]

theorem raiseIf_error {c : Bool} {e e' : PyExc} (h : raiseIf c e = .error e') :
    c = true ∧ e' = e := by
  cases c with
  | true => exact ⟨rfl, (Except.error.inj h).symm⟩
  | false => cases h

/-- `except` for one type: other exceptions pass. -/
def Except.handle {α : Type} (x : Except PyExc α) (p : ExcType → Bool) (f : PyExc → PyExc) :
    Except PyExc α :=
  match x with
  | .ok a => .ok a
  | .error e => if p e.type then .error (f e) else .error e

theorem Except.handle_ok {α : Type} {x : Except PyExc α} {p : ExcType → Bool} {f : PyExc → PyExc}
    {a : α} : Except.handle x p f = .ok a ↔ x = .ok a := by
  cases x with
  | ok b => exact Iff.rfl
  | error e =>
    unfold Except.handle
    simp only
    split <;> simp

end JsonDatabase
