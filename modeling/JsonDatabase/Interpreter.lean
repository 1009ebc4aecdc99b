/-
  File:      JsonDatabase/Interpreter.lean
  Subject:   One interpreter that obeys the laws of `Runtime`, and a system that never fails.

  It reads the ISO forms, decimals and base64 texts that the writers produce, hashes with SHA-256
  and iterates a set in the order its members were added. Floats are written as a mantissa and a
  binary exponent, which `repr` does not do.
-/
import JsonDatabase.Engine
import JsonDatabase.Basis.JsonRoundTrip
import JsonDatabase.Python.Sha256

namespace JsonDatabase

/-- `mant`, `e` and the exponent of two. -/
def binaryToken (x : FiniteFloat) : NumToken :=
  ⟨x.neg, natDigits x.mant, [], ch 'e' :: FiniteDecimal.signedText x.exp⟩

/-- A token of that form, or not a number. -/
def binaryParse (t : NumToken) : PyFloat :=
  let mant := digitsVal t.int
  let exp := FiniteDecimal.expValue t.exp
  if h : mant < 2 ^ 53 ∧ -1074 ≤ exp ∧ exp ≤ 971 ∧ (mant < 2 ^ 52 → exp = -1074) then
    .finite ⟨t.neg, mant, exp, h⟩
  else .nan

theorem binaryParse_token (x : FiniteFloat) : binaryParse (binaryToken x) = .finite x := by
  obtain ⟨neg, mant, exp, h⟩ := x
  simp only [binaryParse, binaryToken, digitsVal_natDigits, FiniteDecimal.expValue_signedText]
  rw [dif_pos h]

theorem expPart_signedText (i : Int) : NumToken.ExpPart (ch 'e' :: FiniteDecimal.signedText i) := by
  refine Or.inr ⟨ch 'e', [if i < 0 then ch '-' else ch '+'], natDigits i.natAbs, rfl, Or.inl rfl, ?_,
    natDigits_ne_nil _, natDigits_isDigit _⟩
  split
  · exact Or.inr (Or.inr rfl)
  · exact Or.inr (Or.inl rfl)

def binaryFloats : FloatText where
  token := binaryToken
  token_wellFormed _ := ⟨intPart_natDigits _, nofun, expPart_signedText _⟩
  token_isFloat _ := rfl
  parse := binaryParse
  parse_token := binaryParse_token

/-- **The laws of `Runtime` can be met.** -/
def interpreter : Runtime where
  floats := binaryFloats
  datetimeFromIso := DateTime.parse
  datetimeFromIso_isoformat := DateTime.parse_isoformat
  dateFromIso := Date.parse
  dateFromIso_isoformat := Date.parse_isoformat
  decimalOf := Decimal.parse
  decimalOf_str := Decimal.parse_str
  base64Decode := b64decode
  base64Decode_b64encode := b64decode_encode
  setOrder := id
  setOrder_perm xs := .refl xs
  sha256 := Sha256.hexdigest
  sha256_ascii := Sha256.isAscii_hexdigest

/-- The start of 1970 in UTC. -/
def epoch : DateTime := ⟨⟨1970, 1, 1, by decide⟩, 0, some 0, by decide, by decide⟩

/-- No system call raises. -/
def quietSystem : Env := ⟨fun _ => none, fun _ => epoch, 0o644⟩

/-- The lock is tried once. -/
def posix : Settings := ⟨false, 0⟩

/-- A string as an argument. -/
def PyObj.str (s : Str) : PyObj := ⟨.str s, trivial⟩

/-- A document with one field. -/
def PyObj.field (k s : Str) : PyObj :=
  ⟨.dict [(.str k, .str s)], PyVal.everywhere_dict.mpr ⟨List.nodup_singleton _, fun _ _ h => by
    cases List.mem_singleton.mp h
    trivial⟩⟩

/-- A document that holds a tuple. -/
def PyObj.tagged : PyObj :=
  ⟨.dict [(.str (lit "name"), .str (lit "Bo")),
    (.str (lit "tags"), .tuple [.str (lit "x"), .str (lit "y")])],
    PyVal.everywhere_dict.mpr ⟨show List.Nodup [_, _] by decide, fun k v h => by
      simp only [List.mem_cons, Prod.mk.injEq, List.not_mem_nil, or_false] at h
      obtain ⟨-, rfl⟩ | ⟨-, rfl⟩ := h <;> simp [PyVal.everywhere, PyVal.everywhereList, PyVal.localWf]⟩⟩

/-- The insertion of `{"name": s}` into the collection `users`, -/
def insertName (s : Str) : OpCall :=
  .insert (.str (lit "users")) (.field (lit "name") s) ⟨0⟩

/-- and of the document that holds a tuple. -/
def insertTagged : OpCall :=
  .insert (.str (lit "users")) .tagged ⟨1⟩

end JsonDatabase
