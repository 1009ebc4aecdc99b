/-
  File:      JsonDatabase/Runtime.lean
  Subject:   What the interpreter supplies and the results do not depend on.

  The readers of ISO dates, decimals and base64 accept more than the writers produce, and what
  more differs between interpreter versions; the order a set is iterated in depends on a hash
  seed. The results hold for all of them, by the laws stated here.
-/
import JsonDatabase.Python.Compare
import JsonDatabase.Python.Base64

namespace JsonDatabase

structure Runtime where
  floats : FloatText
  datetimeFromIso : Str → Option DateTime
  datetimeFromIso_isoformat : ∀ d : DateTime, datetimeFromIso d.isoformat = some d
  dateFromIso : Str → Option Date
  dateFromIso_isoformat : ∀ d : Date, dateFromIso d.isoformat = some d
  /-- `Decimal(s)`, which also reads the infinities and the NaNs. -/
  decimalOf : Str → Option Decimal
  decimalOf_str : ∀ x : FiniteDecimal, decimalOf x.str = some (.finite x)
  /-- `base64.b64decode(s.encode("ascii"), validate=True)`. -/
  base64Decode : Str → Option Bytes
  base64Decode_b64encode : ∀ b : Bytes, base64Decode (b64encode b) = some b
  /-- The order in which a set built from these members is iterated. -/
  setOrder : List PyVal → List PyVal
  setOrder_perm : ∀ xs, (setOrder xs).Perm xs
  /-- `hashlib.sha256(b).hexdigest()`. -/
  sha256 : Bytes → Str
  sha256_ascii : ∀ b, isAscii (sha256 b) = true

end JsonDatabase
