/-
  File:      JsonDatabase/Python/Decimal.lean
  Subject:   `decimal.Decimal` and its text.

  A finite number keeps its sign, coefficient and exponent as they are (`1.0` and `1.00` differ,
  so do the two zeros), with the exponent in the range the interpreter's implementation has.

  * `FiniteDecimal.str` -- the scientific string `str()` gives, which is a number token of JSON;
  * `Decimal.parse` -- a reader of those strings and of the names of the special values, and
    `parse_str`.
-/
import JsonDatabase.Basis.JsonRoundTrip

namespace JsonDatabase

/-- The exponents the implementation has, for a coefficient of `n` digits. -/
def DecimalRange (n : Nat) (exp : Int) : Prop :=
  -1999999999999999997 ≤ exp ∧ exp + n ≤ 1000000000000000000

instance (n : Nat) (exp : Int) : Decidable (DecimalRange n exp) :=
  inferInstanceAs (Decidable (_ ∧ _))

/-- The number `± coeff * 10 ^ exp`. -/
structure FiniteDecimal where
  neg : Bool
  coeff : Nat
  exp : Int
  inRange : DecimalRange (natDigits coeff).length exp
  deriving DecidableEq

inductive Decimal where
  | finite (x : FiniteDecimal)
  | inf (neg : Bool)
  | nan (neg : Bool) (payload : Nat)
  | snan (neg : Bool) (payload : Nat)
  deriving DecidableEq

def Decimal.isFinite : Decimal → Bool
  | .finite _ => true
  | _ => false

/-! ## 1. Writing -/

namespace FiniteDecimal

def digits (x : FiniteDecimal) : Str := natDigits x.coeff

/-- The place of the point, counted from the left end of the digits. -/
def leftDigits (x : FiniteDecimal) : Int := x.exp + x.digits.length

def signedText (i : Int) : Str := (if i < 0 then ch '-' else ch '+') :: natDigits i.natAbs

/-- The number as a token: plain where the exponent is not positive and the point is at most six
    places before the digits, else with one digit before the point and an exponent. -/
def token (x : FiniteDecimal) : NumToken :=
  if x.exp ≤ 0 ∧ -6 < x.leftDigits then
    if x.leftDigits ≤ 0 then
      ⟨x.neg, [ch '0'], List.replicate (-x.leftDigits).toNat (ch '0') ++ x.digits, []⟩
    else ⟨x.neg, x.digits.take x.leftDigits.toNat, x.digits.drop x.leftDigits.toNat, []⟩
  else ⟨x.neg, x.digits.take 1, x.digits.drop 1, ch 'E' :: signedText (x.leftDigits - 1)⟩

/-- `str(x)`. -/
def str (x : FiniteDecimal) : Str := x.token.text

theorem intPart_take {s : Str} (h : NumToken.IntPart s) {n : Nat} (hn : 0 < n) :
    NumToken.IntPart (s.take n) := by
  obtain ⟨n, rfl⟩ := Nat.exists_eq_succ_of_ne_zero (show n ≠ 0 by omega)
  rcases h with rfl | ⟨c, ds, rfl, h1, h2, hds⟩
  · exact Or.inl (by simp)
  · exact Or.inr ⟨c, ds.take n, rfl, h1, h2, fun d hd => hds d (List.mem_of_mem_take hd)⟩

theorem wellFormed_token (x : FiniteDecimal) : x.token.WellFormed := by
  have hd : ∀ c ∈ x.digits, isDigit c = true := natDigits_isDigit _
  have hi : NumToken.IntPart x.digits := intPart_natDigits _
  unfold token
  split
  · split
    · refine ⟨Or.inl rfl, fun c hc => ?_, Or.inl rfl⟩
      rcases List.mem_append.mp hc with hc | hc
      · rw [List.eq_of_mem_replicate hc]
        decide
      · exact hd c hc
    · exact ⟨intPart_take hi (by omega), fun c hc => hd c (List.mem_of_mem_drop hc), Or.inl rfl⟩
  · refine ⟨intPart_take hi (by omega), fun c hc => hd c (List.mem_of_mem_drop hc), Or.inr ?_⟩
    refine ⟨ch 'E', [if x.leftDigits - 1 < 0 then ch '-' else ch '+'], _, rfl, Or.inr rfl, ?_,
      natDigits_ne_nil _, natDigits_isDigit _⟩
    split
    · exact Or.inr (Or.inr rfl)
    · exact Or.inr (Or.inl rfl)

theorem isAscii_str (x : FiniteDecimal) : isAscii x.str = true :=
  NumToken.isAscii_text (wellFormed_token x)

/-! ## 2. Reading -/

/-- The value of an exponent. -/
def expValue : Str → Int
  | [] => 0
  | _ :: s =>
    if (scanExpSign s).1 = [ch '-'] then -(digitsVal (scanExpSign s).2 : Int)
    else digitsVal (scanExpSign s).2

/-- The number a token names, if its exponent is in range. -/
def ofToken (t : NumToken) : Option FiniteDecimal :=
  let c := digitsVal (t.int ++ t.frac)
  let e := expValue t.exp - t.frac.length
  if h : DecimalRange (natDigits c).length e then some ⟨t.neg, c, e, h⟩ else none

theorem expValue_signedText (i : Int) (m : CodePoint) : expValue (m :: signedText i) = i := by
  unfold signedText
  by_cases h : i < 0
  · have hs : scanExpSign (ch '-' :: natDigits i.natAbs) = ([ch '-'], natDigits i.natAbs) := rfl
    rw [if_pos h, expValue, hs, if_pos rfl, digitsVal_natDigits]
    omega
  · have hs : scanExpSign (ch '+' :: natDigits i.natAbs) = ([ch '+'], natDigits i.natAbs) := rfl
    rw [if_neg h, expValue, hs, if_neg (show [ch '+'] ≠ [ch '-'] by decide), digitsVal_natDigits]
    omega

theorem digitsVal_zero_cons (s : Str) : digitsVal (ch '0' :: s) = digitsVal s := rfl

theorem digitsVal_zeros (n : Nat) (s : Str) :
    digitsVal (List.replicate n (ch '0') ++ s) = digitsVal s := by
  induction n with
  | zero => rfl
  | succ n ih => rw [List.replicate_succ, List.cons_append, digitsVal_zero_cons, ih]

theorem ofToken_token (x : FiniteDecimal) : ofToken x.token = some x := by
  have hlen : 0 < x.digits.length := List.length_pos_iff.mpr (natDigits_ne_nil _)
  have hl : x.leftDigits = x.exp + x.digits.length := rfl
  have hval : digitsVal x.digits = x.coeff := digitsVal_natDigits _
  have key {t : NumToken} (hn : t.neg = x.neg) (hc : digitsVal (t.int ++ t.frac) = x.coeff)
      (he : expValue t.exp - t.frac.length = x.exp) : ofToken t = some x := by
    simp only [ofToken, hn, hc, he, dif_pos x.inRange]
  unfold token
  split
  · rename_i hp
    split
    · rename_i h0
      refine key rfl ?_ ?_
      · show digitsVal (ch '0' :: (List.replicate _ (ch '0') ++ x.digits)) = _
        rw [digitsVal_zero_cons, digitsVal_zeros, hval]
      · simp only [expValue, List.length_append, List.length_replicate]
        omega
    · refine key rfl ?_ ?_
      · rw [List.take_append_drop, hval]
      · simp only [expValue, List.length_drop]
        omega
  · refine key rfl ?_ ?_
    · rw [List.take_append_drop, hval]
    · rw [expValue_signedText, List.length_drop]
      omega

end FiniteDecimal

namespace Decimal

def parse (s : Str) : Option Decimal :=
  if s = lit "NaN" then some (.nan false 0)
  else if s = lit "sNaN" then some (.snan false 0)
  else if s = lit "Infinity" then some (.inf false)
  else if s = lit "-Infinity" then some (.inf true)
  else
    match scanNumber s with
    | some (t, []) => (FiniteDecimal.ofToken t).map .finite
    | _ => none

theorem parse_str (x : FiniteDecimal) : parse x.str = some (.finite x) := by
  have hs : scanNumber x.str = some (x.token, []) := by
    have h := scanNumber_text (FiniteDecimal.wellFormed_token x) follow_nil
    rwa [List.append_nil] at h
  -- no word is the text of a number
  have hne {w : Str} (hw : scanNumber w = none) : x.str ≠ w := by
    intro e
    rw [e, hw] at hs
    cases hs
  unfold parse
  rw [if_neg (hne (by decide)), if_neg (hne (by decide)), if_neg (hne (by decide)),
    if_neg (hne (by decide)), hs]
  simp only [FiniteDecimal.ofToken_token, Option.map_some]

end Decimal

end JsonDatabase
