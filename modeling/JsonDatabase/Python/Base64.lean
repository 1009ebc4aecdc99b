/-
  File:      JsonDatabase/Python/Base64.lean
  Subject:   `base64.b64encode` and a reader of its output.
-/
import JsonDatabase.Basis.Text

namespace JsonDatabase

/-- The alphabet: letters, digits, `+` and `/`. -/
def b64Char (n : Nat) : CodePoint :=
  if n < 26 then code (0x41 + n)
  else if n < 52 then code (0x61 + (n - 26))
  else if n < 62 then code (0x30 + (n - 52))
  else if n = 62 then ch '+'
  else ch '/'

def b64Val (c : CodePoint) : Option Nat :=
  if 0x41 ≤ c.val ∧ c.val ≤ 0x5A then some (c - 0x41)
  else if 0x61 ≤ c.val ∧ c.val ≤ 0x7A then some (c - 0x61 + 26)
  else if 0x30 ≤ c.val ∧ c.val ≤ 0x39 then some (c - 0x30 + 52)
  else if c = ch '+' then some 62
  else if c = ch '/' then some 63
  else none

def padChar : CodePoint := ch '='

/-- Three bytes as four characters, the last group padded. -/
def b64encode : Bytes → Str
  | [] => []
  | [a] => [b64Char (a / 4), b64Char (a % 4 * 16), padChar, padChar]
  | [a, b] => [b64Char (a / 4), b64Char (a % 4 * 16 + b / 16), b64Char (b % 16 * 4), padChar]
  | a :: b :: c :: r =>
      b64Char (a / 4) :: b64Char (a % 4 * 16 + b / 16) :: b64Char (b % 16 * 4 + c / 64) ::
        b64Char (c % 64) :: b64encode r

def b64decode : Str → Option Bytes
  | [] => some []
  | [_] | [_, _] | [_, _, _] => none
  | w :: x :: y :: z :: s =>
    if y = padChar ∧ z = padChar ∧ s = [] then do
      let w ← b64Val w
      let x ← b64Val x
      some [byte (w * 4 + x / 16)]
    else if z = padChar ∧ s = [] then do
      let w ← b64Val w
      let x ← b64Val x
      let y ← b64Val y
      some [byte (w * 4 + x / 16), byte (x % 16 * 16 + y / 4)]
    else do
      let w ← b64Val w
      let x ← b64Val x
      let y ← b64Val y
      let z ← b64Val z
      let r ← b64decode s
      some (byte (w * 4 + x / 16) :: byte (x % 16 * 16 + y / 4) :: byte (y % 4 * 64 + z) :: r)

theorem b64Val_b64Char {n : Nat} (h : n < 64) : b64Val (b64Char n) = some n := by
  have all : ∀ n : Fin 64, b64Val (b64Char n.val) = some n.val := by decide
  exact all ⟨n, h⟩

theorem b64Char_ne_pad {n : Nat} (h : n < 64) : b64Char n ≠ padChar := by
  intro e
  have hv := b64Val_b64Char h
  rw [e] at hv
  rw [show b64Val padChar = none by decide] at hv
  cases hv

theorem byte_eq {n : Nat} {b : Byte} (h : n = b.val) : byte n = b := by
  subst h
  exact Fin.ext (byte_val b.isLt)

/-- **Decoding what was encoded gives the bytes back.** -/
theorem b64decode_encode : ∀ bs : Bytes, b64decode (b64encode bs) = some bs
  | [] => rfl
  | [a] => by
      have h1 := b64Val_b64Char (show a.val / 4 < 64 by omega)
      have h2 := b64Val_b64Char (show a.val % 4 * 16 < 64 by omega)
      have ha : byte (a.val / 4 * 4 + a.val % 4 * 16 / 16) = a := byte_eq (by omega)
      simp only [b64encode, b64decode, and_self, if_true, h1, h2, Option.bind_eq_bind,
        Option.bind_some, ha]
  | [a, b] => by
      have h1 := b64Val_b64Char (show a.val / 4 < 64 by omega)
      have h2 := b64Val_b64Char (show a.val % 4 * 16 + b.val / 16 < 64 by omega)
      have h3 := b64Val_b64Char (show b.val % 16 * 4 < 64 by omega)
      have h3' := b64Char_ne_pad (show b.val % 16 * 4 < 64 by omega)
      have ha : byte (a.val / 4 * 4 + (a.val % 4 * 16 + b.val / 16) / 16) = a := byte_eq (by omega)
      have hb : byte ((a.val % 4 * 16 + b.val / 16) % 16 * 16 + b.val % 16 * 4 / 4) = b :=
        byte_eq (by omega)
      simp only [b64encode, b64decode, h3', false_and, if_false, and_self, if_true, h1, h2, h3,
        Option.bind_eq_bind, Option.bind_some, ha, hb]
  | a :: b :: c :: r => by
      have h1 := b64Val_b64Char (show a.val / 4 < 64 by omega)
      have h2 := b64Val_b64Char (show a.val % 4 * 16 + b.val / 16 < 64 by omega)
      have h3 := b64Val_b64Char (show b.val % 16 * 4 + c.val / 64 < 64 by omega)
      have h4 := b64Val_b64Char (show c.val % 64 < 64 by omega)
      have h4' := b64Char_ne_pad (show c.val % 64 < 64 by omega)
      have ha : byte (a.val / 4 * 4 + (a.val % 4 * 16 + b.val / 16) / 16) = a := byte_eq (by omega)
      have hb : byte ((a.val % 4 * 16 + b.val / 16) % 16 * 16 + (b.val % 16 * 4 + c.val / 64) / 4) =
          b := byte_eq (by omega)
      have hc : byte ((b.val % 16 * 4 + c.val / 64) % 4 * 64 + c.val % 64) = c :=
        byte_eq (by omega)
      have ih := b64decode_encode r
      simp only [b64encode, b64decode, h4', false_and, and_false, if_false, h1, h2, h3, h4, ih,
        Option.bind_eq_bind, Option.bind_some, ha, hb, hc]

theorem b64Char_lt (n : Nat) : (b64Char n).val < 0x80 := by
  unfold b64Char
  split
  · rw [code_val (by omega)]
    omega
  split
  · rw [code_val (by omega)]
    omega
  split
  · rw [code_val (by omega)]
    omega
  split
  · decide
  · decide

theorem padChar_lt : padChar.val < 0x80 := by decide

theorem isAscii_b64encode : ∀ bs : Bytes, isAscii (b64encode bs) = true
  | [] => rfl
  | [a] => by simp [b64encode, isAscii_cons, b64Char_lt, padChar_lt]
  | [a, b] => by simp [b64encode, isAscii_cons, b64Char_lt, padChar_lt]
  | a :: b :: c :: r => by simp [b64encode, isAscii_cons, b64Char_lt, isAscii_b64encode r]

end JsonDatabase
