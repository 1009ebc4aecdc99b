/-
  File:      JsonDatabase/Basis/Text.lean
  Subject:   Text as sequences of code points, decimal digits, and UTF-8.

  A text is a list of code points `0 .. 0x10FFFF`, the surrogates included: a text can hold a
  lone surrogate, and UTF-8 is where it is refused.

  * `lit` -- a Lean string literal as a text;
  * `natDigits`, `pad`, `digitsVal` -- decimal digits, unpadded and padded, and their value;
  * `utf8Encode`, `utf8Decode` -- strict UTF-8 in both directions, and
    `utf8Decode_encode` -- reading back what was written.
-/
import Mathlib.Data.List.Induction
import Mathlib.Data.List.Lex
import Mathlib.Data.List.Infix
import Mathlib.Data.Fin.Basic
import Mathlib.Algebra.GroupWithZero.Nat

namespace JsonDatabase

/-! ## 1. Code points and texts -/

/-- A Unicode code point, surrogates included. -/
abbrev CodePoint := Fin 0x110000

/-- A text: any sequence of code points. -/
abbrev Str := List CodePoint

abbrev Byte := Fin 256

abbrev Bytes := List Byte

-- what a numeral of the two types needs
instance codePoint_neZero : NeZero 0x110000 := ⟨by decide⟩

instance byte_neZero : NeZero 256 := ⟨by decide⟩

/-- The code point with number `n`. -/
def code (n : Nat) : CodePoint := Fin.ofNat 0x110000 n

theorem code_val {n : Nat} (h : n < 0x110000) : (code n).val = n := Nat.mod_eq_of_lt h

@[simp] theorem code_self (c : CodePoint) : code c.val = c := Fin.ext (code_val c.isLt)

theorem Char.toNat_lt_codePoint (c : Char) : c.toNat < 0x110000 := by
  have e : c.toNat = c.val.toNat := rfl
  rw [e]
  rcases c.valid with h | h <;> omega

/-- The code point of a character literal. -/
def ch (c : Char) : CodePoint := ⟨c.toNat, Char.toNat_lt_codePoint c⟩

/-- A string literal as a text. -/
def lit (s : String) : Str := s.toList.map fun c => ⟨c.toNat, Char.toNat_lt_codePoint c⟩

/-- The code points UTF-8 has no encoding for. -/
def isSurrogate (c : CodePoint) : Bool := decide (0xD800 ≤ c.val ∧ c.val ≤ 0xDFFF)

/-- No surrogate occurs. -/
def scalarOnly (s : Str) : Bool := s.all fun c => !isSurrogate c

/-- Every code point is in the seven-bit range. -/
def isAscii (s : Str) : Bool := s.all fun c => decide (c.val < 0x80)

@[simp] theorem scalarOnly_nil : scalarOnly [] = true := rfl

@[simp] theorem scalarOnly_append (s t : Str) :
    scalarOnly (s ++ t) = (scalarOnly s && scalarOnly t) := List.all_append

theorem scalarOnly_cons (c : CodePoint) (s : Str) :
    scalarOnly (c :: s) = (!isSurrogate c && scalarOnly s) := rfl

theorem isSurrogate_of_lt {c : CodePoint} (h : c.val < 0xD800) : isSurrogate c = false := by
  simp only [isSurrogate, decide_eq_false_iff_not]
  omega

theorem scalarOnly_of_isAscii {s : Str} (h : isAscii s = true) : scalarOnly s = true := by
  refine List.all_eq_true.mpr fun c hc => ?_
  have hlt : c.val < 0x80 := by simpa using List.all_eq_true.mp h c hc
  simp [isSurrogate_of_lt (show c.val < 0xD800 by omega)]

@[simp] theorem isAscii_nil : isAscii [] = true := rfl

@[simp] theorem isAscii_append (s t : Str) : isAscii (s ++ t) = (isAscii s && isAscii t) :=
  List.all_append

theorem isAscii_cons (c : CodePoint) (s : Str) :
    isAscii (c :: s) = (decide (c.val < 0x80) && isAscii s) := rfl

/-- The first half of a character that UTF-16 writes in two. -/
def isHigh (c : CodePoint) : Bool := decide (0xD800 ≤ c.val ∧ c.val < 0xDC00)

/-- The second half. -/
def isLow (c : CodePoint) : Bool := decide (0xDC00 ≤ c.val ∧ c.val < 0xE000)

/-- No character is written in two halves: no high surrogate stands directly before a low one. -/
def unsplit : Str → Bool
  | h :: l :: s => !(isHigh h && isLow l) && unsplit (l :: s)
  | _ => true

theorem unsplit_cons {c : CodePoint} {s : Str} : unsplit (c :: s) = true ↔
    (∀ l s', s = l :: s' → isHigh c = true → isLow l = false) ∧ unsplit s = true := by
  cases s with
  | nil => simp [unsplit]
  | cons l s =>
    rw [unsplit, Bool.and_eq_true, Bool.not_eq_true', Bool.and_eq_false_imp]
    refine and_congr_left' ⟨fun h l' s' e => ?_, fun h => h l s rfl⟩
    obtain ⟨rfl, rfl⟩ := List.cons.inj e
    exact h

theorem isHigh_of_not_isSurrogate {c : CodePoint} (h : isSurrogate c = false) :
    isHigh c = false := by
  simp only [isSurrogate, isHigh, decide_eq_false_iff_not] at h ⊢
  omega

theorem isLow_of_not_isSurrogate {c : CodePoint} (h : isSurrogate c = false) :
    isLow c = false := by
  simp only [isSurrogate, isLow, decide_eq_false_iff_not] at h ⊢
  omega

theorem unsplit_of_scalarOnly : ∀ {s : Str}, scalarOnly s = true → unsplit s = true
  | [], _ => rfl
  | c :: s, h => by
      rw [scalarOnly_cons, Bool.and_eq_true, Bool.not_eq_true'] at h
      refine unsplit_cons.mpr ⟨fun l s' _ hc => ?_, unsplit_of_scalarOnly h.2⟩
      rw [isHigh_of_not_isSurrogate h.1] at hc
      cases hc

/-! ## 2. Decimal digits -/

/-- The digit of a number below ten. -/
def digit (n : Nat) : CodePoint := code (0x30 + n)

/-- A decimal digit. -/
def isDigit (c : CodePoint) : Bool := decide (0x30 ≤ c.val ∧ c.val ≤ 0x39)

/-- The value a digit stands for. -/
def digitVal (c : CodePoint) : Nat := c.val - 0x30

theorem digit_val {n : Nat} (h : n < 10) : (digit n).val = 0x30 + n := code_val (by omega)

theorem isDigit_digit {n : Nat} (h : n < 10) : isDigit (digit n) = true := by
  simp only [isDigit, decide_eq_true_eq, digit_val h]
  omega

theorem digitVal_digit {n : Nat} (h : n < 10) : digitVal (digit n) = n := by
  simp only [digitVal, digit_val h]
  omega

/-- The number a run of digits names. -/
def digitsVal (s : Str) : Nat := s.foldl (fun n c => 10 * n + digitVal c) 0

theorem digitsVal_append_singleton (s : Str) (c : CodePoint) :
    digitsVal (s ++ [c]) = 10 * digitsVal s + digitVal c := by
  simp [digitsVal]

/-- The decimal digits of `n`, at most `fuel` of them. -/
def natDigitsAux : Nat → Nat → Str
  | 0, _ => []
  | fuel + 1, n => if n < 10 then [digit n] else natDigitsAux fuel (n / 10) ++ [digit (n % 10)]

/-- The decimal digits of `n`, without leading zeros. -/
def natDigits (n : Nat) : Str := natDigitsAux (n + 1) n

theorem natDigitsAux_isDigit : ∀ (fuel n : Nat), ∀ c ∈ natDigitsAux fuel n, isDigit c = true
  | 0, _, c, h => by simp [natDigitsAux] at h
  | fuel + 1, n, c, h => by
      unfold natDigitsAux at h
      split at h
      · rename_i hn
        rw [List.mem_singleton.mp h]
        exact isDigit_digit hn
      · rcases List.mem_append.mp h with h | h
        · exact natDigitsAux_isDigit fuel _ c h
        · rw [List.mem_singleton.mp h]
          exact isDigit_digit (Nat.mod_lt _ (by omega))

theorem digitsVal_natDigitsAux : ∀ (fuel n : Nat), n < fuel → digitsVal (natDigitsAux fuel n) = n
  | 0, _, h => by omega
  | fuel + 1, n, h => by
      unfold natDigitsAux
      split
      · rename_i hn
        simp [digitsVal, digitVal_digit hn]
      · rw [digitsVal_append_singleton, digitVal_digit (Nat.mod_lt _ (by omega)),
          digitsVal_natDigitsAux fuel (n / 10) (by omega)]
        omega

theorem natDigits_isDigit (n : Nat) : ∀ c ∈ natDigits n, isDigit c = true :=
  natDigitsAux_isDigit _ _

@[simp] theorem digitsVal_natDigits (n : Nat) : digitsVal (natDigits n) = n :=
  digitsVal_natDigitsAux _ _ (by omega)

theorem natDigitsAux_ne_nil (fuel n : Nat) : natDigitsAux (fuel + 1) n ≠ [] := by
  unfold natDigitsAux
  split <;> simp

theorem natDigits_ne_nil (n : Nat) : natDigits n ≠ [] := natDigitsAux_ne_nil n n

/-- The first digit of a positive number is not zero. -/
theorem natDigitsAux_head : ∀ (fuel n : Nat), n < fuel → 0 < n →
    ∃ c s, natDigitsAux fuel n = c :: s ∧ 0x31 ≤ c.val ∧ c.val ≤ 0x39
  | 0, _, h, _ => by omega
  | fuel + 1, n, h, h0 => by
      unfold natDigitsAux
      split
      · rename_i hn
        have := digit_val hn
        exact ⟨digit n, [], rfl, by omega, by omega⟩
      · obtain ⟨c, s, e, h1, h2⟩ := natDigitsAux_head fuel (n / 10) (by omega) (by omega)
        exact ⟨c, s ++ [digit (n % 10)], by rw [e]; rfl, h1, h2⟩

theorem natDigits_head {n : Nat} (h0 : 0 < n) :
    ∃ c s, natDigits n = c :: s ∧ 0x31 ≤ c.val ∧ c.val ≤ 0x39 :=
  natDigitsAux_head _ _ (by omega) h0

theorem length_natDigitsAux : ∀ (fuel n k : Nat), n < 10 ^ (k + 1) →
    (natDigitsAux fuel n).length ≤ k + 1
  | 0, _, _, _ => Nat.zero_le _
  | fuel + 1, n, k, h => by
      unfold natDigitsAux
      split
      · exact Nat.succ_le_succ (Nat.zero_le k)
      · rename_i hn
        cases k with
        | zero => exact absurd h hn
        | succ k =>
          have hd : n / 10 < 10 ^ (k + 1) := Nat.div_lt_of_lt_mul (by rwa [Nat.pow_succ'] at h)
          have := length_natDigitsAux fuel (n / 10) k hd
          rw [List.length_append, List.length_singleton]
          omega

theorem length_natDigits {n k : Nat} (h : n < 10 ^ (k + 1)) : (natDigits n).length ≤ k + 1 :=
  length_natDigitsAux _ _ _ h

/-- As many digits as there are name a number below that power of ten. -/
theorem digitsVal_lt (s : Str) (h : ∀ c ∈ s, isDigit c = true) : digitsVal s < 10 ^ s.length := by
  induction s using List.reverseRecOn with
  | nil => exact Nat.one_pos
  | append_singleton s c ih =>
    have hs := ih fun d hd => h d (List.mem_append_left _ hd)
    have hc : digitVal c ≤ 9 := by
      have := of_decide_eq_true (h c (List.mem_append_right _ List.mem_cons_self))
      unfold digitVal
      omega
    rw [digitsVal_append_singleton, List.length_append, List.length_singleton, Nat.pow_succ]
    omega

theorem isAscii_of_isDigit {s : Str} (h : ∀ c ∈ s, isDigit c = true) : isAscii s = true := by
  refine List.all_eq_true.mpr fun c hc => ?_
  have hd : 0x30 ≤ c.val ∧ c.val ≤ 0x39 := by simpa [isDigit] using h c hc
  simp only [decide_eq_true_eq]
  omega

/-- `n` in exactly `w` digits, padded with zeros (the lowest `w` digits where `n` has more). -/
def pad : Nat → Nat → Str
  | 0, _ => []
  | w + 1, n => pad w (n / 10) ++ [digit (n % 10)]

@[simp] theorem length_pad : ∀ w n, (pad w n).length = w
  | 0, _ => rfl
  | w + 1, n => by simp [pad, length_pad w]

theorem pad_isDigit : ∀ (w n : Nat), ∀ c ∈ pad w n, isDigit c = true
  | 0, _, c, h => by simp [pad] at h
  | w + 1, n, c, h => by
      rcases List.mem_append.mp h with h | h
      · exact pad_isDigit w _ c h
      · rw [List.mem_singleton.mp h]
        exact isDigit_digit (Nat.mod_lt _ (by omega))

theorem digitsVal_pad : ∀ {w n : Nat}, n < 10 ^ w → digitsVal (pad w n) = n
  | 0, n, h => by
      have h0 : n = 0 := by simpa using h
      simp [pad, digitsVal, h0]
  | w + 1, n, h => by
      have hlt : n / 10 < 10 ^ w := by
        rw [Nat.pow_succ] at h
        omega
      rw [pad, digitsVal_append_singleton, digitVal_digit (Nat.mod_lt _ (by omega)),
        digitsVal_pad hlt]
      omega

/-! ## 3. UTF-8 -/

def byte (n : Nat) : Byte := Fin.ofNat 256 n

theorem byte_val {n : Nat} (h : n < 256) : (byte n).val = n := Nat.mod_eq_of_lt h

/-- The bytes of one code point. -/
def utf8Char (c : CodePoint) : Bytes :=
  if c.val < 0x80 then [byte c]
  else if c.val < 0x800 then [byte (0xC0 + c / 64), byte (0x80 + c % 64)]
  else if c.val < 0x10000 then
    [byte (0xE0 + c / 4096), byte (0x80 + c / 64 % 64), byte (0x80 + c % 64)]
  else
    [byte (0xF0 + c / 262144), byte (0x80 + c / 4096 % 64), byte (0x80 + c / 64 % 64),
      byte (0x80 + c % 64)]

/-- A text as UTF-8; a surrogate has no encoding. -/
def utf8Encode : Str → Option Bytes
  | [] => some []
  | c :: s => if isSurrogate c then none else (utf8Char c ++ ·) <$> utf8Encode s

/-- A continuation byte. -/
def isCont (b : Byte) : Bool := decide (0x80 ≤ b.val ∧ b.val < 0xC0)

/-- Strict UTF-8: overlong forms, surrogates and values past `0x10FFFF` are refused. -/
def utf8Decode : Bytes → Option Str
  | [] => some []
  | a :: s =>
    if a.val < 0x80 then (code a :: ·) <$> utf8Decode s
    else if 0xC2 ≤ a.val ∧ a.val < 0xE0 then
      match s with
      | b :: s =>
        if isCont b then (code ((a - 0xC0) * 64 + (b - 0x80)) :: ·) <$> utf8Decode s else none
      | [] => none
    else if 0xE0 ≤ a.val ∧ a.val < 0xF0 then
      match s with
      | b :: c :: s =>
        let n := (a.val - 0xE0) * 4096 + (b.val - 0x80) * 64 + (c.val - 0x80)
        if isCont b ∧ isCont c ∧ 0x800 ≤ n ∧ ¬(0xD800 ≤ n ∧ n ≤ 0xDFFF) then
          (code n :: ·) <$> utf8Decode s
        else none
      | _ => none
    else if 0xF0 ≤ a.val ∧ a.val < 0xF5 then
      match s with
      | b :: c :: d :: s =>
        let n := (a.val - 0xF0) * 262144 + (b.val - 0x80) * 4096 + (c.val - 0x80) * 64 +
          (d.val - 0x80)
        if isCont b ∧ isCont c ∧ isCont d ∧ 0x10000 ≤ n ∧ n < 0x110000 then
          (code n :: ·) <$> utf8Decode s
        else none
      | _ => none
    else none

/-- UTF-8 refuses a text exactly where it holds a surrogate. -/
theorem utf8Encode_isSome : ∀ s : Str, (utf8Encode s).isSome = scalarOnly s
  | [] => rfl
  | c :: s => by
      rw [scalarOnly_cons, utf8Encode]
      cases isSurrogate c with
      | true => rfl
      | false => simpa using utf8Encode_isSome s

theorem isCont_byte {n : Nat} (h : n < 64) : isCont (byte (0x80 + n)) = true := by
  have e : (byte (0x80 + n)).val = 0x80 + n := byte_val (by omega)
  simp only [isCont, decide_eq_true_eq, e]
  omega

theorem utf8Decode_one {a : Byte} (h : a.val < 0x80) (s : Bytes) :
    utf8Decode (a :: s) = (code a :: ·) <$> utf8Decode s := by
  rw [utf8Decode.eq_def]
  simp [h]

theorem utf8Decode_two {a b : Byte} (ha : 0xC2 ≤ a.val ∧ a.val < 0xE0) (hb : isCont b = true)
    (s : Bytes) : utf8Decode (a :: b :: s) =
      (code ((a - 0xC0) * 64 + (b - 0x80)) :: ·) <$> utf8Decode s := by
  rw [utf8Decode.eq_def]
  have h1 : ¬ a.val < 0x80 := by omega
  simp only [h1, ha, hb, and_self, if_true, if_false]

theorem utf8Decode_three {a b c : Byte} {n : Nat} (ha : 0xE0 ≤ a.val ∧ a.val < 0xF0)
    (hb : isCont b = true) (hc : isCont c = true)
    (hn : (a.val - 0xE0) * 4096 + (b.val - 0x80) * 64 + (c.val - 0x80) = n)
    (hlo : 0x800 ≤ n) (hs : ¬(0xD800 ≤ n ∧ n ≤ 0xDFFF)) (s : Bytes) :
    utf8Decode (a :: b :: c :: s) = (code n :: ·) <$> utf8Decode s := by
  rw [utf8Decode.eq_def]
  have h1 : ¬ a.val < 0x80 := by omega
  have h2 : ¬(0xC2 ≤ a.val ∧ a.val < 0xE0) := by omega
  simp only [h1, h2, ha, hb, hc, hn, hlo, hs, and_self, not_false_eq_true, if_true, if_false]

theorem utf8Decode_four {a b c d : Byte} {n : Nat} (ha : 0xF0 ≤ a.val ∧ a.val < 0xF5)
    (hb : isCont b = true) (hc : isCont c = true) (hd : isCont d = true)
    (hn : (a.val - 0xF0) * 262144 + (b.val - 0x80) * 4096 + (c.val - 0x80) * 64 +
      (d.val - 0x80) = n) (hlo : 0x10000 ≤ n) (hhi : n < 0x110000) (s : Bytes) :
    utf8Decode (a :: b :: c :: d :: s) = (code n :: ·) <$> utf8Decode s := by
  rw [utf8Decode.eq_def]
  have h1 : ¬ a.val < 0x80 := by omega
  have h2 : ¬(0xC2 ≤ a.val ∧ a.val < 0xE0) := by omega
  have h3 : ¬(0xE0 ≤ a.val ∧ a.val < 0xF0) := by omega
  simp only [h1, h2, h3, ha, hb, hc, hd, hn, hlo, hhi, and_self, if_true, if_false]

theorem utf8Decode_char {c : CodePoint} (hc : isSurrogate c = false) (s : Bytes) :
    utf8Decode (utf8Char c ++ s) = (c :: ·) <$> utf8Decode s := by
  have hs : ¬(0xD800 ≤ c.val ∧ c.val ≤ 0xDFFF) := by simpa [isSurrogate] using hc
  have hc' := c.isLt
  have h80 (n : Nat) : (byte (0x80 + n % 64)).val = 0x80 + n % 64 := byte_val (by omega)
  have hcont (n : Nat) : isCont (byte (0x80 + n % 64)) = true := isCont_byte (by omega)
  unfold utf8Char
  split
  · have e : (byte c.val).val = c.val := byte_val (by omega)
    rw [List.cons_append, List.nil_append, utf8Decode_one (by omega), e, code_self]
  split
  · have e : (byte (0xC0 + c.val / 64)).val = 0xC0 + c.val / 64 := byte_val (by omega)
    rw [List.cons_append, List.cons_append, List.nil_append,
      utf8Decode_two (by omega) (hcont _), e, h80]
    have en : (0xC0 + c.val / 64 - 0xC0) * 64 + (0x80 + c.val % 64 - 0x80) = c.val := by omega
    rw [en, code_self]
  split
  · have e : (byte (0xE0 + c.val / 4096)).val = 0xE0 + c.val / 4096 := byte_val (by omega)
    simp only [List.cons_append, List.nil_append]
    rw [utf8Decode_three (n := c.val) (by omega) (hcont _) (hcont _) ?_ (by omega) hs, code_self]
    rw [e, h80, h80]
    omega
  · have e : (byte (0xF0 + c.val / 262144)).val = 0xF0 + c.val / 262144 := byte_val (by omega)
    simp only [List.cons_append, List.nil_append]
    rw [utf8Decode_four (n := c.val) (by omega) (hcont _) (hcont _) (hcont _) ?_ (by omega) hc',
      code_self]
    rw [e, h80, h80, h80]
    omega

/-- **Reading back what was written.** -/
theorem utf8Decode_encode : ∀ {s : Str} {b : Bytes}, utf8Encode s = some b → utf8Decode b = some s
  | [], b, h => by
      cases h
      rfl
  | c :: s, b, h => by
      unfold utf8Encode at h
      cases hc : isSurrogate c with
      | true => simp [hc] at h
      | false =>
        cases hs : utf8Encode s with
        | none => simp [hc, hs] at h
        | some b' =>
          simp only [hc, hs, Bool.false_eq_true, if_false, Option.map_eq_map, Option.map_some,
            Option.some.injEq] at h
          subst h
          rw [utf8Decode_char hc, utf8Decode_encode hs]
          rfl

/-- **What UTF-8 decodes to** has no surrogates. -/
theorem scalarOnly_utf8Decode {b : Bytes} {s : Str} (h : utf8Decode b = some s) :
    scalarOnly s = true := by
  have cons {n : Nat} (hn : n < 0xD800 ∨ 0xDFFF < n) (hlt : n < 0x110000) {o : Option Str}
      (ih : ∀ {s}, o = some s → scalarOnly s = true) {s : Str}
      (h : (code n :: ·) <$> o = some s) : scalarOnly s = true := by
    obtain ⟨t, ht, rfl⟩ := Option.map_eq_some_iff.mp h
    have hc : isSurrogate (code n) = false := by
      rw [isSurrogate, code_val hlt]
      exact decide_eq_false (by omega)
    rw [scalarOnly_cons, hc, ih ht]
    rfl
  fun_induction utf8Decode b generalizing s with
  | case1 =>
    cases h
    rfl
  | case2 _ _ _ ih => exact cons (by omega) (by omega) ih h
  | case3 _ _ _ _ _ hb ih =>
    have hb := of_decide_eq_true hb
    exact cons (by omega) (by omega) ih h
  | case6 =>
    rename_i hn ih
    exact cons (by omega) (by omega) ih h
  | case9 =>
    rename_i hn ih
    exact cons (by omega) (by omega) ih h
  | _ => cases h

end JsonDatabase
