/-
  File:      JsonDatabase/Python/Sha256.lean
  Subject:   `hashlib.sha256(b).hexdigest()`.
-/
import JsonDatabase.Basis.JsonDumps

namespace JsonDatabase

namespace Sha256

/-- The round constants. -/
def roundConstants : List UInt32 :=
  [0x428a2f98, 0x71374491, 0xb5c0fbcf, 0xe9b5dba5, 0x3956c25b, 0x59f111f1, 0x923f82a4, 0xab1c5ed5,
    0xd807aa98, 0x12835b01, 0x243185be, 0x550c7dc3, 0x72be5d74, 0x80deb1fe, 0x9bdc06a7, 0xc19bf174,
    0xe49b69c1, 0xefbe4786, 0x0fc19dc6, 0x240ca1cc, 0x2de92c6f, 0x4a7484aa, 0x5cb0a9dc, 0x76f988da,
    0x983e5152, 0xa831c66d, 0xb00327c8, 0xbf597fc7, 0xc6e00bf3, 0xd5a79147, 0x06ca6351, 0x14292967,
    0x27b70a85, 0x2e1b2138, 0x4d2c6dfc, 0x53380d13, 0x650a7354, 0x766a0abb, 0x81c2c92e, 0x92722c85,
    0xa2bfe8a1, 0xa81a664b, 0xc24b8b70, 0xc76c51a3, 0xd192e819, 0xd6990624, 0xf40e3585, 0x106aa070,
    0x19a4c116, 0x1e376c08, 0x2748774c, 0x34b0bcb5, 0x391c0cb3, 0x4ed8aa4a, 0x5b9cca4f, 0x682e6ff3,
    0x748f82ee, 0x78a5636f, 0x84c87814, 0x8cc70208, 0x90befffa, 0xa4506ceb, 0xbef9a3f7, 0xc67178f2]

/-- The chaining value: eight words. -/
structure Chain where
  a : UInt32
  b : UInt32
  c : UInt32
  d : UInt32
  e : UInt32
  f : UInt32
  g : UInt32
  h : UInt32

def start : Chain :=
  ⟨0x6a09e667, 0xbb67ae85, 0x3c6ef372, 0xa54ff53a, 0x510e527f, 0x9b05688c, 0x1f83d9ab, 0x5be0cd19⟩

def rotr (x : UInt32) (n : UInt32) : UInt32 := (x >>> n) ||| (x <<< (32 - n))

/-- The bytes of a number, most significant first. -/
def bigEndian : Nat → Nat → Bytes
  | 0, _ => []
  | k + 1, n => bigEndian k (n / 256) ++ [byte (n % 256)]

/-- The message, a one bit, zeros, and its length in bits. -/
def padded (message : Bytes) : Bytes :=
  message ++ byte 0x80 :: (List.replicate ((119 - message.length % 64) % 64) (byte 0) ++
    bigEndian 8 (8 * message.length))

def word (bs : Bytes) : UInt32 := UInt32.ofNat (bs.foldl (fun n b => 256 * n + b.val) 0)

/-- The next word of the schedule, from the words so far, the latest first. -/
def nextWord (ws : List UInt32) : UInt32 :=
  let w15 := ws.getD 14 0
  let w2 := ws.getD 1 0
  let s0 := rotr w15 7 ^^^ rotr w15 18 ^^^ (w15 >>> 3)
  let s1 := rotr w2 17 ^^^ rotr w2 19 ^^^ (w2 >>> 10)
  ws.getD 15 0 + s0 + ws.getD 6 0 + s1

/-- The schedule of a block, the latest word first. -/
def schedule (block : Bytes) : List UInt32 :=
  let first := ((List.range 16).map fun i => word ((block.drop (4 * i)).take 4)).reverse
  (List.range 48).foldl (fun ws _ => nextWord ws :: ws) first

def round (s : Chain) (kw : UInt32 × UInt32) : Chain :=
  let s1 := rotr s.e 6 ^^^ rotr s.e 11 ^^^ rotr s.e 25
  let choice := (s.e &&& s.f) ^^^ (~~~s.e &&& s.g)
  let t1 := s.h + s1 + choice + kw.1 + kw.2
  let s0 := rotr s.a 2 ^^^ rotr s.a 13 ^^^ rotr s.a 22
  let majority := (s.a &&& s.b) ^^^ (s.a &&& s.c) ^^^ (s.b &&& s.c)
  ⟨t1 + s0 + majority, s.a, s.b, s.c, s.d + t1, s.e, s.f, s.g⟩

def compress (s : Chain) (block : Bytes) : Chain :=
  let t := (roundConstants.zip (schedule block).reverse).foldl round s
  ⟨s.a + t.a, s.b + t.b, s.c + t.c, s.d + t.d, s.e + t.e, s.f + t.f, s.g + t.g, s.h + t.h⟩

def blocks (message : Bytes) : List Bytes :=
  let bs := padded message
  (List.range (bs.length / 64)).map fun i => (bs.drop (64 * i)).take 64

def digest (message : Bytes) : Bytes :=
  let s := (blocks message).foldl compress start
  [s.a, s.b, s.c, s.d, s.e, s.f, s.g, s.h].flatMap fun w => bigEndian 4 w.toNat

/-- Two hexadecimal digits. -/
def hexByte (b : Byte) : Str := [hexDigit (b.val / 16), hexDigit (b.val % 16)]

def hexdigest (message : Bytes) : Str := (digest message).flatMap hexByte

theorem isAscii_flatMap_hexByte : ∀ bs : Bytes, isAscii (bs.flatMap hexByte) = true
  | [] => rfl
  | b :: bs => by
      have h1 := hexDigit_val (show b.val / 16 < 16 by omega)
      have h2 := hexDigit_val (show b.val % 16 < 16 by omega)
      rw [List.flatMap_cons, isAscii_append, isAscii_flatMap_hexByte bs]
      simp [hexByte, isAscii_cons, h1, h2]

theorem isAscii_hexdigest (message : Bytes) : isAscii (hexdigest message) = true :=
  isAscii_flatMap_hexByte _

theorem length_bigEndian (k n : Nat) : (bigEndian k n).length = k := by
  induction k generalizing n with
  | zero => rfl
  | succ k ih => rw [bigEndian, List.length_append, ih, List.length_singleton]

theorem length_digest (message : Bytes) : (digest message).length = 32 := by
  unfold digest
  simp only [List.flatMap_cons, List.flatMap_nil, List.length_append, length_bigEndian, List.length_nil]

theorem length_flatMap_hexByte : ∀ bs : Bytes, (bs.flatMap hexByte).length = 2 * bs.length
  | [] => rfl
  | b :: bs => by
      rw [List.flatMap_cons, List.length_append, length_flatMap_hexByte bs, List.length_cons]
      show 2 + 2 * bs.length = 2 * (bs.length + 1)
      omega

theorem length_hexdigest (message : Bytes) : (hexdigest message).length = 64 := by
  rw [hexdigest, length_flatMap_hexByte, length_digest]

theorem hexDigit_hex {n : Nat} (h : n < 16) :
    0x61 ≤ (hexDigit n).val ∧ (hexDigit n).val ≤ 0x66 ∨ isDigit (hexDigit n) = true := by
  unfold hexDigit
  split
  · refine Or.inr (decide_eq_true ?_)
    rw [code_val (by omega)]
    omega
  · rw [code_val (by omega)]
    omega

/-- Digits, and letters from `a` to `f`. -/
theorem hexdigest_hex {message : Bytes} {c : CodePoint} (hc : c ∈ hexdigest message) :
    0x61 ≤ c.val ∧ c.val ≤ 0x66 ∨ isDigit c = true := by
  obtain ⟨b, -, hb⟩ := List.mem_flatMap.mp hc
  simp only [hexByte, List.mem_cons, List.not_mem_nil, or_false] at hb
  rcases hb with rfl | rfl
  · exact hexDigit_hex (by omega)
  · exact hexDigit_hex (by omega)

end Sha256

end JsonDatabase
