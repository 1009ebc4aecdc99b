/-
  File:      JsonDatabase/Python/Calendar.lean
  Subject:   `datetime.date` and `datetime.datetime`, and their ISO text.

  A date carries the proof that the calendar has it, a datetime that its clock fields and its
  offset are in range. The zone of an aware datetime is a fixed offset, as reading ISO text
  gives it.

  * `Date.isoformat`, `DateTime.isoformat` -- the text the interpreter writes;
  * `Date.parse`, `DateTime.parse` -- a reader of exactly that text, and `parse_isoformat`;
  * `DateTime.instant` -- the microsecond count comparisons go by.
-/
import JsonDatabase.Basis.Text
import Mathlib.Data.Option.Basic

namespace JsonDatabase

/-! ## 1. Readers of fixed-width text -/

/-- A number of exactly `w` digits. -/
def takeNat (w : Nat) (s : Str) : Option (Nat × Str) :=
  if (s.take w).length = w ∧ (s.take w).all isDigit then some (digitsVal (s.take w), s.drop w)
  else none

theorem takeNat_pad {w n : Nat} (h : n < 10 ^ w) (r : Str) :
    takeNat w (pad w n ++ r) = some (n, r) := by
  have ht : (pad w n ++ r).take w = pad w n := by
    rw [List.take_append_of_le_length (by simp), List.take_of_length_le (by simp)]
  have hd : (pad w n ++ r).drop w = r := by
    rw [List.drop_append_of_le_length (by simp), List.drop_of_length_le (by simp), List.nil_append]
  have ha : (pad w n).all isDigit = true := List.all_eq_true.mpr (pad_isDigit w n)
  unfold takeNat
  rw [ht, hd, digitsVal_pad h, if_pos ⟨length_pad w n, ha⟩]

/-- Exactly the character `c`. -/
def eat (c : CodePoint) : Str → Option Str
  | [] => none
  | d :: s => if d = c then some s else none

@[simp] theorem eat_cons (c : CodePoint) (s : Str) : eat c (c :: s) = some s := by simp [eat]

theorem eat_ne {c d : CodePoint} (h : d ≠ c) (s : Str) : eat c (d :: s) = none := by simp [eat, h]

def colon : CodePoint := 0x3A

def dash : CodePoint := 0x2D

def dot : CodePoint := 0x2E

def plus : CodePoint := 0x2B

/-! ## 2. Dates -/

def isLeap (y : Nat) : Bool := decide (y % 4 = 0 ∧ (y % 100 ≠ 0 ∨ y % 400 = 0))

def daysInMonth (y m : Nat) : Nat :=
  if m = 2 then if isLeap y then 29 else 28
  else if m = 4 ∨ m = 6 ∨ m = 9 ∨ m = 11 then 30
  else 31

structure Date where
  year : Nat
  month : Nat
  day : Nat
  valid : 1 ≤ year ∧ year ≤ 9999 ∧ 1 ≤ month ∧ month ≤ 12 ∧ 1 ≤ day ∧ day ≤ daysInMonth year month
  deriving DecidableEq

theorem daysInMonth_le (y m : Nat) : daysInMonth y m ≤ 31 := by
  unfold daysInMonth
  split
  · split <;> omega
  · split <;> omega

namespace Date

/-- `YYYY-MM-DD`. -/
def isoformat (d : Date) : Str := pad 4 d.year ++ dash :: (pad 2 d.month ++ dash :: pad 2 d.day)

/-- A date at the head of a text. -/
def scan (s : Str) : Option (Date × Str) := do
  let (y, s) ← takeNat 4 s
  let s ← eat dash s
  let (m, s) ← takeNat 2 s
  let s ← eat dash s
  let (d, s) ← takeNat 2 s
  if h : 1 ≤ y ∧ y ≤ 9999 ∧ 1 ≤ m ∧ m ≤ 12 ∧ 1 ≤ d ∧ d ≤ daysInMonth y m then
    some (⟨y, m, d, h⟩, s)
  else none

theorem scan_isoformat (d : Date) (r : Str) : scan (d.isoformat ++ r) = some (d, r) := by
  obtain ⟨y, m, dd, h⟩ := d
  have hle := daysInMonth_le y m
  have hy := takeNat_pad (show y < 10 ^ 4 by omega)
  have hm := takeNat_pad (show m < 10 ^ 2 by omega)
  have hd := takeNat_pad (show dd < 10 ^ 2 by omega)
  simp [scan, isoformat, hy, hm, hd, h]

def parse (s : Str) : Option Date :=
  match scan s with
  | some (d, []) => some d
  | _ => none

theorem parse_isoformat (d : Date) : parse d.isoformat = some d := by
  have h := scan_isoformat d []
  rw [List.append_nil] at h
  simp [parse, h]

/-- The days before a month of a year. -/
def daysBeforeMonth (y m : Nat) : Nat := ((List.range (m - 1)).map fun i => daysInMonth y (i + 1)).sum

/-- The proleptic Gregorian ordinal. -/
def ordinal (d : Date) : Nat :=
  let y := d.year - 1
  y * 365 + y / 4 - y / 100 + y / 400 + daysBeforeMonth d.year d.month + d.day

end Date

/-! ## 3. Datetimes -/

/-- A second, a minute, an hour and a day in microseconds. -/
def second : Nat := 1000000

def minute : Nat := 60 * second

def hour : Nat := 60 * minute

def day : Nat := 24 * hour

/-- A `datetime`; `offset` is the zone's distance from UTC in microseconds, absent if naive. -/
structure DateTime where
  date : Date
  /-- The time of the day in microseconds. -/
  micros : Nat
  offset : Option Int
  micros_lt : micros < day
  offset_lt : ∀ o ∈ offset, o.natAbs < day
  deriving DecidableEq

namespace DateTime

/-- `.ffffff`, left out where it is zero. -/
def fracText (us : Nat) : Str := if us = 0 then [] else dot :: pad 6 us

/-- `HH:MM:SS[.ffffff]`. -/
def clockText (t : Nat) : Str :=
  pad 2 (t / hour) ++ colon :: (pad 2 (t / minute % 60) ++ colon ::
    (pad 2 (t / second % 60) ++ fracText (t % second)))

/-- `HH:MM[:SS[.ffffff]]`. -/
def offsetText (o : Nat) : Str :=
  pad 2 (o / hour) ++ colon :: (pad 2 (o / minute % 60) ++
    if o % minute = 0 then [] else colon :: (pad 2 (o / second % 60) ++ fracText (o % second)))

def zoneText : Option Int → Str
  | none => []
  | some o => (if o < 0 then dash else plus) :: offsetText o.natAbs

/-- `YYYY-MM-DDTHH:MM:SS[.ffffff][±HH:MM[:SS[.ffffff]]]`. -/
def isoformat (d : DateTime) : Str :=
  d.date.isoformat ++ ch 'T' :: (clockText d.micros ++ zoneText d.offset)

def scanFracText (s : Str) : Option (Nat × Str) :=
  match eat dot s with
  | some r => takeNat 6 r
  | none => some (0, s)

def scanClock (s : Str) : Option (Nat × Str) := do
  let (h, s) ← takeNat 2 s
  let s ← eat colon s
  let (m, s) ← takeNat 2 s
  let s ← eat colon s
  let (sec, s) ← takeNat 2 s
  let (us, s) ← scanFracText s
  some (h * hour + m * minute + sec * second + us, s)

def scanOffset (s : Str) : Option (Nat × Str) := do
  let (h, s) ← takeNat 2 s
  let s ← eat colon s
  let (m, s) ← takeNat 2 s
  match eat colon s with
  | none => some (h * hour + m * minute, s)
  | some s => do
    let (sec, s) ← takeNat 2 s
    let (us, s) ← scanFracText s
    some (h * hour + m * minute + sec * second + us, s)

def scanZone (s : Str) : Option (Option Int × Str) :=
  match eat plus s, eat dash s with
  | some s, _ => (scanOffset s).map fun r => (some (r.1 : Int), r.2)
  | none, some s => (scanOffset s).map fun r => (some (-(r.1 : Int)), r.2)
  | none, none => some (none, s)

def parse (s : Str) : Option DateTime := do
  let (date, s) ← Date.scan s
  let s ← eat (ch 'T') s
  let (t, s) ← scanClock s
  let (o, s) ← scanZone s
  if h : s = [] ∧ t < day ∧ ∀ x ∈ o, x.natAbs < day then some ⟨date, t, o, h.2.1, h.2.2⟩ else none

/-- What may stand behind a time: no point. -/
def NoDot (r : Str) : Prop := eat dot r = none

theorem scanFracText_fracText {us : Nat} (h : us < second) {r : Str} (hr : NoDot r) :
    scanFracText (fracText us ++ r) = some (us, r) := by
  unfold fracText
  split
  · rename_i h0
    unfold NoDot at hr
    rw [List.nil_append, scanFracText, hr, h0]
  · rw [List.cons_append, scanFracText, eat_cons]
    exact takeNat_pad (show us < 10 ^ 6 by unfold second at h; omega) r

theorem scanClock_clockText {t : Nat} (h : t < day) {r : Str} (hr : NoDot r) :
    scanClock (clockText t ++ r) = some (t, r) := by
  unfold day hour minute second at h
  have h1 := takeNat_pad (show t / hour < 10 ^ 2 by unfold hour minute second; omega)
  have h2 := takeNat_pad (show t / minute % 60 < 10 ^ 2 by omega)
  have h3 := takeNat_pad (show t / second % 60 < 10 ^ 2 by omega)
  have h4 := scanFracText_fracText (show t % second < second from Nat.mod_lt _ (by decide)) hr
  have e : t / hour * hour + t / minute % 60 * minute + t / second % 60 * second + t % second =
      t := by
    unfold hour minute second
    omega
  simp [scanClock, clockText, h1, h2, h3, h4, e]

theorem scanOffset_offsetText {o : Nat} (h : o < day) : scanOffset (offsetText o) =
    some (o, []) := by
  unfold day hour minute second at h
  have h1 := takeNat_pad (show o / hour < 10 ^ 2 by unfold hour minute second; omega)
  have h2 := takeNat_pad (show o / minute % 60 < 10 ^ 2 by omega)
  have h2' := takeNat_pad (show o / minute % 60 < 10 ^ 2 by omega) []
  have h3 := takeNat_pad (show o / second % 60 < 10 ^ 2 by omega)
  have h4 := scanFracText_fracText (show o % second < second from Nat.mod_lt _ (by decide))
    (r := []) rfl
  rw [List.append_nil] at h2' h4
  by_cases h0 : o % minute = 0
  · have e : o / hour * hour + o / minute % 60 * minute = o := by
      unfold hour minute second at *
      omega
    simp [scanOffset, offsetText, h0, h1, h2', eat, e]
  · have e : o / hour * hour + o / minute % 60 * minute + o / second % 60 * second + o % second =
        o := by
      unfold hour minute second
      omega
    simp [scanOffset, offsetText, h0, h1, h2, h3, h4, e]

theorem noDot_zoneText (o : Option Int) : NoDot (zoneText o) := by
  cases o with
  | none => rfl
  | some o =>
    by_cases h : o < 0
    · rw [zoneText, if_pos h]
      exact eat_ne (show dash ≠ dot by decide) _
    · rw [zoneText, if_neg h]
      exact eat_ne (show plus ≠ dot by decide) _

theorem scanZone_zoneText {o : Option Int} (h : ∀ x ∈ o, x.natAbs < day) :
    scanZone (zoneText o) = some (o, []) := by
  cases o with
  | none => rfl
  | some o =>
    have ho := scanOffset_offsetText (h o rfl)
    by_cases h0 : o < 0
    · have e : -(o.natAbs : Int) = o := by omega
      simp only [scanZone, zoneText, if_pos h0, eat_ne (show dash ≠ plus by decide), eat_cons, ho,
        Option.map_some, e]
    · have e : (o.natAbs : Int) = o := by omega
      simp only [scanZone, zoneText, if_neg h0, eat_cons, ho, Option.map_some, e]

theorem parse_isoformat (d : DateTime) : parse d.isoformat = some d := by
  obtain ⟨date, t, o, ht, ho⟩ := d
  have h1 := Date.scan_isoformat date (ch 'T' :: (clockText t ++ zoneText o))
  have h2 := scanClock_clockText ht (noDot_zoneText o)
  have h3 := scanZone_zoneText ho
  simp only [parse, isoformat, h1, h2, h3, eat_cons, Option.bind_eq_bind, Option.bind_some]
  rw [dif_pos ⟨trivial, ht, ho⟩]

/-- Microseconds since the day before the first, in UTC if the zone is known. -/
def instant (d : DateTime) : Int := d.date.ordinal * day + d.micros - d.offset.getD 0

end DateTime

/-! ## 4. The text is ASCII -/

theorem isAscii_pad (w n : Nat) : isAscii (pad w n) = true := isAscii_of_isDigit (pad_isDigit w n)

theorem isAscii_isoformat_date (d : Date) : isAscii d.isoformat = true := by
  simp [Date.isoformat, isAscii_cons, isAscii_pad, show dash.val < 0x80 by decide]

theorem isAscii_isoformat (d : DateTime) : isAscii d.isoformat = true := by
  have hc : colon.val < 0x80 := by decide
  have ht : (ch 'T').val < 0x80 := by decide
  have hf (n : Nat) : isAscii (DateTime.fracText n) = true := by
    unfold DateTime.fracText
    split
    · rfl
    · simp [isAscii_cons, isAscii_pad, show dot.val < 0x80 by decide]
  have hz : isAscii (DateTime.zoneText d.offset) = true := by
    cases d.offset with
    | none => rfl
    | some o =>
      have ho : isAscii (DateTime.offsetText o.natAbs) = true := by
        unfold DateTime.offsetText
        split <;> simp [isAscii_cons, isAscii_pad, hc, hf]
      have hs : (if o < 0 then dash else plus).val < 0x80 := by
        split <;> decide
      rw [DateTime.zoneText, isAscii_cons, ho, decide_eq_true hs]
      rfl
  simp [DateTime.isoformat, DateTime.clockText, isAscii_cons, isAscii_isoformat_date, isAscii_pad,
    hc, ht, hf, hz]

end JsonDatabase
