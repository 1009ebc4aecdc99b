/-
  File:      JsonDatabase/Basis/JsonRoundTrip.lean
  Subject:   Reading back what was written.

  `loads_render`: a value without repeated keys that the writer accepts is read back from its
  text, whatever the style and whatever white space follows; if everything outside ASCII is
  escaped, then provided that it holds no character in two halves. The tokens come first (strings,
  numbers, words), each with an arbitrary rest behind it; the values follow by induction, one
  lemma for a value, one for the elements of an array, one for the entries of an object.
-/
import JsonDatabase.Basis.JsonLoads

namespace JsonDatabase

/-! ## 1. Strings -/

theorem hexVal_hexDigit {n : Nat} (h : n < 16) : hexVal (hexDigit n) = some n := by
  have all : ∀ n : Fin 16, hexVal (hexDigit n.val) = some n.val := by decide
  exact all ⟨n, h⟩

theorem hex4Val_unicodeEscape {n : Nat} (h : n < 0x10000) :
    hex4Val (hexDigit (n / 4096 % 16)) (hexDigit (n / 256 % 16)) (hexDigit (n / 16 % 16))
      (hexDigit (n % 16)) = some n := by
  have lt (m : Nat) : m % 16 < 16 := Nat.mod_lt _ (by omega)
  simp only [hex4Val, hexVal_hexDigit (lt _), Option.some.injEq]
  omega

/-- Whether the writer of raw text uses a `\u` escape for `c`. -/
def escapedByNumber (c : CodePoint) : Bool :=
  decide (c.val < 0x20 ∧ c.val ≠ 0x0A ∧ c.val ≠ 0x0D ∧ c.val ≠ 0x09 ∧ c.val ≠ 0x0C ∧ c.val ≠ 0x08)

theorem scanString_raw {c : CodePoint} (hq : c ≠ quoteMark) (hb : c ≠ backslash)
    (hc : 0x20 ≤ c.val) (r : Str) :
    scanString (c :: r) = (scanString r).map fun ur => ((c, false) :: ur.1, ur.2) := by
  rw [scanString.eq_def]
  simp only [hq, hb, if_false]
  rw [if_neg (by omega)]

theorem scanString_letter {e c : CodePoint} (hu : e ≠ ch 'u') (he : simpleEscape e = some c)
    (r : Str) : scanString (backslash :: e :: r) =
      (scanString r).map fun ur => ((c, false) :: ur.1, ur.2) := by
  rw [scanString.eq_def]
  simp only [show backslash ≠ quoteMark by decide, if_false, if_true, hu, he]

theorem scanString_number {n : Nat} (hn : n < 0x10000) (r : Str) :
    scanString (unicodeEscape n ++ r) =
      (scanString r).map fun ur => ((code n, true) :: ur.1, ur.2) := by
  simp only [unicodeEscape, List.cons_append, List.nil_append]
  rw [scanString.eq_def]
  simp only [show backslash ≠ quoteMark by decide, if_false, if_true, hex4Val_unicodeEscape hn]

theorem escape_control (ascii : Bool) {c : CodePoint} (h : escapedByNumber c = true) :
    escape ascii c = unicodeEscape c.val := by
  simp only [escapedByNumber, decide_eq_true_eq] at h
  have hq : c ≠ quoteMark := fun e => by rw [e] at h; exact absurd h.1 (by decide)
  have hb : c ≠ backslash := fun e => by rw [e] at h; exact absurd h.1 (by decide)
  unfold escape
  rw [if_neg hq, if_neg hb, if_neg h.2.1, if_neg h.2.2.1, if_neg h.2.2.2.1, if_neg h.2.2.2.2.1,
    if_neg h.2.2.2.2.2, if_pos h.1]

/-- What the scanner finds where `c` was written: a surrogate pair for a character outside the
    basic plane if everything but ASCII is escaped, else `c` itself. -/
def units (ascii : Bool) (c : CodePoint) : List (CodePoint × Bool) :=
  if ascii = true ∧ 0x7F ≤ c.val then
    if c.val < 0x10000 then [(c, true)]
    else
      [(code (0xD800 + (c.val - 0x10000) / 0x400), true),
        (code (0xDC00 + (c.val - 0x10000) % 0x400), true)]
  else [(c, escapedByNumber c)]

theorem units_low (ascii : Bool) {c : CodePoint} (h : c.val < 0x7F) :
    units ascii c = [(c, escapedByNumber c)] := by
  unfold units
  rw [if_neg (by omega)]

/-- Scanning past what stands for one character. -/
def Scans (text : Str) (us : List (CodePoint × Bool)) : Prop :=
  ∀ r, scanString (text ++ r) = (scanString r).map fun ur => (us ++ ur.1, ur.2)

theorem scans_escape (ascii : Bool) (c : CodePoint) : Scans (escape ascii c) (units ascii c) := by
  intro r
  cases hn : escapedByNumber c with
  | true =>
    have h : c.val < 0x20 := by
      simp only [escapedByNumber, decide_eq_true_eq] at hn
      exact hn.1
    rw [escape_control ascii hn, scanString_number (by omega), code_self,
      units_low ascii (by omega), hn]
    rfl
  | false =>
    have low (h : c.val < 0x7F) : units ascii c = [(c, false)] := by rw [units_low ascii h, hn]
    by_cases hq : c = quoteMark
    · subst hq
      rw [low (by decide)]
      exact scanString_letter (by decide) (by decide) r
    by_cases hb : c = backslash
    · subst hb
      rw [low (by decide)]
      exact scanString_letter (by decide) (by decide) r
    by_cases hc : 0x20 ≤ c.val
    · rw [escape_of_le ascii hq hb hc, units]
      split
      · split
        · rw [scanString_number (by omega), code_self]
          rfl
        · have h1 : 0xD800 + (c.val - 0x10000) / 0x400 < 0x10000 := by omega
          have h2 : 0xDC00 + (c.val - 0x10000) % 0x400 < 0x10000 := by omega
          rw [List.append_assoc, scanString_number h1, scanString_number h2, Option.map_map]
          rfl
      · rw [hn]
        exact scanString_raw hq hb hc r
    -- the five control characters with a letter of their own
    have hv : c.val = 0x0A ∨ c.val = 0x0D ∨ c.val = 0x09 ∨ c.val = 0x0C ∨ c.val = 0x08 := by
      simp only [escapedByNumber, decide_eq_false_iff_not] at hn
      omega
    rw [low (by omega)]
    rcases hv with h | h | h | h | h
    · obtain rfl : c = 0x0A := Fin.ext h
      exact scanString_letter (e := ch 'n') (by decide) (by decide) r
    · obtain rfl : c = 0x0D := Fin.ext h
      exact scanString_letter (e := ch 'r') (by decide) (by decide) r
    · obtain rfl : c = 0x09 := Fin.ext h
      exact scanString_letter (e := ch 't') (by decide) (by decide) r
    · obtain rfl : c = 0x0C := Fin.ext h
      exact scanString_letter (e := ch 'f') (by decide) (by decide) r
    · obtain rfl : c = 0x08 := Fin.ext h
      exact scanString_letter (e := ch 'b') (by decide) (by decide) r

/-- **A quoted string is scanned to its units.** -/
theorem scanString_quoted (ascii : Bool) : ∀ s r : Str,
    scanString (s.flatMap (escape ascii) ++ quoteMark :: r) = some (s.flatMap (units ascii), r)
  | [], r => by
      rw [List.flatMap_nil, List.nil_append, scanString.eq_def]
      rfl
  | c :: s, r => by
      rw [List.flatMap_cons, List.append_assoc, scans_escape ascii c, scanString_quoted ascii s r]
      rfl

theorem joinSurrogates_cons {c : CodePoint} {b : Bool} {us : List (CodePoint × Bool)}
    (h : b = true → ∀ l us', us = (l, true) :: us' → isHigh c = true → isLow l = false) :
    joinSurrogates ((c, b) :: us) = c :: joinSurrogates us := by
  rw [joinSurrogates.eq_def]
  split
  · rename_i e
    cases e
  · rename_i c' l us' e
    simp only [List.cons.injEq, Prod.mk.injEq] at e
    obtain ⟨⟨rfl, hb⟩, rfl⟩ := e
    have h := h hb l us' rfl
    simp only [isHigh, isLow, decide_eq_true_eq, decide_eq_false_iff_not] at h
    rw [if_neg fun h' => h ⟨h'.1, h'.2.1⟩ h'.2.2]
  · rename_i e
    simp only [List.cons.injEq, Prod.mk.injEq] at e
    obtain ⟨⟨rfl, -⟩, rfl⟩ := e
    rfl

/-- What is escaped first in a text that starts with an escaped low surrogate is that surrogate. -/
theorem isLow_of_units {s : Str} {l : CodePoint} {us : List (CodePoint × Bool)}
    (h : s.flatMap (units true) = (l, true) :: us) (hl : isLow l = true) :
    ∃ s', s = l :: s' := by
  cases s with
  | nil => cases h
  | cons c s =>
    simp only [isLow, decide_eq_true_eq] at hl
    rw [List.flatMap_cons, units] at h
    split at h
    · split at h
      · rw [List.singleton_append] at h
        cases h
        exact ⟨s, rfl⟩
      · rw [List.cons_append, List.cons.injEq, Prod.mk.injEq] at h
        have hv : (code (0xD800 + (c.val - 0x10000) / 0x400)).val =
            0xD800 + (c.val - 0x10000) / 0x400 := code_val (by omega)
        rw [h.1.1] at hv
        omega
    · rw [List.singleton_append] at h
      obtain rfl : c = l := congrArg Prod.fst (List.cons.inj h).1
      exact ⟨s, rfl⟩

/-- **The reader joins what the writer took apart**; with escapes for everything outside ASCII
    the halves of a character that the text itself holds would be joined, so there are none. -/
theorem joinSurrogates_units (ascii : Bool) : ∀ s : Str, (ascii = true → unsplit s = true) →
    joinSurrogates (s.flatMap (units ascii)) = s
  | [], _ => rfl
  | c :: s, h => by
      have ih := joinSurrogates_units ascii s fun ha => (unsplit_cons.mp (h ha)).2
      rw [List.flatMap_cons, units]
      split
      · rename_i ha
        obtain ⟨rfl, hc⟩ := ha
        split
        · rw [List.singleton_append, joinSurrogates_cons, ih]
          intro _ l us hus hhigh
          refine Bool.eq_false_iff.mpr fun hl => ?_
          obtain ⟨s', rfl⟩ := isLow_of_units hus hl
          have := (unsplit_cons.mp (h rfl)).1 l s' rfl hhigh
          rw [hl] at this
          cases this
        · have h1 : (code (0xD800 + (c.val - 0x10000) / 0x400)).val =
              0xD800 + (c.val - 0x10000) / 0x400 := code_val (by omega)
          have h2 : (code (0xDC00 + (c.val - 0x10000) % 0x400)).val =
              0xDC00 + (c.val - 0x10000) % 0x400 := code_val (by omega)
          have e : 0x10000 + ((code (0xD800 + (c.val - 0x10000) / 0x400)).val - 0xD800) * 0x400 +
              ((code (0xDC00 + (c.val - 0x10000) % 0x400)).val - 0xDC00) = c.val := by omega
          rw [List.cons_append, List.singleton_append, joinSurrogates, if_pos (by omega), ih, e,
            code_self]
      · rw [List.singleton_append, joinSurrogates_cons, ih]
        intro hn l us _ hhigh
        simp only [escapedByNumber, isHigh, decide_eq_true_eq] at hn hhigh
        omega

theorem parseString_quoted {ascii : Bool} {s : Str} (hs : ascii = true → unsplit s = true)
    (r : Str) : parseString (s.flatMap (escape ascii) ++ quoteMark :: r) = .ok (s, r) := by
  simp only [parseString, scanString_quoted, joinSurrogates_units ascii s hs]

/-! ## 2. Numbers -/

/-- What may stand behind a number: nothing that would continue it. -/
def Follow (r : Str) : Prop :=
  ∀ c s, r = c :: s → isDigit c = false ∧ c ≠ ch '.' ∧ c ≠ ch 'e' ∧ c ≠ ch 'E'

theorem spanDigits_append {ds : Str} (hd : ∀ c ∈ ds, isDigit c = true) {r : Str}
    (hr : ∀ c s, r = c :: s → isDigit c = false) : spanDigits (ds ++ r) = (ds, r) := by
  induction ds with
  | nil =>
    cases r with
    | nil => rfl
    | cons c s => simp [spanDigits, hr c s rfl]
  | cons c ds ih =>
    have hc := hd c (by simp)
    simp [spanDigits, hc, ih fun x hx => hd x (by simp [hx])]

/-- A digit is none of the marks of a number. -/
theorem ne_of_isDigit {c : CodePoint} (h : isDigit c = true) :
    c ≠ ch '-' ∧ c ≠ ch '+' ∧ c ≠ ch '.' ∧ c ≠ ch 'e' ∧ c ≠ ch 'E' := by
  refine ⟨?_, ?_, ?_, ?_, ?_⟩ <;>
  · intro e
    subst e
    exact absurd h (by decide)

theorem isDigit_of_intPart {i : Str} (h : NumToken.IntPart i) : ∃ c ds, i = c :: ds ∧
    isDigit c = true ∧ ∀ d ∈ ds, isDigit d = true := by
  rcases h with e | ⟨c, ds, e, h1, h2, hds⟩
  · exact ⟨ch '0', [], e, by decide, fun _ h => absurd h List.not_mem_nil⟩
  · refine ⟨c, ds, e, ?_, hds⟩
    simp only [isDigit, decide_eq_true_eq]
    omega

theorem scanInt_append {i : Str} (h : NumToken.IntPart i) {r : Str}
    (hr : ∀ c s, r = c :: s → isDigit c = false) : scanInt (i ++ r) = some (i, r) := by
  rcases h with rfl | ⟨c, ds, rfl, h1, h2, hds⟩
  · rfl
  · have h0 : c ≠ ch '0' := by
      intro e
      subst e
      exact absurd h1 (by decide)
    have hc : isDigit c = true := by
      simp only [isDigit, decide_eq_true_eq]
      omega
    simp [scanInt, h0, hc, spanDigits_append hds hr]

theorem scanSign_append {neg : Bool} {s : Str} (h : ∃ c ds, s = c :: ds ∧ isDigit c = true) :
    scanSign ((if neg then [ch '-'] else []) ++ s) = (neg, s) := by
  obtain ⟨c, ds, rfl, hc⟩ := h
  cases neg with
  | true => rfl
  | false => simp [scanSign, (ne_of_isDigit hc).1]

/-- An exponent, or what follows the number, continues no fraction. -/
theorem noDigit_exp {e : Str} (he : NumToken.ExpPart e) {r : Str} (hr : Follow r) :
    ∀ c s, e ++ r = c :: s → isDigit c = false ∧ c ≠ ch '.' := by
  intro c s h
  rcases he with rfl | ⟨m, sg, ds, rfl, hm, -⟩
  · exact ⟨(hr c s h).1, (hr c s h).2.1⟩
  · have hc : m = c := by
      simp only [List.cons_append, List.cons.injEq] at h
      exact h.1
    subst hc
    rcases hm with rfl | rfl <;> decide

theorem scanFrac_append {t : NumToken} (h : t.WellFormed) {r : Str} (hr : Follow r) :
    scanFrac (t.fracText ++ (t.exp ++ r)) = (t.frac, t.exp ++ r) := by
  have he := noDigit_exp h.exp hr
  unfold NumToken.fracText
  split
  · rename_i e
    rw [e, List.nil_append]
    cases h' : t.exp ++ r with
    | nil => rfl
    | cons c s => simp [scanFrac, (he c s h').2]
  · rename_i e
    simp only [List.cons_append, scanFrac, if_true,
      spanDigits_append h.frac fun c s h' => (he c s h').1]

theorem scanExp_append {e : Str} (he : NumToken.ExpPart e) {r : Str} (hr : Follow r) :
    scanExp (e ++ r) = (e, r) := by
  rcases he with rfl | ⟨m, sg, ds, rfl, hm, hsg, hne, hds⟩
  · rw [List.nil_append]
    cases r with
    | nil => rfl
    | cons c s => simp [scanExp, (hr c s rfl).2.2.1, (hr c s rfl).2.2.2]
  · obtain ⟨d, ds', rfl⟩ := List.exists_cons_of_ne_nil hne
    have hd := ne_of_isDigit (hds d (by simp))
    have hs : scanExpSign (sg ++ (d :: ds' ++ r)) = (sg, d :: ds' ++ r) := by
      rcases hsg with rfl | rfl | rfl
      · simp [scanExpSign, hd.1, hd.2.1]
      · rfl
      · rfl
    simp only [List.cons_append, List.append_assoc] at hs ⊢
    simp only [scanExp, hm, if_true, hs]
    rw [← List.cons_append, spanDigits_append hds fun c s h => (hr c s h).1]

/-- **A number token is scanned as it was written.** -/
theorem scanNumber_text {t : NumToken} (h : t.WellFormed) {r : Str} (hr : Follow r) :
    scanNumber (t.text ++ r) = some (t, r) := by
  obtain ⟨c, ds, hi, hc, hds⟩ := isDigit_of_intPart h.int
  have hsign : scanSign (t.text ++ r) = (t.neg, t.int ++ (t.fracText ++ (t.exp ++ r))) := by
    rw [NumToken.text, NumToken.sign, List.append_assoc, List.append_assoc, List.append_assoc]
    exact scanSign_append ⟨c, ds ++ (t.fracText ++ (t.exp ++ r)), by rw [hi]; rfl, hc⟩
  have hint : scanInt (t.int ++ (t.fracText ++ (t.exp ++ r))) =
      some (t.int, t.fracText ++ (t.exp ++ r)) := by
    refine scanInt_append h.int fun c s h' => ?_
    unfold NumToken.fracText at h'
    split at h'
    · exact (noDigit_exp h.exp hr c s h').1
    · cases h'
      decide
  simp only [scanNumber, hsign, hint, scanFrac_append h hr, scanExp_append h.exp hr]

/-- The token of an integer. -/
def intToken (i : Int) : NumToken := ⟨decide (i < 0), natDigits i.natAbs, [], []⟩

theorem text_intToken (i : Int) : (intToken i).text = intText i := by
  unfold intToken NumToken.text NumToken.sign NumToken.fracText intText
  by_cases h : i < 0 <;> simp [h]

theorem intPart_natDigits (n : Nat) : NumToken.IntPart (natDigits n) := by
  by_cases h : n = 0
  · subst h
    exact Or.inl rfl
  · obtain ⟨c, ds, e, h1, h2⟩ := natDigits_head (show 0 < n by omega)
    exact Or.inr ⟨c, ds, e, h1, h2, fun d hd =>
      natDigits_isDigit n d (by rw [e]; exact List.mem_cons_of_mem _ hd)⟩

theorem wellFormed_intToken (i : Int) : (intToken i).WellFormed where
  int := intPart_natDigits _
  frac _ h := absurd h List.not_mem_nil
  exp := Or.inl rfl

theorem numberValue_intToken (ft : FloatText) {i : Int} (h : Json.intFits i = true) :
    numberValue ft (intToken i) = .ok (.int i) := by
  have hl : ¬ Json.maxStrDigits < (natDigits i.natAbs).length := by
    simpa [Json.intFits] using h
  have hf : (intToken i).isFloat = false := rfl
  unfold numberValue
  rw [hf, if_neg Bool.false_ne_true]
  show (if Json.maxStrDigits < (natDigits i.natAbs).length then Except.error LoadsError.intTooLong
    else .ok (Json.int (if decide (i < 0) then -(digitsVal (natDigits i.natAbs) : Int)
      else digitsVal (natDigits i.natAbs)))) = _
  rw [if_neg hl, digitsVal_natDigits]
  by_cases hi : i < 0
  · rw [decide_eq_true hi, if_pos rfl, show -((i.natAbs : Nat) : Int) = i by omega]
  · rw [decide_eq_false hi, if_neg Bool.false_ne_true, show ((i.natAbs : Nat) : Int) = i by omega]

/-! ## 3. Words and numbers among the values -/

/-- A number's text starts with a digit or with a minus and a digit. -/
theorem NumToken.text_head {t : NumToken} (h : t.WellFormed) : ∃ c s, isDigit c = true ∧
    (t.text = c :: s ∨ t.text = ch '-' :: c :: s) := by
  obtain ⟨c, ds, hi, hc, -⟩ := isDigit_of_intPart h.int
  refine ⟨c, ds ++ t.fracText ++ t.exp, hc, ?_⟩
  unfold NumToken.text NumToken.sign
  cases t.neg with
  | true => exact Or.inr (by simp [hi])
  | false => exact Or.inl (by simp [hi])

theorem not_literal {c : CodePoint} (hc : isDigit c = true) (s : Str) :
    literals.findSome? (fun (w, j) => (dropPrefix w (c :: s)).map fun r => (j, r)) = none ∧
    literals.findSome? (fun (w, j) => (dropPrefix w (ch '-' :: c :: s)).map fun r => (j, r)) =
      none := by
  have hw : ∀ wj ∈ literals, ∃ d w, wj.1 = d :: w ∧ isDigit d = false ∧
      (d = ch '-' → ∃ d' w', w = d' :: w' ∧ isDigit d' = false) := by
    intro wj hm
    simp only [literals, List.mem_cons, List.not_mem_nil, or_false] at hm
    rcases hm with rfl | rfl | rfl | rfl | rfl | rfl
    all_goals exact ⟨_, _, rfl, by decide, fun _ => ⟨_, _, rfl, by decide⟩⟩
  have hne {d : CodePoint} (hd : isDigit d = false) : d ≠ c := by
    intro e
    rw [e, hc] at hd
    cases hd
  constructor <;> rw [List.findSome?_eq_none_iff] <;> intro wj hm <;>
    obtain ⟨d, w, e, hd, hm'⟩ := hw wj hm
  · simp [e, dropPrefix, hne hd]
  · by_cases h : d = ch '-'
    · obtain ⟨d', w', rfl, hd'⟩ := hm' h
      simp [e, dropPrefix, h, hne hd']
    · simp [e, dropPrefix, h]

theorem parseAtom_text (ft : FloatText) {t : NumToken} (h : t.WellFormed) {r : Str}
    (hr : Follow r) {j : Json} (hj : numberValue ft t = .ok j) :
    parseAtom ft (t.text ++ r) = .ok (j, r) := by
  obtain ⟨c, s, hc, hs⟩ := NumToken.text_head h
  have hno : literals.findSome? (fun (w, j) => (dropPrefix w (t.text ++ r)).map fun r => (j, r)) =
      none := by
    rcases hs with e | e <;> rw [e]
    · exact (not_literal hc (s ++ r)).1
    · exact (not_literal hc (s ++ r)).2
  unfold parseAtom
  rw [hno]
  simp only [scanNumber_text h hr, hj]
  rfl

/-! ## 4. Values -/

theorem skipWs_append {w : Str} (hw : ∀ c ∈ w, isWs c = true) (s : Str) :
    skipWs (w ++ s) = skipWs s := by
  induction w with
  | nil => rfl
  | cons c w ih =>
    rw [List.cons_append, skipWs, if_pos (hw c (by simp)), ih fun d hd => hw d (by simp [hd])]

theorem skipWs_cons {c : CodePoint} (hc : isWs c = false) (s : Str) :
    skipWs (c :: s) = c :: s := by
  rw [skipWs, hc, if_neg Bool.false_ne_true]

theorem skipWs_of_isWs {w : Str} (hw : ∀ c ∈ w, isWs c = true) : skipWs w = [] := by
  have h := skipWs_append hw []
  rwa [List.append_nil] at h

/-- What stands behind a value: white space and then a bracket or a comma, or nothing. -/
theorem follow_of_ws {w : Str} (hw : ∀ c ∈ w, isWs c = true) {r : Str} (hr : Follow r) :
    Follow (w ++ r) := by
  cases w with
  | nil => exact hr
  | cons d w =>
    intro c s e
    obtain rfl : d = c := (List.cons.inj e).1
    have h := hw d (by simp)
    simp only [isWs, decide_eq_true_eq] at h
    refine ⟨?_, ?_, ?_, ?_⟩
    · simp only [isDigit, decide_eq_false_iff_not]
      omega
    all_goals
      intro e
      rw [e] at h
      exact absurd h (by decide)

theorem follow_cons {c : CodePoint} (h : isDigit c = false ∧ c ≠ ch '.' ∧ c ≠ ch 'e' ∧ c ≠ ch 'E')
    (s : Str) : Follow (c :: s) := by
  intro d t e
  obtain rfl : c = d := (List.cons.inj e).1
  exact h

theorem follow_nil : Follow [] := fun _ _ h => by cases h

/-- What no value starts with. -/
def Opens (c : CodePoint) : Prop := isWs c = false ∧ c ≠ ch ']' ∧ c ≠ 0x7D ∧ c ≠ 0xFEFF

theorem opens_of_isDigit {c : CodePoint} (h : isDigit c = true) : Opens c := by
  simp only [isDigit, decide_eq_true_eq] at h
  refine ⟨?_, ?_, ?_, ?_⟩
  · simp only [isWs, decide_eq_false_iff_not]
    omega
  all_goals
    intro e
    rw [e] at h
    exact absurd h (by decide)

theorem NumToken.text_opens {t : NumToken} (h : t.WellFormed) : ∃ c s, t.text = c :: s ∧ Opens c := by
  obtain ⟨c, s, hc, e | e⟩ := NumToken.text_head h
  · exact ⟨c, s, e, opens_of_isDigit hc⟩
  · exact ⟨_, _, e, by decide, by decide, by decide, by decide⟩

namespace Json

variable (ft : FloatText) (ascii : Bool) (σ : Style)

theorem render_opens (n : Nat) (j : Json) :
    ∃ c s, render ft ascii σ n j = c :: s ∧ Opens c := by
  cases j with
  | null => exact ⟨_, _, rfl, by decide, by decide, by decide, by decide⟩
  | bool b =>
    cases b with
    | true => exact ⟨_, _, rfl, by decide, by decide, by decide, by decide⟩
    | false => exact ⟨_, _, rfl, by decide, by decide, by decide, by decide⟩
  | int i =>
    rw [render, ← text_intToken]
    exact NumToken.text_opens (wellFormed_intToken i)
  | float f =>
    cases f with
    | finite x => exact NumToken.text_opens (ft.token_wellFormed x)
    | inf neg =>
      cases neg with
      | true => exact ⟨_, _, rfl, by decide, by decide, by decide, by decide⟩
      | false => exact ⟨_, _, rfl, by decide, by decide, by decide, by decide⟩
    | nan => exact ⟨_, _, rfl, by decide, by decide, by decide, by decide⟩
  | str s => exact ⟨_, _, rfl, by decide, by decide, by decide, by decide⟩
  | arr xs =>
    cases xs with
    | nil => exact ⟨_, _, rfl, by decide, by decide, by decide, by decide⟩
    | cons x xs => exact ⟨_, _, rfl, by decide, by decide, by decide, by decide⟩
  | obj kvs =>
    cases kvs with
    | nil => exact ⟨_, _, rfl, by decide, by decide, by decide, by decide⟩
    | cons kv kvs => exact ⟨_, _, rfl, by decide, by decide, by decide, by decide⟩

/-- The text of `j`, with anything that may follow it, is read as `j`. -/
def Reads (j : Json) : Prop := ∀ (n fuel : Nat) (r : Str), Follow r →
  2 * (render ft ascii σ n j ++ r).length + 1 ≤ fuel →
    parseValue ft fuel (render ft ascii σ n j ++ r) = .ok (j, r)

theorem skipWs_render (n : Nat) (j : Json) {w : Str} (hw : ∀ c ∈ w, isWs c = true) (r : Str) :
    skipWs (w ++ (render ft ascii σ n j ++ r)) = render ft ascii σ n j ++ r := by
  obtain ⟨c, s, e, hc⟩ := render_opens ft ascii σ n j
  rw [skipWs_append hw, e, List.cons_append, skipWs_cons hc.1]

theorem expect_render (n : Nat) (j : Json) (r : Str) :
    expect (ch ']') (render ft ascii σ n j ++ r) = .error .decode := by
  obtain ⟨c, s, e, hc⟩ := render_opens ft ascii σ n j
  rw [e, List.cons_append, expect, if_neg hc.2.1]

theorem reads_atom {j : Json} {t : NumToken} (ht : t.WellFormed)
    (hr : ∀ n, render ft ascii σ n j = t.text) (hj : numberValue ft t = .ok j) :
    Reads ft ascii σ j := by
  intro n fuel r hf hn
  cases fuel with
  | zero => omega
  | succ fuel =>
    rw [hr]
    obtain ⟨c, s, hc, e⟩ := NumToken.text_head ht
    have hat := parseAtom_text ft ht hf hj
    have notOpen {d : CodePoint} (hd : isDigit d = true ∨ d = ch '-') :
        d ≠ quoteMark ∧ d ≠ ch '[' ∧ d ≠ 0x7B := by
      refine ⟨?_, ?_, ?_⟩ <;>
      · intro e
        subst e
        exact absurd hd (by decide)
    rcases e with e | e
    · have h := notOpen (Or.inl hc)
      rw [e] at hat ⊢
      rw [List.cons_append] at hat ⊢
      rw [parseValue, if_neg h.1, if_neg h.2.1, if_neg h.2.2, hat]
    · have h := notOpen (d := ch '-') (Or.inr rfl)
      rw [e] at hat ⊢
      rw [List.cons_append] at hat ⊢
      rw [parseValue, if_neg h.1, if_neg h.2.1, if_neg h.2.2, hat]

theorem separator_more (close : CodePoint) {w : Str} (hw : ∀ c ∈ w, isWs c = true) {s : Str} :
    separator close (skipWs (ch ',' :: (w ++ s))) = .ok (true, skipWs s) := by
  rw [skipWs_cons (by decide), separator, if_pos rfl, skipWs_append hw]

theorem separator_close {close : CodePoint} (hc : isWs close = false) (hne : close ≠ ch ',')
    {w : Str} (hw : ∀ c ∈ w, isWs c = true) (r : Str) :
    separator close (skipWs (w ++ close :: r)) = .ok (false, r) := by
  rw [skipWs_append hw, skipWs_cons hc, separator, if_neg hne, if_pos rfl]

theorem follow_renderList (n : Nat) (xs : List Json) {w : Str} (hw : ∀ c ∈ w, isWs c = true)
    (r : Str) : Follow (renderList ft ascii σ n xs ++ (w ++ ch ']' :: r)) := by
  cases xs with
  | nil => exact follow_of_ws hw (follow_cons (by decide) r)
  | cons x xs => exact follow_cons (by decide) _

theorem follow_renderEntries (n : Nat) (kvs : List (Str × Json)) {w : Str}
    (hw : ∀ c ∈ w, isWs c = true) (r : Str) :
    Follow (renderEntries ft ascii σ n kvs ++ (w ++ 0x7D :: r)) := by
  cases kvs with
  | nil => exact follow_of_ws hw (follow_cons (by decide) r)
  | cons kv kvs => exact follow_cons (by decide) _

variable {ft ascii σ}

/-- The elements of an array, by induction on those after the first. -/
theorem reads_list {n : Nat} {w : Str} (hw : ∀ c ∈ w, isWs c = true) :
    ∀ (xs : List Json) (x : Json), Reads ft ascii σ x → (∀ y ∈ xs, Reads ft ascii σ y) →
    ∀ (fuel : Nat) (r : Str),
      2 * (render ft ascii σ n x ++ (renderList ft ascii σ n xs ++ (w ++ ch ']' :: r))).length + 2
        ≤ fuel →
      parseList ft fuel
        (render ft ascii σ n x ++ (renderList ft ascii σ n xs ++ (w ++ ch ']' :: r))) =
        .ok (x :: xs, r)
  | _, _, _, _, 0, _, h => by omega
  | xs, x, hx, hxs, fuel + 1, r, h => by
      have hv := hx n fuel _ (follow_renderList ft ascii σ n xs hw r) (by omega)
      simp only [parseList, hv, bind, Except.bind]
      cases xs with
      | nil =>
        rw [renderList, List.nil_append, separator_close (by decide) (by decide) hw]
        rfl
      | cons y ys =>
        have hy : separator (ch ']') (skipWs (renderList ft ascii σ n (y :: ys) ++
            (w ++ ch ']' :: r))) =
            .ok (true, render ft ascii σ n y ++ (renderList ft ascii σ n ys ++
              (w ++ ch ']' :: r))) := by
          simp only [renderList, List.cons_append, List.append_assoc]
          rw [separator_more _ (σ.newline_ws n)]
          have := skipWs_render ft ascii σ n y (w := []) (by simp)
            (renderList ft ascii σ n ys ++ (w ++ ch ']' :: r))
          rw [List.nil_append] at this
          rw [this]
        have ih := reads_list (n := n) hw ys y (hxs y (by simp)) (fun z hz => hxs z (by simp [hz]))
          fuel r (by
              simp only [renderList, List.length_append, List.length_cons] at h ⊢
              omega)
        simp only [hy, ih, if_true]
        rfl

/-- The text of an entry. -/
theorem reads_key {k : Str} (hk : ascii = true → JsonDatabase.unsplit k = true) (s : Str) : (do
    let r ← expect quoteMark (quoted ascii k ++ s)
    parseString r) = .ok (k, s) := by
  rw [quoted, List.cons_append, List.append_assoc, List.singleton_append]
  simp only [expect, if_true, bind, Except.bind]
  exact parseString_quoted hk s

/-- The entries of an object, by induction on those after the first. -/
theorem reads_entries {n : Nat} {w : Str} (hw : ∀ c ∈ w, isWs c = true) :
    ∀ (kvs : List (Str × Json)) (k : Str) (v : Json), (ascii = true → JsonDatabase.unsplit k = true) →
    Reads ft ascii σ v →
    (∀ k' v', (k', v') ∈ kvs →
      (ascii = true → JsonDatabase.unsplit k' = true) ∧ Reads ft ascii σ v') →
    ∀ (fuel : Nat) (r : Str),
      2 * (quoted ascii k ++ ch ':' :: (σ.space ++ (render ft ascii σ n v ++
        (renderEntries ft ascii σ n kvs ++ (w ++ 0x7D :: r))))).length + 2 ≤ fuel →
      parseEntries ft fuel (quoted ascii k ++ ch ':' :: (σ.space ++ (render ft ascii σ n v ++
        (renderEntries ft ascii σ n kvs ++ (w ++ 0x7D :: r))))) = .ok ((k, v) :: kvs, r)
  | _, _, _, _, _, _, 0, _, h => by omega
  | kvs, k, v, hks, hv, hkvs, fuel + 1, r, h => by
      have hk := reads_key hks (ch ':' :: (σ.space ++ (render ft ascii σ n v ++
        (renderEntries ft ascii σ n kvs ++ (w ++ 0x7D :: r)))))
      have hx := hv n fuel _ (follow_renderEntries ft ascii σ n kvs hw r) (by
        simp only [List.length_append, List.length_cons] at h ⊢
        omega)
      have hcolon (s : Str) : expect (ch ':') (skipWs (ch ':' :: s)) = .ok s := by
        rw [skipWs_cons (by decide), expect, if_pos rfl]
      simp only [bind, Except.bind] at hk
      unfold parseEntries
      simp only [bind, Except.bind]
      split at hk
      · cases hk
      rename_i r' hr'
      simp only [hr', hk, hcolon, skipWs_render ft ascii σ n v σ.space_ws, hx]
      cases kvs with
      | nil =>
        rw [renderEntries, List.nil_append, separator_close (by decide) (by decide) hw]
        rfl
      | cons kv kvs =>
        obtain ⟨k', v'⟩ := kv
        have hy : separator 0x7D (skipWs (renderEntries ft ascii σ n ((k', v') :: kvs) ++
            (w ++ 0x7D :: r))) =
            .ok (true, quoted ascii k' ++ ch ':' :: (σ.space ++ (render ft ascii σ n v' ++
              (renderEntries ft ascii σ n kvs ++ (w ++ 0x7D :: r))))) := by
          simp only [renderEntries, List.cons_append, List.append_assoc]
          rw [separator_more _ (σ.newline_ws n), quoted, List.cons_append,
            skipWs_cons (by decide)]
        have ih := reads_entries (n := n) hw kvs k' v' (hkvs k' v' (by simp)).1 (hkvs k' v' (by simp)).2
          (fun k'' v'' hm => hkvs k'' v'' (by simp [hm])) fuel r (by
            simp only [renderEntries, List.length_append, List.length_cons] at h ⊢
            omega)
        simp only [hy, ih, if_true]
        rfl

/-- **A value that the writer accepts is read from its text.** -/
theorem reads {j : Json} (hd : j.distinct) (hj : dumpable j = true)
    (hs : ascii = true → j.unsplit) : Reads ft ascii σ j := by
  induction j using Json.induct with
  | null =>
    intro n fuel r hf hn
    cases fuel with
    | zero => omega
    | succ fuel => rfl
  | bool b =>
    intro n fuel r hf hn
    cases fuel with
    | zero => omega
    | succ fuel => cases b <;> rfl
  | int i =>
    exact reads_atom ft ascii σ (wellFormed_intToken i) (fun _ => by rw [render, text_intToken])
      (numberValue_intToken ft hj)
  | float f =>
    cases f with
    | finite x =>
      refine reads_atom ft ascii σ (ft.token_wellFormed x) (fun _ => rfl) ?_
      rw [numberValue, ft.token_isFloat, if_pos rfl, ft.parse_token]
    | inf neg => cases hj
    | nan => cases hj
  | str s =>
    intro n fuel r hf hn
    cases fuel with
    | zero => omega
    | succ fuel =>
      rw [render, quoted, List.cons_append, List.append_assoc, List.singleton_append, parseValue,
        if_pos rfl, parseString_quoted hs]
      rfl
  | arr xs ih =>
    intro n fuel r hf hn
    cases fuel with
    | zero => omega
    | succ fuel =>
      rw [distinct_arr] at hd
      rw [dumpable_arr] at hj
      rw [unsplit, texts_arr] at hs
      cases xs with
      | nil => rfl
      | cons x xs =>
        have hxs := reads_list (n := n + 1) (σ.newline_ws n) xs x
          (ih x (by simp) (hd x (by simp)) (hj x (by simp)) fun ha => hs ha x (by simp))
          (fun y hy => ih y (by simp [hy]) (hd y (by simp [hy])) (hj y (by simp [hy]))
            fun ha => hs ha y (by simp [hy])) fuel r (by
            simp only [render, List.length_append, List.length_cons, List.length_nil] at hn ⊢
            omega)
        simp only [render, List.cons_append, List.append_assoc, List.nil_append]
        rw [parseValue, if_neg (by decide), if_pos rfl, skipWs_render ft ascii σ _ _ (σ.newline_ws (n + 1)),
          expect_render ft ascii σ, hxs]
        rfl
  | obj kvs ih =>
    intro n fuel r hf hn
    cases fuel with
    | zero => omega
    | succ fuel =>
      rw [distinct_obj] at hd
      rw [dumpable_obj] at hj
      rw [unsplit, texts_obj] at hs
      cases kvs with
      | nil => rfl
      | cons kv kvs =>
        obtain ⟨k, v⟩ := kv
        have hkvs := reads_entries (n := n + 1) (σ.newline_ws n) kvs k v
          (fun ha => (hs ha k v (by simp)).1)
          (ih k v (by simp) (hd.2 k v (by simp)) (hj k v (by simp)) fun ha =>
            (hs ha k v (by simp)).2)
          (fun k' v' hm => ⟨fun ha => (hs ha k' v' (by simp [hm])).1,
            ih k' v' (by simp [hm]) (hd.2 k' v' (by simp [hm])) (hj k' v' (by simp [hm]))
              fun ha => (hs ha k' v' (by simp [hm])).2⟩) fuel r (by
            simp only [render, List.length_append, List.length_cons, List.length_nil] at hn ⊢
            omega)
        have hq (s : Str) : skipWs (σ.newline (n + 1) ++ (quoted ascii k ++ s)) =
            quoted ascii k ++ s := by
          rw [skipWs_append (σ.newline_ws (n + 1)), quoted, List.cons_append,
            skipWs_cons (by decide)]
        have hx (s : Str) : expect 0x7D (quoted ascii k ++ s) = .error .decode := by
          rw [quoted, List.cons_append, expect, if_neg (by decide)]
        simp only [render, List.cons_append, List.append_assoc, List.nil_append]
        rw [parseValue, if_neg (by decide), if_neg (by decide), if_pos rfl, hq, hx, hkvs]
        show Except.ok (Json.obj (Dict.ofPairs ((k, v) :: kvs)), r) = _
        rw [Dict.ofPairs_of_distinct hd.1]

variable (ft ascii σ)

/-- **Reading back what was written**, in any style and with white space behind it. -/
theorem loads_render {j : Json} (hd : j.distinct) (hj : dumpable j = true)
    (hs : ascii = true → j.unsplit) {w : Str} (hw : ∀ c ∈ w, isWs c = true) :
    loads ft (render ft ascii σ 0 j ++ w) = .ok j := by
  obtain ⟨c, s, e, hc⟩ := render_opens ft ascii σ 0 j
  have hws := skipWs_render ft ascii σ 0 j (w := []) (by simp) w
  have hf : Follow w := by
    have := follow_of_ws hw follow_nil
    rwa [List.append_nil] at this
  have hv := (reads hd hj hs : Reads ft ascii σ j) 0 (2 * (render ft ascii σ 0 j ++ w).length + 2) w hf
    (by omega)
  rw [List.nil_append] at hws
  unfold loads
  rw [hws, hv]
  have hbom : ¬ (render ft ascii σ 0 j ++ w).head? = some 0xFEFF := by
    rw [e]
    exact fun h => hc.2.2.2 (Option.some.inj h)
  simp only [if_neg hbom, bind, Except.bind, pure, Except.pure, skipWs_of_isWs hw, if_true]

end Json

end JsonDatabase
