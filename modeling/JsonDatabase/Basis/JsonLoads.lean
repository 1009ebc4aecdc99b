/-
  File:      JsonDatabase/Basis/JsonLoads.lean
  Subject:   Reading JSON: `json.loads`.

  The reader is recursive descent over the code points, as lenient as the interpreter's: `NaN`,
  `Infinity` and `-Infinity` are values, a `\u` escape may leave a lone surrogate, and of a
  repeated key the last value counts.

  * `scanString`, `joinSurrogates`, `scanNumber` -- the tokens;
  * `parseValue`, `loads` -- values, with a fuel the length of the text always covers
    (`loads_ne_outOfFuel`);
  * `Behind` -- the reader only moves forward in the text;
  * `ReaderClosed` -- what holds of every value that is read, by induction over the reader.
-/
import JsonDatabase.Basis.JsonDumps
import JsonDatabase.Basis.Result

namespace JsonDatabase

/-- Why a text is not read. -/
inductive LoadsError where
  /-- `JSONDecodeError`: the text is not JSON. -/
  | decode
  /-- `ValueError`: an integer has more digits than the interpreter converts. -/
  | intTooLong
  /-- The bound on the recursion was reached; `loads` never is. -/
  | outOfFuel
  deriving DecidableEq

/-! ## 1. Strings -/

def skipWs : Str → Str
  | [] => []
  | c :: s => if isWs c then skipWs s else c :: s

def hexVal (c : CodePoint) : Option Nat :=
  if 0x30 ≤ c.val ∧ c.val ≤ 0x39 then some (c - 0x30)
  else if 0x61 ≤ c.val ∧ c.val ≤ 0x66 then some (c - 0x57)
  else if 0x41 ≤ c.val ∧ c.val ≤ 0x46 then some (c - 0x37)
  else none

def hex4Val (a b c d : CodePoint) : Option Nat :=
  match hexVal a, hexVal b, hexVal c, hexVal d with
  | some a, some b, some c, some d => some (a * 4096 + b * 256 + c * 16 + d)
  | _, _, _, _ => none

/-- The character a one-letter escape stands for. -/
def simpleEscape (e : CodePoint) : Option CodePoint :=
  if e = quoteMark ∨ e = backslash ∨ e = ch '/' then some e
  else if e = ch 'b' then some 0x08
  else if e = ch 'f' then some 0x0C
  else if e = ch 'n' then some 0x0A
  else if e = ch 'r' then some 0x0D
  else if e = ch 't' then some 0x09
  else none

/-- A string literal after its opening quote: its code points, each marked by whether a `\u`
    escape wrote it, and what follows the closing quote. A raw control character ends it. -/
def scanString : Str → Option (List (CodePoint × Bool) × Str)
  | [] => none
  | c :: s =>
    if c = quoteMark then some ([], s)
    else if c = backslash then
      match s with
      | [] => none
      | e :: s =>
        if e = ch 'u' then
          match s with
          | h1 :: h2 :: h3 :: h4 :: s =>
            match hex4Val h1 h2 h3 h4 with
            | some n => (scanString s).map fun ur => ((code n, true) :: ur.1, ur.2)
            | none => none
          | _ => none
        else
          match simpleEscape e with
          | some x => (scanString s).map fun ur => ((x, false) :: ur.1, ur.2)
          | none => none
    else if c.val < 0x20 then none
    else (scanString s).map fun ur => ((c, false) :: ur.1, ur.2)

/-- An escaped high surrogate directly before an escaped low one is one code point. -/
def joinSurrogates : List (CodePoint × Bool) → Str
  | [] => []
  | (h, true) :: (l, true) :: us =>
    if 0xD800 ≤ h.val ∧ h.val < 0xDC00 ∧ 0xDC00 ≤ l.val ∧ l.val < 0xE000 then
      code (0x10000 + (h - 0xD800) * 0x400 + (l - 0xDC00)) :: joinSurrogates us
    else h :: joinSurrogates ((l, true) :: us)
  | (c, _) :: us => c :: joinSurrogates us

/-! ## 2. Numbers -/

def spanDigits : Str → Str × Str
  | [] => ([], [])
  | c :: s =>
    if isDigit c then
      let (ds, r) := spanDigits s
      (c :: ds, r)
    else ([], c :: s)

def scanSign : Str → Bool × Str
  | [] => (false, [])
  | c :: s => if c = ch '-' then (true, s) else (false, c :: s)

def scanInt : Str → Option (Str × Str)
  | [] => none
  | c :: s =>
    if c = ch '0' then some ([c], s)
    else if isDigit c then
      let (ds, r) := spanDigits s
      some (c :: ds, r)
    else none

/-- The digits after a point; a point without digits belongs to what follows. -/
def scanFrac : Str → Str × Str
  | [] => ([], [])
  | c :: s =>
    if c = ch '.' then
      match spanDigits s with
      | ([], _) => ([], c :: s)
      | (ds, r) => (ds, r)
    else ([], c :: s)

def scanExpSign : Str → Str × Str
  | [] => ([], [])
  | c :: s => if c = ch '+' ∨ c = ch '-' then ([c], s) else ([], c :: s)

/-- The exponent; a marker without digits belongs to what follows. -/
def scanExp : Str → Str × Str
  | [] => ([], [])
  | c :: s =>
    if c = ch 'e' ∨ c = ch 'E' then
      match spanDigits (scanExpSign s).2 with
      | ([], _) => ([], c :: s)
      | (ds, r) => (c :: ((scanExpSign s).1 ++ ds), r)
    else ([], c :: s)

/-- The longest number token at the head of a text. -/
def scanNumber (s : Str) : Option (NumToken × Str) :=
  match scanInt (scanSign s).2 with
  | none => none
  | some (int, r) =>
    let (frac, r) := scanFrac r
    let (exp, r) := scanExp r
    some (⟨(scanSign s).1, int, frac, exp⟩, r)

/-- The value of a number token: a float if it has a fraction or an exponent, else an integer,
    which may have too many digits to be converted. -/
def numberValue (ft : FloatText) (t : NumToken) : Except LoadsError Json :=
  if t.isFloat then .ok (.float (ft.parse t))
  else if Json.maxStrDigits < t.int.length then .error .intTooLong
  else .ok (.int (if t.neg then -(digitsVal t.int : Int) else digitsVal t.int))

/-! ## 3. Values -/

/-- The words that are values. -/
def literals : List (Str × Json) :=
  [(lit "null", .null), (lit "true", .bool true), (lit "false", .bool false),
    (lit "NaN", .float .nan), (lit "Infinity", .float (.inf false)),
    (lit "-Infinity", .float (.inf true))]

/-- What follows the prefix `p` of a text. -/
def dropPrefix : Str → Str → Option Str
  | [], s => some s
  | _ :: _, [] => none
  | p :: ps, c :: s => if p = c then dropPrefix ps s else none

/-- A word or a number. -/
def parseAtom (ft : FloatText) (s : Str) : Except LoadsError (Json × Str) :=
  match literals.findSome? fun (w, j) => (dropPrefix w s).map fun r => (j, r) with
  | some jr => .ok jr
  | none =>
    match scanNumber s with
    | none => .error .decode
    | some (t, r) => (numberValue ft t).map fun j => (j, r)

def parseString (s : Str) : Except LoadsError (Str × Str) :=
  match scanString s with
  | none => .error .decode
  | some (us, r) => .ok (joinSurrogates us, r)

/-- Exactly the character `c`. -/
def expect (c : CodePoint) : Str → Except LoadsError Str
  | [] => .error .decode
  | d :: s => if d = c then .ok s else .error .decode

/-- After an element: a comma and the next element, or the closing bracket. -/
def separator (close : CodePoint) : Str → Except LoadsError (Bool × Str)
  | [] => .error .decode
  | c :: s =>
    if c = ch ',' then .ok (true, skipWs s)
    else if c = close then .ok (false, s)
    else .error .decode

mutual
/-- A value at the head of a text, and what follows it. -/
def parseValue (ft : FloatText) : Nat → Str → Except LoadsError (Json × Str)
  | 0, _ => .error .outOfFuel
  | _ + 1, [] => .error .decode
  | n + 1, c :: s =>
    if c = quoteMark then (parseString s).map fun tr => (.str tr.1, tr.2)
    else if c = ch '[' then
      match expect (ch ']') (skipWs s) with
      | .ok r => .ok (.arr [], r)
      | .error _ => (parseList ft n (skipWs s)).map fun xr => (.arr xr.1, xr.2)
    else if c = 0x7B then
      match expect 0x7D (skipWs s) with
      | .ok r => .ok (.obj [], r)
      | .error _ => (parseEntries ft n (skipWs s)).map fun er => (.obj (Dict.ofPairs er.1), er.2)
    else parseAtom ft (c :: s)

/-- One or more elements and the closing bracket. -/
def parseList (ft : FloatText) : Nat → Str → Except LoadsError (List Json × Str)
  | 0, _ => .error .outOfFuel
  | n + 1, s => do
    let (x, r) ← parseValue ft n s
    let (more, r) ← separator (ch ']') (skipWs r)
    if more then
      let (xs, r) ← parseList ft n r
      return (x :: xs, r)
    else return ([x], r)

/-- One or more entries and the closing brace. -/
def parseEntries (ft : FloatText) : Nat → Str → Except LoadsError (List (Str × Json) × Str)
  | 0, _ => .error .outOfFuel
  | n + 1, s => do
    let r ← expect quoteMark s
    let (k, r) ← parseString r
    let r ← expect (ch ':') (skipWs r)
    let (v, r) ← parseValue ft n (skipWs r)
    let (more, r) ← separator 0x7D (skipWs r)
    if more then
      let (kvs, r) ← parseEntries ft n r
      return ((k, v) :: kvs, r)
    else return ([(k, v)], r)
end

/-- `json.loads` on a text: one value with white space around it, and no byte-order mark. -/
def loads (ft : FloatText) (s : Str) : Except LoadsError Json := do
  if s.head? = some 0xFEFF then throw .decode
  let (j, r) ← parseValue ft (2 * s.length + 2) (skipWs s)
  if skipWs r = [] then return j else throw .decode

/-! ## 4. The rest of a text -/

/-- A rest of a text with something in front of it. -/
def Behind (r s : Str) : Prop := ∃ c t, s = c :: t ∧ r <:+ t

namespace Behind

theorem tail (c : CodePoint) (s : Str) : Behind s (c :: s) := ⟨c, s, rfl, List.suffix_refl s⟩

theorem cons {r s : Str} (h : Behind r s) (c : CodePoint) : Behind r (c :: s) := by
  obtain ⟨d, t, rfl, hr⟩ := h
  exact ⟨c, d :: t, rfl, hr.trans (List.suffix_cons d t)⟩

theorem suffix {r s : Str} (h : Behind r s) : r <:+ s := by
  obtain ⟨c, t, rfl, hr⟩ := h
  exact hr.trans (List.suffix_cons c t)

theorem length_lt {r s : Str} (h : Behind r s) : r.length < s.length := by
  obtain ⟨c, t, rfl, hr⟩ := h
  exact Nat.lt_succ_of_le hr.length_le

theorem of_suffix {r' r s : Str} (h : Behind r s) (hr : r' <:+ r) : Behind r' s := by
  obtain ⟨c, t, rfl, ht⟩ := h
  exact ⟨c, t, rfl, hr.trans ht⟩

theorem in_suffix {r t s : Str} (h : Behind r t) (ht : t <:+ s) : Behind r s := by
  obtain ⟨p, rfl⟩ := ht
  induction p with
  | nil => exact h
  | cons c p ih => exact ih.cons c

end Behind

theorem suffix_skipWs : ∀ s : Str, skipWs s <:+ s
  | [] => List.suffix_refl _
  | c :: s => by
      unfold skipWs
      split
      · exact (suffix_skipWs s).trans (List.suffix_cons c s)
      · exact List.suffix_refl _

theorem length_skipWs (s : Str) : (skipWs s).length ≤ s.length := (suffix_skipWs s).length_le

theorem behind_scanString {s : Str} {us : List (CodePoint × Bool)} {r : Str}
    (h : scanString s = some (us, r)) : Behind r s := by
  fun_induction scanString s generalizing us r with
  | case2 s =>
    cases h
    exact .tail _ _
  | case4 _ h1 h2 h3 h4 s n _ ih =>
    obtain ⟨⟨us', r'⟩, h', e⟩ := Option.map_eq_some_iff.mp h
    cases e
    exact ((((((ih h').cons _).cons _).cons _).cons _).cons _).cons _
  | case7 _ e s _ x _ ih =>
    obtain ⟨⟨us', r'⟩, h', e⟩ := Option.map_eq_some_iff.mp h
    cases e
    exact ((ih h').cons _).cons _
  | case10 c s _ _ _ ih =>
    obtain ⟨⟨us', r'⟩, h', e⟩ := Option.map_eq_some_iff.mp h
    cases e
    exact (ih h').cons _
  | _ => cases h

theorem suffix_spanDigits : ∀ s : Str, (spanDigits s).2 <:+ s
  | [] => List.suffix_refl _
  | c :: s => by
      unfold spanDigits
      split
      · exact (suffix_spanDigits s).trans (List.suffix_cons c s)
      · exact List.suffix_refl _

theorem suffix_scanSign (s : Str) : (scanSign s).2 <:+ s := by
  unfold scanSign
  split
  · exact List.suffix_refl _
  · split
    · exact List.suffix_cons _ _
    · exact List.suffix_refl _

theorem behind_scanInt {s ds r : Str} (h : scanInt s = some (ds, r)) : Behind r s := by
  unfold scanInt at h
  split at h
  · cases h
  · rename_i c s
    split at h
    · cases h
      exact .tail _ _
    · split at h
      · cases h
        exact (Behind.tail c s).of_suffix (suffix_spanDigits s)
      · cases h

theorem suffix_scanFrac (s : Str) : (scanFrac s).2 <:+ s := by
  unfold scanFrac
  split
  · exact List.suffix_refl _
  · rename_i c s
    have hs := suffix_spanDigits s
    split
    · split
      · exact List.suffix_refl _
      · rename_i ds r _ e
        rw [e] at hs
        exact hs.trans (List.suffix_cons c s)
    · exact List.suffix_refl _

theorem suffix_scanExpSign (s : Str) : (scanExpSign s).2 <:+ s := by
  unfold scanExpSign
  split
  · exact List.suffix_refl _
  · split
    · exact List.suffix_cons _ _
    · exact List.suffix_refl _

theorem suffix_scanExp (s : Str) : (scanExp s).2 <:+ s := by
  unfold scanExp
  split
  · exact List.suffix_refl _
  · rename_i c s
    have hs := (suffix_spanDigits (scanExpSign s).2).trans (suffix_scanExpSign s)
    split
    · split
      · exact List.suffix_refl _
      · rename_i ds r _ e
        rw [e] at hs
        exact hs.trans (List.suffix_cons c s)
    · exact List.suffix_refl _

theorem behind_scanNumber {s : Str} {t : NumToken} {r : Str} (h : scanNumber s = some (t, r)) :
    Behind r s := by
  unfold scanNumber at h
  split at h
  · cases h
  · rename_i ds r' hi
    simp only [Option.some.injEq, Prod.mk.injEq] at h
    obtain ⟨-, rfl⟩ := h
    have hr := (suffix_scanExp _).trans (suffix_scanFrac r')
    exact ((behind_scanInt hi).of_suffix hr).in_suffix (suffix_scanSign s)

theorem dropPrefix_eq : ∀ {p s r : Str}, dropPrefix p s = some r → s = p ++ r
  | [], s, r, h => Option.some.inj h
  | _ :: _, [], r, h => by simp [dropPrefix] at h
  | p :: ps, c :: s, r, h => by
      unfold dropPrefix at h
      split at h
      · rename_i e
        rw [e, dropPrefix_eq h]
        rfl
      · cases h

theorem behind_parseString {s u r : Str} (h : parseString s = .ok (u, r)) : Behind r s := by
  unfold parseString at h
  split at h
  · cases h
  · rename_i us r' hs
    cases h
    exact behind_scanString hs

theorem behind_parseAtom {ft : FloatText} {s : Str} {j : Json} {r : Str}
    (h : parseAtom ft s = .ok (j, r)) : Behind r s := by
  unfold parseAtom at h
  split at h
  · rename_i jr hf
    obtain ⟨⟨w, j'⟩, hm, hd⟩ := List.exists_of_findSome?_eq_some hf
    obtain ⟨r', hr, e⟩ := Option.map_eq_some_iff.mp hd
    cases h
    cases e
    rw [dropPrefix_eq hr]
    simp only [literals, List.mem_cons, List.not_mem_nil, or_false, Prod.mk.injEq] at hm
    obtain ⟨rfl, -⟩ | ⟨rfl, -⟩ | ⟨rfl, -⟩ | ⟨rfl, -⟩ | ⟨rfl, -⟩ | ⟨rfl, -⟩ := hm
    all_goals exact ⟨_, _, rfl, List.suffix_append _ _⟩
  · split at h
    · cases h
    · rename_i t r' hs
      obtain ⟨j', -, e⟩ := map_ok.mp h
      cases e
      exact behind_scanNumber hs

theorem behind_expect {c : CodePoint} {s r : Str} (h : expect c s = .ok r) : Behind r s := by
  unfold expect at h
  split at h
  · cases h
  · split at h
    · cases h
      exact .tail _ _
    · cases h

theorem behind_separator {c : CodePoint} {s r : Str} {more : Bool}
    (h : separator c s = .ok (more, r)) : Behind r s := by
  unfold separator at h
  split at h
  · cases h
  · rename_i d s
    split at h
    · cases h
      exact (Behind.tail d s).of_suffix (suffix_skipWs s)
    · split at h
      · cases h
        exact .tail _ _
      · cases h

/-! ## 5. The fuel suffices -/

/-- A step of the reader ends in a shorter rest or in an error that is not the fuel's. -/
def Advances {α : Type} (s : Str) : Except LoadsError (α × Str) → Prop
  | .ok (_, r) => r.length < s.length
  | .error e => e ≠ .outOfFuel

theorem Advances.map {α β : Type} {s : Str} {x : Except LoadsError (α × Str)} (f : α → β)
    (h : Advances s x) : Advances s (x.map fun ar => (f ar.1, ar.2)) := by
  cases x with
  | ok ar => exact h
  | error e => exact h

theorem Advances.mono {α : Type} {s s' : Str} {x : Except LoadsError (α × Str)}
    (h : Advances s x) (hs : s.length ≤ s'.length) : Advances s' x := by
  cases x with
  | ok ar => exact Nat.lt_of_lt_of_le h hs
  | error e => exact h

theorem Advances.bind {α β : Type} {s : Str} {x : Except LoadsError (α × Str)}
    {f : α × Str → Except LoadsError (β × Str)} (h : Advances s x)
    (hf : ∀ a r, r.length < s.length → Advances s (f (a, r))) : Advances s (x >>= f) := by
  cases x with
  | ok ar => exact hf ar.1 ar.2 h
  | error e => exact h

theorem advances_parseString (s : Str) : Advances s (parseString s) := by
  cases h : parseString s with
  | ok ur => exact (behind_parseString h).length_lt
  | error e =>
    unfold parseString at h
    split at h
    · cases h
      exact LoadsError.noConfusion
    · cases h

theorem advances_parseAtom (ft : FloatText) (s : Str) : Advances s (parseAtom ft s) := by
  cases h : parseAtom ft s with
  | ok jr => exact (behind_parseAtom h).length_lt
  | error e =>
    unfold parseAtom at h
    split at h
    · cases h
    · split at h
      · cases h
        exact LoadsError.noConfusion
      · have h := map_error h
        unfold numberValue at h
        split at h
        · cases h
        · split at h
          · cases h
            exact LoadsError.noConfusion
          · cases h

theorem advances_expect {α : Type} {c : CodePoint} {s t : Str}
    {f : Str → Except LoadsError (α × Str)}
    (hf : ∀ r, r.length < s.length → Advances t (f r)) : Advances t (expect c s >>= f) := by
  cases h : expect c s with
  | ok r => exact hf r (behind_expect h).length_lt
  | error e =>
    unfold expect at h
    split at h
    · cases h
      exact LoadsError.noConfusion
    · split at h
      · cases h
      · cases h
        exact LoadsError.noConfusion

theorem advances_separator (c : CodePoint) (s : Str) : Advances s (separator c s) := by
  cases h : separator c s with
  | ok mr => exact (behind_separator h).length_lt
  | error e =>
    unfold separator at h
    split at h
    · cases h
      exact LoadsError.noConfusion
    · split at h
      · cases h
      · split at h
        · cases h
        · cases h
          exact LoadsError.noConfusion

theorem advances_parse (ft : FloatText) : ∀ n : Nat,
    (∀ s, 2 * s.length + 1 ≤ n → Advances s (parseValue ft n s)) ∧
    (∀ s, 2 * s.length + 2 ≤ n → Advances s (parseList ft n s)) ∧
    (∀ s, 2 * s.length + 2 ≤ n → Advances s (parseEntries ft n s)) := by
  intro n
  induction n with
  | zero => exact ⟨fun s h => by omega, fun s h => by omega, fun s h => by omega⟩
  | succ n ih =>
    obtain ⟨ihV, ihL, ihE⟩ := ih
    refine ⟨fun s hn => ?_, fun s hn => ?_, fun s hn => ?_⟩
    · cases s with
      | nil => exact LoadsError.noConfusion
      | cons c s =>
        simp only [List.length_cons] at hn
        have hws := length_skipWs s
        unfold parseValue
        split
        · exact ((advances_parseString s).mono (Nat.le_succ _)).map _
        split
        · split
          · rename_i r hr
            have := (behind_expect hr).length_lt
            show r.length < (c :: s).length
            simp only [List.length_cons]
            omega
          · have h := ihL (skipWs s) (by omega)
            exact (Advances.mono h (show _ ≤ (c :: s).length from Nat.le_succ_of_le hws)).map _
        split
        · split
          · rename_i r hr
            have := (behind_expect hr).length_lt
            show r.length < (c :: s).length
            simp only [List.length_cons]
            omega
          · have h := ihE (skipWs s) (by omega)
            exact (Advances.mono h (show _ ≤ (c :: s).length from Nat.le_succ_of_le hws)).map
              fun l => Json.obj (Dict.ofPairs l)
        · exact advances_parseAtom ft _
    · refine (ihV s (by omega)).bind fun x r hr => ?_
      have hws := length_skipWs r
      refine ((advances_separator _ _).mono (by omega)).bind fun more r' hr' => ?_
      cases more with
      | true => exact ((ihL r' (by omega)).mono (Nat.le_of_lt hr')).bind fun _ _ h => h
      | false => exact hr'
    · refine advances_expect fun r0 h0 => ?_
      refine ((advances_parseString r0).mono (by omega)).bind fun k r1 h1 => ?_
      have hws1 := length_skipWs r1
      refine advances_expect fun r2 h2 => ?_
      have hws2 := length_skipWs r2
      refine ((ihV (skipWs r2) (by omega)).mono (by omega)).bind fun v r3 h3 => ?_
      have hws3 := length_skipWs r3
      refine ((advances_separator _ _).mono (by omega)).bind fun more r4 h4 => ?_
      cases more with
      | true => exact ((ihE r4 (by omega)).mono (Nat.le_of_lt h4)).bind fun _ _ h => h
      | false => exact h4

/-- **The fuel is never the reason a text is refused.** -/
theorem loads_ne_outOfFuel (ft : FloatText) (s : Str) : loads ft s ≠ .error .outOfFuel := by
  have hws := length_skipWs s
  have hv := (advances_parse ft (2 * s.length + 2)).1 (skipWs s) (by omega)
  unfold loads
  simp only [bind, Except.bind]
  split
  · exact fun h => by cases h
  · simp only [pure, Except.pure]
    cases hx : parseValue ft (2 * s.length + 2) (skipWs s) with
    | error e =>
      rw [hx] at hv
      exact fun h => hv (Except.error.inj h)
    | ok jr =>
      simp only
      split
      · exact fun h => by cases h
      · exact fun h => by cases h

/-! ## 6. What the reader returns -/

theorem spanDigits_isDigit : ∀ s : Str, ∀ c ∈ (spanDigits s).1, isDigit c = true
  | [], _, h => absurd h List.not_mem_nil
  | d :: s, c, h => by
      unfold spanDigits at h
      split at h
      · rename_i hd
        rcases List.mem_cons.mp h with rfl | h
        · exact hd
        · exact spanDigits_isDigit s c h
      · exact absurd h List.not_mem_nil

theorem scanInt_isDigit {s ds r : Str} (h : scanInt s = some (ds, r)) :
    ∀ c ∈ ds, isDigit c = true := by
  cases s with
  | nil => cases h
  | cons d s =>
    unfold scanInt at h
    simp only at h
    by_cases hz : d = ch '0'
    · rw [if_pos hz] at h
      cases h
      intro c hc
      rw [List.mem_singleton.mp hc]
      exact congrArg isDigit hz
    · by_cases hd : isDigit d = true
      · rw [if_neg hz, if_pos hd] at h
        cases h
        intro c hc
        rcases List.mem_cons.mp hc with rfl | hc
        · exact hd
        · exact spanDigits_isDigit s c hc
      · rw [if_neg hz, if_neg hd] at h
        cases h

theorem scanNumber_isDigit {s : Str} {t : NumToken} {r : Str} (h : scanNumber s = some (t, r)) :
    ∀ c ∈ t.int, isDigit c = true := by
  unfold scanNumber at h
  split at h
  · cases h
  · rename_i hs
    cases h
    exact scanInt_isDigit hs

/-- **An integer that is read converts back to text.** -/
theorem numberValue_intFits {ft : FloatText} {s : Str} {t : NumToken} {r : Str} {i : Int}
    (hs : scanNumber s = some (t, r)) (h : numberValue ft t = .ok (.int i)) :
    Json.intFits i = true := by
  unfold numberValue at h
  split at h
  · cases h
  split at h
  · cases h
  rename_i hl
  have hi : i.natAbs = digitsVal t.int := by
    have := Json.int.inj (Except.ok.inj h)
    rw [← this]
    split
    · rw [Int.natAbs_neg]
      rfl
    · rfl
  have hlt := digitsVal_lt t.int (scanNumber_isDigit hs)
  obtain ⟨k, hk⟩ : ∃ k, Json.maxStrDigits = k + 1 := ⟨4299, rfl⟩
  rw [Json.intFits, hi, hk]
  refine decide_eq_true (length_natDigits (Nat.lt_of_lt_of_le hlt ?_))
  exact Nat.pow_le_pow_right (by decide) (by omega)

/-- A property the reader's values have, where the strings that are read have the first one: it
    holds of the atoms and passes to arrays and to objects without repeated keys. -/
structure ReaderClosed (ft : FloatText) (S : Str → Prop) (P : Json → Prop) : Prop where
  literal : ∀ wj ∈ literals, P wj.2
  number : ∀ s t r j, scanNumber s = some (t, r) → numberValue ft t = .ok j → P j
  str : ∀ s, S s → P (.str s)
  arr : ∀ xs, (∀ x ∈ xs, P x) → P (.arr xs)
  obj : ∀ kvs : Dict Str Json, Dict.Distinct kvs → (∀ k v, (k, v) ∈ kvs → S k ∧ P v) → P (.obj kvs)

/-- Every string that is read at some place of the text has the property. -/
def StringsRead (S : Str → Prop) (text : Str) : Prop :=
  ∀ t, t <:+ text → ∀ u r, parseString t = .ok (u, r) → S u

theorem ReaderClosed.parseAtom {ft : FloatText} {S : Str → Prop} {P : Json → Prop}
    (h : ReaderClosed ft S P) {s : Str} {j : Json} {r : Str} (hp : parseAtom ft s = .ok (j, r)) :
    P j := by
  unfold JsonDatabase.parseAtom at hp
  split at hp
  · rename_i jr hf
    obtain ⟨⟨w, j'⟩, hm, hd⟩ := List.exists_of_findSome?_eq_some hf
    obtain ⟨r', -, e⟩ := Option.map_eq_some_iff.mp hd
    cases hp
    cases e
    exact h.literal (w, j) hm
  · split at hp
    · cases hp
    · rename_i hs
      obtain ⟨j', hj, e⟩ := map_ok.mp hp
      cases e
      exact h.number _ _ _ _ hs hj

/-- What is read at a place of the text has the property, and the reader goes on behind it. -/
theorem ReaderClosed.parse {ft : FloatText} {S : Str → Prop} {P : Json → Prop}
    (h : ReaderClosed ft S P) {text : Str} (hS : StringsRead S text) : ∀ n : Nat,
    (∀ s j r, s <:+ text → parseValue ft n s = .ok (j, r) → P j ∧ r <:+ s) ∧
    (∀ s xs r, s <:+ text → parseList ft n s = .ok (xs, r) → (∀ x ∈ xs, P x) ∧ r <:+ s) ∧
    (∀ s kvs r, s <:+ text → parseEntries ft n s = .ok (kvs, r) →
      (∀ k v, (k, v) ∈ kvs → S k ∧ P v) ∧ r <:+ s) := by
  intro n
  induction n with
  | zero =>
    refine ⟨fun s j r _ hp => ?_, fun s j r _ hp => ?_, fun s j r _ hp => ?_⟩
    · unfold parseValue at hp
      cases hp
    · unfold parseList at hp
      cases hp
    · unfold parseEntries at hp
      cases hp
  | succ n ih =>
    obtain ⟨ihV, ihL, ihE⟩ := ih
    refine ⟨fun s j r hs hp => ?_, fun s xs r hs hp => ?_, fun s kvs r hs hp => ?_⟩
    · cases s with
      | nil => cases hp
      | cons c s =>
        have htail := List.suffix_cons c s
        have hws := (suffix_skipWs s).trans htail
        unfold parseValue at hp
        split at hp
        · obtain ⟨⟨u, r'⟩, hu, e⟩ := map_ok.mp hp
          cases e
          exact ⟨h.str _ (hS _ (htail.trans hs) _ _ hu), (behind_parseString hu).suffix.trans htail⟩
        split at hp
        · split at hp
          · rename_i hr
            cases hp
            exact ⟨h.arr [] fun _ hx => absurd hx List.not_mem_nil,
              (behind_expect hr).suffix.trans hws⟩
          · obtain ⟨⟨xs, r'⟩, hx, e⟩ := map_ok.mp hp
            cases e
            obtain ⟨hx, hr⟩ := ihL _ _ _ (hws.trans hs) hx
            exact ⟨h.arr _ hx, hr.trans hws⟩
        split at hp
        · split at hp
          · rename_i hr
            cases hp
            exact ⟨h.obj [] List.nodup_nil fun _ _ hx => absurd hx List.not_mem_nil,
              (behind_expect hr).suffix.trans hws⟩
          · obtain ⟨⟨kvs, r'⟩, he, e⟩ := map_ok.mp hp
            cases e
            obtain ⟨he, hr⟩ := ihE _ _ _ (hws.trans hs) he
            exact ⟨h.obj _ (Dict.distinct_ofPairs _) fun k v hm =>
              he k v (Dict.mem_of_mem_ofPairs hm), hr.trans hws⟩
        · exact ⟨h.parseAtom hp, (behind_parseAtom hp).suffix⟩
    · unfold parseList at hp
      obtain ⟨⟨x, r1⟩, hx, hp⟩ := bind_ok.mp hp
      obtain ⟨⟨more, r2⟩, hsep, hp⟩ := bind_ok.mp hp
      obtain ⟨hx, h1⟩ := ihV _ _ _ hs hx
      have h2 := ((behind_separator hsep).suffix.trans (suffix_skipWs r1)).trans h1
      cases more with
      | true =>
        obtain ⟨⟨ys, r3⟩, hys, e⟩ := bind_ok.mp hp
        cases e
        obtain ⟨hys, h3⟩ := ihL _ _ _ (h2.trans hs) hys
        exact ⟨List.forall_mem_cons.mpr ⟨hx, hys⟩, h3.trans h2⟩
      | false =>
        cases hp
        exact ⟨List.forall_mem_cons.mpr ⟨hx, nofun⟩, h2⟩
    · unfold parseEntries at hp
      obtain ⟨r0, hquote, hp⟩ := bind_ok.mp hp
      obtain ⟨⟨k0, r1⟩, hk, hp⟩ := bind_ok.mp hp
      obtain ⟨r2, hcolon, hp⟩ := bind_ok.mp hp
      obtain ⟨⟨v0, r3⟩, hv, hp⟩ := bind_ok.mp hp
      obtain ⟨⟨more, r4⟩, hsep, hp⟩ := bind_ok.mp hp
      have h0 := (behind_expect hquote).suffix
      have h1 := (behind_parseString hk).suffix.trans h0
      have h2 := ((behind_expect hcolon).suffix.trans (suffix_skipWs r1)).trans h1
      have hw := (suffix_skipWs r2).trans h2
      obtain ⟨hv, h3⟩ := ihV _ _ _ (hw.trans hs) hv
      have h4 := ((behind_separator hsep).suffix.trans (suffix_skipWs r3)).trans (h3.trans hw)
      have hkv : S k0 ∧ P v0 := ⟨hS _ (h0.trans hs) _ _ hk, hv⟩
      cases more with
      | true =>
        obtain ⟨⟨ys, r5⟩, hys, e⟩ := bind_ok.mp hp
        cases e
        obtain ⟨hys, h5⟩ := ihE _ _ _ (h4.trans hs) hys
        refine ⟨fun k v hm => ?_, h5.trans h4⟩
        rcases List.mem_cons.mp hm with e | hm
        · cases e
          exact hkv
        · exact hys k v hm
      | false =>
        cases hp
        refine ⟨fun k v hm => ?_, h4⟩
        cases List.mem_singleton.mp hm
        exact hkv

/-- **What holds of every atom and passes to arrays and objects holds of what is read.** -/
theorem ReaderClosed.loads {ft : FloatText} {S : Str → Prop} {P : Json → Prop}
    (h : ReaderClosed ft S P) {s : Str} (hS : StringsRead S s) {j : Json}
    (hl : loads ft s = .ok j) : P j := by
  unfold JsonDatabase.loads at hl
  simp only at hl
  split at hl
  · cases hl
  obtain ⟨⟨j', r⟩, hv, hl⟩ := bind_ok.mp hl
  simp only at hl
  split at hl
  · cases hl
    exact ((h.parse hS _).1 _ _ _ (suffix_skipWs s) hv).1
  · cases hl

/-- No object that is read has a key twice. -/
theorem distinct_loads {ft : FloatText} {s : Str} {j : Json} (hl : loads ft s = .ok j) :
    j.distinct := by
  have h : ReaderClosed ft (fun _ => True) Json.distinct :=
    { literal := fun wj hm => by
        simp only [literals, List.mem_cons, List.not_mem_nil, or_false] at hm
        obtain rfl | rfl | rfl | rfl | rfl | rfl := hm
        all_goals trivial
      number := fun _ t _ j _ hj => by
        unfold numberValue at hj
        split at hj
        · cases hj
          trivial
        · split at hj
          · cases hj
          · cases hj
            trivial
      str := fun _ _ => trivial
      arr := fun _ hx => Json.distinct_arr.mpr hx
      obj := fun _ hd hx => Json.distinct_obj.mpr ⟨hd, fun k v hm => (hx k v hm).2⟩ }
  exact h.loads (fun _ _ _ _ _ => trivial) hl

/-! ## 7. Surrogates -/

theorem isSurrogate_simpleEscape {e x : CodePoint} (h : simpleEscape e = some x) :
    isSurrogate x = false := by
  unfold simpleEscape at h
  repeat' split at h
  case isTrue he =>
    cases h
    rcases he with rfl | rfl | rfl <;> decide
  all_goals
    cases h
    try decide

/-- What no `\u` escape wrote is no surrogate, in a text without surrogates. -/
theorem scanString_unescaped {s : Str} {us : List (CodePoint × Bool)} {r : Str}
    (h : scanString s = some (us, r)) (hs : scalarOnly s = true) :
    ∀ cu ∈ us, cu.2 = false → isSurrogate cu.1 = false := by
  fun_induction scanString s generalizing us r with
  | case2 s =>
    cases h
    exact nofun
  | case4 _ h1 h2 h3 h4 s n _ ih =>
    obtain ⟨⟨us', r'⟩, h', e⟩ := Option.map_eq_some_iff.mp h
    cases e
    simp only [scalarOnly_cons, Bool.and_eq_true] at hs
    exact List.forall_mem_cons.mpr ⟨nofun, ih h' hs.2.2.2.2.2.2⟩
  | case7 _ e s _ x _ ih =>
    have hx := isSurrogate_simpleEscape ‹simpleEscape _ = some _›
    obtain ⟨⟨us', r'⟩, h', e⟩ := Option.map_eq_some_iff.mp h
    cases e
    simp only [scalarOnly_cons, Bool.and_eq_true] at hs
    exact List.forall_mem_cons.mpr ⟨fun _ => hx, ih h' hs.2.2⟩
  | case10 c s _ _ _ ih =>
    obtain ⟨⟨us', r'⟩, h', e⟩ := Option.map_eq_some_iff.mp h
    cases e
    simp only [scalarOnly_cons, Bool.and_eq_true, Bool.not_eq_true'] at hs
    exact List.forall_mem_cons.mpr ⟨fun _ => hs.1, ih h' hs.2⟩
  | _ => cases h

theorem joined_val {h l : CodePoint} (hh : 0xD800 ≤ h.val ∧ h.val < 0xDC00)
    (hl : 0xDC00 ≤ l.val ∧ l.val < 0xE000) :
    0x10000 ≤ (code (0x10000 + (h - 0xD800) * 0x400 + (l - 0xDC00))).val := by
  rw [code_val (by omega)]
  omega

/-- The first of the joined characters is a low surrogate only if it was the first before. -/
theorem joinSurrogates_low {us : List (CodePoint × Bool)} {l : CodePoint} {s : Str}
    (h : joinSurrogates us = l :: s) (hl : isLow l = true) : ∃ b us', us = (l, b) :: us' := by
  revert h
  fun_cases joinSurrogates us with
  | case1 => exact fun h => by cases h
  | case2 h1 l1 us hc =>
    intro h
    have hv := joined_val ⟨hc.1, hc.2.1⟩ hc.2.2
    rw [(List.cons.inj h).1] at hv
    have hl := of_decide_eq_true hl
    omega
  | case3 h1 l1 us hc => exact fun h => ⟨true, _, by rw [(List.cons.inj h).1]⟩
  | case4 c b us hn => exact fun h => ⟨b, us, by rw [(List.cons.inj h).1]⟩

/-- **Joining leaves no pair of surrogates**, when those that are left were all escaped. -/
theorem unsplit_joinSurrogates {us : List (CodePoint × Bool)}
    (h : ∀ cu ∈ us, cu.2 = false → isSurrogate cu.1 = false) :
    unsplit (joinSurrogates us) = true := by
  fun_induction joinSurrogates us with
  | case1 => rfl
  | case2 h1 l1 us hc ih =>
    have hv := joined_val ⟨hc.1, hc.2.1⟩ hc.2.2
    refine unsplit_cons.mpr ⟨fun l s' _ hh => ?_, ih fun cu hcu => h cu (by simp [hcu])⟩
    have hh := of_decide_eq_true hh
    omega
  | case3 h1 l1 us hc ih =>
    have hus := ih fun cu hcu => h cu (List.mem_cons_of_mem _ hcu)
    refine unsplit_cons.mpr ⟨fun l s' e hh => ?_, hus⟩
    -- a low surrogate behind it would have been joined
    refine Bool.eq_false_iff.mpr fun hl => hc ?_
    obtain ⟨b, us', e'⟩ := joinSurrogates_low e hl
    cases e'
    have hh := of_decide_eq_true hh
    have hl := of_decide_eq_true hl
    omega
  | case4 c b us hn ih =>
    have hus := ih fun cu hcu => h cu (List.mem_cons_of_mem _ hcu)
    refine unsplit_cons.mpr ⟨fun l s' e hh => ?_, hus⟩
    refine Bool.eq_false_iff.mpr fun hl => ?_
    obtain ⟨b', us', rfl⟩ := joinSurrogates_low e hl
    -- both were escaped, for neither is in the text
    have hb : b = true := Bool.not_eq_false b ▸ fun e => by
      have := isHigh_of_not_isSurrogate (h (c, b) List.mem_cons_self e)
      rw [hh] at this
      cases this
    have hb' : b' = true := Bool.not_eq_false b' ▸ fun e => by
      have := isLow_of_not_isSurrogate (h (l, b') (by simp) e)
      rw [hl] at this
      cases this
    exact hn l us' (by rw [hb']) hb

/-- **A string that is read from a text without surrogates** has no character in two halves. -/
theorem unsplit_parseString {s u r : Str} (hs : scalarOnly s = true)
    (h : parseString s = .ok (u, r)) : unsplit u = true := by
  unfold parseString at h
  split at h
  · cases h
  · rename_i us r' hscan
    cases h
    exact unsplit_joinSurrogates (scanString_unescaped hscan hs)

/-- **What is read from a text without surrogates** has no character in two halves. -/
theorem unsplit_loads {ft : FloatText} {s : Str} (hs : scalarOnly s = true) {j : Json}
    (hl : loads ft s = .ok j) : j.unsplit := by
  have closed : ReaderClosed ft (fun u => unsplit u = true) Json.unsplit :=
    { literal := fun wj hm => by
        simp only [literals, List.mem_cons, List.not_mem_nil, or_false] at hm
        obtain rfl | rfl | rfl | rfl | rfl | rfl := hm
        all_goals trivial
      number := fun _ t _ j _ hj => by
        unfold numberValue at hj
        split at hj
        · cases hj
          trivial
        · split at hj
          · cases hj
          · cases hj
            trivial
      str := fun _ h => h
      arr := fun _ hx => Json.texts_arr.mpr hx
      obj := fun _ _ hx => Json.texts_obj.mpr hx }
  refine closed.loads (fun t ht u r hu => unsplit_parseString ?_ hu) hl
  obtain ⟨p, rfl⟩ := ht
  rw [scalarOnly_append, Bool.and_eq_true] at hs
  exact hs.2

end JsonDatabase
