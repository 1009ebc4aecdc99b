/-
  File:      JsonDatabase/Python/Compare.lean
  Subject:   `==`, the four orderings, `in` and `hash` on Python values.

  Numbers of different types compare by their exact value. Two things raise where a program may
  not expect it: a signaling NaN compared with any number, and an ordering with a NaN on a side
  where a `Decimal` stands.

  * `pyEq`, `eqRaises` -- the answer of `==`, and whether it raises before it has one;
  * `compareVals` -- `<`, `<=`, `>`, `>=`;
  * `hashable`, `pyContains` -- membership;
  * `wf` -- what holds of every value the interpreter can build: a dictionary's keys differ, a
    set's members are hashable and pairwise unequal.
-/
import JsonDatabase.Errors
import Mathlib.Data.Rat.Defs

namespace JsonDatabase

/-! ## 1. Numbers -/

/-- `b ^ e`. -/
def power (b : Nat) : Int → Rat
  | .ofNat n => (b ^ n : Nat)
  | .negSucc n => mkRat 1 (b ^ (n + 1))

def signed (neg : Bool) (q : Rat) : Rat := if neg then -q else q

def FiniteFloat.toRat (x : FiniteFloat) : Rat := signed x.neg (x.mant * power 2 x.exp)

def FiniteDecimal.toRat (x : FiniteDecimal) : Rat := signed x.neg (x.coeff * power 10 x.exp)

/-- The value of a number, whatever its type. -/
inductive PyNum where
  | rat (q : Rat)
  | inf (neg : Bool)
  | nan

inductive CmpOp where
  | lt
  | le
  | gt
  | ge
  deriving DecidableEq

/-- The operator on an ordered type. -/
def CmpOp.rel {α : Type} [LT α] [LE α] [DecidableLT α] [DecidableLE α] (op : CmpOp) (a b : α) :
    Bool :=
  match op with
  | .lt => decide (a < b)
  | .le => decide (a ≤ b)
  | .gt => decide (b < a)
  | .ge => decide (b ≤ a)

namespace PyNum

def eq : PyNum → PyNum → Bool
  | .rat a, .rat b => decide (a = b)
  | .inf a, .inf b => decide (a = b)
  | _, _ => false

/-- An infinity and a finite number, or two infinities, as small integers in their order. -/
def rank : PyNum → Int
  | .inf true => -1
  | .inf false => 1
  | _ => 0

def compare (op : CmpOp) : PyNum → PyNum → Bool
  | .nan, _ | _, .nan => false
  | .rat a, .rat b => op.rel a b
  | a, b => op.rel a.rank b.rank

end PyNum

namespace PyVal

def num : PyVal → Option PyNum
  | .bool b => some (.rat (if b then 1 else 0))
  | .int i => some (.rat i)
  | .float (.finite x) => some (.rat x.toRat)
  | .float (.inf neg) => some (.inf neg)
  | .float .nan => some .nan
  | .decimal (.finite x) => some (.rat x.toRat)
  | .decimal (.inf neg) => some (.inf neg)
  | .decimal (.nan _ _) => some .nan
  | .decimal (.snan _ _) => some .nan
  | _ => Option.none

def isSNaN : PyVal → Bool
  | .decimal (.snan _ _) => true
  | _ => false

def isDecimal : PyVal → Bool
  | .decimal _ => true
  | _ => false

/-- The members of a set or a frozenset. -/
def members : PyVal → Option (List PyVal)
  | .set xs => some xs
  | .frozenset xs => some xs
  | _ => Option.none

/-! ## 2. Equality -/

def numEq (a b : Option PyNum) : Bool :=
  match a, b with
  | some a, some b => a.eq b
  | _, _ => false

/-- Naive or both aware, and the same instant. -/
def datetimeEq (a b : DateTime) : Bool :=
  decide (a.offset.isSome = b.offset.isSome ∧ a.instant = b.instant)

mutual
/-- The answer of `==`, where it does not raise. -/
def pyEq : PyVal → PyVal → Bool
  | .none, w => match w with | .none => true | _ => false
  | .str a, w => match w with | .str b => decide (a = b) | _ => false
  | .datetime a, w => match w with | .datetime b => datetimeEq a b | _ => false
  | .date a, w => match w with | .date b => decide (a = b) | _ => false
  | .bytes a, w => match w with | .bytes b => decide (a = b) | _ => false
  | .list xs, w => match w with | .list ys => eqList xs ys | _ => false
  | .tuple xs, w => match w with | .tuple ys => eqList xs ys | _ => false
  | .dict a, w =>
    match w with
    | .dict b => a.length == b.length && eqEntries a b
    | _ => false
  | .set xs, w =>
    match w.members with
    | some ys => xs.length == ys.length && subset xs ys
    | Option.none => false
  | .frozenset xs, w =>
    match w.members with
    | some ys => xs.length == ys.length && subset xs ys
    | Option.none => false
  | .other t i, w => match w with | .other t' i' => t == t' && i == i' | _ => false
  | .bool b, w => numEq (num (.bool b)) w.num
  | .int i, w => numEq (num (.int i)) w.num
  | .float f, w => numEq (num (.float f)) w.num
  | .decimal d, w => numEq (num (.decimal d)) w.num

/-- For the members of a list Python takes an object as equal to itself without asking it. That is
    left out: here a NaN is equal to none, be it the same object. -/
def eqList : List PyVal → List PyVal → Bool
  | [], [] => true
  | x :: xs, y :: ys => pyEq x y && eqList xs ys
  | _, _ => false

/-- Every entry has an equal one on the other side. -/
def eqEntries : List (PyKey × PyVal) → PyDict → Bool
  | [], _ => true
  | (k, v) :: a, b =>
    (match Dict.get b k with
    | some w => pyEq v w
    | Option.none => false) && eqEntries a b

/-- Every member is equal to one on the other side. -/
def subset : List PyVal → List PyVal → Bool
  | [], _ => true
  | x :: xs, ys => ys.any (fun y => pyEq x y) && subset xs ys
end

/-- A signaling NaN against a number. -/
def numRaises (a b : PyVal) : Bool :=
  (a.isSNaN || b.isSNaN) && a.num.isSome && b.num.isSome

mutual
/-- `==` raises `InvalidOperation`: it reaches a signaling NaN and a number before it finds a
    difference. Lists of different lengths differ at once, tuples only at the end. -/
def eqRaises : PyVal → PyVal → Bool
  | .list xs, w =>
    match w with
    | .list ys => xs.length == ys.length && raisesList xs ys
    | _ => false
  | .tuple xs, w => match w with | .tuple ys => raisesList xs ys | _ => false
  | .dict a, w =>
    match w with
    | .dict b => a.length == b.length && raisesEntries a b
    | _ => false
  | .bool b, w => numRaises (.bool b) w
  | .int i, w => numRaises (.int i) w
  | .float f, w => numRaises (.float f) w
  | .decimal d, w => numRaises (.decimal d) w
  | _, _ => false

def raisesList : List PyVal → List PyVal → Bool
  | x :: xs, y :: ys => eqRaises x y || (pyEq x y && raisesList xs ys)
  | _, _ => false

def raisesEntries : List (PyKey × PyVal) → PyDict → Bool
  | [], _ => false
  | (k, v) :: a, b =>
    match Dict.get b k with
    | some w => eqRaises v w || (pyEq v w && raisesEntries a b)
    | Option.none => false
end

/-- `a == b`. -/
def eqVals (a b : PyVal) : Except ExcType Bool :=
  if eqRaises a b then .error .invalidOperation else .ok (pyEq a b)

/-! ## 3. Orderings -/

def compareNums (op : CmpOp) (a b : PyVal) : Except ExcType Bool :=
  match a.num, b.num with
  | some x, some y =>
    match a.isDecimal || b.isDecimal, x, y with
    | true, .nan, _ | true, _, .nan => .error .invalidOperation
    | _, _, _ => .ok (x.compare op y)
  | _, _ => .error .typeError

/-- Inclusion of sets, proper for the strict operators. -/
def compareSets (op : CmpOp) (xs ys : List PyVal) : Bool :=
  match op with
  | .lt => decide (xs.length < ys.length) && subset xs ys
  | .le => decide (xs.length ≤ ys.length) && subset xs ys
  | .gt => decide (ys.length < xs.length) && subset ys xs
  | .ge => decide (ys.length ≤ xs.length) && subset ys xs

mutual
/-- `a op b`. -/
def compareVals (op : CmpOp) : PyVal → PyVal → Except ExcType Bool
  | .str a, w => match w with | .str b => .ok (op.rel a b) | _ => .error .typeError
  | .bytes a, w => match w with | .bytes b => .ok (op.rel a b) | _ => .error .typeError
  | .date a, w => match w with | .date b => .ok (op.rel a.ordinal b.ordinal) | _ => .error .typeError
  | .datetime a, w =>
    match w with
    | .datetime b =>
      if a.offset.isSome = b.offset.isSome then .ok (op.rel a.instant b.instant)
      else .error .typeError
    | _ => .error .typeError
  | .list xs, w => match w with | .list ys => compareList op xs ys | _ => .error .typeError
  | .tuple xs, w => match w with | .tuple ys => compareList op xs ys | _ => .error .typeError
  | .set xs, w =>
    match w.members with
    | some ys => .ok (compareSets op xs ys)
    | Option.none => .error .typeError
  | .frozenset xs, w =>
    match w.members with
    | some ys => .ok (compareSets op xs ys)
    | Option.none => .error .typeError
  | .bool b, w => compareNums op (.bool b) w
  | .int i, w => compareNums op (.int i) w
  | .float f, w => compareNums op (.float f) w
  | .decimal d, w => compareNums op (.decimal d) w
  | .none, _ | .dict _, _ | .other _ _, _ => .error .typeError

/-- Sequences by their first difference, else by their lengths. -/
def compareList (op : CmpOp) : List PyVal → List PyVal → Except ExcType Bool
  | [], [] => .ok (op.rel 0 0)
  | [], _ :: _ => .ok (op.rel 0 1)
  | _ :: _, [] => .ok (op.rel 1 0)
  | x :: xs, y :: ys =>
    if eqRaises x y then .error .invalidOperation
    else if pyEq x y then compareList op xs ys
    else compareVals op x y
end

/-! ## 4. Hashing and membership -/

mutual
/-- `hash(v)` does not raise. -/
def hashable : PyVal → Bool
  | .list _ | .set _ | .dict _ => false
  | .decimal (.snan _ _) => false
  | .tuple xs => hashableList xs
  | _ => true

def hashableList : List PyVal → Bool
  | [] => true
  | x :: xs => hashable x && hashableList xs
end

theorem hashableList_iff : ∀ {xs : List PyVal}, hashableList xs = true ↔ ∀ x ∈ xs, hashable x = true
  | [] => by simp [hashableList]
  | x :: xs => by simp [hashableList, @hashableList_iff xs]

@[simp] theorem hashable_tuple {xs : List PyVal} :
    hashable (.tuple xs) = true ↔ ∀ x ∈ xs, hashable x = true := by
  rw [hashable, hashableList_iff]

/-- `e in xs` for a sequence. As in `eqList`, a member that is the object `e` is asked too. -/
def containsList (e : PyVal) : List PyVal → Except ExcType Bool
  | [] => .ok false
  | x :: xs =>
    if eqRaises x e then .error .invalidOperation
    else if pyEq x e then .ok true
    else containsList e xs

/-- `e in v`; a set asked for a set looks for the frozenset. -/
def pyContains (v e : PyVal) : Except ExcType Bool :=
  match v with
  | .str s => match e with | .str t => .ok (decide (t <:+: s)) | _ => .error .typeError
  | .bytes b =>
    match e with
    | .bytes c => .ok (decide (c <:+: b))
    | .int i => if 0 ≤ i ∧ i < 256 then .ok (b.any fun x => x.val = i.toNat) else .error .valueError
    | .bool t => .ok (b.any fun x => x.val = if t then 1 else 0)
    | _ => .error .typeError
  | .list xs => containsList e xs
  | .tuple xs => containsList e xs
  | .set xs => if e.hashable || e.members.isSome then .ok (xs.any fun x => pyEq x e)
      else .error .typeError
  | .frozenset xs => if e.hashable || e.members.isSome then .ok (xs.any fun x => pyEq x e)
      else .error .typeError
  | .dict kvs => if e.hashable then .ok (Dict.contains kvs e.toKey) else .error .typeError
  | _ => .error .typeError

/-- `bool(v)`. -/
def truthy : PyVal → Bool
  | .none => false
  | .bool b => b
  | .str s => !s.isEmpty
  | .bytes b => !b.isEmpty
  | .list xs | .tuple xs | .set xs | .frozenset xs => !xs.isEmpty
  | .dict kvs => !kvs.isEmpty
  | v => match v.num with | some x => !x.eq (.rat 0) | Option.none => true

/-! ## 5. Well-formed values -/

/-- The members of a set: hashable, and no two equal. -/
def SetLike (xs : List PyVal) : Prop :=
  (∀ x ∈ xs, hashable x = true) ∧ xs.Pairwise fun x y => pyEq x y = false ∧ pyEq y x = false

def localWf : PyVal → Prop
  | .set xs => SetLike xs
  | .frozenset xs => SetLike xs
  | .dict kvs => Dict.Distinct kvs
  | _ => True

/-- What holds of every value the interpreter can build. -/
def wf (v : PyVal) : Prop := everywhere localWf v

/-- A dictionary with one entry. -/
theorem wf_entry {k : PyKey} {v : PyVal} (h : v.wf) : (dict [(k, v)]).wf := by
  refine everywhere_dict.mpr ⟨List.nodup_singleton k, fun k' v' hm => ?_⟩
  cases List.mem_singleton.mp hm
  exact h

/-- The second of a pair. -/
theorem wf_second {item a b : PyVal} (hw : item.wf) (h : item = tuple [a, b] ∨ item = list [a, b]) :
    b.wf := by
  rcases h with rfl | rfl
  · exact (everywhere_tuple.mp hw).2 b (by simp)
  · exact (everywhere_list.mp hw).2 b (by simp)

end PyVal

/-- A value with the proof that the interpreter can build it. -/
structure PyObj where
  val : PyVal
  wf : val.wf

end JsonDatabase
