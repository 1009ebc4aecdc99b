/-
  File:      JsonDatabase/Crash.lean
  Subject:   `atomic_write` and crashes.

  The calls of `atomic_write` on a disk that a crash may hit: what is written goes to the buffer of
  the open file and runs over into the temporary file at any time; a call that raises while the
  temporary file is filled may leave anything in it; `os.replace` is one step.

  * `DiskAnswer` -- what a call may return, and what it leaves on the disk;
  * `Stage` -- how far a write is, with the order of the calls (`atomicWrite_ordered`);
  * `Writer` -- one write after another on one target, call by call;
  * `crash_consistent` -- a crash at any point leaves a complete content, and none that is older than
    a write whose directory was synced.
-/
import JsonDatabase.Protocol
import JsonDatabase.Interpreter
import JsonDatabase.Basis.Disk

namespace JsonDatabase

open Interaction

/-! ## 1. Calls -/

/-- A reply to a call and the disk after it. Calls that are not named leave the disk as it is. -/
def DiskAnswer (d : Disk Byte) : (c : Syscall) → Except PyExc c.Reply → Disk Byte → Prop
  | .side .makeTemp, .ok _, d' => d' = d.create
  | .side (.writeTemp data), .ok _, d' => ∃ content buffer,
      content ++ buffer = d.tempFile.content ++ d.buffer ++ data ∧
        d' = d.setTemp ⟨content, false⟩ buffer
  | .side .flushTemp, .ok _, d' => d' = d.setTemp ⟨d.tempFile.content ++ d.buffer, false⟩ []
  | .side .syncTemp, .ok _, d' => d' = d.setTemp ⟨d.tempFile.content, true⟩ d.buffer
  -- closing writes what is left in the buffer
  | .side .closeTemp, .ok _, d' =>
    if d.buffer = [] then d' = d
    else d' = d.setTemp ⟨d.tempFile.content ++ d.buffer, false⟩ []
  | .side (.writeTemp _), .error _, d' | .side .flushTemp, .error _, d'
  | .side .closeTemp, .error _, d' => ∃ content buffer, d' = d.setTemp ⟨content, false⟩ buffer
  | .side .unlinkTemp, .ok _, d' => d' = d.unlink
  | .side .syncDir, .ok _, d' => d' = d.syncDirectory
  | .replace _ _, .ok _, d' => d' = d.place
  | _, _, d' => d' = d

/-- A write: its data, whether `os.replace` and the `fsync` of the directory have succeeded, and
    whether it has returned. -/
structure Write where
  data : Bytes
  replaced : Bool
  synced : Bool
  returned : Bool

def Write.after (w : Write) : (c : Syscall) → Except PyExc c.Reply → Write
  | .replace _ _, .ok _ => { w with replaced := true }
  | .side .syncDir, .ok _ => { w with synced := true }
  | _, _ => w

/-! ## 2. The order of the calls -/

/-- How far a write is. -/
inductive Stage where
  /-- There is no temporary file. -/
  | idle
  | empty
  /-- The data is in the temporary file and in the buffer. -/
  | written
  | flushed
  | synced
  /-- The temporary file is there and nothing is known of it. -/
  | torn
  /-- The target is replaced. -/
  | placed
  /-- And the directory is synced. -/
  | settled
  deriving DecidableEq

/-- The stage after a reply. -/
def Stage.next (st : Stage) : (c : Syscall) → Except PyExc c.Reply → Stage
  | .side .makeTemp, .ok _ => .empty
  | .side (.writeTemp _), .ok _ => .written
  | .side .flushTemp, .ok _ => .flushed
  | .side .syncTemp, .ok _ => .synced
  | .side .closeTemp, .ok _ => if st = .synced then .synced else .torn
  | .side (.writeTemp _), .error _ | .side .flushTemp, .error _ | .side .closeTemp, .error _ => .torn
  | .side .unlinkTemp, .ok _ => .idle
  | .side .syncDir, .ok _ => .settled
  | .replace _ _, .ok _ => .placed
  | _, _ => st

abbrev Stage.Next (st : Stage) (c : Syscall) (r : Except PyExc c.Reply) (st' : Stage) : Prop :=
  st' = st.next c r

/-- The calls a stage permits. -/
def Stage.Permits (data : Bytes) (st : Stage) : Syscall → Prop
  | .side .makeTemp => st = .idle
  | .side (.writeTemp bytes) => st = .empty ∧ bytes = data
  | .side .flushTemp => st = .written
  | .side .syncTemp => st = .flushed
  | .side .closeTemp => st ∈ [.empty, .written, .flushed, .synced, .torn]
  | .side .unlinkTemp => st ∉ [.placed, .settled]
  | .side .syncDir => st = .placed
  | .replace _ _ => st = .synced
  | _ => True

/-- Every call of the program is made in its stage. -/
abbrev Ordered (data : Bytes) {α : Type} (p : Prog α) (st : Stage)
    (Q : Except PyExc α → Stage → Prop) : Prop :=
  Conforms (Stage.Permits data) Stage.Next p st Q

/-- The calls that touch neither the content of the temporary file nor the directory. -/
def SideCall.apart : SideCall → Bool
  | .makeTemp | .writeTemp _ | .flushTemp | .syncTemp | .closeTemp | .unlinkTemp | .syncDir => false
  | _ => true

/-- The temporary file is there. -/
def Stage.filling (st : Stage) : Prop := st ∈ [.empty, .written, .flushed, .synced, .torn]

instance (st : Stage) : Decidable st.filling := inferInstanceAs (Decidable (st ∈ _))

/-- The target is replaced. -/
def Stage.after (st : Stage) : Prop := st = .placed ∨ st = .settled

section

variable {data : Bytes} {α : Type}

/-- A call that has nothing to do with the temporary file's content. -/
theorem ordered_apart {c : SideCall} (h : c.apart = true) :
    Steady (Stage.Permits data) Stage.Next (sys (.side c)) := by
  cases c with
  | makeTemp | writeTemp data | flushTemp | syncTemp | closeTemp | unlinkTemp | syncDir => cases h
  | makeLockDir | writeLockByte handle | makeParent | openTemp | closeFd | chmodTemp mode | openDir
  | closeDir => exact .ask (fun _ => trivial) fun _ _ _ h => h

theorem modes_ordered : (∀ nt, Steady (Stage.Permits data) Stage.Next (existingMode nt)) ∧
    ∀ mode, Steady (Stage.Permits data) Stage.Next (applyMode mode) :=
  modes_steady (.ask (fun _ => trivial) fun _ _ _ h => h) fun _ => ordered_apart rfl

/-- Write, flush, sync. -/
theorem body_ordered : Ordered data (do
      sys (.side (.writeTemp data))
      sys (.side .flushTemp)
      sys (.side .syncTemp)) .empty
    fun r st => st.filling ∧ ∀ u, r = .ok u → st = .synced := by
  refine Conforms.bind (Q := fun r st => st.filling ∧ ∀ u, r = .ok u → st = .written)
    ⟨⟨rfl, rfl⟩, fun r st hn => ?_⟩ (fun _ st hst => ?_) fun _ _ hst => ⟨hst.1, nofun⟩
  · cases r with
    | ok u =>
      obtain rfl : st = .written := hn
      exact ⟨by decide, fun _ _ => rfl⟩
    | error e =>
      obtain rfl : st = .torn := hn
      exact ⟨by decide, nofun⟩
  obtain rfl := hst.2 _ rfl
  refine Conforms.bind (Q := fun r st => st.filling ∧ ∀ u, r = .ok u → st = .flushed)
    ⟨rfl, fun r st hn => ?_⟩ (fun _ st hst => ?_) fun _ _ hst => ⟨hst.1, nofun⟩
  · cases r with
    | ok u =>
      obtain rfl : st = .flushed := hn
      exact ⟨by decide, fun _ _ => rfl⟩
    | error e =>
      obtain rfl : st = .torn := hn
      exact ⟨by decide, nofun⟩
  obtain rfl := hst.2 _ rfl
  refine ⟨rfl, fun r st hn => ?_⟩
  cases r with
  | ok u =>
    obtain rfl : st = .synced := hn
    exact ⟨by decide, fun _ _ => rfl⟩
  | error e =>
    obtain rfl : st = .flushed := hn
    exact ⟨by decide, nofun⟩

/-- A temporary file that was filled without an exception is synced. -/
theorem fillTemp_ordered : Ordered data (fillTemp data) .empty
    fun r st => st.filling ∧ ∀ u, r = .ok u → st = .synced := by
  refine Steady.andThen ((ordered_apart rfl).onRaise (exceptOSError_steady
    (ordered_apart rfl) (.done _))) (fun _ => ?_) fun e => ⟨by decide, nofun⟩
  refine Conforms.ensuring body_ordered
    (S := fun r r' st => st.filling ∧ ∀ u u', r = .ok u → r' = .ok u' → st = .synced)
    (fun r st hst => ⟨hst.1, fun r' st' hn => ?_⟩) (fun r u st hst => ⟨hst.1, fun a ha => ?_⟩)
    fun _ _ _ hst => ⟨hst.1, nofun⟩
  · cases r' with
    | ok u =>
      have hst' : st' = if st = .synced then .synced else .torn := hn
      by_cases hs : st = .synced
      · rw [if_pos hs] at hst'
        rw [hst']
        exact ⟨by decide, fun _ _ _ _ => rfl⟩
      · rw [if_neg hs] at hst'
        rw [hst']
        exact ⟨by decide, fun a _ ha => absurd (hst.2 a ha) hs⟩
    | error e =>
      obtain rfl : st' = .torn := hn
      exact ⟨by decide, nofun⟩
  · exact hst.2 a u ha rfl

theorem replaceTarget_ordered (nt : Bool) (mode : Option Nat) :
    Ordered data (replaceTarget nt mode data) .empty
      fun r st => ∀ u, r = .ok u → st = .placed := by
  have hreplace : Ordered data (windowsRetry nt fun k => sys (.replace data k)) .synced
      fun r st => (∀ u, r = .ok u → st = .placed) ∧ ∀ e, r = .error e → st.filling := by
    apply windowsRetry_conforms
    intro k
    refine ⟨rfl, fun r st hn => ?_⟩
    cases r with
    | ok u =>
      obtain rfl : st = .placed := hn
      exact ⟨fun _ _ => ⟨fun _ _ => rfl, nofun⟩, nofun⟩
    | error e =>
      obtain rfl : st = .synced := hn
      exact ⟨nofun, fun _ _ => ⟨rfl, nofun, fun _ _ => by decide⟩⟩
  have hbody : Ordered data (do
        fillTemp data
        applyMode mode
        windowsRetry nt fun attempt => sys (.replace data attempt)) .empty
      fun r st => (∀ u, r = .ok u → st = .placed) ∧ ∀ e, r = .error e → st.filling := by
    refine Conforms.bind fillTemp_ordered (fun _ st hst => ?_) fun e st hst => ⟨nofun, fun _ _ => hst.1⟩
    obtain rfl := hst.2 _ rfl
    exact (modes_ordered.2 mode).andThen (fun _ => hreplace) fun e => ⟨nofun, fun _ _ => by decide⟩
  refine Conforms.rescue hbody (fun a st hst => hst.1) fun e st hst => ?_
  have hfill := hst.2 e rfl
  refine Conforms.follow (Q := fun _ _ => True) ?_ fun r st' _ => ?_
  · refine Conforms.rescue (Q := fun _ _ => True)
      ⟨?_, fun _ _ _ => trivial⟩ (fun _ _ _ => trivial) fun e st _ => ?_
    · show st ∉ [Stage.placed, .settled]
      revert hfill
      cases st <;> decide
    · by_cases he : e.type.isOSError = true
      · rw [if_pos he]
        exact trivial
      · rw [if_neg he]
        exact trivial
  · cases r with
    | ok u => exact nofun
    | error e' => exact nofun

theorem fsyncParent_ordered (nt : Bool) :
    Ordered data (fsyncParent nt) .placed fun _ st => st.after := by
  cases nt with
  | true => exact .inl rfl
  | false =>
    have hopen : Steady (Stage.Permits data) Stage.Next openParent :=
      exceptOSError_steady ((ordered_apart rfl).bind fun _ => .done _) (.done _)
    refine hopen.andThen (fun opened => ?_) fun e => .inl rfl
    cases opened with
    | false => exact .inl rfl
    | true =>
      refine Conforms.ensuring (Q := fun _ st => st.after) (S := fun _ _ st => st.after) ?_
        (fun r st hst => ⟨trivial, fun r' st' hn => ?_⟩) (fun _ _ _ h => h) fun _ _ _ h => h
      · refine exceptOSError_conforms ⟨rfl, fun r st hn => ?_⟩ (.inl rfl)
        cases r with
        | ok u =>
          obtain rfl : st = .settled := hn
          exact ⟨fun _ _ => .inr rfl, nofun⟩
        | error e =>
          obtain rfl : st = .placed := hn
          exact ⟨nofun, fun _ _ => ⟨rfl, .inl rfl⟩⟩
      · obtain rfl : st' = st := hn
        exact hst

/-- **The order of the calls** of `atomic_write`: the target is replaced by a temporary file that
    holds the data and is synced, and the directory is synced after that. -/
theorem atomicWrite_ordered (nt : Bool) :
    Ordered data (atomicWrite nt data) .idle fun r st => ∀ u, r = .ok u → st.after := by
  refine (ordered_apart rfl).andThen (fun _ => ?_) fun e => nofun
  refine (modes_ordered.1 nt).andThen (fun mode => ?_) fun e => nofun
  have hbody : Ordered data (do
        sys (.side .makeTemp)
        replaceTarget nt mode data
        fsyncParent nt) .idle fun r st => ∀ u, r = .ok u → st.after := by
    refine Conforms.bind (Q := fun r st => ∀ u, r = .ok u → st = .empty)
      ⟨rfl, fun r st hn => ?_⟩ (fun _ st hst => ?_) fun e st _ => nofun
    · cases r with
      | ok u => exact fun _ _ => hn
      | error e => exact nofun
    obtain rfl := hst _ rfl
    refine Conforms.bind (replaceTarget_ordered nt mode) (fun _ st hst => ?_) fun e st _ => nofun
    obtain rfl := hst _ rfl
    exact (fsyncParent_ordered nt).mono fun r st hst _ _ => hst
  refine Conforms.rescue hbody (fun a st hst => hst) fun e st _ => ?_
  by_cases he : e.type.isOSError = true
  · rw [if_pos he]
    exact nofun
  · rw [if_neg he]
    exact nofun

end

/-! ## 3. Stages and disks -/

/-- What a stage says of the disk. -/
def Stage.Fits (w : Write) (d : Disk Byte) : Stage → Prop
  | .idle | .torn => True
  | .empty => d.temp.isSome = true ∧ d.tempFile.content = [] ∧ d.buffer = []
  | .written => d.temp.isSome = true ∧ d.tempFile.content ++ d.buffer = w.data
  | .flushed => d.temp.isSome = true ∧ d.tempFile.content = w.data ∧ d.buffer = []
  | .synced => d.temp.isSome = true ∧ d.tempFile = ⟨w.data, true⟩ ∧ d.buffer = []
  | .placed | .settled => w.replaced = true ∧ d.contentOf d.newest = some w.data

theorem Write.after_data (w : Write) (c : Syscall) (r : Except PyExc c.Reply) :
    (w.after c r).data = w.data := by
  unfold Write.after
  split <;> rfl

/-- The stage fits the disk after a call that the stage permits. -/
theorem Stage.Fits.after {w : Write} {d d' : Disk Byte} {st st' : Stage} (h : st.Fits w d)
    {c : Syscall} {r : Except PyExc c.Reply} (hp : Stage.Permits w.data st c)
    (ha : DiskAnswer d c r d') (hn : Stage.Next st c r st') : st'.Fits (w.after c r) d' := by
  have hsame (hd : d' = d) (hst : st' = st) (hw : w.after c r = w) :
      st'.Fits (w.after c r) d' := by
    rw [hd, hst, hw]
    exact h
  cases c with
  | replace data k =>
    cases r with
    | error e => exact hsame ha hn rfl
    | ok u =>
      obtain rfl : st = .synced := hp
      obtain rfl : d' = d.place := ha
      obtain rfl : st' = .placed := hn
      exact ⟨rfl, (Disk.content_place h.1).trans (congrArg (fun f => some f.content) h.2.1)⟩
  | side c =>
    cases c with
    | makeTemp =>
      cases r with
      | error e => exact hsame ha hn rfl
      | ok u =>
        obtain rfl : d' = d.create := ha
        obtain rfl : st' = .empty := hn
        exact ⟨rfl, congrArg StoredFile.content Disk.tempFile_create, rfl⟩
    | writeTemp data =>
      cases r with
      | error e =>
        obtain rfl : st' = .torn := hn
        trivial
      | ok u =>
        obtain ⟨rfl, rfl⟩ : st = .empty ∧ data = w.data := hp
        obtain ⟨content, buffer, heq, rfl⟩ := ha
        obtain rfl : st' = .written := hn
        obtain ⟨ht, hc, hb⟩ := h
        refine ⟨Disk.isSome_setTemp ht, ?_⟩
        rw [Disk.tempFile_setTemp ht, Disk.buffer_setTemp ht, heq, hc, hb]
        rfl
    | flushTemp =>
      cases r with
      | error e =>
        obtain rfl : st' = .torn := hn
        trivial
      | ok u =>
        obtain rfl : st = .written := hp
        obtain rfl : d' = _ := ha
        obtain rfl : st' = .flushed := hn
        refine ⟨Disk.isSome_setTemp h.1, ?_, Disk.buffer_setTemp h.1⟩
        rw [Disk.tempFile_setTemp h.1]
        exact h.2
    | syncTemp =>
      cases r with
      | error e => exact hsame ha hn rfl
      | ok u =>
        obtain rfl : st = .flushed := hp
        obtain rfl : d' = _ := ha
        obtain rfl : st' = .synced := hn
        obtain ⟨ht, hc, hb⟩ := h
        refine ⟨Disk.isSome_setTemp ht, ?_, (Disk.buffer_setTemp ht).trans hb⟩
        rw [Disk.tempFile_setTemp ht, hc]
        rfl
    | closeTemp =>
      cases r with
      | error e =>
        obtain rfl : st' = .torn := hn
        trivial
      | ok u =>
        have hst : st' = if st = .synced then .synced else .torn := hn
        by_cases hs : st = .synced
        · rw [if_pos hs] at hst
          subst hst hs
          have hd : if d.buffer = [] then d' = d else _ := ha
          rw [if_pos h.2.2] at hd
          rw [hd]
          exact h
        · rw [if_neg hs] at hst
          rw [hst]
          trivial
    | unlinkTemp =>
      cases r with
      | error e => exact hsame ha hn rfl
      | ok u =>
        obtain rfl : st' = .idle := hn
        trivial
    | syncDir =>
      cases r with
      | error e => exact hsame ha hn rfl
      | ok u =>
        obtain rfl : st = .placed := hp
        obtain rfl : d' = d.syncDirectory := ha
        obtain rfl : st' = .settled := hn
        exact h
    | makeLockDir | writeLockByte handle | makeParent | openTemp | closeFd | chmodTemp mode
    | openDir | closeDir => exact hsame ha hn rfl
  | now which | compute | pathExists | readBytes k | statTarget | openLock | tryLock handle k
  | unlock handle | closeLock handle => exact hsame ha hn rfl

/-! ## 4. One write after another -/

/-- The disk, the writes that have ended, and the one that has not. -/
structure Writer where
  disk : Disk Byte
  calls : List Write
  current : Option (Write × Prog Unit)

namespace Writer

def start (initial : Option Bytes) : Writer := ⟨.start initial, [], none⟩

/-- All writes in their order. -/
def history (m : Writer) : List Write := m.calls ++ (m.current.map Prod.fst).toList

/-- A step: a call of `atomic_write` begins, makes one system call, or ends. -/
inductive Step (nt : Bool) : Writer → Writer → Prop
  | begin {m : Writer} (data : Bytes) (h : m.current = none) :
      Step nt m { m with current := some (⟨data, false, false, false⟩, atomicWrite nt data) }
  | answer {m : Writer} {w : Write} {c : Syscall} {k : Except PyExc c.Reply → Prog Unit}
      {r : Except PyExc c.Reply} {d' : Disk Byte} (h : m.current = some (w, .call c k))
      (ha : DiskAnswer m.disk c r d') : Step nt m ⟨d', m.calls, some (w.after c r, k r)⟩
  | finish {m : Writer} {w : Write} {r : Except PyExc Unit} (h : m.current = some (w, .done r)) :
      Step nt m ⟨m.disk, m.calls ++ [{ w with returned := r.isOk }], none⟩

/-- The states that steps lead to. A crash may come in any of them. -/
inductive Reachable (nt : Bool) (initial : Option Bytes) : Writer → Prop
  | start : Reachable nt initial (start initial)
  | step {m m' : Writer} (h : Reachable nt initial m) (hs : Step nt m m') : Reachable nt initial m'

end Writer

/-- The contents of the target in their order: the initial one, and the data of each write that has
    replaced it. -/
def IsVersion (initial : Option Bytes) (history : List Write) : Nat → Option Bytes → Prop
  | 0, found => found = initial
  | n + 1, found => ∃ w, history[n]? = some w ∧ w.replaced = true ∧ found = some w.data

/-- A version, and none that is older than a write whose directory was synced. -/
def UpToDate (initial : Option Bytes) (history : List Write) (found : Option Bytes) : Prop :=
  ∃ v, IsVersion initial history v found ∧
    ∀ i w, history[i]? = some w → w.synced = true → i < v

section

variable {initial : Option Bytes} {calls : List Write} {w w' : Write} {found : Option Bytes}

theorem getElem?_concat {i : Nat} {x : Write} :
    (calls ++ [w])[i]? = some x ↔ calls[i]? = some x ∨ (i = calls.length ∧ x = w) := by
  rcases Nat.lt_trichotomy i calls.length with h | rfl | h
  · rw [List.getElem?_append_left h]
    exact ⟨.inl, fun hx => hx.elim id fun hi => absurd hi.1 (Nat.ne_of_lt h)⟩
  · rw [List.getElem?_concat_length, List.getElem?_eq_none (Nat.le_refl _)]
    simp only [Option.some.injEq, reduceCtorEq, true_and, false_or, eq_comm]
  · have hlen : (calls ++ [w]).length ≤ i := by
      rw [List.length_append]
      exact h
    rw [List.getElem?_eq_none hlen, List.getElem?_eq_none (Nat.le_of_lt h)]
    simp only [reduceCtorEq, false_or, false_iff, not_and]
    exact fun hi => absurd hi (Nat.ne_of_gt h)

/-- The data of the last write, once it has replaced the target. -/
theorem upToDate_last (h : w.replaced = true) : UpToDate initial (calls ++ [w]) (some w.data) := by
  refine ⟨calls.length + 1, ⟨w, List.getElem?_concat_length, h, rfl⟩, fun i x hx _ => ?_⟩
  have := (List.getElem?_eq_some_iff.mp hx).1
  simpa using this

/-- A write that begins. -/
theorem UpToDate.begin (h : UpToDate initial calls found) (hw : w.synced = false) :
    UpToDate initial (calls ++ [w]) found := by
  obtain ⟨v, hv, hs⟩ := h
  refine ⟨v, ?_, fun i x hx hsync => ?_⟩
  · cases v with
    | zero => exact hv
    | succ n =>
      obtain ⟨x, hx, hr⟩ := hv
      exact ⟨x, getElem?_concat.mpr (.inl hx), hr⟩
  · rcases getElem?_concat.mp hx with hx | ⟨-, rfl⟩
    · exact hs i x hx hsync
    · rw [hw] at hsync
      cases hsync

/-- A write that goes on. -/
theorem UpToDate.last (h : UpToDate initial (calls ++ [w]) found) (hdata : w'.data = w.data)
    (hr : w.replaced = true → w'.replaced = true) (hs : w'.synced = true → w.synced = true) :
    UpToDate initial (calls ++ [w']) found := by
  obtain ⟨v, hv, hfloor⟩ := h
  refine ⟨v, ?_, fun i x hx hsync => ?_⟩
  · cases v with
    | zero => exact hv
    | succ n =>
      obtain ⟨x, hx, hx', rfl⟩ := hv
      rcases getElem?_concat.mp hx with hx | ⟨rfl, rfl⟩
      · exact ⟨x, getElem?_concat.mpr (.inl hx), hx', rfl⟩
      · exact ⟨w', List.getElem?_concat_length, hr hx', by rw [hdata]⟩
  · rcases getElem?_concat.mp hx with hx | ⟨rfl, rfl⟩
    · exact hfloor i x (getElem?_concat.mpr (.inl hx)) hsync
    · exact hfloor _ w List.getElem?_concat_length (hs hsync)

end

/-! ## 5. Crash consistency -/

/-- A change of the disk that `os.replace` and the `fsync` of the directory have no part in. -/
theorem DiskAnswer.intact {d d' : Disk Byte} {w : Write} {c : Syscall} {r : Except PyExc c.Reply}
    {P : Option Bytes → Prop} (h : d.Intact P) (ha : DiskAnswer d c r d')
    (hr : ∀ data k, c ≠ .replace data k) (hs : c ≠ .side .syncDir) :
    d'.Intact P ∧ w.after c r = w := by
  have hsame (hd : d' = d) (hw : w.after c r = w) : d'.Intact P ∧ w.after c r = w := by
    rw [hd]
    exact ⟨h, hw⟩
  cases c with
  | replace data k => exact absurd rfl (hr data k)
  | side c =>
    cases c with
    | syncDir => exact absurd rfl hs
    | makeTemp =>
      cases r with
      | error e => exact hsame ha rfl
      | ok u =>
        obtain rfl : d' = d.create := ha
        exact ⟨h.create, rfl⟩
    | writeTemp data =>
      cases r with
      | error e =>
        obtain ⟨content, buffer, rfl⟩ := ha
        exact ⟨h.setTemp _ _, rfl⟩
      | ok u =>
        obtain ⟨content, buffer, -, rfl⟩ := ha
        exact ⟨h.setTemp _ _, rfl⟩
    | flushTemp =>
      cases r with
      | error e =>
        obtain ⟨content, buffer, rfl⟩ := ha
        exact ⟨h.setTemp _ _, rfl⟩
      | ok u =>
        obtain rfl : d' = _ := ha
        exact ⟨h.setTemp _ _, rfl⟩
    | syncTemp =>
      cases r with
      | error e => exact hsame ha rfl
      | ok u =>
        obtain rfl : d' = _ := ha
        exact ⟨h.setTemp _ _, rfl⟩
    | closeTemp =>
      cases r with
      | error e =>
        obtain ⟨content, buffer, rfl⟩ := ha
        exact ⟨h.setTemp _ _, rfl⟩
      | ok u =>
        have hd : if d.buffer = [] then d' = d else d' = _ := ha
        by_cases hb : d.buffer = []
        · rw [if_pos hb] at hd
          exact hsame hd rfl
        · rw [if_neg hb] at hd
          rw [hd]
          exact ⟨h.setTemp _ _, rfl⟩
    | unlinkTemp =>
      cases r with
      | error e => exact hsame ha rfl
      | ok u =>
        obtain rfl : d' = d.unlink := ha
        exact ⟨h.unlink, rfl⟩
    | makeLockDir | writeLockByte handle | makeParent | openTemp | closeFd | chmodTemp mode
    | openDir | closeDir => exact hsame ha rfl
  | now which | compute | pathExists | readBytes k | statTarget | openLock | tryLock handle k
  | unlock handle | closeLock handle => exact hsame ha rfl

/-- One call keeps every possible content a version that is recent enough. -/
theorem DiskAnswer.upToDate {initial : Option Bytes} {calls : List Write} {d d' : Disk Byte}
    {w : Write} {st : Stage} {c : Syscall} {r : Except PyExc c.Reply}
    (h : d.Intact (UpToDate initial (calls ++ [w]))) (hfit : st.Fits w d)
    (hp : Stage.Permits w.data st c) (ha : DiskAnswer d c r d') :
    d'.Intact (UpToDate initial (calls ++ [w.after c r])) := by
  by_cases hrep : ∃ data k, c = .replace data k
  · obtain ⟨data, k, rfl⟩ := hrep
    cases r with
    | error e =>
      obtain rfl : d' = d := ha
      exact h
    | ok u =>
      obtain rfl : st = .synced := hp
      obtain rfl : d' = d.place := ha
      obtain ⟨-, hfile, -⟩ := hfit
      have hlast (found) (hv : UpToDate initial (calls ++ [w]) found) :
          UpToDate initial (calls ++ [{ w with replaced := true }]) found :=
        hv.last rfl (fun _ => rfl) id
      refine (h.mono hlast).place (fun _ => by rw [hfile]) fun _ => ?_
      rw [hfile]
      exact upToDate_last (w := { w with replaced := true }) rfl
  · by_cases hsync : c = .side .syncDir
    · subst hsync
      cases r with
      | error e =>
        obtain rfl : d' = d := ha
        exact h
      | ok u =>
        obtain rfl : st = .placed := hp
        obtain rfl : d' = d.syncDirectory := ha
        obtain ⟨hr, hc⟩ := hfit
        refine h.syncDirectory ?_
        rw [hc]
        exact upToDate_last (w := { w with synced := true }) hr
    · obtain ⟨hi, hw⟩ := ha.intact (w := w) h (fun data k e => hrep ⟨data, k, e⟩) hsync
      rw [hw]
      exact hi

namespace Writer

/-- The invariant: whatever a crash leaves is a version and recent enough, and the write that has
    not ended keeps to the order of the calls. -/
structure Inv (initial : Option Bytes) (m : Writer) : Prop where
  intact : m.disk.Intact (UpToDate initial m.history)
  ordered : ∀ w p, m.current = some (w, p) → ∃ st : Stage, st.Fits w m.disk ∧
    Ordered w.data p st fun r st => ∀ u, r = .ok u → st.after
  /-- A write that has returned has replaced the target. -/
  replaced : ∀ w ∈ m.calls, w.returned = true → w.replaced = true

variable {nt : Bool} {initial : Option Bytes} {m m' : Writer}

theorem history_of_none (h : m.current = none) : m.history = m.calls := by
  rw [history, h]
  exact List.append_nil _

theorem history_of_some {w : Write} {p : Prog Unit} (h : m.current = some (w, p)) :
    m.history = m.calls ++ [w] := by
  rw [history, h]
  rfl

theorem Step.inv (hs : Step nt m m') (h : Inv initial m) : Inv initial m' := by
  cases hs with
  | begin data hc =>
    refine ⟨?_, fun w p hw => ?_, h.replaced⟩
    · show m.disk.Intact (UpToDate initial (m.calls ++ [_]))
      rw [← history_of_none hc]
      exact h.intact.mono fun found hv => hv.begin rfl
    · cases hw
      exact ⟨.idle, trivial, atomicWrite_ordered nt⟩
  | @answer w c k r d' hc ha =>
    obtain ⟨st, hfit, hp, hnext⟩ := h.ordered w _ hc
    have hi := h.intact
    rw [history_of_some hc] at hi
    refine ⟨DiskAnswer.upToDate hi hfit hp ha, fun w' p hw => ?_, h.replaced⟩
    cases hw
    refine ⟨st.next c r, hfit.after hp ha rfl, ?_⟩
    rw [Write.after_data]
    exact hnext r _ rfl
  | @finish w r hc =>
    obtain ⟨st, hfit, hend⟩ := h.ordered w _ hc
    have hi := h.intact
    rw [history_of_some hc] at hi
    refine ⟨?_, fun w' p hw => (nomatch hw), fun x hx hret => ?_⟩
    · show m.disk.Intact (UpToDate initial (m.calls ++ [_] ++ []))
      rw [List.append_nil]
      exact hi.mono fun found hv => hv.last rfl id id
    · rcases List.mem_append.mp hx with hx | hx
      · exact h.replaced x hx hret
      · cases List.mem_singleton.mp hx
        cases r with
        | error e => cases hret
        | ok u =>
          rcases hend u rfl with rfl | rfl <;> exact hfit.1

theorem reachable_inv (h : Reachable nt initial m) : Inv initial m := by
  induction h with
  | start => exact ⟨Disk.intact_start ⟨0, rfl, nofun⟩, nofun, nofun⟩
  | step _ hs ih => exact hs.inv ih

end Writer

/-- **Crash consistency**: a crash at any point of any sequence of writes leaves the initial content
    or the complete data of a write that has replaced the target, and nothing that is older than a
    write whose directory was synced. A write that has returned has replaced the target. -/
theorem crash_consistent {nt : Bool} {initial : Option Bytes} {m : Writer}
    (h : Writer.Reachable nt initial m) {found : Option Bytes} (hf : m.disk.Recovers found) :
    (∃ v, IsVersion initial m.history v found ∧
      ∀ i w, m.history[i]? = some w → w.synced = true → i < v) ∧
    ∀ w ∈ m.calls, w.returned = true → w.replaced = true :=
  ⟨(Writer.reachable_inv h).intact.recovers hf, (Writer.reachable_inv h).replaced⟩

/-! ## 6. Writes that no call disturbs -/

namespace Writer

section

variable (perform : (c : Syscall) → Disk Byte → Except PyExc c.Reply × Disk Byte)

/-- Up to so many calls of the current write, answered by a function. -/
def advance : Nat → Writer → Writer
  | 0, m => m
  | n + 1, m =>
    match m.current with
    | some (w, .call c k) => advance n
        ⟨(perform c m.disk).2, m.calls, some (w.after c (perform c m.disk).1, k (perform c m.disk).1)⟩
    | _ => m

/-- The first calls of the next write. -/
def write (nt : Bool) (data : Bytes) (n : Nat) (m : Writer) : Writer :=
  advance perform n { m with current := some (⟨data, false, false, false⟩, atomicWrite nt data) }

end

/-- A write that has made its last call ends. -/
def finish (m : Writer) : Writer :=
  match m.current with
  | some (w, .done r) => ⟨m.disk, m.calls ++ [{ w with returned := r.isOk }], none⟩
  | _ => m

/-- What the steps of a write keep holds after its calls. -/
theorem advance_keeps {nt : Bool}
    {perform : (c : Syscall) → Disk Byte → Except PyExc c.Reply × Disk Byte}
    (hp : ∀ c d, DiskAnswer d c (perform c d).1 (perform c d).2) {P : Writer → Prop}
    (hP : ∀ m m', P m → m.current ≠ none → Step nt m m' → P m') {n : Nat} :
    ∀ {m : Writer}, P m → P (advance perform n m) := by
  induction n with
  | zero => exact fun h => h
  | succ n ih =>
    intro m h
    unfold advance
    split
    · next w c k hc =>
      exact ih (hP _ _ h (hc ▸ nofun) (.answer hc (hp c m.disk)))
    · exact h

theorem Reachable.write {nt : Bool} {initial : Option Bytes}
    {perform : (c : Syscall) → Disk Byte → Except PyExc c.Reply × Disk Byte}
    (hp : ∀ c d, DiskAnswer d c (perform c d).1 (perform c d).2) {m : Writer}
    (h : Reachable nt initial m) (hidle : m.current = none) (data : Bytes) (n : Nat) :
    Reachable nt initial (m.write perform nt data n) :=
  advance_keeps hp (fun _ _ h _ hs => h.step hs) (h.step (.begin data hidle))

theorem Reachable.finish {nt : Bool} {initial : Option Bytes} {m : Writer}
    (h : Reachable nt initial m) : Reachable nt initial m.finish := by
  unfold Writer.finish
  split
  · next w r hc => exact h.step (.finish hc)
  · exact h

end Writer

/-- Every call returns; what is written stays in the buffer until it is flushed. -/
def undisturbed : (c : Syscall) → Disk Byte → Except PyExc c.Reply × Disk Byte
  | .now _, d => (.ok epoch, d)
  | .pathExists, d => (.ok d.newest.isSome, d)
  | .readBytes _, d => (.ok ((d.contentOf d.newest).getD []), d)
  | .statTarget, d => (.ok 0, d)
  | .openLock, d => (.ok 0, d)
  | .side .makeTemp, d => (.ok (), d.create)
  | .side (.writeTemp data), d => (.ok (), d.setTemp ⟨d.tempFile.content, false⟩ (d.buffer ++ data))
  | .side .flushTemp, d => (.ok (), d.setTemp ⟨d.tempFile.content ++ d.buffer, false⟩ [])
  | .side .syncTemp, d => (.ok (), d.setTemp ⟨d.tempFile.content, true⟩ d.buffer)
  | .side .closeTemp, d =>
    (.ok (), if d.buffer = [] then d else d.setTemp ⟨d.tempFile.content ++ d.buffer, false⟩ [])
  | .side .unlinkTemp, d => (.ok (), d.unlink)
  | .side .syncDir, d => (.ok (), d.syncDirectory)
  | .side _, d => (.ok (), d)
  | .replace _ _, d => (.ok (), d.place)
  | .compute, d | .tryLock _ _, d | .unlock _, d | .closeLock _, d => (.ok (), d)

theorem undisturbed_answers (c : Syscall) (d : Disk Byte) :
    DiskAnswer d c (undisturbed c d).1 (undisturbed c d).2 := by
  cases c with
  | side c =>
    cases c with
    | writeTemp data => exact ⟨_, _, (List.append_assoc _ _ _).symm, rfl⟩
    | closeTemp =>
      show if d.buffer = [] then _ else _
      by_cases h : d.buffer = []
      · rw [if_pos h]
        exact if_pos h
      · rw [if_neg h]
        exact if_neg h
    | _ => rfl
  | _ => rfl

/-- A write that has returned, and one that has replaced the target and not yet synced the
    directory. -/
def secondWrite (data data' : Bytes) : Writer :=
  ((Writer.start none).write undisturbed false data 40).finish.write undisturbed false data' 10

theorem secondWrite_history (data data' : Bytes) : (secondWrite data data').history =
    [⟨data, true, true, true⟩, ⟨data', true, false, false⟩] := rfl

/-- Either of the two is found. -/
theorem secondWrite_recovers (data data' : Bytes) : (secondWrite data data').disk.Recovers (some data) ∧
    (secondWrite data data').disk.Recovers (some data') :=
  ⟨⟨some 0, List.mem_cons_of_mem _ (List.mem_singleton.mpr rfl), data, fun _ => rfl, rfl⟩,
    some 1, List.mem_cons_self, data', fun _ => rfl, rfl⟩

/-- A crash inside a second write, between `os.replace` and the `fsync` of the directory. -/
theorem second_write : ∃ m, Writer.Reachable false none m ∧
    m.history = [⟨[104, 105], true, true, true⟩, ⟨[98, 121, 101], true, false, false⟩] ∧
    m.disk.Recovers (some [104, 105]) ∧ m.disk.Recovers (some [98, 121, 101]) ∧
    ∀ found, m.disk.Recovers found → ∃ v, IsVersion none m.history v found ∧
      ∀ i w, m.history[i]? = some w → w.synced = true → i < v := by
  have hr : Writer.Reachable false none (secondWrite [104, 105] [98, 121, 101]) :=
    (Writer.Reachable.start.write undisturbed_answers rfl _ 40).finish.write undisturbed_answers rfl _ 10
  obtain ⟨hold, hnew⟩ := secondWrite_recovers [104, 105] [98, 121, 101]
  exact ⟨_, hr, secondWrite_history _ _, hold, hnew, fun found hf => (crash_consistent hr hf).1⟩

end JsonDatabase
