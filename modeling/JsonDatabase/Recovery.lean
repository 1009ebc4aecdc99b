/-
  File:      JsonDatabase/Recovery.lean
  Subject:   A database that lives through any number of crashes.

  Between two crashes the operations of the API write one after the other (the lock sees to that),
  each on top of what programs find at the path. A crash may come at any system call; what it leaves
  is where the next life begins.

  * `Writer.Works` -- one life; `Lives` -- one after the other, with a crash at the end of each;
  * `recovers_committed` -- after any of them the database can be loaded, holds what one operation
    had committed, and has lost no write whose directory was synced, in this life or before.
-/
import JsonDatabase.Crash
import JsonDatabase.Healthy

namespace JsonDatabase

/-! ## 1. One life after the other -/

/-- What programs find at the path. -/
def Disk.visible {β : Type} (d : Disk β) : Option (List β) := d.contentOf d.newest

/-- A life: each write begins with the bytes that an operation of the API commits on top of what it
    finds at the path. -/
inductive Writer.Works (rt : Runtime) (cp : Copier) (nt : Bool) (found : Option Bytes) : Writer → Prop
  | start : Works rt cp nt found (.start found)
  | begin {m : Writer} {job : Job} {data : Bytes} (h : Works rt cp nt found m)
      (hjob : job.Library rt) (hdata : job.Commits rt cp m.disk.visible data)
      (hidle : m.current = none) : Works rt cp nt found
        { m with current := some (⟨data, false, false, false⟩, atomicWrite nt data) }
  | step {m m' : Writer} (h : Works rt cp nt found m) (hbusy : m.current ≠ none)
      (hs : Writer.Step nt m m') : Works rt cp nt found m'

/-- The writes of all lives so far, and what is at the path when the next life begins. -/
inductive Lives (rt : Runtime) (cp : Copier) (nt : Bool) (initial : Option Bytes) :
    List Write → Option Bytes → Prop
  | first : Lives rt cp nt initial [] initial
  | crash {past : List Write} {found found' : Option Bytes} {m : Writer} :
      Lives rt cp nt initial past found → Writer.Works rt cp nt found m →
      m.disk.Recovers found' → Lives rt cp nt initial (past ++ m.history) found'

/-! ## 2. What a life writes -/

section

variable {rt : Runtime} {cp : Copier} {nt : Bool} {initial found : Option Bytes} {m : Writer}

theorem Writer.Works.reachable (h : m.Works rt cp nt found) : Writer.Reachable nt found m := by
  induction h with
  | start => exact .start
  | begin _ _ _ hidle ih => exact ih.step (.begin _ hidle)
  | step _ _ hs ih => exact ih.step hs

/-- Calls do not change what is written. -/
theorem Writer.Step.data {m m' : Writer} (hs : Writer.Step nt m m') (hbusy : m.current ≠ none)
    {P : Bytes → Prop} (h : ∀ w ∈ m.history, P w.data) : ∀ w ∈ m'.history, P w.data := by
  cases hs with
  | begin data hidle => exact absurd hidle hbusy
  | @answer w c k r d' hc ha =>
    rw [Writer.history_of_some hc] at h
    intro w' hw'
    rcases List.mem_append.mp hw' with hw' | hw'
    · exact h w' (List.mem_append_left _ hw')
    · cases List.mem_singleton.mp hw'
      rw [Write.after_data]
      exact h w (List.mem_append_right _ (List.mem_singleton.mpr rfl))
  | @finish w r hc =>
    rw [Writer.history_of_some hc] at h
    intro w' hw'
    rw [Writer.history_of_none rfl] at hw'
    rcases List.mem_append.mp hw' with hw' | hw'
    · exact h w' (List.mem_append_left _ hw')
    · cases List.mem_singleton.mp hw'
      exact h w (List.mem_append_right _ (List.mem_singleton.mpr rfl))

theorem Writer.Works.saved (h : m.Works rt cp nt found) :
    ∀ w ∈ m.history, ∃ s, Saved rt cp s w.data := by
  induction h with
  | start => exact nofun
  | step _ hbusy hs ih => exact hs.data (P := fun data => ∃ s, Saved rt cp s data) hbusy ih
  | begin _ hjob hdata hidle ih =>
    rw [Writer.history_of_none hidle] at ih
    intro w hw
    rcases List.mem_append.mp hw with hw | hw
    · exact ih w hw
    · cases List.mem_singleton.mp hw
      exact hjob.saved hdata

/-- A content of this life, as one of all lives. -/
theorem UpToDate.later {past history : List Write} {found' : Option Bytes}
    (h : UpToDate initial past found) (h' : UpToDate found history found') :
    UpToDate initial (past ++ history) found' := by
  obtain ⟨v, hv, hold⟩ := h
  obtain ⟨v', hv', hnew⟩ := h'
  cases v' with
  | zero =>
    -- nothing of this life has replaced the content for certain
    obtain rfl : found' = found := hv'
    refine ⟨v, ?_, fun i w hi hs => ?_⟩
    · cases v with
      | zero => exact hv
      | succ n =>
        obtain ⟨w, hw, hr⟩ := hv
        exact ⟨w, List.getElem?_append_left (List.getElem?_eq_some_iff.mp hw).1 ▸ hw, hr⟩
    · by_cases hlt : i < past.length
      · rw [List.getElem?_append_left hlt] at hi
        exact hold i w hi hs
      · rw [List.getElem?_append_right (Nat.le_of_not_lt hlt)] at hi
        exact absurd (hnew _ w hi hs) (Nat.not_lt_zero _)
  | succ n =>
    obtain ⟨w, hw, hr⟩ := hv'
    refine ⟨past.length + n + 1, ⟨w, ?_, hr⟩, fun i w hi hs => ?_⟩
    · rw [List.getElem?_append_right (Nat.le_add_right _ _), Nat.add_sub_cancel_left]
      exact hw
    · by_cases hlt : i < past.length
      · omega
      · rw [List.getElem?_append_right (Nat.le_of_not_lt hlt)] at hi
        have := hnew _ w hi hs
        omega

theorem Lives.inv {past : List Write} (h : Lives rt cp nt initial past found) :
    UpToDate initial past found ∧ ∀ w ∈ past, ∃ s, Saved rt cp s w.data := by
  induction h with
  | first => exact ⟨⟨0, rfl, nofun⟩, nofun⟩
  | crash _ hworks hfound ih =>
    refine ⟨ih.1.later ((Writer.reachable_inv hworks.reachable).intact.recovers hfound), ?_⟩
    exact fun w hw => (List.mem_append.mp hw).elim (ih.2 w) (hworks.saved w)

end

/-! ## 3. The result -/

/-- **After any number of crashes** the database can be loaded without repair. What is found at the
    path is the initial content or what a write has replaced it by, and no older than any write of
    any life whose directory was synced; and if a write is found, then what is loaded is the state
    that an operation had made, in whole. -/
theorem recovers_committed {rt : Runtime} {cp : Copier} {nt : Bool} {initial found : Option Bytes}
    {past : List Write} (h : Lives rt cp nt initial past found)
    (hinitial : Readable rt (onDisk initial)) :
    Readable rt (onDisk found) ∧
    ∃ v, IsVersion initial past v found ∧
      (∀ i w, past[i]? = some w → w.synced = true → i < v) ∧
      ∀ n w, v = n + 1 → past[n]? = some w → ∃ s, Saved rt cp s w.data ∧
        ∀ t s', load rt t (onDisk found) = .ok s' → Parallel s s' := by
  obtain ⟨⟨v, hv, hsynced⟩, hsaved⟩ := h.inv
  refine ⟨?_, v, hv, hsynced, ?_⟩
  · cases v with
    | zero =>
      obtain rfl : found = initial := hv
      exact hinitial
    | succ n =>
      obtain ⟨w, hw, -, rfl⟩ := hv
      obtain ⟨s, hs⟩ := hsaved w (List.mem_of_getElem? hw)
      exact hs.readable
  · rintro n w rfl hw
    obtain ⟨w', hw', -, rfl⟩ := hv
    obtain rfl : w' = w := Option.some.inj (hw'.symm.trans hw)
    obtain ⟨s, hs⟩ := hsaved w' (List.mem_of_getElem? hw)
    refine ⟨s, hs, fun t s' hload => ?_⟩
    obtain ⟨base, now, hb, ht, hc⟩ := hs
    exact ht.rep.parallel_read_back hb hc hload

/-- The first calls of a write are part of a life, -/
theorem Writer.Works.write {rt : Runtime} {cp : Copier} {nt : Bool} {found : Option Bytes}
    {perform : (c : Syscall) → Disk Byte → Except PyExc c.Reply × Disk Byte}
    (hp : ∀ c d, DiskAnswer d c (perform c d).1 (perform c d).2) {m : Writer} {job : Job} {data : Bytes}
    (h : m.Works rt cp nt found) (hjob : job.Library rt) (hdata : job.Commits rt cp m.disk.visible data)
    (hidle : m.current = none) (n : Nat) : (m.write perform nt data n).Works rt cp nt found :=
  Writer.advance_keeps hp (fun _ _ h hbusy hs => h.step hbusy hs) (h.begin hjob hdata hidle)

/-- and so is its end. -/
theorem Writer.Works.finish {rt : Runtime} {cp : Copier} {nt : Bool} {found : Option Bytes}
    {m : Writer} (h : m.Works rt cp nt found) : m.finish.Works rt cp nt found := by
  unfold Writer.finish
  split
  · next w r hc => exact h.step (hc ▸ nofun) (.finish hc)
  · exact h

/-- A document is inserted. In the next life `init --force` has replaced the file when the system
    crashes, and the directory was not synced: the document is still there. -/
theorem document_recovers : ∃ w w' s, Lives interpreter .total false none [w, w'] (some w.data) ∧
    w.returned = true ∧ w'.replaced = true ∧ w'.synced = false ∧
    Readable interpreter (.bytes w.data) ∧ Saved interpreter .total s w.data ∧
    ∀ t s', load interpreter t (.bytes w.data) = .ok s' → Parallel s s' := by
  obtain ⟨d, -, hload⟩ := loaded_empty interpreter epoch
  have hb := load_loaded hload
  have hr := runCalls_rep .total [insertTagged] hb.rep
  have hafter : runCalls interpreter .total [insertTagged] (emptyState epoch (.str d)) =
      usersOnly epoch (.str d) [tagged] := rfl
  rw [hafter] at hr
  have hclean : CleanDocuments (usersOnly epoch (.str d) [tagged]) :=
    cleanDocuments_usersOnly fun p hp => List.mem_singleton.mp hp ▸ clean_tagged
  have hempty : CleanDocuments (emptyState epoch (.str d)) := by
    intro c name docs id document hget hn
    cases hget
    cases hn
  obtain ⟨data, hdata⟩ := (hr.commitBytes_isOk hb .total epoch).mpr ⟨hclean, .total _ _⟩
  obtain ⟨data', hdata'⟩ := (hb.rep.commitBytes_isOk hb .total epoch).mpr ⟨hempty, .total _ _⟩
  have hinsert : (Job.update (insertTagged.run interpreter .total)).Commits interpreter .total
      (Writer.start none).disk.visible data := ⟨epoch, epoch, _, _, _, hload, rfl, hdata⟩
  have hinit : (Job.createEmpty true).Commits interpreter .total
      (Writer.start (some data)).disk.visible data' := ⟨epoch, nofun, epoch, _, hload, hdata'⟩
  have hjob : (Job.update (insertTagged.run interpreter .total)).Library interpreter :=
    @Job.Library.write _ _ insertTagged trivial
  have hworks : Writer.Works interpreter .total false none
      ((Writer.start none).write undisturbed false data 40).finish :=
    (Writer.Works.start.write undisturbed_answers hjob hinsert rfl 40).finish
  have hworks' : Writer.Works interpreter .total false (some data)
      ((Writer.start (some data)).write undisturbed false data' 10) :=
    Writer.Works.start.write undisturbed_answers (.init true) hinit rfl 10
  have hlives : Lives interpreter .total false none
      [⟨data, true, true, true⟩, ⟨data', true, false, false⟩]
      (some data) :=
    (Lives.first.crash hworks ⟨some 0, List.mem_singleton.mpr rfl, data, fun _ => rfl, rfl⟩).crash
      hworks' ⟨some 0, List.mem_cons_of_mem _ (List.mem_singleton.mpr rfl), data, fun _ => rfl, rfl⟩
  obtain ⟨hreadable, v, hv, hsynced, hstate⟩ :=
    recovers_committed hlives (readable_missing interpreter)
  have hle := hsynced 0 _ rfl rfl
  obtain ⟨n, rfl⟩ := Nat.exists_eq_add_of_lt hle
  obtain ⟨w, hw, -, hfound⟩ := hv
  obtain ⟨s, hsaved, hparallel⟩ := hstate _ w rfl hw
  rw [← Option.some.inj hfound] at hsaved
  exact ⟨⟨data, true, true, true⟩, ⟨data', true, false, false⟩, s, hlives, rfl, rfl, rfl, hreadable,
    hsaved, hparallel⟩

end JsonDatabase
