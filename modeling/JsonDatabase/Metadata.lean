/-
  File:      JsonDatabase/Metadata.lean
  Subject:   The meta block over the life of a file.

  A commit stamps `updated_at` and the checksum and, where it is missing, `created_at`; everything
  else outside the collections is as it was loaded, the entries included that no version of the
  library wrote.

  * `Kept` -- what is left alone between two states of a file;
  * `Tidy.kept` -- one commit;
  * `metadata_kept` -- any number of them, in every interleaving, until the next `init`.
-/
import JsonDatabase.Healthy

namespace JsonDatabase

open PyVal hiding none

/-! ## 1. One commit -/

/-- What is left alone between two states of a file. -/
structure Kept (s w : State) : Prop where
  top : ∀ k, k ≠ META → k ≠ COLLECTIONS → Option.Rel Same (Dict.get s k) (Dict.get w k)
  fields : ∃ f f', Dict.get s META = some (.dict f) ∧ Dict.get w META = some (.dict f') ∧
    (∀ k, k ≠ CREATED_AT → k ≠ UPDATED_AT → k ≠ CONTENT_SHA256 →
      Option.Rel Same (Dict.get f k) (Dict.get f' k)) ∧
    ∀ v, Dict.get f CREATED_AT = some v → ∃ v', Dict.get f' CREATED_AT = some v' ∧ Same v v'

/-- The times of a commit at `now` are in the meta block. -/
def StampedAt (now : DateTime) (w : State) : Prop :=
  ∃ f, Dict.get w META = some (.dict f) ∧ Dict.get f UPDATED_AT = some (.datetime now) ∧
    (Dict.get f CREATED_AT).isSome = true

theorem rel_same_trans {a b c : Option PyVal} (h : Option.Rel Same a b) (h' : Option.Rel Same b c) :
    Option.Rel Same a c := by
  cases h with
  | none => exact h'
  | some h =>
    cases h' with
    | some h' => exact .some (h.trans h')

theorem Kept.trans {s u w : State} (h : Kept s u) (h' : Kept u w) : Kept s w := by
  obtain ⟨htop, f, g, hf, hg, hfg, hcreated⟩ := h
  obtain ⟨htop', g', e, hg', he, hge, hcreated'⟩ := h'
  obtain rfl : g = g' := PyVal.dict.inj (Option.some.inj (hg.symm.trans hg'))
  refine ⟨fun k hm hc => rel_same_trans (htop k hm hc) (htop' k hm hc), f, e, hf, he,
    fun k h1 h2 h3 => rel_same_trans (hfg k h1 h2 h3) (hge k h1 h2 h3), fun v hv => ?_⟩
  obtain ⟨v', hv', hs⟩ := hcreated v hv
  obtain ⟨v'', hv'', hs'⟩ := hcreated' v' hv'
  exact ⟨v'', hv'', hs.trans hs'⟩

theorem rel_same_refl (a : Option PyVal) : Option.Rel Same a a := by
  cases a with
  | none => exact .none
  | some v => exact .some (.refl v)

theorem Loaded.kept_self {rt : Runtime} {s : State} (h : Loaded rt s) : Kept s s := by
  obtain ⟨fields, _, hs⟩ := h.shape
  exact ⟨fun _ _ _ => rel_same_refl _, fields, fields, hs.metaIs, hs.metaIs,
    fun _ _ _ _ => rel_same_refl _, fun v hv => ⟨v, hv, .refl v⟩⟩

/-- What was read is in its stored form, entry by entry. -/
theorem map_stored_get {d : PyDict} (h : stored (.dict d) = .dict d) (k : PyKey) :
    (Dict.get d k).map stored = Dict.get d k := by
  rw [stored_dict, PyVal.dict.injEq] at h
  rw [← Dict.get_map, h]

theorem MetaShape.version_isSome {fields : PyDict} (h : MetaShape fields) :
    ∃ v, Dict.get fields VERSION_KEY = some v := by
  cases hg : Dict.get fields VERSION_KEY with
  | some v => exact ⟨v, rfl⟩
  | none =>
    have hv := h.version
    rw [hg] at hv
    exact absurd hv (by simp [eqVals, eqRaises, pyEq])

/-- Stamping fills in nothing but the times and the checksum of a meta block of the right shape. -/
theorem MetaShape.get_stamp {fields : PyDict} (h : MetaShape fields) (now : DateTime) {k : PyKey}
    (h1 : k ≠ CREATED_AT) (h2 : k ≠ UPDATED_AT) (h3 : k ≠ CONTENT_SHA256) :
    Dict.get (stampMeta now fields) k = Dict.get fields k := by
  rw [get_stampMeta, if_neg h3.symm, if_neg h2.symm, if_neg h1.symm]
  split
  · rename_i e
    subst e
    obtain ⟨v, hv⟩ := h.version_isSome
    rw [hv]
    rfl
  · split
    · rename_i e
      subst e
      rw [h.format]
      rfl
    · rfl

/-- **One commit leaves everything alone** but the collections, the times and the checksum. -/
theorem Tidy.kept {rt : Runtime} {cp : Copier} {base s w : State} (hb : Loaded rt base)
    (h : Tidy rt base s) {now : DateTime} {data : Bytes}
    (hc : commitBytes rt cp now s = .ok data) (hw : loadBytes rt data = .ok w) :
    Kept base w ∧ StampedAt now w := by
  obtain ⟨p, hp, hdump⟩ := bind_ok.mp hc
  obtain ⟨w', hw', hread⟩ := h.rep.load_commit hb h.free hp hdump
  obtain rfl : w' = w := Except.ok.inj (hw'.symm.trans hw)
  obtain ⟨fields, c, hs, -⟩ := h.rep.shape hb
  have hmeta : Dict.get base META = some (.dict fields) := by
    rw [← h.rep.frame collections_ne_meta.symm]
    exact hs.metaIs
  obtain ⟨-, d, hd, rfl⟩ := (prepareForCommit_ok hs).mp hp
  have hpw := putClosed_wf.prepared (h.rep.wf hb) hs.metaIs now (computeChecksum_ascii hd)
  rw [prepared_eq_put] at hread hpw
  have hpd := (everywhere_dict.mp hpw).1
  obtain ⟨m, hm, hfm⟩ := hread.get_left hpd (Dict.get_put_self _ _ _)
  obtain ⟨f', rfl⟩ := hfm.dict_left
  have hfd := (everywhere_dict.mp (putClosed_wf.get hpw (Dict.get_put_self _ _ _))).1
  have hfields := putClosed_stored.get hb.decoded.stored hmeta
  have hdates : UPDATED_AT ≠ CONTENT_SHA256 := by decide
  have hcreated : CREATED_AT ≠ CONTENT_SHA256 := by decide
  have hcu : CREATED_AT ≠ UPDATED_AT := by decide
  have hget : Dict.get (Dict.put (stampMeta now fields) CONTENT_SHA256 (.str d)) CREATED_AT =
      some ((Dict.get fields CREATED_AT).getD (.datetime now)) := by
    rw [Dict.get_put_ne _ hcreated.symm, get_stampMeta, if_neg hcreated.symm, if_neg hcu.symm,
      if_pos rfl]
  obtain ⟨v', hv', hsv⟩ := hfm.get_left hfd hget
  refine ⟨⟨fun k hkm hkc => ?_, fields, f', hmeta, hm, fun k h1 h2 h3 => ?_, fun v hv => ?_⟩,
    f', hm, ?_, by rw [hv']; rfl⟩
  · have hk := hread.get hpd k
    rw [Dict.get_put_ne _ hkm.symm, h.rep.frame hkc, map_stored_get hb.decoded.stored] at hk
    exact hk
  · have hk := hfm.get hfd k
    rw [Dict.get_put_ne _ h3.symm, hs.metaShape.get_stamp now h1 h2 h3, map_stored_get hfields] at hk
    exact hk
  · rw [hv, Option.getD_some, ReadsAs, putClosed_stored.get hfields hv] at hsv
    exact ⟨v', hv', hsv⟩
  · obtain ⟨u, hu, hsu⟩ := hfm.get_left hfd (k := UPDATED_AT) (v := .datetime now) (by
      rw [Dict.get_put_ne _ hdates.symm, get_stampMeta, if_neg hdates.symm, if_pos rfl])
    rw [hu, hsu.atom rfl]

/-! ## 2. Every interleaving -/

/-- Each commit was made from the content before it. -/
theorem Replay.commit_at {rt : Runtime} {cp : Copier} {file : Option Bytes} {log : List Commit}
    (h : Replay rt cp file log) {n : Nat} {c : Commit} (hn : log[n]? = some c) :
    c.job.Commits rt cp (fileAfter file (log.take n)) c.data ∧
      fileAfter file (log.take (n + 1)) = some c.data := by
  refine ⟨?_, by rw [List.take_add_one, hn]; exact fileAfter_snoc _ _ _⟩
  induction h with
  | nil => cases hn
  | @snoc log c' hlog hc ih =>
    by_cases hlt : n < log.length
    · rw [List.take_append_of_le_length (Nat.le_of_lt hlt)]
      exact ih ((List.getElem?_append_left hlt).symm.trans hn)
    · have hlen := (List.getElem?_eq_some_iff.mp hn).1
      rw [List.length_append, List.length_singleton] at hlen
      obtain rfl : n = log.length := by omega
      rw [List.getElem?_concat_length] at hn
      cases hn
      rw [List.take_left]
      exact hc

/-- Once there is a file it stays. -/
theorem fileAfter_stays {file : Option Bytes} {log : List Commit} {n m : Nat} (hnm : n ≤ m)
    {raw : Bytes} (h : fileAfter file (log.take n) = some raw) :
    ∃ raw', fileAfter file (log.take m) = some raw' := by
  cases hm : fileAfter file (log.take m) with
  | some raw' => exact ⟨raw', rfl⟩
  | none =>
    obtain ⟨hlog, rfl⟩ := fileAfter_eq_none hm
    have hn : log.take n = [] := by
      rw [← Nat.min_eq_left hnm, ← List.take_take, hlog, List.take_nil]
    rw [hn] at h
    cases h

section Runs

variable {rt : Runtime} {cp : Copier} {file : Option Bytes} {s : System}

/-- What one commit of the log keeps. -/
theorem System.Runs.kept (h : System.Runs rt cp (Job.Library rt) (.start file) s)
    {n : Nat} {c : Commit} (hn : s.log[n]? = some c) (hinit : ∀ force, c.job ≠ .createEmpty force)
    {raw : Bytes} (hraw : fileAfter file (s.log.take n) = some raw) {state w : State}
    (hstate : loadBytes rt raw = .ok state) (hw : loadBytes rt c.data = .ok w) : Kept state w := by
  have hreplay := (reachable_inv h.reachable).replay
  obtain ⟨t, now, base, s', hload, ht, hc⟩ :=
    (h.log.1 c (List.mem_of_getElem? hn)).commits (hreplay.commit_at hn).1
  have hsource : c.job.source (fileAfter file (s.log.take n)) = some raw := by
    rw [← hraw]
    cases hj : c.job with
    | createEmpty force => exact absurd hj (hinit force)
    | _ => rfl
  rw [hsource] at hload
  obtain rfl : base = state := Except.ok.inj (Eq.trans hload.symm hstate)
  exact (ht.kept (load_loaded hload) hc hw).1

/-- What any number of commits keep. -/
theorem System.Runs.kept_between (h : System.Runs rt cp (Job.Library rt) (.start file) s)
    (hfile : Readable rt (onDisk file)) {n m : Nat} (hnm : n ≤ m)
    (hinit : ∀ i c, n ≤ i → i < m → s.log[i]? = some c → ∀ force, c.job ≠ .createEmpty force)
    {raw raw' : Bytes} {state state' : State} (hraw : fileAfter file (s.log.take n) = some raw)
    (hraw' : fileAfter file (s.log.take m) = some raw') (hstate : loadBytes rt raw = .ok state)
    (hstate' : loadBytes rt raw' = .ok state') : Kept state state' := by
  have hreplay := (reachable_inv h.reachable).replay
  induction m, hnm using Nat.le_induction generalizing raw' state' with
  | base =>
    rw [hraw] at hraw'
    cases hraw'
    obtain rfl : state = state' := Except.ok.inj (hstate.symm.trans hstate')
    exact (loadBytes_loaded hstate).kept_self
  | succ m hnm ih =>
    have ih {raw' : Bytes} {state' : State} := @ih
      (fun i c hi hlt => hinit i c hi (Nat.lt_succ_of_lt hlt)) raw' state'
    cases hc : s.log[m]? with
    | none =>
      rw [List.take_add_one, hc, Option.toList_none, List.append_nil] at hraw'
      exact ih hraw' hstate'
    | some c =>
      rw [(hreplay.commit_at hc).2] at hraw'
      cases hraw'
      obtain ⟨mid, hmid⟩ := fileAfter_stays hnm hraw
      have hread := h.readable hfile m
      rw [hmid] at hread
      obtain ⟨u, hu⟩ := hread epoch
      exact (ih hmid hu).trans (h.kept hc (hinit m c hnm (Nat.lt_succ_self m) hc) hmid hu hstate')

/-- **The metadata of a file over its life**: whatever the clients write through the API, and where
    they crash, from any content of the file to any later one with no `init` between them,
    everything outside the collections stays, entries of other origin included, except `updated_at`
    and the checksum; and every commit leaves the time it was made at and a `created_at`. -/
theorem metadata_kept (h : System.Runs rt cp (Job.Library rt) (.start file) s)
    (hfile : Readable rt (onDisk file)) :
    (∀ n m, n ≤ m → (∀ i c, n ≤ i → i < m → s.log[i]? = some c → ∀ force, c.job ≠ .createEmpty force) →
      ∀ raw raw' state state', fileAfter file (s.log.take n) = some raw →
        fileAfter file (s.log.take m) = some raw' → loadBytes rt raw = .ok state →
          loadBytes rt raw' = .ok state' → Kept state state') ∧
    ∀ (n : Nat) (c : Commit), s.log[n]? = some c → ∃ w, loadBytes rt c.data = .ok w ∧
      c.job.Commits rt cp (fileAfter file (s.log.take n)) c.data ∧
      ∀ now, c.job.CommitsAt rt cp (fileAfter file (s.log.take n)) now c.data → StampedAt now w := by
  refine ⟨fun n m hnm hinit raw raw' state state' hraw hraw' hstate hstate' =>
    h.kept_between hfile hnm hinit hraw hraw' hstate hstate', fun n c hn => ?_⟩
  have hlib := h.log.1 c (List.mem_of_getElem? hn)
  have hc := ((reachable_inv h.reachable).replay.commit_at hn).1
  obtain ⟨s', hsaved⟩ := hlib.saved hc
  obtain ⟨w, hw⟩ := hsaved.readable epoch
  refine ⟨w, hw, hc, fun now hat => ?_⟩
  obtain ⟨t, base, s', hload, ht, hbytes⟩ := hlib.commitsAt hat
  exact (ht.kept (load_loaded hload) hbytes hw).2

end Runs

/-- The last two of three commits keep what the first has left outside the collections. -/
theorem two_clients_keep : ∃ s c₀ c₂ w₀ w₂,
    System.Runs interpreter .total (Job.Library interpreter) (.start none) s ∧
    s.log[0]? = some c₀ ∧ s.log[2]? = some c₂ ∧ loadBytes interpreter c₀.data = .ok w₀ ∧
    loadBytes interpreter c₂.data = .ok w₂ ∧ Kept w₀ w₂ ∧ ∃ now, StampedAt now w₂ := by
  obtain ⟨hkept, hstamped⟩ := metadata_kept afterTwoClients_runs (readable_missing interpreter)
  obtain ⟨c₀, c₁, c₂, hlog, -, h₁, h₂⟩ := afterTwoClients_log
  rw [hlog] at hkept hstamped
  obtain ⟨w₀, hw₀, -⟩ := hstamped 0 c₀ rfl
  obtain ⟨w₂, hw₂, hsome, hat⟩ := hstamped 2 c₂ rfl
  obtain ⟨now, hnow⟩ := hsome
  refine ⟨_, c₀, c₂, w₀, w₂, afterTwoClients_runs, by rw [hlog]; rfl, by rw [hlog]; rfl, hw₀, hw₂,
    hkept 1 3 (by decide) (fun i c hi hlt hc force => ?_) _ _ w₀ w₂ rfl rfl hw₀ hw₂, now, hat now hnow⟩
  obtain rfl | rfl : i = 1 ∨ i = 2 := by omega
  · cases hc
    exact Job.ne_createEmpty (h₁ ▸ nofun) force
  · cases hc
    exact Job.ne_createEmpty (h₂ ▸ nofun) force

end JsonDatabase
