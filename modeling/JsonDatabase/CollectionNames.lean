/-
  File:      JsonDatabase/CollectionNames.lean
  Subject:   Which collection names are accepted.

  The pattern is matched by `re.match`, where `$` also stands before a newline at the very end of
  the text. In the published schema it stands at the end and nowhere else.

  * `schemaPattern` -- the language of the schema;
  * `validateCollectionName_iff` -- what the API accepts: that language, with or without a newline
    behind;
  * `acceptedByLoad_iff`, `acceptedByCommit_iff` -- the other two checks accept the same names;
  * `names_exact` -- the strings on which they and the schema agree.
-/
import JsonDatabase.Contract
import JsonDatabase.Durability
import JsonDatabase.Alike

namespace JsonDatabase

open PyVal hiding none

/-! ## 1. The two languages -/

/-- `^(?!__)[A-Za-z0-9_-]+$`, matched against the whole string. -/
def schemaPattern (s : Str) : Bool := s.take 2 ≠ lit "__" && (!s.isEmpty && s.all nameChar)

def newline : CodePoint := 0x0A

theorem schemaPattern_iff {s : Str} : schemaPattern s = true ↔
    s.take 2 ≠ lit "__" ∧ s ≠ [] ∧ ∀ c ∈ s, nameChar c = true := by
  simp [schemaPattern]

/-- The characters that the other checks look for are not name characters. -/
theorem nameChar_ne {c d : CodePoint} (hc : nameChar c = true) (hd : nameChar d = false) : c ≠ d := by
  rintro rfl
  rw [hc] at hd
  cases hd

theorem collectionRe_iff {s : Str} : collectionRe s = true ↔
    ∃ body, (body ≠ [] ∧ ∀ c ∈ body, nameChar c = true) ∧ (s = body ∨ s = body ++ [newline]) := by
  have body_iff {body : Str} : (!body.isEmpty && body.all nameChar) = true ↔
      body ≠ [] ∧ ∀ c ∈ body, nameChar c = true := by
    simp
  unfold collectionRe
  simp only [body_iff]
  split
  · rename_i hl
    have hs := List.dropLast_append_getLast? _ hl
    refine ⟨fun h => ⟨_, h, Or.inr hs.symm⟩, fun h => ?_⟩
    obtain ⟨body, hb, rfl | rfl⟩ := h
    · -- a newline is no name character
      exact absurd (hb.2 newline (List.mem_of_getLast? hl)) (by decide)
    · rw [List.dropLast_concat]
      exact hb
  · rename_i hl
    refine ⟨fun h => ⟨s, h, Or.inl rfl⟩, fun h => ?_⟩
    obtain ⟨body, hb, rfl | rfl⟩ := h
    · exact hb
    · exact absurd List.getLast?_concat hl

/-- A name is a path of one component. -/
theorem purePathName_self {s : Str} (h : ch '/' ∉ s) (hs : s ≠ []) (hd : s ≠ [dot]) :
    purePathName s = s := by
  rw [purePathName, List.splitOn_eq_singleton h, List.filter_cons_of_pos (by simp [hs, hd])]
  rfl

theorem take_concat_newline (body : Str) :
    (body ++ [newline]).take 2 = lit "__" ↔ body.take 2 = lit "__" := by
  match body with
  | [] => decide
  | [a] => simp [lit, newline]
  | a :: b :: rest => simp

/-- **What the API accepts.** -/
theorem validateCollectionName_iff {s : Str} : validateCollectionName (.str s) = .ok () ↔
    ∃ body, schemaPattern body = true ∧ (s = body ∨ s = body ++ [newline]) := by
  constructor
  · intro h
    obtain ⟨n, e, hn, hre⟩ := validName_str h
    obtain rfl : s = n := PyVal.str.inj e
    obtain ⟨body, hb, hs⟩ := collectionRe_iff.mp hre
    refine ⟨body, schemaPattern_iff.mpr ⟨?_, hb⟩, hs⟩
    rcases hs with rfl | rfl
    · exact hn
    · exact fun e => hn ((take_concat_newline body).mpr e)
  · intro h
    obtain ⟨body, hb, hs⟩ := h
    obtain ⟨hn, hne, hall⟩ := schemaPattern_iff.mp hb
    have htake : s.take 2 ≠ lit "__" := by
      rcases hs with rfl | rfl
      · exact hn
      · exact fun e => hn ((take_concat_newline body).mp e)
    -- every character is a name character or the newline
    have clear {d : CodePoint} (hd : nameChar d = false) (hd' : newline ≠ d) : d ∉ s := by
      intro hm
      have hb : d ∉ body := fun hm => nameChar_ne (hall d hm) hd rfl
      rcases hs with rfl | rfl
      · exact hb hm
      · rcases List.mem_append.mp hm with hm | hm
        · exact hb hm
        · exact hd' (List.mem_singleton.mp hm).symm
    have hslash : ch '/' ∉ s := clear (by decide) (by decide)
    have hback : backslash ∉ s := clear (by decide) (by decide)
    have hdot : s ≠ [dot] := by
      rintro rfl
      exact clear (d := dot) (by decide) (by decide) List.mem_cons_self
    have hnil : s ≠ [] := by
      rcases hs with rfl | rfl
      · exact hne
      · exact List.concat_ne_nil _ _
    have hpath : ¬ (purePathName s ≠ s ∨ ch '/' ∈ s ∨ backslash ∈ s) := by
      rw [purePathName_self hslash hnil hdot]
      simp [hslash, hback]
    rw [validateCollectionName, if_neg hnil, if_neg htake, if_neg hpath,
      if_pos (collectionRe_iff.mpr ⟨body, ⟨hne, hall⟩, hs⟩)]

/-! ## 2. Where names are checked -/

/-- A collection is stored under the name. -/
def HasCollection (state : State) (name : Str) : Prop :=
  Dict.contains (collectionsIn state) (.str name) = true

def AcceptedByApi (name : Str) : Prop := validateCollectionName (.str name) = .ok ()

/-- A file with such a collection can be loaded. -/
def AcceptedByLoad (rt : Runtime) (name : Str) : Prop :=
  ∃ now raw state, load rt now (.bytes raw) = .ok state ∧ HasCollection state name

/-- A state with such a collection can be committed. -/
def AcceptedByCommit (rt : Runtime) (name : Str) : Prop :=
  ∃ cp now state raw, commitBytes rt cp now state = .ok raw ∧ HasCollection state name

/-- A state that has passed the check on its shape has accepted names only. -/
theorem StateShape.acceptedByApi {r : Bool} {s : State} {fields collections : PyDict}
    (h : StateShape r s fields collections) {name : Str} (hc : HasCollection s name) :
    AcceptedByApi name := by
  obtain ⟨v, hv⟩ := Option.isSome_iff_exists.mp hc
  rw [collectionsIn, h.collectionsIs] at hv
  exact (h.shapes _ (Dict.mem_of_get hv)).1

/-- The empty state with one collection in it. -/
def oneCollection (now : DateTime) (d : PyVal) (name : Str) : State :=
  [(META, .dict (emptyMeta now d)), (COLLECTIONS, .dict [(.str name, .dict [])])]

theorem oneCollection_has (now : DateTime) (d : PyVal) (name : Str) :
    HasCollection (oneCollection now d name) name := by
  show (Dict.get [(PyKey.str name, PyVal.dict [])] (.str name)).isSome = true
  rw [Dict.get_cons_self]
  rfl

theorem oneCollection_rep (rt : Runtime) (now : DateTime) (d : PyVal) {name : Str}
    (h : AcceptedByApi name) : Rep rt (emptyState now d) (oneCollection now d name) := by
  refine ⟨[(.str name, .dict [])], rfl, List.nodup_singleton _, fun n v hm => ?_, fun n v hm => ?_⟩
  · cases List.mem_singleton.mp hm
    exact h
  · cases List.mem_singleton.mp hm
    exact ⟨[], rfl, .empty⟩

/-- **A name that the API accepts is committed and read back.** -/
theorem committed_and_loaded (rt : Runtime) (now : DateTime) {name : Str} (h : AcceptedByApi name) :
    AcceptedByCommit rt name ∧ AcceptedByLoad rt name := by
  obtain ⟨d, -, hload⟩ := loaded_empty rt now
  have hb := load_loaded hload
  have hr := oneCollection_rep rt now (.str d) h
  have hget : Dict.get (oneCollection now (.str d) name) COLLECTIONS =
      some (.dict [(.str name, .dict [])]) := rfl
  have hdocs {c docs : PyDict} {k : PyKey} (hc : Dict.get (oneCollection now (.str d) name)
      COLLECTIONS = some (.dict c)) (hm : (k, .dict docs) ∈ c) : docs = [] := by
    cases hc
    cases List.mem_singleton.mp hm
    rfl
  obtain ⟨p, b, hp, hdump⟩ := hr.committed hb (fun c k docs id document hc hm hd => by
    rw [hdocs hc hm] at hd
    cases hd) now
  have hcommit : commitBytes rt .total now (oneCollection now (.str d) name) = .ok b :=
    bind_ok.mpr ⟨p, hp, hdump⟩
  have hn : NoReservedId (oneCollection now (.str d) name) := fun c k docs hc hm => by
    rw [hdocs hc hm]
    rfl
  obtain ⟨w, hw, -⟩ := hr.load_commit hb hn hp hdump
  obtain ⟨c, c', hc, hc', hcw, hreads⟩ := hr.read_back hb hcommit hw
  cases hget.symm.trans hc
  obtain ⟨v, hv, -⟩ := hreads.get_left (everywhere_dict.mp hcw).1 (Dict.get_cons_self _ _ _)
  refine ⟨⟨.total, now, _, b, hcommit, oneCollection_has now (.str d) name⟩, now, b, w, hw, ?_⟩
  rw [HasCollection, collectionsIn, hc']
  exact Option.isSome_iff_exists.mpr ⟨v, hv⟩

/-- **Loading accepts the names that the API accepts.** -/
theorem acceptedByLoad_iff {rt : Runtime} {name : Str} :
    AcceptedByLoad rt name ↔ AcceptedByApi name := by
  refine ⟨fun h => ?_, fun h => (committed_and_loaded rt epoch h).2⟩
  obtain ⟨now, raw, state, hload, hc⟩ := h
  obtain ⟨fields, collections, hs⟩ := (load_loaded hload).shape
  exact hs.acceptedByApi hc

/-- **So does a commit.** -/
theorem acceptedByCommit_iff {rt : Runtime} {name : Str} :
    AcceptedByCommit rt name ↔ AcceptedByApi name := by
  refine ⟨fun h => ?_, fun h => (committed_and_loaded rt epoch h).1⟩
  obtain ⟨cp, now, state, raw, hcommit, hc⟩ := h
  obtain ⟨p, hp, -⟩ := bind_ok.mp hcommit
  obtain ⟨_, hshape, -⟩ := bind_ok.mp hp
  obtain ⟨s, fields, collections, e, hs⟩ := validateStateShape_ok.mp hshape
  cases e
  exact hs.acceptedByApi hc

/-! ## 3. The result -/

/-- A string on which all three checks agree with the schema. -/
structure NameExact (rt : Runtime) (name : Str) : Prop where
  api : AcceptedByApi name ↔ schemaPattern name = true
  load : AcceptedByLoad rt name ↔ schemaPattern name = true
  commit : AcceptedByCommit rt name ↔ schemaPattern name = true

/-- The name of the schema with a newline behind it. -/
def NewlineBehind (name : Str) : Prop := ∃ body, schemaPattern body = true ∧ name = body ++ [newline]

theorem newlineBehind_not_schema {name : Str} (h : NewlineBehind name) :
    ¬ schemaPattern name = true := by
  obtain ⟨body, -, rfl⟩ := h
  intro hs
  have hm : newline ∈ body ++ [newline] := List.mem_append_right _ List.mem_cons_self
  exact absurd ((schemaPattern_iff.mp hs).2.2 newline hm) (by decide)

theorem acceptedByApi_iff {name : Str} :
    AcceptedByApi name ↔ schemaPattern name = true ∨ NewlineBehind name := by
  rw [AcceptedByApi, validateCollectionName_iff]
  constructor
  · intro h
    obtain ⟨body, hb, rfl | rfl⟩ := h
    · exact Or.inl hb
    · exact Or.inr ⟨body, hb, rfl⟩
  · intro h
    rcases h with h | ⟨body, hb, rfl⟩
    · exact ⟨name, h, Or.inl rfl⟩
    · exact ⟨body, hb, Or.inr rfl⟩

/-- **The checks and the schema agree on a string iff it is not a name with a newline behind it.** -/
theorem names_exact (rt : Runtime) (name : Str) : NameExact rt name ↔ ¬ NewlineBehind name := by
  constructor
  · intro h hn
    exact newlineBehind_not_schema hn (h.api.mp (acceptedByApi_iff.mpr (Or.inr hn)))
  · intro hn
    have api : AcceptedByApi name ↔ schemaPattern name = true :=
      acceptedByApi_iff.trans (or_iff_left hn)
    exact ⟨api, acceptedByLoad_iff.trans api, acceptedByCommit_iff.trans api⟩

/-- `users` and a newline: committed, read back, and not a name of the schema. -/
theorem newline_accepted : AcceptedByApi (lit "users" ++ [newline]) ∧
    AcceptedByCommit interpreter (lit "users" ++ [newline]) ∧
    AcceptedByLoad interpreter (lit "users" ++ [newline]) ∧
    schemaPattern (lit "users" ++ [newline]) = false := by
  have h : AcceptedByApi (lit "users" ++ [newline]) := rfl
  exact ⟨h, (committed_and_loaded interpreter epoch h).1,
    (committed_and_loaded interpreter epoch h).2, by decide⟩

end JsonDatabase
