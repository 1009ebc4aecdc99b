/-
  File:      JsonDatabase/Published.lean
  Subject:   The published schema over the life of a file.

  The schema closes the top of a file and its meta block, and asks of every collection that its name
  has the published form. The library does not close them: it writes back what it found, and keeps
  what the schema does not allow until the next `init`. It lets one form of names pass that is not
  the published one.

  * `Framed`, `Framed.of_valid` -- what the schema says about the state that is loaded;
  * `described_iff` -- the names of the collections are a matter of their own;
  * `Tidy.described` -- one commit;
  * `Kept.framed` -- and back from a later state to an earlier one;
  * `published_schema` -- every interleaving.
-/
import JsonDatabase.Envelopes
import JsonDatabase.Metadata
import JsonDatabase.Schemas

namespace JsonDatabase

open PyVal hiding none
open Schema (Valid Invalid)
open Schemas (definitions)

/-- The content is described by the schema of files, with collection names of this pattern. -/
def Described (rt : Runtime) (names : Str → Bool) (raw : Bytes) : Prop :=
  ∃ j, parseBytes rt raw = .ok j ∧ Valid definitions (Schemas.database names) j

def anyName (_ : Str) : Bool := true

/-! ## 1. The state that is loaded -/

/-- The meta block as the schema has it: no other keys, and no other values that the loader lets
    pass, as `true` for the version. -/
structure FramedMeta (fields : PyDict) : Prop where
  keys : ∀ k v, (k, v) ∈ fields → ∃ name ∈ Schemas.metaKeys, k = .str name
  version : ∀ v, Dict.get fields VERSION_KEY = some v →
    v = .int VERSION ∨ ∃ x : FiniteFloat, v = .float (.finite x) ∧ x.isInt VERSION = true
  created : ∀ v, Dict.get fields CREATED_AT = some v → ∃ d, v = .datetime d

structure Framed (s : State) : Prop where
  keys : ∀ k v, (k, v) ∈ s → k = META ∨ k = COLLECTIONS
  fields : ∀ fields, Dict.get s META = some (.dict fields) → FramedMeta fields

theorem framed_emptyState (now : DateTime) (d : PyVal) : Framed (emptyState now d) := by
  refine ⟨fun k v hm => ?_, fun fields hf => ?_⟩
  · simp only [emptyState, List.mem_cons, List.not_mem_nil, or_false, Prod.mk.injEq] at hm
    exact hm.imp And.left And.left
  · cases hf
    refine ⟨fun k v hm => ?_, fun v hv => ?_, fun v hv => ?_⟩
    · simp only [emptyMeta, List.mem_cons, List.not_mem_nil, or_false, Prod.mk.injEq] at hm
      rcases hm with ⟨rfl, -⟩ | ⟨rfl, -⟩ | ⟨rfl, -⟩ | ⟨rfl, -⟩ | ⟨rfl, -⟩ <;>
        exact ⟨_, by simp [Schemas.metaKeys], rfl⟩
    · cases hv
      exact Or.inl rfl
    · cases hv
      exact ⟨now, rfl⟩

section Loaded

variable {rt : Runtime} {names : Str → Bool}

/-- What is decoded from a value that is one. -/
theorem decode_version {x : Json} {v : PyVal} (h : (Assertion.constInt VERSION).holds x = true)
    (hd : decode rt x = .ok v) :
    v = .int VERSION ∨ ∃ x : FiniteFloat, v = .float (.finite x) ∧ x.isInt VERSION = true := by
  cases x with
  | int i =>
    cases hd
    obtain rfl : i = VERSION := of_decide_eq_true h
    exact Or.inl rfl
  | float f =>
    cases hd
    cases f with
    | finite x => exact Or.inr ⟨x, rfl, h⟩
    | _ => cases h
  | _ => cases h

/-- An envelope with the tag of times is decoded to a time. -/
theorem decode_taggedDateTime {x : Json} {v : PyVal}
    (h : Valid definitions (.ref .taggedDateTime) x) (hd : decode rt x = .ok v) :
    ∃ d, v = .datetime d := by
  have h := Schema.valid_ref.mp h
  simp only [definitions, Schemas.tagged, Schemas.type, Schema.valid_allOf_cons, Schema.valid_assert,
    Schema.valid_properties] at h
  obtain ⟨htype, hrequired, hprops, -⟩ := h
  cases x with
  | obj kvs =>
    have hin : Dict.contains kvs TYPE_KEY = true := List.all_eq_true.mp hrequired _ (List.mem_cons_self ..)
    obtain ⟨t, ht⟩ := Option.isSome_iff_exists.mp hin
    have htag : (Assertion.constStr (lit "datetime")).holds t = true :=
      Schema.valid_assert.mp (hprops TYPE_KEY t (Dict.mem_of_get ht))
    cases t with
    | str t =>
      obtain rfl : t = lit "datetime" := of_decide_eq_true htag
      rw [decode, hin, if_pos rfl, ht] at hd
      unfold decodeTagged at hd
      simp only [if_pos] at hd
      split at hd
      · split at hd
        · cases hd
          exact ⟨_, rfl⟩
        · cases hd
      · cases hd
    | _ => cases htag
  | _ => cases htype

/-- **What the schema says about a file holds of the state that is loaded from it.** -/
theorem Framed.of_valid {j : Json} {s : State} (h : Valid definitions (Schemas.database names) j)
    (hd : decode rt j = .ok (.dict s)) : Framed s := by
  obtain ⟨kvs, rfl, -, hvs⟩ := decode_dict hd
  simp only [Schemas.database, Schemas.type, Schema.valid_allOf_cons, Schema.valid_assert,
    Schema.valid_properties] at h
  obtain ⟨-, -, hprops, -⟩ := h
  refine ⟨fun k v hm => ?_, fun fields hf => ?_⟩
  · obtain ⟨⟨k', x⟩, hx, hk, -⟩ := forall₂_mem_right hvs hm
    obtain rfl : k = .str k' := hk
    obtain ⟨schema, hs, -⟩ := (hprops k' x hx).closed
    simp only [List.mem_cons, List.not_mem_nil, or_false, Prod.mk.injEq] at hs
    rcases hs with ⟨rfl, -⟩ | ⟨rfl, -⟩
    · exact Or.inl rfl
    · exact Or.inr rfl
  · obtain ⟨⟨k', x⟩, hx, hk, hdx⟩ := forall₂_mem_right hvs (Dict.mem_of_get hf)
    obtain rfl : lit "meta" = k' := PyKey.str.inj hk
    have hmeta : Valid definitions Schemas.metaBlock x := hprops _ x hx
    obtain ⟨ms, rfl, -, hms⟩ := decode_dict hdx
    simp only [Schemas.metaBlock, Schemas.type, Schema.valid_allOf_cons, Schema.valid_assert,
      Schema.valid_properties] at hmeta
    obtain ⟨-, -, hfields, -⟩ := hmeta
    have hentry {name : Str} {v : PyVal} (hv : Dict.get fields (.str name) = some v) :
        ∃ x, (name, x) ∈ ms ∧ decode rt x = .ok v := by
      obtain ⟨⟨k', x⟩, hx, hk, hdx⟩ := forall₂_mem_right hms (Dict.mem_of_get hv)
      obtain rfl : name = k' := PyKey.str.inj hk
      exact ⟨x, hx, hdx⟩
    refine ⟨fun k v hm => ?_, fun v hv => ?_, fun v hv => ?_⟩
    · obtain ⟨⟨k', x⟩, hx, hk, -⟩ := forall₂_mem_right hms hm
      obtain ⟨schema, hs, -⟩ := (hfields k' x hx).closed
      refine ⟨k', ?_, hk⟩
      simp only [List.mem_cons, List.not_mem_nil, or_false, Prod.mk.injEq] at hs
      simp only [Schemas.metaKeys, List.mem_cons, List.not_mem_nil, or_false]
      exact hs.imp And.left (Or.imp And.left (Or.imp And.left (Or.imp And.left And.left)))
    · obtain ⟨x, hx, hdx⟩ := hentry hv
      exact decode_version (Schema.valid_assert.mp (hfields _ x hx)) hdx
    · obtain ⟨x, hx, hdx⟩ := hentry hv
      exact decode_taggedDateTime (hfields _ x hx) hdx

theorem Described.framed {raw : Bytes} {s : State} (h : Described rt names raw)
    (hload : loadBytes rt raw = .ok s) : Framed s := by
  obtain ⟨j, hj, hv⟩ := h
  obtain ⟨-, j', hj', -, hd, -⟩ := loadBytes_ok.mp hload
  cases hj.symm.trans hj'
  exact .of_valid hv hd

/-! ## 2. The names of collections -/

theorem valid_collections {x : Json} : Valid definitions (Schemas.collections names) x ↔
    Valid definitions (Schemas.collections anyName) x ∧ ∀ k v, (k, v) ∈ x.entries → names k = true := by
  simp only [Schemas.collections, Schema.valid_allOf_cons, Schema.valid_propertyNames,
    Schema.valid_assert, Assertion.holds, anyName]
  constructor
  · intro h
    obtain ⟨htype, hnames, hdocs⟩ := h
    exact ⟨⟨htype, fun _ _ _ => trivial, hdocs⟩, hnames⟩
  · intro h
    obtain ⟨⟨htype, -, hdocs⟩, hnames⟩ := h
    exact ⟨htype, hnames, hdocs⟩

theorem valid_database {kvs : Dict Str Json} : Valid definitions (Schemas.database names) (.obj kvs) ↔
    Valid definitions (Schemas.database anyName) (.obj kvs) ∧
      ∀ x, (lit "collections", x) ∈ kvs → ∀ k v, (k, v) ∈ x.entries → names k = true := by
  simp only [Schemas.database, Schema.valid_allOf_cons, Schema.valid_properties]
  have hother {names' : Str → Bool} {k : Str} (hk : k ≠ lit "collections") :
      Schema.property [(lit "meta", Schemas.metaBlock), (lit "collections", Schemas.collections names)]
        .never k = Schema.property [(lit "meta", Schemas.metaBlock),
          (lit "collections", Schemas.collections names')] .never k := by
    unfold Schema.property
    rw [Dict.get_cons, Dict.get_cons, Dict.get_cons, Dict.get_cons, if_neg hk.symm, if_neg hk.symm]
  constructor
  · intro h
    obtain ⟨htype, hrequired, hprops, hnil⟩ := h
    refine ⟨⟨htype, hrequired, fun k v hm => ?_, hnil⟩, fun x hx =>
      (valid_collections.mp (hprops _ x hx)).2⟩
    by_cases hk : k = lit "collections"
    · subst hk
      exact (valid_collections.mp (hprops _ v hm)).1
    · exact hother hk ▸ hprops k v hm
  · intro h
    obtain ⟨⟨htype, hrequired, hprops, hnil⟩, hnames⟩ := h
    refine ⟨htype, hrequired, fun k v hm => ?_, hnil⟩
    by_cases hk : k = lit "collections"
    · subst hk
      exact valid_collections.mpr ⟨hprops _ v hm, hnames v hm⟩
    · rw [hother hk]
      exact hprops k v hm

/-- The collections of a loaded state are those of the text. -/
theorem hasCollection_iff {kvs : Dict Str Json} {s : State} (hvs : List.Forall₂ (EntryDecodes rt) kvs s)
    (hs : Loaded rt s) {name : Str} : HasCollection s name ↔
      ∃ x v, (lit "collections", x) ∈ kvs ∧ (name, v) ∈ x.entries := by
  obtain ⟨fields, c, hshape⟩ := hs.shape
  have hc : HasCollection s name ↔ PyKey.str name ∈ Dict.keys c := by
    rw [HasCollection, collectionsIn, hshape.collectionsIs]
    exact Dict.get_isSome_iff
  have hkeys {x : Json} (hx : decode rt x = .ok (.dict c)) :
      PyKey.str name ∈ Dict.keys c ↔ ∃ v, (name, v) ∈ x.entries := by
    obtain ⟨xs, rfl, -, hxs⟩ := decode_dict hx
    rw [keys_decoded hxs, List.mem_map_of_injective str_injective]
    refine List.mem_map.trans ⟨fun h => ?_, fun h => ?_⟩
    · obtain ⟨⟨k, v⟩, hv, rfl⟩ := h
      exact ⟨v, hv⟩
    · obtain ⟨v, hv⟩ := h
      exact ⟨(name, v), hv, rfl⟩
  rw [hc]
  constructor
  · intro h
    obtain ⟨⟨k, x⟩, hx, hk, hdx⟩ := forall₂_mem_right hvs (Dict.mem_of_get hshape.collectionsIs)
    obtain rfl : lit "collections" = k := PyKey.str.inj hk
    obtain ⟨v, hv⟩ := (hkeys hdx).mp h
    exact ⟨x, v, hx, hv⟩
  · intro h
    obtain ⟨x, v, hx, hv⟩ := h
    obtain ⟨⟨k, w⟩, hw, hk, hdx⟩ := forall₂_mem_left hvs hx
    obtain rfl : k = COLLECTIONS := hk
    cases (Dict.get_of_mem (everywhere_dict.mp hs.decoded.wf).1 hw).symm.trans hshape.collectionsIs
    exact (hkeys hdx).mpr ⟨v, hv⟩

/-- **A file that is loaded** is described by the schema iff it is but for the names of its
    collections, and they have the form that is asked for. -/
theorem described_iff {raw : Bytes} {s : State} (h : loadBytes rt raw = .ok s) :
    Described rt names raw ↔
      Described rt anyName raw ∧ ∀ name, HasCollection s name → names name = true := by
  obtain ⟨-, j, hj, -, hd, -, -⟩ := loadBytes_ok.mp h
  obtain ⟨kvs, rfl, -, hvs⟩ := decode_dict hd
  have hdescribed (names : Str → Bool) :
      Described rt names raw ↔ Valid definitions (Schemas.database names) (.obj kvs) := by
    refine ⟨fun h => ?_, fun hv => ⟨_, hj, hv⟩⟩
    obtain ⟨j, hj', hv⟩ := h
    cases hj.symm.trans hj'
    exact hv
  rw [hdescribed, hdescribed, valid_database]
  refine and_congr_right fun _ => ⟨fun hnames name hn => ?_, fun hnames x hx k v hv => ?_⟩
  · obtain ⟨x, v, hx, hv⟩ := (hasCollection_iff hvs (loadBytes_loaded h)).mp hn
    exact hnames x hx name v hv
  · exact hnames k ((hasCollection_iff hvs (loadBytes_loaded h)).mpr ⟨x, v, hx, hv⟩)

end Loaded

/-! ## 3. One commit -/

section Commits

variable {rt : Runtime}

/-- What is in the encoded dictionary under a key. -/
theorem entry_of_encoded {d : PyDict} {es : Dict Str Json} (hes : List.Forall₂ (EntryEncodes rt) d es)
    (hd : Dict.Distinct d) {k : Str} {w : Json} (hm : (k, w) ∈ es) :
    ∃ v, Dict.get d (.str k) = some v ∧ encode rt v = .ok w := by
  obtain ⟨⟨k', v⟩, hv, hk, he⟩ := forall₂_mem_right hes hm
  obtain rfl : k' = .str k := hk
  exact ⟨v, Dict.get_of_mem hd hv, he⟩

theorem required_encoded {d : PyDict} {es : Dict Str Json} (hes : List.Forall₂ (EntryEncodes rt) d es)
    {ks : List Str} (h : ∀ k ∈ ks, (Dict.get d (.str k)).isSome = true) :
    Valid definitions (.assert (.required ks)) (.obj es) := by
  refine .assert (List.all_eq_true.mpr fun k hk => ?_)
  rw [← contains_encoded hes]
  exact h k hk

theorem datetime_valid (d : DateTime) {e : Json} (he : encode rt (.datetime d) = .ok e) :
    Valid definitions (.ref .taggedDateTime) e := by
  cases he
  exact .ref (Schemas.tagged_valid (.assert rfl))

/-- What the meta block holds that a commit writes. -/
theorem MetaShape.get_stamped {fields : PyDict} (hs : MetaShape fields) (now : DateTime) (d : Str)
    (k : PyKey) : Dict.get (Dict.put (stampMeta now fields) CONTENT_SHA256 (.str d)) k =
      if CONTENT_SHA256 = k then some (.str d)
      else if UPDATED_AT = k then some (.datetime now)
      else if CREATED_AT = k then some ((Dict.get fields CREATED_AT).getD (.datetime now))
      else Dict.get fields k := by
  rw [Dict.get_put]
  by_cases h1 : CONTENT_SHA256 = k
  · rw [if_pos h1, if_pos h1]
  · rw [if_neg h1, if_neg h1]
    by_cases h2 : UPDATED_AT = k
    · rw [if_pos h2, get_stampMeta, if_neg h1, if_pos h2]
    · rw [if_neg h2]
      by_cases h3 : CREATED_AT = k
      · rw [if_pos h3, get_stampMeta, if_neg h1, if_neg h2, if_pos h3]
      · rw [if_neg h3, hs.get_stamp now (Ne.symm h3) (Ne.symm h2) (Ne.symm h1)]

theorem MetaShape.stamped_isSome {fields : PyDict} (hs : MetaShape fields) (now : DateTime) (d : Str) :
    ∀ name ∈ Schemas.metaKeys, (Dict.get (Dict.put (stampMeta now fields) CONTENT_SHA256 (.str d))
      (.str name)).isSome = true := by
  obtain ⟨v, hv⟩ := hs.version_isSome
  intro name hm
  rw [hs.get_stamped]
  split
  · rfl
  · rename_i h1
    split
    · rfl
    · rename_i h2
      split
      · rfl
      · rename_i h3
        simp only [Schemas.metaKeys, List.mem_cons, List.not_mem_nil, or_false] at hm
        rcases hm with rfl | rfl | rfl | rfl | rfl
        · exact Option.isSome_iff_exists.mpr ⟨_, hs.format⟩
        · exact Option.isSome_iff_exists.mpr ⟨v, hv⟩
        · exact absurd rfl h3
        · exact absurd rfl h2
        · exact absurd rfl h1

theorem version_valid {v : PyVal} {e : Json} (h : v = .int VERSION ∨
    ∃ x : FiniteFloat, v = .float (.finite x) ∧ x.isInt VERSION = true) (he : encode rt v = .ok e) :
    Valid definitions (.assert (.constInt VERSION)) e := by
  rcases h with rfl | ⟨x, rfl, hx⟩
  · cases he
    exact .assert rfl
  · cases he
    exact .assert hx

/-- **The meta block that a commit writes.** -/
theorem FramedMeta.valid {fields : PyDict} (hf : FramedMeta fields) (hs : MetaShape fields)
    {now : DateTime} {d : Str} (hsha : Schemas.sha256Pattern d = true)
    (hd : Dict.Distinct (Dict.put (stampMeta now fields) CONTENT_SHA256 (.str d))) {e : Json}
    (he : encode rt (.dict (Dict.put (stampMeta now fields) CONTENT_SHA256 (.str d))) = .ok e) :
    Valid definitions Schemas.metaBlock e := by
  obtain ⟨es, hes, rfl⟩ := encode_dict_ok.mp he
  refine .also (.assert rfl) (.both (required_encoded hes (hs.stamped_isSome now d))
    (.properties fun k w hm => ?_))
  obtain ⟨v, hv, hvw⟩ := entry_of_encoded hes hd hm
  rw [hs.get_stamped] at hv
  split at hv
  · rename_i h1
    cases h1
    cases hv
    cases hvw
    exact .both (.assert rfl) (.assert hsha)
  · rename_i h1
    split at hv
    · rename_i h2
      cases h2
      cases hv
      exact datetime_valid now hvw
    · rename_i h2
      split at hv
      · rename_i h3
        cases h3
        cases hv
        obtain ⟨t, ht⟩ : ∃ t, (Dict.get fields CREATED_AT).getD (.datetime now) = .datetime t := by
          cases hc : Dict.get fields CREATED_AT with
          | none => exact ⟨now, rfl⟩
          | some v => exact hf.created v hc
        rw [ht] at hvw
        exact datetime_valid t hvw
      · rename_i h3
        obtain ⟨name, hn, e⟩ := hf.keys _ _ (Dict.mem_of_get hv)
        obtain rfl := PyKey.str.inj e
        simp only [Schemas.metaKeys, List.mem_cons, List.not_mem_nil, or_false] at hn
        rcases hn with rfl | rfl | rfl | rfl | rfl
        · cases hs.format.symm.trans hv
          cases hvw
          exact .assert (decide_eq_true (rfl : FORMAT = lit "json_database"))
        · exact version_valid (hf.version v hv) hvw
        · exact absurd rfl h3
        · exact absurd rfl h2
        · exact absurd rfl h1

/-- **The collections that a commit writes.** -/
theorem GoodCollections.described {c : PyDict} (hg : GoodCollections rt c) {e : Json}
    (he : encode rt (.dict c) = .ok e) : Valid definitions (Schemas.collections anyName) e := by
  obtain ⟨es, hes, rfl⟩ := encode_dict_ok.mp he
  refine .also (.assert rfl) (.both (.propertyNames fun _ _ _ => .assert rfl)
    (.properties fun k w hm => ?_))
  obtain ⟨⟨k', v⟩, hv, -, hvw⟩ := forall₂_mem_right hes hm
  obtain ⟨docs, rfl, hdocs⟩ := hg.good k' v hv
  obtain ⟨ds, hds, rfl⟩ := encode_dict_ok.mp hvw
  have hentry {id : Str} {document : Json} (hm : (id, document) ∈ ds) :
      ∃ v, GoodDoc rt (.str id) v ∧ encode rt v = .ok document := by
    obtain ⟨⟨k', v⟩, hv, hk, he⟩ := forall₂_mem_right hds hm
    obtain rfl : k' = .str id := hk
    exact ⟨v, hdocs.good _ _ hv, he⟩
  refine .also (.assert rfl) (.both (.propertyNames fun id document hm => ?_)
    (.properties fun id document hm => ?_))
  · obtain ⟨v, hgood, -⟩ := hentry hm
    obtain ⟨id', fields, e, hid, -⟩ := hgood.shape
    cases e
    exact Schemas.nonEmpty_valid hid
  · obtain ⟨v, hgood, he⟩ := hentry hm
    exact document_valid hgood he

variable (hsha : ∀ b, Schemas.sha256Pattern (rt.sha256 b) = true)
include hsha

/-- **What a commit writes** is described by the schema, but for the names of collections, if the
    schema had something to say about what was loaded. -/
theorem Tidy.described {base s : State} (hb : Loaded rt base) (hf : Framed base) (h : Tidy rt base s)
    {cp : Copier} {now : DateTime} {data : Bytes} (hc : commitBytes rt cp now s = .ok data) :
    Described rt anyName data := by
  obtain ⟨p, hp, hdump⟩ := bind_ok.mp hc
  obtain ⟨fields, c, hs, hg⟩ := h.rep.shape hb
  obtain ⟨-, d, hd, rfl⟩ := (prepareForCommit_ok hs).mp hp
  have hpw := putClosed_wf.prepared (h.rep.wf hb) hs.metaIs now (computeChecksum_ascii hd)
  rw [prepared_eq_put] at hpw hdump
  obtain ⟨b, -, rfl⟩ := computeChecksum_ok.mp hd
  obtain ⟨e, he, hj, hsc, rfl⟩ := dumpBytes_ok.mp hdump
  refine ⟨Json.sortKeys e, parseBytes_textBytes (Json.distinct_sortKeys (distinct_encode hpw he))
    (by rw [Json.dumpable_sortKeys, hj]) (by rw [Json.scalar_sortKeys, hsc]), Valid.sortKeys ?_⟩
  have hpd := (everywhere_dict.mp hpw).1
  have hmd := (everywhere_dict.mp (putClosed_wf.get hpw (Dict.get_put_self _ _ _))).1
  have hfm := hf.fields fields (by rw [← h.rep.frame collections_ne_meta.symm]; exact hs.metaIs)
  have hcollections : Dict.get (Dict.put s META (.dict (Dict.put (stampMeta now fields) CONTENT_SHA256
      (.str (rt.sha256 b))))) COLLECTIONS = some (.dict c) := by
    rw [Dict.get_put_ne _ collections_ne_meta.symm]
    exact hs.collectionsIs
  obtain ⟨es, hes, rfl⟩ := encode_dict_ok.mp he
  refine .also (.assert rfl) (.both (required_encoded hes fun k hk => ?_)
    (.properties fun k w hm => ?_))
  · simp only [List.mem_cons, List.not_mem_nil, or_false] at hk
    rcases hk with rfl | rfl
    · exact Option.isSome_iff_exists.mpr ⟨_, Dict.get_put_self _ META _⟩
    · exact Option.isSome_iff_exists.mpr ⟨_, hcollections⟩
  · obtain ⟨v, hv, hvw⟩ := entry_of_encoded hes hpd hm
    by_cases hkm : PyKey.str k = META
    · obtain rfl : k = lit "meta" := PyKey.str.inj hkm
      cases (Dict.get_put_self _ META _).symm.trans hv
      exact hfm.valid hs.metaShape (hsha b) hmd hvw
    · by_cases hkc : PyKey.str k = COLLECTIONS
      · obtain rfl : k = lit "collections" := PyKey.str.inj hkc
        cases hcollections.symm.trans hv
        exact hg.described hvw
      · rw [Dict.get_put_ne _ (Ne.symm hkm), h.rep.frame hkc] at hv
        exact ((hf.keys _ v (Dict.mem_of_get hv)).elim hkm hkc).elim

/-! ## 4. Every interleaving -/

omit hsha in
theorem Framed.of_load {names : Str → Bool} {content : Option Bytes}
    (h : ∀ raw, content = some raw → Described rt names raw) {t : DateTime} {base : State}
    (hload : load rt t (onDisk content) = .ok base) : Framed base := by
  cases content with
  | none =>
    obtain ⟨d, -, rfl⟩ := makeEmptyState_ok.mp hload
    exact framed_emptyState t (.str d)
  | some raw => exact (h raw rfl).framed hload

variable {cp : Copier} {file : Option Bytes} {s : System}

/-- A commit that is made from a framed state. -/
theorem System.Runs.commit_described (h : System.Runs rt cp (Job.Library rt) (.start file) s) {n : Nat}
    {c : Commit} (hc : s.log[n]? = some c) (hf : ∀ t base,
      load rt t (onDisk (fileAfter file (s.log.take n))) = .ok base → Framed base) :
    Described rt anyName c.data := by
  obtain ⟨hcommit, -⟩ := (reachable_inv h.reachable).replay.commit_at hc
  obtain ⟨t, now, base, s', hload, ht, hbytes⟩ := (h.log.1 c (List.mem_of_getElem? hc)).commits hcommit
  have hbase : Framed base := by
    cases hj : c.job with
    | createEmpty force =>
      rw [hj] at hload
      exact @Framed.of_load rt anyName none nofun t base hload
    | _ =>
      rw [hj] at hload
      exact hf t base hload
  exact ht.described hsha (load_loaded hload) hbase hbytes

theorem System.Runs.described (h : System.Runs rt cp (Job.Library rt) (.start file) s)
    (hfile : ∀ raw, file = some raw → Described rt anyName raw) :
    ∀ n raw, fileAfter file (s.log.take n) = some raw → Described rt anyName raw := by
  have hreplay := (reachable_inv h.reachable).replay
  intro n
  induction n with
  | zero =>
    intro raw hraw
    exact hfile raw hraw
  | succ n ih =>
    intro raw hraw
    cases hc : s.log[n]? with
    | none =>
      rw [List.take_add_one, hc, Option.toList_none, List.append_nil] at hraw
      exact ih raw hraw
    | some c =>
      cases (hreplay.commit_at hc).2.symm.trans hraw
      exact h.commit_described hsha hc fun t base hload => .of_load ih hload

omit hsha in
/-- The names that are loaded have the published form, or a newline behind it. -/
theorem described_names {raw : Bytes} {state : State} (hload : loadBytes rt raw = .ok state) :
    Described rt schemaPattern raw ↔
      Described rt anyName raw ∧ ∀ name, HasCollection state name → ¬ NewlineBehind name := by
  obtain ⟨fields, collections, hshape⟩ := (loadBytes_loaded hload).shape
  rw [described_iff hload]
  refine and_congr_right fun _ => forall₂_congr fun name hn =>
    ⟨fun hs hnew => newlineBehind_not_schema hnew hs, fun hnew => ?_⟩
  exact (acceptedByApi_iff.mp (hshape.acceptedByApi hn)).resolve_right hnew

omit hsha in
/-- What is framed at last was framed before. -/
theorem Kept.framed {u w : State} (h : Kept u w) (hf : Framed w) : Framed u := by
  have found {d d' : PyDict} {k : PyKey} {v : PyVal} (hr : Option.Rel Same (Dict.get d k) (Dict.get d' k))
      (hv : Dict.get d k = some v) : ∃ v', Dict.get d' k = some v' ∧ Same v v' := by
    rw [hv] at hr
    generalize Dict.get d' k = o at hr ⊢
    cases hr with
    | some h => exact ⟨_, rfl, h⟩
  obtain ⟨f, f', hu, hw, hrest, hcreated⟩ := h.fields
  have hf' := hf.fields f' hw
  refine ⟨fun k v hm => ?_, fun fields hfields => ?_⟩
  · by_contra hne
    obtain ⟨hmeta, hcollections⟩ := not_or.mp hne
    obtain ⟨x, hx⟩ := Option.isSome_iff_exists.mp (Dict.get_isSome_iff.mpr (Dict.mem_keys_of_mem hm))
    obtain ⟨x', hx', -⟩ := found (h.top k hmeta hcollections) hx
    exact hne (hf.keys k x' (Dict.mem_of_get hx'))
  · cases hu.symm.trans hfields
    refine ⟨fun k v hm => ?_, fun v hv => ?_, fun v hv => ?_⟩
    · by_cases hstamp : k = CREATED_AT ∨ k = UPDATED_AT ∨ k = CONTENT_SHA256
      · rcases hstamp with rfl | rfl | rfl
        · exact ⟨lit "created_at", by simp [Schemas.metaKeys], rfl⟩
        · exact ⟨lit "updated_at", by simp [Schemas.metaKeys], rfl⟩
        · exact ⟨lit "content_sha256", by simp [Schemas.metaKeys], rfl⟩
      · obtain ⟨h1, h2, h3⟩ : k ≠ CREATED_AT ∧ k ≠ UPDATED_AT ∧ k ≠ CONTENT_SHA256 := by
          simpa only [not_or] using hstamp
        obtain ⟨x, hx⟩ := Option.isSome_iff_exists.mp (Dict.get_isSome_iff.mpr (Dict.mem_keys_of_mem hm))
        obtain ⟨x', hx', -⟩ := found (hrest k h1 h2 h3) hx
        exact hf'.keys k x' (Dict.mem_of_get hx')
    · obtain ⟨v', hv', hs⟩ := found (hrest VERSION_KEY (by decide) (by decide) (by decide)) hv
      rcases hf'.version v' hv' with rfl | ⟨x, rfl, hx⟩
      · exact Or.inl (hs.symm.atom rfl)
      · exact Or.inr ⟨x, hs.symm.atom rfl, hx⟩
    · obtain ⟨v', hv', hs⟩ := hcreated v hv
      obtain ⟨t, rfl⟩ := hf'.created v' hv'
      exact ⟨t, hs.symm.atom rfl⟩

/-- Nothing but `init` mends the frame of a file, and no commit breaks it. -/
theorem System.Runs.described_iff_framed (h : System.Runs rt cp (Job.Library rt) (.start file) s)
    (hfile : Readable rt (onDisk file)) {n m : Nat} (hnm : n < m) (hm : m ≤ s.log.length)
    (hinit : ∀ i c, n ≤ i → i < m → s.log[i]? = some c → ∀ force, c.job ≠ .createEmpty force)
    {raw raw' : Bytes} {state state' : State} (hraw : fileAfter file (s.log.take n) = some raw)
    (hraw' : fileAfter file (s.log.take m) = some raw') (hstate : loadBytes rt raw = .ok state)
    (hstate' : loadBytes rt raw' = .ok state') : Described rt anyName raw' ↔ Framed state := by
  have hreplay := (reachable_inv h.reachable).replay
  refine ⟨fun hd => ?_, fun hf => ?_⟩
  · have hkept := h.kept_between hfile (Nat.le_of_lt hnm) hinit hraw hraw' hstate hstate'
    exact hkept.framed (hd.framed hstate')
  · have hall (k : Nat) (hk : n ≤ k) : ∀ c, s.log[k]? = some c → Described rt anyName c.data := by
      induction k, hk using Nat.le_induction with
      | base =>
        intro c hc
        refine h.commit_described hsha hc fun t base hload => ?_
        rw [hraw] at hload
        obtain rfl : state = base := Except.ok.inj (Eq.trans hstate.symm hload)
        exact hf
      | succ k _ ih =>
        intro c hc
        have hlt := (List.getElem?_eq_some_iff.mp hc).1
        have hprev := List.getElem?_eq_getElem (Nat.lt_of_succ_lt hlt)
        have hdescribed : ∀ raw, fileAfter file (s.log.take (k + 1)) = some raw →
            Described rt anyName raw := by
          intro raw hr
          cases (hreplay.commit_at hprev).2.symm.trans hr
          exact ih _ hprev
        exact h.commit_described hsha hc fun t base hload => .of_load hdescribed hload
    obtain ⟨k, rfl⟩ := Nat.exists_eq_succ_of_ne_zero (Nat.ne_of_gt (Nat.zero_lt_of_lt hnm))
    have hlast := List.getElem?_eq_getElem (Nat.lt_of_succ_le hm)
    cases (hreplay.commit_at hlast).2.symm.trans hraw'
    exact hall k (Nat.le_of_lt_succ hnm) _ hlast

/-- **The published schema describes what the library writes.** If there was no file, or one that is
    described but for the names of its collections, then in every interleaving of the clients each
    content that the path has had is described exactly if no collection in it has a name with a
    newline behind it. From any other file, what is committed is described, the names apart, exactly
    if the state was framed in any content before it and there was no `init` between them. -/
theorem published_schema (h : System.Runs rt cp (Job.Library rt) (.start file) s) :
    ((∀ raw, file = some raw → Described rt anyName raw) →
      ∀ raw state, (s.world.file = some raw ∨ ∃ n, fileAfter file (s.log.take n) = some raw) →
        loadBytes rt raw = .ok state →
          (Described rt schemaPattern raw ↔ ∀ name, HasCollection state name → ¬ NewlineBehind name)) ∧
    (Readable rt (onDisk file) → ∀ n m, n < m → m ≤ s.log.length →
      (∀ i c, n ≤ i → i < m → s.log[i]? = some c → ∀ force, c.job ≠ .createEmpty force) →
      ∀ raw raw' state state', fileAfter file (s.log.take n) = some raw →
        fileAfter file (s.log.take m) = some raw' → loadBytes rt raw = .ok state →
          loadBytes rt raw' = .ok state' → (Described rt schemaPattern raw' ↔
            Framed state ∧ ∀ name, HasCollection state' name → ¬ NewlineBehind name)) := by
  refine ⟨fun hfile raw state hraw hload => ?_, fun hfile n m hnm hm hinit raw raw' state state' hraw
    hraw' hstate hstate' => ?_⟩
  · have hdescribed : Described rt anyName raw := by
      rcases hraw with hraw | ⟨n, hraw⟩
      · refine h.described hsha hfile s.log.length raw ?_
        rw [List.take_length, ← (reachable_inv h.reachable).current, hraw]
      · exact h.described hsha hfile n raw hraw
    rw [described_names hload, and_iff_right hdescribed]
  · rw [described_names hstate',
      h.described_iff_framed hsha hfile hnm hm hinit hraw hraw' hstate hstate']

end Commits

theorem sha256Pattern_hexdigest (message : Bytes) :
    Schemas.sha256Pattern (Sha256.hexdigest message) = true := by
  refine Bool.and_eq_true_iff.mpr ⟨decide_eq_true (Sha256.length_hexdigest message),
    List.all_eq_true.mpr fun c hc => Bool.or_eq_true_iff.mpr ?_⟩
  exact (Sha256.hexdigest_hex hc).imp_left decide_eq_true

/-- The database of two clients has a collection with two documents, and is described. -/
theorem two_clients_described : ∃ s raw state,
    System.Runs interpreter .total (Job.Library interpreter) (.start none) s ∧
    s.world.file = some raw ∧ loadBytes interpreter raw = .ok state ∧
    (∀ name, HasCollection state name ↔ name = lit "users") ∧
    (∃ docs, allDocuments .total state (.str (lit "users")) = .ok docs ∧ docs.length = 2) ∧
    Described interpreter schemaPattern raw := by
  obtain ⟨state, c, docs, hload, hc, hone, husers, hdocs, hlen⟩ := afterTwoClients_file
  cases hraw : afterTwoClients.world.file with
  | none =>
    obtain ⟨c₀, c₁, c₂, hlog, -⟩ := afterTwoClients_log
    rw [(reachable_inv afterTwoClients_reachable).current, hlog] at hraw
    cases hraw
  | some raw =>
    rw [hraw] at hload
    obtain ⟨entry, rfl⟩ := List.length_eq_one_iff.mp hone
    have hin : collectionsIn state = [entry] := by
      rw [collectionsIn, get_of_collectionsOf hc (List.mem_singleton.mpr rfl)]
    have hnames (name : Str) : HasCollection state name ↔ name = lit "users" := by
      rw [HasCollection, hin]
      refine ⟨fun hname => ?_, fun e => e ▸ husers⟩
      have hkey := List.mem_singleton.mp (Dict.get_isSome_iff.mp hname)
      exact PyKey.str.inj (hkey.trans (List.mem_singleton.mp (Dict.get_isSome_iff.mp husers)).symm)
    refine ⟨_, raw, state, afterTwoClients_runs, hraw, hload, hnames, ⟨docs, hdocs, hlen⟩, ?_⟩
    refine ((published_schema sha256Pattern_hexdigest afterTwoClients_runs).1
      (fun _ h => absurd h.symm (Option.some_ne_none _)) raw state (Or.inl hraw) hload).mpr
        fun name hname => ?_
    rw [(hnames name).mp hname]
    exact fun hn => newlineBehind_not_schema hn (by decide)

end JsonDatabase
