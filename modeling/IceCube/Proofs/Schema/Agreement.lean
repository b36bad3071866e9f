import IceCube.Proofs.Cache
import IceCube.Proofs.Schema.Described

/-!
# The published schema of cache files and the check of caches

A cache is checked by a check for each field, and its schema is published from a description of the
same fields.  Each check passes what the description of its field accepts, so a text whose objects
have no two members of one name is read as a cache exactly if its document is valid under the
schema.
-/

namespace IceCube

/-! ## Distinct names -/

/-- No object in a document has two members of one name. -/
inductive Json.Distinct : Json → Prop where
  | null : Distinct .null
  | bool (b : Bool) : Distinct (.bool b)
  | int (i : ℤ) : Distinct (.int i)
  | float (x : Number.Binary64) : Distinct (.float x)
  | str (s : String) : Distinct (.str s)
  | arr {vs : List Json} (hvalues : ∀ v ∈ vs, v.Distinct) : Distinct (.arr vs)
  | obj {ms : List (String × Json)} (hnames : (Table.keys ms).Nodup)
      (hvalues : ∀ m ∈ ms, m.2.Distinct) : Distinct (.obj ms)

theorem Json.distinct_obj_iff {ms : List (String × Json)} :
    (Json.obj ms).Distinct ↔ (Table.keys ms).Nodup ∧ ∀ m ∈ ms, m.2.Distinct := by
  constructor
  · rintro (_ | _ | _ | _ | _ | _ | ⟨hnames, hvalues⟩)
    exact ⟨hnames, hvalues⟩
  · rintro ⟨hnames, hvalues⟩
    exact .obj hnames hvalues

/-- The names in the document of a cache are distinct where those of its components are. -/
theorem Cache.distinct_toJson {c : Cache} (h : (Table.keys c.components).Nodup) :
    c.toJson.Distinct := by
  have htext (s : Option String) : (Json.ofText? s).Distinct := by
    cases s with
    | none => exact .null
    | some s => exact .str s
  have hmembers (c : CachedComponent) : (Json.obj c.members).Distinct := by
    simp [Json.distinct_obj_iff, CachedComponent.members, Table.keys, htext, Json.Distinct.str]
  have hkeys : Table.keys (c.components.map fun e ↦ (e.1, Json.obj e.2.members)) =
      Table.keys c.components := by
    simp [Table.keys, Function.comp_def]
  have hcomponents : (Json.obj (c.components.map fun e ↦ (e.1, .obj e.2.members))).Distinct := by
    refine .obj (by rwa [hkeys]) ?_
    rw [List.forall_mem_map]
    intro e _
    exact hmembers e.2
  simp [Cache.toJson, Json.distinct_obj_iff, Table.keys, Json.Distinct.str, hcomponents]

namespace Schema

variable {α β : Type} {v : Json} {ms : List (String × Json)}

/-- The members of an object, as checks see them. -/
abbrev Members.ofObj (ms : List (String × Json)) : Members Json := ms.map fun m ↦ (.text m.1, m.2)

/-! ## Checks that pass -/

/-- There are no issues. -/
def Verdict.Good (v : Verdict α) : Prop := ∃ a, v = .good a

namespace Verdict

theorem good_map_iff {f : α → β} {v : Verdict α} : (v.map f).Good ↔ v.Good := by
  cases v <;> simp [Good, map]

theorem good_both_iff {f : Verdict (α → β)} {v : Verdict α} :
    (f.both v).Good ↔ f.Good ∧ v.Good := by
  cases f <;> cases v <;> simp [Good, both]

theorem good_functor_iff {f : α → β} {v : Verdict α} : (f <$> v).Good ↔ v.Good := good_map_iff

theorem good_seq_iff {f : Verdict (α → β)} {v : Verdict α} : (f <*> v).Good ↔ f.Good ∧ v.Good :=
  good_both_iff

theorem good_below_iff {step : Step} {v : Verdict α} : (v.below step).Good ↔ v.Good := by
  cases v <;> simp [Good, below]

theorem good_all_iff {vs : List (Verdict α)} : (all vs).Good ↔ ∀ v ∈ vs, v.Good := by
  induction vs with
  | nil => simp [Good, all]
  | cons v vs ih => rw [all, good_both_iff, good_map_iff, ih, List.forall_mem_cons]

end Verdict

theorem good_text_iff : (text v).Good ↔ ∃ s, v = .str s := by
  cases v <;> simp [Verdict.Good, text, Document.shape, ofJson, Verdict.broken]

theorem good_nonempty_iff : (nonempty v).Good ↔ ∃ s, v = .str s ∧ s ≠ "" := by
  cases v with
  | str s => simp [Verdict.Good, nonempty_str_iff]
  | _ => simp [Verdict.Good, nonempty, text, Document.shape, ofJson, Verdict.broken,
      Verdict.andThen]

theorem good_digest_iff : (digest v).Good ↔ ∃ s, v = .str s ∧ isDigest s = true := by
  cases v with
  | str s => simp [Verdict.Good, digest_str_iff]
  | _ => simp [Verdict.Good, digest, matching, text, Document.shape, ofJson, Verdict.broken,
      Verdict.andThen]

theorem good_nullable_iff {check : Json → Verdict α} :
    (nullable check v).Good ↔ (check v).Good ∨ v = .null := by
  cases v with
  | null => simp [Verdict.Good, nullable, Document.shape, ofJson]
  | _ => simp [nullable, Document.shape, ofJson, Verdict.good_map_iff]

theorem good_table_iff {w : Wording} {check : Json → Verdict α} :
    (table w check v).Good ↔ ∃ ms, v = .obj ms ∧ ∀ m ∈ ms, (check m.2).Good := by
  cases v with
  | obj ms =>
    have hkey (name : String) : (keyText (.text name)).Good := ⟨name, rfl⟩
    simp only [table, Document.shape, ofJson, Verdict.good_map_iff, Verdict.good_all_iff,
      List.forall_mem_map, Verdict.good_both_iff, Verdict.good_below_iff, hkey, true_and,
      Json.obj.injEq, exists_eq_left']
  | _ => simp [Verdict.Good, table, Document.shape, ofJson, Verdict.broken]

theorem good_required_iff {members : Members Json} {name : String} {check : Json → Verdict α} :
    (required members name check).Good ↔ ∃ d, members.find? name = some d ∧ (check d).Good := by
  cases hfind : members.find? name with
  | none => simp [Verdict.Good, required, hfind]
  | some d => simp [required, hfind, Verdict.good_below_iff]

theorem good_optional_iff {members : Members Json} {name : String} {default : α}
    {check : Json → Verdict α} : (optional members name default check).Good ↔
      ∀ d, members.find? name = some d → (check d).Good := by
  cases hfind : members.find? name with
  | none => simp [Verdict.Good, optional, hfind]
  | some d => simp [optional, hfind, Verdict.good_below_iff]

theorem good_only_iff {names : List String} :
    (only (.ofObj ms) names).Good ↔ ∀ name ∈ Table.keys ms, name ∈ names := by
  have hgood : (only (.ofObj ms) names).Good ↔
      (Members.ofObj ms).filterMap (fun m ↦ undeclared? names m.1) = [] := by
    rw [only]
    generalize (Members.ofObj ms).filterMap _ = issues
    cases issues <;> simp [Verdict.Good]
  rw [hgood, List.filterMap_eq_nil_iff, List.forall_mem_map, Table.keys, List.forall_mem_map]
  simp [undeclared?]

theorem good_record_iff {w : Wording} {name : String} {names : List String}
    {fields : Members Json → Verdict α} : (record w name names fields v).Good ↔
      ∃ ms, v = .obj ms ∧ (fields (.ofObj ms)).Good ∧ ∀ name ∈ Table.keys ms, name ∈ names := by
  cases v with
  | obj ms =>
    simp only [record, Document.shape, ofJson, Verdict.good_both_iff, Verdict.good_map_iff,
      good_only_iff, Json.obj.injEq, exists_eq_left']
  | _ => simp [Verdict.Good, record, Document.shape, ofJson, Verdict.broken]

/-- The last member of a name is its only one where names are distinct. -/
theorem find?_members (h : (Table.keys ms).Nodup) (name : String) :
    (Members.ofObj ms).find? name = Table.get? ms name := by
  have hlookup : ∀ ls : List (String × Json),
      (ls.map fun m ↦ (Key.text m.1, m.2)).lookup (.text name) = Table.get? ls name := by
    intro ls
    induction ls with
    | nil => rfl
    | cons m ls ih =>
      rw [List.map_cons, List.lookup_cons, Table.get?_cons, ih]
      by_cases hm : m.1 = name
      · simp [hm]
      · have hkey : (Key.text name == Key.text m.1) = false := by simp [Ne.symm hm]
        simp [hm, hkey]
  rw [Members.find?, ← List.map_reverse, hlookup]
  exact (Table.get?_perm h (List.reverse_perm ms).symm name).symm

/-! ## Checks that agree with descriptions -/

open Published (Content Field Presence Description Subject reference)

/-- A check passes the values, with distinct names, that a field can hold. -/
def Agrees (named : String → Json → Prop) (check : Json → Verdict α) (c : Content) : Prop :=
  ∀ v, v.Distinct → ((check v).Good ↔ c.Accepts named v)

section Agrees

variable {named : String → Json → Prop} {check : Json → Verdict α} {c : Content}

theorem agrees_text : Agrees named text .text := fun _ _ ↦ good_text_iff

theorem agrees_nonempty : Agrees named nonempty .nonempty := fun _ _ ↦ good_nonempty_iff

theorem agrees_digest : Agrees named digest (.matching digestPattern) := by
  intro v _
  rw [good_digest_iff, Content.Accepts]
  apply exists_congr
  intro s
  simp only [read?_digestPattern, Option.some.injEq, exists_and_left, exists_eq_left',
    isDigest_iff_found]

theorem Agrees.nullable (h : Agrees named check c) :
    Agrees named (Schema.nullable check) (.nullable c) := by
  intro v hv
  rw [good_nullable_iff, h v hv, Content.Accepts]

theorem Agrees.table {w : Wording} {name : String}
    (h : ∀ v, v.Distinct → ((check v).Good ↔ named name v)) :
    Agrees named (Schema.table w check) (.tableOf name) := by
  intro v hv
  rw [good_table_iff, Content.Accepts]
  apply exists_congr
  intro ms
  apply and_congr_right
  rintro rfl
  obtain ⟨hnodup, hvalues⟩ := Json.distinct_obj_iff.mp hv
  constructor
  · intro hms key w hw
    have hm := (Table.get?_eq_some_iff hnodup).mp hw
    exact (h w (hvalues _ hm)).mp (hms _ hm)
  · intro hms m hm
    exact (h m.2 (hvalues m hm)).mpr (hms m.1 m.2 ((Table.get?_eq_some_iff hnodup).mpr hm))

/-- A field that has to be there. -/
theorem Agrees.required (h : Agrees named check c) (hms : (Json.obj ms).Distinct)
    (name description : String) :
    (Schema.required (.ofObj ms) name check).Good ↔
      Field.Admits named ⟨name, description, c, .required⟩ ms := by
  obtain ⟨hnodup, hvalues⟩ := Json.distinct_obj_iff.mp hms
  rw [good_required_iff, find?_members hnodup]
  constructor
  · rintro ⟨d, hfind, hd⟩
    constructor
    · intro _
      exact Table.mem_keys_iff.mpr ⟨d, hfind⟩
    · intro w hw
      cases hfind.symm.trans hw
      exact (h d (hvalues _ (Table.mem_of_get? hfind))).mp hd
  · rintro ⟨hpresent, hcontent⟩
    obtain ⟨d, hfind⟩ := Table.mem_keys_iff.mp (hpresent rfl)
    exact ⟨d, hfind, (h d (hvalues _ (Table.mem_of_get? hfind))).mpr (hcontent d hfind)⟩

/-- A field that can be left out. -/
theorem Agrees.optional (h : Agrees named check c) (hms : (Json.obj ms).Distinct)
    (name description : String) {presence : Presence} {default : α}
    (hpresence : Field.isRequired ⟨name, description, c, presence⟩ = false) :
    (Schema.optional (.ofObj ms) name default check).Good ↔
      Field.Admits named ⟨name, description, c, presence⟩ ms := by
  obtain ⟨hnodup, hvalues⟩ := Json.distinct_obj_iff.mp hms
  rw [good_optional_iff, find?_members hnodup]
  constructor
  · intro hcheck
    constructor
    · intro hrequired
      cases hpresence.symm.trans hrequired
    · intro w hw
      exact (h w (hvalues _ (Table.mem_of_get? hw))).mp (hcheck w hw)
  · rintro ⟨-, hcontent⟩ d hfind
    exact (h d (hvalues _ (Table.mem_of_get? hfind))).mpr (hcontent d hfind)

end Agrees

/-- A record whose fields are checked as they are described. -/
theorem good_record_iff_accepts {named : String → Json → Prop} {w : Wording} {d : Description}
    {fields : Members Json → Verdict α} (hv : v.Distinct)
    (hfields : ∀ ms, (Json.obj ms).Distinct →
      ((fields (.ofObj ms)).Good ↔ ∀ f ∈ d.fields, f.Admits named ms)) :
    (record w d.name (d.fields.map Field.name) fields v).Good ↔ d.Accepts named v := by
  rw [good_record_iff, Description.Accepts]
  apply exists_congr
  intro ms
  apply and_congr_right
  rintro rfl
  rw [hfields ms hv]

theorem good_cachedComponent_iff {named : String → Json → Prop} (w : Wording) (hv : v.Distinct) :
    (cachedComponent w v).Good ↔ Published.cachedComponent.Accepts named v := by
  refine good_record_iff_accepts (d := Published.cachedComponent) hv ?_
  intro ms hms
  simp only [Verdict.good_seq_iff, Verdict.good_functor_iff, and_assoc, Published.cachedComponent,
    List.forall_mem_cons, List.not_mem_nil, false_imp_iff, implies_true, and_true]
  refine and_congr (agrees_nonempty.required hms _ _) ?_
  refine and_congr (agrees_nonempty.required hms _ _) ?_
  refine and_congr (agrees_text.required hms _ _) ?_
  refine and_congr (agrees_text.required hms _ _) ?_
  refine and_congr (agrees_text.nullable.optional hms _ _ rfl) ?_
  refine and_congr (agrees_text.nullable.optional hms _ _ rfl) ?_
  exact agrees_digest.required hms _ _

/-- A cache, where what is named a component is what passes as one. -/
theorem good_cache_iff {named : String → Json → Prop} {w : Wording}
    (hnamed : ∀ v, v.Distinct → ((cachedComponent w v).Good ↔ named "CachedComponent" v))
    (hv : v.Distinct) : (cache w v).Good ↔ Published.cacheFile.Accepts named v := by
  refine good_record_iff_accepts (d := Published.cacheFile) hv ?_
  intro ms hms
  simp only [Verdict.good_seq_iff, Verdict.good_functor_iff, Published.cacheFile,
    List.forall_mem_cons, List.not_mem_nil, false_imp_iff, implies_true, and_true]
  refine and_congr (agrees_text.optional hms _ _ rfl) ?_
  exact (Agrees.table hnamed).optional hms _ _ rfl

/-! ## The schema of cache files -/

theorem regular_cachedComponent : Published.cachedComponent.Regular where
  names := by decide
  fields := by simp [Published.cachedComponent, Content.Unlisted]

theorem regular_cacheFile : Published.cacheFile.Regular where
  names := by decide
  fields := by simp [Published.cacheFile, Content.Unlisted]

/-- A document is valid under the published schema exactly if it passes as a cache. -/
theorem valid_iff_good_cache (w : Wording) (hv : v.Distinct) :
    Valid Subject.cache.schema Subject.cache.schema v ↔ (cache w v).Good := by
  have hcomponent : ∀ v, v.Distinct → ((cachedComponent w v).Good ↔
      Valid Subject.cache.schema (reference "CachedComponent") v) := by
    intro v hv
    rw [good_cachedComponent_iff w hv]
    exact (Published.valid_inner_iff regular_cachedComponent _ (by decide)).symm
  exact (Published.valid_document_iff regular_cacheFile _).trans (good_cache_iff hcomponent hv).symm

/-- The published schema and the reading of cache files accept the same texts, where no object has
two members of one name. -/
theorem valid_under_schema_iff_read {text : String} (hread : Json.readVerbatim text = .ok v)
    (hv : v.Distinct) :
    Valid Subject.cache.schema Subject.cache.schema v ↔ ∃ c, Cache.read text = .good c := by
  rw [valid_iff_good_cache .text hv, Cache.read, ofText, hread]
  rfl

/-- A cache of one component. -/
def cardCache : Cache where
  version := Cache.formatVersion
  components := [("app_Card", ⟨"app.Card", "app_Card", "out/app_Card.py", "out/app_Card", none,
    some "/static/app_Card.js", "06b05ab6"⟩)]

theorem written_card_is_valid : Json.readVerbatim cardCache.write = .ok cardCache.toJson ∧
    cardCache.toJson.Distinct ∧
      Valid Subject.cache.schema Subject.cache.schema cardCache.toJson := by
  have hread := cardCache.readVerbatim_write
  have hcache : cardCache.Valid := {
    nodup := by decide
    components := by
      simp only [cardCache, List.forall_mem_singleton]
      exact ⟨by decide, by decide, by decide⟩ }
  have hdistinct := Cache.distinct_toJson hcache.nodup
  exact ⟨hread, hdistinct, (valid_under_schema_iff_read hread hdistinct).mpr ⟨_, hcache.read⟩⟩

end Schema

end IceCube
