import IceCube.Proofs.Schema.Valid
import IceCube.Schema.Published

/-!
# What published schemas ask for

A published schema is written from descriptions of records.  What is valid under it can be said of
these descriptions: which contents their fields take, which fields have to be there, and that there
are no others.  The texts for readers are remarks to which validity is blind, and the order of the
keywords does not matter since no two have one name.
-/

namespace IceCube.Schema.Published

variable {root v : Json} {record : String → Json → Prop}

/-! ## What descriptions say -/

/-- A value is what a field can hold, given which values are records of which name. -/
def Content.Accepts (record : String → Json → Prop) : Content → Json → Prop
  | .text, v | .path, v => ∃ s, v = .str s
  | .nonempty, v => ∃ s, v = .str s ∧ s ≠ ""
  | .matching pattern, v => ∃ s p, v = .str s ∧ Pattern.read? pattern = some p ∧ p.Found s
  | .flag, v => ∃ b, v = .bool b
  | .choice options, v => ∃ s ∈ options, v = .str s
  | .tableOf name, v => ∃ ms, v = .obj ms ∧ ∀ key w, Table.get? ms key = some w → record name w
  | .nullable c, v => c.Accepts record v ∨ v = .null

/-- Nothing is chosen from a list, for which there is a keyword of its own. -/
def Content.Unlisted : Content → Prop
  | .choice _ => False
  | .nullable c => c.Unlisted
  | _ => True

/-- The members of an object are as a field asks for. -/
structure Field.Admits (record : String → Json → Prop) (f : Field) (ms : Table String Json) :
    Prop where
  present : f.isRequired = true → f.name ∈ Table.keys ms
  content : ∀ w, Table.get? ms f.name = some w → f.content.Accepts record w

/-- A value is a record as it is described. -/
def Description.Accepts (record : String → Json → Prop) (d : Description) (v : Json) : Prop :=
  ∃ ms, v = .obj ms ∧ (∀ f ∈ d.fields, f.Admits record ms) ∧
    ∀ name ∈ Table.keys ms, name ∈ d.fields.map Field.name

/-! ## Schemas in order -/

/-- The keywords that ask for something. -/
def asking : List String :=
  ["type", "minLength", "pattern", "required", "properties", "additionalProperties", "anyOf", "$ref"]

/-- What is asked for depends on these keywords only. -/
theorem obeys_congr {valid : Json → Json → Prop} {keyword keyword' : String → Option Json}
    (h : ∀ k ∈ asking, keyword k = keyword' k) :
    Obeys valid root keyword v ↔ Obeys valid root keyword' v := by
  simp only [asking, List.forall_mem_cons, List.not_mem_nil, false_imp_iff, implies_true,
    and_true] at h
  obtain ⟨htype, hlength, hpattern, hrequired, hproperties, hadditional, hany, href⟩ := h
  rw [obeys_iff, obeys_iff, htype, hlength, hpattern, hrequired, hproperties, hadditional, hany, href]

theorem ordered_eq {keywords : Table String Json} (h : (Table.keys keywords).Nodup) :
    ∃ sorted, ordered keywords = .obj sorted ∧
      ∀ k, Table.get? sorted k = Table.get? keywords k :=
  ⟨_, rfl, fun k ↦ (Table.get?_perm h (List.mergeSort_perm keywords _).symm k).symm⟩

theorem valid_ordered_iff {keywords : Table String Json} (h : (Table.keys keywords).Nodup) :
    Valid root (ordered keywords) v ↔ Obeys (Valid root) root (Table.get? keywords) v := by
  obtain ⟨sorted, hsorted, hkeywords⟩ := ordered_eq h
  rw [hsorted, valid_obj_iff]
  apply obeys_congr
  intro k _
  exact hkeywords k

/-! ## Contents -/

/-- The other types have no value in common with a type of one kind of values. -/
theorem hasType_text_iff : HasType (.str "string") v ↔ ∃ s, v = .str s := by
  cases v <;> simp [HasType, typeNames]
  split <;> simp

theorem hasType_object_iff : HasType (.str "object") v ↔ ∃ ms, v = .obj ms := by
  cases v <;> simp [HasType, typeNames]
  split <;> simp

theorem hasType_boolean_iff : HasType (.str "boolean") v ↔ ∃ b, v = .bool b := by
  cases v <;> simp [HasType, typeNames]
  split <;> simp

theorem hasType_null_iff : HasType (.str "null") v ↔ v = .null := by
  cases v <;> simp [HasType, typeNames]
  split <;> simp

/-- A value of one kind that keeps what is asked of this kind only. -/
theorem exists_and_forall_iff {α : Type} {C : α → Json} (hC : Function.Injective C)
    {P : α → Prop} : ((∃ a, v = C a) ∧ ∀ a, v = C a → P a) ↔ ∃ a, v = C a ∧ P a := by
  constructor
  · rintro ⟨⟨a, ha⟩, h⟩
    exact ⟨a, ha, h a ha⟩
  · rintro ⟨a, rfl, h⟩
    refine ⟨⟨a, rfl⟩, ?_⟩
    intro b hb
    rwa [← hC hb]

theorem str_injective : Function.Injective Json.str := fun _ _ h ↦ Json.str.inj h

theorem obj_injective : Function.Injective Json.obj := fun _ _ h ↦ Json.obj.inj h

theorem nodup_keys_content (c : Content) : (Table.keys c.keywords).Nodup := by
  cases c <;> simp [Content.keywords, typed, Table.keys]

theorem obeys_content_iff {c : Content} (hc : c.Unlisted) :
    Obeys (Valid root) root (Table.get? c.keywords) v ↔
      c.Accepts (fun name ↦ Valid root (reference name)) v := by
  induction c with
  | text =>
    simp [obeys_iff, Content.keywords, typed, Table.get?_cons, hasType_text_iff, Content.Accepts]
  | nonempty =>
    have hlength (s : String) : (1 : ℤ) ≤ s.length ↔ ¬ s = "" := by
      rw [← String.length_eq_zero_iff]
      omega
    simpa [obeys_iff, Content.keywords, typed, Table.get?_cons, hasType_text_iff, Content.Accepts,
      hlength] using exists_and_forall_iff (v := v) str_injective (P := (¬ · = ""))
  | matching pattern =>
    simpa [obeys_iff, Content.keywords, typed, Table.get?_cons, hasType_text_iff, Content.Accepts]
      using exists_and_forall_iff (v := v) str_injective
        (P := fun s ↦ ∃ p, Pattern.read? pattern = some p ∧ p.Found s)
  | path =>
    simp [obeys_iff, Content.keywords, typed, Table.get?_cons, hasType_text_iff, Content.Accepts]
  | flag =>
    simp [obeys_iff, Content.keywords, typed, Table.get?_cons, hasType_boolean_iff, Content.Accepts]
  | choice options => exact hc.elim
  | tableOf name =>
    simpa [obeys_iff, Content.keywords, typed, Table.get?_cons, hasType_object_iff, Content.Accepts]
      using exists_and_forall_iff (v := v) obj_injective
        (P := fun ms ↦ ∀ key w, Table.get? ms key = some w → Valid root (reference name) w)
  | nullable c ih =>
    have hnull : Valid root (.obj [typed "null"]) v ↔ v = .null := by
      rw [valid_obj_iff]
      simp [obeys_iff, typed, Table.get?_cons, hasType_null_iff]
    have hinner := (valid_ordered_iff (v := v) (nodup_keys_content c)).trans (ih hc)
    simp [obeys_iff, Content.keywords, Table.get?_cons, Content.Accepts, hnull, hinner]

/-! ## Fields and records -/

/-- What else is said of a field asks for nothing. -/
theorem get?_remarks (presence : Presence) (description title : Json) : ∀ k ∈ asking,
    Table.get? (presence.keywords ++ [("description", description), ("title", title)]) k = none := by
  cases presence <;> simp [asking, Presence.keywords, Table.get?_cons]

theorem nodup_keys_field (f : Field) : (Table.keys (f.content.keywords ++ f.presence.keywords
    ++ [("description", .str f.description), ("title", .str (titleOf f.name))])).Nodup := by
  cases f.content <;> cases f.presence <;>
    simp [Content.keywords, Presence.keywords, typed, Table.keys]

theorem valid_field_iff {f : Field} (hf : f.content.Unlisted) :
    Valid root f.schema v ↔ f.content.Accepts (fun name ↦ Valid root (reference name)) v := by
  rw [Field.schema, valid_ordered_iff (nodup_keys_field f), ← obeys_content_iff hf]
  apply obeys_congr
  intro k hk
  rw [List.append_assoc, Table.get?_append, get?_remarks _ _ _ k hk, Option.or_none]

/-- The names of the fields that have to be there. -/
def Description.needed (d : Description) : List String :=
  (d.fields.filter Field.isRequired).map Field.name

/-- The schemas of the fields under their names. -/
def Description.properties (d : Description) : Table String Json :=
  d.fields.map fun f ↦ (f.name, f.schema)

theorem keys_properties (d : Description) :
    Table.keys d.properties = d.fields.map Field.name := by
  simp [Table.keys, Description.properties]

theorem Description.keywords_eq (d : Description) : d.keywords =
    [("additionalProperties", .bool false), ("description", .str d.description),
      ("properties", .obj d.properties), ("title", .str d.name), typed "object"] ++
        if d.needed.isEmpty then [] else [("required", .ofTexts d.needed)] := rfl

/-- What the keywords of a record ask for. -/
theorem obeys_keywords_iff (d : Description) :
    Obeys (Valid root) root (Table.get? d.keywords) v ↔ ∃ ms, v = .obj ms ∧
      ((∀ name ∈ d.needed, name ∈ Table.keys ms) ∧
        (∀ name sub w, Table.get? d.properties name = some sub → Table.get? ms name = some w →
          Valid root sub w) ∧
        ∀ name w, Table.get? ms name = some w → name ∈ Table.keys d.properties) := by
  rw [← exists_and_forall_iff obj_injective]
  by_cases h : d.needed = []
  · simp [obeys_iff, d.keywords_eq, h, typed, Table.get?_cons, hasType_object_iff,
      forall_and]
  · simp [obeys_iff, d.keywords_eq, h, typed, Table.get?_cons, hasType_object_iff, forall_and,
      Json.ofTexts]

/-- A description that tells its fields apart and has no lists to choose from. -/
structure Description.Regular (d : Description) : Prop where
  names : (d.fields.map Field.name).Nodup
  fields : ∀ f ∈ d.fields, f.content.Unlisted

/-- A record is what is described, also in a schema with more remarks than those of the record. -/
theorem obeys_description_iff {d : Description} (hd : d.Regular) {keyword : String → Option Json}
    (hkeyword : ∀ k ∈ asking, keyword k = Table.get? d.keywords k) :
    Obeys (Valid root) root keyword v ↔ d.Accepts (fun name ↦ Valid root (reference name)) v := by
  rw [obeys_congr hkeyword, obeys_keywords_iff, Description.Accepts]
  apply exists_congr
  intro ms
  apply and_congr_right
  intro _
  have hproperty (f : Field) (hf : f ∈ d.fields) :
      Table.get? d.properties f.name = some f.schema :=
    (Table.get?_eq_some_iff (by rw [keys_properties]; exact hd.names)).mpr
      (List.mem_map.mpr ⟨f, hf, rfl⟩)
  constructor
  · rintro ⟨hneeded, hproperties, honly⟩
    constructor
    · intro f hf
      constructor
      · intro hrequired
        apply hneeded
        exact List.mem_map.mpr ⟨f, List.mem_filter.mpr ⟨hf, hrequired⟩, rfl⟩
      · intro w hw
        rw [← valid_field_iff (hd.fields f hf)]
        exact hproperties f.name f.schema w (hproperty f hf) hw
    · intro name hname
      obtain ⟨w, hw⟩ := Table.mem_keys_iff.mp hname
      rw [← keys_properties]
      exact honly name w hw
  · rintro ⟨hadmits, honly⟩
    refine ⟨?_, ?_, ?_⟩
    · intro name hname
      obtain ⟨f, hf, rfl⟩ := List.mem_map.mp hname
      obtain ⟨hf, hrequired⟩ := List.mem_filter.mp hf
      exact (hadmits f hf).present hrequired
    · intro name sub w hsub hw
      obtain ⟨f, hf, heq⟩ := List.mem_map.mp (Table.mem_of_get? hsub)
      cases heq
      rw [valid_field_iff (hd.fields f hf)]
      exact (hadmits f hf).content w hw
    · intro name w hw
      rw [keys_properties]
      exact honly name (Table.mem_keys_iff.mpr ⟨w, hw⟩)

/-! ## Documents -/

theorem nodup_keys_description (d : Description) (definitions : Json) :
    (Table.keys (("$defs", definitions) :: d.keywords)).Nodup := by
  rw [d.keywords_eq]
  by_cases h : d.needed = [] <;> simp [h, typed, Table.keys]

/-- The keywords of a document that ask for something are those of its record. -/
theorem get?_document (inner outer : Description) (fileName : String) :
    ∃ keywords, document inner outer fileName = .obj keywords ∧
      Table.get? keywords "$defs" = some (.obj [(inner.name, ordered inner.keywords)]) ∧
      ∀ k ∈ asking, Table.get? keywords k = Table.get? outer.keywords k := by
  obtain ⟨sorted, hsorted, hkeywords⟩ := ordered_eq (nodup_keys_description outer
    (.obj [(inner.name, ordered inner.keywords)]))
  have hdocument : document inner outer fileName = .obj (sorted ++ [("$schema", .str dialect),
      ("$id", .str ("https://icecube.dev/schemas/" ++ fileName))]) := by
    rw [document, hsorted]
  refine ⟨_, hdocument, ?_, ?_⟩
  · rw [Table.get?_append, hkeywords, Table.get?_cons, if_pos (by decide), Option.some_or]
  · intro k hk
    have hother : ∀ k ∈ asking, ("$defs" == k) = false ∧ ("$schema" == k) = false ∧
        ("$id" == k) = false := by decide
    obtain ⟨hdefs, hschema, hid⟩ := hother k hk
    rw [Table.get?_append, hkeywords, Table.get?_cons]
    simp [hdefs, hschema, hid, Table.get?_cons]

/-- A whole document asks for what its record asks for. -/
theorem valid_document_iff {inner outer : Description} (houter : outer.Regular)
    (fileName : String) : Valid root (document inner outer fileName) v ↔
      outer.Accepts (fun name ↦ Valid root (reference name)) v := by
  obtain ⟨keywords, hdocument, -, hkeywords⟩ := get?_document inner outer fileName
  rw [hdocument, valid_obj_iff, obeys_description_iff houter hkeywords]

theorem valid_reference_iff {name : String} : Valid root (reference name) v ↔
    ∃ sub, resolve? root ("#/$defs/" ++ name) = some sub ∧ Valid root sub v := by
  rw [reference, valid_obj_iff]
  simp [obeys_iff, Table.get?_cons]

/-- The other record of a document is found under its name. -/
theorem valid_inner_iff {inner outer : Description} (hinner : inner.Regular)
    (fileName : String)
    (hname : pointer? ("#/$defs/" ++ inner.name) = some ["$defs", inner.name]) :
    Valid (document inner outer fileName) (reference inner.name) v ↔
      inner.Accepts (fun name ↦ Valid (document inner outer fileName) (reference name)) v := by
  obtain ⟨keywords, hdocument, hdefs, -⟩ := get?_document inner outer fileName
  have hnodup : (Table.keys inner.keywords).Nodup :=
    (List.nodup_cons.mp (nodup_keys_description inner .null)).2
  have hresolve : resolve? (document inner outer fileName) ("#/$defs/" ++ inner.name) =
      some (ordered inner.keywords) := by
    rw [resolve?, hname, hdocument]
    simp [Json.member?, Json.members?, hdefs, Table.get?_cons]
  rw [valid_reference_iff, hresolve, ← obeys_description_iff hinner fun _ _ ↦ rfl,
    ← valid_ordered_iff hnodup]
  simp

end IceCube.Schema.Published
