import IceCube.Cache
import IceCube.Proofs.Json.RoundTrip
import IceCube.Proofs.Table

/-!
# Caches read back

The text of a cache whose components pass the checks of their fields is read as that cache, whatever
characters are in the texts of the components.
-/

namespace IceCube

namespace Schema

variable {α β : Type}

/-! ## Verdicts -/

theorem Verdict.map_eq_good_iff {f : α → β} {v : Verdict α} {b : β} :
    v.map f = .good b ↔ ∃ a, v = .good a ∧ f a = b := by
  cases v with
  | good a => simp [Verdict.map]
  | bad issues => simp [Verdict.map]

theorem Verdict.both_eq_good_iff {f : Verdict (α → β)} {v : Verdict α} {b : β} :
    f.both v = .good b ↔ ∃ g a, f = .good g ∧ v = .good a ∧ g a = b := by
  cases f <;> cases v <;> simp [Verdict.both]

theorem Verdict.all_map_good {f : α → Verdict β} {g : α → β} {as : List α}
    (h : ∀ a ∈ as, f a = .good (g a)) : Verdict.all (as.map f) = .good (as.map g) := by
  induction as with
  | nil => rfl
  | cons a as ih =>
    obtain ⟨ha, has⟩ := List.forall_mem_cons.mp h
    rw [List.map_cons, List.map_cons, Verdict.all, ha, ih has]
    rfl

/-- A record is good where its fields are and no other members are there. -/
theorem record_good {w : Wording} {name : String} {names : List String}
    {fields : Members Json → Verdict α} {ms : List (String × Json)} {a : α}
    (hfields : fields (ms.map fun m ↦ (.text m.1, m.2)) = .good a)
    (hnames : ∀ m ∈ ms, m.1 ∈ names) : record w name names fields (Json.obj ms) = .good a := by
  have hundeclared : ∀ m ∈ ms.map fun m ↦ ((.text m.1 : Key), m.2),
      undeclared? names m.1 = none := by
    intro m hm
    obtain ⟨m, hmem, rfl⟩ := List.mem_map.mp hm
    simp [undeclared?, hnames m hmem]
  have honly : only (ms.map fun m ↦ ((.text m.1 : Key), m.2)) names = .good () := by
    rw [only, List.filterMap_eq_nil_iff.mpr hundeclared]
  simp only [record, Document.shape, ofJson, hfields, honly]
  rfl

theorem fields_of_record_good {w : Wording} {name : String} {names : List String}
    {fields : Members Json → Verdict α} {ms : List (String × Json)} {a : α}
    (h : record w name names fields (Json.obj ms) = .good a) :
    fields (ms.map fun m ↦ (.text m.1, m.2)) = .good a := by
  obtain ⟨g, u, hg, -, hu⟩ := Verdict.both_eq_good_iff.mp h
  obtain ⟨a', ha', rfl⟩ := Verdict.map_eq_good_iff.mp hg
  rw [← hu]
  exact ha'

/-- A list whose items are good is good. -/
theorem list_good {w : Wording} {check : Json → Verdict α} {g : Json → α} {vs : List Json}
    (hcheck : ∀ v ∈ vs, check v = .good (g v)) : list w check (Json.arr vs) = .good (vs.map g) := by
  have hall : vs.mapIdx (fun i v ↦ (check v).below (.number i)) =
      vs.map fun v ↦ Verdict.good (g v) := by
    refine List.ext_getElem (by simp) fun i hi _ ↦ ?_
    rw [List.getElem_mapIdx, List.getElem_map, hcheck _ (List.getElem_mem _)]
    rfl
  simp only [list, Document.shape, ofJson]
  rw [hall, Verdict.all_map_good fun v _ ↦ rfl]

/-- A table whose entries are good and whose keys are distinct is good. -/
theorem table_good {w : Wording} {check : Json → Verdict α} {t : Table String α}
    (toJson : α → Json) (hcheck : ∀ e ∈ t, check (toJson e.2) = .good e.2)
    (hkeys : (Table.keys t).Nodup) :
    table w check (Json.obj (t.map fun e ↦ (e.1, toJson e.2))) = .good t := by
  have hall : Verdict.all (t.map fun e ↦ Verdict.both ((keyText (.text e.1)).map Prod.mk)
      ((check (toJson e.2)).below (.key e.1))) = .good (t.map id) :=
    Verdict.all_map_good fun e he ↦ by
      rw [hcheck e he]
      rfl
  rw [List.map_id] at hall
  simp only [table, Document.shape, ofJson, List.map_map, Function.comp_def, Key.step]
  rw [hall, Verdict.map, Table.ofEntries_eq_self hkeys]

theorem required_good {ms : Members Json} {name : String} {check : Json → Verdict α}
    {d : Json} {a : α} (hfind : ms.find? name = some d) (hcheck : check d = .good a) :
    required ms name check = .good a := by
  rw [required, hfind]
  dsimp only
  rw [hcheck]
  rfl

theorem check_of_required_good {ms : Members Json} {name : String} {check : Json → Verdict α}
    {d : Json} {a : α} (hfind : ms.find? name = some d) (h : required ms name check = .good a) :
    check d = .good a := by
  rw [required, hfind] at h
  dsimp only at h
  cases hcheck : check d with
  | good b =>
    rw [hcheck] at h
    exact h
  | bad issues =>
    rw [hcheck] at h
    cases h

theorem optional_good {ms : Members Json} {name : String} {default : α}
    {check : Json → Verdict α} {d : Json} {a : α} (hfind : ms.find? name = some d)
    (hcheck : check d = .good a) : optional ms name default check = .good a := by
  rw [optional, hfind]
  dsimp only
  rw [hcheck]
  rfl

/-! ## Fields -/

theorem text_str (s : String) : text (Json.str s) = .good s := rfl

theorem nonempty_str_iff {s t : String} : nonempty (Json.str s) = .good t ↔ s ≠ "" ∧ s = t := by
  by_cases h : s = ""
  · simp [h, nonempty, text, Document.shape, ofJson, Verdict.andThen, Verdict.broken]
  · simp [h, nonempty, text, Document.shape, ofJson, Verdict.andThen]

theorem digest_str_iff {s t : String} :
    digest (Json.str s) = .good t ↔ isDigest s = true ∧ s = t := by
  by_cases h : isDigest s = true
  · simp [h, digest, matching, text, Document.shape, ofJson, Verdict.andThen]
  · simp [h, digest, matching, text, Document.shape, ofJson, Verdict.andThen, Verdict.broken]

theorem nullable_ofText? (s : Option String) :
    nullable text (Json.ofText? s) = .good s := by
  cases s <;> rfl

end Schema

/-- What the checks of the fields of a cached component ask for. -/
structure CachedComponent.Valid (c : CachedComponent) : Prop where
  identifier : c.identifier ≠ ""
  componentName : c.componentName ≠ ""
  digest : Schema.isDigest c.digest = true

theorem CachedComponent.Valid.check {c : CachedComponent} (h : c.Valid) (w : Schema.Wording) :
    Schema.cachedComponent w (Json.obj c.members) = .good c := by
  refine Schema.record_good ?_ (by simp [members])
  rw [Schema.required_good rfl (Schema.nonempty_str_iff.mpr ⟨h.identifier, rfl⟩),
    Schema.required_good rfl (Schema.nonempty_str_iff.mpr ⟨h.componentName, rfl⟩),
    Schema.required_good rfl (Schema.text_str c.compiledCodePath),
    Schema.required_good rfl (Schema.text_str c.compiledAssetsBasePath),
    Schema.optional_good rfl (Schema.nullable_ofText? c.compiledStyle),
    Schema.optional_good rfl (Schema.nullable_ofText? c.scriptUrl),
    Schema.required_good rfl (Schema.digest_str_iff.mpr ⟨h.digest, rfl⟩)]
  rfl

/-- The conditions are all that the checks ask for. -/
theorem CachedComponent.valid_iff_check (c : CachedComponent) (w : Schema.Wording) :
    c.Valid ↔ Schema.cachedComponent w (Json.obj c.members) = .good c := by
  constructor
  · exact fun h ↦ h.check w
  · intro h
    have hfields := Schema.fields_of_record_good h
    -- the fields from the last one to the first
    obtain ⟨g₆, digest, hg₆, hdigest, -⟩ := Schema.Verdict.both_eq_good_iff.mp hfields
    obtain ⟨g₅, -, hg₅, -, -⟩ := Schema.Verdict.both_eq_good_iff.mp hg₆
    obtain ⟨g₄, -, hg₄, -, -⟩ := Schema.Verdict.both_eq_good_iff.mp hg₅
    obtain ⟨g₃, -, hg₃, -, -⟩ := Schema.Verdict.both_eq_good_iff.mp hg₄
    obtain ⟨g₂, -, hg₂, -, -⟩ := Schema.Verdict.both_eq_good_iff.mp hg₃
    obtain ⟨g₁, name, hg₁, hname, -⟩ := Schema.Verdict.both_eq_good_iff.mp hg₂
    obtain ⟨identifier, hidentifier, -⟩ := Schema.Verdict.map_eq_good_iff.mp hg₁
    exact {
      identifier := (Schema.nonempty_str_iff.mp (Schema.check_of_required_good rfl hidentifier)).1
      componentName := (Schema.nonempty_str_iff.mp (Schema.check_of_required_good rfl hname)).1
      digest := (Schema.digest_str_iff.mp (Schema.check_of_required_good rfl hdigest)).1 }

namespace Cache

/-- What the checks of a cache ask for, with one entry for each name. -/
structure Valid (c : Cache) : Prop where
  nodup : (Table.keys c.components).Nodup
  components : ∀ e ∈ c.components, e.2.Valid

theorem Valid.check {c : Cache} (h : c.Valid) (w : Schema.Wording) :
    Schema.cache w c.toJson = .good c := by
  refine Schema.record_good ?_ (by simp)
  have htable : Schema.table w (Schema.cachedComponent w)
      (Json.obj (c.components.map fun e ↦ (e.1, Json.obj e.2.members))) = .good c.components :=
    Schema.table_good (fun c ↦ Json.obj c.members) (fun e he ↦ (h.components e he).check w) h.nodup
  rw [Schema.optional_good rfl (Schema.text_str c.version), Schema.optional_good rfl htable]
  rfl

/-- There are no numbers in the document of a cache. -/
theorem reread_toJson (c : Cache) : c.toJson.reread = c.toJson := by
  have hmembers : ∀ c : CachedComponent, (Json.obj c.members).reread = .obj c.members := by
    intro c
    have htext : ∀ s : Option String, (Json.ofText? s).reread = .ofText? s := by
      intro s
      cases s <;> simp [Json.ofText?]
    simp [CachedComponent.members, Json.rereadMembers, htext]
  simp [toJson, Json.rereadMembers, Json.rereadMembers_eq_map, hmembers]

/-- The text of a cache writes its document. -/
theorem readVerbatim_write (c : Cache) : Json.readVerbatim c.write = .ok c.toJson := by
  have hspaces : Json.Reader.Spaces "\n".toList := by simp [Json.Reader.Spaces, Json.Reader.isSpace]
  have hread := Json.readVerbatim_write ⟨.least, .indented 2⟩ c.toJson hspaces
  rw [write, Json.prettyUnicode, hread, reread_toJson]

/-- The text of a cache is read as that cache. -/
theorem Valid.read {c : Cache} (h : c.Valid) : read c.write = .good c := by
  rw [Cache.read, Schema.ofText, c.readVerbatim_write]
  exact h.check .text

end Cache

end IceCube
