import IceCube.Proofs.Boot.Since
import IceCube.Proofs.Compiler.Locating

/-!
# The code of one component

A component has one code in the files of a configuration when all sources that compile to its name are
its own and have that code, and all caches say so too.  Compiling and booting leave it so, because no
compiled file is in the place of a source or a cache: the name of a source has dots before its end,
and the name of a component has none.  So every record of the component leads to its code, whichever
way it came into its registry.
-/

namespace IceCube

open Step

/-! ## Places of sources -/

namespace Compiler

variable {c : Compiler} {i : String} {source : Path} {t : FileTree}

/-- The sources that a compiler takes for an identifier: the one of its name in the source directory,
and the one that it leads to. -/
inductive Takes (c : Compiler) : String → Path → Prop where
  | named (base : String) : c.Takes (c.identifierOf base) (c.sourceOf base)
  | led {i : String} (h : c.handles i = true) : c.Takes i (c.sourcePathFor i)

theorem takes_ofConfig {cfg : CompilerConfig} {home : RegistryId}
    (h : (ofConfig home cfg).Takes i source) (home' : RegistryId) :
    (ofConfig home' cfg).Takes i source := by
  cases h with
  | named base => exact .named base
  | led h => exact .led h

/-- A source has the end of sources. -/
theorem Takes.exists_place (h : c.Takes i source) (hi : '/' ∉ i.toList) (t : FileTree) :
    ∃ l base, t.place source = l ++ [base ++ sourceSuffix] := by
  cases h with
  | named base =>
    refine ⟨t.place c.sourceDir, base, place_joinText_source t _ fun hbase ↦ hi ?_⟩
    simp [identifierOf, Identifier.below, hbase]
  | led h =>
    obtain ⟨parents, last, hsegments, hsteps⟩ := exists_segmentsBelow c i
    have hrelative : '/' ∉ (String.ofList (i.toList.drop (c.namespacePrefix.length + 1))).toList := by
      rw [String.toList_ofList]
      exact fun hslash ↦ hi (List.mem_of_mem_drop hslash)
    have hlast : '/' ∉ last.toList := by
      refine Identifier.slash_not_mem_of_mem_segments hrelative ?_
      rw [← segmentsBelow, hsegments]
      simp
    rw [sourcePathFor_eq, hsteps, List.foldl_concat]
    exact ⟨_, _, place_joinText_source t _ hlast⟩

theorem Takes.not_mem_places (h : c.Takes i source) (hi : '/' ∉ i.toList) {d : Compiler}
    {name : String} (hdot : '.' ∉ name.toList) : t.place source ∉ (d.outputs name).places t := by
  obtain ⟨l, base, hsource⟩ := h.exists_place hi t
  rw [hsource]
  exact source_not_mem_places hdot t l base

end Compiler

/-! ## What files say of a component -/

/-- Where the compiled code of an identifier goes. -/
def CompilerConfig.codePath (c : CompilerConfig) (i : String) : Path :=
  ((Compiler.ofConfig "" c).outputs (Identifier.flatten i)).code

/-- A file at a location is a text. -/
def FileTree.HasText (t : FileTree) (l : Location) (text : String) : Prop :=
  ∃ content, t.Holds (l, content) ∧ Utf8.decode content = some text

namespace Config

/-- A compiled file can be at a location. -/
def IsOutput (config : Config) (t : FileTree) (l : Location) : Prop :=
  ∃ e ∈ config.compilers, ∃ name, Path.IsName name ∧ '.' ∉ name.toList ∧
    l ∈ ((Compiler.ofConfig "" e.2).outputs name).places t

/-- A record of a component leads to its code. -/
structure Leads (config : Config) (i code : String) (t : FileTree) (record : Record) : Prop where
  identifier : record.identifier = i
  componentName : record.componentName = Identifier.flatten i
  code : ∃ e ∈ config.compilers, record.compiledCodePath = (e.2.codePath i).text ∧
    t.read (e.2.codePath i) = .ok (Utf8.encode code)

/-- All sources and caches that have a component of the name of an identifier say that it is that of
the identifier and has a code. -/
structure Provides (config : Config) (i code : String) (t : FileTree) : Prop where
  sound : t.Sound
  name : Path.IsName (Identifier.flatten i)
  apart : ∀ e ∈ config.compilers, ∀ p ∈ e.2.cacheFile, ¬ config.IsOutput t (t.place p)
  sources : ∀ e ∈ config.compilers, ∀ j source text, (Compiler.ofConfig "" e.2).Takes j source →
    '/' ∉ j.toList → t.HasText (t.place source) text →
      Identifier.flatten j = Identifier.flatten i → j = i ∧ Source.codeSection text = code
  caches : ∀ e ∈ config.compilers, ∀ p ∈ e.2.cacheFile, ∀ content cache,
    t.Holds (t.place p, content) → Cache.In content cache → ∀ x ∈ cache.components.values,
      x.identifier = i ∨ x.componentName = Identifier.flatten i → config.Leads i code t (.cached x)

/-- The files go on to say so, compiled code that is there stays there, and no source is taken
away. -/
def Upholds (config : Config) (i code : String) (t u : FileTree) : Prop :=
  config.Provides i code t → config.Provides i code u ∧
    (∀ e ∈ config.compilers, t.read (e.2.codePath i) = .ok (Utf8.encode code) →
      u.read (e.2.codePath i) = .ok (Utf8.encode code)) ∧
    ∀ e ∈ config.compilers, e.2.identifiers t ⊆ e.2.identifiers u

theorem Upholds.refl {config : Config} {i code : String} (t : FileTree) :
    config.Upholds i code t t := fun ht ↦ ⟨ht, fun _ _ ↦ id, fun _ _ ↦ List.Subset.refl _⟩

instance (config : Config) (i code : String) : IsPreorder FileTree (config.Upholds i code) where
  refl := .refl
  trans t u v htu huv ht := by
    obtain ⟨hu, hread, hsources⟩ := htu ht
    obtain ⟨hv, hread', hsources'⟩ := huv hu
    exact ⟨hv, fun e he h ↦ hread' e he (hread e he h),
      fun e he ↦ List.Subset.trans (hsources e he) (hsources' e he)⟩

variable {config : Config} {i j code : String} {t u : FileTree} {record : Record}

theorem Leads.upholds (h : config.Leads i code t record)
    (hread : ∀ e ∈ config.compilers, t.read (e.2.codePath i) = .ok (Utf8.encode code) →
      u.read (e.2.codePath i) = .ok (Utf8.encode code)) : config.Leads i code u record where
  identifier := h.identifier
  componentName := h.componentName
  code := by
    obtain ⟨e, he, hpath, hcode⟩ := h.code
    exact ⟨e, he, hpath, hread e he hcode⟩

theorem isOutput_of_grows {O : Location → Prop} (h : FileTree.Grows O t u) {l : Location} :
    config.IsOutput u l ↔ config.IsOutput t l := by
  simp only [IsOutput, Compiler.Outputs.places_of_grows h]

/-- Only compiled files may be written, and the code of the component has to stay. -/
theorem upholds_of_edits {O : Location → Prop} (hedits : FileTree.Edits O t u)
    (hO : ∀ l, O l → config.IsOutput t l)
    (hread : ∀ e ∈ config.compilers, t.read (e.2.codePath i) = .ok (Utf8.encode code) →
      u.read (e.2.codePath i) = .ok (Utf8.encode code)) : config.Upholds i code t u := by
  intro h
  -- what is held elsewhere was held before
  have hheld {l : Location} (hl : ¬ O l) {content : Bytes} (hu : u.Holds (l, content)) :
      t.Holds (l, content) := by
    obtain ⟨mode, modified, hnode⟩ := hu
    exact ⟨mode, modified, hedits.written hl hnode⟩
  refine ⟨⟨hedits.sound h.sound, h.name, fun e he p hp ↦ ?_, fun e he j source text htakes hj ↦ ?_,
    fun e he p hp content cache hcontent hin x hx hxi ↦ ?_⟩, hread, fun e he ↦ ?_⟩
  · rw [isOutput_of_grows hedits.toGrows, hedits.place]
    exact h.apart e he p hp
  · rw [hedits.place]
    rintro ⟨content, hcontent, htext⟩
    refine h.sources e he j source text htakes hj ⟨content, hheld (fun hl ↦ ?_) hcontent, htext⟩
    obtain ⟨e', -, name, -, hdot, hplace⟩ := hO _ hl
    exact htakes.not_mem_places hj hdot hplace
  · rw [hedits.place] at hcontent
    have hplace := h.apart e he p hp
    exact (h.caches e he p hp content cache (hheld (fun hl ↦ hplace (hO _ hl)) hcontent) hin x hx
      hxi).upholds hread
  · exact List.map_subset _ fun base ↦ Compiler.mem_sourceNames_of_grows hedits.toGrows

/-! ## Compiling -/

theorem place_codePath (h : Path.IsName (Identifier.flatten i)) (c : CompilerConfig)
    (t : FileTree) : t.place (c.codePath i) =
      t.place c.compiledCodeDir ++ [Identifier.flatten i ++ ".py"] := by
  have hpath : c.codePath i = c.compiledCodeDir.child (Identifier.flatten i ++ ".py") :=
    congrArg Compiler.Outputs.code (Compiler.outputs_of_isName h)
  rw [hpath, t.place_child _ (Compiler.isName_append h (by decide)).2]

section Compiling

variable {e : String × CompilerConfig} {s s' : Workspace} {home : RegistryId} {name : String}
  {p : Path} {text : String}

/-- The code of a component goes to the place of code of its name only. -/
theorem eq_code_of_place (hname : Path.IsName name)
    (hp : p ∈ ((Compiler.ofConfig home e.2).outputs name).paths)
    (hi : Path.IsName (Identifier.flatten i)) {c : CompilerConfig}
    (hplace : t.place p = t.place (c.codePath i)) :
    name = Identifier.flatten i ∧ p = ((Compiler.ofConfig home e.2).outputs name).code := by
  have hlast {dir : Path} {suffix : String} (hs : suffix ∈ Compiler.suffixes)
      (h : t.place (dir.child (name ++ suffix)) = t.place (c.codePath i)) :
      name = Identifier.flatten i ∧ suffix = ".py" := by
    rw [t.place_child _ (Compiler.isName_append hname hs).2, place_codePath hi] at h
    have hsame : name ++ suffix = Identifier.flatten i ++ ".py" := by
      simpa using (List.append_inj' h rfl).2
    exact Compiler.append_suffix_inj hs (by decide) hsame
  rw [Compiler.outputs_of_isName hname] at hp ⊢
  simp only [Compiler.Outputs.paths, List.mem_cons, List.not_mem_nil, or_false] at hp
  rcases hp with rfl | rfl | rfl
  · exact ⟨(hlast (by decide) hplace).1, rfl⟩
  · exact absurd (hlast (by decide) hplace).2 (by decide)
  · exact absurd (hlast (by decide) hplace).2 (by decide)

theorem ne_code_of_isName (hname : Path.IsName name) (c : Compiler) :
    (c.outputs name).script ≠ (c.outputs name).code ∧
      (c.outputs name).style ≠ (c.outputs name).code := by
  have hne {a b : Path} {suffix : String} (hs : suffix ∈ Compiler.suffixes) (hpy : suffix ≠ ".py") :
      a.child (name ++ suffix) ≠ b.child (name ++ ".py") := by
    intro h
    have hparts : a.parts ++ [name ++ suffix] = b.parts ++ [name ++ ".py"] := congrArg Path.parts h
    have hsame : name ++ suffix = name ++ ".py" := by simpa using (List.append_inj' hparts rfl).2
    exact hpy (Compiler.append_suffix_inj hs (by decide) hsame).2
  rw [Compiler.outputs_of_isName hname]
  exact ⟨hne (by decide) (by decide), hne (by decide) (by decide)⟩

variable (hsound : e.2.Sound)
include hsound

theorem upholds_ensureOutputs :
    Moves (fun s s' ↦ config.Upholds i code s.files s'.files)
      (Compiler.ofConfig home e.2).ensureOutputs := by
  intro s
  rcases h : outcome (Compiler.ofConfig home e.2).ensureOutputs s with ⟨x, s'⟩
  obtain ⟨-, -, hedits, -⟩ :=
    Compiler.outcome_ensureOutputs hsound.compiledCodeDir hsound.compiledAssetsDir h
  exact upholds_of_edits hedits (fun _ ↦ False.elim) fun _ _ ↦ hedits.read id

variable (he : e ∈ config.compilers)
include he

/-- A compiled file may be written as long as it is not the code of the component with another
text. -/
theorem upholds_writeIfChanged (hname : Path.IsName name) (hdot : '.' ∉ name.toList)
    (hp : p ∈ ((Compiler.ofConfig home e.2).outputs name).paths)
    (htext : name = Identifier.flatten i →
      p = ((Compiler.ofConfig home e.2).outputs name).code → text = code) :
    Moves (fun s s' ↦ config.Upholds i code s.files s'.files) (Build.writeIfChanged p text) := by
  intro s hs
  have hproper : p.Proper :=
    Compiler.proper_outputs hsound.compiledCodeDir hsound.compiledAssetsDir name p hp
  rw [Build.outcome_writeIfChanged]
  rcases hw : s.files.writeIfChanged FileTree.undisturbed p (Utf8.encode text) with ⟨f | b, t⟩
  · rw [FileTree.writeIfChanged_eq_error hw]
    exact Upholds.refl _ hs
  · have hrewrites := FileTree.rewrites_writeIfChanged hproper hw
    refine upholds_of_edits hrewrites.toEdits (fun l hl ↦ ?_) (fun e' he' hread ↦ ?_) hs
    · exact ⟨e, he, name, hname, hdot, List.mem_map.mpr ⟨p, hp, hl.symm⟩⟩
    · by_cases hplace : s.files.place p = s.files.place (e'.2.codePath i)
      · obtain ⟨hsame, hpath⟩ := eq_code_of_place hname hp hs.name hplace
        rw [htext hsame hpath] at hw
        have hheld := FileTree.holds_of_read (FileTree.read_writeIfChanged hw)
        rw [hrewrites.place, hplace] at hheld
        exact hheld.read hread hrewrites.toGrows
      · exact hrewrites.read (Ne.symm hplace) hread

/-- The files of a component may be stored as long as its code is the code that its name stands
for. -/
theorem upholds_store {x : ParsedComponent} (hname : Path.IsName x.componentName)
    (hdot : '.' ∉ x.componentName.toList)
    (hcode : x.componentName = Identifier.flatten i → x.codeSection = code) :
    Moves (fun s s' ↦ config.Upholds i code s.files s'.files)
      ((Compiler.ofConfig home e.2).store x) := by
  obtain ⟨hscript, hstyle⟩ := ne_code_of_isName hname (Compiler.ofConfig home e.2)
  have hpaths : ∀ p ∈ ((Compiler.ofConfig home e.2).outputs x.componentName).paths, ∀ text,
      (p = ((Compiler.ofConfig home e.2).outputs x.componentName).code → text = x.codeSection) →
        Moves (fun s s' ↦ config.Upholds i code s.files s'.files) (Build.writeIfChanged p text) :=
    fun p hp text htext ↦ upholds_writeIfChanged hsound he hname hdot hp fun hi h ↦
      (htext h).trans (hcode hi)
  refine moves_bind (upholds_ensureOutputs hsound) fun _ ↦ ?_
  split
  · exact fun s ↦ refl s.files
  · exact moves_bind (hpaths _ (by simp [Compiler.Outputs.paths]) _ fun _ ↦ rfl) fun _ ↦
      moves_bind (hpaths _ (by simp [Compiler.Outputs.paths]) _ fun h ↦ absurd h hscript) fun _ ↦
        moves_bind (hpaths _ (by simp [Compiler.Outputs.paths]) _ fun h ↦ absurd h hstyle) fun _ ↦
          moves_pure _

omit hsound he in
theorem upholds_changeRegistry (change : Registry → Except Failure Registry) :
    Moves (fun s s' ↦ config.Upholds i code s.files s'.files) (Build.changeRegistry change) := by
  intro s
  rw [Build.outcome_changeRegistry]
  cases change s.registry <;> exact refl s.files

/-- A component may be registered as well. -/
theorem upholds_enroll {x : ParsedComponent} (hname : Path.IsName x.componentName)
    (hdot : '.' ∉ x.componentName.toList)
    (hcode : x.componentName = Identifier.flatten i → x.codeSection = code) :
    Moves (fun s s' ↦ config.Upholds i code s.files s'.files)
      ((Compiler.ofConfig home e.2).enroll j x) :=
  moves_bind (upholds_store hsound he hname hdot hcode) fun _ ↦
    moves_bind (upholds_changeRegistry _) fun _ ↦
      moves_bind (moves_modify fun s ↦ refl s.files) fun _ ↦ moves_pure _

/-- Compiling a source that the compiler takes for an identifier, whichever way it ends, leaves the
code of a component as it is. -/
theorem upholds_compile {source : Path} (htakes : (Compiler.ofConfig home e.2).Takes j source)
    (hj : '/' ∉ j.toList) : Moves (fun s s' ↦ config.Upholds i code s.files s'.files)
      ((Compiler.ofConfig home e.2).compile j source) := by
  intro s hs
  rw [Compiler.outcome_compile_eq]
  cases hread : s.files.read source with
  | error f => exact Upholds.refl _ hs
  | ok bytes =>
    dsimp only
    cases htext : Utf8.decode bytes with
    | none => exact Upholds.refl _ hs
    | some text =>
      dsimp only
      cases hparse : Source.parse j text (Compiler.script? s.files source) with
      | error issues => exact Upholds.refl _ hs
      | ok x =>
        obtain ⟨hne, rfl⟩ := Compiler.parse_eq_ok hparse
        dsimp only
        split
        · exact Upholds.refl _ hs
        · have hcode (h : Identifier.flatten j = Identifier.flatten i) :
              Source.codeSection text = code :=
            (hs.sources e he j source text (Compiler.takes_ofConfig htakes "") hj
              ⟨bytes, FileTree.holds_of_read hread, htext⟩ h).2
          exact upholds_enroll hsound he (x := Source.sections j text _)
            (Identifier.isName_flatten hne hj) (Identifier.dot_not_mem_flatten j) hcode s hs

end Compiling

/-! ## Registries -/

/-- A registry has no other record for a component than ones that lead to its code, and the name of
the component belongs to it.  Its compilers are those of the configuration. -/
structure Faithful (config : Config) (i code : String) (t : FileTree) (r : Registry) : Prop where
  compilers : ∀ c ∈ r.compilers, ∃ e ∈ config.compilers, c = Compiler.ofConfig c.home e.2
  record : ∀ record, r.get? i = some record → config.Leads i code t record
  owner : ∀ k, Table.get? r.owners (Identifier.flatten i) = some k → k = i

theorem faithful_empty (t : FileTree) : config.Faithful i code t .empty where
  compilers := nofun
  record := nofun
  owner := nofun

theorem Faithful.upholds {r : Registry} (h : config.Faithful i code t r)
    (hread : ∀ e ∈ config.compilers, t.read (e.2.codePath i) = .ok (Utf8.encode code) →
      u.read (e.2.codePath i) = .ok (Utf8.encode code)) : config.Faithful i code u r where
  compilers := h.compilers
  record record hrecord := (h.record record hrecord).upholds hread
  owner := h.owner

/-- One more record that has the right to its name. -/
theorem Faithful.put {r : Registry} (h : config.Faithful i code t r)
    (howner : record.componentName = Identifier.flatten i → j = i)
    (hleads : j = i → config.Leads i code t record) :
    config.Faithful i code t (r.put j record) where
  compilers := h.compilers
  record a ha := by
    rw [Registry.get?_put] at ha
    split_ifs at ha with hj
    · cases ha
      exact hleads hj
    · exact h.record a ha
  owner k hk := by
    rw [Registry.owner_put] at hk
    split_ifs at hk with hname
    · cases hk
      exact howner hname
    · exact h.owner k hk

/-- A cache that has the component with its code at most. -/
theorem Faithful.putAll {r : Registry} (h : config.Faithful i code t r)
    {cs : List CachedComponent} (hcs : ∀ x ∈ cs,
      x.identifier = i ∨ x.componentName = Identifier.flatten i → config.Leads i code t (.cached x)) :
    config.Faithful i code t (r.putAll cs) := by
  induction cs generalizing r with
  | nil => exact h
  | cons x cs ih =>
    obtain ⟨hx, hcs⟩ := List.forall_mem_cons.mp hcs
    rw [Registry.putAll_cons]
    exact ih (h.put (fun hname ↦ (hx (.inr hname)).identifier) fun hi ↦ hx (.inl hi)) hcs

theorem Faithful.setLoaded {r : Registry} (h : config.Faithful i code t r) (j : String)
    (c : ClassId) : config.Faithful i code t (r.setLoaded j c) := ⟨h.compilers, h.record, h.owner⟩

theorem Faithful.attach {r : Registry} (h : config.Faithful i code t r)
    {e : String × CompilerConfig} (he : e ∈ config.compilers) (home : RegistryId) :
    config.Faithful i code t (r.attach (.ofConfig home e.2)) where
  compilers c hc := by
    unfold Registry.attach at hc
    split at hc
    · exact h.compilers c hc
    · rcases List.mem_append.mp hc with hc | hc
      · exact h.compilers c hc
      · rw [List.mem_singleton.mp hc]
        exact ⟨e, he, rfl⟩
  record a ha := by
    rw [Registry.get?, Registry.records_attach] at ha
    exact h.record a ha
  owner k hk := by
    rw [Registry.owners_attach] at hk
    exact h.owner k hk

/-- The code of a component stays as it is, and so does what a registry has of it.  No classes are
loaded. -/
structure Steady (config : Config) (i code : String) (s s' : Workspace) : Prop where
  files : config.Upholds i code s.files s'.files
  registry : config.Provides i code s.files →
    config.Faithful i code s.files s.registry → config.Faithful i code s'.files s'.registry
  loaded : config.Provides i code s.files → s'.registry.loaded = s.registry.loaded

instance (config : Config) (i code : String) : IsPreorder Workspace (config.Steady i code) where
  refl s := ⟨refl s.files, fun _ ↦ id, fun _ ↦ rfl⟩
  trans _ _ _ hst htu := ⟨IsTrans.trans _ _ _ hst.files htu.files,
    fun hs hr ↦ htu.registry (hst.files hs).1 (hst.registry hs hr),
    fun hs ↦ (htu.loaded (hst.files hs).1).trans (hst.loaded hs)⟩

section Steady

variable {e : String × CompilerConfig} {s s' : Workspace} {home : RegistryId}

/-- A registry that is left alone. -/
theorem steady_of_upholds (h : config.Upholds i code s.files s'.files)
    (hregistry : s'.registry = s.registry) : config.Steady i code s s' :=
  ⟨h, fun hs hr ↦ hregistry ▸ hr.upholds (h hs).2.1, fun _ ↦ by rw [hregistry]⟩

/-- Files that do not provide the code of a component promise nothing. -/
theorem steady_of_provides (h : config.Provides i code s.files → config.Steady i code s s') :
    config.Steady i code s s' :=
  ⟨fun hs ↦ (h hs).files hs, fun hs ↦ (h hs).registry hs, fun hs ↦ (h hs).loaded hs⟩

theorem steady_note (event : Event) : Moves (config.Steady i code) (Build.note event) :=
  moves_modify fun s ↦ steady_of_upholds (refl s.files) rfl

variable (hsound : e.2.Sound)
include hsound

theorem steady_ensureOutputs :
    Moves (config.Steady i code) (Compiler.ofConfig home e.2).ensureOutputs := fun s ↦
  steady_of_upholds (upholds_ensureOutputs hsound s) (Compiler.moves_ensureOutputs _ s)

variable (he : e ∈ config.compilers)
include he

theorem steady_setUp : Moves (config.Steady i code) (Compiler.ofConfig home e.2).setUp :=
  moves_bind (steady_ensureOutputs hsound) fun _ ↦ moves_modify fun s ↦
    ⟨refl s.files, fun _ hr ↦ hr.attach he home, fun _ ↦ Registry.loaded_attach _ _⟩

theorem steady_compile {source : Path} (htakes : (Compiler.ofConfig home e.2).Takes j source)
    (hj : '/' ∉ j.toList) :
    Moves (config.Steady i code) ((Compiler.ofConfig home e.2).compile j source) := by
  intro s
  have hupholds : config.Upholds i code s.files _ := upholds_compile hsound he htakes hj s
  rcases h : outcome ((Compiler.ofConfig home e.2).compile j source) s with ⟨x, s'⟩
  rw [h] at hupholds
  rcases Compiler.outcome_compile hsound.compiledCodeDir hsound.compiledAssetsDir h with
    ⟨-, hregistry, -⟩ | ⟨r, t, hr, -, -, -, ⟨-, hregistry⟩ | ⟨-, hregistry, hhold⟩⟩
  · exact steady_of_upholds hupholds hregistry
  · exact steady_of_upholds hupholds hregistry
  · refine ⟨hupholds, fun hs hfaithful ↦ ?_, fun _ ↦ by rw [hregistry]; rfl⟩
    have hdescribes := Compiler.describes_of_compiled? hr
    obtain ⟨bytes, text, parsed, hread, htext, hparsed, hassemble⟩ :=
      Compiler.compiled?_eq_some_iff.mp hr
    obtain ⟨-, rfl⟩ := Compiler.parse_eq_ok hparsed
    have hsame (hflat : Identifier.flatten j = Identifier.flatten i) :
        j = i ∧ r.codeSection = code := by
      rw [(Compiler.assemble_eq_some hassemble).1]
      exact hs.sources e he j source text (Compiler.takes_ofConfig htakes "") hj
        ⟨bytes, FileTree.holds_of_read hread, htext⟩ hflat
    rw [hregistry]
    refine (hfaithful.upholds (hupholds hs).2.1).put (fun hflat ↦ ?_) fun hji ↦ ?_
    · exact (hsame (hdescribes.componentName.symm.trans hflat)).1
    · subst hji
      rw [hdescribes.componentName] at hhold
      have hcode := (hhold (Compiler.nodup_places _ _ _)).code
      rw [(hsame rfl).2] at hcode
      exact ⟨hdescribes.identifier, hdescribes.componentName, e, he, hdescribes.codePath, hcode⟩

theorem steady_compileIdentifier (hj : '/' ∉ j.toList) :
    Moves (config.Steady i code) ((Compiler.ofConfig home e.2).compileIdentifier j) := by
  unfold Compiler.compileIdentifier
  split
  · exact moves_throw _
  · rename_i hhandles
    refine moves_bind moves_get fun s ↦ ?_
    split
    · exact steady_compile hsound he (.led (by simpa using hhandles)) hj
    · exact moves_bind (steady_note _) fun _ ↦ moves_throw _

theorem steady_scan : Moves (config.Steady i code) (Compiler.ofConfig home e.2).scan := by
  refine moves_bind (steady_ensureOutputs hsound) fun _ ↦ moves_get_bind fun s ↦
    steady_of_provides fun hs ↦ ?_
  -- the names of sources have no slash in files as they can be
  have hcompile : ∀ base ∈ Compiler.sourceNames s.files e.2.sourceDir,
      Moves (config.Steady i code) ((Compiler.ofConfig home e.2).compile
        ((Compiler.ofConfig home e.2).identifierOf base)
        ((Compiler.ofConfig home e.2).sourceOf base)) := fun base hbase ↦
    steady_compile hsound he (.named base) (Compiler.slash_not_mem_identifierOf
      (hsound.slash_not_mem home) (Compiler.slash_not_mem_sourceNames hs.sound hbase))
  exact moves_bind (moves_mapM hcompile) (fun compiled ↦ moves_bind (steady_note _) fun _ ↦
    moves_pure compiled) s

omit hsound in
/-- Loading a cache of the configuration registers the component with its code at most. -/
theorem steady_loadCache {p : Path} (hp : p ∈ e.2.cacheFile) :
    Moves (config.Steady i code) (Registry.loadCache p) := by
  intro s
  by_cases hcache : ∃ cache, Registry.Loadable s p cache
  · obtain ⟨cache, hcache⟩ := hcache
    rw [Registry.outcome_loadCache_of_loadable hcache]
    refine ⟨refl s.files, fun hs hr ↦ hr.putAll fun x hx hxi ↦ ?_, fun _ ↦ rfl⟩
    obtain ⟨⟨text, htext, hread⟩, hversion, -⟩ := hcache
    obtain ⟨content, hcontent, hin⟩ := Cache.at_of_readText htext hread hversion
    exact hs.caches e he p hp content cache (FileTree.holds_of_read hcontent) hin x hx hxi
  · push Not at hcache
    obtain ⟨event, hload⟩ := Registry.outcome_loadCache_of_not_loadable hcache
    rw [hload]
    exact steady_of_upholds (refl s.files) rfl

end Steady

end Config

namespace Boot

open Config

variable {config : Config} {i code : String} (hsound : ∀ e ∈ config.compilers, e.2.Sound)
include hsound

theorem steady_start {e : String × CompilerConfig} (he : e ∈ config.compilers) (home : RegistryId)
    (production : Bool) : Moves (config.Steady i code) (start home production e.1 e.2) := by
  simp only [start, compilerOf, bind_assoc, pure_bind]
  refine moves_bind (steady_setUp (hsound e he) he) fun _ ↦ ?_
  have hscan : Moves (config.Steady i code) (do
      let _ ← (Compiler.ofConfig home e.2).scan
      return Compiler.ofConfig home e.2) :=
    moves_bind (steady_scan (hsound e he) he) fun _ ↦ moves_pure _
  cases hfile : cacheFile? production e.2 with
  | none => exact hscan
  | some p =>
    refine moves_bind (steady_loadCache he (mem_of_cacheFile? hfile)) fun loaded ↦ ?_
    cases loaded with
    | true => exact moves_bind (steady_note _) fun _ ↦ moves_pure _
    | false => exact moves_bind (steady_note _) fun _ ↦ hscan

/-- Booting, whichever way it ends, leaves the code of a component as it is. -/
theorem steady_boot (home : RegistryId) (production : Bool) :
    Moves (config.Steady i code) (boot home production config) :=
  moves_mapM fun _ he ↦ moves_bind (steady_start hsound he home production) fun _ ↦ moves_pure _

omit hsound in
/-- What every change of a registry keeps is kept by a boot. -/
theorem keeps_start {P : Registry → Prop} (hP : Kept P) (home : RegistryId) (production : Bool)
    (e : String × CompilerConfig) :
    Moves (Keeps fun s : Workspace ↦ P s.registry) (start home production e.1 e.2) := by
  have hscan : Moves (Keeps fun s : Workspace ↦ P s.registry) (do
      let _ ← (Compiler.ofConfig home e.2).scan
      return Compiler.ofConfig home e.2) :=
    moves_bind (hP.moves_scan _) fun _ ↦ moves_pure _
  have hnote (event : Event) : Moves (Keeps fun s : Workspace ↦ P s.registry) (Build.note event) :=
    (Build.moves_note event).keeps P
  simp only [start, compilerOf, bind_assoc, pure_bind]
  refine moves_bind (hP.moves_setUp _) fun _ ↦ ?_
  cases cacheFile? production e.2 with
  | none => exact hscan
  | some p =>
    refine moves_bind (hP.moves_loadCache p) fun loaded ↦ ?_
    cases loaded with
    | true => exact moves_bind (hnote _) fun _ ↦ moves_pure _
    | false => exact moves_bind (hnote _) fun _ ↦ hscan

omit hsound in
theorem keeps_boot {P : Registry → Prop} (hP : Kept P) (home : RegistryId) (production : Bool)
    (config : Config) :
    Moves (Keeps fun s : Workspace ↦ P s.registry) (boot home production config) :=
  moves_mapM fun e _ ↦ moves_bind (keeps_start hP home production e) fun _ ↦ moves_pure _

/-- After a boot from sources that ends well all sources that were there are registered. -/
theorem knows_of_boot {home : RegistryId} {compilers : Table String Compiler} {s s' : Workspace}
    (hs : config.Provides i code s.files)
    (h : outcome (boot home false config) s = (.ok compilers, s'))
    {e : String × CompilerConfig} (he : e ∈ config.compilers) {j : String}
    (hj : j ∈ e.2.identifiers s.files) : s'.registry.Knows j := by
  -- the configurations come one after the other
  suffices hall : ∀ es ⊆ config.compilers, e ∈ es → ∀ s compilers,
      config.Provides i code s.files → j ∈ e.2.identifiers s.files →
      outcome (es.mapM fun e ↦ do
        let compiler ← start home false e.1 e.2
        return (e.1, compiler)) s = (.ok compilers, s') → s'.registry.Knows j from
    hall config.compilers (List.Subset.refl _) he s compilers hs hj h
  intro es hes he
  induction es with
  | nil => cases he
  | cons x es ih =>
    intro s compilers hs hj h
    obtain ⟨hx, hes⟩ := List.cons_subset.mp hes
    rw [List.mapM_cons, bind_assoc] at h
    obtain ⟨compiler, t, hstart, h⟩ := outcome_bind_eq_ok.mp h
    rw [outcome_pure_bind] at h
    obtain ⟨rest, u, hrest, h⟩ := outcome_bind_eq_ok.mp h
    cases h
    rcases List.mem_cons.mp he with rfl | he
    · -- its own scan finds the source, and the others take nothing away
      refine (moves_mapM fun e _ ↦ moves_bind (keeps_start (Registry.knows_kept j) home false e) fun _ ↦
        moves_pure _).of_outcome hrest ?_
      simp only [start, compilerOf, bind_assoc, pure_bind] at hstart
      obtain ⟨_, v, hsetUp, hstart⟩ := outcome_bind_eq_ok.mp hstart
      obtain ⟨rs, v', hscan, hend⟩ := outcome_bind_eq_ok.mp hstart
      cases hend
      obtain ⟨-, -, hsources⟩ :=
        ((steady_setUp (hsound _ hx) hx).of_outcome hsetUp).files hs
      obtain ⟨base, hbase, rfl⟩ := List.mem_map.mp (hsources _ hx hj)
      exact Compiler.knows_of_scan (hsound _ hx).compiledCodeDir (hsound _ hx).compiledAssetsDir
        hscan hbase
    · obtain ⟨ht, -, hsources⟩ := ((steady_start hsound hx home false).of_outcome hstart).files hs
      exact ih hes he t rest ht (hsources e (hes he) hj) hrest

end Boot

end IceCube
