import IceCube.Proofs.Compiler.Sources

/-!
# Scanning a second time

A scan that ends well leaves everything done: the directories and all files are there, and the
records are registered under names of their own.  Nothing that was written shows in the source
directory, so the sources compile to the same records on the files at the end as they did in their
turn.  Where everything is done, a scan finds every file as it should be and puts every record where
it is.
-/

namespace IceCube

open Step

namespace Registry

variable {r : Registry} {i : String} {record : Record}

/-- A record that is there and owns its name is put where it is. -/
theorem put_eq_self (hrecord : r.get? i = some record)
    (howner : Table.get? r.owners record.componentName = some i) : r.put i record = r := by
  rw [put, Table.insert_of_get?_eq_some hrecord, Table.insert_of_get?_eq_some howner]

theorem register_eq_self (hrecord : r.get? i = some record)
    (howner : Table.get? r.owners record.componentName = some i) :
    r.register i record = .ok r := by
  refine register_eq_ok_iff.mpr ⟨fun j hj ↦ ?_, (put_eq_self hrecord howner).symm⟩
  rw [howner] at hj
  cases hj
  rfl

end Registry

/-- A file that holds a text already is left alone. -/
theorem Build.outcome_writeIfChanged_of_read {s : Workspace} {p : Path} {text : String}
    (h : s.files.read p = .ok (Utf8.encode text)) :
    outcome (Build.writeIfChanged p text) s = (.ok false, s) := by
  rw [outcome_writeIfChanged, FileTree.writeIfChanged_of_read h]
  rfl

namespace Compiler

variable {c : Compiler} {i : String} {source : Path} {s s' : Workspace} {r : CompiledComponent}
  {rs : List CompiledComponent}

/-! ## Where everything is done -/

theorem outcome_writeOutputs_of_hold {o : Outputs} (h : o.Hold r s.files) :
    outcome (writeOutputs o r) s = (.ok r, s) := by
  rw [writeOutputs, outcome_bind_of_ok (Build.outcome_writeIfChanged_of_read h.code),
    outcome_bind_of_ok (Build.outcome_writeIfChanged_of_read h.script),
    outcome_bind_of_ok (Build.outcome_writeIfChanged_of_read h.style), outcome_pure]

/-- What the log says of a compiled component. -/
def compiledEvent (r : CompiledComponent) : Event := .componentCompiled r.componentName r.digest

/-- A component whose files are there and whose record is registered is compiled without a trace but
in the log. -/
theorem outcome_compile_of_hold (hcodeDir : s.files.isDirectory c.codeDir = true)
    (hassetsDir : s.files.isDirectory c.assetsDir = true)
    (hr : c.compiled? i s.files source = some r)
    (hregister : s.registry.register i (.compiled r) = .ok s.registry)
    (hhold : (c.outputs r.componentName).Hold r s.files) :
    outcome (c.compile i source) s = (.ok r, { s with log := s.log ++ [compiledEvent r] }) := by
  obtain ⟨bytes, text, p, hread, htext, hparsed, hp⟩ := compiled?_eq_some_iff.mp hr
  have hcheck : s.registry.checkName i p.componentName = .ok () := by
    rw [register_of_assemble hp] at hregister
    cases hcheck : s.registry.checkName i p.componentName with
    | error f =>
      rw [hcheck] at hregister
      cases hregister
    | ok u => rfl
  rw [outcome_compile_eq, hread]
  simp only [htext, hparsed, hcheck]
  rw [enroll, outcome_bind, outcome_store, outcome_ensureOutputs_of_isDirectory hcodeDir hassetsDir]
  simp only [hp, componentName_of_assemble hp, outcome_writeOutputs_of_hold hhold, outcome_bind,
    Build.outcome_changeRegistry, hregister, Build.note, outcome_modify, outcome_pure, compiledEvent]

/-- Some components are enrolled: their files are there, and their records are registered under names
of their own. -/
structure Enrolled (c : Compiler) (rs : List CompiledComponent) (files : FileTree)
    (registry : Registry) : Prop where
  codeDir : files.isDirectory c.codeDir = true
  assetsDir : files.isDirectory c.assetsDir = true
  hold : ∀ r ∈ rs, (c.outputs r.componentName).Hold r files
  record : ∀ r ∈ rs, registry.get? r.identifier = some (.compiled r)
  owner : ∀ r ∈ rs, Table.get? registry.owners r.componentName = some r.identifier

/-- Everything that a scan has to do is done: the sources compile to some components that are
enrolled. -/
structure Settled (c : Compiler) (rs : List CompiledComponent) (files : FileTree)
    (registry : Registry) : Prop extends Enrolled c rs files registry where
  found : c.found files = some rs

/-- One component after the other is compiled without a trace but in the log. -/
theorem outcome_compileSources_of_hold {bases : List String}
    (hcodeDir : s.files.isDirectory c.codeDir = true)
    (hassetsDir : s.files.isDirectory c.assetsDir = true)
    (h : List.Forall₂ (fun base r ↦
      c.compiled? (c.identifierOf base) s.files (c.sourceOf base) = some r) bases rs)
    (hregister : ∀ r ∈ rs, s.registry.register r.identifier (.compiled r) = .ok s.registry)
    (hhold : ∀ r ∈ rs, (c.outputs r.componentName).Hold r s.files) :
    outcome (c.compileSources bases) s =
      (.ok rs, { s with log := s.log ++ rs.map compiledEvent }) := by
  unfold compileSources
  obtain ⟨files, registry, log⟩ := s
  dsimp only at h hregister hhold
  -- the log is all that changes from one component to the next
  induction h generalizing log with
  | nil => simp
  | @cons base r bases rs hr _ ih =>
    obtain ⟨hregister₁, hregister⟩ := List.forall_mem_cons.mp hregister
    obtain ⟨hhold₁, hhold⟩ := List.forall_mem_cons.mp hhold
    rw [(describes_of_compiled? hr).identifier] at hregister₁
    have hcompile := outcome_compile_of_hold (s := ⟨files, registry, log⟩) hcodeDir hassetsDir hr
      hregister₁ hhold₁
    have hcompiled := ih (log ++ [compiledEvent r]) hcodeDir hassetsDir hregister hhold
    rw [List.mapM_cons, outcome_bind_of_ok hcompile, outcome_bind_of_ok hcompiled,
      outcome_pure, List.map_cons]
    simp only [List.append_assoc, List.singleton_append]

/-- Where everything is done, a scan does nothing but say so. -/
theorem outcome_scan_of_settled (h : c.Settled rs s.files s.registry) :
    outcome c.scan s = (.ok rs, { s with
      log := s.log ++ (rs.map compiledEvent ++ [.scanCompleted rs.length]) }) := by
  have hensure := outcome_ensureOutputs_of_isDirectory h.codeDir h.assetsDir
  have hcompiled := outcome_compileSources_of_hold h.codeDir h.assetsDir
    (found_eq_some_iff.mp h.found)
    (fun r hr ↦ Registry.register_eq_self (h.record r hr) (h.owner r hr)) h.hold
  unfold compileSources sourceOf at hcompiled
  rw [scan, outcome_bind_of_ok hensure, outcome_get_bind, outcome_bind_of_ok hcompiled, Build.note,
    outcome_modify_bind, outcome_pure, List.append_assoc]

/-! ## What a scan leaves behind -/

/-- Files that are there at the end were no directories before. -/
theorem sameBut_of_hold {t u : FileTree} (h : FileTree.Rewrites (c.Covers rs t) t u)
    (hhold : ∀ r ∈ rs, (c.outputs r.componentName).Hold r u) :
    FileTree.SameBut (c.Covers rs t) t u := by
  have hfile : ∀ l mode, c.Covers rs t l → u.at? l ≠ some (.directory mode) := by
    rintro l mode ⟨r, hr, hl⟩
    rw [← Outputs.places_of_grows h.toGrows] at hl
    obtain ⟨p, hp, rfl⟩ := List.mem_map.mp hl
    obtain ⟨-, content, mode', modified, hnode⟩ :=
      FileTree.isFile_iff.mp ((hhold r hr).isFile p hp)
    simp [hnode]
  exact {
    current := h.current
    same := h.at?
    before := fun hl ht ↦ hfile _ _ hl (h.directory ht)
    after := fun hl ↦ hfile _ _ hl }

/-- No file of a component is in the source directory, where compiled files go elsewhere. -/
theorem not_covers_sourceDir {t : FileTree} (hcodeDir : t.place c.codeDir ≠ t.place c.sourceDir)
    (hassetsDir : t.place c.assetsDir ≠ t.place c.sourceDir)
    (hnames : ∀ r ∈ rs, Path.IsName r.componentName) (n : String) :
    ¬ c.Covers rs t (t.place c.sourceDir ++ [n]) := by
  rintro ⟨r, hr, hl⟩
  obtain ⟨suffix, -, hl | hl, -⟩ := exists_of_mem_places (hnames r hr) hl
  · exact hcodeDir (List.append_inj_left' hl rfl).symm
  · exact hassetsDir (List.append_inj_left' hl rfl).symm

theorem flatten_identifierOf (c : Compiler) (base : String) :
    Identifier.flatten (c.identifierOf base) =
      Identifier.flatten c.namespacePrefix ++ "_" ++ Identifier.flatten base := by
  refine String.toList_injective ?_
  simp only [identifierOf, Identifier.flatten_below, String.toList_append]

section Settling

variable (hcode : c.codeDir.Proper) (hassets : c.assetsDir.Proper)
include hcode hassets

/-- Components that are compiled in a run are those of the sources. -/
theorem describes_of_compileSources {bases : List String}
    (h : outcome (c.compileSources bases) s = (.ok rs, s')) :
    ∀ r ∈ rs, (∃ base ∈ bases, r.identifier = c.identifierOf base) ∧
      c.Describes r.identifier r := by
  intro r hr
  obtain ⟨-, -, hall⟩ := outcome_compileSources_eq_ok hcode hassets h
  obtain ⟨k, hk⟩ := List.getElem?_of_mem hr
  obtain ⟨base, hbase, v, -, -, hv⟩ := exists_getElem?_of_forall₂ hall.flip hk
  have hdescribes := describes_of_compiled? hv
  refine ⟨⟨base, List.mem_of_getElem? hbase, hdescribes.identifier⟩, ?_⟩
  rw [hdescribes.identifier]
  exact hdescribes

/-- Where the directories are there, the files of the components are all that is written, and each
file is there at the end if no name is that of two components. -/
theorem rewrites_compileSources {bases : List String} {registry : Registry}
    (hcodeDir : s.files.isDirectory c.codeDir = true)
    (hassetsDir : s.files.isDirectory c.assetsDir = true) (hbases : bases.Nodup)
    (hslash : ∀ base ∈ bases, '/' ∉ base.toList)
    (hknows : ∀ base ∈ bases, registry.Knows (c.identifierOf base))
    (h : outcome (c.compileSources bases) s = (.ok rs, s')) :
    FileTree.Rewrites (c.Covers rs s.files) s.files s'.files ∧
      ∀ r ∈ rs, (c.outputs r.componentName).Hold r s'.files := by
  induction bases generalizing s rs with
  | nil =>
    cases h
    exact ⟨.refl _ _, by simp⟩
  | cons base bases ih =>
    obtain ⟨hnew, hbases⟩ := List.nodup_cons.mp hbases
    obtain ⟨hslash₁, hslash⟩ := List.forall_mem_cons.mp hslash
    obtain ⟨hknows₁, hknows⟩ := List.forall_mem_cons.mp hknows
    rw [compileSources, List.mapM_cons] at h
    obtain ⟨r, t, hr, h⟩ := outcome_bind_eq_ok.mp h
    obtain ⟨rs, u, hrs, h⟩ := outcome_bind_eq_ok.mp h
    cases h
    have hensure := outcome_ensureOutputs_of_isDirectory hcodeDir hassetsDir
    rcases outcome_compile hcode hassets hr with
      ⟨⟨_, ⟨⟩⟩, -⟩ | ⟨_, t', hcompiled, -, hensure', hrewrites, ⟨⟨_, ⟨⟩⟩, -⟩ | ⟨⟨⟩, -, hhold⟩⟩
    rw [hensure] at hensure'
    cases hensure'
    have hdescribes := describes_of_compiled? hcompiled
    obtain ⟨hrest, hholds⟩ := ih (hrewrites.isDirectory hcodeDir) (hrewrites.isDirectory hassetsDir)
      hbases hslash hknows hrs
    have hcovers : ∀ l, c.Covers rs t.files l → c.Covers (r :: rs) s.files l := by
      intro l hl
      obtain ⟨r', hr', hl⟩ := (covers_of_grows hrewrites.toGrows rs l).mp hl
      exact ⟨r', List.mem_cons_of_mem _ hr', hl⟩
    refine ⟨(hrewrites.mono fun l hl ↦ ⟨r, by simp, hl⟩).trans (hrest.mono hcovers),
      List.forall_mem_cons.mpr ⟨?_, hholds⟩⟩
    refine (hhold (nodup_places c _ _)).grows hrest.toGrows ?_
    -- a component with the same files would have the same name, and so the same source
    rintro l hl ⟨r', hr', hl'⟩
    obtain ⟨⟨base', hmem, hidentifier⟩, hdescribes'⟩ :=
      describes_of_compileSources hcode hassets hrs r' hr'
    rw [hidentifier] at hdescribes'
    rw [hdescribes.componentName, flatten_identifierOf] at hl
    rw [hdescribes'.componentName, flatten_identifierOf] at hl'
    refine not_mem_places_append (mt Identifier.slash_mem_flatten_iff.mp hslash₁)
      (mt Identifier.slash_mem_flatten_iff.mp (hslash base' hmem)) (fun heq ↦ hnew ?_) hl hl'
    have howner := hknows₁.owner
    rw [flatten_identifierOf, heq, ← flatten_identifierOf, (hknows base' hmem).owner,
      Option.some.injEq] at howner
    rwa [identifierOf_injective c howner] at hmem

/-- The components of all sources of a directory are enrolled, and their files are all that was
written. -/
theorem enrolled_of_compileSources (hs : s.files.Sound)
    (hcodeThere : s.files.isDirectory c.codeDir = true)
    (hassetsThere : s.files.isDirectory c.assetsDir = true)
    (h : outcome (c.compileSources (sourceNames s.files c.sourceDir)) s = (.ok rs, s')) :
    c.Enrolled rs s'.files s'.registry ∧
      FileTree.Rewrites (c.Covers rs s.files) s.files s'.files := by
  obtain ⟨hregisters, -, hall⟩ := outcome_compileSources_eq_ok hcode hassets h
  have hbases := nodup_sourceNames hs c.sourceDir
  have hidentifiers := identifiers_of_forall₂ hall fun base x ⟨_, _, _, hx⟩ ↦
    (describes_of_compiled? hx).identifier
  have hdescribes := describes_of_compileSources hcode hassets h
  have hkeys : (Table.keys (rs.map entry)).Nodup := by
    have hkeys : Table.keys (rs.map entry) = rs.map (·.identifier) := List.map_map ..
    rw [hkeys, hidentifiers]
    exact hbases.map (identifierOf_injective c)
  have hknows : ∀ r ∈ rs, s'.registry.Knows r.identifier := fun r hr ↦
    Registry.knows_of_registerEach hregisters (List.mem_map_of_mem hr)
      (hdescribes r hr).2.componentName
  have hknowsBases : ∀ base ∈ sourceNames s.files c.sourceDir,
      s'.registry.Knows (c.identifierOf base) := by
    intro base hbase
    have hmem : c.identifierOf base ∈ rs.map (·.identifier) := by
      rw [hidentifiers]
      exact List.mem_map_of_mem hbase
    obtain ⟨r, hr, heq⟩ := List.mem_map.mp hmem
    rw [← heq]
    exact hknows r hr
  obtain ⟨hrewrites, hhold⟩ := rewrites_compileSources hcode hassets hcodeThere hassetsThere hbases
    (fun _ ↦ slash_not_mem_sourceNames hs) hknowsBases h
  refine ⟨?_, hrewrites⟩
  exact {
    codeDir := hrewrites.isDirectory hcodeThere
    assetsDir := hrewrites.isDirectory hassetsThere
    hold := hhold
    record := by
      intro r hr
      rw [Registry.registerEach_eq_ok hregisters, Registry.get?, Registry.records_putEach,
        Table.get?_insertAll_of_nodup _ hkeys,
        (Table.get?_eq_some_iff hkeys).mpr (List.mem_map_of_mem hr), Option.some_or]
    owner := by
      intro r hr
      rw [(hdescribes r hr).2.componentName]
      exact (hknows r hr).owner }

/-- If all sources of a directory are compiled and nothing is written into it, everything is done. -/
theorem settled_of_compileSources (hns : '/' ∉ c.namespacePrefix.toList) (hs : s.files.Sound)
    (hcodeThere : s.files.isDirectory c.codeDir = true)
    (hassetsThere : s.files.isDirectory c.assetsDir = true)
    (hcodeDir : s.files.place c.codeDir ≠ s.files.place c.sourceDir)
    (hassetsDir : s.files.place c.assetsDir ≠ s.files.place c.sourceDir)
    (h : outcome (c.compileSources (sourceNames s.files c.sourceDir)) s = (.ok rs, s')) :
    c.Settled rs s'.files s'.registry := by
  obtain ⟨-, -, hall⟩ := outcome_compileSources_eq_ok hcode hassets h
  obtain ⟨henrolled, hrewrites⟩ := enrolled_of_compileSources hcode hassets hs hcodeThere
    hassetsThere h
  have hoff := not_covers_sourceDir hcodeDir hassetsDir fun r hr ↦ by
    obtain ⟨⟨base, hbase, hidentifier⟩, hr⟩ := describes_of_compileSources hcode hassets h r hr
    rw [hr.componentName]
    refine Identifier.isName_flatten hr.nonempty ?_
    rw [hidentifier]
    exact slash_not_mem_identifierOf hns (slash_not_mem_sourceNames hs hbase)
  have hsame := (sameBut_of_hold hrewrites henrolled.hold).sameSources hoff
  refine { henrolled with found := found_eq_some_iff.mpr ?_ }
  rw [sourceNames_eq hs (hrewrites.sound hs) hsame]
  refine ((List.forall₂_and_left _ _).mpr ⟨fun _ ↦ id, hall⟩).imp ?_
  rintro base r ⟨hbase, v, hv, hv', hr⟩
  rw [compiled?_eq hs hbase hsame, ← hr,
    compiled?_eq hs hbase (hv.sameSources hv' hoff hsame)]

/-- A scan that ends well leaves everything done, if it does not write into the source directory. -/
theorem settled_of_scan (hns : '/' ∉ c.namespacePrefix.toList) (hs : s.files.Sound)
    (hcodeDir : s.files.place c.codeDir ≠ s.files.place c.sourceDir)
    (hassetsDir : s.files.place c.assetsDir ≠ s.files.place c.sourceDir)
    (h : outcome c.scan s = (.ok rs, s')) : c.Settled rs s'.files s'.registry := by
  obtain ⟨s₁, u, -, hgrows, hcodeThere, hassetsThere, hcompiled, rfl⟩ :=
    exists_compileSources_of_scan hcode hassets h
  have hsound := hgrows.sound hs
  rw [← hgrows.place, ← hgrows.place c.sourceDir] at hcodeDir hassetsDir
  have hsettled := settled_of_compileSources hcode hassets hns hsound hcodeThere hassetsThere
    hcodeDir hassetsDir hcompiled
  exact hsettled

end Settling

/-- Scanning again changes nothing: where compiled files do not go into the source directory, a scan
after one that ended well compiles the same components, and leaves every file and the registry as
they are. -/
theorem rescan_changes_nothing (hcode : c.codeDir.Proper) (hassets : c.assetsDir.Proper)
    (hns : '/' ∉ c.namespacePrefix.toList) (hs : s.files.Sound)
    (hcodeDir : s.files.place c.codeDir ≠ s.files.place c.sourceDir)
    (hassetsDir : s.files.place c.assetsDir ≠ s.files.place c.sourceDir)
    (h : outcome c.scan s = (.ok rs, s')) :
    outcome c.scan s' = (.ok rs, { s' with
      log := s'.log ++ (rs.map compiledEvent ++ [.scanCompleted rs.length]) }) :=
  outcome_scan_of_settled (settled_of_scan hcode hassets hns hs hcodeDir hassetsDir h)

/-- A card and a deck with a script. -/
def deckFiles : FileTree :=
  cardFiles.set ["src", "Deck.ice.py"]
    (.file (Utf8.encode "<script>deal()</script>") FileTree.fileMode 0)

theorem rescan_of_deck_changes_nothing : ∃ rs s',
    outcome cardCompiler.scan ⟨deckFiles, .empty, []⟩ = (.ok rs, s') ∧ rs.length = 2 ∧
      outcome cardCompiler.scan s' = (.ok rs, { s' with
        log := s'.log ++ (rs.map compiledEvent ++ [.scanCompleted rs.length]) }) := by
  have hlength : (outcome cardCompiler.scan ⟨deckFiles, .empty, []⟩).1.toOption.map List.length =
      some 2 := by
    simp only [scan, sourceNames, FileTree.names_eq_insertionSort]
    decide +kernel
  rcases h : outcome cardCompiler.scan ⟨deckFiles, .empty, []⟩ with ⟨e | rs, s'⟩
  · rw [h] at hlength
    cases hlength
  · rw [h] at hlength
    exact ⟨rs, s', rfl, Option.some.inj hlength, rescan_changes_nothing (by decide) (by decide)
      (by decide) (by decide) (by decide) (by decide) h⟩

/-- A compiler whose prefix has a slash, so that it writes into a directory below that for compiled
files. -/
def slashCompiler : Compiler where
  home := "main"
  namespacePrefix := "ui/x"
  sourceDir := ⟨.relative, ["ui"]⟩
  codeDir := ⟨.relative, []⟩
  assetsDir := ⟨.relative, []⟩
  publicUrl := "/out"
  style := .scopingOnly
  script := .externalBundler

/-- The script of the second of these sources is put beside the first one. -/
def slashFiles : FileTree :=
  (((FileTree.empty []).set ["ui"] (.directory FileTree.parentMode)).set ["ui", "x_z.ice.py"]
    (.file [] FileTree.fileMode 0)).set ["ui", "z.ice.py"]
    (.file [] FileTree.fileMode 0)

/-- What is written in the first scan is a script in the second one, so the components differ. -/
theorem slash_prefix_feeds_back :
    slashFiles.place slashCompiler.codeDir ≠ slashFiles.place slashCompiler.sourceDir ∧
    slashFiles.place slashCompiler.assetsDir ≠ slashFiles.place slashCompiler.sourceDir ∧
    ∃ rs rs' s s', outcome slashCompiler.scan ⟨slashFiles, .empty, []⟩ = (.ok rs, s) ∧
      outcome slashCompiler.scan s = (.ok rs', s') ∧ rs' ≠ rs := by
  -- which of the components have a script
  let scripts (x : Except Error (List CompiledComponent)) : Option (List Bool) :=
    x.toOption.map (·.map (·.scriptSection.isSome))
  have hfirst : scripts (outcome slashCompiler.scan ⟨slashFiles, .empty, []⟩).1 =
      some [false, false] := by
    simp only [scan, sourceNames, FileTree.names_eq_insertionSort]
    decide +kernel
  have hsecond : scripts (outcome slashCompiler.scan
      (outcome slashCompiler.scan ⟨slashFiles, .empty, []⟩).2).1 = some [true, false] := by
    simp only [scan, sourceNames, FileTree.names_eq_insertionSort]
    decide +kernel
  rcases h : outcome slashCompiler.scan ⟨slashFiles, .empty, []⟩ with ⟨e | rs, s⟩
  · rw [h] at hfirst
    cases hfirst
  rcases h' : outcome slashCompiler.scan s with ⟨e | rs', s'⟩
  · rw [h, h'] at hsecond
    cases hsecond
  refine ⟨by decide, by decide, rs, rs', s, s', rfl, h', ?_⟩
  rintro rfl
  rw [h] at hfirst
  rw [h, h', hfirst] at hsecond
  exact absurd hsecond (by decide)

end Compiler

end IceCube
