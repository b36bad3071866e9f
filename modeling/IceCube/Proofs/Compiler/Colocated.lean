import IceCube.Proofs.Compiler.Fingerprint
import IceCube.Proofs.FileTree.Difference

/-!
# The script beside a source

A source can have its script in a file beside it.  Compiling looks at that file once, and what it makes
of it is the text of a script or nothing.  So it is all the same in which way there is no script, and a
script that is there takes the place of the first one in the source.  All this is about what compiling
reads; the files that it writes have to be elsewhere, since whether they can be written depends on what
is there.
-/

namespace IceCube

open Step FileTree Source

variable {d : Difference} {s s' t t' : Workspace}

/-! ## Two runs of building -/

/-- Two workspaces that differ in files only, and there in nothing else than is given. -/
structure Workspace.Twin (d : Difference) (s s' : Workspace) : Prop where
  files : d.Between s.files s'.files
  registry : s'.registry = s.registry
  log : s'.log = s.log

namespace Build

theorem together_ensureDirectory {p : Path} (hp : d.Clear p) :
    Together (Workspace.Twin d) (Workspace.Twin d) (fun _ _ ↦ True) (ensureDirectory p)
      (ensureDirectory p) := by
  intro s s' h
  have hboth := h.files.ensureDirectory hp
  rw [outcome_ensureDirectory, outcome_ensureDirectory]
  generalize s.files.ensureDirectory p = x at hboth ⊢
  generalize s'.files.ensureDirectory p = y at hboth ⊢
  cases hboth with
  | fault f => exact .error _ h
  | done hfiles => exact .ok trivial ⟨hfiles, h.registry, h.log⟩

theorem together_writeIfChanged {p : Path} {text text' : String} (hproper : p.Proper)
    (hp : d.Clear p) (htext : ¬ d.edited (d.place p) → text' = text) :
    Together (Workspace.Twin d) (Workspace.Twin d) (fun _ _ ↦ True) (writeIfChanged p text)
      (writeIfChanged p text') := by
  intro s s' h
  have hcontent : ¬ d.edited (d.place p) → Utf8.encode text' = Utf8.encode text :=
    fun hedited ↦ by rw [htext hedited]
  have hend := h.files.writeIfChanged hproper hp hcontent
  rw [outcome_writeIfChanged, outcome_writeIfChanged]
  generalize s.files.writeIfChanged undisturbed p (Utf8.encode text) = x at hend ⊢
  generalize s'.files.writeIfChanged undisturbed p (Utf8.encode text') = y at hend ⊢
  cases hend with
  | ok _ hfiles => exact .ok trivial ⟨hfiles, h.registry, h.log⟩
  | error f hfiles => exact .error _ ⟨hfiles, h.registry, h.log⟩

end Build

namespace Compiler

variable {c : Compiler} {i : String} {source : Path} {r r' : CompiledComponent}
  {p p' : ParsedComponent}

theorem together_ensureOutputs (hcode : d.Clear c.codeDir) (hassets : d.Clear c.assetsDir) :
    Together (Workspace.Twin d) (Workspace.Twin d) (fun _ _ ↦ True) c.ensureOutputs
      c.ensureOutputs :=
  together_bind (Build.together_ensureDirectory hcode) (fun _ _ ↦ id) fun _ _ _ ↦
    Build.together_ensureDirectory hassets

/-- Records with the same script and style are written to the same files alike.  Their code can differ
where the file of the code is one of those that are edited. -/
theorem together_writeOutputs {o : Outputs} (hproper : ∀ q ∈ o.paths, q.Proper)
    (hclear : ∀ q ∈ o.paths, d.Clear q)
    (hcode : ¬ d.edited (d.place o.code) → r'.codeSection = r.codeSection)
    (hscript : r'.compiledScript = r.compiledScript) (hstyle : r'.compiledStyle = r.compiledStyle) :
    Together (Workspace.Twin d) (Workspace.Twin d) (fun a b ↦ a = r ∧ b = r') (writeOutputs o r)
      (writeOutputs o r') := by
  have hmem : o.code ∈ o.paths ∧ o.script ∈ o.paths ∧ o.style ∈ o.paths := by
    simp [Outputs.paths]
  obtain ⟨hmem₁, hmem₂, hmem₃⟩ := hmem
  refine together_bind (Build.together_writeIfChanged (hproper _ hmem₁) (hclear _ hmem₁) hcode)
    (fun _ _ ↦ id) fun _ _ _ ↦ ?_
  refine together_bind (Build.together_writeIfChanged (hproper _ hmem₂) (hclear _ hmem₂)
    fun _ ↦ hscript) (fun _ _ ↦ id) fun _ _ _ ↦ ?_
  refine together_bind (Build.together_writeIfChanged (hproper _ hmem₃) (hclear _ hmem₃)
    fun _ ↦ by rw [hstyle]) (fun _ _ ↦ id) fun _ _ _ ↦ ?_
  exact together_pure ⟨rfl, rfl⟩

/-- What is compiled of two parsed sources is the same apart from their code. -/
structure SameSections (p p' : ParsedComponent) : Prop where
  name : p'.componentName = p.componentName
  styles : p'.styleBlocks = p.styleBlocks
  script : p'.scriptSection.getD "" = p.scriptSection.getD ""

/-- Parsed sources with the same sections are turned down together, or they have the same compiled
files. -/
theorem SameSections.assemble (h : SameSections p p') :
    (c.assemble p = none ∧ c.assemble p' = none) ∨
      ∃ r r', c.assemble p = some r ∧ c.assemble p' = some r' ∧
        r'.compiledScript = r.compiledScript ∧ r'.compiledStyle = r.compiledStyle := by
  unfold Compiler.assemble
  rw [h.name, h.styles, h.script]
  cases c.style.compileAll p.componentName p.styleBlocks with
  | none => exact .inl ⟨rfl, rfl⟩
  | some style => exact .inr ⟨_, _, rfl, rfl, rfl, rfl⟩

/-- The paths that compiling goes along: that of the source and those that it writes to. -/
def ways (c : Compiler) (i : String) (source : Path) : List Path :=
  source :: c.codeDir :: c.assetsDir :: (c.outputs (Identifier.flatten i)).paths

section Together

variable (hcode : c.codeDir.Proper) (hassets : c.assetsDir.Proper)
include hcode hassets

theorem together_store (hsame : SameSections p p') (hcodeDir : d.Clear c.codeDir)
    (hassetsDir : d.Clear c.assetsDir) (hclear : ∀ q ∈ (c.outputs p.componentName).paths, d.Clear q)
    (hedited : ¬ d.edited (d.place (c.outputs p.componentName).code) →
      p'.codeSection = p.codeSection) :
    Together (Workspace.Twin d) (Workspace.Twin d)
      (fun r r' ↦ c.assemble p = some r ∧ c.assemble p' = some r') (c.store p) (c.store p') := by
  intro s s' h
  have hensure := together_ensureOutputs hcodeDir hassetsDir h
  rw [outcome_store, outcome_store]
  generalize outcome c.ensureOutputs s = x at hensure ⊢
  generalize outcome c.ensureOutputs s' = y at hensure ⊢
  cases hensure with
  | error e htwin => exact .error e htwin
  | @ok _ _ t t' _ htwin =>
    dsimp only
    rcases hsame.assemble (c := c) with ⟨hr, hr'⟩ | ⟨r, r', hr, hr', hscript, hstyle⟩ <;>
      rw [hr, hr', hsame.name]
    · exact .error _ ⟨htwin.files, htwin.registry, by rw [htwin.log]⟩
    · have hsection : ¬ d.edited (d.place (c.outputs p.componentName).code) →
          r'.codeSection = r.codeSection := by
        intro hnot
        rw [(assemble_eq_some hr).1, (assemble_eq_some hr').1, hedited hnot]
      refine (together_writeOutputs (proper_outputs hcode hassets _) hclear hsection hscript hstyle
        htwin).mono ?_ fun _ _ ↦ id
      rintro a b ⟨rfl, rfl⟩
      exact ⟨rfl, rfl⟩

/-- Parsed sources with the same sections are enrolled together.  If they are the same in all, so is what
is registered and logged. -/
theorem together_enroll (hsame : SameSections p p') (hcodeDir : d.Clear c.codeDir)
    (hassetsDir : d.Clear c.assetsDir) (hclear : ∀ q ∈ (c.outputs p.componentName).paths, d.Clear q)
    (hedited : ¬ d.edited (d.place (c.outputs p.componentName).code) →
      p'.codeSection = p.codeSection) :
    Together (Workspace.Twin d) (fun t t' ↦ p' = p → Workspace.Twin d t t')
      (fun r r' ↦ c.assemble p = some r ∧ c.assemble p' = some r') (c.enroll i p)
      (c.enroll i p') := by
  refine together_bind (together_store hcode hassets hsame hcodeDir hassetsDir hclear hedited)
    (fun _ _ htwin _ ↦ htwin) fun r r' ⟨hr, hr'⟩ s s' htwin ↦ ?_
  have hname : r'.componentName = r.componentName := by
    rw [(assemble_eq_some hr).1, (assemble_eq_some hr').1, hsame.name]
  have hregister (registry : Registry) (x : CompiledComponent) :
      registry.register i (.compiled x) =
        (registry.checkName i x.componentName).map fun _ ↦ registry.put i (.compiled x) :=
    registry.register_eq_map i (.compiled x)
  rw [outcome_bind, outcome_bind, Build.outcome_changeRegistry, Build.outcome_changeRegistry,
    hregister, hregister, htwin.registry, hname]
  cases s.registry.checkName i r.componentName with
  | error f => exact .error _ fun _ ↦ htwin
  | ok u =>
    refine .ok ⟨hr, hr'⟩ ?_
    rintro rfl
    rw [hr] at hr'
    cases hr'
    exact ⟨htwin.files, rfl, congrArg (· ++ _) htwin.log⟩

end Together

/-! ## What is beside a source -/

/-- What is beside a source is no script: nothing, a directory, a file that is no text or an empty
one. -/
def Unusable (files : FileTree) (source : Path) : Prop :=
  files.node? (scriptPathFor source) = none ∨
    (∃ mode, files.node? (scriptPathFor source) = some (.directory mode)) ∨
    ∃ b, files.read (scriptPathFor source) = .ok b ∧ (Utf8.decode b = none ∨ b = [])

/-- Beside a source is a file with a text, which is not empty. -/
def Usable (files : FileTree) (source : Path) (text : String) : Prop :=
  ∃ b, files.read (scriptPathFor source) = .ok b ∧ b ≠ [] ∧ Utf8.decode b = some text

theorem script?_eq_bind_shown (files : FileTree) (source : Path) :
    script? files source = (files.shown (scriptPathFor source)).join.bind Utf8.decode := by
  rw [script?, toOption_read]

/-- Whatever keeps what is beside a source from being a script, for compiling it is one that is
empty. -/
theorem unusable_iff {files : FileTree} :
    Unusable files source ↔ (script? files source).getD "" = "" := by
  rw [script?_eq_bind_shown, shown]
  simp only [Unusable, read_eq_ok_iff_node?]
  rcases files.node? (scriptPathFor source) with _ | ⟨b, mode, modified⟩ | mode
  · simp
  · have hempty : b = [] ↔ Utf8.decode b = some "" := by
      refine ⟨?_, fun h ↦ (Utf8.encode_of_decode h).symm⟩
      rintro rfl
      exact Utf8.decode_encode ""
    cases hb : Utf8.decode b <;> simp [Node.content?, hempty, hb]
  · simp [Node.content?]

theorem script?_of_usable {files : FileTree} {text : String} (h : Usable files source text) :
    script? files source = some text ∧ text ≠ "" := by
  obtain ⟨b, hread, hb, hdecode⟩ := h
  refine ⟨?_, ?_⟩
  · rw [script?, hread]
    exact hdecode
  · rintro rfl
    exact hb (Utf8.encode_of_decode hdecode).symm

/-! ## No script beside a source -/

/-- What is beside a source, with all that is below it. -/
def besideSource (files : FileTree) (source : Path) : Difference where
  current := files.current
  hidden l := files.place (scriptPathFor source) <+: l
  edited _ := False
  below := List.IsPrefix.trans

/-- Whatever keeps what is beside a source from being a script, compiling does the same. -/
theorem sameEnd_of_unusable (hcode : c.codeDir.Proper) (hassets : c.assetsDir.Proper)
    (htwin : s.Twin (besideSource s.files source) s')
    (hclear : ∀ q ∈ c.ways i source, (besideSource s.files source).Clear q)
    (h : Unusable s.files source) (h' : Unusable s'.files source) :
    SameEnd Eq (Workspace.Twin (besideSource s.files source)) (outcome (c.compile i source) s)
      (outcome (c.compile i source) s') := by
  obtain ⟨hsource, hcodeDir, hassetsDir, houtputs⟩ :
      (besideSource s.files source).Clear source ∧ (besideSource s.files source).Clear c.codeDir ∧
        (besideSource s.files source).Clear c.assetsDir ∧
          ∀ q ∈ (c.outputs (Identifier.flatten i)).paths,
            (besideSource s.files source).Clear q := by
    simpa only [ways, List.forall_mem_cons] using hclear
  have hparse (text : String) : parse i text (script? s'.files source) =
      parse i text (script? s.files source) := by
    have hscript := (unusable_iff.mp h').trans (unusable_iff.mp h).symm
    rw [parse, parse, sections_congr hscript]
  rw [outcome_compile_eq, outcome_compile_eq, htwin.files.read hsource id]
  cases s.files.read source with
  | error f => exact .error _ htwin
  | ok b =>
    dsimp only
    cases Utf8.decode b with
    | none => exact .error _ ⟨htwin.files, htwin.registry, congrArg (· ++ _) htwin.log⟩
    | some text =>
      dsimp only
      rw [hparse]
      cases hp : parse i text (script? s.files source) with
      | error issues => exact .error _ htwin
      | ok p =>
        dsimp only
        rw [htwin.registry]
        cases s.registry.checkName i p.componentName with
        | error f => exact .error _ htwin
        | ok u =>
          have hname : p.componentName = Identifier.flatten i := by
            rw [(parse_eq_ok hp).2, sections]
          have hend := together_enroll (i := i) (p := p) hcode hassets ⟨rfl, rfl, rfl⟩ hcodeDir
            hassetsDir (by rwa [hname]) (fun _ ↦ rfl) htwin
          refine hend.mono ?_ fun _ _ h ↦ h rfl
          rintro r r' ⟨hr, hr'⟩
          exact Option.some.inj (hr.symm.trans hr')

/-! ## A script beside a source -/

/-- The text of a source, none where it cannot be read as a text. -/
def sourceText? (files : FileTree) (source : Path) : Option String :=
  (files.read source).toOption.bind Utf8.decode

theorem sourceText?_eq_some_iff {files : FileTree} {text : String} :
    sourceText? files source = some text ↔
      ∃ b, files.read source = .ok b ∧ Utf8.decode b = some text := by
  rw [sourceText?, Option.bind_eq_some_iff]
  simp only [toOption_eq_some_iff]

/-- With a script beside it, a source is compiled to the record of its sections with that script. -/
theorem assemble_of_usable {text script : String} (hscript : Usable s.files source script)
    (htext : sourceText? s.files source = some text)
    (h : outcome (c.compile i source) s = (.ok r, t)) :
    c.assemble (sections i text (some script)) = some r := by
  obtain ⟨b, hread, hdecode⟩ := sourceText?_eq_some_iff.mp htext
  have hcompiles : c.Compiles i text (some script) r :=
    ⟨source, s, t, b, hread, hdecode, (script?_of_usable hscript).1, h⟩
  exact hcompiles.assemble

/-- A script beside a source is the script of its record, as it is. -/
theorem scriptSection_of_usable {script : String} (hscript : Usable s.files source script)
    (h : outcome (c.compile i source) s = (.ok r, t)) : r.scriptSection = some script := by
  obtain ⟨b, text, -, hread, hdecode, -⟩ := compiled?_eq_some_iff.mp (compiled?_of_compile h)
  have hassemble :=
    assemble_of_usable hscript (sourceText?_eq_some_iff.mpr ⟨b, hread, hdecode⟩) h
  rw [(assemble_eq_some hassemble).1, sections, scriptSection_eq, Option.getD_some,
    if_neg (script?_of_usable hscript).2]

/-- With the same script beside them, sources with the same style blocks have the same sections apart
from their code. -/
theorem sameSections_of_styleBlocks {text text' script : String} (hscript : script ≠ "")
    (h : styleBlocks text' = styleBlocks text) :
    SameSections (sections i text (some script)) (sections i text' (some script)) where
  name := by rw [sections, sections]
  styles := by rw [sections, sections, h]
  script := by
    have hbeside : Beside (some script) := hscript
    simp only [sections, getD_scriptSection hbeside]

/-- Wherever they are compiled, sources with the same style blocks and the same script beside them have
the same script and style, in their records and in their files. -/
theorem same_script_and_style (hcode : c.codeDir.Proper) (hassets : c.assetsDir.Proper)
    {source' : Path} {text text' script : String} (hscript : Usable s.files source script)
    (hscript' : Usable s'.files source' script) (htext : sourceText? s.files source = some text)
    (htext' : sourceText? s'.files source' = some text')
    (hstyles : styleBlocks text' = styleBlocks text)
    (h : outcome (c.compile i source) s = (.ok r, t))
    (h' : outcome (c.compile i source') s' = (.ok r', t')) :
    r'.compiledScript = r.compiledScript ∧ r'.compiledStyle = r.compiledStyle ∧
      t'.files.read (c.outputs (Identifier.flatten i)).script =
        t.files.read (c.outputs (Identifier.flatten i)).script ∧
      t'.files.read (c.outputs (Identifier.flatten i)).style =
        t.files.read (c.outputs (Identifier.flatten i)).style := by
  have hr := assemble_of_usable hscript htext h
  have hr' := assemble_of_usable hscript' htext' h'
  have hsame := sameSections_of_styleBlocks (i := i) (script?_of_usable hscript).2 hstyles
  have hhold := hold_of_compile hcode hassets h
  have hhold' := hold_of_compile hcode hassets h'
  rw [(describes_of_compiled? (compiled?_of_compile h)).componentName] at hhold
  rw [(describes_of_compiled? (compiled?_of_compile h')).componentName] at hhold'
  rcases hsame.assemble (c := c) with ⟨hnone, -⟩ | ⟨q, q', hq, hq', hscripts, hstyle⟩
  · rw [hr] at hnone
    cases hnone
  · rw [hr] at hq
    rw [hr'] at hq'
    cases hq
    cases hq'
    refine ⟨hscripts, hstyle, ?_, ?_⟩
    · rw [hhold.script, hhold'.script, hscripts]
    · rw [hhold.style, hhold'.style, hstyle]

/-- The content of a source. -/
def contentOf (files : FileTree) (source : Path) : Difference where
  current := files.current
  hidden _ := False
  edited l := l = files.place source
  below := False.elim

/-- Another source with the same style blocks in place of a source with a script beside it fails for the
same reason or not at all. -/
theorem fails_compile_iff_of_usable (hcode : c.codeDir.Proper) (hassets : c.assetsDir.Proper)
    {text text' script : String} (htwin : s.Twin (contentOf s.files source) s')
    (hscript : Usable s.files source script) (hscript' : Usable s'.files source script)
    (htext : sourceText? s.files source = some text)
    (htext' : sourceText? s'.files source = some text')
    (hstyles : styleBlocks text' = styleBlocks text) (e : Error) :
    Fails (c.compile i source) s e ↔ Fails (c.compile i source) s' e := by
  -- the code of the two is different too
  let d : Difference := { contentOf s.files source with
    edited := fun l ↦ l = s.files.place source ∨
      l = s.files.place (c.outputs (Identifier.flatten i)).code }
  have htwin : s.Twin d s' :=
    ⟨htwin.files.mono rfl (fun _ ↦ id) fun _ ↦ .inl, htwin.registry, htwin.log⟩
  have hclear (q : Path) : d.Clear q := fun _ _ ↦ id
  obtain ⟨b, hread, hdecode⟩ := sourceText?_eq_some_iff.mp htext
  obtain ⟨b', hread', hdecode'⟩ := sourceText?_eq_some_iff.mp htext'
  suffices hend : SameEnd (fun _ _ ↦ True) (fun _ _ ↦ True) (outcome (c.compile i source) s)
      (outcome (c.compile i source) s') from hend.fails_iff e
  rw [outcome_compile_eq, outcome_compile_eq, hread, hread']
  dsimp only
  rw [hdecode, hdecode', (script?_of_usable hscript).1, (script?_of_usable hscript').1]
  dsimp only
  rw [parse, parse]
  cases nameIssues i with
  | cons issue issues => exact .error _ trivial
  | nil =>
    have hsame := sameSections_of_styleBlocks (i := i) (script?_of_usable hscript).2 hstyles
    have hname : (sections i text (some script)).componentName = Identifier.flatten i := by
      rw [sections]
    dsimp only
    rw [hsame.name, htwin.registry]
    cases s.registry.checkName i (sections i text (some script)).componentName with
    | error f => exact .error _ trivial
    | ok u =>
      refine (together_enroll hcode hassets hsame (hclear _) (hclear _) (fun q _ ↦ hclear q) ?_
        htwin).mono (fun _ _ _ ↦ trivial) fun _ _ _ ↦ trivial
      intro hedited
      rw [hname] at hedited
      exact absurd (.inr (htwin.files.place _).symm) hedited

/-- What is beside a source decides about its script.  In which way nothing is there that can be used
makes no difference to the record, the error or the compiled files, as long as the ways that compiling
goes along keep clear of it.  A script that is there is the script of the record as it is, and sources
with the same style blocks have the same script and style then, in their records and in their files,
whatever else they hold; if one of them takes the place of the other and nothing else is different,
they also fail alike. -/
theorem colocated_script_decides (hcode : c.codeDir.Proper) (hassets : c.assetsDir.Proper)
    (i : String) (source : Path) :
    (∀ s s', Workspace.Twin (besideSource s.files source) s s' →
      (∀ q ∈ c.ways i source, (besideSource s.files source).Clear q) →
      Unusable s.files source → Unusable s'.files source →
        SameEnd Eq (fun t t' : Workspace ↦ t'.registry = t.registry ∧ t'.log = t.log ∧
            ∀ q ∈ (c.outputs (Identifier.flatten i)).paths, t'.files.read q = t.files.read q)
          (outcome (c.compile i source) s) (outcome (c.compile i source) s')) ∧
    (∀ s t script r, Usable s.files source script →
      outcome (c.compile i source) s = (.ok r, t) → r.scriptSection = some script) ∧
    ∀ s s' script text text', Usable s.files source script → Usable s'.files source script →
      sourceText? s.files source = some text → sourceText? s'.files source = some text' →
      styleBlocks text' = styleBlocks text →
        (∀ r r' t t', outcome (c.compile i source) s = (.ok r, t) →
          outcome (c.compile i source) s' = (.ok r', t') →
            r'.compiledScript = r.compiledScript ∧ r'.compiledStyle = r.compiledStyle ∧
            t'.files.read (c.outputs (Identifier.flatten i)).script =
              t.files.read (c.outputs (Identifier.flatten i)).script ∧
            t'.files.read (c.outputs (Identifier.flatten i)).style =
              t.files.read (c.outputs (Identifier.flatten i)).style) ∧
        (Workspace.Twin (contentOf s.files source) s s' →
          ∀ e, Fails (c.compile i source) s e ↔ Fails (c.compile i source) s' e) := by
  refine ⟨fun s s' htwin hclear h h' ↦ ?_, fun s t script r ↦ scriptSection_of_usable,
    fun s s' script text text' hscript hscript' htext htext' hstyles ↦ ⟨fun r r' t t' ↦ ?_,
      fun htwin ↦ ?_⟩⟩
  · refine (sameEnd_of_unusable hcode hassets htwin hclear h h').mono (fun _ _ ↦ id)
      fun t t' hend ↦ ⟨hend.registry, hend.log, fun q hq ↦ hend.files.read (hclear q ?_) id⟩
    exact List.mem_cons_of_mem _ (List.mem_cons_of_mem _ (List.mem_cons_of_mem _ hq))
  · exact same_script_and_style hcode hassets hscript hscript' htext htext' hstyles
  · exact fails_compile_iff_of_usable hcode hassets htwin hscript hscript' htext htext' hstyles

/-! ## A directory in the place of a script -/

/-- A directory is put in the place of the script beside a source. -/
def withDirectory (s : Workspace) (source : Path) : Workspace :=
  { s with files := s.files.set (s.files.place (scriptPathFor source)) (.directory parentMode) }

theorem twin_withDirectory (s : Workspace) (source : Path) :
    s.Twin (besideSource s.files source) (withDirectory s source) :=
  ⟨Difference.between_set rfl (List.prefix_refl _) _, rfl, rfl⟩

/-- A directory beside the card is as good as nothing.  A script beside it is kept with its line ends,
and it makes no difference which script is in the source. -/
theorem card_goes_by_script_beside :
    (∃ r t t', outcome (cardCompiler.compile "app.Card" ⟨.relative, cardSource⟩)
        (cardBeside "a" none) = (.ok r, t) ∧
      outcome (cardCompiler.compile "app.Card" ⟨.relative, cardSource⟩)
        (withDirectory (cardBeside "a" none) ⟨.relative, cardSource⟩) = (.ok r, t')) ∧
    ∃ r r' t t', outcome (cardCompiler.compile "app.Card" ⟨.relative, cardSource⟩)
        (cardBeside "<script>1</script>" (some "x\r\ny")) = (.ok r, t) ∧
      outcome (cardCompiler.compile "app.Card" ⟨.relative, cardSource⟩)
        (cardBeside "<script>2</script>" (some "x\r\ny")) = (.ok r', t') ∧
      r.scriptSection = some "x\r\ny" ∧ r'.compiledScript = r.compiledScript := by
  obtain ⟨hunusable, hscript, hsame⟩ := colocated_script_decides (c := cardCompiler) (by decide)
    (by decide) "app.Card" ⟨.relative, cardSource⟩
  have hok (text : String) (script : Option String)
      (h : (outcome (cardCompiler.compile "app.Card" ⟨.relative, cardSource⟩)
        (cardBeside text script)).1.toOption.isSome = true) :
      ∃ r t, outcome (cardCompiler.compile "app.Card" ⟨.relative, cardSource⟩)
        (cardBeside text script) = (.ok r, t) := by
    obtain ⟨r, t, hr, -⟩ := exists_outcome_eq_ok (P := fun _ ↦ True) h trivial
    exact ⟨r, t, hr⟩
  constructor
  · obtain ⟨r, t, hr⟩ := hok "a" none (by decide +kernel)
    have hclear : ∀ q ∈ cardCompiler.ways "app.Card" ⟨.relative, cardSource⟩,
        ∀ l ∈ (besideSource (cardBeside "a" none).files ⟨.relative, cardSource⟩).way q,
          ¬ ["src", "Card.js"] <+: l := by
      decide +kernel
    have hend := hunusable _ _ (twin_withDirectory _ _) hclear (.inl (by decide +kernel))
      (.inr (.inl ⟨parentMode, by decide +kernel⟩))
    rw [hr] at hend
    generalize outcome (cardCompiler.compile "app.Card" ⟨.relative, cardSource⟩)
      (withDirectory (cardBeside "a" none) ⟨.relative, cardSource⟩) = x at hend ⊢
    cases hend with
    | ok result _ => exact ⟨r, t, _, hr, by rw [result]⟩
  · obtain ⟨r, t, hr⟩ := hok "<script>1</script>" (some "x\r\ny") (by decide +kernel)
    obtain ⟨r', t', hr'⟩ := hok "<script>2</script>" (some "x\r\ny") (by decide +kernel)
    have husable (text : String) :
        Usable (cardBeside text (some "x\r\ny")).files ⟨.relative, cardSource⟩ "x\r\ny" :=
      ⟨Utf8.encode "x\r\ny", rfl, by decide, Utf8.decode_encode _⟩
    have htext (text : String) : sourceText? (cardBeside text (some "x\r\ny")).files
        ⟨.relative, cardSource⟩ = some text :=
      sourceText?_eq_some_iff.mpr ⟨Utf8.encode text, rfl, Utf8.decode_encode text⟩
    obtain ⟨hfiles, -⟩ := hsame _ _ _ _ _ (husable "<script>1</script>")
      (husable "<script>2</script>") (htext _) (htext _) (by decide +kernel)
    exact ⟨r, r', t, t', hr, hr', hscript _ _ _ _ (husable _) hr, (hfiles _ _ _ _ hr hr').1⟩

/-- The source of a card in the directory of compiled files, under the name of the component. -/
def outputSource : Path := ⟨.relative, ["out", "app_Card.ice.py"]⟩

/-- A workspace with nothing else. -/
def outputCard : Workspace where
  files := (cardFiles.set ["out"] (.directory parentMode)).set ["out", "app_Card.ice.py"]
    (.file (Utf8.encode "pass") fileMode 0)
  registry := .empty
  log := []

/-- The fault in which something has ended. -/
def fault? {α : Type} : Except Error α → Option Fault
  | .error (.fault f) => some f
  | _ => none

theorem fault?_eq_some_iff {α : Type} {x : Except Error α} {f : Fault} :
    fault? x = some f ↔ x = .error (.fault f) := by
  rcases x with e | a
  · cases e <;> simp [fault?]
  · simp [fault?]

/-- The script beside this source is where the compiled script goes.  If there is nothing, it is written;
if there is a directory, it cannot be. -/
theorem directory_keeps_script_from_output :
    Unusable outputCard.files outputSource ∧
      Unusable (withDirectory outputCard outputSource).files outputSource ∧
      outputCard.Twin (besideSource outputCard.files outputSource)
        (withDirectory outputCard outputSource) ∧
      (∃ r t, outcome (cardCompiler.compile "app.Card" outputSource) outputCard = (.ok r, t)) ∧
      Fails (cardCompiler.compile "app.Card" outputSource) (withDirectory outputCard outputSource)
        (.fault ⟨.isADirectory, "out/app_Card.js"⟩) := by
  refine ⟨.inl (by decide +kernel), .inr (.inl ⟨parentMode, by decide +kernel⟩),
    twin_withDirectory _ _, ?_, ?_⟩
  · have hok : (outcome (cardCompiler.compile "app.Card" outputSource)
        outputCard).1.toOption.isSome = true := by
      decide +kernel
    obtain ⟨r, t, hr, -⟩ := exists_outcome_eq_ok (P := fun _ ↦ True) hok trivial
    exact ⟨r, t, hr⟩
  · have hfault : fault? (outcome (cardCompiler.compile "app.Card" outputSource)
        (withDirectory outputCard outputSource)).1 = some ⟨.isADirectory, "out/app_Card.js"⟩ := by
      decide +kernel
    exact ⟨_, Prod.ext (fault?_eq_some_iff.mp hfault) rfl⟩

end Compiler

end IceCube
