import IceCube.Proofs.FileTree.Growth
import IceCube.Proofs.Registry.Loading
import IceCube.Compiler.Compile

/-!
# What compiling does

What a source compiles to is a function of the files.  Compiling ends in one of three ways: it is
turned down before anything is written, a file cannot be written, or all three files are written and
the record is registered.  Nothing but the three files and the directories on the way to them is
touched.
-/

namespace IceCube

open Step

/-! ## Steps of building -/

namespace Build

variable {s : Workspace}

theorem outcome_ensureDirectory (p : Path) (s : Workspace) :
    outcome (ensureDirectory p) s = match s.files.ensureDirectory p with
      | .ok t => (.ok (), { s with files := t })
      | .error f => (.error (.fault f), s) := by
  rw [ensureDirectory, outcome_get_bind]
  cases h : s.files.ensureDirectory p <;> rfl

theorem outcome_writeIfChanged (p : Path) (text : String) (s : Workspace) :
    outcome (writeIfChanged p text) s =
      ((s.files.writeIfChanged FileTree.undisturbed p (Utf8.encode text)).1.mapError .fault,
        { s with
          files := (s.files.writeIfChanged FileTree.undisturbed p (Utf8.encode text)).2 }) := by
  rw [writeIfChanged, outcome_get_bind]
  rcases s.files.writeIfChanged FileTree.undisturbed p (Utf8.encode text) with ⟨f | b, t⟩ <;> rfl

theorem outcome_changeRegistry (change : Registry → Except Failure Registry) (s : Workspace) :
    outcome (changeRegistry change) s = match change s.registry with
      | .ok r => (.ok (), { s with registry := r })
      | .error f => (.error (.failure f), s) := by
  rw [changeRegistry, outcome_get_bind]
  cases change s.registry <;> rfl

/-- Writing a file touches no other location.  If it ends well, the file holds the text. -/
theorem rewrites_writeIfChanged {p : Path} {text : String} {s s' : Workspace} {x : Except Error Bool}
    (hp : p.Proper) (h : outcome (writeIfChanged p text) s = (x, s')) :
    s'.registry = s.registry ∧
      FileTree.Rewrites (· = s.files.place p) s.files s'.files ∧
      ((∃ f, x = .error (.fault f)) ∨
        ∃ b, x = .ok b ∧ s'.files.read p = .ok (Utf8.encode text)) := by
  rw [outcome_writeIfChanged] at h
  rcases hw : s.files.writeIfChanged FileTree.undisturbed p (Utf8.encode text) with ⟨f | b, t⟩
  · rw [hw] at h
    simp only [Prod.mk.injEq] at h
    rw [← h.1, ← h.2]
    exact ⟨rfl, FileTree.rewrites_writeIfChanged hp hw, .inl ⟨f, rfl⟩⟩
  · rw [hw] at h
    simp only [Prod.mk.injEq] at h
    rw [← h.1, ← h.2]
    exact ⟨rfl, FileTree.rewrites_writeIfChanged hp hw,
      .inr ⟨b, rfl, FileTree.read_writeIfChanged hw⟩⟩

/-- A file that can be written is, and what else can be written can be written after that. -/
theorem outcome_writeIfChanged_of_writable {p : Path} {s : Workspace} (hp : p.Proper)
    (h : s.files.Writable p) (text : String) :
    ∃ b s', outcome (writeIfChanged p text) s = (.ok b, s') ∧
      ∀ q, s.files.Writable q → s'.files.Writable q := by
  obtain ⟨b, hb⟩ := FileTree.writeIfChanged_of_writable h (Utf8.encode text)
  have houtcome : ∃ s', outcome (writeIfChanged p text) s = (.ok b, s') := by
    rw [outcome_writeIfChanged, hb]
    exact ⟨_, rfl⟩
  obtain ⟨s', hs'⟩ := houtcome
  obtain ⟨-, hrewrites, ⟨f, hf⟩ | ⟨_, -, hread⟩⟩ := rewrites_writeIfChanged hp hs'
  · cases hf
  · exact ⟨b, s', hs', fun q hq ↦ hq.rewrites hrewrites hread⟩

end Build

namespace Compiler

variable {c : Compiler} {i : String} {source : Path} {s s' : Workspace}

/-! ## Compiled files -/

/-- The files of a component. -/
def Outputs.paths (o : Outputs) : List Path := [o.code, o.script, o.style]

/-- Where the files of a component go. -/
def Outputs.places (o : Outputs) (t : FileTree) : List Location := o.paths.map t.place

/-- The files of a component hold the texts of its record. -/
structure Outputs.Hold (o : Outputs) (r : CompiledComponent) (t : FileTree) : Prop where
  code : t.read o.code = .ok (Utf8.encode r.codeSection)
  script : t.read o.script = .ok (Utf8.encode r.compiledScript)
  style : t.read o.style = .ok (Utf8.encode (r.compiledStyle.getD ""))

theorem Outputs.places_of_grows {o : Outputs} {O : Location → Prop} {t u : FileTree}
    (h : FileTree.Grows O t u) : o.places u = o.places t :=
  List.map_congr_left fun p _ ↦ h.place p

/-- Files that are not written to go on to hold what they hold. -/
theorem Outputs.Hold.grows {o : Outputs} {r : CompiledComponent} {O : Location → Prop}
    {t u : FileTree} (h : o.Hold r t) (hgrows : FileTree.Grows O t u)
    (hO : ∀ l ∈ o.places t, ¬ O l) : o.Hold r u where
  code := hgrows.read (hO _ (by simp [places, paths])) h.code
  script := hgrows.read (hO _ (by simp [places, paths])) h.script
  style := hgrows.read (hO _ (by simp [places, paths])) h.style

theorem Outputs.Hold.isFile {o : Outputs} {r : CompiledComponent} {t : FileTree} (h : o.Hold r t) :
    ∀ p ∈ o.paths, t.isFile p = true := by
  intro p hp
  simp only [paths, List.mem_cons, List.not_mem_nil, or_false] at hp
  rcases hp with rfl | rfl | rfl
  · exact FileTree.isFile_of_read h.code
  · exact FileTree.isFile_of_read h.script
  · exact FileTree.isFile_of_read h.style

theorem proper_code (hcode : c.codeDir.Proper) (name : String) : (c.outputs name).code.Proper := by
  dsimp only [outputs]
  exact hcode.joinText _

theorem proper_outputs (hcode : c.codeDir.Proper) (hassets : c.assetsDir.Proper) (name : String) :
    ∀ p ∈ (c.outputs name).paths, p.Proper := by
  intro p hp
  simp only [Outputs.paths, outputs, List.mem_cons, List.not_mem_nil, or_false] at hp
  rcases hp with rfl | rfl | rfl
  · exact hcode.joinText _
  · exact hassets.joinText _
  · exact hassets.joinText _

/-! ## What a source compiles to -/

/-- The script beside a source, none where it cannot be read as a text. -/
def script? (files : FileTree) (source : Path) : Option String :=
  (files.read (scriptPathFor source)).toOption.bind Utf8.decode

/-- The record that a source compiles to under an identifier. -/
def compiled? (c : Compiler) (i : String) (files : FileTree) (source : Path) :
    Option CompiledComponent := do
  let text ← (files.read source).toOption.bind Utf8.decode
  let parsed ← (Source.parse i text (script? files source)).toOption
  c.assemble parsed

/-- A source that compiles is a text whose sections can be assembled. -/
theorem compiled?_eq_some_iff {files : FileTree} {r : CompiledComponent} :
    c.compiled? i files source = some r ↔ ∃ bytes text parsed, files.read source = .ok bytes ∧
      Utf8.decode bytes = some text ∧ Source.parse i text (script? files source) = .ok parsed ∧
      c.assemble parsed = some r := by
  unfold compiled?
  cases files.read source with
  | error f => simp [Except.toOption]
  | ok bytes =>
    cases hb : Utf8.decode bytes with
    | none => simp [Except.toOption, hb]
    | some text =>
      cases hp : Source.parse i text (script? files source) <;> simp [Except.toOption, hb, hp]

theorem assemble_eq_some {p : ParsedComponent} {r : CompiledComponent} (h : c.assemble p = some r) :
    r.toParsedComponent = p ∧ r.compiledCodePath = (c.outputs p.componentName).code.text ∧
      r.compiledAssetsBasePath = (c.outputs p.componentName).assetsBase.text ∧
      ∃ style, r.compiledStyle = some style := by
  unfold assemble at h
  cases hs : c.style.compileAll p.componentName p.styleBlocks with
  | none => simp [hs] at h
  | some style =>
    simp only [hs, Option.bind_eq_bind, Option.bind_some, Option.pure_def, Option.some.injEq] at h
    subst h
    exact ⟨rfl, rfl, rfl, style, rfl⟩

theorem componentName_of_assemble {p : ParsedComponent} {r : CompiledComponent}
    (h : c.assemble p = some r) : p.componentName = r.componentName := by
  rw [← (assemble_eq_some h).1]

/-- What is compiled is registered if the name of its source is free. -/
theorem register_of_assemble {p : ParsedComponent} {r : CompiledComponent}
    (h : c.assemble p = some r) (registry : Registry) (i : String) :
    registry.register i (.compiled r) =
      (registry.checkName i p.componentName).map fun _ ↦ registry.put i (.compiled r) := by
  rw [componentName_of_assemble h]
  exact registry.register_eq_map i (.compiled r)

theorem parse_eq_ok {text : String} {script : Option String} {p : ParsedComponent}
    (h : Source.parse i text script = .ok p) : i ≠ "" ∧ p = Source.sections i text script := by
  unfold Source.parse Source.nameIssues at h
  by_cases hi : i = ""
  · simp [hi] at h
  · simp only [String.isEmpty_iff, hi, if_false, Except.ok.injEq] at h
    exact ⟨hi, h.symm⟩

/-- A fingerprint is written with eight hexadecimal digits. -/
theorem isDigest_digest (text : String) (script : Option String) :
    Schema.isDigest (Source.digest text script) = true := by
  have hlength (width n : Nat) : (Text.hexDigits width n).length = width := by
    induction width generalizing n with
    | zero => rfl
    | succ width ih => rw [Text.hexDigits, List.length_append, ih, List.length_singleton]
  have hdigit : ∀ d < 16, (('0' ≤ Text.hexDigit d && Text.hexDigit d ≤ '9') ||
      ('a' ≤ Text.hexDigit d && Text.hexDigit d ≤ 'f')) = true := by
    decide
  have hdigits (width n : Nat) : ∀ c ∈ Text.hexDigits width n,
      (('0' ≤ c && c ≤ '9') || ('a' ≤ c && c ≤ 'f')) = true := by
    induction width generalizing n with
    | zero => simp [Text.hexDigits]
    | succ width ih =>
      rw [Text.hexDigits, List.forall_mem_append, List.forall_mem_singleton]
      exact ⟨ih _, hdigit _ (Nat.mod_lt n (by decide))⟩
  unfold Schema.isDigest Source.digest Hash.Xxh128.hexDigest
  simp only [String.toList_ofList, String.length_ofList, List.length_take, List.length_append,
    hlength, Bool.and_eq_true, beq_iff_eq, List.all_eq_true]
  refine ⟨by decide, fun c hc ↦ ?_⟩
  rcases List.mem_append.mp (List.mem_of_mem_take hc) with hc | hc
  · exact hdigits _ _ c hc
  · exact hdigits _ _ c hc

/-- A compiled record carries its identifier, the name that goes with it, a fingerprint, and where
its files are. -/
structure Describes (c : Compiler) (i : String) (r : CompiledComponent) : Prop where
  nonempty : i ≠ ""
  identifier : r.identifier = i
  componentName : r.componentName = Identifier.flatten i
  digest : Schema.isDigest r.digest = true
  codePath : r.compiledCodePath = (c.outputs (Identifier.flatten i)).code.text
  assetsBasePath : r.compiledAssetsBasePath = (c.outputs (Identifier.flatten i)).assetsBase.text
  style : ∃ style, r.compiledStyle = some style

theorem describes_of_compiled? {files : FileTree} {r : CompiledComponent}
    (h : c.compiled? i files source = some r) : c.Describes i r := by
  obtain ⟨bytes, text, parsed, -, -, hparsed, hr⟩ := compiled?_eq_some_iff.mp h
  obtain ⟨hi, rfl⟩ := parse_eq_ok hparsed
  obtain ⟨hr, hcode, hassets, hstyle⟩ := assemble_eq_some hr
  have hname : r.componentName = Identifier.flatten i := by
    rw [hr]
    rfl
  have hdigest : Schema.isDigest r.digest = true := by
    rw [hr]
    exact isDigest_digest _ _
  exact ⟨hi, by rw [hr]; rfl, hname, hdigest, hcode, hassets, hstyle⟩

/-! ## Writing the files of a component -/

theorem outcome_ensureOutputs (hcode : c.codeDir.Proper) (hassets : c.assetsDir.Proper)
    {r : Except Error Unit} (h : outcome c.ensureOutputs s = (r, s')) :
    s'.registry = s.registry ∧ s'.log = s.log ∧
      FileTree.Edits (fun _ ↦ False) s.files s'.files ∧
      (r = .ok () → s'.files.isDirectory c.codeDir = true ∧
        s'.files.isDirectory c.assetsDir = true) := by
  rw [ensureOutputs, outcome_bind, Build.outcome_ensureDirectory] at h
  cases hc : s.files.ensureDirectory c.codeDir with
  | error f =>
    simp only [hc, Prod.mk.injEq] at h
    obtain ⟨rfl, rfl⟩ := h
    exact ⟨rfl, rfl, .refl _ _, nofun⟩
  | ok t =>
    obtain ⟨hedits, hd⟩ := FileTree.edits_ensureDirectory hcode hc
    simp only [hc, Build.outcome_ensureDirectory] at h
    cases ha : t.ensureDirectory c.assetsDir with
    | error f =>
      simp only [ha, Prod.mk.injEq] at h
      obtain ⟨rfl, rfl⟩ := h
      exact ⟨rfl, rfl, hedits, nofun⟩
    | ok u =>
      obtain ⟨hedits', hd'⟩ := FileTree.edits_ensureDirectory hassets ha
      simp only [ha, Prod.mk.injEq] at h
      obtain ⟨rfl, rfl⟩ := h
      exact ⟨rfl, rfl, hedits.trans hedits', fun _ ↦ ⟨hedits'.isDirectory hd, hd'⟩⟩

/-- Only the files can be in the way of the directories. -/
theorem exists_of_ensureOutputs_eq_error {e : Error}
    (h : outcome c.ensureOutputs s = (.error e, s')) : ∃ f, e = .fault f := by
  rw [ensureOutputs, outcome_bind, Build.outcome_ensureDirectory] at h
  cases hc : s.files.ensureDirectory c.codeDir with
  | error f =>
    rw [hc] at h
    cases h
    exact ⟨f, rfl⟩
  | ok t =>
    simp only [hc, Build.outcome_ensureDirectory] at h
    cases ha : t.ensureDirectory c.assetsDir with
    | error f =>
      rw [ha] at h
      cases h
      exact ⟨f, rfl⟩
    | ok u =>
      rw [ha] at h
      cases h

/-- Where the directories are there, nothing has to be done for them. -/
theorem outcome_ensureOutputs_of_isDirectory (hcode : s.files.isDirectory c.codeDir = true)
    (hassets : s.files.isDirectory c.assetsDir = true) :
    outcome c.ensureOutputs s = (.ok (), s) := by
  rw [ensureOutputs, outcome_bind, Build.outcome_ensureDirectory,
    FileTree.ensureDirectory_of_isDirectory hcode]
  simp only [Build.outcome_ensureDirectory, FileTree.ensureDirectory_of_isDirectory hassets]

/-- The three files of a component are written one after the other. -/
def writeOutputs (o : Outputs) (r : CompiledComponent) : Build CompiledComponent := do
  let _ ← Build.writeIfChanged o.code r.codeSection
  let _ ← Build.writeIfChanged o.script r.compiledScript
  let _ ← Build.writeIfChanged o.style (r.compiledStyle.getD "")
  return r

/-- Writing touches the three files only.  If it ends well, they hold the texts of the record, as
long as they are three. -/
theorem outcome_writeOutputs {o : Outputs} {r : CompiledComponent} {x : Except Error CompiledComponent}
    (hproper : ∀ p ∈ o.paths, p.Proper) (h : outcome (writeOutputs o r) s = (x, s')) :
    s'.registry = s.registry ∧
      FileTree.Rewrites (· ∈ o.places s.files) s.files s'.files ∧
      ((∃ f, x = .error (.fault f)) ∨
        x = .ok r ∧ ((o.places s.files).Nodup → o.Hold r s'.files)) := by
  simp only [Outputs.paths, List.forall_mem_cons, List.not_mem_nil, false_imp_iff, implies_true,
    and_true] at hproper
  obtain ⟨hcode, hscript, hstyle⟩ := hproper
  have hmem {t : FileTree} {p : Path} (hp : p ∈ o.paths)
      (ht : ∀ p, t.place p = s.files.place p) : ∀ l, l = t.place p → l ∈ o.places s.files := by
    rintro l rfl
    rw [ht]
    exact List.mem_map_of_mem hp
  rw [writeOutputs, outcome_bind] at h
  rcases h₁ : outcome (Build.writeIfChanged o.code r.codeSection) s with ⟨x₁, s₁⟩
  obtain ⟨hr₁, hw₁, hx₁⟩ := Build.rewrites_writeIfChanged hcode h₁
  have hm₁ := hw₁.mono (hmem (by simp [Outputs.paths]) fun _ ↦ rfl)
  rw [h₁] at h
  rcases hx₁ with ⟨f, rfl⟩ | ⟨b, rfl, hread₁⟩
  · simp only [Prod.mk.injEq] at h
    rw [← h.1, ← h.2]
    exact ⟨hr₁, hm₁, .inl ⟨f, rfl⟩⟩
  simp only [outcome_bind] at h
  rcases h₂ : outcome (Build.writeIfChanged o.script r.compiledScript) s₁ with ⟨x₂, s₂⟩
  obtain ⟨hr₂, hw₂, hx₂⟩ := Build.rewrites_writeIfChanged hscript h₂
  have hm₂ := hm₁.trans (hw₂.mono (hmem (by simp [Outputs.paths]) hw₁.place))
  rw [h₂] at h
  rcases hx₂ with ⟨f, rfl⟩ | ⟨b, rfl, hread₂⟩
  · simp only [Prod.mk.injEq] at h
    rw [← h.1, ← h.2]
    exact ⟨hr₂.trans hr₁, hm₂, .inl ⟨f, rfl⟩⟩
  simp only at h
  rcases h₃ : outcome (Build.writeIfChanged o.style (r.compiledStyle.getD "")) s₂ with ⟨x₃, s₃⟩
  obtain ⟨hr₃, hw₃, hx₃⟩ := Build.rewrites_writeIfChanged hstyle h₃
  have hplace₂ : ∀ p, s₂.files.place p = s.files.place p := hm₂.place
  have hm₃ := hm₂.trans (hw₃.mono (hmem (by simp [Outputs.paths]) hplace₂))
  rw [h₃] at h
  rcases hx₃ with ⟨f, rfl⟩ | ⟨b, rfl, hread₃⟩
  · simp only [Prod.mk.injEq] at h
    rw [← h.1, ← h.2]
    exact ⟨hr₃.trans (hr₂.trans hr₁), hm₃, .inl ⟨f, rfl⟩⟩
  · simp only [outcome_pure, Prod.mk.injEq] at h
    rw [← h.1, ← h.2]
    refine ⟨hr₃.trans (hr₂.trans hr₁), hm₃, .inr ⟨rfl, fun hnodup ↦ ?_⟩⟩
    simp only [Outputs.places, Outputs.paths, List.map_cons, List.map_nil, List.nodup_cons,
      List.mem_cons, List.not_mem_nil, or_false, not_or] at hnodup
    -- what is written first is not touched by what is written after it
    have hcode₂ := hw₂.read (by rw [hw₁.place, hw₁.place]; exact hnodup.1.1) hread₁
    have hcode₃ := hw₃.read (by rw [hplace₂, hplace₂]; exact hnodup.1.2) hcode₂
    have hscript₃ := hw₃.read (by rw [hplace₂, hplace₂]; exact hnodup.2.1) hread₂
    exact ⟨hcode₃, hscript₃, hread₃⟩

/-- Files that can be written are. -/
theorem outcome_writeOutputs_of_writable {o : Outputs} {r : CompiledComponent}
    (hproper : ∀ p ∈ o.paths, p.Proper) (hwritable : ∀ p ∈ o.paths, s.files.Writable p) :
    ∃ t, outcome (writeOutputs o r) s = (.ok r, t) := by
  simp only [Outputs.paths, List.forall_mem_cons, List.not_mem_nil, false_imp_iff, implies_true,
    and_true] at hproper hwritable
  obtain ⟨hcode, hscript, hstyle⟩ := hproper
  obtain ⟨wcode, wscript, wstyle⟩ := hwritable
  obtain ⟨b₁, s₁, h₁, hw₁⟩ := Build.outcome_writeIfChanged_of_writable hcode wcode r.codeSection
  obtain ⟨b₂, s₂, h₂, hw₂⟩ := Build.outcome_writeIfChanged_of_writable hscript (hw₁ _ wscript)
    r.compiledScript
  obtain ⟨b₃, s₃, h₃, -⟩ := Build.outcome_writeIfChanged_of_writable hstyle
    (hw₂ _ (hw₁ _ wstyle)) (r.compiledStyle.getD "")
  refine ⟨s₃, ?_⟩
  rw [writeOutputs, outcome_bind_of_ok h₁, outcome_bind_of_ok h₂, outcome_bind_of_ok h₃,
    outcome_pure]

/-! ## Storing and registering -/

theorem outcome_store (c : Compiler) (p : ParsedComponent) (s : Workspace) :
    outcome (c.store p) s = match outcome c.ensureOutputs s with
      | (.error e, t) => (.error e, t)
      | (.ok (), t) => match c.assemble p with
        | none => (.error (.failure (.styleRejected p.componentName)),
          { t with log := t.log ++ [.failed (Failure.styleRejected p.componentName).kind .other] })
        | some r => outcome (writeOutputs (c.outputs p.componentName) r) t := by
  rw [store, outcome_bind]
  rcases outcome c.ensureOutputs s with ⟨e | u, t⟩
  · rfl
  · cases hr : c.assemble p with
    | none => rfl
    | some r =>
      obtain ⟨hp, -⟩ := assemble_eq_some hr
      simp only [writeOutputs, ← hp]

/-- A parsed source is stored and registered. -/
def enroll (c : Compiler) (i : String) (p : ParsedComponent) : Build CompiledComponent := do
  let compiled ← c.store p
  Build.changeRegistry (·.register i (.compiled compiled))
  Build.note (.componentCompiled compiled.componentName compiled.digest)
  return compiled

theorem outcome_readSource (source : Path) (s : Workspace) :
    outcome (readSource source) s = match s.files.read source with
      | .error f => (.error (.fault f), s)
      | .ok bytes => match Utf8.decode bytes with
        | none => (.error (.failure (.sourceNotText source.name)), { s with
            log := s.log ++ [.failed (Failure.sourceNotText source.name).kind .other] })
        | some text => (.ok text, s) := by
  rw [readSource, outcome_bind, Build.read, outcome_get_bind]
  cases s.files.read source with
  | error f => rfl
  | ok bytes =>
    simp only [Build.ofFault, outcome_pure]
    cases Utf8.decode bytes <;> rfl

/-- A source has to be a text with an identifier whose name is free before anything is written. -/
theorem outcome_compile_eq (c : Compiler) (i : String) (source : Path) (s : Workspace) :
    outcome (c.compile i source) s = match s.files.read source with
      | .error f => (.error (.fault f), s)
      | .ok bytes => match Utf8.decode bytes with
        | none => (.error (.failure (.sourceNotText source.name)), { s with
            log := s.log ++ [.failed (Failure.sourceNotText source.name).kind .other] })
        | some text => match Source.parse i text (script? s.files source) with
          | .error issues => (.error (.invalid issues), s)
          | .ok p => match s.registry.checkName i p.componentName with
            | .error f => (.error (.failure f), s)
            | .ok () => outcome (c.enroll i p) s := by
  have hscript : outcome (readScript source) s = (.ok (script? s.files source), s) := rfl
  rw [compile, outcome_bind, outcome_readSource]
  cases s.files.read source with
  | error f => rfl
  | ok bytes =>
    dsimp only
    cases Utf8.decode bytes with
    | none => rfl
    | some text =>
      simp only [outcome_bind_of_ok hscript]
      cases Source.parse i text (script? s.files source) with
      | error issues => rfl
      | ok p =>
        simp only [outcome_get_bind]
        cases s.registry.checkName i p.componentName <;> rfl

theorem eq_of_writeOutputs {o : Outputs} {r r' : CompiledComponent}
    (h : outcome (writeOutputs o r) s = (.ok r', s')) : r' = r := by
  obtain ⟨-, _, -, h⟩ := outcome_bind_eq_ok.mp h
  obtain ⟨-, _, -, h⟩ := outcome_bind_eq_ok.mp h
  obtain ⟨-, _, -, h⟩ := outcome_bind_eq_ok.mp h
  cases h
  rfl

theorem assemble_of_enroll {p : ParsedComponent} {r : CompiledComponent}
    (h : outcome (c.enroll i p) s = (.ok r, s')) : c.assemble p = some r := by
  obtain ⟨r', t, hstore, h⟩ := outcome_bind_eq_ok.mp h
  obtain ⟨-, _, -, h⟩ := outcome_bind_eq_ok.mp h
  obtain ⟨-, _, -, h⟩ := outcome_bind_eq_ok.mp h
  cases h
  rw [outcome_store] at hstore
  split at hstore
  · cases hstore
  · cases hassemble : c.assemble p with
    | none =>
      rw [hassemble] at hstore
      cases hstore
    | some r' =>
      rw [hassemble] at hstore
      rw [eq_of_writeOutputs hstore]

/-- A compilation that ends well ends with what the source compiles to. -/
theorem compiled?_of_compile {r : CompiledComponent}
    (h : outcome (c.compile i source) s = (.ok r, s')) : c.compiled? i s.files source = some r := by
  rw [outcome_compile_eq] at h
  split at h
  · cases h
  · rename_i bytes hread
    split at h
    · cases h
    · rename_i text htext
      split at h
      · cases h
      · rename_i p hparsed
        split at h
        · cases h
        · exact compiled?_eq_some_iff.mpr
            ⟨bytes, text, p, hread, htext, hparsed, assemble_of_enroll h⟩

/-- Compiling an identifier that ends well is compiling its source. -/
theorem outcome_compile_of_compileIdentifier {r : CompiledComponent}
    (h : outcome (c.compileIdentifier i) s = (.ok r, s')) :
    c.handles i = true ∧ outcome (c.compile i (c.sourcePathFor i)) s = (.ok r, s') := by
  unfold compileIdentifier at h
  split at h
  · cases h
  · rename_i hhandles
    rw [outcome_get_bind] at h
    split at h
    · exact ⟨by simpa using hhandles, h⟩
    · cases h

/-- What an identifier is compiled to is what its source compiles to. -/
theorem compiled?_of_compileIdentifier {r : CompiledComponent}
    (h : outcome (c.compileIdentifier i) s = (.ok r, s')) :
    c.handles i = true ∧ c.compiled? i s.files (c.sourcePathFor i) = some r :=
  (outcome_compile_of_compileIdentifier h).imp_right compiled?_of_compile

/-- What is left to do for a parsed source whose name is free: either something is turned down
before anything is written, or the files of the component are written, and then registered. -/
theorem outcome_enroll (hcode : c.codeDir.Proper) (hassets : c.assetsDir.Proper)
    {p : ParsedComponent} {x : Except Error CompiledComponent}
    (hcheck : s.registry.checkName i p.componentName = .ok ())
    (h : outcome (c.enroll i p) s = (x, s')) :
    ((∃ e, x = .error e ∧ ((∃ f, e = .fault f) ∨ c.assemble p = none)) ∧
      s'.registry = s.registry ∧ FileTree.Edits (fun _ ↦ False) s.files s'.files) ∨
    ∃ r t, c.assemble p = some r ∧ outcome c.ensureOutputs s = (.ok (), t) ∧
      FileTree.Rewrites (· ∈ (c.outputs r.componentName).places s.files) t.files s'.files ∧
      (((∃ f, x = .error (.fault f)) ∧ s'.registry = s.registry) ∨
        x = .ok r ∧ s'.registry = s.registry.put i (.compiled r) ∧
          (((c.outputs r.componentName).places s.files).Nodup →
            (c.outputs r.componentName).Hold r s'.files)) := by
  rw [enroll, outcome_bind, outcome_store] at h
  rcases he : outcome c.ensureOutputs s with ⟨y, t⟩
  obtain ⟨hregistry, -, hedits, -⟩ := outcome_ensureOutputs hcode hassets he
  rw [he] at h
  cases y with
  | error e =>
    simp only [Prod.mk.injEq] at h
    rw [← h.1, ← h.2]
    exact .inl ⟨⟨e, rfl, .inl (exists_of_ensureOutputs_eq_error he)⟩, hregistry, hedits⟩
  | ok u =>
    cases hr : c.assemble p with
    | none =>
      simp only [hr, Prod.mk.injEq] at h
      rw [← h.1, ← h.2]
      exact .inl ⟨⟨_, rfl, .inr rfl⟩, hregistry, hedits⟩
    | some r =>
      simp only [hr] at h
      rw [componentName_of_assemble hr] at h
      rcases hw : outcome (writeOutputs (c.outputs r.componentName) r) t with ⟨z, w⟩
      obtain ⟨hregistry', hrewrites, hend⟩ :=
        outcome_writeOutputs (proper_outputs hcode hassets _) hw
      rw [Outputs.places_of_grows hedits.toGrows] at hrewrites hend
      refine .inr ⟨r, t, rfl, rfl, ?_⟩
      rw [hw] at h
      rcases hend with ⟨f, rfl⟩ | ⟨rfl, hhold⟩
      · simp only [Prod.mk.injEq] at h
        rw [← h.1, ← h.2]
        exact ⟨hrewrites, .inl ⟨⟨f, rfl⟩, hregistry'.trans hregistry⟩⟩
      · have hregister : w.registry.register i (.compiled r) =
            .ok (s.registry.put i (.compiled r)) := by
          rw [hregistry'.trans hregistry, register_of_assemble hr, hcheck]
          rfl
        simp only [outcome_bind, Build.outcome_changeRegistry, hregister, Build.note,
          outcome_modify, outcome_pure, Prod.mk.injEq] at h
        rw [← h.1, ← h.2]
        exact ⟨hrewrites, .inr ⟨rfl, rfl, hhold⟩⟩

/-- Compiling ends before anything is written, or it gets to the files of the component.  Then either
one of these cannot be written, or all are and the record is registered. -/
theorem outcome_compile (hcode : c.codeDir.Proper) (hassets : c.assetsDir.Proper)
    {x : Except Error CompiledComponent} (h : outcome (c.compile i source) s = (x, s')) :
    ((∃ e, x = .error e) ∧ s'.registry = s.registry ∧
      FileTree.Edits (fun _ ↦ False) s.files s'.files) ∨
    ∃ r t, c.compiled? i s.files source = some r ∧
      s.registry.register i (.compiled r) = .ok (s.registry.put i (.compiled r)) ∧
      outcome c.ensureOutputs s = (.ok (), t) ∧
      FileTree.Rewrites (· ∈ (c.outputs r.componentName).places s.files) t.files s'.files ∧
      (((∃ f, x = .error (.fault f)) ∧ s'.registry = s.registry) ∨
        x = .ok r ∧ s'.registry = s.registry.put i (.compiled r) ∧
          (((c.outputs r.componentName).places s.files).Nodup →
            (c.outputs r.componentName).Hold r s'.files)) := by
  have hrejected {e : Error} {log : List Event}
      (he : (Except.error e, { s with log := log }) = (x, s')) :
      (∃ e, x = .error e) ∧ s'.registry = s.registry ∧
        FileTree.Edits (fun _ ↦ False) s.files s'.files := by
    cases he
    exact ⟨⟨e, rfl⟩, rfl, .refl _ _⟩
  rw [outcome_compile_eq] at h
  cases hread : s.files.read source with
  | error f => exact .inl (hrejected (by simpa [hread] using h))
  | ok bytes =>
    cases htext : Utf8.decode bytes with
    | none => exact .inl (hrejected (by simpa [hread, htext] using h))
    | some text =>
      cases hparsed : Source.parse i text (script? s.files source) with
      | error issues => exact .inl (hrejected (by simpa [hread, htext, hparsed] using h))
      | ok p =>
        cases hcheck : s.registry.checkName i p.componentName with
        | error f => exact .inl (hrejected (by simpa [hread, htext, hparsed, hcheck] using h))
        | ok u =>
          simp only [hread, htext, hparsed, hcheck] at h
          rcases outcome_enroll hcode hassets hcheck h with
            ⟨⟨e, he, -⟩, hregistry, hedits⟩ | ⟨r, t, hr, hend⟩
          · exact .inl ⟨⟨e, he⟩, hregistry, hedits⟩
          · have hregister : s.registry.register i (.compiled r) =
                .ok (s.registry.put i (.compiled r)) := by
              rw [register_of_assemble hr, hcheck]
              rfl
            exact .inr ⟨r, t, compiled?_eq_some_iff.mpr ⟨bytes, text, p, hread, htext, hparsed, hr⟩,
              hregister, hend⟩

/-- The record of an identifier that has been compiled is what it was compiled to. -/
theorem get?_of_compileIdentifier (hcode : c.codeDir.Proper) (hassets : c.assetsDir.Proper)
    {r : CompiledComponent} (h : outcome (c.compileIdentifier i) s = (.ok r, s')) :
    s'.registry.get? i = some (.compiled r) := by
  obtain ⟨-, hcompile⟩ := outcome_compile_of_compileIdentifier h
  rcases outcome_compile hcode hassets hcompile with
    ⟨⟨_, ⟨⟩⟩, -⟩ | ⟨r', t, -, -, -, -, ⟨⟨_, ⟨⟩⟩, -⟩ | ⟨⟨⟩, hregistry, -⟩⟩
  rw [hregistry, Registry.get?_put, if_pos rfl]

/-- A component whose name is free is enrolled where its files can be written. -/
theorem outcome_enroll_of_writable (hcode : c.codeDir.Proper) (hassets : c.assetsDir.Proper)
    {p : ParsedComponent} {r : CompiledComponent} (hp : c.assemble p = some r)
    (hcheck : s.registry.checkName i p.componentName = .ok ())
    (hensure : outcome c.ensureOutputs s = (.ok (), s))
    (hwritable : ∀ q ∈ (c.outputs r.componentName).paths, s.files.Writable q) :
    ∃ s', outcome (c.enroll i p) s = (.ok r, s') := by
  have hproper := proper_outputs hcode hassets r.componentName
  obtain ⟨t, hw⟩ := outcome_writeOutputs_of_writable (r := r) hproper hwritable
  obtain ⟨hregistry, -⟩ := outcome_writeOutputs hproper hw
  have hregister : t.registry.register i (.compiled r) =
      .ok (s.registry.put i (.compiled r)) := by
    rw [hregistry, register_of_assemble hp, hcheck]
    rfl
  rw [enroll, outcome_bind, outcome_store, hensure]
  simp only [hp, componentName_of_assemble hp, hw, outcome_bind, Build.outcome_changeRegistry, hregister, Build.note,
    outcome_modify, outcome_pure]
  exact ⟨_, rfl⟩

/-- Where the directories are there and the files of a component can be written, nothing but its name
can be in the way. -/
theorem outcome_compile_of_writable (hcode : c.codeDir.Proper) (hassets : c.assetsDir.Proper)
    {r : CompiledComponent} (hr : c.compiled? i s.files source = some r)
    (hcodeDir : s.files.isDirectory c.codeDir = true)
    (hassetsDir : s.files.isDirectory c.assetsDir = true)
    (hwritable : ∀ p ∈ (c.outputs r.componentName).paths, s.files.Writable p) :
    match s.registry.register i (.compiled r) with
    | .error f => outcome (c.compile i source) s = (.error (.failure f), s)
    | .ok registry => ∃ s', outcome (c.compile i source) s = (.ok r, s') ∧
        s'.registry = registry ∧
        FileTree.Rewrites (· ∈ (c.outputs r.componentName).places s.files) s.files s'.files ∧
        (((c.outputs r.componentName).places s.files).Nodup →
          (c.outputs r.componentName).Hold r s'.files) := by
  obtain ⟨bytes, text, p, hread, htext, hparsed, hp⟩ := compiled?_eq_some_iff.mp hr
  have heq : outcome (c.compile i source) s = match s.registry.checkName i p.componentName with
      | .error f => (.error (.failure f), s)
      | .ok () => outcome (c.enroll i p) s := by
    rw [outcome_compile_eq, hread]
    simp only [htext, hparsed]
  rw [register_of_assemble hp]
  cases hcheck : s.registry.checkName i p.componentName with
  | error f =>
    rw [hcheck] at heq
    exact heq
  | ok u =>
    have hensure := outcome_ensureOutputs_of_isDirectory hcodeDir hassetsDir
    obtain ⟨s', hs'⟩ := outcome_enroll_of_writable hcode hassets hp hcheck hensure hwritable
    rw [hcheck] at heq
    have hcompile : outcome (c.compile i source) s = (.ok r, s') := heq.trans hs'
    rcases outcome_compile hcode hassets hcompile with
      ⟨⟨e, he⟩, -⟩ | ⟨r', t', hr', -, he', hrewrites, hend⟩
    · cases he
    · rw [hr] at hr'
      cases hr'
      rw [hensure] at he'
      cases he'
      rcases hend with ⟨⟨f, hf⟩, -⟩ | ⟨-, hregistry, hhold⟩
      · cases hf
      · exact ⟨s', hcompile, hregistry, hrewrites, hhold⟩

/-! ## What compiling fails with -/

theorem fails_writeIfChanged {p : Path} {text : String} {e : Error}
    (h : Fails (Build.writeIfChanged p text) s e) : ∃ f, e = .fault f := by
  obtain ⟨t, h⟩ := h
  rw [Build.outcome_writeIfChanged] at h
  cases hwrite : (s.files.writeIfChanged FileTree.undisturbed p (Utf8.encode text)).1 with
  | error f =>
    rw [hwrite] at h
    cases h
    exact ⟨f, rfl⟩
  | ok b =>
    rw [hwrite] at h
    cases h

theorem fails_writeOutputs {o : Outputs} {r : CompiledComponent} {e : Error}
    (h : Fails (writeOutputs o r) s e) : ∃ f, e = .fault f := by
  rcases fails_bind_iff.mp h with h | ⟨-, t, -, h⟩
  · exact fails_writeIfChanged h
  rcases fails_bind_iff.mp h with h | ⟨-, u, -, h⟩
  · exact fails_writeIfChanged h
  exact fails_writeIfChanged (fails_bind_pure_iff.mp h)

/-- A parsed source is not enrolled for a fault of the files, or for a failure that is about the source
or its name. -/
theorem fails_enroll {p : ParsedComponent} {e : Error} (h : Fails (c.enroll i p) s e) :
    (∃ f, e = .fault f) ∨ ∃ f, e = .failure f ∧ ∀ j, f ≠ .componentNotFound j := by
  rcases fails_bind_iff.mp h with ⟨t, h⟩ | ⟨r, t, -, h⟩
  · rw [outcome_store] at h
    rcases hensure : outcome c.ensureOutputs s with ⟨e' | v, u⟩ <;> rw [hensure] at h
    · cases h
      exact .inl (exists_of_ensureOutputs_eq_error hensure)
    · cases hassemble : c.assemble p with
      | none =>
        simp only [hassemble] at h
        cases h
        exact .inr ⟨_, rfl, nofun⟩
      | some r =>
        simp only [hassemble] at h
        exact .inl (fails_writeOutputs ⟨t, h⟩)
  rcases fails_bind_iff.mp h with ⟨u, h⟩ | ⟨-, u, -, ⟨v, ⟨⟩⟩⟩
  rw [Build.outcome_changeRegistry] at h
  cases hregister : t.registry.register i (.compiled r) with
  | error f =>
    rw [hregister] at h
    cases h
    obtain ⟨j, -, -, rfl⟩ := Registry.register_eq_error_iff.mp hregister
    exact .inr ⟨_, rfl, nofun⟩
  | ok registry =>
    rw [hregister] at h
    cases h

/-- A source with an identifier is not compiled for such a fault or failure. -/
theorem fails_compile {e : Error} (hi : i ≠ "") (h : Fails (c.compile i source) s e) :
    (∃ f, e = .fault f) ∨ ∃ f, e = .failure f ∧ ∀ j, f ≠ .componentNotFound j := by
  obtain ⟨t, h⟩ := h
  rw [outcome_compile_eq] at h
  split at h
  · cases h
    exact .inl ⟨_, rfl⟩
  · split at h
    · cases h
      exact .inr ⟨_, rfl, nofun⟩
    · simp only [Source.parse, Source.nameIssues, String.isEmpty_iff, hi, if_false] at h
      split at h
      · rename_i f hcheck
        cases h
        refine .inr ⟨f, rfl, ?_⟩
        rintro j rfl
        unfold Registry.checkName at hcheck
        split at hcheck
        · split at hcheck <;> cases hcheck
        · cases hcheck
      · exact fails_enroll ⟨t, h⟩

/-- What follows a prefix is not the empty text. -/
theorem ne_empty_of_handles (h : c.handles i = true) : i ≠ "" := by
  rintro rfl
  simp [handles, Identifier.after?] at h

/-- A compiler covers an identifier and has a source for it. -/
def HasSource (c : Compiler) (i : String) (files : FileTree) : Prop :=
  c.handles i = true ∧ files.isFile (c.sourcePathFor i) = true

/-- Only without a source is it not found. -/
theorem exists_fails_compileIdentifier_iff :
    (∃ j, Fails (c.compileIdentifier i) s (.failure (.componentNotFound j))) ↔
      ¬ c.HasSource i s.files := by
  unfold compileIdentifier HasSource
  split
  · rename_i hhandles
    exact iff_of_true ⟨i, fails_throw.mpr rfl⟩ fun h ↦ absurd h.1 (by simpa using hhandles)
  · rename_i hhandles
    dsimp only
    simp only [fails_get_bind]
    split
    · rename_i hfile
      have hhandles : c.handles i = true := by simpa using hhandles
      refine iff_of_false ?_ (not_not.mpr ⟨hhandles, hfile⟩)
      rintro ⟨j, h⟩
      rcases fails_compile (ne_empty_of_handles hhandles) h with ⟨f, ⟨⟩⟩ | ⟨f, hf, hne⟩
      cases hf
      exact hne j rfl
    · rename_i hfile
      exact iff_of_true ⟨i, _, rfl⟩ fun h ↦ hfile h.2

end Compiler

end IceCube
