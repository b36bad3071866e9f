import IceCube.Proofs.Compiler.Compiling
import IceCube.Proofs.Json.File
import IceCube.Proofs.Traversal

/-!
# Sources that are turned down

There are five reasons to turn a source down.  Four of them are found before anything is done; the
last one, a style block that is not well formed, when no more than the directories for compiled files
has been made.  So a source that is turned down leaves every file and the registry alone.
-/

namespace IceCube

open Step

/-- The registry is as it was, and all files hold what they held and were written when they were. -/
structure Workspace.Untouched (s s' : Workspace) : Prop where
  registry : s'.registry = s.registry
  files : ∀ l content mode modified, s'.files.at? l = some (.file content mode modified) ↔
    s.files.at? l = some (.file content mode modified)

theorem Workspace.untouched_log (s : Workspace) (log : List Event) :
    s.Untouched { s with log := log } where
  registry := rfl
  files _ _ _ _ := Iff.rfl

/-- Making directories touches no file. -/
theorem Workspace.untouched_of_edits {s s' : Workspace} (hregistry : s'.registry = s.registry)
    (h : FileTree.Edits (fun _ ↦ False) s.files s'.files) : s.Untouched s' where
  registry := hregistry
  files _ _ _ _ := ⟨h.written id, h.kept id⟩

theorem StyleStrategy.compileAll_eq_none_iff {strategy : StyleStrategy} {name : String}
    {blocks : List StyleBlock} :
    strategy.compileAll name blocks = none ↔ ∃ b ∈ blocks, strategy.compile name b = none := by
  rw [compileAll, Option.map_eq_none_iff, ← Option.not_isSome_iff_eq_none, isSome_mapM]
  simp

namespace Compiler

variable {c : Compiler} {i : String} {source : Path} {s s' : Workspace}

/-- A component cannot be assembled exactly if one of its style blocks is not well formed. -/
theorem assemble_eq_none_iff {p : ParsedComponent} :
    c.assemble p = none ↔ ∃ b ∈ p.styleBlocks, c.style.compile p.componentName b = none := by
  rw [← StyleStrategy.compileAll_eq_none_iff]
  unfold assemble
  cases c.style.compileAll p.componentName p.styleBlocks <;> simp

/-- A source can be read, and is a text. -/
def Reads (t : FileTree) (source : Path) (text : String) : Prop :=
  ∃ bytes, t.read source = .ok bytes ∧ Utf8.decode bytes = some text

/-- The reasons to turn down a source under an identifier, and the errors that say so. -/
inductive Rejects (c : Compiler) (i : String) (source : Path) (s : Workspace) : Error → Prop where
  | unreadable {f : Fault} (h : s.files.read source = .error f) : c.Rejects i source s (.fault f)
  | notText {bytes : Bytes} (hread : s.files.read source = .ok bytes)
      (h : Utf8.decode bytes = none) :
      c.Rejects i source s (.failure (.sourceNotText source.name))
  | unnamed {text : String} (htext : Reads s.files source text) (h : i = "") :
      c.Rejects i source s (.invalid (Source.nameIssues i))
  | taken {text j : String} (htext : Reads s.files source text) (hi : i ≠ "")
      (howner : Table.get? s.registry.owners (Identifier.flatten i) = some j) (hj : j ≠ i) :
      c.Rejects i source s (.failure (.nameCollision (Identifier.flatten i) i j))
  | style {text : String} {b : StyleBlock} (htext : Reads s.files source text) (hi : i ≠ "")
      (hfree : ∀ j, Table.get? s.registry.owners (Identifier.flatten i) = some j → j = i)
      (hb : b ∈ Source.styleBlocks text) (h : c.style.compile (Identifier.flatten i) b = none) :
      c.Rejects i source s (.failure (.styleRejected (Identifier.flatten i)))

/-! ## One reason after the other -/

/-- The name of a text with an identifier is looked at before anything is done. -/
theorem outcome_compile_of_reads {text : String} (htext : Reads s.files source text)
    (hi : i ≠ "") :
    outcome (c.compile i source) s = match s.registry.checkName i (Identifier.flatten i) with
      | .error f => (.error (.failure f), s)
      | .ok () => outcome (c.enroll i (Source.sections i text (script? s.files source))) s := by
  obtain ⟨bytes, hread, hdecode⟩ := htext
  have hparse : Source.parse i text (script? s.files source) =
      .ok (Source.sections i text (script? s.files source)) := by
    simp [Source.parse, Source.nameIssues, hi]
  rw [outcome_compile_eq, hread]
  simp only [hdecode, hparse]
  rfl

theorem checkName_eq_ok_iff {r : Registry} {name : String} :
    r.checkName i name = .ok () ↔ ∀ j, Table.get? r.owners name = some j → j = i := by
  unfold Registry.checkName
  cases Table.get? r.owners name with
  | none => simp
  | some j =>
    by_cases hj : j = i <;> simp [hj]

theorem checkName_eq_error_iff {r : Registry} {name : String} {f : Failure} :
    r.checkName i name = .error f ↔
      ∃ j, Table.get? r.owners name = some j ∧ j ≠ i ∧ f = .nameCollision name i j := by
  unfold Registry.checkName
  cases Table.get? r.owners name with
  | none => simp
  | some j =>
    by_cases hj : j = i
    · simp [hj]
    · simp only [hj, if_false, Except.error.injEq, Option.some.injEq, exists_eq_left', ne_eq,
        not_false_eq_true, true_and]
      exact eq_comm

/-- Where a style block is not well formed, the directories are all that is made. -/
theorem outcome_enroll_of_assemble_eq_none {p : ParsedComponent} (h : c.assemble p = none) :
    outcome (c.enroll i p) s = match outcome c.ensureOutputs s with
      | (.error e, t) => (.error e, t)
      | (.ok (), t) => (.error (.failure (.styleRejected p.componentName)),
          { t with
            log := t.log ++ [.failed (Failure.styleRejected p.componentName).kind .other] }) := by
  rw [enroll, outcome_bind, outcome_store]
  rcases outcome c.ensureOutputs s with ⟨e | u, t⟩
  · rfl
  · simp only [h]

section Directories

variable (hcode : c.codeDir.Proper) (hassets : c.assetsDir.Proper)
include hcode hassets

/-- A reason to turn a source down is what compiling ends with, unless the directories cannot even
be made.  Files and registry are left alone. -/
theorem Rejects.outcome_eq {e : Error} {x : Except Error CompiledComponent}
    (h : c.Rejects i source s e) (hx : outcome (c.compile i source) s = (x, s')) :
    (x = .error e ∨ ∃ f, x = .error (.fault f) ∧
      e = .failure (.styleRejected (Identifier.flatten i)) ∧
      outcome c.ensureOutputs s = (.error (.fault f), s')) ∧ s.Untouched s' := by
  cases h with
  | unreadable h =>
    rw [outcome_compile_eq, h] at hx
    cases hx
    exact ⟨.inl rfl, s.untouched_log _⟩
  | notText hread h =>
    rw [outcome_compile_eq, hread] at hx
    simp only [h] at hx
    cases hx
    exact ⟨.inl rfl, s.untouched_log _⟩
  | unnamed htext h =>
    obtain ⟨bytes, hread, hdecode⟩ := htext
    subst h
    rw [outcome_compile_eq, hread] at hx
    simp only [hdecode] at hx
    cases hx
    exact ⟨.inl rfl, s.untouched_log _⟩
  | taken htext hi howner hj =>
    rw [outcome_compile_of_reads htext hi,
      checkName_eq_error_iff.mpr ⟨_, howner, hj, rfl⟩] at hx
    cases hx
    exact ⟨.inl rfl, s.untouched_log _⟩
  | @style text b htext hi hfree hb h =>
    have hnone : c.assemble (Source.sections i text (script? s.files source)) = none :=
      assemble_eq_none_iff.mpr ⟨b, hb, h⟩
    rw [outcome_compile_of_reads htext hi, checkName_eq_ok_iff.mpr hfree] at hx
    dsimp only at hx
    rw [outcome_enroll_of_assemble_eq_none hnone] at hx
    rcases hensure : outcome c.ensureOutputs s with ⟨e | u, t⟩
    · obtain ⟨hregistry, -, hedits, -⟩ := outcome_ensureOutputs hcode hassets hensure
      obtain ⟨f, rfl⟩ := exists_of_ensureOutputs_eq_error hensure
      rw [hensure] at hx
      cases hx
      exact ⟨.inr ⟨f, rfl, rfl, rfl⟩, Workspace.untouched_of_edits hregistry hedits⟩
    · obtain ⟨hregistry, -, hedits, -⟩ := outcome_ensureOutputs hcode hassets hensure
      rw [hensure] at hx
      cases hx
      exact ⟨.inl rfl, Workspace.untouched_of_edits hregistry hedits⟩

/-- Whatever compiling ends with, other than a fault of the files, is a reason to turn the source
down. -/
theorem rejects_of_outcome {e : Error} (h : outcome (c.compile i source) s = (.error e, s')) :
    (∃ f, e = .fault f) ∨ c.Rejects i source s e := by
  cases hread : s.files.read source with
  | error f =>
    rw [outcome_compile_eq, hread] at h
    cases h
    exact .inl ⟨f, rfl⟩
  | ok bytes =>
    cases hdecode : Utf8.decode bytes with
    | none =>
      rw [outcome_compile_eq, hread] at h
      simp only [hdecode] at h
      cases h
      exact .inr (.notText hread hdecode)
    | some text =>
      have htext : Reads s.files source text := ⟨bytes, hread, hdecode⟩
      by_cases hi : i = ""
      · subst hi
        rw [outcome_compile_eq, hread] at h
        simp only [hdecode] at h
        cases h
        exact .inr (.unnamed htext rfl)
      rw [outcome_compile_of_reads htext hi] at h
      cases hcheck : s.registry.checkName i (Identifier.flatten i) with
      | error f =>
        obtain ⟨j, howner, hj, rfl⟩ := checkName_eq_error_iff.mp hcheck
        rw [hcheck] at h
        cases h
        exact .inr (.taken htext hi howner hj)
      | ok u =>
        rw [hcheck] at h
        dsimp only at h
        rcases outcome_enroll hcode hassets hcheck h with
          ⟨⟨_, ⟨⟩, ⟨f, rfl⟩ | hnone⟩, -⟩ | ⟨r, t, -, -, -, ⟨⟨f, ⟨⟩⟩, -⟩ | ⟨⟨⟩, -⟩⟩
        · exact .inl ⟨f, rfl⟩
        · obtain ⟨b, hb, hstyle⟩ := assemble_eq_none_iff.mp hnone
          rw [outcome_enroll_of_assemble_eq_none hnone] at h
          rcases hensure : outcome c.ensureOutputs s with ⟨e' | v, t⟩
          · obtain ⟨f, rfl⟩ := exists_of_ensureOutputs_eq_error hensure
            rw [hensure] at h
            cases h
            exact .inl ⟨f, rfl⟩
          · rw [hensure] at h
            cases h
            exact .inr (.style htext hi (checkName_eq_ok_iff.mp hcheck) hb hstyle)
        · exact .inl ⟨f, rfl⟩

end Directories

/-- A name that is taken is found out before anything is done. -/
theorem state_eq_of_nameCollision (hcode : c.codeDir.Proper) (hassets : c.assetsDir.Proper)
    {name j k : String}
    (h : outcome (c.compile i source) s = (.error (.failure (.nameCollision name j k)), s')) :
    s' = s := by
  rcases rejects_of_outcome hcode hassets h with ⟨f, ⟨⟩⟩ | hrejects
  cases hrejects with
  | taken htext hi howner hj =>
    rw [outcome_compile_of_reads htext hi,
      checkName_eq_error_iff.mpr ⟨_, howner, hj, rfl⟩] at h
    cases h
    rfl

/-- Compiling is all or nothing on sources that are turned down.  A reason to turn a source down is
what compiling ends with, and every file and the registry are as before; it is only for a style block
that is not well formed that the directories are made first, which can end in a fault of its own.
There are no other reasons, and a name that is taken changes nothing at all. -/
theorem rejected_source_leaves_no_trace (hcode : c.codeDir.Proper) (hassets : c.assetsDir.Proper) :
    (∀ e x s', c.Rejects i source s e → outcome (c.compile i source) s = (x, s') →
      (x = .error e ∨ ∃ f, x = .error (.fault f) ∧
        e = .failure (.styleRejected (Identifier.flatten i)) ∧
        outcome c.ensureOutputs s = (.error (.fault f), s')) ∧ s.Untouched s') ∧
    (∀ e s', outcome (c.compile i source) s = (.error e, s') →
      (∃ f, e = .fault f) ∨ c.Rejects i source s e) ∧
    (∀ name j k s',
      outcome (c.compile i source) s = (.error (.failure (.nameCollision name j k)), s') →
        s' = s) :=
  ⟨fun _ _ _ h hx ↦ h.outcome_eq hcode hassets hx,
    fun _ _ h ↦ rejects_of_outcome hcode hassets h,
    fun _ _ _ _ h ↦ state_eq_of_nameCollision hcode hassets h⟩

/-- A compiler that resolves nested rules. -/
def nestingCompiler : Compiler where
  home := "main"
  namespacePrefix := "app"
  sourceDir := ⟨.relative, ["src"]⟩
  codeDir := ⟨.relative, ["out"]⟩
  assetsDir := ⟨.relative, ["out"]⟩
  publicUrl := "/out"
  style := .preprocessor .compressed
  script := .embedded

/-- A source with two style blocks, the second of which ends too early. -/
def cutSource : String := "<style>p \x7b top: 0 \x7d</style><style>p \x7b top</style>"

/-- The place of the source. -/
def cutPath : Path := ⟨.relative, ["src", "Cut.ice.py"]⟩

/-- Nothing but the source is there. -/
def withCutSource : Workspace where
  files := ((FileTree.empty []).set ["src"] (.directory FileTree.parentMode)).set cutPath.parts
    (.file (Utf8.encode cutSource) FileTree.fileMode 0)
  registry := .empty
  log := []

/-- The first style block could be written, but the second one comes to light before that. -/
theorem cut_source_leaves_no_trace : ∃ s',
    outcome (nestingCompiler.compile "app.Cut" cutPath) withCutSource =
      (.error (.failure (.styleRejected "app_Cut")), s') ∧ withCutSource.Untouched s' := by
  have htext : Reads withCutSource.files cutPath cutSource :=
    ⟨Utf8.encode cutSource, rfl, Utf8.decode_encode _⟩
  have hrejects : nestingCompiler.Rejects "app.Cut" cutPath withCutSource
      (.failure (.styleRejected "app_Cut")) :=
    .style (b := ⟨"p \x7b top", false⟩) htext (by decide)
      (by simp [withCutSource, Registry.empty]) (by decide +kernel) (by decide +kernel)
  have hmade : (outcome nestingCompiler.ensureOutputs withCutSource).1.toBool = true := by
    decide +kernel
  rcases h : outcome (nestingCompiler.compile "app.Cut" cutPath) withCutSource with ⟨x, s'⟩
  obtain ⟨rfl | ⟨f, -, -, hfault⟩, huntouched⟩ :=
    (rejected_source_leaves_no_trace (by decide) (by decide)).1 _ x s' hrejects h
  · exact ⟨s', rfl, huntouched⟩
  · rw [hfault] at hmade
    cases hmade

end Compiler

end IceCube
