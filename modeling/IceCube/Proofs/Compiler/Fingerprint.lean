import IceCube.Proofs.Compiler.Artifacts
import IceCube.Proofs.Json.File

/-!
# What a fingerprint tells apart

The address of a compiled script changes with the fingerprint of its source, which is taken of the
source and the script beside it in one piece.  Where one ends and the other begins is not in it: two
compilations with the same fingerprint are of the same text in all, and they are of the same source
exactly if they put out the same and both or neither have a script beside the source.
-/

namespace IceCube

open Step

variable {c : Compiler} {i text text' : String} {script script' : Option String}
  {r r' : CompiledComponent}

namespace Source

/-! ## What is fingerprinted -/

/-- The text that a fingerprint is taken of. -/
def whole (text : String) (script : Option String) : String := text ++ script.getD ""

/-- The first eight digits of a hash. -/
def fingerprint (m : Bytes) : String := String.ofList ((Hash.Xxh128.hexDigest m).toList.take 8)

theorem digest_eq (text : String) (script : Option String) :
    digest text script = fingerprint (Utf8.encode (whole text script)) := rfl

/-- There is a script beside a source, and it is not empty. -/
def Beside (script : Option String) : Prop := script.getD "" ≠ ""

/-- A script that is empty is none. -/
theorem scriptSection_eq (text : String) (script : Option String) : scriptSection text script =
    if script.getD "" = "" then inlineScript? text else some (script.getD "") := by
  cases script with
  | none => rfl
  | some s => simp only [scriptSection, Option.getD_some, String.isEmpty_iff]

theorem getD_scriptSection (h : Beside script) (text : String) :
    (scriptSection text script).getD "" = script.getD "" := by
  rw [scriptSection_eq, if_neg h, Option.getD_some]

theorem sections_congr (h : script.getD "" = script'.getD "") (i text : String) :
    sections i text script = sections i text script' := by
  rw [sections, sections, scriptSection_eq, digest, h, ← scriptSection_eq, ← digest]

theorem whole_eq_of_not_beside (h : ¬ Beside script) : whole text script = text := by
  rw [whole, not_not.mp h, String.append_empty]

end Source

open Source

/-! ## Strategies keep scripts apart -/

/-- A script comes first in what it is compiled to. -/
theorem Script.embed_eq_append (component script style : String) :
    embed component script style = script ++ embed component "" style := by
  unfold embed
  simp only [String.append_assoc, String.empty_append]

theorem ScriptStrategy.compile_inj {strategy : ScriptStrategy} {component style s s' : String}
    (h : strategy.compile component s style = strategy.compile component s' style) : s = s' := by
  cases strategy with
  | embedded =>
    have hembed : Script.embed component s style = Script.embed component s' style := h
    rw [Script.embed_eq_append, Script.embed_eq_append component s'] at hembed
    exact (String.append_left_inj _).mp hembed
  | externalBundler =>
    have himporting : Script.importing component s = Script.importing component s' := h
    unfold Script.importing at himporting
    exact (String.append_right_inj _).mp ((String.append_left_inj _).mp himporting)

namespace Compiler

/-! ## Compilations -/

/-- A source with a script beside it is compiled to a record under an identifier. -/
def Compiles (c : Compiler) (i text : String) (script : Option String) (r : CompiledComponent) :
    Prop :=
  ∃ source s s' bytes, s.files.read source = .ok bytes ∧ Utf8.decode bytes = some text ∧
    script? s.files source = script ∧ outcome (c.compile i source) s = (.ok r, s')

theorem eq_of_outcome_writeOutputs {o : Outputs} {s s' : Workspace}
    (h : outcome (writeOutputs o r) s = (.ok r', s')) : r' = r := by
  obtain ⟨-, s₁, -, h⟩ := outcome_bind_eq_ok.mp h
  obtain ⟨-, s₂, -, h⟩ := outcome_bind_eq_ok.mp h
  obtain ⟨-, s₃, -, h⟩ := outcome_bind_eq_ok.mp h
  cases h
  rfl

/-- What is put out is assembled from the sections of the source. -/
theorem Compiles.assemble (h : c.Compiles i text script r) :
    c.assemble (sections i text script) = some r := by
  obtain ⟨source, s, s', bytes, hread, htext, rfl, h⟩ := h
  rw [outcome_compile_eq, hread] at h
  simp only [htext] at h
  cases hparse : parse i text (script? s.files source) with
  | error issues => simp [hparse] at h
  | ok p =>
    obtain ⟨-, rfl⟩ := parse_eq_ok hparse
    simp only [hparse] at h
    split at h
    · cases h
    · obtain ⟨stored, s₁, hstore, hregister⟩ := outcome_bind_eq_ok.mp h
      obtain ⟨-, s₂, -, hnote⟩ := outcome_bind_eq_ok.mp hregister
      obtain ⟨-, s₃, -, hreturn⟩ := outcome_bind_eq_ok.mp hnote
      cases hreturn
      rw [outcome_store] at hstore
      split at hstore
      · cases hstore
      · split at hstore
        · cases hstore
        · rename_i assembled hassemble
          rw [eq_of_outcome_writeOutputs hstore, hassemble]

/-- What two records put out is the same. -/
structure SameOutput (r r' : CompiledComponent) : Prop where
  code : r.codeSection = r'.codeSection
  script : r.compiledScript = r'.compiledScript
  style : r.compiledStyle = r'.compiledStyle

/-- What a record puts out is what its sections are compiled to. -/
theorem assemble_output {p : ParsedComponent} (h : c.assemble p = some r) :
    r.compiledScript =
        c.script.compile p.componentName (p.scriptSection.getD "") (r.compiledStyle.getD "") ∧
      r.scriptUrl = some (c.scriptUrl p.componentName p.digest) := by
  unfold Compiler.assemble at h
  cases hstyle : c.style.compileAll p.componentName p.styleBlocks with
  | none => simp [hstyle] at h
  | some style =>
    simp only [hstyle, Option.bind_eq_bind, Option.bind_some, Option.pure_def,
      Option.some.injEq] at h
    subst h
    exact ⟨rfl, rfl⟩

theorem Compiles.toParsedComponent (h : c.Compiles i text script r) :
    r.toParsedComponent = sections i text script := (assemble_eq_some h.assemble).1

/-- One text with a script beside it is compiled to one record, whichever way nothing is beside
it. -/
theorem Compiles.unique (h : c.Compiles i text script r) (h' : c.Compiles i text script' r')
    (hscript : script.getD "" = script'.getD "") : r = r' := by
  have hassemble := h.assemble
  rw [sections_congr hscript, h'.assemble] at hassemble
  cases hassemble
  rfl

/-- Two compilations under one identifier have the same fingerprint.  If that means that the texts
they fingerprint are the same, then they have the same address, and they are of the same source
exactly if they put out the same and both or neither have a script beside the source. -/
theorem same_source_iff_same_output (h : c.Compiles i text script r)
    (h' : c.Compiles i text' script' r') (hdigest : r.digest = r'.digest)
    (hfree : fingerprint (Utf8.encode (whole text script)) =
        fingerprint (Utf8.encode (whole text' script')) →
      Utf8.encode (whole text script) = Utf8.encode (whole text' script')) :
    r.scriptUrl = r'.scriptUrl ∧
      (text = text' ↔ SameOutput r r' ∧ (Beside script ↔ Beside script')) ∧
      (¬ Beside script → ¬ Beside script' → r = r') := by
  have hr := h.toParsedComponent
  have hr' := h'.toParsedComponent
  have hsame : digest text script = digest text' script' := by
    rwa [hr, hr'] at hdigest
  have hbytes := hfree (by rw [← digest_eq, ← digest_eq, hsame])
  have hwhole : whole text script = whole text' script' := by
    apply Option.some.inj
    rw [← Utf8.decode_encode, hbytes, Utf8.decode_encode]
  refine ⟨?_, ⟨?_, ?_⟩, ?_⟩
  · rw [(assemble_output h.assemble).2, (assemble_output h'.assemble).2]
    unfold sections
    rw [hsame]
  · rintro rfl
    have hscript : script.getD "" = script'.getD "" := (String.append_right_inj text).mp hwhole
    obtain rfl := h.unique h' hscript
    exact ⟨⟨rfl, rfl, rfl⟩, by rw [Beside, Beside, hscript]⟩
  · rintro ⟨hsame, hiff⟩
    by_cases hbeside : Beside script
    · have hscripts := hsame.script
      rw [(assemble_output h.assemble).1, (assemble_output h'.assemble).1, hsame.style] at hscripts
      have hscript : script.getD "" = script'.getD "" := by
        rw [← getD_scriptSection hbeside text, ← getD_scriptSection (hiff.mp hbeside) text']
        exact ScriptStrategy.compile_inj hscripts
      rw [whole, whole, hscript] at hwhole
      exact (String.append_left_inj _).mp hwhole
    · rwa [whole_eq_of_not_beside hbeside, whole_eq_of_not_beside (mt hiff.mpr hbeside)] at hwhole
  · intro hbeside hbeside'
    rw [whole_eq_of_not_beside hbeside, whole_eq_of_not_beside hbeside'] at hwhole
    subst hwhole
    exact h.unique h' ((not_not.mp hbeside).trans (not_not.mp hbeside').symm)

/-! ## A card and its script -/

/-- The source of a card, with a script beside it if there is one. -/
def cardBeside (text : String) (script : Option String) : Workspace where
  files := match script with
    | some code => (cardFiles.set cardSource (.file (Utf8.encode text) FileTree.fileMode 0)).set
        ["src", "Card.js"] (.file (Utf8.encode code) FileTree.fileMode 0)
    | none => cardFiles.set cardSource (.file (Utf8.encode text) FileTree.fileMode 0)
  registry := .empty
  log := []

theorem exists_compiles_card (text : String) (script : Option String)
    (h : (outcome (cardCompiler.compile "app.Card" ⟨.relative, cardSource⟩)
      (cardBeside text script)).1.toOption.isSome = true) :
    ∃ r, cardCompiler.Compiles "app.Card" text script r := by
  obtain ⟨r, hr⟩ := Option.isSome_iff_exists.mp h
  refine ⟨r, ⟨.relative, cardSource⟩, cardBeside text script, _, Utf8.encode text, ?_,
    Utf8.decode_encode text, ?_, Prod.ext (toOption_eq_some_iff.mp hr) rfl⟩
  · cases script <;> rfl
  · cases script with
    | none => rfl
    | some code => exact Utf8.decode_encode code

/-- It is all the same whether an empty script is beside a source or none. -/
theorem empty_script_is_none : ∃ r r', cardCompiler.Compiles "app.Card" "a" (some "") r ∧
    cardCompiler.Compiles "app.Card" "a" none r' ∧ r = r' := by
  obtain ⟨r, hr⟩ := exists_compiles_card "a" (some "") (by decide +kernel)
  obtain ⟨r', hr'⟩ := exists_compiles_card "a" none (by decide +kernel)
  have hdigest : r.digest = r'.digest := by
    rw [hr.toParsedComponent, hr'.toParsedComponent]
    rfl
  obtain ⟨-, -, hsame⟩ := same_source_iff_same_output hr hr' hdigest fun _ ↦ rfl
  exact ⟨r, r', hr, hr', hsame (fun h ↦ h rfl) (fun h ↦ h rfl)⟩

/-- If the first letter of a script is moved to the end of the source, other code and another script
are put out, and the address stays. -/
theorem moved_letter_keeps_address : ∃ r r', cardCompiler.Compiles "app.Card" "a" (some "bc") r ∧
    cardCompiler.Compiles "app.Card" "ab" (some "c") r' ∧
    whole "a" (some "bc") = whole "ab" (some "c") ∧ r.digest = r'.digest ∧
    r.scriptUrl = r'.scriptUrl ∧ r.codeSection ≠ r'.codeSection ∧
    r.compiledScript ≠ r'.compiledScript := by
  obtain ⟨r, hr⟩ := exists_compiles_card "a" (some "bc") (by decide +kernel)
  obtain ⟨r', hr'⟩ := exists_compiles_card "ab" (some "c") (by decide +kernel)
  have hdiffer : (cardCompiler.assemble (sections "app.Card" "a" (some "bc"))).map
      CompiledComponent.compiledScript ≠
        (cardCompiler.assemble (sections "app.Card" "ab" (some "c"))).map
          CompiledComponent.compiledScript := by
    decide +kernel
  rw [hr.assemble, hr'.assemble] at hdiffer
  refine ⟨r, r', hr, hr', by decide, ?_, ?_, ?_, fun hscript ↦ hdiffer (congrArg some hscript)⟩
  · rw [hr.toParsedComponent, hr'.toParsedComponent]
    rfl
  · rw [(assemble_output hr.assemble).2, (assemble_output hr'.assemble).2]
    rfl
  · rw [hr.toParsedComponent, hr'.toParsedComponent]
    decide +kernel

end Compiler

end IceCube
