import IceCube.Proofs.Compiler.Locating
import IceCube.Proofs.Compiler.Rescan

/-!
# Compiling a source again by its identifier

A scan names the components of a directory after their sources, and a compiler that is asked for an
identifier looks for the source that has this name.  The two go together exactly for sources without
a dot in their names: a dot is part of the name of a file, but starts a new segment of an identifier.
No compiled file is put where a source is, so what a scan has compiled is compiled again to the same
record, unless a compiled file is put where the script beside the source is.
-/

namespace IceCube

open Step

namespace Compiler

variable {c : Compiler} {s s' : Workspace} {r : CompiledComponent} {rs : List CompiledComponent}
  {base : String}

/-! ## From names to identifiers and back -/

theorem handles_identifierOf (c : Compiler) (base : String) :
    c.handles (c.identifierOf base) = true :=
  Identifier.after?_isSome_iff.mpr ⟨base, rfl⟩

theorem sourcePathFor_identifierOf (h : '.' ∉ base.toList) :
    c.sourcePathFor (c.identifierOf base) = c.sourceOf base := by
  have hpieces : Path.splitOn Identifier.separator base.toList = [base.toList] :=
    Path.splitOn_of_not_mem h
  have hsegments : c.segmentsBelow (c.identifierOf base) = [base] := by
    rw [identifierOf, segmentsBelow_below, Identifier.segments, hpieces, List.map_singleton,
      String.ofList_toList]
  rw [sourcePathFor_eq, steps, hsegments]
  rfl

/-- A name with a dot is that of another source. -/
theorem place_sourcePathFor_ne (hslash : '/' ∉ base.toList) (hdot : '.' ∈ base.toList)
    (t : FileTree) :
    t.place (c.sourcePathFor (c.identifierOf base)) ≠ t.place (c.sourceOf base) := by
  obtain ⟨parents, last, hsegments, hsteps⟩ := exists_segmentsBelow c (c.identifierOf base)
  have hlast : last ∈ Identifier.segments base := by
    rw [← segmentsBelow_below c, ← identifierOf, hsegments]
    simp
  rw [sourcePathFor_eq, hsteps, List.foldl_concat,
    place_joinText_source t _ (Identifier.slash_not_mem_of_mem_segments hslash hlast), sourceOf,
    place_joinText_source t _ hslash]
  intro heq
  -- the last segment has no dot
  have hnames := List.singleton_inj.mp (List.append_inj_right' heq rfl)
  rw [append_sourceSuffix_injective hnames] at hlast
  exact Identifier.dot_not_mem_of_mem_segments hlast hdot

/-! ## What is there after a scan -/

section Scanning

variable (hcode : c.codeDir.Proper) (hassets : c.assetsDir.Proper)
include hcode hassets

/-- After a scan every component is enrolled, and has a source that is there still.  What no compiled
file is put over is as it was when this source was compiled. -/
theorem exists_source_of_scan (hs : s.files.Sound) (h : outcome c.scan s = (.ok rs, s')) :
    c.Enrolled rs s'.files s'.registry ∧ ∀ r ∈ rs, ∃ base ∈ sourceNames s'.files c.sourceDir,
      r.identifier = c.identifierOf base ∧
      ∃ t, FileTree.Grows (c.Covers rs s.files) s.files t ∧
        FileTree.Grows (c.Covers rs s.files) t s'.files ∧
        c.compiled? r.identifier t (c.sourceOf base) = some r ∧
        ∀ p, ¬ c.Covers rs s.files (s.files.place p) → s'.files.shown p = t.shown p := by
  obtain ⟨s₁, u, -, hgrows, hcodeThere, hassetsThere, hcompiled, rfl⟩ :=
    exists_compileSources_of_scan hcode hassets h
  obtain ⟨-, hgrows', hall⟩ := outcome_compileSources_eq_ok hcode hassets hcompiled
  obtain ⟨henrolled, hrewrites⟩ := enrolled_of_compileSources hcode hassets (hgrows.sound hs)
    hcodeThere hassetsThere hcompiled
  have hsame := sameBut_of_hold hrewrites henrolled.hold
  have hfirst : FileTree.Grows (c.Covers rs s.files) s.files s₁.files :=
    hgrows.mono fun _ ↦ False.elim
  have hcovers : ∀ l, c.Covers rs s₁.files l ↔ c.Covers rs s.files l := covers_of_grows hgrows rs
  refine ⟨henrolled, fun r hr ↦ ?_⟩
  obtain ⟨k, hk⟩ := List.getElem?_of_mem hr
  obtain ⟨base, hbase, t, ht, ht', hcompiled⟩ := exists_getElem?_of_forall₂ hall.flip hk
  have hidentifier := (describes_of_compiled? hcompiled).identifier
  refine ⟨base, mem_sourceNames_of_grows hgrows' (List.mem_of_getElem? hbase), hidentifier, t,
    hfirst.trans (ht.mono fun l ↦ (hcovers l).mp), ht'.mono fun l ↦ (hcovers l).mp, ?_,
    fun p hp ↦ ?_⟩
  · rw [hidentifier]
    exact hcompiled
  · rw [← hgrows.place, ← hcovers] at hp
    exact (hsame.shown hp).trans (ht.shown_eq ht' hp (hsame.shown hp)).symm

end Scanning

/-! ## Compiling again -/

/-- A component that is enrolled and whose source compiles to it still is compiled by its identifier
without a trace but in the log. -/
theorem outcome_compileIdentifier_of_enrolled (henrolled : c.Enrolled rs s.files s.registry)
    (hr : r ∈ rs) (hhandles : c.handles r.identifier = true)
    (hcompiled : c.compiled? r.identifier s.files (c.sourcePathFor r.identifier) = some r) :
    outcome (c.compileIdentifier r.identifier) s =
      (.ok r, { s with log := s.log ++ [compiledEvent r] }) := by
  obtain ⟨bytes, _, _, hread, -⟩ := compiled?_eq_some_iff.mp hcompiled
  have hfile := FileTree.isFile_of_read hread
  have hregister := Registry.register_eq_self (henrolled.record r hr) (henrolled.owner r hr)
  have hcompile := outcome_compile_of_hold henrolled.codeDir henrolled.assetsDir hcompiled hregister
    (henrolled.hold r hr)
  rw [compileIdentifier, hhandles, if_neg (by decide)]
  dsimp only
  rw [outcome_get_bind, if_pos hfile, hcompile]

/-- What a scan has compiled has a source that is there still and shows what was compiled.  The
identifier leads to this source exactly if the name of the source has no dot.  Then compiling the
identifier, and resolving it by force, gives the same record again, as long as no compiled file is put
where the script beside the source is. -/
theorem recompiles_after_scan (hcode : c.codeDir.Proper) (hassets : c.assetsDir.Proper)
    (hs : s.files.Sound) (h : outcome c.scan s = (.ok rs, s')) :
    ∀ r ∈ rs, ∃ base ∈ sourceNames s'.files c.sourceDir, r.identifier = c.identifierOf base ∧
      (∃ t, FileTree.Grows (c.Covers rs s.files) s.files t ∧
        FileTree.Grows (c.Covers rs s.files) t s'.files ∧
        c.compiled? r.identifier t (c.sourceOf base) = some r ∧
        s'.files.shown (c.sourceOf base) = t.shown (c.sourceOf base)) ∧
      (∀ t : FileTree, t.place (c.sourcePathFor r.identifier) = t.place (c.sourceOf base) ↔
        '.' ∉ base.toList) ∧
      ('.' ∉ base.toList → c.sourcePathFor r.identifier = c.sourceOf base ∧
        (¬ c.Covers rs s.files (s.files.place (scriptPathFor (c.sourceOf base))) →
          ∀ w : World, w.files = s'.files → w.registry c.home = s'.registry →
            outcome (c.compileIdentifier r.identifier) (w.workspace c.home) =
              (.ok r, { w.workspace c.home with log := w.log ++ [compiledEvent r] }) ∧
            ((w.registry c.home).compilerFor? r.identifier = some c →
              outcome (Resolve.record c.home r.identifier true) w =
                (.ok (some (.compiled r)), w.withWorkspace c.home
                  { w.workspace c.home with log := w.log ++ [compiledEvent r] })))) := by
  obtain ⟨henrolled, hsources⟩ := exists_source_of_scan hcode hassets hs h
  have hdescribes : ∀ r ∈ rs, '.' ∉ r.componentName.toList := by
    intro r hr
    obtain ⟨_, _, _, _, _, _, hcompiled, _⟩ := hsources r hr
    rw [(describes_of_compiled? hcompiled).componentName]
    exact Identifier.dot_not_mem_flatten _
  intro r hr
  obtain ⟨base, hbase, hidentifier, t, ht, ht', hcompiled, hshown⟩ := hsources r hr
  have hsound := ht'.sound (ht.sound hs)
  have hslash := slash_not_mem_sourceNames hsound hbase
  have hsource : ¬ c.Covers rs s.files (s.files.place (c.sourceOf base)) := by
    rintro ⟨r', hr', hl⟩
    rw [sourceOf, place_joinText_source _ _ hslash] at hl
    exact source_not_mem_places (hdescribes r' hr') _ _ _ hl
  have hpath (hdot : '.' ∉ base.toList) : c.sourcePathFor r.identifier = c.sourceOf base := by
    rw [hidentifier, sourcePathFor_identifierOf hdot]
  refine ⟨base, hbase, hidentifier, ⟨t, ht, ht', hcompiled, hshown _ hsource⟩, fun u ↦ ?_,
    fun hdot ↦ ⟨hpath hdot, fun hscript w hfiles hregistry ↦ ?_⟩⟩
  · constructor
    · intro hplace hdot
      rw [hidentifier] at hplace
      exact place_sourcePathFor_ne hslash hdot u hplace
    · intro hdot
      rw [hpath hdot]
  · have hagain : c.compiled? r.identifier s'.files (c.sourcePathFor r.identifier) = some r := by
      rw [hpath hdot, compiled?_of_shown (hshown _ hsource) (hshown _ hscript), hcompiled]
    have hhandles : c.handles r.identifier = true := by
      rw [hidentifier]
      exact handles_identifierOf c base
    rw [← hfiles] at hagain henrolled
    rw [← hregistry] at henrolled
    have hcompile : outcome (c.compileIdentifier r.identifier) (w.workspace c.home) =
        (.ok r, { w.workspace c.home with log := w.log ++ [compiledEvent r] }) :=
      outcome_compileIdentifier_of_enrolled henrolled hr hhandles hagain
    exact ⟨hcompile, fun hcompiler ↦
      Resolve.outcome_record_of_compile (.inr rfl) hcompiler hcompile⟩

theorem deck_recompiles : ∃ rs s',
    outcome cardCompiler.scan ⟨deckFiles, .empty, []⟩ = (.ok rs, s') ∧
      rs.map (·.identifier) = ["app.Card", "app.Deck"] ∧
      ∀ r ∈ rs, outcome (cardCompiler.compileIdentifier r.identifier) s' =
        (.ok r, { s' with log := s'.log ++ [compiledEvent r] }) := by
  have hnames : (outcome cardCompiler.scan ⟨deckFiles, .empty, []⟩).1.toOption.map
      (·.map fun r ↦ (r.identifier, r.componentName)) =
        some [("app.Card", "app_Card"), ("app.Deck", "app_Deck")] := by
    simp only [scan, sourceNames, FileTree.names_eq_insertionSort]
    decide +kernel
  obtain ⟨rs, s', h, hnames⟩ := exists_outcome_of_map hnames
  have hidentifiers : rs.map (·.identifier) = ["app.Card", "app.Deck"] := by
    have hfirst := congrArg (List.map Prod.fst) hnames
    rwa [List.map_map] at hfirst
  have hcomponents : rs.map (·.componentName) = ["app_Card", "app_Deck"] := by
    have hsecond := congrArg (List.map Prod.snd) hnames
    rwa [List.map_map] at hsecond
  refine ⟨rs, s', h, hidentifiers, fun r hr ↦ ?_⟩
  have hidentifier : r.identifier ∈ ["app.Card", "app.Deck"] := by
    rw [← hidentifiers]
    exact List.mem_map_of_mem hr
  obtain ⟨base, -, hbase, -, -, hagain⟩ :=
    recompiles_after_scan (c := cardCompiler) (by decide) (by decide) (by decide) h r hr
  have hcard : base ∈ ["Card", "Deck"] := by
    rw [hbase] at hidentifier
    have hdecks : ["app.Card", "app.Deck"] = ["Card", "Deck"].map cardCompiler.identifierOf := by
      decide
    rwa [hdecks, List.mem_map_of_injective (identifierOf_injective cardCompiler)] at hidentifier
  have hscripts : ∀ base ∈ ["Card", "Deck"], '.' ∉ base.toList ∧ ∀ name ∈ ["app_Card", "app_Deck"],
      deckFiles.place (scriptPathFor (cardCompiler.sourceOf base)) ∉
        (cardCompiler.outputs name).places deckFiles := by
    decide
  obtain ⟨hdot, hscript⟩ := hscripts base hcard
  have hfree : ¬ cardCompiler.Covers rs deckFiles
      (deckFiles.place (scriptPathFor (cardCompiler.sourceOf base))) := by
    rintro ⟨r', hr', hl⟩
    refine hscript r'.componentName ?_ hl
    rw [← hcomponents]
    exact List.mem_map_of_mem hr'
  let w : World := { World.start s'.files ⟨none, none⟩ with
    registries := [("main", s'.registry)]
    log := s'.log }
  exact ((hagain hdot).2 hfree w rfl rfl).1

/-- A source whose name has a dot. -/
def dottedFiles : FileTree :=
  ((FileTree.empty []).set ["src"] (.directory FileTree.parentMode)).set ["src", "a.b.ice.py"]
    (.file (Utf8.encode "pass") FileTree.fileMode 0)

/-- It is scanned under an identifier that leads elsewhere, so it cannot be compiled again by it. -/
theorem dotted_source_not_recompiled : ∃ r s s',
    outcome cardCompiler.scan ⟨dottedFiles, .empty, []⟩ = (.ok [r], s) ∧
      r.identifier = cardCompiler.identifierOf "a.b" ∧
      cardCompiler.sourcePathFor r.identifier ≠ cardCompiler.sourceOf "a.b" ∧
      outcome (cardCompiler.compileIdentifier r.identifier) s =
        (.error (.failure (.componentNotFound r.identifier)), s') := by
  have hscan : (outcome cardCompiler.scan ⟨dottedFiles, .empty, []⟩).1.toOption.map
      (·.map (·.identifier)) = some ["app.a.b"] := by
    simp only [scan, sourceNames, FileTree.names_eq_insertionSort]
    decide +kernel
  have hmissing : (outcome cardCompiler.scan
      ⟨dottedFiles, .empty, []⟩).2.files.isFile (cardCompiler.sourcePathFor "app.a.b") = false := by
    simp only [scan, sourceNames, FileTree.names_eq_insertionSort]
    decide +kernel
  obtain ⟨rs, s, h, hscan⟩ := exists_outcome_of_map hscan
  rw [h] at hmissing
  obtain ⟨r, rfl, hr⟩ := List.map_eq_singleton_iff.mp hscan
  have hhandles : cardCompiler.handles "app.a.b" = true := by decide
  have hcompile : ∃ s', outcome (cardCompiler.compileIdentifier "app.a.b") s =
      (.error (.failure (.componentNotFound "app.a.b")), s') := by
    rw [compileIdentifier, hhandles, if_neg (by decide)]
    dsimp only at hmissing ⊢
    rw [outcome_get_bind, hmissing, if_neg (by decide)]
    exact ⟨_, rfl⟩
  obtain ⟨s', hs'⟩ := hcompile
  refine ⟨r, s, s', h, ?_, ?_, ?_⟩
  · rw [hr]
    decide
  · rw [hr]
    decide
  · rw [hr]
    exact hs'

end Compiler

end IceCube
