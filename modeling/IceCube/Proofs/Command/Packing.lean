import IceCube.Command.Pack
import IceCube.Proofs.Command.Turns
import IceCube.Proofs.Config.Names
import IceCube.Proofs.FileTree.Written
import IceCube.Proofs.Manifest.Laws

/-!
# A run of packing

Packing goes over the selected configurations, and each has its turn with the manifest and the
files: it is left out, or it has nothing to pack, or its stylesheets are read, joined into one file
and put on the list of the entry point.  The manifest is written once after the last turn.
-/

namespace IceCube

open Step Manifest

/-! ## Where packed stylesheets are -/

namespace Manifest

variable {a b name : String}

theorem packedName_injective : Function.Injective packedName := by
  intro a b h
  rwa [packedName, packedName, String.append_left_inj, String.append_right_inj] at h

theorem isName_packedName (h : Config.isName name = true) : Path.IsName (packedName name) := by
  have htext : (packedName name).toList =
      "icecube_".toList ++ (name.toList ++ "_styles.css".toList) := by
    rw [packedName, String.toList_append, String.toList_append, List.append_assoc]
  refine ⟨fun hempty ↦ ?_, fun hdot ↦ ?_, fun hslash ↦ ?_⟩
  · rw [hempty] at htext
    simp at htext
  · rw [hdot] at htext
    simp at htext
  · rw [htext, List.mem_append, List.mem_append] at hslash
    rcases hslash with hslash | hslash | hslash
    · exact absurd hslash (by decide)
    · exact Config.slash_not_mem_of_isName h hslash
    · exact absurd hslash (by decide)

theorem packedName_ne_dots (name : String) : packedName name ≠ ".." := by
  intro h
  have htext := congrArg String.toList h
  simp [packedName] at htext

/-- The packed stylesheet of a configuration below a directory. -/
def packedPath (directory : Path) (name : String) : Path :=
  (directory.child "assets").child (packedName name)

theorem joinText_packedName (h : Config.isName name = true) (directory : Path) :
    (directory.joinText "assets").joinText (packedName name) = packedPath directory name := by
  have hassets : Path.IsName "assets" := by decide
  rw [Path.joinText_name hassets, Path.joinText_name (isName_packedName h), packedPath]

/-- The manifest lists the packed stylesheet under its path. -/
theorem joinText_packedFile (h : Config.isName name = true) (directory : Path) :
    directory.joinText (packedFile name) = packedPath directory name := by
  let relative : Path := ⟨.relative, ["assets", packedName name]⟩
  have hproper : relative.Proper := by
    intro n hn
    rcases List.mem_cons.mp hn with rfl | hn
    · decide
    · rw [List.mem_singleton.mp hn]
      exact isName_packedName h
  have htext : packedFile name = relative.text := by
    apply String.toList_injective
    rw [Path.toList_text (by simp [relative]), packedFile, String.toList_append]
    simp [relative, Root.text, List.intercalate]
  rw [htext, Path.joinText, hproper.ofText_text]
  simp [relative, Path.join, Path.isAbsolute, packedPath, Path.child]

theorem proper_packedPath {directory : Path} (hdirectory : directory.Proper)
    (h : Config.isName name = true) : (packedPath directory name).Proper :=
  (hdirectory.child (by decide)).child (isName_packedName h)

theorem place_packedPath (t : FileTree) (directory : Path) (name : String) :
    t.place (packedPath directory name) = t.place directory ++ ["assets", packedName name] := by
  rw [packedPath, t.place_child _ (packedName_ne_dots name), t.place_child _ (by decide),
    List.append_assoc]
  rfl

/-- No packed stylesheet is at the place of the manifest that it is packed for. -/
theorem place_packedPath_ne (t : FileTree) (p : Path) (name : String) :
    t.place (packedPath p.parent name) ≠ t.place p := by
  intro h
  rw [place_packedPath] at h
  have hlength : (t.place p).length ≤ (t.place p.parent).length + 1 := by
    rcases List.eq_nil_or_concat p.parts with hparts | ⟨parts, last, hparts⟩
    · have hparent : p.parent = p := by
        obtain ⟨root, parts⟩ := p
        cases hparts
        rfl
      rw [hparent]
      exact Nat.le_succ _
    · have hplace : t.place p = FileTree.enter (t.place p.parent) last := by
        simp [FileTree.place, Path.parent, Path.isAbsolute, hparts]
      rw [hplace, FileTree.enter]
      split
      · rw [List.length_dropLast]
        omega
      · rw [List.length_append, List.length_singleton]
  rw [← h, List.length_append] at hlength
  simp at hlength

theorem name_eq_of_place {t : FileTree} {directory : Path}
    (h : t.place (packedPath directory a) = t.place (packedPath directory b)) : a = b := by
  rw [place_packedPath, place_packedPath, List.append_cancel_left_eq] at h
  exact packedName_injective (List.cons.inj (List.cons.inj h).2).1

end Manifest

namespace Command

variable {file manifestFile entry : String} {name : Option String} {c c' : Console}
  {e : String × CompilerConfig} {es : Table String CompilerConfig} {m m' : Json}
  {directory : Path} {u v w : FileTree}

/-! ## Turns -/

/-- An item of a list is a file with a text. -/
def Reads (directory : Path) (files : FileTree) (item : Json) (text : String) : Prop :=
  ∃ file, item = .str file ∧ Config.readText files (directory.joinText file) = .ok text

/-- What the turn of a configuration does to the manifest and the files. -/
inductive PackTurn (directory : Path) (entry : String) (e : String × CompilerConfig) :
    Json → FileTree → Json → FileTree → Prop where
  | skipped {m : Json} {u : FileTree} (other : e.2.scriptStrategy ≠ .externalBundler) :
      PackTurn directory entry e m u m u
  | nothing {m rest : Json} {u : FileTree} (bundled : e.2.scriptStrategy = .externalBundler)
      (extracted : extract (Identifier.flatten e.2.namespacePrefix) m = .ok ([], rest)) :
      PackTurn directory entry e m u rest u
  | packed {m rest m' : Json} {items : List Json} {texts : List String} {u v : FileTree}
      (bundled : e.2.scriptStrategy = .externalBundler)
      (extracted : extract (Identifier.flatten e.2.namespacePrefix) m = .ok (items, rest))
      (read : List.Forall₂ (Reads directory u) items texts)
      (grows : FileTree.Grows (· = u.place (packedPath directory e.1)) u v)
      (written : v.read (packedPath directory e.1) = .ok (Utf8.encode ("\n".intercalate texts)))
      (added : addPacked e.1 entry rest = .ok m') :
      PackTurn directory entry e m u m' v

/-- Turns that follow one another. -/
inductive PackRun (directory : Path) (entry : String) :
    Table String CompilerConfig → Json → FileTree → Json → FileTree → Prop where
  | nil (m : Json) (u : FileTree) : PackRun directory entry [] m u m u
  | cons {e : String × CompilerConfig} {es : Table String CompilerConfig} {m m₁ m' : Json}
      {u v w : FileTree} (turn : PackTurn directory entry e m u m₁ v)
      (rest : PackRun directory entry es m₁ v m' w) : PackRun directory entry (e :: es) m u m' w

theorem PackTurn.grows (h : PackTurn directory entry e m u m' v) :
    FileTree.Grows (· = u.place (packedPath directory e.1)) u v := by
  cases h with
  | skipped _ => exact .refl _ _
  | nothing _ _ => exact .refl _ _
  | packed _ _ _ grows _ _ => exact grows

/-- A run takes nothing away and writes to packed stylesheets only. -/
theorem PackRun.grows (h : PackRun directory entry es m u m' w) :
    FileTree.Grows (fun l ↦ ∃ e ∈ es, e.2.scriptStrategy = .externalBundler ∧
      l = u.place (packedPath directory e.1)) u w := by
  induction h with
  | nil m u => exact .refl _ _
  | @cons e es m m₁ m' u v w turn rest ih =>
    have hplace := turn.grows.place
    have hfirst : FileTree.Grows (fun l ↦ ∃ e' ∈ e :: es,
        e'.2.scriptStrategy = .externalBundler ∧ l = u.place (packedPath directory e'.1)) u v := by
      cases turn with
      | skipped _ => exact .refl _ _
      | nothing _ _ => exact .refl _ _
      | packed bundled _ _ grows _ _ =>
        exact grows.mono fun l hl ↦ ⟨e, List.mem_cons_self .., bundled, hl⟩
    refine hfirst.trans (ih.mono ?_)
    rintro l ⟨e', he', hbundled, rfl⟩
    exact ⟨e', List.mem_cons_of_mem _ he', hbundled, hplace _⟩

/-- A run leaves a manifest that comes back from its text as it is. -/
theorem PackRun.plain (h : PackRun directory entry es m u m' w)
    (hentry : ∀ e ∈ es, e.2.scriptStrategy = .externalBundler → packedName e.1 ≠ entry)
    (hm : m.Plain) : m'.Plain := by
  induction h with
  | nil m u => exact hm
  | @cons e es m m₁ m' u v w turn rest ih =>
    obtain ⟨he, hes⟩ := List.forall_mem_cons.mp hentry
    refine ih hes ?_
    cases turn with
    | skipped _ => exact hm
    | nothing _ extracted => exact plain_of_extract extracted hm
    | packed bundled extracted _ _ _ added =>
      exact plain_of_addPacked added (he bundled) (plain_of_extract extracted hm)

/-! ## Steps -/

theorem outcome_onFiles_eq_ok {change : FileTree → Except Fault FileTree}
    (h : outcome (onFiles change) c = (.ok (), c')) :
    change c.files = .ok c'.files ∧ c'.environment = c.environment := by
  rw [onFiles, outcome_get_bind] at h
  cases hchange : change c.files with
  | error f => simp [hchange] at h
  | ok t =>
    simp only [hchange] at h
    cases h
    exact ⟨rfl, rfl⟩

theorem outcome_ofManifestResult_eq_ok {α : Type} {r : Except Flaw α} {a : α}
    (h : outcome (ofManifestResult r) c = (.ok a, c')) : r = .ok a ∧ c' = c := by
  cases r with
  | error flaw => cases h
  | ok b =>
    cases h
    exact ⟨rfl, rfl⟩

theorem outcome_readStyle_eq_ok {item : Json} {text : String}
    (h : outcome (readStyle directory item) c = (.ok text, c')) :
    Reads directory c.files item text ∧ c' = c := by
  cases item with
  | str file =>
    rw [readStyle, outcome_get_bind] at h
    cases htext : Config.readText c.files (directory.joinText file) with
    | error e => simp [htext] at h
    | ok t =>
      simp only [htext] at h
      cases h
      exact ⟨⟨file, rfl, htext⟩, rfl⟩
  | _ => cases h

theorem outcome_mapM_readStyle_eq_ok {items : List Json} {texts : List String}
    (h : outcome (items.mapM (readStyle directory)) c = (.ok texts, c')) :
    List.Forall₂ (Reads directory c.files) items texts ∧ c' = c := by
  induction items generalizing texts with
  | nil =>
    cases h
    exact ⟨.nil, rfl⟩
  | cons item items ih =>
    rw [List.mapM_cons] at h
    obtain ⟨text, c₁, hitem, hrest⟩ := outcome_bind_eq_ok.mp h
    obtain ⟨more, c₂, hitems, hend⟩ := outcome_bind_eq_ok.mp hrest
    cases hend
    obtain ⟨hreads, rfl⟩ := outcome_readStyle_eq_ok hitem
    obtain ⟨hmore, rfl⟩ := ih hitems
    exact ⟨.cons hreads hmore, rfl⟩

theorem outcome_writePacked_eq_ok {name : String} {items : List Json} {packed : Path}
    (hname : Config.isName name = true) (hdirectory : directory.Proper)
    (h : outcome (writePacked directory name items) c = (.ok packed, c')) :
    c'.environment = c.environment ∧
      FileTree.Grows (· = c.files.place (packedPath directory name)) c.files c'.files ∧
      ∃ texts, List.Forall₂ (Reads directory c.files) items texts ∧
        c'.files.read (packedPath directory name) =
          .ok (Utf8.encode ("\n".intercalate texts)) := by
  rw [writePacked, joinText_packedName hname] at h
  obtain ⟨texts, c₁, hread, hrest⟩ := outcome_bind_eq_ok.mp h
  obtain ⟨hreads, rfl⟩ := outcome_mapM_readStyle_eq_ok hread
  obtain ⟨_, c₂, hmake, hlast⟩ := outcome_bind_eq_ok.mp hrest
  obtain ⟨_, c₃, hwrite, hend⟩ := outcome_bind_eq_ok.mp hlast
  cases hend
  have hproper := proper_packedPath hdirectory hname
  obtain ⟨hmake, henv⟩ := outcome_onFiles_eq_ok hmake
  obtain ⟨hwrite, henv'⟩ := outcome_onFiles_eq_ok hwrite
  obtain ⟨⟨hgrows, -⟩, -⟩ := FileTree.edits_makeWithParents hproper.parent hmake
  have hrewrites := (FileTree.rewrites_write hproper hwrite).toGrows
  refine ⟨henv'.trans henv, ?_, texts, hreads, FileTree.read_write hproper hwrite⟩
  refine (hgrows.mono fun _ ↦ False.elim).trans (hrewrites.mono fun l hl ↦ ?_)
  exact hl.trans (hgrows.place _)

/-- The turn of a configuration that ends well. -/
theorem packTurn_of_packOne (hname : Config.isName e.1 = true) (hdirectory : directory.Proper)
    (h : outcome (packOne directory entry m e.1 e.2) c = (.ok m', c')) :
    PackTurn directory entry e m c.files m' c'.files ∧ c'.environment = c.environment := by
  rw [packOne] at h
  split at h
  · rename_i hother
    cases h
    exact ⟨.skipped hother, rfl⟩
  · rename_i hbundled
    rw [not_not] at hbundled
    obtain ⟨⟨items, rest⟩, c₁, hextract, hturn⟩ := outcome_bind_eq_ok.mp h
    obtain ⟨hextracted, rfl⟩ := outcome_ofManifestResult_eq_ok hextract
    dsimp only at hturn
    split at hturn
    · rename_i hempty
      cases hturn
      rw [List.isEmpty_iff.mp hempty] at hextracted
      exact ⟨.nothing hbundled hextracted, rfl⟩
    · obtain ⟨packed, c₂, hwrite, hrest⟩ := outcome_bind_eq_ok.mp hturn
      obtain ⟨added, c₃, hadd, hend⟩ := outcome_bind_eq_ok.mp hrest
      obtain ⟨hadded, rfl⟩ := outcome_ofManifestResult_eq_ok hadd
      cases hend
      obtain ⟨henv, hgrows, texts, hreads, hwritten⟩ :=
        outcome_writePacked_eq_ok hname hdirectory hwrite
      exact ⟨.packed hbundled hextracted hreads hgrows hwritten hadded, henv⟩

theorem packRun_of_foldlM (hnames : ∀ e ∈ es, Config.isName e.1 = true)
    (hdirectory : directory.Proper)
    (h : outcome (es.foldlM (fun m e ↦ packOne directory entry m e.1 e.2) m) c = (.ok m', c')) :
    PackRun directory entry es m c.files m' c'.files ∧ c'.environment = c.environment := by
  induction es generalizing m c with
  | nil =>
    cases h
    exact ⟨.nil _ _, rfl⟩
  | cons e es ih =>
    rw [List.foldlM_cons] at h
    obtain ⟨m₁, c₁, hone, hrest⟩ := outcome_bind_eq_ok.mp h
    obtain ⟨he, hes⟩ := List.forall_mem_cons.mp hnames
    obtain ⟨hturn, henv⟩ := packTurn_of_packOne he hdirectory hone
    obtain ⟨hrun, henv'⟩ := ih hes hrest
    exact ⟨.cons hturn hrun, henv'.trans henv⟩

/-! ## The command -/

theorem outcome_selected_eq_ok_iff : outcome (selected file name) c = (.ok es, c') ↔
    (∃ config, outcome (loadConfig file) c = (.ok config, c) ∧ config.select name = .ok es) ∧
      c' = c := by
  rw [selected, outcome_bind_eq_ok]
  constructor
  · rintro ⟨config, c₁, hload, hrest⟩
    obtain ⟨-, rfl⟩ := load_of_loadConfig hload
    cases hselect : config.select name with
    | error f =>
      rw [hselect] at hrest
      cases hrest
    | ok configurations =>
      rw [hselect] at hrest
      cases hrest
      exact ⟨⟨config, hload, hselect⟩, rfl⟩
  · rintro ⟨⟨config, hload, hselect⟩, rfl⟩
    exact ⟨config, c', hload, by rw [hselect, outcome_pure]⟩

theorem named_of_selected (h : outcome (selected file name) c = (.ok es, c')) : Config.Named es := by
  obtain ⟨⟨config, hload, hselect⟩, -⟩ := outcome_selected_eq_ok_iff.mp h
  exact Config.named_of_select (Config.named_of_load (load_of_loadConfig hload).1) hselect

/-- The manifest of a file that exists is the document that its text is read as. -/
theorem outcome_readManifest_eq_ok_iff :
    outcome (readManifest manifestFile) c = (.ok m, c') ↔
      c.files.pathExists (Path.ofText manifestFile) = true ∧
      (∃ text, Config.readText c.files (Path.ofText manifestFile) = .ok text ∧
        Json.read text = .ok m) ∧ c' = c := by
  rw [readManifest, outcome_get_bind]
  cases hexists : c.files.pathExists (Path.ofText manifestFile) with
  | false => simp [hexists]
  | true =>
    cases htext : Config.readText c.files (Path.ofText manifestFile) with
    | error e => simp [hexists, htext]
    | ok text =>
      cases hread : Json.read text with
      | error e => simp [hexists, htext, hread]
      | ok manifest => simp [hexists, htext, hread, eq_comm]

/-- A manifest that was written is read again. -/
theorem outcome_readManifest_of_read (hm : m.Plain)
    (h : c.files.read (Path.ofText manifestFile) = .ok (Utf8.encode (m.pretty ++ "\n"))) :
    outcome (readManifest manifestFile) c = (.ok m, c) := by
  refine outcome_readManifest_eq_ok_iff.mpr ⟨?_, ⟨_, Json.readText_write _ m h, ?_⟩, rfl⟩
  · obtain ⟨mode, modified, hnode⟩ := FileTree.read_eq_ok_iff_node?.mp h
    rw [FileTree.pathExists, hnode]
    rfl
  · exact hm.read_write_line _

/-- A run of the command reads the configurations and the manifest, lets all configurations have
their turns and writes the manifest. -/
theorem exists_of_pack (h : outcome (pack file name manifestFile entry) c = (.ok (), c')) :
    ∃ es m m' v, outcome (selected file name) c = (.ok es, c) ∧
      outcome (readManifest manifestFile) c = (.ok m, c) ∧
      PackRun (Path.ofText manifestFile).parent entry es m c.files m' v ∧
      v.write (Path.ofText manifestFile) (Utf8.encode (m'.pretty ++ "\n")) = .ok c'.files ∧
      c'.environment = c.environment := by
  rw [pack] at h
  obtain ⟨es, c₁, hselected, hrest⟩ := outcome_bind_eq_ok.mp h
  obtain ⟨-, rfl⟩ := outcome_selected_eq_ok_iff.mp hselected
  obtain ⟨m, c₂, hmanifest, hlast⟩ := outcome_bind_eq_ok.mp hrest
  obtain ⟨-, -, rfl⟩ := outcome_readManifest_eq_ok_iff.mp hmanifest
  obtain ⟨_, c₃, hpack, hend⟩ := outcome_bind_eq_ok.mp hlast
  cases hend
  have hnamed := named_of_selected hselected
  rw [outcome_tryCatch] at hpack
  rcases hturns : outcome (do
      let packed ← es.foldlM
        (fun m e ↦ packOne (Path.ofText manifestFile).parent entry m e.1 e.2) m
      writeManifest (Path.ofText manifestFile) packed) c₂ with ⟨error | _, c₄⟩
  · -- an error ends the command
    rw [hturns] at hpack
    cases error with
    | fault f => obtain ⟨kind, path⟩ := f; cases kind <;> cases hpack
    | _ => cases hpack
  · rw [hturns] at hpack
    cases hpack
    obtain ⟨m', c₅, hfold, hwrite⟩ := outcome_bind_eq_ok.mp hturns
    obtain ⟨hrun, henv⟩ := packRun_of_foldlM hnamed.names (Path.proper_ofText _).parent hfold
    obtain ⟨hwrite, henv'⟩ := outcome_onFiles_eq_ok hwrite
    exact ⟨es, m, m', c₅.files, hselected, hmanifest, hrun, hwrite, henv'.trans henv⟩

/-- What the turns of a run come to is what the command comes to. -/
theorem outcome_pack_of_turns (hselected : outcome (selected file name) c = (.ok es, c))
    (hmanifest : outcome (readManifest manifestFile) c = (.ok m, c))
    (hturns : outcome (do
      let packed ← es.foldlM (fun m e ↦ packOne (Path.ofText manifestFile).parent entry m e.1 e.2) m
      writeManifest (Path.ofText manifestFile) packed) c = (.ok (), c')) :
    outcome (pack file name manifestFile entry) c =
      (.ok (), { c' with output := c'.output ++ ["✓ All components packed"] }) := by
  rw [pack, outcome_bind_of_ok hselected, outcome_bind_of_ok hmanifest]
  dsimp only
  rw [outcome_bind_of_ok (outcome_tryCatch_of_ok hturns missingStyle)]
  rfl

/-! ## A bundle -/

/-- One configuration for a bundler, whose directories do not depend on where its file is. -/
def bundleLines : List String :=
  ["\x7bcompilers: \x7ba: \x7bnamespace_prefix: app, ", "source_dir: /ui, compiled_code_dir: /out, ",
    "compiled_assets_dir: /out, public_url: u, ", "script_compiler: external-bundler\x7d\x7d\x7d"]

/-- The text of the configuration. -/
def bundleText : String := String.ofList (bundleLines.flatMap String.toList)

/-- The configuration as it is loaded. -/
def bundleConfig : Config where
  compilers := [("a", ⟨"app", ⟨.slash, ["ui"]⟩, ⟨.slash, ["out"]⟩, ⟨.slash, ["out"]⟩, "u",
    .externalBundler, .scopingOnly, false, none⟩)]

theorem ofDocument_bundle : ∃ document, Yaml.load bundleText = .ok document ∧
    Config.ofDocument document = .ok bundleConfig := by
  have h : ((Yaml.load bundleText).toOption.bind fun v ↦ (Config.ofDocument v).toOption) =
      some bundleConfig := by
    rw [Yaml.load, bundleText, String.toList_ofList]
    decide +kernel
  obtain ⟨document, hload, hconfig⟩ := Option.bind_eq_some_iff.mp h
  exact ⟨document, toOption_eq_some_iff.mp hload, toOption_eq_some_iff.mp hconfig⟩

theorem recheck_bundle : bundleConfig.recheck = .good bundleConfig :=
  Schema.Verdict.toOption_toExcept_eq_some_iff.mp (by decide +kernel)

/-- Wherever a file holds the text, the configuration is selected from it. -/
theorem outcome_selected_bundle (henv : c.environment = ⟨none, none⟩)
    (hread : c.files.read (Path.ofText file) = .ok (Utf8.encode bundleText)) :
    outcome (selected file none) c = (.ok bundleConfig.compilers, c) := by
  have hreturn : '\r' ∉ bundleText.toList := by
    rw [bundleText, String.toList_ofList]
    decide +kernel
  have hexists : c.files.pathExists (Path.ofText file) = true := by
    obtain ⟨mode, modified, hnode⟩ := FileTree.read_eq_ok_iff_node?.mp hread
    rw [FileTree.pathExists, hnode]
    rfl
  obtain ⟨document, hdocument, hconfig⟩ := ofDocument_bundle
  have hload : Config.load c.files c.environment (Path.ofText file) = .ok bundleConfig := by
    rw [henv, Config.load_eq_ok_iff]
    refine ⟨hexists, bundleText, document, bundleConfig, none,
      Config.readText_of_read hreturn hread, hdocument, hconfig, rfl, ?_⟩
    -- all paths are absolute, so the directory of the file leaves them as they are
    have hpaths : (bundleConfig.compilers.map fun e ↦ (e.1, Config.override none
        (e.2.resolvePaths (c.files.resolve (Path.ofText file)).parent))) =
          bundleConfig.compilers := rfl
    rw [hpaths]
    exact recheck_bundle
  refine outcome_selected_eq_ok_iff.mpr ⟨⟨bundleConfig, ?_, rfl⟩, rfl⟩
  rw [loadConfig, outcome_get_bind]
  simp only [hexists, hload, Bool.not_true, Bool.false_eq_true, if_false, outcome_pure]

/-- A build with a manifest and other files that have texts. -/
def bundleFiles (m : Json) (files : List (Location × String)) : FileTree where
  nodes := [([], .directory FileTree.parentMode), (["build"], .directory FileTree.parentMode),
      (["build", "assets"], .directory FileTree.parentMode)] ++
    ((["build", "manifest.json"], m.pretty ++ "\n") :: files).map fun f ↦
      (f.1, .file (Utf8.encode f.2) FileTree.fileMode 0)
  current := []
  clock := 1

/-- A console in which nothing has run yet. -/
def bundleConsole (m : Json) (files : List (Location × String)) : Console :=
  start (bundleFiles m files) ⟨none, none⟩

/-- The turn of the configuration, and what is written after it. -/
def bundleStep (m : Json) : Command Unit := do
  let packed ← bundleConfig.compilers.foldlM
    (fun m e ↦ packOne (Path.ofText "build/manifest.json").parent "e.js" m e.1 e.2) m
  writeManifest (Path.ofText "build/manifest.json") packed

/-- The console after a run. -/
def bundleEnd (m : Json) (files : List (Location × String)) : Console :=
  { (outcome (bundleStep m) (bundleConsole m files)).2 with
    output := (outcome (bundleStep m) (bundleConsole m files)).2.output ++
      ["✓ All components packed"] }

theorem pack_bundle {files : List (Location × String)} (hplain : m.Plain)
    (hconfig : ((bundleConsole m files).files.read (Path.ofText file)).toOption =
      some (Utf8.encode bundleText))
    (hmanifest : ((bundleConsole m files).files.read (Path.ofText "build/manifest.json")).toOption =
      some (Utf8.encode (m.pretty ++ "\n")))
    (hstep : (outcome (bundleStep m) (bundleConsole m files)).1.toOption = some ()) :
    outcome (selected file none) (bundleConsole m files) =
        (.ok bundleConfig.compilers, bundleConsole m files) ∧
      outcome (readManifest "build/manifest.json") (bundleConsole m files) =
        (.ok m, bundleConsole m files) ∧
      outcome (pack file none "build/manifest.json" "e.js") (bundleConsole m files) =
        (.ok (), bundleEnd m files) := by
  have hselected : outcome (selected file none) (bundleConsole m files) =
      (.ok bundleConfig.compilers, bundleConsole m files) :=
    outcome_selected_bundle rfl (toOption_eq_some_iff.mp hconfig)
  have hread : outcome (readManifest "build/manifest.json") (bundleConsole m files) =
      (.ok m, bundleConsole m files) :=
    outcome_readManifest_of_read hplain (toOption_eq_some_iff.mp hmanifest)
  have hend : outcome (bundleStep m) (bundleConsole m files) =
      (.ok (), (outcome (bundleStep m) (bundleConsole m files)).2) :=
    Prod.ext (toOption_eq_some_iff.mp hstep) rfl
  exact ⟨hselected, hread, outcome_pack_of_turns hselected hread hend⟩

end Command

end IceCube
