import IceCube.Proofs.Command.Packing

/-!
# Packing once more

After its turn a configuration has nothing left to pack: the chunks of its components have no
stylesheets any more, and later turns only take more away and give to the entry point, which is not
one of these chunks.  So a second run finds nothing to pack and writes the manifest as it stands.
-/

namespace IceCube

open Step Manifest

namespace Manifest

variable {start other name entry : String} {m m' rest : Json} {items : List Json}

/-- The chunk of an entry point is none of those of some components. -/
def EntryApart (start entry : String) (m : Json) : Prop :=
  ∀ chunk, chunk? m entry = some chunk → matchesPrefix start chunk = false

/-! ## Taking -/

theorem EntryApart.extract (hapart : EntryApart start entry m)
    (h : extract other m = .ok (items, rest)) : EntryApart start entry rest := by
  intro chunk hchunk
  obtain ⟨before, hbefore, hsame, -⟩ := exists_of_chunk?_extract h hchunk
  rw [matchesPrefix_congr (hsame "name" (by decide))]
  exact hapart before hbefore

/-! ## Adding -/

/-- The chunk that the entry point has before a packed stylesheet is added, or an empty one. -/
theorem matchesPrefix_entry {chunks : Table String Json} {chunk : Table String Json}
    (hstart : start ≠ "") (hapart : EntryApart start entry (.obj chunks))
    (hchunk : (Table.get? chunks entry).getD (.obj []) = .obj chunk) :
    matchesPrefix start chunk = false := by
  cases hget : Table.get? chunks entry with
  | none =>
    rw [hget, Option.getD_none, Json.obj.injEq] at hchunk
    rw [← hchunk, ← Bool.not_eq_true, matchesPrefix_iff]
    intro hempty
    exact hstart (String.toList_injective (List.prefix_nil.mp hempty))
  | some v =>
    rw [hget, Option.getD_some] at hchunk
    refine hapart chunk (chunk?_eq_some_iff.mpr ?_)
    rw [member?_obj, hget, hchunk]

/-- Only the entry point gets a stylesheet. -/
theorem Clear.addPacked (hclear : Clear start m) (hstart : start ≠ "")
    (hapart : EntryApart start entry m) (hentry : packedName name ≠ entry)
    (h : addPacked name entry m = .ok m') : Clear start m' := by
  obtain ⟨chunks, chunk, css, rfl, hchunk, -, rfl⟩ := addPacked_eq_ok h hentry
  obtain ⟨_, hm, hclear⟩ := hclear
  cases hm
  refine ⟨_, rfl, fun key chunk' hmem hmatches ↦ ?_⟩
  rcases Table.mem_of_mem_insert hmem with heq | hmem
  · cases heq
    have hname : Table.get? (Table.insert chunk "css" css) "name" = Table.get? chunk "name" :=
      Table.get?_insert_of_ne chunk css (by decide)
    rw [matchesPrefix_congr hname, matchesPrefix_entry hstart hapart hchunk] at hmatches
    cases hmatches
  · rcases Table.mem_of_mem_insert hmem with heq | hmem
    · -- the chunk of a packed stylesheet has no stylesheets itself
      cases heq
      rfl
    · exact hclear key chunk' hmem hmatches

theorem EntryApart.addPacked (hapart : EntryApart start entry m) (hstart : start ≠ "")
    (hentry : packedName name ≠ entry) (h : addPacked name entry m = .ok m') :
    EntryApart start entry m' := by
  obtain ⟨chunks, chunk, css, rfl, hchunk, -, rfl⟩ := addPacked_eq_ok h hentry
  intro chunk' hchunk'
  rw [chunk?_eq_some_iff, member?_obj, Table.get?_insert_self, Option.some.injEq,
    Json.obj.injEq] at hchunk'
  have hname : Table.get? (Table.insert chunk "css" css) "name" = Table.get? chunk "name" :=
    Table.get?_insert_of_ne chunk css (by decide)
  rw [← hchunk', matchesPrefix_congr hname, matchesPrefix_entry hstart hapart hchunk]

end Manifest

namespace Command

variable {file manifestFile entry start : String} {name : Option String} {c c' : Console}
  {e : String × CompilerConfig} {es : Table String CompilerConfig} {m m' : Json}
  {directory : Path} {u v w : FileTree}

/-! ## Turns -/

/-- A turn gives no stylesheets to the chunks of components, and the entry point stays apart from
them. -/
theorem PackTurn.keeps_clear (h : PackTurn directory entry e m u m' v) (hstart : start ≠ "")
    (hentry : e.2.scriptStrategy = .externalBundler → packedName e.1 ≠ entry)
    (hapart : EntryApart start entry m) :
    EntryApart start entry m' ∧ (Clear start m → Clear start m') := by
  cases h with
  | skipped _ => exact ⟨hapart, id⟩
  | nothing _ extracted => exact ⟨hapart.extract extracted, fun hclear ↦ hclear.extract extracted⟩
  | packed bundled extracted _ _ _ added =>
    have hrest := hapart.extract extracted
    exact ⟨hrest.addPacked hstart (hentry bundled) added,
      fun hclear ↦ (hclear.extract extracted).addPacked hstart hrest (hentry bundled) added⟩

/-- After the turn of a configuration its components have no stylesheets left. -/
theorem PackTurn.clear (h : PackTurn directory entry e m u m' v)
    (hbundled : e.2.scriptStrategy = .externalBundler)
    (hstart : Identifier.flatten e.2.namespacePrefix ≠ "") (hentry : packedName e.1 ≠ entry)
    (hapart : EntryApart (Identifier.flatten e.2.namespacePrefix) entry m) :
    Clear (Identifier.flatten e.2.namespacePrefix) m' := by
  cases h with
  | skipped other => exact absurd hbundled other
  | nothing _ extracted => exact clear_of_extract extracted
  | packed _ extracted _ _ _ added =>
    exact (clear_of_extract extracted).addPacked hstart (hapart.extract extracted) hentry added

theorem PackRun.keeps_clear (h : PackRun directory entry es m u m' w) (hstart : start ≠ "")
    (hentry : ∀ e ∈ es, e.2.scriptStrategy = .externalBundler → packedName e.1 ≠ entry)
    (hapart : EntryApart start entry m) (hclear : Clear start m) : Clear start m' := by
  induction h with
  | nil m u => exact hclear
  | @cons e es m m₁ m' u v w turn rest ih =>
    obtain ⟨he, hes⟩ := List.forall_mem_cons.mp hentry
    obtain ⟨hapart', hkeeps⟩ := turn.keeps_clear hstart he hapart
    exact ih hes hapart' (hkeeps hclear)

/-- After a run none of the configurations has anything left to pack. -/
theorem PackRun.clear (h : PackRun directory entry es m u m' w)
    (hstart : ∀ e ∈ es, Identifier.flatten e.2.namespacePrefix ≠ "")
    (hentry : ∀ e ∈ es, e.2.scriptStrategy = .externalBundler → packedName e.1 ≠ entry)
    (hapart : ∀ e ∈ es, e.2.scriptStrategy = .externalBundler →
      EntryApart (Identifier.flatten e.2.namespacePrefix) entry m) :
    ∀ e ∈ es, e.2.scriptStrategy = .externalBundler →
      Clear (Identifier.flatten e.2.namespacePrefix) m' := by
  induction h with
  | nil m u => simp
  | @cons e es m m₁ m' u v w turn rest ih =>
    obtain ⟨hse, hses⟩ := List.forall_mem_cons.mp hstart
    obtain ⟨hee, hees⟩ := List.forall_mem_cons.mp hentry
    obtain ⟨hae, haes⟩ := List.forall_mem_cons.mp hapart
    have hapart' : ∀ e' ∈ es, e'.2.scriptStrategy = .externalBundler →
        EntryApart (Identifier.flatten e'.2.namespacePrefix) entry m₁ :=
      fun e' he' hbundled ↦ (turn.keeps_clear (hses e' he') hee (haes e' he' hbundled)).1
    intro e' he' hbundled
    rcases List.mem_cons.mp he' with rfl | he'
    · refine rest.keeps_clear hse hees ?_ (turn.clear hbundled hse (hee hbundled) (hae hbundled))
      exact (turn.keeps_clear hse hee (hae hbundled)).1
    · exact ih hses hees hapart' e' he' hbundled

/-! ## The second run -/

/-- A run over configurations that have nothing to pack prints lines and does nothing else. -/
theorem outcome_foldlM_of_clear (hclear : ∀ e ∈ es, e.2.scriptStrategy = .externalBundler →
    Clear (Identifier.flatten e.2.namespacePrefix) m) (c : Console) :
    ∃ lines, outcome (es.foldlM (fun m e ↦ packOne directory entry m e.1 e.2) m) c =
      (.ok m, { c with output := lines }) := by
  induction es generalizing c with
  | nil => exact ⟨c.output, rfl⟩
  | cons e es ih =>
    obtain ⟨he, hes⟩ := List.forall_mem_cons.mp hclear
    have hone : ∃ lines, outcome (packOne directory entry m e.1 e.2) c =
        (.ok m, { c with output := lines }) := by
      by_cases hbundled : e.2.scriptStrategy = .externalBundler
      · rw [packOne, if_neg (not_not.mpr hbundled)]
        dsimp only
        rw [extract_of_clear (he hbundled)]
        exact ⟨_, rfl⟩
      · rw [packOne, if_pos hbundled]
        exact ⟨_, rfl⟩
    obtain ⟨lines, hone⟩ := hone
    obtain ⟨lines', hrest⟩ := ih hes { c with output := lines }
    exact ⟨lines', by rw [List.foldlM_cons, outcome_bind_of_ok hone, hrest]⟩

/-- A configuration file with the same text gives the same configurations. -/
theorem loadConfig_of_same {config : Config}
    (h : outcome (loadConfig file) c = (.ok config, c)) (henv : c'.environment = c.environment)
    (hcurrent : c'.files.current = c.files.current)
    (htext : Config.readText c'.files (Path.ofText file) =
      Config.readText c.files (Path.ofText file)) :
    outcome (loadConfig file) c' = (.ok config, c') := by
  obtain ⟨hload, -⟩ := load_of_loadConfig h
  obtain ⟨-, text, document, loaded, setting, hread, hrest⟩ := Config.load_eq_ok_iff.mp hload
  rw [← htext] at hread
  have hexists : c'.files.pathExists (Path.ofText file) = true := by
    obtain ⟨content, -, hcontent, -⟩ := Config.readText_eq_ok_iff.mp hread
    obtain ⟨mode, modified, hnode⟩ := FileTree.read_eq_ok_iff_node?.mp hcontent
    rw [FileTree.pathExists, hnode]
    rfl
  have hbase : c'.files.resolve (Path.ofText file) = c.files.resolve (Path.ofText file) := by
    simp only [FileTree.resolve, hcurrent]
  have hload' : Config.load c'.files c'.environment (Path.ofText file) = .ok config := by
    rw [Config.load_eq_ok_iff, hbase, henv]
    exact ⟨hexists, text, document, loaded, setting, hread, hrest⟩
  rw [loadConfig, outcome_get_bind]
  simp only [hexists, hload', Bool.not_true, Bool.false_eq_true, if_false, outcome_pure]

/-- A run that has nothing to pack writes the manifest as it stands. -/
theorem outcome_pack_of_clear (hselected : outcome (selected file name) c = (.ok es, c))
    (hplain : m.Plain)
    (hwritten : c.files.read (Path.ofText manifestFile) = .ok (Utf8.encode (m.pretty ++ "\n")))
    (hclear : ∀ e ∈ es, e.2.scriptStrategy = .externalBundler →
      Clear (Identifier.flatten e.2.namespacePrefix) m) :
    ∃ c', outcome (pack file name manifestFile entry) c = (.ok (), c') ∧
      ∀ p, c'.files.shown p = c.files.shown p := by
  obtain ⟨lines, hturns⟩ := outcome_foldlM_of_clear hclear c
  obtain ⟨u, hu⟩ := FileTree.write_of_isFile (FileTree.isFile_of_read hwritten)
    (Utf8.encode (m.pretty ++ "\n"))
  have hend : outcome (writeManifest (Path.ofText manifestFile) m) { c with output := lines } =
      (.ok (), { c with files := u, output := lines }) := by
    rw [writeManifest, onFiles, outcome_get_bind]
    dsimp only
    rw [hu]
    rfl
  have hturned : outcome (do
      let packed ← es.foldlM (fun m e ↦ packOne (Path.ofText manifestFile).parent entry m e.1 e.2) m
      writeManifest (Path.ofText manifestFile) packed) c =
        (.ok (), { c with files := u, output := lines }) := by
    rw [outcome_bind_of_ok hturns, hend]
  have hpack : ∃ c', outcome (pack file name manifestFile entry) c = (.ok (), c') ∧
      c'.files = u := by
    rw [pack, outcome_bind_of_ok hselected,
      outcome_bind_of_ok (outcome_readManifest_of_read hplain hwritten)]
    dsimp only
    rw [outcome_bind_of_ok (outcome_tryCatch_of_ok hturned missingStyle)]
    exact ⟨_, rfl, rfl⟩
  obtain ⟨c', hpack, rfl⟩ := hpack
  exact ⟨c', hpack, FileTree.shown_write_of_read (Path.proper_ofText _) hwritten hu⟩

/-- Unless the first run has written to the file of the configurations, packing once more succeeds
and leaves all files as they are, provided that the entry point is no packed stylesheet and its
chunk is none of a component. -/
theorem packing_again_changes_nothing (hselected : outcome (selected file name) c = (.ok es, c))
    (hmanifest : outcome (readManifest manifestFile) c = (.ok m, c))
    (hrun : outcome (pack file name manifestFile entry) c = (.ok (), c'))
    (htext : Config.readText c'.files (Path.ofText file) =
      Config.readText c.files (Path.ofText file))
    (hentry : ∀ e ∈ es, e.2.scriptStrategy = .externalBundler → packedName e.1 ≠ entry)
    (hapart : ∀ e ∈ es, e.2.scriptStrategy = .externalBundler →
      ∀ chunk, chunk? m entry = some chunk →
        ¬ (Identifier.flatten e.2.namespacePrefix).toList <+: (chunkName chunk).toList) :
    ∃ c'', outcome (pack file name manifestFile entry) (Command.start c'.files c'.environment) =
        (.ok (), c'') ∧ ∀ p, c''.files.shown p = c'.files.shown p := by
  obtain ⟨es', m₁, m', v, hselected', hmanifest', hpacked, hwrite, henv⟩ := exists_of_pack hrun
  cases hselected.symm.trans hselected'
  cases hmanifest.symm.trans hmanifest'
  have hnamed := named_of_selected hselected
  have hproper := Path.proper_ofText manifestFile
  have hstart : ∀ e ∈ es, Identifier.flatten e.2.namespacePrefix ≠ "" := fun e he hempty ↦
    Config.ne_empty_of_isPrefixText (hnamed.prefixes e he) (Identifier.flatten_eq_empty_iff.mp hempty)
  have hclear := hpacked.clear hstart hentry fun e he hbundled chunk hchunk ↦ by
    rw [← Bool.not_eq_true, matchesPrefix_iff]
    exact hapart e he hbundled chunk hchunk
  -- the manifest comes back as it was written
  have hplain : m'.Plain := by
    obtain ⟨-, ⟨text, -, hread⟩, -⟩ := outcome_readManifest_eq_ok_iff.mp hmanifest
    exact hpacked.plain hentry (Json.plain_of_read hread)
  have hcurrent : c'.files.current = c.files.current :=
    (FileTree.rewrites_write hproper hwrite).current.trans hpacked.grows.current
  let again : Console := Command.start c'.files c'.environment
  have hselectedAgain : outcome (selected file name) again = (.ok es, again) := by
    obtain ⟨⟨config, hload, hselect⟩, -⟩ := outcome_selected_eq_ok_iff.mp hselected
    have hloadAgain : outcome (loadConfig file) again = (.ok config, again) :=
      loadConfig_of_same hload henv hcurrent htext
    exact outcome_selected_eq_ok_iff.mpr ⟨⟨config, hloadAgain, hselect⟩, rfl⟩
  exact outcome_pack_of_clear hselectedAgain hplain (FileTree.read_write hproper hwrite) hclear

/-! ## A bundle that is packed twice -/

/-- A manifest with one component. -/
def cardManifest : Json := .obj [("k", .obj [("name", .str "app_X"), ("css", .arr [.str "x.css"])])]

theorem chunk?_cardManifest : chunk? cardManifest "e.js" = none := by
  simp [chunk?, cardManifest, Json.member?, Json.members?, Table.get?]

theorem plain_cardManifest : cardManifest.Plain := by
  refine plain_obj_iff.mpr ⟨by simp [Table.keys], List.forall_mem_singleton.mpr ?_⟩
  exact plain_obj_iff.mpr ⟨by simp [Table.keys], by simp [Json.Plain, Json.PlainItems]⟩

/-- The files beside the manifest, with that of the configuration at a location. -/
def cardFiles (configuration : Location) : List (Location × String) :=
  [(configuration, bundleText), (["build", "x.css"], "x")]

theorem card_is_packed_once :
    outcome (pack "icecube.yaml" none "build/manifest.json" "e.js")
        (bundleConsole cardManifest (cardFiles ["icecube.yaml"])) =
          (.ok (), bundleEnd cardManifest (cardFiles ["icecube.yaml"])) ∧
      ∃ c', outcome (pack "icecube.yaml" none "build/manifest.json" "e.js")
          (Command.start (bundleEnd cardManifest (cardFiles ["icecube.yaml"])).files
            (bundleEnd cardManifest (cardFiles ["icecube.yaml"])).environment) = (.ok (), c') ∧
        ∀ p, c'.files.shown p =
          (bundleEnd cardManifest (cardFiles ["icecube.yaml"])).files.shown p := by
  have hconfig : ((bundleConsole cardManifest (cardFiles ["icecube.yaml"])).files.read
      (Path.ofText "icecube.yaml")).toOption = some (Utf8.encode bundleText) := by decide +kernel
  have hconfigEnd : ((bundleEnd cardManifest (cardFiles ["icecube.yaml"])).files.read
      (Path.ofText "icecube.yaml")).toOption = some (Utf8.encode bundleText) := by decide +kernel
  obtain ⟨hselected, hmanifest, hpack⟩ :=
    pack_bundle plain_cardManifest hconfig (by decide +kernel) (by decide +kernel)
  refine ⟨hpack, packing_again_changes_nothing hselected hmanifest hpack ?_ ?_ ?_⟩
  · simp only [Config.readText, toOption_eq_some_iff.mp hconfig, toOption_eq_some_iff.mp hconfigEnd]
  · simp [bundleConfig, packedName]
  · -- there is no entry point before the first run
    intro e he hbundled chunk hchunk
    rw [chunk?_cardManifest] at hchunk
    cases hchunk

/-- A single letter is no text of configurations. -/
theorem not_packed_of_letter {files : FileTree} {env : Environment}
    (htext : Config.readText files (Path.ofText file) = .ok "x") :
    outcome (pack file name manifestFile entry) (Command.start files env) ≠ (.ok (), c') := by
  intro hrun
  have hdocument : ((Yaml.load "x").toOption.bind fun v ↦ (Config.ofDocument v).toOption) = none := by
    decide +kernel
  obtain ⟨es, m, m', v, hselected, -⟩ := exists_of_pack hrun
  obtain ⟨⟨config, hload, -⟩, -⟩ := outcome_selected_eq_ok_iff.mp hselected
  obtain ⟨-, text, document, loaded, setting, hloaded, hyaml, hconfig, -⟩ :=
    Config.load_eq_ok_iff.mp (load_of_loadConfig hload).1
  cases hloaded.symm.trans htext
  rw [hyaml, Except.toOption, Option.bind_some, hconfig] at hdocument
  cases hdocument

/-- A run whose file of configurations is the packed stylesheet leaves a stylesheet there, and the
next run finds no configurations any more. -/
theorem packed_over_configuration :
    ∃ c', outcome (pack "build/assets/icecube_a_styles.css" none "build/manifest.json" "e.js")
        (bundleConsole cardManifest (cardFiles ["build", "assets", "icecube_a_styles.css"])) =
          (.ok (), c') ∧
      (∀ e ∈ bundleConfig.compilers, packedName e.1 ≠ "e.js") ∧ chunk? cardManifest "e.js" = none ∧
      ∀ c'', outcome (pack "build/assets/icecube_a_styles.css" none "build/manifest.json" "e.js")
        (Command.start c'.files c'.environment) ≠ (.ok (), c'') := by
  have hend : ((bundleEnd cardManifest
      (cardFiles ["build", "assets", "icecube_a_styles.css"])).files.read
        (Path.ofText "build/assets/icecube_a_styles.css")).toOption = some (Utf8.encode "x") := by
    decide +kernel
  have hconfig : ((bundleConsole cardManifest
      (cardFiles ["build", "assets", "icecube_a_styles.css"])).files.read
        (Path.ofText "build/assets/icecube_a_styles.css")).toOption =
          some (Utf8.encode bundleText) := by decide +kernel
  obtain ⟨-, -, hpack⟩ :=
    pack_bundle plain_cardManifest hconfig (by decide +kernel) (by decide +kernel)
  refine ⟨_, hpack, by simp [bundleConfig, packedName], chunk?_cardManifest, fun c'' hagain ↦ ?_⟩
  exact not_packed_of_letter (Config.readText_of_read (by decide) (toOption_eq_some_iff.mp hend))
    hagain

end Command

end IceCube
