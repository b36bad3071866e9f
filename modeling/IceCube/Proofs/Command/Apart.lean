import IceCube.Proofs.Command.Turns

/-!
# Configurations that write to the same places

The check of names sees the components of one configuration only.  So nothing keeps two
configurations from writing to one file, and then the file holds what the later one has written.  A
run leaves every configuration with its files and its cache exactly if no two of the things that it
writes are different contents at one place.
-/

namespace IceCube.Command

open Step

/-- No place gets two contents. -/
def Consistent (ws : List (Location × Bytes)) : Prop := ∀ a ∈ ws, ∀ b ∈ ws, a.1 = b.1 → a.2 = b.2

/-- Contents at different places are in nobody's way. -/
theorem consistent_of_nodup {ws : List (Location × Bytes)} (h : (ws.map Prod.fst).Nodup) :
    Consistent ws := by
  intro a ha b hb hab
  exact congrArg Prod.snd (List.inj_on_of_nodup_map h ha hb hab)

namespace Turn

variable {t : Turn} {u v w : FileTree}

/-- The components of a turn have their files, and its cache holds what was stored. -/
structure Kept (t : Turn) (files : FileTree) : Prop where
  components : ∀ r ∈ t.compiled, r.OnDisk files
  cache : ∀ p, t.config.cacheFile = some p → files.read p = .ok (Utf8.encode t.cacheText)

/-- The cache file of a turn lists the projections of its components, and nothing else. -/
def Listed (t : Turn) (files : FileTree) : Prop :=
  ∀ p, t.config.cacheFile = some p → ∃ text cache, Config.readText files p = .ok text ∧
    Cache.read text = .good cache ∧ cache.version = Cache.formatVersion ∧
    cache.components.Perm (t.compiled.map fun r ↦
      (r.componentName, (Record.compiled r).toCached t.config.includesStylesInCache))

/-- Wherever a turn writes, something that it writes there is there at its end. -/
theorem Ran.exists_holds (h : t.Ran u v) {l : Location} (hl : t.Touches u l) :
    ∃ x ∈ t.writes u, x.1 = l ∧ v.Holds x := by
  obtain ⟨m, hscanned, hstored⟩ := h.steps
  obtain ⟨x, hx, rfl⟩ := List.mem_map.mp hl
  have hcomponents : ∀ r ∈ t.compiled, ∀ x ∈ (t.compiler.outputs r.componentName).writes r u,
      m.Holds x := by
    intro r hr x hx
    have hhold := (hscanned.hold r hr).holds x
    simp only [Compiler.Outputs.writes, hscanned.grows.place] at hhold
    exact hhold hx
  cases hfile : t.config.cacheFile with
  | none =>
    simp only [hfile] at hstored
    refine ⟨x, hx, rfl, ?_⟩
    rw [writes, hfile, Option.map_none, Option.toList_none, List.append_nil, List.mem_flatMap] at hx
    obtain ⟨r, hr, hx⟩ := hx
    rw [hstored]
    exact hcomponents r hr x hx
  | some p =>
    simp only [hfile] at hstored
    obtain ⟨hgrows, hread⟩ := hstored
    have hplace : v.place p = u.place p := (hgrows.place p).trans (hscanned.grows.place p)
    by_cases hsame : u.place p = x.1
    · -- the cache is stored last
      refine ⟨(u.place p, Utf8.encode t.cacheText),
        List.mem_append_right _ (by simp [hfile]), hsame, ?_⟩
      rw [← hplace]
      exact FileTree.holds_of_read hread
    · refine ⟨x, hx, rfl, ?_⟩
      rcases List.mem_append.mp hx with hx | hx
      · obtain ⟨r, hr, hx⟩ := List.mem_flatMap.mp hx
        exact (hcomponents r hr x hx).grows hgrows (Ne.symm hsame)
      · simp only [hfile, Option.map_some, Option.toList_some, List.mem_singleton] at hx
        exact absurd (congrArg Prod.fst hx).symm hsame

theorem Ran.onDisk_iff_hold (h : t.Ran u v) {r : CompiledComponent} (hr : r ∈ t.compiled) :
    r.OnDisk w ↔ (t.compiler.outputs r.componentName).Hold r w := by
  obtain ⟨m, hscanned, -⟩ := h.steps
  obtain ⟨hslash, hdescribes⟩ := hscanned.describes r hr
  exact Compiler.onDisk_iff h.config.compiledCodeDir h.config.compiledAssetsDir hdescribes hslash

/-- A turn has kept its files exactly if what it has written is there. -/
theorem Ran.kept_iff (h : t.Ran u v) {O : Location → Prop} (hgrows : FileTree.Grows O v w) :
    t.Kept w ↔ ∀ x ∈ t.writes u, w.Holds x := by
  obtain ⟨m, hscanned, -, hstore, hcache⟩ := h.exists_scanned
  have hplace (p : Path) : w.place p = u.place p := (hgrows.place p).trans (h.grows.place p)
  have hwrites (o : Compiler.Outputs) (r : CompiledComponent) : o.writes r w = o.writes r u := by
    simp only [Compiler.Outputs.writes, hplace]
  constructor
  · rintro ⟨hcomponents, hcache⟩ x hx
    rcases List.mem_append.mp hx with hx | hx
    · obtain ⟨r, hr, hx⟩ := List.mem_flatMap.mp hx
      rw [← hwrites] at hx
      exact ((h.onDisk_iff_hold hr).mp (hcomponents r hr)).holds x hx
    · obtain ⟨p, hp, rfl⟩ := Option.map_eq_some_iff.mp (Option.mem_toList.mp hx)
      rw [← hplace]
      exact FileTree.holds_of_read (hcache p hp)
  · intro hholds
    have hmw : FileTree.Grows (fun _ ↦ True) m w :=
      (hstore.mono fun _ _ ↦ trivial).trans (hgrows.mono fun _ _ ↦ trivial)
    refine ⟨fun r hr ↦ (h.onDisk_iff_hold hr).mpr ?_, fun p hp ↦ ?_⟩
    · refine (hscanned.hold r hr).of_holds hmw fun x hx ↦ hholds x ?_
      refine List.mem_append_left _ (List.mem_flatMap.mpr ⟨r, hr, ?_⟩)
      simpa only [Compiler.Outputs.writes, hscanned.grows.place] using hx
    · have hheld := hholds (u.place p, Utf8.encode t.cacheText)
        (List.mem_append_right _ (by simp [hp]))
      rw [← h.grows.place p] at hheld
      exact hheld.read (hcache p hp) hgrows

theorem Ran.coherent (h : t.Ran u v) : t.registry.Coherent :=
  h.steps.elim fun _ hsteps ↦ hsteps.1.coherent

/-- What a turn has stored is read as the cache of its registry. -/
theorem Ran.reads_toCache (h : t.Ran u v) {p : Path}
    (hread : w.read p = .ok (Utf8.encode t.cacheText)) :
    ∃ text, Config.readText w p = .ok text ∧
      Cache.read text = .good (t.registry.toCache t.config.includesStylesInCache) := by
  obtain ⟨m, hscanned, -⟩ := h.steps
  have hvalid : ∀ i record, t.registry.get? i = some record → record.Valid := by
    intro i record hi
    have hmem := Table.mem_of_get? hi
    rw [hscanned.records] at hmem
    obtain ⟨r, hr, heq⟩ := List.mem_map.mp hmem
    cases heq
    obtain ⟨-, hdescribes⟩ := hscanned.describes r hr
    refine ⟨hdescribes.nonempty, fun hname ↦ ?_, hdescribes.digest⟩
    exact hdescribes.nonempty
      (Identifier.flatten_eq_empty_iff.mp (hdescribes.componentName.symm.trans hname))
  exact ⟨_, Json.readText_write _ _ hread, (h.coherent.valid_toCache hvalid _).read⟩

/-- The cache of a turn lists its components. -/
theorem Ran.toCache_perm (h : t.Ran u v) :
    (t.registry.toCache t.config.includesStylesInCache).components.Perm (t.compiled.map fun r ↦
      (r.componentName, (Record.compiled r).toCached t.config.includesStylesInCache)) := by
  obtain ⟨m, hscanned, -⟩ := h.steps
  have hperm := h.coherent.toCache_perm t.config.includesStylesInCache
  rwa [hscanned.records, List.map_map] at hperm

/-- A cache that holds what was stored lists the components of its turn. -/
theorem Ran.listed (h : t.Ran u v)
    (hcache : ∀ p, t.config.cacheFile = some p → w.read p = .ok (Utf8.encode t.cacheText)) :
    t.Listed w := by
  intro p hp
  obtain ⟨text, htext, hread⟩ := h.reads_toCache (hcache p hp)
  exact ⟨text, _, htext, hread, rfl, h.toCache_perm⟩

end Turn

/-- Wherever a run writes, something that it writes there is there at its end. -/
theorem Runs.exists_holds {ts : List Turn} {u w : FileTree} (h : Runs ts u w) {x : Location × Bytes}
    (hx : x ∈ ts.flatMap (·.writes u)) :
    ∃ y ∈ ts.flatMap (·.writes u), y.1 = x.1 ∧ w.Holds y := by
  induction h generalizing x with
  | nil u => cases hx
  | @cons t ts u v w h hs ih =>
    have hwrites : ts.flatMap (·.writes v) = ts.flatMap (·.writes u) := by
      simp only [Turn.writes_of_grows h.grows]
    rw [hwrites] at ih
    rw [List.flatMap_cons] at hx ⊢
    by_cases htouched : ∃ y ∈ ts.flatMap (·.writes u), y.1 = x.1
    · obtain ⟨y, hy, hplace⟩ := htouched
      obtain ⟨z, hz, hzy, hholds⟩ := ih hy
      exact ⟨z, List.mem_append_right _ hz, hzy.trans hplace, hholds⟩
    · have hfirst : t.Touches u x.1 := by
        rcases List.mem_append.mp hx with hx | hx
        · exact List.mem_map_of_mem hx
        · exact absurd ⟨x, hx, rfl⟩ htouched
      obtain ⟨y, hy, hplace, hholds⟩ := h.exists_holds hfirst
      refine ⟨y, List.mem_append_left _ hy, hplace, hholds.grows hs.grows ?_⟩
      rintro ⟨t', ht', hl⟩
      rw [Turn.Touches, Turn.writes_of_grows h.grows] at hl
      obtain ⟨z, hz, hzy⟩ := List.mem_map.mp hl
      exact htouched ⟨z, List.mem_flatMap.mpr ⟨t', ht', hz⟩, hzy.trans hplace⟩

/-- All turns have kept their files exactly if no place got two contents. -/
theorem Runs.kept_iff {ts : List Turn} {u w : FileTree} (h : Runs ts u w) :
    (∀ t ∈ ts, t.Kept w) ↔ Consistent (ts.flatMap (·.writes u)) := by
  have hkept : ∀ t ∈ ts, t.Kept w ↔ ∀ x ∈ t.writes u, w.Holds x := by
    intro t ht
    obtain ⟨m, m', hm, hran, hm'⟩ := h.exists_ran ht
    rw [hran.kept_iff hm', Turn.writes_of_grows hm]
  constructor
  · intro hall
    have hholds : ∀ x ∈ ts.flatMap (·.writes u), w.Holds x := by
      intro x hx
      obtain ⟨t, ht, hx⟩ := List.mem_flatMap.mp hx
      exact (hkept t ht).mp (hall t ht) x hx
    rintro ⟨l, a⟩ ha ⟨l', b⟩ hb hab
    obtain rfl : l = l' := hab
    exact (hholds _ ha).unique (hholds _ hb)
  · intro hconsistent t ht
    refine (hkept t ht).mpr fun x hx ↦ ?_
    have hmem : x ∈ ts.flatMap (·.writes u) := List.mem_flatMap.mpr ⟨t, ht, hx⟩
    obtain ⟨y, hy, hplace, hholds⟩ := h.exists_holds hmem
    rwa [show y = x from Prod.ext hplace (hconsistent y hy x hmem hplace)] at hholds

/-- The command for compiling leaves all configurations with their files exactly if no two of them,
and no two files of one, have different contents at one place: then the files of every component hold
what was compiled for it, and every cache file lists the components of its configuration. -/
theorem configurations_kept_iff {file : String} {config : Config} {c c' : Console}
    (hc : c.files.Sound) (hload : outcome (loadConfig file) c = (.ok config, c))
    (hrun : outcome (compile file none) c = (.ok (), c')) :
    (turns config.compilers c).map (·.config) = config.compilers.map (·.2) ∧
    ((∀ t ∈ turns config.compilers c, t.Kept c'.files) ↔
      Consistent ((turns config.compilers c).flatMap (·.writes c.files))) ∧
    ∀ t ∈ turns config.compilers c, t.Kept c'.files → t.Listed c'.files := by
  obtain ⟨hruns, hconfigs⟩ := runs_of_compile hc hload hrun
  refine ⟨hconfigs, hruns.kept_iff, fun t ht hkept ↦ ?_⟩
  obtain ⟨m, m', -, hran, -⟩ := hruns.exists_ran ht
  exact hran.listed hkept.cache

/-! ## Two configurations -/

/-- Two configurations with one directory for compiled files, and with prefixes that are the same in
the names of components. -/
def sharedLines : List String :=
  ["\x7bcompilers: \x7bfirst: \x7bnamespace_prefix: a.b, ", "source_dir: one, compiled_code_dir: out, ",
    "compiled_assets_dir: out, public_url: u, ", "cache_enabled: 1, cache_file: out/a_b_X.py\x7d, ",
    "second: \x7bnamespace_prefix: a_b, ", "source_dir: two, compiled_code_dir: out, ",
    "compiled_assets_dir: out, public_url: u, ", "cache_enabled: 1, cache_file: c.json\x7d\x7d\x7d"]

/-- The text of the configurations. -/
def sharedText : String := String.ofList (sharedLines.flatMap String.toList)

/-- The document of the configurations. -/
def sharedDocument : Config where
  compilers := [
    ("first", ⟨"a.b", .ofText "one", .ofText "out", .ofText "out", "u", .embedded, .scopingOnly, true,
      some (.ofText "out/a_b_X.py")⟩),
    ("second", ⟨"a_b", .ofText "two", .ofText "out", .ofText "out", "u", .embedded, .scopingOnly,
      true, some (.ofText "c.json")⟩)]

/-- The configurations as they are loaded in the root directory. -/
def sharedConfig : Config where
  compilers := [
    ("first", ⟨"a.b", ⟨.slash, ["one"]⟩, ⟨.slash, ["out"]⟩, ⟨.slash, ["out"]⟩, "u", .embedded,
      .scopingOnly, true, some ⟨.slash, ["out", "a_b_X.py"]⟩⟩),
    ("second", ⟨"a_b", ⟨.slash, ["two"]⟩, ⟨.slash, ["out"]⟩, ⟨.slash, ["out"]⟩, "u", .embedded,
      .scopingOnly, true, some ⟨.slash, ["c.json"]⟩⟩)]

/-- A card for the first configuration, and one more source for the second. -/
def sharedFiles (name code : String) : FileTree where
  nodes := [([], .directory FileTree.parentMode),
    (["icecube.yaml"], .file (Utf8.encode sharedText) FileTree.fileMode 0),
    (["one"], .directory FileTree.parentMode),
    (["one", "Card.ice.py"], .file (Utf8.encode "one") FileTree.fileMode 0),
    (["two"], .directory FileTree.parentMode),
    (["two", name], .file (Utf8.encode code) FileTree.fileMode 0)]
  current := []
  clock := 1

/-- A console in which the command has not run yet. -/
def sharedConsole (name code : String) : Console := start (sharedFiles name code) ⟨none, none⟩

theorem toList_sharedText : sharedText.toList = sharedLines.flatMap String.toList :=
  String.toList_ofList

theorem ofDocument_shared : ∃ document, Yaml.load sharedText = .ok document ∧
    Config.ofDocument document = .ok sharedDocument := by
  have h : ((Yaml.load sharedText).toOption.bind fun v ↦ (Config.ofDocument v).toOption) =
      some sharedDocument := by
    rw [Yaml.load, toList_sharedText]
    decide +kernel
  obtain ⟨document, hload, hconfig⟩ := Option.bind_eq_some_iff.mp h
  exact ⟨document, toOption_eq_some_iff.mp hload, toOption_eq_some_iff.mp hconfig⟩

theorem recheck_shared : Config.recheck ⟨sharedDocument.compilers.map fun e ↦
    (e.1, Config.override none (e.2.resolvePaths ⟨.slash, []⟩))⟩ = .good sharedConfig :=
  Schema.Verdict.toOption_toExcept_eq_some_iff.mp (by decide +kernel)

/-- Wherever the text of the configurations is in the root directory, they are loaded. -/
theorem load_of_sharedText {t : FileTree}
    (hread : t.read ⟨.relative, ["icecube.yaml"]⟩ = .ok (Utf8.encode sharedText))
    (hbase : (t.resolve ⟨.relative, ["icecube.yaml"]⟩).parent = ⟨.slash, []⟩) :
    Config.load t ⟨none, none⟩ ⟨.relative, ["icecube.yaml"]⟩ = .ok sharedConfig := by
  have hreturn : '\r' ∉ sharedText.toList := by
    rw [toList_sharedText]
    decide +kernel
  have htext : Config.readText t ⟨.relative, ["icecube.yaml"]⟩ = .ok sharedText :=
    Config.readText_of_read hreturn hread
  obtain ⟨document, hdocument, hconfig⟩ := ofDocument_shared
  refine Config.load_eq_ok_iff.mpr ⟨FileTree.pathExists_of_read hread, sharedText, document,
    sharedDocument, none, htext, hdocument, hconfig, rfl, ?_⟩
  rw [hbase]
  exact recheck_shared

theorem loadConfig_of_sharedText {t : FileTree}
    (hread : t.read ⟨.relative, ["icecube.yaml"]⟩ = .ok (Utf8.encode sharedText))
    (hbase : (t.resolve ⟨.relative, ["icecube.yaml"]⟩).parent = ⟨.slash, []⟩) :
    outcome (loadConfig "icecube.yaml") (start t ⟨none, none⟩) =
      (.ok sharedConfig, start t ⟨none, none⟩) := by
  have hpath : Path.ofText "icecube.yaml" = ⟨.relative, ["icecube.yaml"]⟩ := by decide +kernel
  have hexists : (start t ⟨none, none⟩).files.pathExists ⟨.relative, ["icecube.yaml"]⟩ = true :=
    FileTree.pathExists_of_read hread
  have hload : Config.load (start t ⟨none, none⟩).files (start t ⟨none, none⟩).environment
      ⟨.relative, ["icecube.yaml"]⟩ = .ok sharedConfig := load_of_sharedText hread hbase
  rw [loadConfig, outcome_get_bind, hpath]
  simp only [hexists, hload, Bool.not_true, Bool.false_eq_true, if_false, outcome_pure]

theorem loadConfig_shared (name code : String) :
    outcome (loadConfig "icecube.yaml") (sharedConsole name code) =
      (.ok sharedConfig, sharedConsole name code) := loadConfig_of_sharedText rfl rfl

/-- The console after the command has run. -/
def sharedEnd (name code : String) : Console :=
  (outcome (sharedConfig.compilers.forM fun e ↦ reporting (compileOne e.1 e.2))
    (sharedConsole name code)).2

theorem compile_shared {name code : String}
    (h : (outcome (sharedConfig.compilers.forM fun e ↦ reporting (compileOne e.1 e.2))
      (sharedConsole name code)).1.toOption = some ()) :
    outcome (compile "icecube.yaml" none) (sharedConsole name code) =
      (.ok (), sharedEnd name code) := by
  rw [outcome_compile_of_load (loadConfig_shared name code)]
  exact Prod.ext (toOption_eq_some_iff.mp h) rfl

/-- Two cards have one name in the two configurations: the command ends well, and the file of the
first card holds the code of the second. -/
theorem second_configuration_overwrites_first :
    outcome (compile "icecube.yaml" none) (sharedConsole "Card.ice.py" "two") =
        (.ok (), sharedEnd "Card.ice.py" "two") ∧
      ∃ t ∈ turns sharedConfig.compilers (sharedConsole "Card.ice.py" "two"), ∃ r ∈ t.compiled,
        r.compiledCodePath = "/out/a_b_Card.py" ∧ r.codeSection = "one" ∧
        (sharedEnd "Card.ice.py" "two").files.read (.ofText r.compiledCodePath) =
          .ok (Utf8.encode "two") ∧
        ¬ r.OnDisk (sharedEnd "Card.ice.py" "two").files := by
  refine ⟨compile_shared (by decide +kernel), ?_⟩
  have hturns : ∃ t ∈ turns sharedConfig.compilers (sharedConsole "Card.ice.py" "two"),
      ∃ r ∈ t.compiled, r.compiledCodePath = "/out/a_b_Card.py" ∧ r.codeSection = "one" := by
    decide +kernel
  have hread : (sharedEnd "Card.ice.py" "two").files.read (.ofText "/out/a_b_Card.py") =
      .ok (Utf8.encode "two") := toOption_eq_some_iff.mp (by decide +kernel)
  obtain ⟨t, ht, r, hr, hpath, hcode⟩ := hturns
  refine ⟨t, ht, r, hr, hpath, hcode, by rwa [hpath], fun hdisk ↦ ?_⟩
  have hcontent := hdisk.code
  rw [hpath, hread, hcode] at hcontent
  exact absurd (Except.ok.inj hcontent) (by decide +kernel)

/-- Where the second configuration has a panel, both keep what is theirs. -/
theorem card_and_panel_are_kept :
    (turns sharedConfig.compilers (sharedConsole "Panel.ice.py" "two")).map
        (fun t ↦ t.compiled.map (·.identifier)) = [["a.b.Card"], ["a_b.Panel"]] ∧
      ∀ t ∈ turns sharedConfig.compilers (sharedConsole "Panel.ice.py" "two"),
        t.Kept (sharedEnd "Panel.ice.py" "two").files ∧
        t.Listed (sharedEnd "Panel.ice.py" "two").files := by
  obtain ⟨-, hiff, hlisted⟩ := configurations_kept_iff (by decide +kernel)
    (loadConfig_shared "Panel.ice.py" "two") (compile_shared (by decide +kernel))
  have hkept := hiff.mpr (consistent_of_nodup (by decide +kernel))
  exact ⟨by decide +kernel, fun t ht ↦ ⟨hkept t ht, hlisted t ht (hkept t ht)⟩⟩

end IceCube.Command
