import IceCube.Proofs.Boot.Agreement

/-!
# Production and development

After a run over all configurations, a process that fills its registry from the caches has the
components that a process has that compiles all sources, or both end in the same collision of names.
That asks that nothing compiled passes for a cache: the place of a cache file can be that of a
compiled file, and a component whose compiled file is the text of a cache is then read as one.
-/

namespace IceCube

open Step

theorem Config.Separate.grows {config : Config} {O : Location → Prop} {t u : FileTree}
    (h : config.Separate t) (hgrows : FileTree.Grows O t u) (ht : t.Sound)
    (hsources : ∀ e ∈ config.compilers, FileTree.SameSources e.2.sourceDir t u) :
    config.Separate u where
  sources := by
    simp only [hgrows.place]
    exact h.sources
  caches := by
    simp only [CompilerConfig.CachesApart, hgrows.place]
    exact h.caches
  compiled := by
    intro e he p hp e' he' rs hfound x hx
    have hfound := Compiler.found_of_sameSources (hgrows.sound ht) ht (hsources e' he').symm hfound
    simp only [CompilerConfig.writes, Compiler.Outputs.writes, hgrows.place] at hx ⊢
    exact h.compiled e he p hp e' he' rs hfound x hx

/-- A run over all configurations leaves them prepared. -/
theorem Command.prepared_of_compile {file : String} {config : Config} {c c' : Console}
    (hc : c.files.Sound) (hload : outcome (loadConfig file) c = (.ok config, c))
    (hrun : outcome (compile file none) c = (.ok (), c')) (hseparate : config.Separate c.files)
    (hsources : ∀ e ∈ config.compilers,
      FileTree.SameSources e.2.sourceDir c.files c'.files) : config.Prepared c'.files := by
  obtain ⟨hruns, hconfigs⟩ := runs_of_compile hc hload hrun
  refine ⟨hruns.grows.sound hc, hseparate.grows hruns.grows hc hsources, fun e he ↦ ?_⟩
  obtain ⟨t, ht, hconfig⟩ := exists_turn hconfigs he
  rw [← hconfig]
  exact ⟨t.compiled, Runs.prepared hc hruns hconfigs hseparate hsources ht⟩

namespace Boot

/-- Booting from the caches of a run and booting from the sources agree, if no two caches go to one
place, no source directory has an output in it, and nothing compiled for the place of a cache file is
a cache itself: both end in the same collision of names, or both end well, with the same identifiers
under the same names, and the records of an identifier are the same in a cache of the last
configuration that registers it.  Between the run and each of the boots the sources stay as they were,
and cache files are left alone, deleted or replaced by something that is no cache; a boot does no more
than that itself. -/
theorem production_agrees_with_development {file : String} {config : Config} {c c' : Console}
    (hc : c.files.Sound) (hload : outcome (Command.loadConfig file) c = (.ok config, c))
    (hrun : outcome (Command.compile file none) c = (.ok (), c'))
    (hseparate : config.Separate c.files)
    (hsources : ∀ e ∈ config.compilers, FileTree.SameSources e.2.sourceDir c.files c'.files)
    {t u : FileTree} (ht : config.Since c'.files t) (hu : config.Since c'.files u)
    (home home' : RegistryId) (log log' : List Event) :
    EndAlike (Alike config c'.files config.compilers)
      (outcome (boot home true config) ⟨t, .empty, log⟩)
      (outcome (boot home' false config) ⟨u, .empty, log'⟩) :=
  boot_alike (Command.prepared_of_compile hc hload hrun hseparate hsources) home home'
    ⟨ht, hu, .empty c'.files⟩

/-! ## Two configurations -/

open Command

/-- The files some time after a run, when the cache of the second configuration has been deleted. -/
def sharedLeft (name code : String) : FileTree := (sharedEnd name code).files.drop ["c.json"]

/-- Directories with the same nodes below them have the same sources. -/
theorem sameSources_shared {t u : FileTree}
    (h : ∀ e ∈ sharedConfig.compilers, u.place e.2.sourceDir = t.place e.2.sourceDir ∧
      u.isDirectory e.2.sourceDir = t.isDirectory e.2.sourceDir ∧
      u.below (t.place e.2.sourceDir) = t.below (t.place e.2.sourceDir)) :
    ∀ e ∈ sharedConfig.compilers, FileTree.SameSources e.2.sourceDir t u := by
  intro e he
  obtain ⟨hplace, hdirectory, hbelow⟩ := h e he
  exact FileTree.sameSources_of_below hplace hdirectory hbelow

/-- Every cache is enabled, the cache files are distinct and no output is in a source directory, but
the first cache file is where the code of a component of the second configuration goes.  Its text is
a cache without components, so in production the card of the first configuration is missing. -/
theorem artifact_is_read_as_cache :
    (∀ e ∈ sharedConfig.compilers, e.2.cacheEnabled = true) ∧
    (sharedConfig.compilers.map (·.2.cacheFile)).Nodup ∧
    (∀ e ∈ sharedConfig.compilers, ∀ e' ∈ sharedConfig.compilers, ∀ p ∈ e'.2.outputPaths,
      ¬ (sharedFiles "X.ice.py" "\x7b\x7d").place e.2.sourceDir <+:
        (sharedFiles "X.ice.py" "\x7b\x7d").place p) ∧
    outcome (Command.loadConfig "icecube.yaml") (sharedConsole "X.ice.py" "\x7b\x7d") =
      (.ok sharedConfig, sharedConsole "X.ice.py" "\x7b\x7d") ∧
    outcome (compile "icecube.yaml" none) (sharedConsole "X.ice.py" "\x7b\x7d") =
      (.ok (), sharedEnd "X.ice.py" "\x7b\x7d") ∧
    (∀ e ∈ sharedConfig.compilers, FileTree.SameSources e.2.sourceDir
      (sharedFiles "X.ice.py" "\x7b\x7d") (sharedLeft "X.ice.py" "\x7b\x7d")) ∧
    ¬ EndAlike (fun s s' ↦ ∀ i, (s.registry.get? i).isSome = (s'.registry.get? i).isSome)
      (outcome (boot "" true sharedConfig) ⟨sharedLeft "X.ice.py" "\x7b\x7d", .empty, []⟩)
      (outcome (boot "" false sharedConfig) ⟨sharedLeft "X.ice.py" "\x7b\x7d", .empty, []⟩) := by
  refine ⟨by decide, by decide, by decide, loadConfig_shared _ _, compile_shared (by decide +kernel),
    sameSources_shared (by decide +kernel), ?_⟩
  have hproduction : ((outcome (boot "" true sharedConfig)
      ⟨sharedLeft "X.ice.py" "\x7b\x7d", .empty, []⟩).1.toOption.isSome,
      ((outcome (boot "" true sharedConfig)
        ⟨sharedLeft "X.ice.py" "\x7b\x7d", .empty, []⟩).2.registry.get? "a.b.Card").isSome) =
      (true, false) := by decide +kernel
  have hdevelopment : ((outcome (boot "" false sharedConfig)
      ⟨sharedLeft "X.ice.py" "\x7b\x7d", .empty, []⟩).2.registry.get? "a.b.Card").isSome =
      true := by decide +kernel
  obtain ⟨hok, hmissing⟩ := Prod.mk.injEq .. ▸ hproduction
  rintro (⟨name, i, j, herror, -⟩ | ⟨-, -, hsame⟩)
  · rw [herror] at hok
    cases hok
  · have hcard := hsame "a.b.Card"
    rw [hmissing, hdevelopment] at hcard
    cases hcard

/-- A card and a panel are registered in production, too, although the cache of the panel is gone. -/
theorem card_and_panel_agree :
    Table.keys (outcome (boot "" false sharedConfig)
      ⟨(sharedEnd "Panel.ice.py" "two").files, .empty, []⟩).2.registry.records =
        ["a.b.Card", "a_b.Panel"] ∧
    EndAlike (Alike sharedConfig (sharedEnd "Panel.ice.py" "two").files sharedConfig.compilers)
      (outcome (boot "" true sharedConfig) ⟨sharedLeft "Panel.ice.py" "two", .empty, []⟩)
      (outcome (boot "" false sharedConfig)
        ⟨(sharedEnd "Panel.ice.py" "two").files, .empty, []⟩) := by
  have hsound : (sharedConsole "Panel.ice.py" "two").files.Sound := by decide +kernel
  have hload := loadConfig_shared "Panel.ice.py" "two"
  have hrun : outcome (compile "icecube.yaml" none) (sharedConsole "Panel.ice.py" "two") =
      (.ok (), sharedEnd "Panel.ice.py" "two") := compile_shared (by decide +kernel)
  have hseparate : sharedConfig.Separate (sharedConsole "Panel.ice.py" "two").files :=
    .of_places (by decide +kernel) (by decide +kernel) (by decide +kernel)
  have hsources : ∀ e ∈ sharedConfig.compilers, FileTree.SameSources e.2.sourceDir
      (sharedConsole "Panel.ice.py" "two").files (sharedEnd "Panel.ice.py" "two").files :=
    sameSources_shared (by decide +kernel)
  have hprepared := prepared_of_compile hsound hload hrun hseparate hsources
  have hsecond : (sharedEnd "Panel.ice.py" "two").files.isFile ⟨.slash, ["c.json"]⟩ = true := by
    decide +kernel
  obtain ⟨-, content, mode, modified, hnode⟩ := FileTree.isFile_iff.mp hsecond
  have hleft : sharedConfig.Since (sharedEnd "Panel.ice.py" "two").files
      (sharedLeft "Panel.ice.py" "two") :=
    Config.Since.deleted hprepared hprepared.since (e := sharedConfig.compilers[1])
      (List.getElem_mem _) (p := ⟨.slash, ["c.json"]⟩) rfl (by simp [hnode])
  exact ⟨by decide +kernel, production_agrees_with_development hsound hload hrun hseparate hsources
    hleft hprepared.since "" "" [] []⟩

end Boot

end IceCube
