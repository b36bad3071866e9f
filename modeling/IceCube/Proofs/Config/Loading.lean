import IceCube.Proofs.Cache
import IceCube.Proofs.FileTree.Growth
import IceCube.Compiler.Basic
import IceCube.Config.Load

/-!
# What a loaded configuration is like

Whatever the text of a configuration file is, the configurations that are loaded from it have
prefixes that can be part of the name of a file, paths that consist of names, and a cache file where
the cache is enabled.
-/

namespace IceCube

/-! ## What a good verdict says -/

namespace Schema

variable {α β δ : Type} [Document δ] {d : δ}

theorem Verdict.below_eq_good_iff {step : Step} {v : Verdict α} {a : α} :
    v.below step = .good a ↔ v = .good a := by
  cases v <;> simp [Verdict.below]

theorem Verdict.andThen_eq_good_iff {v : Verdict α} {f : α → Verdict β} {b : β} :
    v.andThen f = .good b ↔ ∃ a, v = .good a ∧ f a = .good b := by
  cases v <;> simp [Verdict.andThen]

theorem Verdict.exists_of_all {vs : List (Verdict α)} {as : List α} (h : Verdict.all vs = .good as) :
    vs = as.map .good := by
  induction vs generalizing as with
  | nil =>
    cases h
    rfl
  | cons v vs ih =>
    obtain ⟨g, as', hg, has', rfl⟩ := Verdict.both_eq_good_iff.mp h
    obtain ⟨a, rfl, rfl⟩ := Verdict.map_eq_good_iff.mp hg
    rw [ih has']
    rfl

theorem Verdict.mapError_toExcept_eq_ok_iff {ε : Type} {f : List Issue → ε} {v : Verdict α} {a : α} :
    v.toExcept.mapError f = .ok a ↔ v = .good a := by
  cases v <;> simp [Verdict.toExcept, Except.mapError]

theorem Verdict.toOption_toExcept_eq_some_iff {v : Verdict α} {a : α} :
    v.toExcept.toOption = some a ↔ v = .good a := by
  cases v <;> simp [Verdict.toExcept, Except.toOption]

theorem rule_eq_good_iff {broken? : α → Option String} {v : Verdict α} {a : α} :
    rule broken? v = .good a ↔ v = .good a ∧ broken? a = none := by
  rw [rule, Verdict.andThen_eq_good_iff]
  constructor
  · rintro ⟨b, hv, hb⟩
    cases hbroken : broken? b with
    | some text => simp [hbroken, Verdict.broken] at hb
    | none =>
      simp only [hbroken, Verdict.good.injEq] at hb
      subst hb
      exact ⟨hv, hbroken⟩
  · rintro ⟨hv, ha⟩
    exact ⟨a, hv, by rw [ha]⟩

theorem exists_of_record {w : Wording} {name : String} {names : List String}
    {fields : Members δ → Verdict α} {a : α} (h : record w name names fields d = .good a) :
    ∃ ms, fields ms = .good a := by
  unfold record at h
  split at h
  · rename_i ms _
    obtain ⟨g, u, hg, -, hu⟩ := Verdict.both_eq_good_iff.mp h
    obtain ⟨a', ha', rfl⟩ := Verdict.map_eq_good_iff.mp hg
    exact ⟨ms, by rw [ha', ← hu]⟩
  · cases h

omit [Document δ] in
theorem exists_of_required {ms : Members δ} {name : String} {check : δ → Verdict α} {a : α}
    (h : required ms name check = .good a) : ∃ d, check d = .good a := by
  unfold required at h
  split at h
  · exact ⟨_, Verdict.below_eq_good_iff.mp h⟩
  · cases h

omit [Document δ] in
theorem exists_of_optional {ms : Members δ} {name : String} {default a : α}
    {check : δ → Verdict α} (h : optional ms name default check = .good a) :
    a = default ∨ ∃ d, check d = .good a := by
  unfold optional at h
  split at h
  · exact .inr ⟨_, Verdict.below_eq_good_iff.mp h⟩
  · cases h
    exact .inl rfl

/-- All values of a table have been checked. -/
theorem exists_of_table {w : Wording} {check : δ → Verdict α} {t : Table String α}
    (h : table w check d = .good t) : ∀ e ∈ t, ∃ d, check d = .good e.2 := by
  unfold table at h
  split at h
  · obtain ⟨as, has, rfl⟩ := Verdict.map_eq_good_iff.mp h
    have hall := Verdict.exists_of_all has
    intro e he
    have hmem : e ∈ as := Table.mem_of_mem_ofEntries he
    have hgood : Verdict.good e ∈ as.map Verdict.good := List.mem_map_of_mem hmem
    rw [← hall] at hgood
    obtain ⟨m, -, hm⟩ := List.mem_map.mp hgood
    obtain ⟨g, a, hg, ha, hga⟩ := Verdict.both_eq_good_iff.mp hm
    obtain ⟨k, -, rfl⟩ := Verdict.map_eq_good_iff.mp hg
    exact ⟨m.2, by rw [← hga]; exact Verdict.below_eq_good_iff.mp ha⟩
  · cases h

theorem matching_eq_good {pattern s : String} {p : String → Bool}
    (h : matching pattern p d = .good s) : p s = true := by
  obtain ⟨a, -, ha⟩ := Verdict.andThen_eq_good_iff.mp h
  split at ha
  · rename_i hp
    cases ha
    exact hp
  · cases ha

theorem path_eq_good {p : Path} (h : path Path.ofText d = .good p) : p.Proper := by
  unfold path at h
  split at h
  · cases h
    exact Path.proper_ofText _
  · cases h

theorem nullable_eq_good {check : δ → Verdict α} {a : Option α}
    (h : nullable check d = .good a) : ∀ b, a = some b → check d = .good b := by
  rintro b rfl
  unfold nullable at h
  split at h
  · cases h
  · obtain ⟨c, hc, hcb⟩ := Verdict.map_eq_good_iff.mp h
    cases hcb
    exact hc

end Schema

/-! ## Configurations -/

namespace Path

/-- A character is in one of the pieces or separates them. -/
theorem exists_mem_splitOn {sep c : Char} {cs : List Char} (h : c ∈ cs) (hc : c ≠ sep) :
    ∃ p ∈ splitOn sep cs, c ∈ p := by
  induction cs with
  | nil => cases h
  | cons a cs ih =>
    rw [splitOn]
    rcases List.mem_cons.mp h with rfl | h
    · rw [if_neg (by simpa using hc)]
      split
      · exact ⟨_, List.mem_cons_self .., List.mem_cons_self ..⟩
      · exact ⟨_, List.mem_cons_self .., List.mem_cons_self ..⟩
    · obtain ⟨p, hp, hcp⟩ := ih h
      split
      · exact ⟨p, List.mem_cons_of_mem _ hp, hcp⟩
      · split
        · rename_i heq
          rw [heq] at hp
          cases hp
        · rename_i q qs heq
          rw [heq] at hp
          rcases List.mem_cons.mp hp with rfl | hp
          · exact ⟨_, List.mem_cons_self .., List.mem_cons_of_mem _ hcp⟩
          · exact ⟨p, List.mem_cons_of_mem _ hp, hcp⟩

end Path

namespace CompilerConfig

/-- What the fields of a loaded configuration are like. -/
structure Sound (c : CompilerConfig) : Prop where
  namespacePrefix : '/' ∉ c.namespacePrefix.toList
  sourceDir : c.sourceDir.Proper
  compiledCodeDir : c.compiledCodeDir.Proper
  compiledAssetsDir : c.compiledAssetsDir.Proper
  cacheFile : ∀ p, c.cacheFile = some p → p.Proper

variable {c : CompilerConfig}

theorem slash_not_mem_of_isPrefixText {s : String} (h : Config.isPrefixText s = true) :
    '/' ∉ s.toList := by
  intro hslash
  obtain ⟨p, hp, hmem⟩ := Path.exists_mem_splitOn hslash (show '/' ≠ '.' by decide)
  have hsegment : Config.isSegment p = true := List.all_eq_true.mp h p hp
  cases p with
  | nil => cases hmem
  | cons a as =>
    simp only [Config.isSegment, Bool.and_eq_true, List.all_eq_true] at hsegment
    rcases List.mem_cons.mp hmem with rfl | hmem
    · exact absurd hsegment.1 (by decide)
    · exact absurd (hsegment.2 '/' hmem) (by decide)

theorem Sound.resolvePaths (h : c.Sound) {base : Path} (hbase : base.Proper) :
    (c.resolvePaths base).Sound where
  namespacePrefix := h.namespacePrefix
  sourceDir := hbase.join h.sourceDir
  compiledCodeDir := hbase.join h.compiledCodeDir
  compiledAssetsDir := hbase.join h.compiledAssetsDir
  cacheFile p hp := by
    obtain ⟨q, hq, rfl⟩ := Option.map_eq_some_iff.mp hp
    exact hbase.join (h.cacheFile q hq)

theorem Sound.override (h : c.Sound) (setting : Option Bool) :
    (Config.override setting c).Sound := by
  cases setting with
  | none => exact h
  | some b => exact ⟨h.namespacePrefix, h.sourceDir, h.compiledCodeDir, h.compiledAssetsDir,
      h.cacheFile⟩

theorem isSome_cacheFile (h : c.broken? = none) (henabled : c.cacheEnabled = true) :
    c.cacheFile.isSome = true := by
  unfold broken? at h
  cases hfile : c.cacheFile with
  | none => simp [henabled, hfile] at h
  | some p => rfl

/-- The prefix of a compiler is that of its configuration without some dots. -/
theorem Sound.slash_not_mem (h : c.Sound) (home : RegistryId) :
    '/' ∉ (Compiler.ofConfig home c).namespacePrefix.toList := by
  have hsubset : ∀ a ∈ (Compiler.trimDots c.namespacePrefix).toList,
      a ∈ c.namespacePrefix.toList := by
    intro a ha
    rw [Compiler.trimDots, Text.dropEndWhile, String.toList_ofList, List.mem_reverse] at ha
    exact List.dropWhile_subset _ (List.mem_reverse.mp (List.dropWhile_subset _ ha))
  exact fun hslash ↦ h.namespacePrefix (hsubset '/' hslash)

end CompilerConfig

namespace Schema

variable {δ : Type} [Document δ] {d : δ}

/-- The fields of a configuration that passes its checks. -/
theorem sound_of_compilerConfig {c : CompilerConfig} (h : compilerConfig d = .good c) : c.Sound := by
  obtain ⟨h, -⟩ := rule_eq_good_iff.mp h
  obtain ⟨ms, hfields⟩ := exists_of_record h
  -- the fields from the last one to the first
  obtain ⟨g₈, cacheFile, hg₈, hcacheFile, rfl⟩ := Verdict.both_eq_good_iff.mp hfields
  obtain ⟨g₇, enabled, hg₇, -, rfl⟩ := Verdict.both_eq_good_iff.mp hg₈
  obtain ⟨g₆, style, hg₆, -, rfl⟩ := Verdict.both_eq_good_iff.mp hg₇
  obtain ⟨g₅, script, hg₅, -, rfl⟩ := Verdict.both_eq_good_iff.mp hg₆
  obtain ⟨g₄, url, hg₄, -, rfl⟩ := Verdict.both_eq_good_iff.mp hg₅
  obtain ⟨g₃, assets, hg₃, hassets, rfl⟩ := Verdict.both_eq_good_iff.mp hg₄
  obtain ⟨g₂, code, hg₂, hcode, rfl⟩ := Verdict.both_eq_good_iff.mp hg₃
  obtain ⟨g₁, source, hg₁, hsource, rfl⟩ := Verdict.both_eq_good_iff.mp hg₂
  obtain ⟨start, hstart, rfl⟩ := Verdict.map_eq_good_iff.mp hg₁
  obtain ⟨_, hstart⟩ := exists_of_required hstart
  obtain ⟨_, hsource⟩ := exists_of_required hsource
  obtain ⟨_, hcode⟩ := exists_of_required hcode
  obtain ⟨_, hassets⟩ := exists_of_required hassets
  refine ⟨CompilerConfig.slash_not_mem_of_isPrefixText (matching_eq_good hstart),
    path_eq_good hsource, path_eq_good hcode, path_eq_good hassets, fun p hp ↦ ?_⟩
  rcases exists_of_optional hcacheFile with rfl | ⟨_, hcacheFile⟩
  · cases hp
  · exact path_eq_good (nullable_eq_good hcacheFile p hp)

theorem sound_of_config {c : Config} (h : config d = .good c) : ∀ e ∈ c.compilers, e.2.Sound := by
  obtain ⟨h, -⟩ := rule_eq_good_iff.mp h
  obtain ⟨ms, hfields⟩ := exists_of_record h
  obtain ⟨compilers, hcompilers, rfl⟩ := Verdict.map_eq_good_iff.mp hfields
  intro e he
  rcases exists_of_optional hcompilers with rfl | ⟨_, htable⟩
  · cases he
  · obtain ⟨_, hcheck⟩ := exists_of_table htable e he
    exact sound_of_compilerConfig hcheck

end Schema

namespace Config

variable {files : FileTree} {env : Environment} {p : Path} {c : Config}

theorem eq_of_checked {compilers es : Table String CompilerConfig}
    (h : (compilers.map fun e ↦ ((Schema.rule CompilerConfig.broken? (.good e.2)).map
      (e.1, ·)).below (.key e.1)) = es.map .good) :
    es = compilers ∧ ∀ e ∈ compilers, CompilerConfig.broken? e.2 = none := by
  induction compilers generalizing es with
  | nil => exact ⟨List.map_eq_nil_iff.mp h.symm, by simp⟩
  | cons e compilers ih =>
    cases es with
    | nil => cases h
    | cons e' es =>
      rw [List.map_cons, List.map_cons, List.cons.injEq] at h
      obtain ⟨rfl, hbroken⟩ := ih h.2
      obtain ⟨a, ha, rfl⟩ := Schema.Verdict.map_eq_good_iff.mp
        (Schema.Verdict.below_eq_good_iff.mp h.1)
      obtain ⟨ha, hrule⟩ := Schema.rule_eq_good_iff.mp ha
      cases ha
      exact ⟨rfl, List.forall_mem_cons.mpr ⟨hrule, hbroken⟩⟩

/-- Checking configurations once more changes none of them. -/
theorem recheck_eq_good {c' : Config} (h : c.recheck = .good c') :
    c' = c ∧ ∀ e ∈ c.compilers, CompilerConfig.broken? e.2 = none := by
  obtain ⟨h, -⟩ := Schema.rule_eq_good_iff.mp h
  obtain ⟨es, hes, rfl⟩ := Schema.Verdict.map_eq_good_iff.mp (Schema.Verdict.below_eq_good_iff.mp h)
  obtain ⟨rfl, hbroken⟩ := eq_of_checked (Schema.Verdict.exists_of_all hes)
  exact ⟨rfl, hbroken⟩

theorem sound_of_ofDocument {v : Yaml.Value} (h : ofDocument v = .ok c) :
    ∀ e ∈ c.compilers, e.2.Sound := by
  unfold ofDocument at h
  split at h
  · cases h
    simp
  · exact Schema.sound_of_config (Schema.Verdict.mapError_toExcept_eq_ok_iff.mp h)

/-- Loading needs a text that is a document of configurations, a setting that can be read, and
configurations that pass the checks once more with all paths seen from the file. -/
theorem load_eq_ok_iff : load files env p = .ok c ↔ files.pathExists p = true ∧
    ∃ text document loaded setting, readText files p = .ok text ∧ Yaml.load text = .ok document ∧
      ofDocument document = .ok loaded ∧ env.cacheOverride = .ok setting ∧
      Config.recheck ⟨loaded.compilers.map fun e ↦
        (e.1, override setting (e.2.resolvePaths (files.resolve p).parent))⟩ = .good c := by
  unfold load
  cases hexists : files.pathExists p with
  | false => simp
  | true =>
    simp only [Bool.not_true, Bool.false_eq_true, if_false, true_and, bind, Except.bind]
    cases htext : readText files p with
    | error e => simp
    | ok text =>
      cases hdocument : Yaml.load text with
      | error e => simp [hdocument, Except.mapError]
      | ok document =>
        cases hconfig : ofDocument document with
        | error e => simp [hdocument, hconfig, Except.mapError]
        | ok loaded =>
          cases hsetting : env.cacheOverride with
          | error f => simp [hdocument, hconfig, Except.mapError]
          | ok setting =>
            simp only [hdocument, hconfig, Except.mapError.eq_2,
              Schema.Verdict.mapError_toExcept_eq_ok_iff]
            simp [hdocument, hconfig]

/-- All configurations that a file gives are sound, and each has a cache file if its cache is
enabled. -/
theorem sound_of_load (hfiles : files.Sound) (hp : p.Proper) (h : load files env p = .ok c) :
    ∀ e ∈ c.compilers, e.2.Sound ∧ (e.2.cacheEnabled = true → e.2.cacheFile.isSome = true) := by
  have hbase : (files.resolve p).parent.Proper :=
    Path.Proper.parent (p := files.resolve p) (hfiles.isName_place hp)
  obtain ⟨-, text, document, loaded, setting, -, -, hconfig, -, hrecheck⟩ := load_eq_ok_iff.mp h
  obtain ⟨rfl, hbroken⟩ := recheck_eq_good hrecheck
  intro e he
  refine ⟨?_, fun henabled ↦ ?_⟩
  · obtain ⟨e', he', rfl⟩ := List.mem_map.mp he
    exact ((sound_of_ofDocument hconfig e' he').resolvePaths hbase).override setting
  · exact CompilerConfig.isSome_cacheFile (hbroken e he) henabled

end Config

end IceCube
