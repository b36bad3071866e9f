import IceCube.Proofs.Config.Names
import IceCube.Proofs.Json.File
import IceCube.Proofs.Step

/-!
# Loaded configurations are valid

The checks of names and prefixes are compared with what names and prefixes are: a sign that can stand
first, then any number of others.  A prefix is accepted exactly if it consists of identifiers between
dots.  A name is accepted with a line end behind it as well.  All paths are seen from the directory of
the file, which is absolute, and the rule about the cache is checked once more after the environment
has had its say, so nothing that is changed after the first checks can break it.
-/

namespace IceCube

open Step

namespace Config

/-! ## Names and prefixes -/

/-- A letter, then any number of letters, digits, underscores and hyphens. -/
def FullName (s : String) : Prop :=
  ∃ c cs, s.toList = c :: cs ∧ c.isAlpha = true ∧
    ∀ d ∈ cs, d.isAlphanum = true ∨ d = '_' ∨ d = '-'

/-- A letter or an underscore, then any number of letters, digits and underscores. -/
def IsIdentifier (s : String) : Prop :=
  ∃ c cs, s.toList = c :: cs ∧ (c.isAlpha = true ∨ c = '_') ∧
    ∀ d ∈ cs, d.isAlphanum = true ∨ d = '_'

/-- Identifiers between dots, and at least one. -/
def Dotted (s : String) : Prop :=
  ∃ ids, ids ≠ [] ∧ (∀ i ∈ ids, IsIdentifier i) ∧ s = ".".intercalate ids

theorem FullName.getLast?_ne {s : String} (h : FullName s) : s.toList.getLast? ≠ some '\n' := by
  obtain ⟨c, cs, hs, hc, hcs⟩ := h
  intro hlast
  rw [hs] at hlast
  rcases List.mem_cons.mp (List.mem_of_getLast? hlast) with rfl | hmem
  · exact absurd hc (by decide)
  · exact absurd (hcs '\n' hmem) (by decide)

/-- The check of a name looks at what is left of it without a line end. -/
theorem isName_iff_fullName {s : String} : isName s = true ↔ FullName (String.ofList
    (if s.toList.getLast? == some '\n' then s.toList.dropLast else s.toList)) := by
  rw [isName]
  generalize (if s.toList.getLast? == some '\n' then s.toList.dropLast else s.toList) = cs
  unfold FullName
  cases cs with
  | nil => simp
  | cons c cs => simp [or_assoc]

theorem isName_iff {s : String} :
    isName s = true ↔ FullName s ∨ ∃ name, FullName name ∧ s = name ++ "\n" := by
  rw [isName_iff_fullName]
  by_cases hlast : s.toList.getLast? = some '\n'
  · obtain ⟨cs, hcs⟩ := List.getLast?_eq_some_iff.mp hlast
    have hs : s = String.ofList cs ++ "\n" := String.toList_injective (by simp [hcs])
    rw [if_pos (beq_iff_eq.mpr hlast), hcs, List.dropLast_concat,
      or_iff_right fun h ↦ h.getLast?_ne hlast]
    constructor
    · intro h
      exact ⟨_, h, hs⟩
    · rintro ⟨name, h, hname⟩
      rw [hs] at hname
      have hlists := congrArg String.toList hname
      rw [String.toList_append, String.toList_append] at hlists
      rwa [String.toList_injective (List.append_cancel_right hlists)]
  · rw [if_neg (mt beq_iff_eq.mp hlast), String.ofList_toList, or_iff_left]
    rintro ⟨name, -, rfl⟩
    exact hlast (by simp)

theorem isSegment_iff {cs : List Char} : isSegment cs = true ↔ IsIdentifier (String.ofList cs) := by
  unfold IsIdentifier isSegment startsSegment
  cases cs with
  | nil => simp
  | cons c cs => simp [Char.isAlphanum, or_right_comm]

/-- The check of a prefix is passed by identifiers between dots and nothing else. -/
theorem isPrefixText_iff {s : String} : isPrefixText s = true ↔ Dotted s := by
  rw [isPrefixText, List.all_eq_true]
  constructor
  · intro h
    refine ⟨(Path.splitOn '.' s.toList).map String.ofList, ?_, ?_, ?_⟩
    · simp [Path.splitOn_eq, List.splitOn_ne_nil]
    · intro i hi
      obtain ⟨cs, hcs, rfl⟩ := List.mem_map.mp hi
      exact isSegment_iff.mp (h cs hcs)
    · refine String.toList_injective ?_
      rw [String.toList_intercalate, List.map_map, Path.splitOn_eq]
      simp [Function.comp_def]
  · rintro ⟨ids, hne, hids, rfl⟩
    have hpieces : Path.splitOn '.' (".".intercalate ids).toList = ids.map String.toList := by
      rw [String.toList_intercalate]
      refine Path.splitOn_intercalate (fun cs hcs ↦ ?_) (by simpa using hne)
      obtain ⟨i, hi, rfl⟩ := List.mem_map.mp hcs
      obtain ⟨c, cs, hi, hc, hcs⟩ := hids i hi
      rw [hi]
      intro hdot
      rcases List.mem_cons.mp hdot with rfl | hdot
      · exact absurd hc (by decide)
      · exact absurd (hcs '.' hdot) (by decide)
    rw [hpieces]
    intro cs hcs
    obtain ⟨i, hi, rfl⟩ := List.mem_map.mp hcs
    rw [isSegment_iff, String.ofList_toList]
    exact hids i hi

end Config

/-! ## Loaded configurations -/

namespace CompilerConfig

variable {c : CompilerConfig}

/-- All paths of a configuration. -/
def paths (c : CompilerConfig) : List Path :=
  [c.sourceDir, c.compiledCodeDir, c.compiledAssetsDir] ++ c.cacheFile.toList

/-- What the fields of a configuration have to be like to be of use. -/
structure Valid (c : CompilerConfig) : Prop where
  namespacePrefix : Config.Dotted c.namespacePrefix
  cacheFile : c.cacheEnabled = true → c.cacheFile.isSome = true
  absolute : ∀ p ∈ c.paths, p.isAbsolute = true

/-- Seen from an absolute path, all paths are absolute. -/
theorem isAbsolute_of_mem_paths {base : Path} (hbase : base.isAbsolute = true) :
    ∀ p ∈ (c.resolvePaths base).paths, p.isAbsolute = true := by
  have hjoin (p : Path) : (base.join p).isAbsolute = true := by
    unfold Path.join
    split
    · assumption
    · exact hbase
  intro p hp
  simp only [paths, resolvePaths, List.mem_append, List.mem_cons, List.not_mem_nil, or_false,
    Option.mem_toList, Option.map_eq_some_iff] at hp
  rcases hp with (rfl | rfl | rfl) | ⟨q, -, rfl⟩
  · exact hjoin _
  · exact hjoin _
  · exact hjoin _
  · exact hjoin q

theorem paths_override (setting : Option Bool) (c : CompilerConfig) :
    (Config.override setting c).paths = c.paths := by
  cases setting <;> rfl

end CompilerConfig

namespace Config

variable {files : FileTree} {env : Environment} {p : Path} {c : Config}

/-- Whatever is in a file and in the environment, all that is loaded is valid, except that a name may
be a full name with a line end behind it. -/
theorem valid_of_load (h : load files env p = .ok c) : ∀ e ∈ c.compilers,
    (FullName e.1 ↔ e.1.toList.getLast? ≠ some '\n') ∧
      (FullName e.1 ∨ ∃ name, FullName name ∧ e.1 = name ++ "\n") ∧ e.2.Valid := by
  have hnamed := named_of_load h
  obtain ⟨-, text, document, loaded, setting, -, -, -, -, hrecheck⟩ := load_eq_ok_iff.mp h
  obtain ⟨rfl, hbroken⟩ := recheck_eq_good hrecheck
  intro e he
  have hname := isName_iff.mp (hnamed.names e he)
  refine ⟨⟨fun h ↦ h.getLast?_ne, fun hlast ↦ hname.resolve_right ?_⟩, hname, ?_⟩
  · rintro ⟨name, -, hname⟩
    exact hlast (by simp [hname])
  · refine ⟨isPrefixText_iff.mp (hnamed.prefixes e he),
      CompilerConfig.isSome_cacheFile (hbroken e he), ?_⟩
    obtain ⟨e', -, rfl⟩ := List.mem_map.mp he
    rw [CompilerConfig.paths_override]
    exact CompilerConfig.isAbsolute_of_mem_paths rfl

/-! ## One configuration -/

/-- One configuration under a name. -/
def namedLines (name : String) : List String :=
  ["\x7bcompilers: \x7b", name, ": \x7bnamespace_prefix: app.ui, source_dir: ui, ",
    "compiled_code_dir: out, compiled_assets_dir: /out, ", "public_url: u, cache_file: c.json\x7d\x7d\x7d"]

/-- The text of the configuration. -/
def namedText (name : String) : String := String.ofList ((namedLines name).flatMap String.toList)

/-- A file with the configuration in the root directory. -/
def namedFiles (name : String) : FileTree where
  nodes := [([], .directory FileTree.parentMode),
    (["icecube.yaml"], .file (Utf8.encode (namedText name)) FileTree.fileMode 0)]
  current := []
  clock := 1

/-- The configuration as it is loaded. -/
def namedConfig (name : String) (cacheEnabled : Bool) : Config where
  compilers := [(name, ⟨"app.ui", ⟨.slash, ["ui"]⟩, ⟨.slash, ["out"]⟩, ⟨.slash, ["out"]⟩, "u", .embedded,
    .scopingOnly, cacheEnabled, some ⟨.slash, ["c.json"]⟩⟩)]

theorem load_namedFiles {written : String} {env : Environment} (loaded : Config)
    {setting : Option Bool} (hreturn : '\r' ∉ (namedLines written).flatMap String.toList)
    (hdocument : ((Yaml.load (namedText written)).toOption.bind fun v ↦ (ofDocument v).toOption) =
      some loaded)
    (hsetting : env.cacheOverride = .ok setting)
    (hrecheck : (Config.recheck ⟨loaded.compilers.map fun e ↦
      (e.1, override setting (e.2.resolvePaths ⟨.slash, []⟩))⟩).toExcept.toOption = some c) :
    load (namedFiles written) env ⟨.relative, ["icecube.yaml"]⟩ = .ok c := by
  have hread : (namedFiles written).read ⟨.relative, ["icecube.yaml"]⟩ =
      .ok (Utf8.encode (namedText written)) := rfl
  obtain ⟨document, hload, hconfig⟩ := Option.bind_eq_some_iff.mp hdocument
  refine load_eq_ok_iff.mpr ⟨FileTree.pathExists_of_read hread, namedText written, document, loaded,
    setting, readText_of_read ?_ hread, toOption_eq_some_iff.mp hload, toOption_eq_some_iff.mp hconfig,
    hsetting, ?_⟩
  · rw [namedText, String.toList_ofList]
    exact hreturn
  · have hbase : ((namedFiles written).resolve ⟨.relative, ["icecube.yaml"]⟩).parent = ⟨.slash, []⟩ :=
      rfl
    rw [hbase]
    exact Schema.Verdict.toOption_toExcept_eq_some_iff.mp hrecheck

theorem loaded_web_is_valid : ∃ c,
    load (namedFiles "web") ⟨some "1", none⟩ ⟨.relative, ["icecube.yaml"]⟩ = .ok c ∧
      c.compilers ≠ [] ∧ ∀ e ∈ c.compilers, FullName e.1 ∧ e.2.cacheEnabled = true ∧ e.2.Valid := by
  have hsetting : Environment.cacheOverride ⟨some "1", none⟩ = .ok (some true) := by
    decide +kernel
  have hload : load (namedFiles "web") ⟨some "1", none⟩ ⟨.relative, ["icecube.yaml"]⟩ =
      .ok (namedConfig "web" true) := by
    refine load_namedFiles ⟨[("web", ⟨"app.ui", .ofText "ui", .ofText "out", .ofText "/out", "u",
      .embedded, .scopingOnly, false, some (.ofText "c.json")⟩)]⟩ (by decide +kernel) ?_ hsetting
      (by decide +kernel)
    rw [Yaml.load, namedText, String.toList_ofList]
    decide +kernel
  refine ⟨_, hload, by decide, fun e he ↦ ?_⟩
  obtain ⟨hname, -, hvalid⟩ := valid_of_load hload e he
  rw [namedConfig, List.mem_singleton] at he
  subst he
  exact ⟨hname.mpr (by decide), rfl, hvalid⟩

/-- A name with a line end is loaded as it is. -/
theorem name_with_line_end_is_loaded :
    load (namedFiles "\"a\\n\"") ⟨none, none⟩ ⟨.relative, ["icecube.yaml"]⟩ =
        .ok (namedConfig "a\n" false) ∧
      ¬ ∀ e ∈ (namedConfig "a\n" false).compilers, FullName e.1 := by
  constructor
  · refine load_namedFiles ⟨[("a\n", ⟨"app.ui", .ofText "ui", .ofText "out", .ofText "/out", "u",
      .embedded, .scopingOnly, false, some (.ofText "c.json")⟩)]⟩ (by decide +kernel) ?_ rfl
      (by decide +kernel)
    rw [Yaml.load, namedText, String.toList_ofList]
    decide +kernel
  · intro h
    exact (h _ (List.mem_singleton_self _)).getLast?_ne (by decide)

end Config

end IceCube
