import IceCube.Proofs.Config.Loading

/-!
# Names and prefixes of loaded configurations

Each name of a loaded configuration is there once and can be part of the name of a file, and each
prefix consists of segments, so it neither is empty nor starts or ends with a dot.
-/

namespace IceCube

/-! ## Texts that are names and prefixes -/

/-- A text that ends with a separator has an empty last piece, and one before it. -/
theorem Path.exists_of_splitOn_append (sep : Char) (cs : List Char) :
    ∃ p ps, splitOn sep (cs ++ [sep]) = p :: (ps ++ [[]]) := by
  induction cs with
  | nil => exact ⟨[], [], by simp [splitOn]⟩
  | cons c cs ih =>
    obtain ⟨p, ps, hps⟩ := ih
    rw [List.cons_append, splitOn, hps]
    split
    · exact ⟨[], p :: ps, rfl⟩
    · exact ⟨c :: p, ps, rfl⟩

namespace Config

theorem ne_empty_of_isPrefixText {s : String} (h : isPrefixText s = true) : s ≠ "" := by
  rintro rfl
  exact absurd h (by decide)

/-- There are no dots to be left out at the ends of a prefix. -/
theorem trimDots_of_isPrefixText {s : String} (h : isPrefixText s = true) :
    Compiler.trimDots s = s := by
  have hsegments : ∀ p ∈ Path.splitOn '.' s.toList, isSegment p = true := List.all_eq_true.mp h
  have hfirst : s.toList.dropWhile (· == Identifier.separator) = s.toList := by
    cases hs : s.toList with
    | nil => rfl
    | cons c cs =>
      refine List.dropWhile_cons_of_neg fun hc ↦ ?_
      rw [hs, beq_iff_eq.mp hc, Path.splitOn, if_pos (by decide)] at hsegments
      exact absurd (hsegments [] (List.mem_cons_self ..)) (by decide)
  have hlast : s.toList.reverse.dropWhile (· == Identifier.separator) = s.toList.reverse := by
    cases hs : s.toList.reverse with
    | nil => rfl
    | cons c cs =>
      refine List.dropWhile_cons_of_neg fun hc ↦ ?_
      obtain ⟨p, ps, hps⟩ := Path.exists_of_splitOn_append '.' cs.reverse
      rw [List.reverse_eq_cons_iff.mp hs, beq_iff_eq.mp hc, Identifier.separator, hps] at hsegments
      exact absurd (hsegments [] (by simp)) (by decide)
  rw [Compiler.trimDots, Text.dropEndWhile, hfirst, hlast, List.reverse_reverse,
    String.ofList_toList]

theorem slash_not_mem_of_isName {s : String} (h : isName s = true) : '/' ∉ s.toList := by
  have hname (c : Char) (hc : (c.isAlphanum || c == '_' || c == '-') = true) : c ≠ '/' := by
    rintro rfl
    exact absurd hc (by decide)
  intro hslash
  -- at most a line end follows the characters of the name
  have hinside : '/' ∈ if s.toList.getLast? == some '\n' then s.toList.dropLast else s.toList := by
    by_cases hlast : (s.toList.getLast? == some '\n') = true
    · rw [if_pos hlast]
      have hne : s.toList ≠ [] := List.ne_nil_of_mem hslash
      rw [beq_iff_eq, List.getLast?_eq_some_getLast hne, Option.some.injEq] at hlast
      rw [← List.dropLast_append_getLast hne, List.mem_append, List.mem_singleton, hlast] at hslash
      exact hslash.resolve_right (by decide)
    · rwa [if_neg hlast]
  unfold isName at h
  dsimp only at h
  generalize (if s.toList.getLast? == some '\n' then s.toList.dropLast else s.toList) = cs
    at h hinside
  cases cs with
  | nil => cases h
  | cons c cs =>
    simp only [Bool.and_eq_true, List.all_eq_true] at h
    rcases List.mem_cons.mp hinside with rfl | hinside
    · exact absurd h.1 (by decide)
    · exact hname '/' (h.2 '/' hinside) rfl

end Config

/-! ## Loading -/

namespace Schema

variable {δ α : Type} [Document δ] {d : δ}

theorem nodup_of_table {w : Wording} {check : δ → Verdict α} {t : Table String α}
    (h : table w check d = .good t) : (Table.keys t).Nodup := by
  unfold table at h
  split at h
  · obtain ⟨as, -, rfl⟩ := Verdict.map_eq_good_iff.mp h
    exact Table.nodup_keys_ofEntries as
  · cases h

theorem prefix_of_compilerConfig {c : CompilerConfig} (h : compilerConfig d = .good c) :
    Config.isPrefixText c.namespacePrefix = true := by
  obtain ⟨h, -⟩ := rule_eq_good_iff.mp h
  obtain ⟨ms, hfields⟩ := exists_of_record h
  -- the prefix is the first field
  obtain ⟨g₈, cacheFile, hg₈, -, rfl⟩ := Verdict.both_eq_good_iff.mp hfields
  obtain ⟨g₇, enabled, hg₇, -, rfl⟩ := Verdict.both_eq_good_iff.mp hg₈
  obtain ⟨g₆, style, hg₆, -, rfl⟩ := Verdict.both_eq_good_iff.mp hg₇
  obtain ⟨g₅, script, hg₅, -, rfl⟩ := Verdict.both_eq_good_iff.mp hg₆
  obtain ⟨g₄, url, hg₄, -, rfl⟩ := Verdict.both_eq_good_iff.mp hg₅
  obtain ⟨g₃, assets, hg₃, -, rfl⟩ := Verdict.both_eq_good_iff.mp hg₄
  obtain ⟨g₂, code, hg₂, -, rfl⟩ := Verdict.both_eq_good_iff.mp hg₃
  obtain ⟨g₁, source, hg₁, -, rfl⟩ := Verdict.both_eq_good_iff.mp hg₂
  obtain ⟨start, hstart, rfl⟩ := Verdict.map_eq_good_iff.mp hg₁
  obtain ⟨_, hstart⟩ := exists_of_required hstart
  exact matching_eq_good hstart

theorem prefixes_of_config {c : Config} (h : config d = .good c) :
    (∀ e ∈ c.compilers, Config.isPrefixText e.2.namespacePrefix = true) ∧
      (Table.keys c.compilers).Nodup := by
  obtain ⟨h, -⟩ := rule_eq_good_iff.mp h
  obtain ⟨ms, hfields⟩ := exists_of_record h
  obtain ⟨compilers, hcompilers, rfl⟩ := Verdict.map_eq_good_iff.mp hfields
  rcases exists_of_optional hcompilers with rfl | ⟨_, htable⟩
  · exact ⟨by simp, List.nodup_nil⟩
  · refine ⟨fun e he ↦ ?_, nodup_of_table htable⟩
    obtain ⟨_, hcheck⟩ := exists_of_table htable e he
    exact prefix_of_compilerConfig hcheck

end Schema

namespace Config

/-- What can be told of configurations by their names and prefixes. -/
structure Named (es : Table String CompilerConfig) : Prop where
  names : ∀ e ∈ es, isName e.1 = true
  prefixes : ∀ e ∈ es, isPrefixText e.2.namespacePrefix = true
  nodup : (Table.keys es).Nodup

theorem Named.tail {e : String × CompilerConfig} {es : Table String CompilerConfig}
    (h : Named (e :: es)) : Named es where
  names := (List.forall_mem_cons.mp h.names).2
  prefixes := (List.forall_mem_cons.mp h.prefixes).2
  nodup := (List.nodup_cons.mp h.nodup).2

variable {files : FileTree} {env : Environment} {p : Path} {c : Config}

theorem named_of_load (h : load files env p = .ok c) : Named c.compilers := by
  obtain ⟨-, text, document, loaded, setting, -, -, hdocument, -, hrecheck⟩ := load_eq_ok_iff.mp h
  have hloaded : (∀ e ∈ loaded.compilers, isPrefixText e.2.namespacePrefix = true) ∧
      (Table.keys loaded.compilers).Nodup := by
    unfold ofDocument at hdocument
    split at hdocument
    · cases hdocument
      exact ⟨by simp, List.nodup_nil⟩
    · exact Schema.prefixes_of_config (Schema.Verdict.mapError_toExcept_eq_ok_iff.mp hdocument)
  have hrule := (Schema.rule_eq_good_iff.mp hrecheck).2
  obtain ⟨rfl, -⟩ := recheck_eq_good hrecheck
  refine ⟨fun e he ↦ ?_, fun e he ↦ ?_, ?_⟩
  · by_contra hname
    rw [broken?, Option.map_eq_none_iff, List.find?_eq_none] at hrule
    exact hrule e.1 (List.mem_map_of_mem he) (by simpa using hname)
  · obtain ⟨e', he', rfl⟩ := List.mem_map.mp he
    have hprefix := hloaded.1 e' he'
    cases setting <;> exact hprefix
  · have hkeys : Table.keys (loaded.compilers.map fun e ↦
        (e.1, override setting (e.2.resolvePaths (files.resolve p).parent))) =
          Table.keys loaded.compilers := by
      rw [Table.keys, Table.keys, List.map_map]
      rfl
    rw [hkeys]
    exact hloaded.2

theorem named_of_select {name : Option String} {es : Table String CompilerConfig}
    (h : Named c.compilers) (hselect : c.select name = .ok es) : Named es := by
  cases name with
  | none =>
    cases hselect
    exact h
  | some name =>
    rw [select, get] at hselect
    cases hget : Table.get? c.compilers name with
    | none => simp [hget, Except.map] at hselect
    | some compiler =>
      simp only [hget, Except.map, Except.ok.injEq] at hselect
      subst hselect
      have hmem := Table.mem_of_get? hget
      exact ⟨by simpa using h.names _ hmem, by simpa using h.prefixes _ hmem,
        by simp [Table.keys]⟩

end Config

end IceCube
