import IceCube.Proofs.Compiler.Artifacts

/-!
# Where the source of an identifier is

The source of an identifier is found by a walk from the source directory, one segment of the
identifier after the other.  No segment has a dot, so no step leads up.  A step can start over,
though: a segment that starts with a slash is joined as an absolute path, and everything before it is
forgotten.  The walk stays in the source directory exactly if it never starts over, or leads back into
the directory from the last place where it does.
-/

namespace IceCube

open Step

/-! ## Walks -/

namespace Path

/-- A path is inside a directory: it goes on from there with at least one part, and no part leads
up. -/
def Encloses (dir p : Path) : Prop :=
  ∃ rest, rest ≠ [] ∧ ".." ∉ rest ∧ p = { dir with parts := dir.parts ++ rest }

/-- Where a walk leads from the last step that starts over, if any does. -/
def restart? : List String → Option Path
  | [] => none
  | s :: steps => (restart? steps).or <|
    if (ofText s).isAbsolute then some (steps.foldl joinText (ofText s)) else none

theorem Encloses.root_eq {dir p : Path} (h : dir.Encloses p) : p.root = dir.root := by
  obtain ⟨rest, -, -, rfl⟩ := h
  rfl

theorem isAbsolute_ofText {s : String} : (ofText s).isAbsolute = true ↔ s.toList.head? = some '/' := by
  have hroot : (ofText s).isAbsolute = (rootOf s.toList != .relative) := rfl
  rw [hroot, bne_iff_ne]
  constructor
  · intro h
    by_contra hhead
    exact h (rootOf_of_head?_ne hhead)
  · intro h
    obtain ⟨cs, hcs⟩ := List.head?_eq_some_iff.mp h
    rw [hcs]
    unfold rootOf
    split <;> simp_all

/-- A walk leads on from the directory that it starts in, unless it starts over. -/
theorem foldl_joinText (steps : List String) (dir : Path) : steps.foldl joinText dir =
    (restart? steps).getD { dir with parts := dir.parts ++ steps.flatMap fun s ↦ (ofText s).parts } := by
  induction steps generalizing dir with
  | nil => simp [restart?]
  | cons s steps ih =>
    rw [List.foldl_cons, ih, restart?]
    cases hrestart : restart? steps with
    | some p => rfl
    | none =>
      rw [hrestart] at ih
      by_cases hs : (ofText s).isAbsolute = true
      · simp only [joinText, join, hs, if_true, Option.or_some, Option.getD_some, Option.getD_none]
        rw [ih]
        rfl
      · simp [joinText, join, hs]

theorem restart?_eq_none_iff {steps : List String} :
    restart? steps = none ↔ ∀ s ∈ steps, s.toList.head? ≠ some '/' := by
  induction steps with
  | nil => simp [restart?]
  | cons s steps ih =>
    rw [restart?, Option.or_eq_none_iff, ih, List.forall_mem_cons, and_comm]
    refine and_congr_left fun _ ↦ ?_
    rw [ne_eq, ← isAbsolute_ofText]
    simp

/-- A walk that starts over leads to an absolute path. -/
theorem isAbsolute_of_restart? {steps : List String} {p : Path} (h : restart? steps = some p) :
    p.isAbsolute = true := by
  have hfoldl (steps : List String) (dir : Path) (hdir : dir.isAbsolute = true) :
      (steps.foldl joinText dir).isAbsolute = true := by
    induction steps generalizing dir with
    | nil => exact hdir
    | cons s steps ih =>
      refine ih _ ?_
      unfold joinText join
      split
      · assumption
      · exact hdir
  induction steps with
  | nil => cases h
  | cons s steps ih =>
    rw [restart?, Option.or_eq_some_iff] at h
    rcases h with h | ⟨-, h⟩
    · exact ih h
    · split at h
      · cases h
        exact hfoldl steps _ (by assumption)
      · cases h

end Path

/-! ## Segments -/

namespace Identifier

theorem segments_ne_nil (i : String) : segments i ≠ [] := by
  rw [segments, Path.splitOn_eq]
  simp [List.splitOn_ne_nil]

theorem dot_not_mem_of_mem_segments {i s : String} (h : s ∈ segments i) : '.' ∉ s.toList := by
  obtain ⟨cs, hcs, rfl⟩ := List.mem_map.mp h
  rw [String.toList_ofList]
  exact Path.not_mem_of_mem_splitOn hcs

theorem slash_not_mem_of_mem_segments {i s : String} (hi : '/' ∉ i.toList) (h : s ∈ segments i) :
    '/' ∉ s.toList := by
  obtain ⟨cs, hcs, rfl⟩ := List.mem_map.mp h
  rw [String.toList_ofList]
  exact fun hslash ↦ hi (Path.mem_of_mem_splitOn hcs hslash)

end Identifier

/-- No part of a text without dots leads up. -/
theorem Path.dots_not_mem_of_splitOn {s n : String} (hs : '.' ∉ s.toList)
    (h : n.toList ∈ splitOn '/' s.toList) : n ≠ ".." := by
  rintro rfl
  exact hs (mem_of_mem_splitOn h (by decide))

namespace Compiler

variable {c : Compiler} {i : String} {s s' : Workspace}

/-- The segments of an identifier behind a prefix as long as that of a compiler. -/
def segmentsBelow (c : Compiler) (i : String) : List String :=
  Identifier.segments (String.ofList (i.toList.drop (c.namespacePrefix.length + 1)))

/-- The steps from the source directory to the source of an identifier. -/
def steps (c : Compiler) (i : String) : List String :=
  (c.segmentsBelow i).dropLast ++ [(c.segmentsBelow i).getLastD "" ++ sourceSuffix]

theorem sourcePathFor_eq (c : Compiler) (i : String) :
    c.sourcePathFor i = (c.steps i).foldl Path.joinText c.sourceDir := rfl

/-- A step is a segment, or the last one with the end of a source. -/
theorem exists_segmentsBelow (c : Compiler) (i : String) : ∃ parents last,
    c.segmentsBelow i = parents ++ [last] ∧ c.steps i = parents ++ [last ++ sourceSuffix] := by
  obtain ⟨parents, last, h⟩ := List.eq_nil_or_concat _ |>.resolve_left
    (Identifier.segments_ne_nil (String.ofList (i.toList.drop (c.namespacePrefix.length + 1))))
  have hsegments : c.segmentsBelow i = parents ++ [last] := by
    rw [segmentsBelow, h, List.concat_eq_append]
  refine ⟨parents, last, hsegments, ?_⟩
  rw [steps, hsegments, List.dropLast_concat, List.getLastD_concat]

/-- The walk to a source starts over at a segment that starts with a slash. -/
theorem restart?_steps_eq_none_iff : Path.restart? (c.steps i) = none ↔
    ∀ segment ∈ c.segmentsBelow i, segment.toList.head? ≠ some '/' := by
  obtain ⟨parents, last, hsegments, hsteps⟩ := exists_segmentsBelow c i
  have hlast : (last ++ sourceSuffix).toList.head? = some '/' ↔ last.toList.head? = some '/' := by
    rw [String.toList_append, List.head?_append]
    cases last.toList.head? with
    | none => simp [sourceSuffix]
    | some d => simp
  simp only [Path.restart?_eq_none_iff, hsegments, hsteps, List.forall_mem_append,
    List.forall_mem_singleton, ne_eq, hlast]

/-- What the steps to a source add to a directory is the source at least, and never leads up. -/
theorem parts_of_steps (c : Compiler) (i : String) :
    (c.steps i).flatMap (fun s ↦ (Path.ofText s).parts) ≠ [] ∧
      ".." ∉ (c.steps i).flatMap fun s ↦ (Path.ofText s).parts := by
  obtain ⟨parents, last, hsegments, hsteps⟩ := exists_segmentsBelow c i
  have hdot : ∀ segment ∈ parents ++ [last], '.' ∉ segment.toList := by
    rw [← hsegments]
    exact fun segment ↦ Identifier.dot_not_mem_of_mem_segments
  obtain ⟨hparents, hlast⟩ := List.forall_mem_append.mp hdot
  obtain ⟨dir, name, -, hpieces, happend⟩ := Path.exists_ofText_append last
  have hsource : (Path.ofText (last ++ sourceSuffix)).parts = dir.parts ++ [name ++ sourceSuffix] := by
    rw [happend sourceSuffix (by decide) (by decide)]
    rfl
  rw [hsteps, List.flatMap_append, List.flatMap_singleton, hsource]
  refine ⟨by simp, fun hmem ↦ ?_⟩
  rcases List.mem_append.mp hmem with hmem | hmem
  · obtain ⟨segment, hsegment, hpart⟩ := List.mem_flatMap.mp hmem
    exact Path.dots_not_mem_of_splitOn (hparents segment hsegment) (Path.exists_of_mem_partsOf hpart)
      rfl
  · rcases List.mem_append.mp hmem with hmem | hmem
    · exact Path.dots_not_mem_of_splitOn (hlast last (by simp))
        (hpieces _ (List.mem_cons_of_mem _ hmem)) rfl
    · have hlength := congrArg (fun t : String ↦ t.toList.length) (List.mem_singleton.mp hmem)
      simp [sourceSuffix] at hlength

/-- The source of an identifier is where the walk starts over for the last time and leads from there,
or else in the source directory. -/
theorem sourcePathFor_of_restart? {p : Path} (h : Path.restart? (c.steps i) = some p) :
    c.sourcePathFor i = p := by
  rw [sourcePathFor_eq, Path.foldl_joinText, h, Option.getD_some]

theorem encloses_of_restart?_eq_none (h : Path.restart? (c.steps i) = none) :
    c.sourceDir.Encloses (c.sourcePathFor i) := by
  obtain ⟨hparts, hup⟩ := parts_of_steps c i
  refine ⟨_, hparts, hup, ?_⟩
  rw [sourcePathFor_eq, Path.foldl_joinText, h, Option.getD_none]

theorem place_joinText_source (t : FileTree) (dir : Path) {n : String} (hn : '/' ∉ n.toList) :
    t.place (dir.joinText (n ++ sourceSuffix)) = t.place dir ++ [n ++ sourceSuffix] := by
  have hlong (s : String) (hs : s.toList.length < sourceSuffix.toList.length) :
      n ++ sourceSuffix ≠ s := by
    rintro rfl
    rw [String.toList_append, List.length_append] at hs
    omega
  have hname : Path.IsName (n ++ sourceSuffix) := by
    refine ⟨hlong "" (by decide), hlong "." (by decide), ?_⟩
    rw [String.toList_append, List.mem_append, not_or]
    exact ⟨hn, by decide⟩
  rw [Path.joinText_name hname, t.place_child dir (hlong ".." (by decide))]

/-- The segments of an identifier below the prefix are those of what it is called there. -/
theorem segmentsBelow_below (c : Compiler) (name : String) :
    c.segmentsBelow (Identifier.below c.namespacePrefix name) = Identifier.segments name := by
  have hdrop : (Identifier.below c.namespacePrefix name).toList.drop (c.namespacePrefix.length + 1) =
      name.toList := by
    have hlist : (Identifier.below c.namespacePrefix name).toList =
        (c.namespacePrefix.toList ++ ['.']) ++ name.toList := by
      rw [Identifier.below, String.toList_append, String.toList_append]
      rfl
    have hlength : (c.namespacePrefix.toList ++ ['.']).length = c.namespacePrefix.length + 1 := by
      rw [List.length_append, List.length_singleton, String.length_toList]
    rw [hlist, List.drop_left' hlength]
  rw [segmentsBelow, hdrop, String.ofList_toList]

end Compiler

/-! ## What is compiled -/

/-- The record that resolving ends up with is registered, or compiled by a compiler that covers the
identifier from where that compiler has its source. -/
theorem Resolve.record_eq_some {home : RegistryId} {i : String} {force : Bool} {w w' : World}
    {record : Record} (h : outcome (Resolve.record home i force) w = (.ok (some record), w')) :
    (w.registry home).get? i = some record ∨
      ∃ c ∈ (w.registry home).compilers, c.handles i = true ∧ ∃ r, record = .compiled r ∧
        c.compiled? i w.files (c.sourcePathFor i) = some r := by
  rw [Resolve.record, outcome_get_bind] at h
  dsimp only at h
  split at h
  · rename_i hget
    cases h
    exact .inl hget
  · split at h
    · rename_i c hc
      obtain ⟨r, v, hbuild, h⟩ := outcome_bind_eq_ok.mp h
      cases h
      rw [Run.outcome_build] at hbuild
      obtain ⟨hbuild, -⟩ := Prod.mk.inj hbuild
      obtain ⟨hhandles, hr⟩ := Compiler.compiled?_of_compileIdentifier (Prod.ext hbuild rfl)
      exact .inr ⟨c, List.mem_of_find?_eq_some hc, hhandles, r, rfl, hr⟩
    · exact .inl (Except.ok.inj (Prod.mk.inj h).1)

/-- A record that is missing or wanted afresh is what the first compiler that covers the identifier
compiles. -/
theorem Resolve.outcome_record_of_compile {home : RegistryId} {i : String} {force : Bool}
    {w : World} {c : Compiler} {x : Except Error CompiledComponent} {s : Workspace}
    (hwanted : (w.registry home).get? i = none ∨ force = true)
    (hcompiler : (w.registry home).compilerFor? i = some c)
    (h : outcome (c.compileIdentifier i) (w.workspace c.home) = (x, s)) :
    outcome (Resolve.record home i force) w =
      (x.map fun r ↦ some (.compiled r), w.withWorkspace c.home s) := by
  have hbuild : outcome (Run.build c.home (c.compileIdentifier i)) w =
      (x, w.withWorkspace c.home s) := by
    rw [Run.outcome_build, h]
  have hrecord : outcome (Resolve.record home i force) w =
      outcome (do return some (.compiled (← Run.build c.home (c.compileIdentifier i)))) w := by
    rw [Resolve.record, outcome_get_bind]
    dsimp only
    rcases hwanted with hnone | rfl
    · rw [hnone, hcompiler]
    · rw [hcompiler]
      cases (w.registry home).get? i <;> rfl
  rw [hrecord, outcome_bind, hbuild]
  cases x <;> rfl

namespace Compiler

/-- The source of an identifier is in the source directory exactly if it is there from the last
segment that starts with a slash on, and it always is if there is no such segment.  What is compiled
for an identifier is its source, whether a compiler is asked for it or a registry. -/
theorem encloses_sourcePathFor_iff (c : Compiler) (i : String) :
    (c.sourceDir.Encloses (c.sourcePathFor i) ↔
      ∀ p, Path.restart? (c.steps i) = some p → c.sourceDir.Encloses p) ∧
    (Path.restart? (c.steps i) = none ↔
      ∀ segment ∈ c.segmentsBelow i, segment.toList.head? ≠ some '/') ∧
    (c.sourceDir.isAbsolute = false → (c.sourceDir.Encloses (c.sourcePathFor i) ↔
      ∀ segment ∈ c.segmentsBelow i, segment.toList.head? ≠ some '/')) ∧
    (∀ s s' r, outcome (c.compileIdentifier i) s = (.ok r, s') →
      c.handles i = true ∧ c.compiled? i s.files (c.sourcePathFor i) = some r) ∧
    ∀ home force w w' record,
      outcome (Resolve.record home i force) w = (.ok (some record), w') →
        (w.registry home).get? i = some record ∨
          ∃ d ∈ (w.registry home).compilers, d.handles i = true ∧ ∃ r, record = .compiled r ∧
            d.compiled? i w.files (d.sourcePathFor i) = some r := by
  have hiff : c.sourceDir.Encloses (c.sourcePathFor i) ↔
      ∀ p, Path.restart? (c.steps i) = some p → c.sourceDir.Encloses p := by
    cases hrestart : Path.restart? (c.steps i) with
    | none => exact iff_of_true (encloses_of_restart?_eq_none hrestart) nofun
    | some p =>
      rw [sourcePathFor_of_restart? hrestart]
      exact ⟨fun h q hq ↦ Option.some.inj hq ▸ h, fun h ↦ h p rfl⟩
  refine ⟨hiff, restart?_steps_eq_none_iff, fun hrelative ↦ ?_,
    fun s s' r ↦ compiled?_of_compileIdentifier, fun home force w w' record ↦
    Resolve.record_eq_some⟩
  rw [hiff, ← restart?_steps_eq_none_iff, Option.eq_none_iff_forall_ne_some]
  refine forall_congr' fun p ↦ ⟨fun h hp ↦ ?_, fun h hp ↦ absurd hp h⟩
  -- the root of what is in a directory is that of the directory
  have habsolute := Path.isAbsolute_of_restart? hp
  rw [Path.isAbsolute, (h hp).root_eq] at habsolute
  exact absurd habsolute (by simpa [Path.isAbsolute] using hrelative)

theorem card_compiled_in_sourceDir :
    cardCompiler.sourceDir.Encloses (cardCompiler.sourcePathFor "app.admin/ui.Card") ∧
      ∃ r s', outcome (cardCompiler.compileIdentifier "app.Card") ⟨cardFiles, .empty, []⟩ =
          (.ok r, s') ∧
        cardCompiler.handles "app.Card" = true ∧
        cardCompiler.compiled? "app.Card" cardFiles (cardCompiler.sourcePathFor "app.Card") =
          some r := by
  have hencloses := (encloses_sourcePathFor_iff cardCompiler "app.admin/ui.Card").2.2.1 (by decide)
  refine ⟨hencloses.mpr (by decide), ?_⟩
  have hcode : (outcome (cardCompiler.compileIdentifier "app.Card")
      ⟨cardFiles, .empty, []⟩).1.toOption.map (·.codeSection) = some "pass" := by
    decide +kernel
  obtain ⟨r, s', h, -⟩ := exists_outcome_of_map hcode
  exact ⟨r, s', h, (encloses_sourcePathFor_iff cardCompiler "app.Card").2.2.2.1 _ _ _ h⟩

/-- A source that no compiler was given, and directories for the files of a component whose name has
slashes. -/
def outsideFiles : FileTree :=
  [["src"], ["etc"], ["out"], ["out", "app_"], ["out", "app_", "etc"]].foldl
    (fun t l ↦ t.set l (.directory FileTree.parentMode))
    ((FileTree.empty []).set ["etc", "Card.ice.py"]
      (.file (Utf8.encode "pass") FileTree.fileMode 0))

/-- A segment that starts with a slash makes a compiler read outside of its source directory. -/
theorem slash_leaves_sourceDir :
    cardCompiler.handles "app./etc/Card" = true ∧
    cardCompiler.sourcePathFor "app./etc/Card" = ⟨.slash, ["etc", "Card.ice.py"]⟩ ∧
    ¬ cardCompiler.sourceDir.Encloses (cardCompiler.sourcePathFor "app./etc/Card") ∧
    ∃ r s', outcome (cardCompiler.compileIdentifier "app./etc/Card") ⟨outsideFiles, .empty, []⟩ =
      (.ok r, s') ∧ r.codeSection = "pass" := by
  have hpath : cardCompiler.sourcePathFor "app./etc/Card" = ⟨.slash, ["etc", "Card.ice.py"]⟩ := by
    decide
  refine ⟨by decide, hpath, fun h ↦ ?_, ?_⟩
  · rw [hpath] at h
    exact absurd h.root_eq (by decide)
  · have hcode : (outcome (cardCompiler.compileIdentifier "app./etc/Card")
        ⟨outsideFiles, .empty, []⟩).1.toOption.map (·.codeSection) = some "pass" := by
      decide +kernel
    exact exists_outcome_of_map hcode

end Compiler

end IceCube
