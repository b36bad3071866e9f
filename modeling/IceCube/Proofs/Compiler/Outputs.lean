import Mathlib.Data.List.Infix
import Mathlib.Data.List.Sort
import IceCube.Proofs.Compiler.Compiling

/-!
# Where components come from and where their files go

The sources of a directory are the nodes in it whose names have the right end.  The files of a
component are named after it, so components of different names have different files, and the record
of a component leads to its files again.
-/

namespace IceCube

open Step

/-! ## Component names -/

namespace Identifier

theorem flatten_eq_empty_iff {i : String} : flatten i = "" ↔ i = "" := by
  constructor
  · intro h
    have hlist := congrArg String.toList h
    refine String.toList_injective ?_
    simpa [flatten] using hlist
  · rintro rfl
    rfl

theorem slash_mem_flatten_iff {i : String} : '/' ∈ (flatten i).toList ↔ '/' ∈ i.toList := by
  rw [flatten, String.toList_ofList, List.mem_map]
  constructor
  · rintro ⟨c, hc, h⟩
    split at h
    · exact absurd h (by decide)
    · rwa [← h]
  · intro h
    exact ⟨'/', h, by decide⟩

theorem dot_not_mem_flatten (i : String) : '.' ∉ (flatten i).toList := by
  rw [flatten, String.toList_ofList, List.mem_map]
  rintro ⟨c, -, h⟩
  split at h
  · exact absurd h (by decide)
  · rename_i hc
    exact hc (by simp [h, separator])

/-- The name of a component is the name of a file if its identifier has no slash. -/
theorem isName_flatten {i : String} (hi : i ≠ "") (hslash : '/' ∉ i.toList) :
    Path.IsName (flatten i) := by
  refine ⟨fun h ↦ hi (flatten_eq_empty_iff.mp h), fun h ↦ ?_,
    fun h ↦ hslash (slash_mem_flatten_iff.mp h)⟩
  have hdot := dot_not_mem_flatten i
  rw [h] at hdot
  exact hdot (by decide)

theorem toList_flatten_append (a b : String) :
    (flatten (a ++ b)).toList = (flatten a).toList ++ (flatten b).toList := by
  simp only [flatten, String.toList_ofList, String.toList_append, List.map_append]

theorem flatten_eq_self {name : String} (h : '.' ∉ name.toList) : flatten name = name := by
  have hchars : name.toList.map (fun c ↦ if c == separator then '_' else c) = name.toList := by
    refine (List.map_congr_left fun c hc ↦ ?_).trans (List.map_id _)
    rw [if_neg]
    · rfl
    · rw [beq_iff_eq]
      rintro rfl
      exact h hc
  rw [flatten, hchars, String.ofList_toList]

theorem flatten_below (start name : String) :
    (flatten (below start name)).toList =
      (flatten start ++ "_").toList ++ (flatten name).toList := by
  have hdot : flatten "." = "_" := by decide
  rw [below, toList_flatten_append, toList_flatten_append, hdot, String.toList_append]

/-- What follows a prefix and its dot is what is below the prefix. -/
theorem after?_isSome_iff {start identifier : String} :
    (after? start identifier).isSome = true ↔ ∃ name, identifier = below start name := by
  have hpieces (name : String) :
      (below start name).toList = (start.toList ++ [separator]) ++ name.toList := by
    rw [below, String.toList_append, String.toList_append]
    rfl
  unfold after?
  dsimp only
  split
  · rename_i hsegments
    obtain ⟨rest, hrest⟩ := List.isPrefixOf_iff_prefix.mp hsegments
    refine iff_of_true rfl ⟨String.ofList rest, String.toList_injective ?_⟩
    rw [hpieces, String.toList_ofList, hrest]
  · rename_i hsegments
    refine iff_of_false (by simp) ?_
    rintro ⟨name, rfl⟩
    exact hsegments (List.isPrefixOf_iff_prefix.mpr ⟨name.toList, (hpieces name).symm⟩)

/-- An identifier whose component name has no underscores is that name. -/
theorem eq_of_flatten_eq {i name : String} (h : flatten i = name) (hname : '_' ∉ name.toList) :
    i = name := by
  rw [← h]
  refine (flatten_eq_self fun hdot ↦ hname ?_).symm
  rw [← h, flatten, String.toList_ofList]
  exact List.mem_map.mpr ⟨'.', hdot, rfl⟩

end Identifier

namespace Compiler

variable {c : Compiler}

/-! ## Files of components -/

/-- What the names of the files of a component end in. -/
def suffixes : List String := [".py", ".js", ".css"]

/-- An end has no slash and is longer than any part of a path that stands for a directory. -/
theorem long_of_mem_suffixes {suffix : String} (hs : suffix ∈ suffixes) :
    '/' ∉ suffix.toList ∧ 2 < suffix.toList.length := by
  simp only [suffixes, List.mem_cons, List.not_mem_nil, or_false] at hs
  rcases hs with rfl | rfl | rfl <;> decide

theorem append_suffix_ne (name : String) {suffix t : String} (hs : suffix ∈ suffixes)
    (ht : t.toList.length ≤ 2) : name ++ suffix ≠ t := by
  rintro rfl
  have hlong := (long_of_mem_suffixes hs).2
  rw [String.toList_append, List.length_append] at ht
  omega

theorem isName_append {name suffix : String} (h : Path.IsName name) (hs : suffix ∈ suffixes) :
    Path.IsName (name ++ suffix) ∧ name ++ suffix ≠ ".." := by
  refine ⟨⟨append_suffix_ne name hs (by decide), append_suffix_ne name hs (by decide), ?_⟩,
    append_suffix_ne name hs (by decide)⟩
  rw [String.toList_append, List.mem_append, not_or]
  exact ⟨h.2.2, (long_of_mem_suffixes hs).1⟩

/-- Name and end of a file can be told apart. -/
theorem append_suffix_inj {a b s t : String} (hs : s ∈ suffixes) (ht : t ∈ suffixes)
    (h : a ++ s = b ++ t) : a = b ∧ s = t := by
  have hlist := congrArg (fun x : String ↦ x.toList.reverse) h
  simp only [String.toList_append, List.reverse_append] at hlist
  have hst : s = t := by
    simp only [suffixes, List.mem_cons, List.not_mem_nil, or_false] at hs ht
    rcases hs with rfl | rfl | rfl <;> rcases ht with rfl | rfl | rfl <;> simp at hlist ⊢
  subst hst
  refine ⟨String.toList_injective ?_, rfl⟩
  exact List.reverse_injective (List.append_cancel_left hlist)

theorem outputs_of_isName {name : String} (h : Path.IsName name) :
    c.outputs name = ⟨c.codeDir.child (name ++ ".py"), c.assetsDir.child name,
      c.assetsDir.child (name ++ ".js"), c.assetsDir.child (name ++ ".css")⟩ := by
  have hname (s : String) (hs : s ∈ suffixes) (p : Path) :
      p.joinText (name ++ s) = p.child (name ++ s) := Path.joinText_name (isName_append h hs).1 p
  rw [outputs, scriptSuffix, hname ".py" (by decide), hname ".js" (by decide),
    hname ".css" (by decide), Path.joinText_name h]

theorem places_of_isName {name : String} (h : Path.IsName name) (t : FileTree) :
    (c.outputs name).places t = [t.place c.codeDir ++ [name ++ ".py"],
      t.place c.assetsDir ++ [name ++ ".js"], t.place c.assetsDir ++ [name ++ ".css"]] := by
  have hplace (s : String) (hs : s ∈ suffixes) (p : Path) :
      t.place (p.child (name ++ s)) = t.place p ++ [name ++ s] :=
    t.place_child p (isName_append h hs).2
  rw [outputs_of_isName h]
  simp only [Outputs.places, Outputs.paths, List.map_cons, List.map_nil, hplace ".py" (by decide),
    hplace ".js" (by decide), hplace ".css" (by decide)]

/-- The last part of the place of a file is its name. -/
theorem exists_of_mem_places {name : String} (h : Path.IsName name) {t : FileTree} {l : Location}
    (hl : l ∈ (c.outputs name).places t) :
    ∃ s ∈ suffixes, (l = t.place c.codeDir ++ [name ++ s] ∨ l = t.place c.assetsDir ++ [name ++ s]) ∧
      l.getLast? = some (name ++ s) := by
  rw [places_of_isName h] at hl
  simp only [List.mem_cons, List.not_mem_nil, or_false] at hl
  rcases hl with rfl | rfl | rfl
  · exact ⟨".py", by decide, .inl rfl, by simp⟩
  · exact ⟨".js", by decide, .inr rfl, by simp⟩
  · exact ⟨".css", by decide, .inr rfl, by simp⟩

/-- Whatever the names of some components start with, their files differ in the ends of their
names. -/
theorem exists_places (c : Compiler) (start : String) : ∃ (dir : Path) (last : String),
    ('.' ∈ last.toList → '.' ∈ start.toList) ∧
    ∀ name : String, '/' ∉ name.toList → ∀ t : FileTree, (c.outputs (start ++ name)).places t =
      [t.place (c.codeDir.join dir) ++ [last ++ (name ++ ".py")],
        t.place (c.assetsDir.join dir) ++ [last ++ (name ++ ".js")],
        t.place (c.assetsDir.join dir) ++ [last ++ (name ++ ".css")]] := by
  obtain ⟨dir, last, hpieces, happend⟩ := Path.exists_joinText_append start
  refine ⟨dir, last, Path.mem_of_mem_splitOn (hpieces last (by simp)), fun name hname t ↦ ?_⟩
  have hplace (s : String) (hs : s ∈ suffixes) (p : Path) :
      t.place (p.joinText (start ++ name ++ s)) = t.place (p.join dir) ++ [last ++ (name ++ s)] := by
    obtain ⟨hslash, hlong⟩ := long_of_mem_suffixes hs
    rw [String.append_assoc, happend p (name ++ s) (by simp [hname, hslash])
      (by rw [String.toList_append, List.length_append]; omega)]
    refine t.place_child _ ?_
    rw [← String.append_assoc]
    exact append_suffix_ne _ hs (by decide)
  simp only [Outputs.places, Outputs.paths, outputs, scriptSuffix, List.map_cons, List.map_nil,
    hplace ".py" (by decide), hplace ".js" (by decide), hplace ".css" (by decide)]

/-- What the places of the files of some components end in. -/
theorem exists_getLast?_places (c : Compiler) (start : String) : ∃ last : String,
    ('.' ∈ last.toList → '.' ∈ start.toList) ∧
    ∀ name : String, '/' ∉ name.toList → ∀ (t : FileTree) (l : Location),
      l ∈ (c.outputs (start ++ name)).places t →
        ∃ s ∈ suffixes, l.getLast? = some (last ++ (name ++ s)) := by
  obtain ⟨dir, last, hdot, hplaces⟩ := exists_places c start
  refine ⟨last, hdot, fun name hname t l hl ↦ ?_⟩
  rw [hplaces name hname] at hl
  simp only [List.mem_cons, List.not_mem_nil, or_false] at hl
  rcases hl with rfl | rfl | rfl
  · exact ⟨".py", by decide, by simp⟩
  · exact ⟨".js", by decide, by simp⟩
  · exact ⟨".css", by decide, by simp⟩

/-- No compiled file is put where a source is: the name of a source has dots before its end, and the
name of a component has none. -/
theorem source_not_mem_places {name : String} (hname : '.' ∉ name.toList) (t : FileTree)
    (l : Location) (base : String) : l ++ [base ++ sourceSuffix] ∉ (c.outputs name).places t := by
  intro hl
  obtain ⟨last, hdot, hends⟩ := exists_getLast?_places c name
  rw [← String.append_empty (s := name)] at hl
  obtain ⟨suffix, hsuffix, hlast⟩ := hends "" (by decide) t _ hl
  have hsource : base ++ sourceSuffix = base ++ ".ice" ++ ".py" := by
    rw [String.append_assoc]
    rfl
  rw [List.getLast?_concat, Option.some.injEq, String.empty_append, hsource] at hlast
  obtain ⟨rfl, -⟩ := append_suffix_inj (by decide) hsuffix hlast
  exact hname (hdot (by simp))

/-- The files of a component are three. -/
theorem nodup_places (c : Compiler) (name : String) (t : FileTree) :
    ((c.outputs name).places t).Nodup := by
  have hne {last : String} {l m : Location} {s s' : String} (hs : s ∈ suffixes)
      (hs' : s' ∈ suffixes) (hss : s ≠ s') :
      l ++ [last ++ ("" ++ s)] ≠ m ++ [last ++ ("" ++ s')] := by
    intro heq
    have hlast := congrArg List.getLast? heq
    simp only [List.getLast?_append, List.getLast?_singleton, Option.some_or, Option.some.injEq,
      String.empty_append] at hlast
    exact hss (append_suffix_inj hs hs' hlast).2
  obtain ⟨dir, last, -, hplaces⟩ := exists_places c name
  have hall := hplaces "" (by decide) t
  rw [String.append_empty] at hall
  rw [hall]
  simp only [List.nodup_cons, List.mem_cons, List.not_mem_nil, or_false, not_or, List.nodup_nil,
    and_true, not_false_eq_true]
  exact ⟨⟨hne (by decide) (by decide) (by decide), hne (by decide) (by decide) (by decide)⟩,
    hne (by decide) (by decide) (by decide)⟩

/-- What has been compiled is in the files. -/
theorem hold_of_compile (hcode : c.codeDir.Proper) (hassets : c.assetsDir.Proper) {i : String}
    {source : Path} {s s' : Workspace} {r : CompiledComponent}
    (h : outcome (c.compile i source) s = (.ok r, s')) :
    (c.outputs r.componentName).Hold r s'.files := by
  rcases outcome_compile hcode hassets h with
    ⟨⟨_, ⟨⟩⟩, -⟩ | ⟨_, _, -, -, -, -, ⟨⟨_, ⟨⟩⟩, -⟩ | ⟨⟨⟩, -, hhold⟩⟩
  exact hhold (nodup_places c _ _)

/-- Components whose names start alike and go on differently, without a slash, have different
files. -/
theorem not_mem_places_append {start a b : String} (ha : '/' ∉ a.toList) (hb : '/' ∉ b.toList)
    (hab : a ≠ b) {t : FileTree} {l : Location} (hl : l ∈ (c.outputs (start ++ a)).places t) :
    l ∉ (c.outputs (start ++ b)).places t := by
  intro hl'
  obtain ⟨last, -, hends⟩ := exists_getLast?_places c start
  obtain ⟨s, hs, hlast⟩ := hends a ha t l hl
  obtain ⟨s', hs', hlast'⟩ := hends b hb t l hl'
  rw [hlast, Option.some.injEq, ← String.append_assoc, ← String.append_assoc] at hlast'
  have hnames := congrArg String.toList (append_suffix_inj hs hs' hlast').1
  rw [String.toList_append, String.toList_append] at hnames
  exact hab (String.toList_injective (List.append_cancel_left hnames))

/-- Components of different names have different files. -/
theorem not_mem_places {a b : String} (ha : Path.IsName a) (hb : Path.IsName b) (hab : a ≠ b)
    {t : FileTree} {l : Location} (hl : l ∈ (c.outputs a).places t) :
    l ∉ (c.outputs b).places t := by
  rw [← String.empty_append (s := b)]
  rw [← String.empty_append (s := a)] at hl
  exact not_mem_places_append ha.2.2 hb.2.2 hab hl

end Compiler

/-- The files at the places that a record names hold the texts of the record. -/
structure CompiledComponent.OnDisk (r : CompiledComponent) (t : FileTree) : Prop where
  code : t.read (.ofText r.compiledCodePath) = .ok (Utf8.encode r.codeSection)
  script : t.read (.ofText (r.compiledAssetsBasePath ++ ".js")) =
    .ok (Utf8.encode r.compiledScript)
  style : ∃ style, r.compiledStyle = some style ∧
    t.read (.ofText (r.compiledAssetsBasePath ++ ".css")) = .ok (Utf8.encode style)

namespace Compiler

variable {c : Compiler}

/-- The record of a component leads to its files. -/
theorem onDisk_iff (hcode : c.codeDir.Proper) (hassets : c.assetsDir.Proper) {i : String}
    {r : CompiledComponent} (hr : c.Describes i r) (hslash : '/' ∉ i.toList) {t : FileTree} :
    r.OnDisk t ↔ (c.outputs r.componentName).Hold r t := by
  have hname := Identifier.isName_flatten hr.nonempty hslash
  obtain ⟨style, hstyle⟩ := hr.style
  have hpath (p : Path) (hp : p.Proper) (s : String) (hs : s ∈ suffixes) :
      Path.ofText (p.child (Identifier.flatten i ++ s)).text = p.child (Identifier.flatten i ++ s) :=
    (hp.child (isName_append hname hs).1).ofText_text
  have houtputs := outputs_of_isName (c := c) hname
  have hcodePath : Path.ofText r.compiledCodePath = (c.outputs r.componentName).code := by
    rw [hr.codePath, hr.componentName, houtputs, hpath _ hcode ".py" (by decide)]
  have hscriptPath : Path.ofText (r.compiledAssetsBasePath ++ ".js") =
      (c.outputs r.componentName).script := by
    rw [hr.assetsBasePath, hr.componentName, houtputs, Path.text_child_append,
      hpath _ hassets ".js" (by decide)]
  have hstylePath : Path.ofText (r.compiledAssetsBasePath ++ ".css") =
      (c.outputs r.componentName).style := by
    rw [hr.assetsBasePath, hr.componentName, houtputs, Path.text_child_append,
      hpath _ hassets ".css" (by decide)]
  constructor
  · rintro ⟨hcode, hscript, style', hstyle', hread⟩
    refine ⟨by rwa [← hcodePath], by rwa [← hscriptPath], ?_⟩
    rw [← hstylePath, hstyle']
    exact hread
  · rintro ⟨hcode, hscript, hread⟩
    rw [hstyle] at hread
    exact ⟨by rwa [hcodePath], by rwa [hscriptPath], style, hstyle, by rwa [hstylePath]⟩

/-! ## Sources -/

theorem baseName?_eq_some_iff {n base : String} :
    baseName? n = some base ↔ n = base ++ sourceSuffix := by
  unfold baseName?
  simp only [Option.ite_none_right_eq_some, Option.some.injEq, List.isSuffixOf_iff_suffix]
  constructor
  · rintro ⟨⟨cs, hcs⟩, rfl⟩
    refine String.toList_injective ?_
    rw [String.toList_append, String.toList_ofList, ← hcs]
    simp
  · rintro rfl
    refine ⟨⟨base.toList, by rw [String.toList_append]⟩, String.toList_injective ?_⟩
    rw [String.toList_ofList, String.toList_append]
    simp

end Compiler

namespace FileTree

variable {t : FileTree} {l : Location}

/-- The names in a directory are those of the nodes in it. -/
theorem mem_names {n : String} : n ∈ t.names l ↔ t.at? (l ++ [n]) ≠ none := by
  rw [names, List.mem_mergeSort, List.mem_filterMap, at?_ne_none_iff]
  constructor
  · rintro ⟨⟨m, node⟩, hm, h⟩
    simp only [Option.ite_none_right_eq_some, Bool.and_eq_true, beq_iff_eq] at h
    obtain ⟨⟨-, rfl⟩, hlast⟩ := h
    obtain ⟨ns, rfl⟩ := List.getLast?_eq_some_iff.mp hlast
    exact ⟨node, by rwa [List.dropLast_concat]⟩
  · rintro ⟨node, hm⟩
    exact ⟨_, hm, by simp⟩

/-- The names of a directory can be sorted by insertion as well, which evaluates. -/
theorem names_eq_insertionSort (t : FileTree) (l : Location) :
    t.names l = List.insertionSort (· ≤ ·) (t.nodes.filterMap fun e ↦
      if !e.1.isEmpty && e.1.dropLast == l then e.1.getLast? else none) := by
  have : IsTrans String (· ≤ ·) := ⟨fun _ _ _ ↦ String.le_trans⟩
  have : Std.Total (α := String) (· ≤ ·) := ⟨String.le_total⟩
  have : Std.Antisymm (α := String) (· ≤ ·) := ⟨fun _ _ ↦ String.le_antisymm⟩
  exact List.mergeSort_eq_insertionSort ..

end FileTree

namespace Compiler

/-- The sources of a directory are the nodes in it with the right end of their names. -/
theorem mem_sourceNames {t : FileTree} {dir : Path} {base : String} :
    base ∈ sourceNames t dir ↔ t.isDirectory dir = true ∧
      t.at? (t.place dir ++ [base ++ sourceSuffix]) ≠ none := by
  unfold sourceNames
  split
  · rename_i hd
    obtain ⟨hl, -⟩ := FileTree.isDirectory_iff.mp hd
    rw [hl]
    simp only [List.mem_filterMap, FileTree.mem_names, baseName?_eq_some_iff]
    constructor
    · rintro ⟨n, hn, rfl⟩
      exact ⟨hd, hn⟩
    · rintro ⟨-, hn⟩
      exact ⟨_, hn, rfl⟩
  · rename_i hd
    simp [hd]

/-- No source is taken away. -/
theorem mem_sourceNames_of_grows {O : Location → Prop} {t u : FileTree}
    (h : FileTree.Grows O t u) {dir : Path} {base : String} (hbase : base ∈ sourceNames t dir) :
    base ∈ sourceNames u dir := by
  obtain ⟨hdir, hnode⟩ := mem_sourceNames.mp hbase
  refine mem_sourceNames.mpr ⟨h.isDirectory hdir, ?_⟩
  rw [h.place]
  exact h.ne_none hnode

/-- The names of sources have no slash. -/
theorem slash_not_mem_sourceNames {t : FileTree} (ht : t.Sound) {dir : Path} {base : String}
    (h : base ∈ sourceNames t dir) : '/' ∉ base.toList := by
  obtain ⟨-, hn⟩ := mem_sourceNames.mp h
  have hname := ht.names _ hn (base ++ sourceSuffix) (by simp)
  intro hslash
  exact hname.2.2 (by rw [String.toList_append]; exact List.mem_append_left _ hslash)

/-- Nor have their identifiers. -/
theorem slash_not_mem_identifierOf {c : Compiler} {base : String} (hns : '/' ∉ c.namespacePrefix.toList)
    (hbase : '/' ∉ base.toList) : '/' ∉ (c.identifierOf base).toList := by
  simpa [identifierOf, Identifier.below, hns] using hbase

theorem identifierOf_ne_empty (c : Compiler) (base : String) : c.identifierOf base ≠ "" := by
  intro h
  have hlist := congrArg String.toList h
  simp [identifierOf, Identifier.below] at hlist

end Compiler

end IceCube
