import IceCube.Proofs.Compiler.Scanning
import IceCube.Proofs.FileTree.Shown
import IceCube.Proofs.Traversal

/-!
# What a source directory compiles to

The components of a source directory depend on what the directory shows under the names of sources
and scripts, and on nothing else.  So they are the same in all trees in which the directory shows the
same.
-/

namespace IceCube

namespace FileTree

variable {t u v : FileTree} {dir : Path} {O : Location → Prop}

/-- The names that matter in a source directory are those of sources and of the scripts beside
them. -/
def IsSourceName (n : String) : Prop :=
  ∃ base : String, n = base ++ Compiler.sourceSuffix ∨ n = base ++ Compiler.scriptSuffix

/-- A directory shows the same sources and scripts in two trees. -/
def SameSources (dir : Path) (t u : FileTree) : Prop :=
  ∀ n, IsSourceName n → u.shown (dir.child n) = t.shown (dir.child n)

theorem IsSourceName.ne_dots {n : String} (h : IsSourceName n) : n ≠ ".." := by
  rintro rfl
  obtain ⟨base, h | h⟩ := h
  · have hlast := congrArg (fun s : String ↦ s.toList.getLast?) h
    simp [Compiler.sourceSuffix] at hlast
  · have hlast := congrArg (fun s : String ↦ s.toList.getLast?) h
    simp [Compiler.scriptSuffix] at hlast

theorem SameSources.refl (dir : Path) (t : FileTree) : SameSources dir t t := fun _ _ ↦ rfl

theorem SameSources.symm (h : SameSources dir t u) : SameSources dir u t :=
  fun n hn ↦ (h n hn).symm

theorem SameSources.trans (h : SameSources dir t u) (h' : SameSources dir u v) :
    SameSources dir t v := fun n hn ↦ (h' n hn).trans (h n hn)

/-- A directory with the same nodes below it has the same sources. -/
theorem sameSources_of_below (hplace : u.place dir = t.place dir)
    (hdirectory : u.isDirectory dir = t.isDirectory dir)
    (hbelow : u.below (t.place dir) = t.below (t.place dir)) : SameSources dir t u := by
  intro n hn
  rw [shown, shown, node?_child hn.ne_dots, node?_child hn.ne_dots, hplace, hdirectory,
    at?_append _ _ (List.cons_ne_nil n []), at?_append _ _ (List.cons_ne_nil n []), hbelow]

/-- A directory whose sources are the same at both ends of a time in which trees grow has the same
sources all the time, if no file is written to in it. -/
theorem Grows.sameSources (h : Grows O t u) (h' : Grows O u v)
    (hO : ∀ n, ¬ O (t.place dir ++ [n])) (hsame : SameSources dir t v) : SameSources dir t u := by
  intro n hn
  refine h.shown_eq h' ?_ (hsame n hn)
  rw [t.place_child dir hn.ne_dots]
  exact hO n

/-- Files outside a directory have no part in what it shows. -/
theorem SameBut.sameSources (h : SameBut O t u) (hO : ∀ n, ¬ O (t.place dir ++ [n])) :
    SameSources dir t u := by
  intro n hn
  refine h.shown ?_
  rw [t.place_child dir hn.ne_dots]
  exact hO n

end FileTree

namespace Compiler

variable {c : Compiler} {t u : FileTree} {dir : Path} {base : String}

/-! ## The names of sources -/

theorem mem_sourceNames_iff_shown :
    base ∈ sourceNames t dir ↔ t.shown (dir.child (base ++ sourceSuffix)) ≠ none := by
  have hdots : base ++ sourceSuffix ≠ ".." := FileTree.IsSourceName.ne_dots ⟨base, .inl rfl⟩
  rw [mem_sourceNames, FileTree.shown_child_ne_none_iff hdots]

/-- Sources are listed in the order of the names of their files. -/
theorem pairwise_sourceNames (t : FileTree) (dir : Path) :
    (sourceNames t dir).Pairwise fun a b ↦ a ++ sourceSuffix ≤ b ++ sourceSuffix := by
  have hnames (l : Location) : (t.names l).Pairwise (· ≤ ·) := by
    have hsorted := @List.pairwise_mergeSort String (fun a b ↦ decide (a ≤ b))
      (fun a b c hab hbc ↦ by simpa using String.le_trans (by simpa using hab) (by simpa using hbc))
      (fun a b ↦ by simpa using String.le_total a b)
    exact (hsorted _).imp of_decide_eq_true
  unfold sourceNames
  split
  · cases t.locate dir with
    | error f => exact .nil
    | ok l =>
      refine (hnames l).filterMap _ fun n n' hle base hbase base' hbase' ↦ ?_
      rwa [← baseName?_eq_some_iff.mp hbase, ← baseName?_eq_some_iff.mp hbase']
  · exact .nil

theorem append_sourceSuffix_injective : Function.Injective (· ++ sourceSuffix) := by
  intro a b h
  have hlist := congrArg String.toList h
  simp only [String.toList_append] at hlist
  exact String.toList_injective (List.append_cancel_right hlist)

/-- A directory that shows the same sources has the same list of them. -/
theorem sourceNames_eq (ht : t.Sound) (hu : u.Sound) (h : FileTree.SameSources dir t u) :
    sourceNames u dir = sourceNames t dir := by
  refine ((List.perm_ext_iff_of_nodup (nodup_sourceNames hu dir)
    (nodup_sourceNames ht dir)).mpr fun base ↦ ?_).eq_of_pairwise
      (fun a b _ _ hab hba ↦ append_sourceSuffix_injective (String.le_antisymm hab hba))
      (pairwise_sourceNames u dir) (pairwise_sourceNames t dir)
  rw [mem_sourceNames_iff_shown, mem_sourceNames_iff_shown, h _ ⟨base, .inl rfl⟩]

/-! ## Compiled sources -/

/-- Where a source and the script beside it are. -/
theorem sourceOf_eq (ht : t.Sound) (hbase : base ∈ sourceNames t c.sourceDir) :
    c.sourceOf base = c.sourceDir.child (base ++ sourceSuffix) ∧
      scriptPathFor (c.sourceOf base) = c.sourceDir.child (base ++ scriptSuffix) := by
  obtain ⟨-, hnode⟩ := mem_sourceNames.mp hbase
  have hname : Path.IsName (base ++ sourceSuffix) := ht.names _ hnode _ (by simp)
  have hsource : c.sourceOf base = c.sourceDir.child (base ++ sourceSuffix) :=
    Path.joinText_name hname _
  refine ⟨hsource, ?_⟩
  have hbaseName : baseName? (base ++ sourceSuffix) = some base := baseName?_eq_some_iff.mpr rfl
  rw [hsource]
  simp [scriptPathFor, Path.name, Path.withName, Path.child, hbaseName]

/-- What a source compiles to depends on what is shown for it and for the script beside it. -/
theorem compiled?_of_shown {source : Path} (hsource : u.shown source = t.shown source)
    (hscript : u.shown (scriptPathFor source) = t.shown (scriptPathFor source)) (i : String) :
    c.compiled? i u source = c.compiled? i t source := by
  unfold compiled? script?
  rw [FileTree.toOption_read, FileTree.toOption_read, FileTree.toOption_read,
    FileTree.toOption_read, hsource, hscript]

theorem compiled?_eq (ht : t.Sound) (hbase : base ∈ sourceNames t c.sourceDir)
    (h : FileTree.SameSources c.sourceDir t u) (i : String) :
    c.compiled? i u (c.sourceOf base) = c.compiled? i t (c.sourceOf base) := by
  obtain ⟨hsource, hscript⟩ := sourceOf_eq (c := c) ht hbase
  refine compiled?_of_shown ?_ ?_ i
  · rw [hsource]
    exact h _ ⟨base, .inl rfl⟩
  · rw [hscript]
    exact h _ ⟨base, .inr rfl⟩

/-- What all sources of a directory compile to, if they all do. -/
def found (c : Compiler) (t : FileTree) : Option (List CompiledComponent) :=
  (sourceNames t c.sourceDir).mapM fun base ↦ c.compiled? (c.identifierOf base) t (c.sourceOf base)

theorem found_eq_some_iff {rs : List CompiledComponent} :
    c.found t = some rs ↔ List.Forall₂ (fun base r ↦
      c.compiled? (c.identifierOf base) t (c.sourceOf base) = some r)
        (sourceNames t c.sourceDir) rs := mapM_eq_some_iff

/-- Components that are found are those of the sources. -/
theorem identifiers_of_found {rs : List CompiledComponent} (h : c.found t = some rs) :
    rs.map (·.identifier) = (sourceNames t c.sourceDir).map c.identifierOf :=
  identifiers_of_forall₂ (found_eq_some_iff.mp h) fun _ _ hr ↦
    (describes_of_compiled? hr).identifier

theorem describes_of_found {rs : List CompiledComponent} (h : c.found t = some rs) :
    ∀ r ∈ rs, c.Describes r.identifier r := by
  rw [found_eq_some_iff] at h
  generalize sourceNames t c.sourceDir = bases at h
  induction h with
  | nil => simp
  | cons hr _ ih =>
    have hdescribes := describes_of_compiled? hr
    refine List.forall_mem_cons.mpr ⟨?_, ih⟩
    rwa [hdescribes.identifier]

/-- A directory that shows the same sources compiles to the same components. -/
theorem found_of_sameSources (ht : t.Sound) (hu : u.Sound)
    (h : FileTree.SameSources c.sourceDir t u) {rs : List CompiledComponent}
    (hfound : c.found t = some rs) : c.found u = some rs := by
  rw [found_eq_some_iff] at hfound ⊢
  rw [sourceNames_eq ht hu h]
  refine ((List.forall₂_and_left _ _).mpr ⟨fun _ ↦ id, hfound⟩).imp fun base r ⟨hbase, hr⟩ ↦ ?_
  rw [compiled?_eq ht hbase h, hr]

/-- A scan of a directory whose sources stay the same compiles what is found there. -/
theorem Scanned.found {rs : List CompiledComponent} {r : Registry} (h : c.Scanned rs t u r)
    (ht : t.Sound) (hO : ∀ n, ¬ c.Covers rs t (t.place c.sourceDir ++ [n]))
    (hsame : FileTree.SameSources c.sourceDir t u) : c.found t = some rs := by
  obtain ⟨m, hm, hm', hall⟩ := h.sources
  have hnames := sourceNames_eq ht (hm.sound ht) (hm.sameSources hm' hO hsame)
  rw [hnames] at hall
  rw [found_eq_some_iff]
  refine ((List.forall₂_and_left _ _).mpr ⟨fun _ ↦ id, hall⟩).imp ?_
  rintro base r ⟨hbase, v, hv, hv', hr⟩
  rw [← hr, compiled?_eq ht hbase (hv.sameSources hv' hO hsame)]

end Compiler

end IceCube
