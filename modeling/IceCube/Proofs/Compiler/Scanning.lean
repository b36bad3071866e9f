import IceCube.Proofs.Compiler.Artifacts
import IceCube.Proofs.Registry.Entries
import IceCube.Proofs.Registry.History
import IceCube.Proofs.Registry.Stored

/-!
# What scanning does

A scan compiles the sources of a directory one after the other.  If it ends well, every source has
compiled to a record on the files as they were when its turn came, the records are registered in
their order, and all their files are there at the end.
-/

namespace IceCube

open Step

namespace Compiler

variable {c : Compiler} {i : String} {source : Path} {s s' : Workspace}

/-- A compiled component as an entry of a registry. -/
def entry (r : CompiledComponent) : String × Record := (r.identifier, .compiled r)

/-- Where the files of any of some components go. -/
def Covers (c : Compiler) (rs : List CompiledComponent) (t : FileTree) (l : Location) : Prop :=
  ∃ r ∈ rs, l ∈ (c.outputs r.componentName).places t

theorem covers_of_grows {O : Location → Prop} {t u : FileTree} (h : FileTree.Grows O t u)
    (rs : List CompiledComponent) (l : Location) : c.Covers rs u l ↔ c.Covers rs t l := by
  simp only [Covers, Outputs.places_of_grows h]

/-! ## One source -/

/-- A compilation that ends well registers what the source compiles to. -/
theorem outcome_compile_eq_ok (hcode : c.codeDir.Proper) (hassets : c.assetsDir.Proper)
    {r : CompiledComponent} (h : outcome (c.compile i source) s = (.ok r, s')) :
    c.compiled? i s.files source = some r ∧
      s.registry.register i (.compiled r) = .ok s'.registry ∧
      FileTree.Grows (c.Covers [r] s.files) s.files s'.files ∧
      s'.files.isDirectory c.codeDir = true ∧ s'.files.isDirectory c.assetsDir = true := by
  rcases outcome_compile hcode hassets h with
    ⟨⟨e, he⟩, -⟩ | ⟨r', t, hr, hregister, hensure, hrewrites, hend⟩
  · cases he
  rcases hend with ⟨⟨f, hf⟩, -⟩ | ⟨hok, hregistry, -⟩
  · cases hf
  cases hok
  obtain ⟨-, -, ⟨hgrows, -⟩, hdirectories⟩ := outcome_ensureOutputs hcode hassets hensure
  obtain ⟨hcodeDir, hassetsDir⟩ := hdirectories rfl
  have hcovers := (hgrows.mono fun _ ↦ False.elim).trans hrewrites.toGrows
  refine ⟨hr, by rw [hregistry]; exact hregister, hcovers.mono fun l hl ↦ ⟨r, by simp, hl⟩,
    hrewrites.toGrows.isDirectory hcodeDir, hrewrites.toGrows.isDirectory hassetsDir⟩

/-! ## Many sources -/

/-- The source of a name in the source directory. -/
def sourceOf (c : Compiler) (base : String) : Path := c.sourceDir.joinText (base ++ sourceSuffix)

/-- Sources are compiled one after the other. -/
def compileSources (c : Compiler) (bases : List String) : Build (List CompiledComponent) :=
  bases.mapM fun base ↦ c.compile (c.identifierOf base) (c.sourceOf base)

/-- What holds of all sources that are compiled in a run.  Each is compiled on files between those at
the start and those at the end. -/
theorem outcome_compileSources_eq_ok (hcode : c.codeDir.Proper) (hassets : c.assetsDir.Proper)
    {bases : List String} {rs : List CompiledComponent}
    (h : outcome (c.compileSources bases) s = (.ok rs, s')) :
    s.registry.registerEach (rs.map entry) = .ok s'.registry ∧
      FileTree.Grows (c.Covers rs s.files) s.files s'.files ∧
      List.Forall₂ (fun base r ↦ ∃ t, FileTree.Grows (c.Covers rs s.files) s.files t ∧
        FileTree.Grows (c.Covers rs s.files) t s'.files ∧
        c.compiled? (c.identifierOf base) t (c.sourceOf base) = some r) bases rs := by
  induction bases generalizing s rs with
  | nil =>
    cases h
    exact ⟨rfl, .refl _ _, .nil⟩
  | cons base bases ih =>
    rw [compileSources, List.mapM_cons] at h
    obtain ⟨r, t, hr, h⟩ := outcome_bind_eq_ok.mp h
    obtain ⟨rs, u, hrs, h⟩ := outcome_bind_eq_ok.mp h
    cases h
    obtain ⟨hcompiled, hregister, hgrows, -⟩ := outcome_compile_eq_ok hcode hassets hr
    obtain ⟨hregisters, hgrows', hall⟩ := ih hrs
    have hfirst : FileTree.Grows (c.Covers (r :: rs) s.files) s.files t.files :=
      hgrows.mono fun l ⟨r', hr', hl⟩ ↦ ⟨r', by simpa using Or.inl (List.mem_singleton.mp hr'), hl⟩
    have hcovers : ∀ l, c.Covers rs t.files l → c.Covers (r :: rs) s.files l := by
      intro l hl
      obtain ⟨r', hr', hl⟩ := (covers_of_grows hgrows rs l).mp hl
      exact ⟨r', List.mem_cons_of_mem _ hr', hl⟩
    have hrest := hgrows'.mono hcovers
    refine ⟨?_, hfirst.trans hrest, .cons ⟨s.files, .refl _ _, hfirst.trans hrest, hcompiled⟩
      (hall.imp fun base r ⟨x, hx, hx', hr⟩ ↦
        ⟨x, hfirst.trans (hx.mono hcovers), hx'.mono hcovers, hr⟩)⟩
    have hidentifier : r.identifier = c.identifierOf base :=
      (describes_of_compiled? hcompiled).identifier
    rw [List.map_cons, Registry.registerEach_cons, entry, hidentifier, hregister]
    exact hregisters

/-- A scan that ends well makes the directories, and then compiles the sources that are there. -/
theorem exists_compileSources_of_scan (hcode : c.codeDir.Proper) (hassets : c.assetsDir.Proper)
    {rs : List CompiledComponent} (h : outcome c.scan s = (.ok rs, s')) :
    ∃ t u, t.registry = s.registry ∧ FileTree.Grows (fun _ ↦ False) s.files t.files ∧
      t.files.isDirectory c.codeDir = true ∧ t.files.isDirectory c.assetsDir = true ∧
      outcome (c.compileSources (sourceNames t.files c.sourceDir)) t = (.ok rs, u) ∧
      s' = { u with log := u.log ++ [.scanCompleted rs.length] } := by
  rw [scan] at h
  obtain ⟨_, t, hensure, h⟩ := outcome_bind_eq_ok.mp h
  rw [outcome_get_bind] at h
  obtain ⟨rs', u, hcompiled, h⟩ := outcome_bind_eq_ok.mp h
  cases h
  obtain ⟨hregistry, -, ⟨hgrows, -⟩, hdirectories⟩ := outcome_ensureOutputs hcode hassets hensure
  obtain ⟨hcodeDir, hassetsDir⟩ := hdirectories rfl
  exact ⟨t, u, hregistry, hgrows, hcodeDir, hassetsDir, hcompiled, rfl⟩

/-- What holds of a scan that ends well: the sources that are there when it begins are compiled, and
their records registered in this order. -/
theorem outcome_scan_eq_ok (hcode : c.codeDir.Proper) (hassets : c.assetsDir.Proper)
    {rs : List CompiledComponent} (h : outcome c.scan s = (.ok rs, s')) :
    s.registry.registerEach (rs.map entry) = .ok s'.registry ∧
      FileTree.Grows (c.Covers rs s.files) s.files s'.files ∧
      s'.files.isDirectory c.codeDir = true ∧ s'.files.isDirectory c.assetsDir = true ∧
      ∃ t, FileTree.Grows (c.Covers rs s.files) s.files t ∧
        FileTree.Grows (c.Covers rs s.files) t s'.files ∧
        List.Forall₂ (fun base r ↦ ∃ u, FileTree.Grows (c.Covers rs s.files) s.files u ∧
          FileTree.Grows (c.Covers rs s.files) u s'.files ∧
          c.compiled? (c.identifierOf base) u (c.sourceOf base) = some r)
          (sourceNames t c.sourceDir) rs := by
  obtain ⟨t, u, hregistry, hgrows, hcodeDir, hassetsDir, hcompiled, rfl⟩ :=
    exists_compileSources_of_scan hcode hassets h
  obtain ⟨hregisters, hgrows', hall⟩ := outcome_compileSources_eq_ok hcode hassets hcompiled
  have hfirst : FileTree.Grows (c.Covers rs s.files) s.files t.files :=
    hgrows.mono fun _ ↦ False.elim
  have hcovers : ∀ l, c.Covers rs t.files l → c.Covers rs s.files l := fun l ↦
    (covers_of_grows hgrows rs l).mp
  rw [hregistry] at hregisters
  exact ⟨hregisters, hfirst.trans (hgrows'.mono hcovers), hgrows'.isDirectory hcodeDir,
    hgrows'.isDirectory hassetsDir, t.files, hfirst, hgrows'.mono hcovers,
    hall.imp fun base r ⟨x, hx, hx', hr⟩ ↦ ⟨x, hfirst.trans (hx.mono hcovers), hx'.mono hcovers, hr⟩⟩

/-- After a scan that ends well the sources that were there are registered. -/
theorem knows_of_scan (hcode : c.codeDir.Proper) (hassets : c.assetsDir.Proper)
    {rs : List CompiledComponent} (h : outcome c.scan s = (.ok rs, s')) {base : String}
    (hbase : base ∈ sourceNames s.files c.sourceDir) :
    s'.registry.Knows (c.identifierOf base) := by
  obtain ⟨hregisters, -, -, -, t, hgrows, -, hall⟩ := outcome_scan_eq_ok hcode hassets h
  obtain ⟨k, hk⟩ := List.getElem?_of_mem (mem_sourceNames_of_grows hgrows hbase)
  obtain ⟨r, hr, u, -, -, hcompiled⟩ := exists_getElem?_of_forall₂ hall hk
  have hdescribes := describes_of_compiled? hcompiled
  have hmem : (c.identifierOf base, Record.compiled r) ∈ rs.map entry := by
    rw [← hdescribes.identifier]
    exact List.mem_map_of_mem (List.mem_of_getElem? hr)
  exact Registry.knows_of_registerEach hregisters hmem hdescribes.componentName

/-- Every source of a directory is there once. -/
theorem nodup_sourceNames {t : FileTree} (ht : t.Sound) (dir : Path) : (sourceNames t dir).Nodup := by
  have hnames (l : Location) : (t.names l).Nodup := by
    rw [FileTree.names, List.nodup_mergeSort]
    have hkeys := List.Nodup.filterMap (f := fun m : Location ↦
      if !m.isEmpty && m.dropLast == l then m.getLast? else none) ?_ ht.nodup
    · rwa [Table.keys, List.filterMap_map] at hkeys
    · intro m m' n hm hm'
      simp only [Option.mem_def, Option.ite_none_right_eq_some, Bool.and_eq_true, beq_iff_eq] at hm hm'
      obtain ⟨⟨-, hl⟩, hlast⟩ := hm
      obtain ⟨⟨-, hl'⟩, hlast'⟩ := hm'
      obtain ⟨k, rfl⟩ := List.getLast?_eq_some_iff.mp hlast
      obtain ⟨k', rfl⟩ := List.getLast?_eq_some_iff.mp hlast'
      rw [List.dropLast_concat] at hl hl'
      rw [hl, hl']
  unfold sourceNames
  split
  · cases t.locate dir with
    | error f => exact List.nodup_nil
    | ok l =>
      refine (hnames l).filterMap fun n n' base hn hn' ↦ ?_
      rw [baseName?_eq_some_iff.mp hn, baseName?_eq_some_iff.mp hn']
  · exact List.nodup_nil

/-- The identifiers of the components of a scan are those of the sources. -/
theorem identifiers_of_forall₂ {bases : List String} {rs : List CompiledComponent}
    {P : String → CompiledComponent → Prop} (h : List.Forall₂ P bases rs)
    (hP : ∀ base r, P base r → r.identifier = c.identifierOf base) :
    rs.map (·.identifier) = bases.map c.identifierOf := by
  induction h with
  | nil => rfl
  | cons hr _ ih => rw [List.map_cons, List.map_cons, hP _ _ hr, ih]

theorem identifierOf_injective (c : Compiler) : Function.Injective c.identifierOf := by
  intro a b h
  have hlist := congrArg String.toList h
  simp only [identifierOf, Identifier.below, String.toList_append] at hlist
  exact String.toList_injective (List.append_cancel_left hlist)

/-! ## A scan into a registry of its own -/

/-- What is left behind by a compiler that is set up and scans its sources, and finds nothing in the
way. -/
structure Scanned (c : Compiler) (rs : List CompiledComponent) (t u : FileTree) (r : Registry) :
    Prop where
  grows : FileTree.Grows (c.Covers rs t) t u
  records : r.records = rs.map entry
  coherent : r.Coherent
  describes : ∀ x ∈ rs, '/' ∉ x.identifier.toList ∧ c.Describes x.identifier x
  hold : ∀ x ∈ rs, (c.outputs x.componentName).Hold x u
  codeDir : u.isDirectory c.codeDir = true
  assetsDir : u.isDirectory c.assetsDir = true
  sources : ∃ m, FileTree.Grows (c.Covers rs t) t m ∧ FileTree.Grows (c.Covers rs t) m u ∧
    List.Forall₂ (fun base x ↦ ∃ v, FileTree.Grows (c.Covers rs t) t v ∧
      FileTree.Grows (c.Covers rs t) v u ∧
      c.compiled? (c.identifierOf base) v (c.sourceOf base) = some x) (sourceNames m c.sourceDir) rs

/-- The names of the components are distinct. -/
theorem Scanned.nodup_componentNames {rs : List CompiledComponent} {t u : FileTree} {r : Registry}
    (h : c.Scanned rs t u r) : (rs.map (·.componentName)).Nodup := by
  have hnames := h.coherent.nodup_componentNames
  rw [h.records, List.map_map] at hnames
  exact hnames

theorem scanned_of_scan (hcode : c.codeDir.Proper) (hassets : c.assetsDir.Proper)
    (hns : '/' ∉ c.namespacePrefix.toList) (hs : s.files.Sound) (hregistry : s.registry = .empty)
    {rs : List CompiledComponent}
    (h : outcome (do c.setUp; c.scan) s = (.ok rs, s')) :
    c.Scanned rs s.files s'.files s'.registry := by
  obtain ⟨_, s₂, hsetUp, hscan⟩ := outcome_bind_eq_ok.mp h
  have hintact : c.Intact s.files s.registry := by
    rw [hregistry]
    exact .empty hs
  have hintact₂ : c.Intact s₂.files s₂.registry :=
    (intact_setUp hcode hassets).of_outcome hsetUp hintact
  have hintact' : c.Intact s'.files s'.registry :=
    (intact_scan hcode hassets hns).of_outcome hscan hintact₂
  rw [setUp] at hsetUp
  obtain ⟨_, s₁, hensure, hsetUp⟩ := outcome_bind_eq_ok.mp hsetUp
  cases hsetUp
  obtain ⟨hsame, -, ⟨hgrows, -⟩, -⟩ := outcome_ensureOutputs hcode hassets hensure
  obtain ⟨hregisters, hgrows', hcodeDir, hassetsDir, m, hm, hm', hall⟩ :=
    outcome_scan_eq_ok hcode hassets hscan
  dsimp only at hregisters hgrows' hm hm' hall
  have hfirst : FileTree.Grows (c.Covers rs s.files) s.files s₁.files :=
    hgrows.mono fun _ ↦ False.elim
  have hcovers : ∀ l, c.Covers rs s₁.files l → c.Covers rs s.files l := fun l ↦
    (covers_of_grows hgrows rs l).mp
  have hidentifiers := identifiers_of_forall₂ hall fun base x ⟨_, _, _, hx⟩ ↦
    (describes_of_compiled? hx).identifier
  have hnone : (s₁.registry.attach c).records = [] := by
    rw [Registry.records_attach, hsame, hregistry]
    rfl
  have hrecords : s'.registry.records = rs.map entry := by
    have hnodup : (Table.keys ((s₁.registry.attach c).records ++ rs.map entry)).Nodup := by
      have hbases := nodup_sourceNames (hm.sound (hgrows.sound hs)) c.sourceDir
      have hkeys : Table.keys (rs.map entry) = rs.map (·.identifier) := List.map_map ..
      rw [hnone, List.nil_append, hkeys, hidentifiers]
      exact hbases.map (identifierOf_injective c)
    rw [Registry.records_of_registerEach hregisters hnodup, hnone, List.nil_append]
  have hget : ∀ x ∈ rs, s'.registry.get? x.identifier = some (.compiled x) := by
    intro x hx
    refine (Table.get?_eq_some_iff hintact'.coherent.nodup).mpr ?_
    rw [hrecords]
    exact List.mem_map_of_mem hx
  have hrecord : ∀ x ∈ rs, '/' ∉ x.identifier.toList ∧ c.Describes x.identifier x ∧
      (c.outputs x.componentName).Hold x s'.files := by
    intro x hx
    obtain ⟨y, hy, hslash, hdescribes, hhold⟩ := hintact'.records (hget x hx)
    cases hy
    refine ⟨hslash, hdescribes, ?_⟩
    rw [hdescribes.componentName]
    exact hhold
  exact {
    grows := hfirst.trans (hgrows'.mono hcovers)
    records := hrecords
    coherent := hintact'.coherent
    describes := fun x hx ↦ ⟨(hrecord x hx).1, (hrecord x hx).2.1⟩
    hold := fun x hx ↦ (hrecord x hx).2.2
    codeDir := hcodeDir
    assetsDir := hassetsDir
    sources := ⟨m, hfirst.trans (hm.mono hcovers), hm'.mono hcovers,
      hall.imp fun base x ⟨v, hv, hv', hx⟩ ↦
        ⟨v, hfirst.trans (hv.mono hcovers), hv'.mono hcovers, hx⟩⟩ }

end Compiler

end IceCube
