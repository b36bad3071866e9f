import IceCube.Proofs.Compiler.Outputs
import IceCube.Proofs.Registry.Ownership

/-!
# The files of all registered components

A compiler whose output directories nobody else touches keeps the files of all its records.  A
compilation writes to the files of one component only, and the check of names comes before it, so no
file of another component is among them.  A compilation that breaks off half-way could leave files
of which the record knows nothing, but only for an identifier without a record: the files of a record
are there, so they can be written again.
-/

namespace IceCube

open Step

namespace Compiler

variable {c : Compiler} {i : String}

/-! ## What a compilation keeps -/

/-- All records of a registry are those of one compiler, and their files hold what they say. -/
structure Intact (c : Compiler) (files : FileTree) (r : Registry) : Prop where
  sound : files.Sound
  coherent : r.Coherent
  compilers : ∀ d ∈ r.compilers, d = c
  records : ∀ {i : String} {record : Record}, r.get? i = some record →
    ∃ compiled, record = .compiled compiled ∧ '/' ∉ i.toList ∧ c.Describes i compiled ∧
      (c.outputs (Identifier.flatten i)).Hold compiled files

theorem Intact.empty {files : FileTree} (h : files.Sound) : c.Intact files .empty where
  sound := h
  coherent := .empty
  compilers := by simp [Registry.empty]
  records h := by simp [Registry.get?, Registry.empty] at h

/-- Nothing is lost as long as no file of a component is written to. -/
theorem Intact.grows {t u : FileTree} {r : Registry} (h : c.Intact t r) {O : Location → Prop}
    (hgrows : FileTree.Grows O t u)
    (hO : ∀ i record, r.get? i = some record →
      ∀ l ∈ (c.outputs (Identifier.flatten i)).places t, ¬ O l) : c.Intact u r where
  sound := hgrows.sound h.sound
  coherent := h.coherent
  compilers := h.compilers
  records hi := by
    obtain ⟨compiled, hrecord, hslash, hdescribes, hhold⟩ := h.records hi
    exact ⟨compiled, hrecord, hslash, hdescribes, hhold.grows hgrows (hO _ _ hi)⟩

/-- A record may have a name only if the files of this name belong to no other record. -/
theorem Intact.not_mem_places {t : FileTree} {r r' : Registry} (h : c.Intact t r)
    {compiled : CompiledComponent} (hdescribes : c.Describes i compiled) (hslash : '/' ∉ i.toList)
    (hregister : r.register i (.compiled compiled) = .ok r') {j : String} {record : Record}
    (hj : r.get? j = some record) (hij : j ≠ i) :
    ∀ l ∈ (c.outputs (Identifier.flatten j)).places t,
      l ∉ (c.outputs (Identifier.flatten i)).places t := by
  obtain ⟨other, rfl, hslash', hdescribes', -⟩ := h.records hj
  have hname := Identifier.isName_flatten hdescribes.nonempty hslash
  have hname' := Identifier.isName_flatten hdescribes'.nonempty hslash'
  refine fun l hl ↦ Compiler.not_mem_places hname' hname (fun heq ↦ hij ?_) hl
  obtain ⟨howner, -⟩ := Registry.register_eq_ok_iff.mp hregister
  refine howner j ?_
  have hown := h.coherent.owned hj
  have hsame : (Record.compiled other).componentName = (Record.compiled compiled).componentName :=
    hdescribes'.componentName.trans (heq.trans hdescribes.componentName.symm)
  rwa [hsame] at hown

/-- The directories of files that are there are there. -/
theorem isDirectory_of_hold {name : String} (hname : Path.IsName name) {r : CompiledComponent}
    {t : FileTree} (h : (c.outputs name).Hold r t) :
    t.isDirectory c.codeDir = true ∧ t.isDirectory c.assetsDir = true := by
  have hparent {p : Path} {n : String} {b : Bytes} (hread : t.read (p.child n) = .ok b) :
      t.isDirectory p = true := by
    obtain ⟨hl, -⟩ := FileTree.read_eq_ok_iff.mp hread
    obtain ⟨l, mode, hl, hnode, -⟩ := FileTree.locate_child_eq_ok.mp hl
    obtain rfl := FileTree.eq_place hl
    exact FileTree.isDirectory_iff.mpr ⟨hl, mode, hnode⟩
  rw [outputs_of_isName hname] at h
  exact ⟨hparent h.code, hparent h.script⟩

theorem intact_note (e : Event) :
    Moves (Keeps fun s ↦ c.Intact s.files s.registry) (Build.note e) :=
  moves_modify fun _ ↦ id

section Moves

variable (hcode : c.codeDir.Proper) (hassets : c.assetsDir.Proper)
include hcode hassets

theorem intact_ensureOutputs :
    Moves (Keeps fun s ↦ c.Intact s.files s.registry) c.ensureOutputs := by
  intro s hs
  rcases h : outcome c.ensureOutputs s with ⟨x, s'⟩
  obtain ⟨hregistry, -, ⟨hgrows, -⟩, -⟩ := outcome_ensureOutputs hcode hassets h
  rw [hregistry]
  exact hs.grows hgrows fun _ _ _ _ _ ↦ id

/-- However a compilation ends, all records have their files after it. -/
theorem intact_compile (hslash : '/' ∉ i.toList) (source : Path) :
    Moves (Keeps fun s ↦ c.Intact s.files s.registry) (c.compile i source) := by
  intro s hs
  rcases h : outcome (c.compile i source) s with ⟨x, s'⟩
  rcases outcome_compile hcode hassets h with
    ⟨-, hregistry, ⟨hgrows, -⟩⟩ | ⟨r, t, hr, hregister, hensure, hrewrites, hend⟩
  · rw [hregistry]
    exact hs.grows hgrows fun _ _ _ _ _ ↦ id
  have hdescribes := describes_of_compiled? hr
  have hname := Identifier.isName_flatten hdescribes.nonempty hslash
  rw [hdescribes.componentName] at hrewrites hend
  obtain ⟨-, -, ⟨hgrows, -⟩, -⟩ := outcome_ensureOutputs hcode hassets hensure
  have hgrows := (hgrows.mono fun _ ↦ False.elim).trans hrewrites.toGrows
  rcases hend with ⟨⟨f, rfl⟩, hregistry⟩ | ⟨rfl, hregistry, hhold⟩
  · -- a record of the identifier would have its files, so that no write could fail
    have hnone : ∀ record, s.registry.get? i ≠ some record := by
      intro record hi
      obtain ⟨old, -, -, -, hold⟩ := hs.records hi
      obtain ⟨hcodeDir, hassetsDir⟩ := isDirectory_of_hold hname hold
      have hfile := hold.isFile
      rw [← hdescribes.componentName] at hfile
      have hwritten := outcome_compile_of_writable hcode hassets hr hcodeDir hassetsDir
        fun p hp ↦ FileTree.writable_of_isFile (hfile p hp)
      rw [hregister] at hwritten
      obtain ⟨s'', hok, -⟩ := hwritten
      rw [h] at hok
      cases hok
    rw [hregistry]
    refine hs.grows hgrows fun j record hj ↦ ?_
    have hij : j ≠ i := by
      rintro rfl
      exact hnone record hj
    exact hs.not_mem_places hdescribes hslash hregister hj hij
  · rw [hregistry]
    refine ⟨hgrows.sound hs.sound, hs.coherent.register hregister, hs.compilers,
      fun {j record} hj ↦ ?_⟩
    rw [Registry.get?_put] at hj
    split_ifs at hj with hij
    · subst hij
      cases hj
      exact ⟨r, rfl, hslash, hdescribes, hhold (nodup_places c _ _)⟩
    · obtain ⟨other, hrecord, hslash', hdescribes', hold⟩ := hs.records hj
      exact ⟨other, hrecord, hslash', hdescribes',
        hold.grows hgrows (hs.not_mem_places hdescribes hslash hregister hj (Ne.symm hij))⟩

theorem intact_compileIdentifier (hslash : '/' ∉ i.toList) :
    Moves (Keeps fun s ↦ c.Intact s.files s.registry) (c.compileIdentifier i) := by
  unfold compileIdentifier
  split
  · exact moves_throw _
  · refine moves_bind moves_get fun s ↦ ?_
    split
    · exact intact_compile hcode hassets hslash _
    · exact moves_bind (intact_note _) fun _ ↦ moves_throw _

theorem intact_setUp : Moves (Keeps fun s ↦ c.Intact s.files s.registry) c.setUp := by
  refine moves_bind (intact_ensureOutputs hcode hassets) fun _ ↦ moves_modify fun s hs ↦ ?_
  refine ⟨hs.sound, hs.coherent.attach c, fun d hd ↦ ?_, fun hi ↦ hs.records ?_⟩
  · unfold Registry.attach at hd
    split at hd
    · exact hs.compilers d hd
    · rcases List.mem_append.mp hd with hd | hd
      · exact hs.compilers d hd
      · exact List.mem_singleton.mp hd
  · rw [Registry.get?, Registry.attach] at hi
    split at hi <;> exact hi

theorem intact_scan (hns : '/' ∉ c.namespacePrefix.toList) :
    Moves (Keeps fun s ↦ c.Intact s.files s.registry) c.scan := by
  refine moves_bind (intact_ensureOutputs hcode hassets) fun _ ↦ moves_get_bind fun s hs ↦ ?_
  have hslash : ∀ base ∈ sourceNames s.files c.sourceDir, '/' ∉ (c.identifierOf base).toList :=
    fun base hbase ↦ slash_not_mem_identifierOf hns (slash_not_mem_sourceNames hs.sound hbase)
  have hmapM : Moves (Keeps fun s ↦ c.Intact s.files s.registry)
      ((sourceNames s.files c.sourceDir).mapM fun base ↦
        c.compile (c.identifierOf base) (c.sourceDir.joinText (base ++ sourceSuffix))) :=
    moves_mapM fun base hbase ↦ intact_compile hcode hassets (hslash base hbase) _
  exact (moves_bind hmapM fun compiled ↦ moves_bind (intact_note _) fun _ ↦ moves_pure compiled) s hs

end Moves

end Compiler

/-! ## Everything that is asked of a compiler -/

/-- What is asked of one compiler or of its registry. -/
def Request.Of (c : Compiler) : Request → Prop
  | .setUp d => d = c
  | .compile d i _ => d = c ∧ '/' ∉ i.toList
  | .compileIdentifier d i => d = c ∧ '/' ∉ i.toList
  | .scan d => d = c
  | .resolve home i _ => home = c.home ∧ '/' ∉ i.toList
  | .register .. => False
  | .storeCache .. => False
  | .loadCache .. => False

namespace Compiler

/-- Nobody has touched what is in the output directories of a compiler. -/
def SameOutputs (c : Compiler) (t u : FileTree) : Prop :=
  ∀ dir ∈ [c.codeDir, c.assetsDir], ∀ name ≠ "..", u.node? (dir.child name) = t.node? (dir.child name)

/-- The worlds of a process with one compiler: it starts with an empty registry, is asked for
whatever it can do, and in between everything but its registry and its output directories can
change. -/
inductive Sole (c : Compiler) : World → Prop where
  | start {w : World} (hfiles : w.files.Sound) (hregistry : w.registry c.home = .empty) : c.Sole w
  | request {w : World} (h : c.Sole w) {q : Request} (hq : q.Of c) : c.Sole (outcome q.run w).2
  | edit {w v : World} (h : c.Sole w) (hregistry : v.registry c.home = w.registry c.home)
      (hfiles : v.files.Sound) (houtputs : c.SameOutputs w.files v.files) : c.Sole v

variable {c : Compiler}

theorem Intact.of_sameOutputs {t u : FileTree} {r : Registry} (h : c.Intact t r) (hu : u.Sound)
    (hsame : c.SameOutputs t u) : c.Intact u r where
  sound := hu
  coherent := h.coherent
  compilers := h.compilers
  records {i record} hi := by
    obtain ⟨compiled, hrecord, hslash, hdescribes, hhold⟩ := h.records hi
    have hname := Identifier.isName_flatten hdescribes.nonempty hslash
    refine ⟨compiled, hrecord, hslash, hdescribes, ?_⟩
    have hread {dir : Path} (hdir : dir ∈ [c.codeDir, c.assetsDir]) {s : String}
        (hs : s ∈ suffixes) {b : Bytes}
        (hb : t.read (dir.child (Identifier.flatten i ++ s)) = .ok b) :
        u.read (dir.child (Identifier.flatten i ++ s)) = .ok b := by
      rw [FileTree.read_eq_ok_iff_node?, hsame dir hdir _ (isName_append hname hs).2,
        ← FileTree.read_eq_ok_iff_node?]
      exact hb
    rw [outputs_of_isName hname] at hhold ⊢
    exact ⟨hread (by simp) (by decide) hhold.code, hread (by simp) (by decide) hhold.script,
      hread (by simp) (by decide) hhold.style⟩

section Worlds

variable (hcode : c.codeDir.Proper) (hassets : c.assetsDir.Proper)

/-- Building in the registry of a compiler keeps what it keeps of the files and the registry. -/
theorem intact_build {α : Type} {step : Build α}
    (h : Moves (Keeps fun s ↦ c.Intact s.files s.registry) step) :
    Moves (Keeps fun w ↦ c.Intact w.files (w.registry c.home)) (Run.build c.home step) := by
  intro w hw
  rw [Run.outcome_build, World.registry_withWorkspace, if_pos rfl]
  exact h (w.workspace c.home) hw

theorem intact_load (record : Record) :
    Moves (Keeps fun w ↦ c.Intact w.files (w.registry c.home)) (Resolve.load record) :=
  (Resolve.moves_load record).keeps fun stored ↦
    c.Intact stored.2 ((Table.get? stored.1 c.home).getD .empty)

theorem intact_setLoaded (i : String) (id : ClassId) :
    Moves (Keeps fun w ↦ c.Intact w.files (w.registry c.home))
      (Run.changeRegistry c.home (·.setLoaded i id)) := by
  refine moves_modify fun w hw ↦ ?_
  dsimp only
  rw [World.registry, Table.get?_insert, if_pos rfl]
  exact ⟨hw.sound, ⟨hw.coherent.nodup, hw.coherent.owned⟩, hw.compilers, hw.records⟩

include hcode hassets

theorem intact_record {i : String} (hslash : '/' ∉ i.toList) (force : Bool) :
    Moves (Keeps fun w ↦ c.Intact w.files (w.registry c.home))
      (Resolve.record c.home i force) := by
  refine moves_get_bind fun w hw ↦ ?_
  dsimp only
  split
  · exact hw
  · split
    · rename_i d hd
      obtain rfl := hw.compilers d (List.mem_of_find?_eq_some hd)
      exact (moves_bind (intact_build (intact_compileIdentifier hcode hassets hslash)) fun _ ↦
        moves_pure _) w hw
    · exact hw

theorem intact_resolve {i : String} (hslash : '/' ∉ i.toList) (force : Bool) :
    Moves (Keeps fun w ↦ c.Intact w.files (w.registry c.home))
      (Resolve.resolve c.home i force) := by
  refine moves_bind moves_get fun w ↦ ?_
  split
  · exact moves_pure _
  · refine moves_bind (intact_record hcode hassets hslash _) fun record ↦ ?_
    split
    · exact moves_throw _
    · exact moves_bind (intact_load _) fun id ↦
        moves_bind (intact_setLoaded i id) fun _ ↦ moves_pure id

theorem intact_request (hns : '/' ∉ c.namespacePrefix.toList) {q : Request} (hq : q.Of c) :
    Moves (Keeps fun w ↦ c.Intact w.files (w.registry c.home)) q.run := by
  cases q <;> simp only [Request.Of] at hq <;> simp only [Request.run]
  case setUp d =>
    subst hq
    exact intact_build (intact_setUp hcode hassets)
  case compile d i source =>
    obtain ⟨rfl, hslash⟩ := hq
    exact moves_bind (intact_build (intact_compile hcode hassets hslash source)) fun _ ↦
      moves_pure _
  case compileIdentifier d i =>
    obtain ⟨rfl, hslash⟩ := hq
    exact moves_bind (intact_build (intact_compileIdentifier hcode hassets hslash)) fun _ ↦
      moves_pure _
  case scan d =>
    subst hq
    exact moves_bind (intact_build (intact_scan hcode hassets hns)) fun _ ↦ moves_pure _
  case resolve home i force =>
    obtain ⟨rfl, hslash⟩ := hq
    exact moves_bind (intact_resolve hcode hassets hslash force) fun _ ↦ moves_pure _

theorem Intact.of_sole (hns : '/' ∉ c.namespacePrefix.toList) {w : World} (hw : c.Sole w) :
    c.Intact w.files (w.registry c.home) := by
  induction hw with
  | start hfiles hregistry =>
    rw [hregistry]
    exact .empty hfiles
  | request _ hq ih => exact intact_request hcode hassets hns hq _ ih
  | edit _ hregistry hfiles houtputs ih =>
    rw [hregistry]
    exact ih.of_sameOutputs hfiles houtputs

end Worlds

/-- The files of all registered components hold what their records say, whatever was asked of the
compiler, however it ended, and whatever has happened to the sources in between. -/
theorem artifacts_match_registry {c : Compiler} (hcode : c.codeDir.Proper)
    (hassets : c.assetsDir.Proper) (hns : '/' ∉ c.namespacePrefix.toList) {w : World}
    (hw : c.Sole w) :
    ∀ i record, (w.registry c.home).get? i = some record →
      ∃ compiled, record = .compiled compiled ∧ compiled.OnDisk w.files := by
  intro i record hi
  obtain ⟨compiled, hrecord, hslash, hdescribes, hhold⟩ :=
    (Intact.of_sole hcode hassets hns hw).records hi
  rw [← hdescribes.componentName] at hhold
  exact ⟨compiled, hrecord, (onDisk_iff hcode hassets hdescribes hslash).mpr hhold⟩

/-- A compiler of cards. -/
def cardCompiler : Compiler where
  home := "main"
  namespacePrefix := "app"
  sourceDir := ⟨.relative, ["src"]⟩
  codeDir := ⟨.relative, ["out"]⟩
  assetsDir := ⟨.relative, ["out"]⟩
  publicUrl := "/out"
  style := .scopingOnly
  script := .embedded

/-- Where the source of a card is. -/
def cardSource : Location := ["src", "Card.ice.py"]

/-- The source of a card, and nothing else. -/
def cardFiles : FileTree :=
  ((FileTree.empty []).set ["src"] (.directory FileTree.parentMode)).set cardSource
    (.file (Utf8.encode "pass") FileTree.fileMode 0)

/-- The card is compiled. -/
def compiledCard : World :=
  (outcome (Request.scan cardCompiler).run (.start cardFiles ⟨none, none⟩)).2

/-- Then its source is edited. -/
def editedCard : World :=
  { compiledCard with
    files := compiledCard.files.set cardSource (.file (Utf8.encode "1 / 0") FileTree.fileMode 9) }

/-- Then the source is compiled under another identifier, which is turned down because the names of
the two components are one. -/
def rejectedCard : World :=
  (outcome (Request.compile cardCompiler "app_Card" ⟨.relative, cardSource⟩).run editedCard).2

theorem sole_rejectedCard : cardCompiler.Sole rejectedCard := by
  have hstart : cardCompiler.Sole (.start cardFiles ⟨none, none⟩) := .start (by decide) rfl
  have hcompiled : cardCompiler.Sole compiledCard := hstart.request rfl
  refine Sole.request (q := .compile cardCompiler "app_Card" ⟨.relative, cardSource⟩) ?_
    ⟨rfl, by decide⟩
  refine hcompiled.edit rfl (by decide +kernel) fun dir hdir name hname ↦ ?_
  have hdir : dir = ⟨.relative, ["out"]⟩ := by simpa [cardCompiler] using hdir
  have hcurrent : compiledCard.files.current = [] := by decide +kernel
  have hkept : editedCard.files.current = [] := hcurrent
  -- none of the locations on the way is that of the source
  have hat : ∀ l, l ≠ cardSource → editedCard.files.at? l = compiledCard.files.at? l := by
    intro l hl
    rw [editedCard, FileTree.at?_set, if_neg (Ne.symm hl)]
  subst hdir
  simp only [FileTree.node?, FileTree.locate, FileTree.walk, Path.child, Path.isAbsolute, hcurrent,
    hkept, bne_self_eq_false, Bool.false_eq_true, if_false, List.cons_append, List.nil_append, hname,
    hat [] (by decide), hat ["out"] (by decide), String.reduceEq]
  rcases compiledCard.files.at? [] with _ | _ | _ <;>
    rcases compiledCard.files.at? ["out"] with _ | _ | _ <;>
      simp [Except.toOption, hat ["out", name] (by simp [cardSource])]

/-- The card that was compiled is registered still, and its files are what was compiled. -/
theorem rejected_card_keeps_artifacts : ∃ compiled,
    (rejectedCard.registry "main").get? "app.Card" = some (.compiled compiled) ∧
      compiled.OnDisk rejectedCard.files := by
  have hsome : ((rejectedCard.registry "main").get? "app.Card").isSome = true := by decide +kernel
  obtain ⟨record, hrecord⟩ := Option.isSome_iff_exists.mp hsome
  obtain ⟨compiled, rfl, hdisk⟩ := artifacts_match_registry (c := cardCompiler) (by decide)
    (by decide) (by decide) sole_rejectedCard "app.Card" record hrecord
  exact ⟨compiled, hrecord, hdisk⟩

end Compiler

end IceCube
