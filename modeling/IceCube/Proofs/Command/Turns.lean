import IceCube.Command.Compile
import IceCube.Proofs.Compiler.Scanning
import IceCube.Proofs.Config.Loading
import IceCube.Proofs.Registry.Canonical

/-!
# A run over all configurations

When the command for compiling runs over configurations, each of them has its turn with a registry of
its own: its sources are scanned, and then the registry is stored.  What a turn writes is a list of
contents at places.  Turns know nothing of each other, so a later one can write where an earlier one
has written.
-/

namespace IceCube

open Step

namespace FileTree

/-- A file at a location has a content. -/
def Holds (t : FileTree) (w : Location × Bytes) : Prop :=
  ∃ mode modified, t.at? w.1 = some (.file w.2 mode modified)

variable {t u : FileTree}

theorem Holds.grows {O : Location → Prop} {w : Location × Bytes} (h : t.Holds w)
    (hgrows : Grows O t u) (hO : ¬ O w.1) : u.Holds w := by
  obtain ⟨mode, modified, h⟩ := h
  exact ⟨mode, modified, hgrows.kept hO h⟩

/-- A location has one content. -/
theorem Holds.unique {l : Location} {a b : Bytes} (ha : t.Holds (l, a)) (hb : t.Holds (l, b)) :
    a = b := by
  obtain ⟨mode, modified, ha⟩ := ha
  obtain ⟨mode', modified', hb⟩ := hb
  rw [ha] at hb
  cases hb
  rfl

theorem holds_of_read {p : Path} {b : Bytes} (h : t.read p = .ok b) : t.Holds (t.place p, b) := by
  obtain ⟨-, mode, modified, h⟩ := read_eq_ok_iff.mp h
  exact ⟨mode, modified, h⟩

/-- A file that could be read once can be read as long as it has a content. -/
theorem Holds.read {O : Location → Prop} {p : Path} {a b : Bytes} (h : u.Holds (t.place p, b))
    (hread : t.read p = .ok a) (hgrows : Grows O t u) : u.read p = .ok b := by
  obtain ⟨mode, modified, h⟩ := h
  obtain ⟨hl, -⟩ := read_eq_ok_iff.mp hread
  rw [read_eq_ok_iff, hgrows.place]
  exact ⟨hgrows.locate hl, mode, modified, h⟩

end FileTree

namespace Compiler

/-- What is written for a component, and where. -/
def Outputs.writes (o : Outputs) (r : CompiledComponent) (t : FileTree) : List (Location × Bytes) :=
  [(t.place o.code, Utf8.encode r.codeSection), (t.place o.script, Utf8.encode r.compiledScript),
    (t.place o.style, Utf8.encode (r.compiledStyle.getD ""))]

variable {o : Outputs} {r : CompiledComponent} {t u : FileTree}

theorem Outputs.map_fst_writes (o : Outputs) (r : CompiledComponent) (t : FileTree) :
    (o.writes r t).map Prod.fst = o.places t := rfl

theorem Outputs.Hold.holds (h : o.Hold r t) : ∀ w ∈ o.writes r t, t.Holds w := by
  intro w hw
  simp only [writes, List.mem_cons, List.not_mem_nil, or_false] at hw
  rcases hw with rfl | rfl | rfl
  · exact FileTree.holds_of_read h.code
  · exact FileTree.holds_of_read h.script
  · exact FileTree.holds_of_read h.style

theorem Outputs.Hold.of_holds {O : Location → Prop} (h : o.Hold r t) (hgrows : FileTree.Grows O t u)
    (hw : ∀ w ∈ o.writes r t, u.Holds w) : o.Hold r u where
  code := (hw _ (by simp [writes])).read h.code hgrows
  script := (hw _ (by simp [writes])).read h.script hgrows
  style := (hw _ (by simp [writes])).read h.style hgrows

end Compiler

namespace Registry

/-- A cache file is the only file that storing a registry writes to. -/
theorem outcome_storeCache_eq_ok {p q : Path} {includeStyles : Bool} {s s' : Workspace}
    (hp : p.Proper) (h : outcome (storeCache p includeStyles) s = (.ok q, s')) :
    q = p ∧ FileTree.Grows (· = s.files.place p) s.files s'.files ∧
      s'.files.read p = .ok (Utf8.encode (s.registry.toCache includeStyles).write) := by
  obtain ⟨rfl, t, hd, hrewrites⟩ := writes_of_storeCache hp h
  obtain ⟨⟨hgrows, -⟩, -⟩ := FileTree.edits_ensureDirectory hp.parent hd
  refine ⟨rfl, (hgrows.mono fun _ ↦ False.elim).trans (hrewrites.toGrows.mono fun l hl ↦ ?_),
    read_of_storeCache h⟩
  exact hl.trans (hgrows.place q)

end Registry

namespace Command

/-- The sources of a configuration are compiled into the registry at hand. -/
def scanned (c : CompilerConfig) : Build (List CompiledComponent) := do
  let compiler ← Boot.compilerOf "" c
  compiler.scan

/-- What one configuration has compiled in its turn, and the registry it has stored. -/
structure Turn where
  config : CompilerConfig
  compiled : List CompiledComponent
  registry : Registry

namespace Turn

/-- The compiler of a turn. -/
def compiler (t : Turn) : Compiler := .ofConfig "" t.config

/-- The text of the cache of a turn. -/
def cacheText (t : Turn) : String := (t.registry.toCache t.config.includesStylesInCache).write

/-- What a turn writes, and where. -/
def writes (t : Turn) (files : FileTree) : List (Location × Bytes) :=
  (t.compiled.flatMap fun r ↦ (t.compiler.outputs r.componentName).writes r files) ++
    (t.config.cacheFile.map fun p ↦ (files.place p, Utf8.encode t.cacheText)).toList

/-- Where a turn writes. -/
def Touches (t : Turn) (files : FileTree) (l : Location) : Prop :=
  l ∈ (t.writes files).map Prod.fst

/-- What a turn does to the files: first the sources are scanned, then the registry is stored. -/
structure Ran (t : Turn) (u v : FileTree) : Prop where
  sound : u.Sound
  config : t.config.Sound
  steps : ∃ m, t.compiler.Scanned t.compiled u m t.registry ∧
    match t.config.cacheFile with
    | none => v = m
    | some p => FileTree.Grows (· = u.place p) m v ∧ v.read p = .ok (Utf8.encode t.cacheText)

end Turn

/-- The turns of a run over configurations, up to the first that does not end well. -/
def turns : Table String CompilerConfig → Console → List Turn
  | [], _ => []
  | e :: es, c =>
    match outcome (build .empty (scanned e.2)) c with
    | (.ok (compiled, registry), _) =>
      ⟨e.2, compiled, registry⟩ :: turns es (outcome (compileOne e.1 e.2) c).2
    | (.error _, _) => []

theorem outcome_build {α : Type} (r : Registry) (step : Build α) (c : Console) :
    outcome (build r step) c = match outcome step ⟨c.files, r, c.log⟩ with
      | (.ok a, s) => (.ok (a, s.registry), { c with files := s.files, log := s.log })
      | (.error e, s) => (.error e, { c with files := s.files, log := s.log }) := by
  rcases h : outcome step ⟨c.files, r, c.log⟩ with ⟨e | a, s⟩
  · have hrun : step.run ⟨c.files, r, c.log⟩ = (.error e, s) := h
    rw [build, outcome_get_bind, hrun]
    rfl
  · have hrun : step.run ⟨c.files, r, c.log⟩ = (.ok a, s) := h
    rw [build, outcome_get_bind, hrun]
    rfl

theorem outcome_build_eq_ok {α : Type} {r r' : Registry} {step : Build α} {c c' : Console} {a : α}
    (h : outcome (build r step) c = (.ok (a, r'), c')) :
    ∃ s, outcome step ⟨c.files, r, c.log⟩ = (.ok a, s) ∧ s.registry = r' ∧ c'.files = s.files := by
  rw [outcome_build] at h
  rcases hstep : outcome step ⟨c.files, r, c.log⟩ with ⟨e | b, s⟩
  · simp [hstep] at h
  · rw [hstep] at h
    cases h
    exact ⟨s, rfl, rfl, rfl⟩

theorem outcome_scanned (cfg : CompilerConfig) (s : Workspace) :
    outcome (scanned cfg) s =
      outcome (do (Compiler.ofConfig "" cfg).setUp; (Compiler.ofConfig "" cfg).scan) s := by
  rw [scanned, Boot.compilerOf, outcome_bind, outcome_bind, outcome_bind]
  rcases outcome (Compiler.ofConfig "" cfg).setUp s with ⟨e | _, t⟩ <;> rfl

/-- The turn of a configuration that ends well. -/
theorem outcome_compileOne_eq_ok {name : String} {cfg : CompilerConfig} {c c' : Console}
    (hc : c.files.Sound) (hcfg : cfg.Sound) (h : outcome (compileOne name cfg) c = (.ok (), c')) :
    ∃ compiled registry c₁,
      outcome (build .empty (scanned cfg)) c = (.ok (compiled, registry), c₁) ∧
      (Turn.mk cfg compiled registry).Ran c.files c'.files := by
  rw [compileOne] at h
  obtain ⟨⟨compiled, registry⟩, c₁, hbuild, hrest⟩ := outcome_bind_eq_ok.mp h
  refine ⟨compiled, registry, c₁, hbuild, hc, hcfg, ?_⟩
  have hturn : outcome (build .empty (scanned cfg)) c = (.ok (compiled, registry), c₁) := hbuild
  obtain ⟨s, hscan, rfl, hfiles⟩ := outcome_build_eq_ok hturn
  rw [outcome_scanned] at hscan
  have hscanned := Compiler.scanned_of_scan (c := .ofConfig "" cfg) (s := ⟨c.files, .empty, c.log⟩)
    hcfg.compiledCodeDir hcfg.compiledAssetsDir (hcfg.slash_not_mem "") hc rfl hscan
  refine ⟨s.files, hscanned, ?_⟩
  obtain ⟨_, c₂, hsay, hlast⟩ := outcome_bind_eq_ok.mp hrest
  cases hsay
  cases hfile : cfg.cacheFile with
  | none =>
    simp only [hfile] at hlast
    cases hlast
    exact hfiles
  | some p =>
    simp only [hfile] at hlast
    obtain ⟨⟨stored, registry'⟩, c₃, hstore, hend⟩ := outcome_bind_eq_ok.mp hlast
    cases hend
    obtain ⟨s', hstored, -, hfiles'⟩ := outcome_build_eq_ok hstore
    obtain ⟨-, hgrows, hread⟩ := Registry.outcome_storeCache_eq_ok (hcfg.cacheFile p hfile) hstored
    simp only [hfiles, hscanned.grows.place] at hgrows
    simp only [hfiles'] at hread ⊢
    exact ⟨hgrows, hread⟩

/-! ## All turns -/

namespace Turn

variable {t : Turn} {u v w : FileTree}

/-- The places where a turn writes depend on the current directory only. -/
theorem writes_of_grows {O : Location → Prop} (h : FileTree.Grows O u v) (t : Turn) :
    t.writes v = t.writes u := by
  simp only [writes, Compiler.Outputs.writes, h.place]

/-- Between scanning and storing, too, nothing is taken away, and no other files change than those
that are written. -/
theorem Ran.exists_scanned (h : t.Ran u v) : ∃ m, t.compiler.Scanned t.compiled u m t.registry ∧
    FileTree.Grows (t.Touches u) u m ∧ FileTree.Grows (t.Touches u) m v ∧
    ∀ p ∈ t.config.cacheFile, v.read p = .ok (Utf8.encode t.cacheText) := by
  obtain ⟨m, hscanned, hstored⟩ := h.steps
  refine ⟨m, hscanned, hscanned.grows.mono ?_, ?_⟩
  · rintro l ⟨r, hr, hl⟩
    rw [← Compiler.Outputs.map_fst_writes _ r] at hl
    obtain ⟨x, hx, rfl⟩ := List.mem_map.mp hl
    exact List.mem_map_of_mem (List.mem_append_left _ (List.mem_flatMap.mpr ⟨r, hr, hx⟩))
  cases hfile : t.config.cacheFile with
  | none =>
    simp only [hfile] at hstored
    rw [hstored]
    exact ⟨.refl _ _, by simp⟩
  | some p =>
    simp only [hfile] at hstored
    refine ⟨hstored.1.mono ?_, by simpa using hstored.2⟩
    rintro l rfl
    refine List.mem_map.mpr ⟨(u.place p, Utf8.encode t.cacheText), ?_, rfl⟩
    exact List.mem_append_right _ (by simp [hfile])

/-- A turn takes nothing away and changes no other files than those that it writes. -/
theorem Ran.grows (h : t.Ran u v) : FileTree.Grows (t.Touches u) u v := by
  obtain ⟨m, -, hscan, hstore, -⟩ := h.exists_scanned
  exact hscan.trans hstore

end Turn

/-- Turns that follow one another. -/
inductive Runs : List Turn → FileTree → FileTree → Prop where
  | nil (u : FileTree) : Runs [] u u
  | cons {t : Turn} {ts : List Turn} {u v w : FileTree} (h : t.Ran u v) (hs : Runs ts v w) :
      Runs (t :: ts) u w

variable {t : Turn} {ts : List Turn} {u v w : FileTree}

theorem Runs.grows (h : Runs ts u w) : FileTree.Grows (fun l ↦ ∃ t ∈ ts, t.Touches u l) u w := by
  induction h with
  | nil u => exact .refl _ _
  | @cons t ts u v w h hs ih =>
    refine (h.grows.mono fun l hl ↦ ⟨t, by simp, hl⟩).trans (ih.mono ?_)
    rintro l ⟨t', ht', hl⟩
    rw [Turn.Touches, Turn.writes_of_grows h.grows] at hl
    exact ⟨t', List.mem_cons_of_mem _ ht', hl⟩

/-- Each turn has its place in a run. -/
theorem Runs.exists_ran (h : Runs ts u w) (ht : t ∈ ts) :
    ∃ m m', FileTree.Grows (fun l ↦ ∃ t ∈ ts, t.Touches u l) u m ∧ t.Ran m m' ∧
      FileTree.Grows (fun l ↦ ∃ t ∈ ts, t.Touches u l) m' w := by
  induction h with
  | nil u => cases ht
  | @cons t' ts u v w h hs ih =>
    have htouches : ∀ l, (∃ t ∈ ts, t.Touches v l) → ∃ t ∈ t' :: ts, t.Touches u l := by
      rintro l ⟨t, ht, hl⟩
      rw [Turn.Touches, Turn.writes_of_grows h.grows] at hl
      exact ⟨t, List.mem_cons_of_mem _ ht, hl⟩
    have hfirst : FileTree.Grows (fun l ↦ ∃ t ∈ t' :: ts, t.Touches u l) u v :=
      h.grows.mono fun l hl ↦ ⟨t', by simp, hl⟩
    rcases List.mem_cons.mp ht with rfl | ht
    · exact ⟨u, v, .refl _ _, h, hs.grows.mono htouches⟩
    · obtain ⟨m, m', hm, hran, hm'⟩ := ih ht
      exact ⟨m, m', hfirst.trans (hm.mono htouches), hran, hm'.mono htouches⟩

theorem outcome_reporting_eq_ok {α : Type} {step : Command α} {c c' : Console} {a : α}
    (h : outcome (reporting step) c = (.ok a, c')) : outcome step c = (.ok a, c') := by
  rw [reporting, outcome_tryCatch] at h
  rcases hstep : outcome step c with ⟨e | b, d⟩
  · rw [hstep] at h
    cases e <;> cases h
  · rwa [hstep] at h

/-- A run that ends well consists of the turns of all configurations. -/
theorem runs_of_forM {es : Table String CompilerConfig} {c c' : Console} (hc : c.files.Sound)
    (hes : ∀ e ∈ es, e.2.Sound)
    (h : outcome (es.forM fun e ↦ reporting (compileOne e.1 e.2)) c = (.ok (), c')) :
    Runs (turns es c) c.files c'.files ∧ (turns es c).map (·.config) = es.map (·.2) := by
  induction es generalizing c with
  | nil =>
    cases h
    exact ⟨.nil _, rfl⟩
  | cons e es ih =>
    obtain ⟨he, hes⟩ := List.forall_mem_cons.mp hes
    obtain ⟨_, c₁, hone, hrest⟩ := outcome_bind_eq_ok.mp h
    have hone := outcome_reporting_eq_ok hone
    obtain ⟨compiled, registry, c₂, hbuild, hran⟩ := outcome_compileOne_eq_ok hc he hone
    obtain ⟨hruns, hconfigs⟩ := ih (hran.grows.sound hc) hes hrest
    have hturns : turns (e :: es) c = ⟨e.2, compiled, registry⟩ :: turns es c₁ := by
      rw [turns, hbuild, hone]
    rw [hturns]
    exact ⟨.cons hran hruns, by rw [List.map_cons, List.map_cons, hconfigs]⟩

theorem load_of_loadConfig {file : String} {config : Config} {c c' : Console}
    (h : outcome (loadConfig file) c = (.ok config, c')) :
    Config.load c.files c.environment (Path.ofText file) = .ok config ∧ c' = c := by
  rw [loadConfig, outcome_get_bind] at h
  split at h
  · cases h
  · split at h
    · rename_i hload
      cases h
      exact ⟨hload, rfl⟩
    · cases h

/-- The command runs over the configurations that its file gives. -/
theorem outcome_compile_of_load {file : String} {config : Config} {c : Console}
    (hload : outcome (loadConfig file) c = (.ok config, c)) :
    outcome (compile file none) c =
      outcome (config.compilers.forM fun e ↦ reporting (compileOne e.1 e.2)) c := by
  have hselected : outcome (selected file none) c = (.ok config.compilers, c) := by
    rw [selected, outcome_bind_of_ok hload]
    rfl
  rw [compile, outcome_bind_of_ok hselected]

theorem runs_of_compile {file : String} {config : Config} {c c' : Console} (hc : c.files.Sound)
    (hload : outcome (loadConfig file) c = (.ok config, c))
    (h : outcome (compile file none) c = (.ok (), c')) :
    Runs (turns config.compilers c) c.files c'.files ∧
      (turns config.compilers c).map (·.config) = config.compilers.map (·.2) := by
  rw [outcome_compile_of_load hload] at h
  have hsound := Config.sound_of_load hc (Path.proper_ofText file) (load_of_loadConfig hload).1
  exact runs_of_forM hc (fun e he ↦ (hsound e he).1) h

end Command

end IceCube
