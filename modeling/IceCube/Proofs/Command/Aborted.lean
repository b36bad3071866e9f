import IceCube.Proofs.Command.Packing

/-!
# Packing that does not come to its end

The manifest is changed in memory, turn by turn, and written after the last one.  So a run that ends in
an error has written nothing but packed stylesheets: whatever a turn fails with, and however many turns
there were before it, the manifest and all other files are as they were.
-/

namespace IceCube

open Step Manifest

namespace Command

variable {file manifestFile entry : String} {name : Option String} {c c' : Console}
  {es : Table String CompilerConfig} {m : Json} {directory : Path} {l : Location} {e : Error}

/-! ## What turns leave alone -/

/-- The packed stylesheet of one of some configurations for a bundler is at a location. -/
def PackedAt (directory : Path) (es : Table String CompilerConfig) (t : FileTree) (l : Location) :
    Prop :=
  ∃ e ∈ es, e.2.scriptStrategy = .externalBundler ∧
    l = t.place directory ++ ["assets", packedName e.1]

/-- No other files have changed than packed stylesheets. -/
def KeepsOthers (directory : Path) (es : Table String CompilerConfig) (c c' : Console) : Prop :=
  FileTree.Edits (PackedAt directory es c.files) c.files c'.files

theorem packedAt_of_edits {O : Location → Prop} {t u : FileTree} (h : FileTree.Edits O t u) :
    PackedAt directory es u = PackedAt directory es t := by
  funext l
  simp only [PackedAt, h.place]

instance (directory : Path) (es : Table String CompilerConfig) :
    IsPreorder Console (KeepsOthers directory es) where
  refl c := .refl _ c.files
  trans c c₁ c₂ h h' := by
    rw [KeepsOthers, packedAt_of_edits h] at h'
    exact FileTree.Edits.trans h h'

theorem moves_say (line : String) : Moves (KeepsOthers directory es) (say line) :=
  moves_modify fun c ↦ .refl _ c.files

/-- A step on the files is a fault, or it does to the files what it does. -/
theorem moves_onFiles {change : FileTree → Except Fault FileTree}
    (h : ∀ t u, change t = .ok u → FileTree.Edits (PackedAt directory es t) t u) :
    Moves (KeepsOthers directory es) (onFiles change) := by
  refine moves_get_bind fun c ↦ ?_
  cases hchange : change c.files with
  | error f => exact .refl _ c.files
  | ok t => exact h c.files t hchange

theorem moves_ofManifestResult {α : Type} (r : Except Flaw α) :
    Moves (KeepsOthers directory es) (ofManifestResult r) := by
  cases r with
  | ok a => exact moves_pure a
  | error flaw => exact moves_throw _

theorem moves_readStyle (item : Json) :
    Moves (KeepsOthers directory es) (readStyle directory item) := by
  cases item with
  | str file =>
    refine moves_get_bind fun c ↦ ?_
    cases Config.readText c.files (directory.joinText file) <;> exact .refl _ c.files
  | _ => exact moves_throw _

/-- Whatever a turn ends with, it has written to no other file than its packed stylesheet. -/
theorem moves_writePacked {e : String × CompilerConfig} (hdirectory : directory.Proper)
    (he : e ∈ es) (hname : Config.isName e.1 = true) (hbundled : e.2.scriptStrategy = .externalBundler)
    (items : List Json) : Moves (KeepsOthers directory es) (writePacked directory e.1 items) := by
  have hproper := proper_packedPath hdirectory hname
  rw [writePacked, joinText_packedName hname]
  refine moves_bind (moves_mapM fun item _ ↦ moves_readStyle item) fun texts ↦ ?_
  refine moves_bind (moves_onFiles fun t u hmake ↦ ?_) fun _ ↦
    moves_bind (moves_onFiles fun t u hwrite ↦ ?_) fun _ ↦ moves_pure _
  · exact (FileTree.edits_makeWithParents hproper.parent hmake).1.mono fun _ ↦ False.elim
  · refine (FileTree.rewrites_write hproper hwrite).toEdits.mono ?_
    rintro l rfl
    exact ⟨e, he, hbundled, place_packedPath t directory e.1⟩

theorem moves_packOne {e : String × CompilerConfig} (hdirectory : directory.Proper) (he : e ∈ es)
    (hname : Config.isName e.1 = true) (m : Json) :
    Moves (KeepsOthers directory es) (packOne directory entry m e.1 e.2) := by
  rw [packOne]
  split
  · exact moves_bind (moves_say _) fun _ ↦ moves_pure m
  · rename_i hbundled
    rw [not_not] at hbundled
    refine moves_bind (moves_ofManifestResult _) fun taken ↦ ?_
    obtain ⟨items, rest⟩ := taken
    dsimp only
    split
    · exact moves_bind (moves_say _) fun _ ↦ moves_pure rest
    · exact moves_bind (moves_writePacked hdirectory he hname hbundled items) fun packed ↦
        moves_bind (moves_ofManifestResult _) fun m ↦ moves_bind (moves_say _) fun _ ↦ moves_pure m

/-! ## Runs that fail -/

/-- A step on the files that is a fault leaves them alone. -/
theorem eq_of_onFiles_eq_error {change : FileTree → Except Fault FileTree}
    (h : outcome (onFiles change) c = (.error e, c')) : c' = c := by
  rw [onFiles, outcome_get_bind] at h
  cases hchange : change c.files with
  | error f =>
    rw [hchange] at h
    cases h
    rfl
  | ok t =>
    rw [hchange] at h
    cases h

theorem state_loadConfig (file : String) (c : Console) : (outcome (loadConfig file) c).2 = c := by
  rw [loadConfig, outcome_get_bind]
  split
  · rfl
  · split <;> rfl

theorem state_selected (file : String) (name : Option String) (c : Console) :
    (outcome (selected file name) c).2 = c := by
  have hstate := state_loadConfig file c
  rw [selected, outcome_bind]
  rcases hload : outcome (loadConfig file) c with ⟨e | config, d⟩ <;> rw [hload] at hstate
  · exact hstate
  · dsimp only at hstate ⊢
    cases config.select name <;> exact hstate

theorem state_readManifest (manifestFile : String) (c : Console) :
    (outcome (readManifest manifestFile) c).2 = c := by
  rw [readManifest, outcome_get_bind]
  dsimp only
  split
  · rfl
  · split
    · rfl
    · split <;> rfl

/-- An error stays an error, with another message if a file is missing. -/
theorem outcome_missingStyle {α : Type} (e : Error) (c : Console) :
    ∃ e', outcome (missingStyle e : Command α) c = (.error e', c) := by
  unfold missingStyle
  split <;> exact ⟨_, rfl⟩

/-- The turns of configurations and the writing of the manifest fail with no other file written than
packed stylesheets. -/
theorem keepsOthers_of_turns (hes : Config.Named es)
    (h : outcome (do
      let packed ← es.foldlM (fun m e ↦ packOne (Path.ofText manifestFile).parent entry m e.1 e.2) m
      writeManifest (Path.ofText manifestFile) packed) c = (.error e, c')) :
    KeepsOthers (Path.ofText manifestFile).parent es c c' := by
  have hturns : Moves (KeepsOthers (Path.ofText manifestFile).parent es)
      (es.foldlM (fun m e ↦ packOne (Path.ofText manifestFile).parent entry m e.1 e.2) m) :=
    moves_foldlM (fun m e he ↦ moves_packOne (Path.proper_ofText _).parent he (hes.names e he) m) m
  rcases hfold : outcome (es.foldlM
    (fun m e ↦ packOne (Path.ofText manifestFile).parent entry m e.1 e.2) m) c with ⟨e' | packed, c₁⟩
  · rw [outcome_bind_of_error hfold] at h
    cases h
    exact hturns.of_outcome hfold
  · rw [outcome_bind_of_ok hfold] at h
    rw [eq_of_onFiles_eq_error h]
    exact hturns.of_outcome hfold

/-- A run that fails has not begun its turns, or it has read the configurations and the manifest and
has changed no other files than packed stylesheets. -/
theorem keepsOthers_of_pack (h : outcome (pack file name manifestFile entry) c = (.error e, c')) :
    c' = c ∨ ∃ es m, outcome (selected file name) c = (.ok es, c) ∧
      outcome (readManifest manifestFile) c = (.ok m, c) ∧
      KeepsOthers (Path.ofText manifestFile).parent es c c' := by
  have hstate := state_selected file name c
  rw [pack, outcome_bind] at h
  rcases hselected : outcome (selected file name) c with ⟨e' | es, c₁⟩ <;>
    rw [hselected] at h hstate <;> obtain rfl := hstate
  · cases h
    exact .inl rfl
  have hstate' := state_readManifest manifestFile c₁
  dsimp only at h
  rw [outcome_bind] at h
  rcases hmanifest : outcome (readManifest manifestFile) c₁ with ⟨e' | m, c₂⟩ <;>
    rw [hmanifest] at h hstate' <;> obtain rfl := hstate'
  · cases h
    exact .inl rfl
  refine .inr ⟨es, m, rfl, rfl, ?_⟩
  dsimp only at h
  rw [outcome_bind, outcome_tryCatch] at h
  rcases hturns : outcome (do
      let packed ← es.foldlM (fun m e ↦ packOne (Path.ofText manifestFile).parent entry m e.1 e.2) m
      writeManifest (Path.ofText manifestFile) packed) c₂ with ⟨e' | _, c₃⟩
  · obtain ⟨e'', hmissing⟩ := outcome_missingStyle (α := Unit) e' c₃
    rw [hturns] at h
    dsimp only at h
    rw [hmissing] at h
    cases h
    exact keepsOthers_of_turns (named_of_selected hselected) hturns
  · rw [hturns] at h
    cases h

/-- A manifest that is as it was is read as it was. -/
theorem outcome_readManifest_congr
    (h : c'.files.node? (Path.ofText manifestFile) = c.files.node? (Path.ofText manifestFile))
    (hread : outcome (readManifest manifestFile) c = (.ok m, c)) :
    outcome (readManifest manifestFile) c' = (.ok m, c') := by
  obtain ⟨hexists, ⟨text, htext, hm⟩, -⟩ := outcome_readManifest_eq_ok_iff.mp hread
  refine outcome_readManifest_eq_ok_iff.mpr ⟨?_, ⟨text, ?_, hm⟩, rfl⟩
  · rwa [FileTree.pathExists, h]
  · rw [Config.readText_eq_ok_iff] at htext ⊢
    simpa only [FileTree.read_eq_ok_iff_node?, h] using htext

/-- Packing that ends in an error leaves the manifest alone.  It is the same file as before, so it is
read as before, with all stylesheets of its chunks.  And wherever a file is after the run or was before
it, there is the same file at both times, unless that is the packed stylesheet of a selected
configuration for a bundler. -/
theorem failing_packing_keeps_files
    (h : outcome (pack file name manifestFile entry) c = (.error e, c')) :
    c'.files.node? (Path.ofText manifestFile) = c.files.node? (Path.ofText manifestFile) ∧
      (∀ m, outcome (readManifest manifestFile) c = (.ok m, c) →
        outcome (readManifest manifestFile) c' = (.ok m, c')) ∧
      ∀ l, (¬ ∃ es, outcome (selected file name) c = (.ok es, c) ∧
          PackedAt (Path.ofText manifestFile).parent es c.files l) →
        ∀ content mode modified, c'.files.at? l = some (.file content mode modified) ↔
          c.files.at? l = some (.file content mode modified) := by
  have hnode : c'.files.node? (Path.ofText manifestFile) =
      c.files.node? (Path.ofText manifestFile) := by
    rcases keepsOthers_of_pack h with rfl | ⟨es, m, -, hmanifest, hkeeps⟩
    · rfl
    · obtain ⟨hexists, -, -⟩ := outcome_readManifest_eq_ok_iff.mp hmanifest
      obtain ⟨n, hn⟩ := Option.isSome_iff_exists.mp hexists
      rw [hn]
      refine hkeeps.node? ?_ hn
      rintro ⟨e', -, -, hplace⟩
      rw [← place_packedPath] at hplace
      exact place_packedPath_ne _ _ _ hplace.symm
  refine ⟨hnode, fun m ↦ outcome_readManifest_congr hnode, fun l hl content mode modified ↦ ?_⟩
  rcases keepsOthers_of_pack h with rfl | ⟨es, m, hselected, -, hkeeps⟩
  · rfl
  · have hother : ¬ PackedAt (Path.ofText manifestFile).parent es c.files l :=
      fun hpacked ↦ hl ⟨es, hselected, hpacked⟩
    exact ⟨hkeeps.written hother, hkeeps.kept hother⟩

/-- What turns fail with is what the command fails with, unless a file is missing. -/
theorem outcome_pack_of_failing (hselected : outcome (selected file name) c = (.ok es, c))
    (hmanifest : outcome (readManifest manifestFile) c = (.ok m, c))
    (hturns : outcome (do
      let packed ← es.foldlM (fun m e ↦ packOne (Path.ofText manifestFile).parent entry m e.1 e.2) m
      writeManifest (Path.ofText manifestFile) packed) c = (.error e, c'))
    (hmissing : outcome (missingStyle e : Command Unit) c' = (.error e, c')) :
    outcome (pack file name manifestFile entry) c = (.error e, c') := by
  rw [pack, outcome_bind_of_ok hselected, outcome_bind_of_ok hmanifest]
  dsimp only
  rw [outcome_bind, outcome_tryCatch, hturns]
  dsimp only
  rw [hmissing]

/-- A build whose entry point is no chunk, with one card. -/
def listedManifest : Json :=
  .obj [("e.js", .arr []), ("k", .obj [("name", .str "app_X"), ("css", .arr [.str "x.css"])])]

/-- The files beside the manifest. -/
def listedFiles : List (Location × String) :=
  [(["icecube.yaml"], bundleText), (["build", "x.css"], "x")]

theorem plain_listedManifest : listedManifest.Plain :=
  plain_obj_iff.mpr ⟨by simp [Table.keys], List.forall_mem_cons.mpr ⟨by simp [Json.Plain,
    Json.PlainItems], List.forall_mem_singleton.mpr (plain_obj_iff.mpr ⟨by simp [Table.keys],
      by simp [Json.Plain, Json.PlainItems]⟩)⟩⟩

/-- Whether something has ended at a missing attribute. -/
def lacksAttribute {α : Type} : Except Error α → Bool
  | .error .noAttribute => true
  | _ => false

theorem lacksAttribute_iff {α : Type} {x : Except Error α} :
    lacksAttribute x = true ↔ x = .error .noAttribute := by
  rcases x with e | a
  · cases e <;> simp [lacksAttribute]
  · simp [lacksAttribute]

/-- The turns of the build fail at the entry point. -/
theorem outcome_listed : outcome (bundleStep listedManifest)
      (bundleConsole listedManifest listedFiles) =
    (.error .noAttribute,
      (outcome (bundleStep listedManifest) (bundleConsole listedManifest listedFiles)).2) := by
  have hfails : lacksAttribute (outcome (bundleStep listedManifest)
      (bundleConsole listedManifest listedFiles)).1 = true := by
    decide +kernel
  exact Prod.ext (lacksAttribute_iff.mp hfails) rfl

/-- The card is packed before it shows that the entry point cannot list it.  The manifest still lists
the stylesheet of the card, which is there as before. -/
theorem card_stays_listed : ∃ c',
    outcome (pack "icecube.yaml" none "build/manifest.json" "e.js")
        (bundleConsole listedManifest listedFiles) = (.error .noAttribute, c') ∧
      c'.files.read (Path.ofText "build/assets/icecube_a_styles.css") = .ok (Utf8.encode "x") ∧
      outcome (readManifest "build/manifest.json") c' = (.ok listedManifest, c') ∧
      c'.files.at? ["build", "x.css"] = some (.file (Utf8.encode "x") FileTree.fileMode 0) := by
  have hselected : outcome (selected "icecube.yaml" none) (bundleConsole listedManifest listedFiles) =
      (.ok bundleConfig.compilers, bundleConsole listedManifest listedFiles) :=
    outcome_selected_bundle rfl (toOption_eq_some_iff.mp (by decide +kernel))
  have hmanifest : outcome (readManifest "build/manifest.json")
      (bundleConsole listedManifest listedFiles) =
        (.ok listedManifest, bundleConsole listedManifest listedFiles) :=
    outcome_readManifest_of_read plain_listedManifest (toOption_eq_some_iff.mp (by decide +kernel))
  have hpack := outcome_pack_of_failing hselected hmanifest outcome_listed rfl
  obtain ⟨-, hread, hfiles⟩ := failing_packing_keeps_files hpack
  refine ⟨_, hpack, toOption_eq_some_iff.mp (by decide +kernel), hread _ hmanifest,
    (hfiles _ ?_ _ _ _).mpr (by decide +kernel)⟩
  -- the stylesheet of the card is not where the packed one is
  rintro ⟨es, hes, e, he, -, hplace⟩
  rw [hselected] at hes
  cases hes
  rw [List.mem_singleton.mp he] at hplace
  exact absurd hplace (by decide +kernel)

end Command

end IceCube
