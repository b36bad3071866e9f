import IceCube.Proofs.Command.Packing
import IceCube.Proofs.Compiler.Outputs

/-!
# Which chunks are packed for a configuration

A compiler covers the identifiers that go on from its prefix with a dot, and packing takes the
chunks whose names go on from the component name of the prefix in any way.  So packing takes every
chunk of a component that the compiler covers, and it takes no other chunk exactly if no name goes
on from the prefix within a segment.
-/

namespace IceCube

open Step Manifest

namespace Identifier

/-- A name goes on from the component name of a prefix with the mark of a dot. -/
def NameBelow (start name : String) : Prop := (flatten start ++ "_").toList <+: name.toList

instance (start name : String) : Decidable (NameBelow start name) :=
  inferInstanceAs (Decidable (_ <+: _))

end Identifier

namespace Compiler

/-- The component names of the identifiers that a compiler covers are the names below its prefix
that have no dots. -/
theorem exists_handles_iff {c : CompilerConfig}
    (hsegments : Config.isPrefixText c.namespacePrefix = true) (home : RegistryId) (name : String) :
    (∃ i, (ofConfig home c).handles i = true ∧ Identifier.flatten i = name) ↔
      Identifier.NameBelow c.namespacePrefix name ∧ '.' ∉ name.toList := by
  have hstart : (ofConfig home c).namespacePrefix = c.namespacePrefix :=
    Config.trimDots_of_isPrefixText hsegments
  constructor
  · rintro ⟨i, hi, rfl⟩
    rw [handles, hstart, Identifier.after?_isSome_iff] at hi
    obtain ⟨rest, rfl⟩ := hi
    refine ⟨?_, Identifier.dot_not_mem_flatten _⟩
    rw [Identifier.NameBelow, Identifier.flatten_below]
    exact List.prefix_append ..
  · rintro ⟨⟨rest, hrest⟩, hdot⟩
    have hrestDot : '.' ∉ (String.ofList rest).toList := by
      intro hmem
      rw [String.toList_ofList] at hmem
      exact hdot (by rw [← hrest]; exact List.mem_append_right _ hmem)
    refine ⟨Identifier.below c.namespacePrefix (String.ofList rest), ?_, ?_⟩
    · rw [handles, hstart, Identifier.after?_isSome_iff]
      exact ⟨_, rfl⟩
    · apply String.toList_injective
      rw [Identifier.flatten_below, Identifier.flatten_eq_self hrestDot, String.toList_ofList, hrest]

end Compiler

namespace Manifest

variable {start : String} {m rest : Json} {items : List Json}

/-- The chunk under a key has stylesheets. -/
def Styled (m : Json) (key : String) (chunk : Table String Json) : Prop :=
  chunk? m key = some chunk ∧ Table.get? chunk "css" ≠ none

/-- Between two manifests, the stylesheets of the chunk under a key were taken. -/
def Takes (m rest : Json) (key : String) : Prop :=
  (∃ chunk, Styled m key chunk) ∧ ∃ chunk, chunk? rest key = some chunk ∧ ¬ Styled rest key chunk

/-- Stylesheets are taken exactly from the chunks whose names go on from the prefix. -/
theorem takes_iff (h : extract start m = .ok (items, rest)) {key : String} :
    Takes m rest key ↔ ∃ chunk, Styled m key chunk ∧ start.toList <+: (chunkName chunk).toList := by
  constructor
  · rintro ⟨⟨chunk, hchunk, hcss⟩, left, hleft, hbare⟩
    refine ⟨chunk, ⟨hchunk, hcss⟩, matchesPrefix_iff.mp ?_⟩
    by_contra hother
    rw [Bool.not_eq_true] at hother
    have hsame := chunk?_of_extract h hchunk hother
    rw [hleft, Option.some.injEq] at hsame
    exact hbare ⟨hleft, by rwa [hsame]⟩
  · rintro ⟨chunk, hstyled, hmatches⟩
    have hmember := member?_of_extract h key
    rw [chunk?_eq_some_iff.mp hstyled.1, Option.map_some, relieved,
      if_pos (matchesPrefix_iff.mpr hmatches), ← chunk?_eq_some_iff] at hmember
    refine ⟨⟨chunk, hstyled⟩, _, hmember, fun hleft ↦ hleft.2 ?_⟩
    rw [Table.get?_erase, if_pos rfl]

end Manifest

namespace Command

variable {name entry : String} {cfg : CompilerConfig} {c c' : Console} {m m' : Json}
  {directory : Path}

/-- In the turn of a configuration, packing takes the stylesheets of the chunks whose names go on
from the component name of its prefix.  These include all chunks of components that its compiler
covers, and they are no others exactly if no chunk with stylesheets has a name that goes on in
another way than with the mark of a dot. -/
theorem packing_takes_covered_iff (hsegments : Config.isPrefixText cfg.namespacePrefix = true)
    (hbundled : cfg.scriptStrategy = .externalBundler)
    (hturn : outcome (packOne directory entry m name cfg) c = (.ok m', c')) (home : RegistryId) :
    ∃ items rest, extract (Identifier.flatten cfg.namespacePrefix) m = .ok (items, rest) ∧
      (∀ key, Takes m rest key ↔ ∃ chunk, Styled m key chunk ∧
        (Identifier.flatten cfg.namespacePrefix).toList <+: (chunkName chunk).toList) ∧
      (∀ text, (∃ i, (Compiler.ofConfig home cfg).handles i = true ∧ Identifier.flatten i = text) ↔
        Identifier.NameBelow cfg.namespacePrefix text ∧ '.' ∉ text.toList) ∧
      (∀ key chunk, Styled m key chunk →
        Identifier.NameBelow cfg.namespacePrefix (chunkName chunk) → Takes m rest key) ∧
      ((∀ key, Takes m rest key ↔ ∃ chunk, Styled m key chunk ∧
          Identifier.NameBelow cfg.namespacePrefix (chunkName chunk)) ↔
        ∀ key chunk, Styled m key chunk →
          (Identifier.flatten cfg.namespacePrefix).toList <+: (chunkName chunk).toList →
          Identifier.NameBelow cfg.namespacePrefix (chunkName chunk)) := by
  rw [packOne, if_neg (by simpa using hbundled)] at hturn
  obtain ⟨⟨items, rest⟩, c₁, hextract, -⟩ := outcome_bind_eq_ok.mp hturn
  obtain ⟨hextracted, -⟩ := outcome_ofManifestResult_eq_ok hextract
  have hstart {text : String} (h : Identifier.NameBelow cfg.namespacePrefix text) :
      (Identifier.flatten cfg.namespacePrefix).toList <+: text.toList := by
    rw [Identifier.NameBelow, String.toList_append] at h
    exact (List.prefix_append ..).trans h
  have htakes (key : String) : Takes m rest key ↔ ∃ chunk, Styled m key chunk ∧
      (Identifier.flatten cfg.namespacePrefix).toList <+: (chunkName chunk).toList :=
    takes_iff hextracted
  refine ⟨items, rest, hextracted, htakes, Compiler.exists_handles_iff hsegments home, ?_, ?_, ?_⟩
  · intro key chunk hstyled hbelow
    exact (htakes key).mpr ⟨chunk, hstyled, hstart hbelow⟩
  · intro hagree key chunk hstyled hmatches
    obtain ⟨chunk', hstyled', hbelow⟩ := (hagree key).mp ((htakes key).mpr ⟨chunk, hstyled, hmatches⟩)
    cases hstyled.1.symm.trans hstyled'.1
    exact hbelow
  · intro hnames key
    rw [htakes]
    constructor
    · rintro ⟨chunk, hstyled, hmatches⟩
      exact ⟨chunk, hstyled, hnames key chunk hstyled hmatches⟩
    · rintro ⟨chunk, hstyled, hbelow⟩
      exact ⟨chunk, hstyled, hstart hbelow⟩

/-- A configuration whose prefix goes on within a segment in the name of another component. -/
def kitConfig : CompilerConfig where
  namespacePrefix := "app.ui"
  sourceDir := .ofText "/ui"
  compiledCodeDir := .ofText "/out"
  compiledAssetsDir := .ofText "/out"
  publicUrl := "u"
  scriptStrategy := .externalBundler
  styleStrategy := .scopingOnly
  cacheEnabled := false
  cacheFile := none

/-- A card below the prefix, and one of another configuration. -/
def kitManifest : Json :=
  .obj [("card.js", .obj [("name", .str "app_ui_Card"), ("css", .arr [.str "a.css"])]),
    ("kit.js", .obj [("name", .str "app_uikit_Card"), ("css", .arr [.str "b.css"])])]

/-- The files of both cards. -/
def kitConsole : Console := start
  { nodes := [([], .directory FileTree.parentMode),
      (["a.css"], .file (Utf8.encode "a") FileTree.fileMode 0),
      (["b.css"], .file (Utf8.encode "b") FileTree.fileMode 0)]
    current := []
    clock := 1 } ⟨none, none⟩

theorem takes_covered_ui :
    (outcome (packOne (.ofText ".") "e.js" kitManifest "ui" kitConfig) kitConsole).1.toOption.isSome =
        true ∧
      ∃ items rest, extract "app_ui" kitManifest = .ok (items, rest) ∧
        (∀ key chunk, Styled kitManifest key chunk →
          Identifier.NameBelow "app.ui" (chunkName chunk) → Takes kitManifest rest key) := by
  have hturn : (outcome (packOne (.ofText ".") "e.js" kitManifest "ui" kitConfig)
      kitConsole).1.toOption.isSome = true := by decide +kernel
  obtain ⟨m', c', h, -⟩ := exists_outcome_eq_ok (P := fun _ ↦ True) hturn trivial
  have hflat : Identifier.flatten kitConfig.namespacePrefix = "app_ui" := by decide
  obtain ⟨items, rest, hextract, -, -, htakes, -⟩ :=
    packing_takes_covered_iff (by decide) rfl h ""
  rw [hflat] at hextract
  exact ⟨hturn, items, rest, hextract, htakes⟩

/-- The stylesheets of a card that no covered identifier leads to are taken as well. -/
theorem takes_uikit_for_ui : ∃ items rest,
    extract (Identifier.flatten kitConfig.namespacePrefix) kitManifest = .ok (items, rest) ∧
      Takes kitManifest rest "kit.js" ∧
      (∃ chunk, Styled kitManifest "kit.js" chunk ∧ chunkName chunk = "app_uikit_Card") ∧
      ¬ Identifier.NameBelow kitConfig.namespacePrefix "app_uikit_Card" ∧
      ∀ i, (Compiler.ofConfig "" kitConfig).handles i = true →
        Identifier.flatten i ≠ "app_uikit_Card" := by
  have hextract : (extract (Identifier.flatten kitConfig.namespacePrefix)
      kitManifest).toOption.isSome = true := by decide +kernel
  obtain ⟨⟨items, rest⟩, hrest⟩ := Option.isSome_iff_exists.mp hextract
  have hextracted := toOption_eq_some_iff.mp hrest
  have hkit : Styled kitManifest "kit.js"
      [("name", .str "app_uikit_Card"), ("css", .arr [.str "b.css"])] := ⟨rfl, by simp [Table.get?]⟩
  have hname : ¬ Identifier.NameBelow kitConfig.namespacePrefix "app_uikit_Card" := by decide
  refine ⟨items, rest, hextracted, (takes_iff hextracted).mpr ⟨_, hkit, by decide⟩,
    ⟨_, hkit, rfl⟩, hname, fun i hi hflat ↦ hname ?_⟩
  exact ((Compiler.exists_handles_iff (by decide) "" _).mp ⟨i, hi, hflat⟩).1

end Command

end IceCube
