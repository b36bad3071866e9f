import IceCube.Proofs.Command.Packing

/-!
# Stylesheets that are delivered after packing

A stylesheet that a chunk lists is read and joined into the packed one when the chunk is packed, and
otherwise it stays on its list.  The packed stylesheet of a configuration is written without a look
at what is there, so what was packed by an earlier run and is on the list of a chunk that is not
packed again is lost.  Nothing else is: the text of every other stylesheet is part of the text of a
file that the manifest lists after the run.
-/

namespace IceCube

open Step Manifest

/-! ## Texts that are joined -/

theorem Text.return_not_mem_unify (s : String) : '\r' ∉ (unify s).toList := by
  rw [unify, String.toList_ofList]
  generalize s.toList = cs
  fun_induction unifyNewlines cs with
  | case1 => exact List.not_mem_nil
  | case2 cs ih => simpa using ih
  | case3 cs h ih => simpa using ih
  | case4 c cs h hc ih =>
    rw [List.mem_cons, not_or]
    exact ⟨fun heq ↦ hc heq.symm, ih⟩

section Intercalate

variable {α : Type} {sep : List α} {ps : List (List α)}

theorem infix_intercalate {p : List α} (h : p ∈ ps) : p <:+: List.intercalate sep ps := by
  induction ps with
  | nil => cases h
  | cons q ps ih =>
    cases ps with
    | nil =>
      rw [List.mem_singleton.mp h, List.intercalate_singleton]
    | cons r ps =>
      rw [List.intercalate_cons_cons]
      rcases List.mem_cons.mp h with rfl | h
      · exact ((List.prefix_append _ _).trans (List.prefix_append _ _)).isInfix
      · exact (ih h).trans (List.suffix_append _ _).isInfix

theorem not_mem_intercalate {c : α} (hsep : c ∉ sep) (h : ∀ p ∈ ps, c ∉ p) :
    c ∉ List.intercalate sep ps := by
  induction ps with
  | nil => simp
  | cons q ps ih =>
    obtain ⟨hq, hps⟩ := List.forall_mem_cons.mp h
    cases ps with
    | nil => rwa [List.intercalate_singleton]
    | cons r ps =>
      rw [List.intercalate_cons_cons, List.mem_append, List.mem_append]
      rintro ((hc | hc) | hc)
      · exact hq hc
      · exact hsep hc
      · exact ih hps hc

end Intercalate

/-- Each of some texts is part of what they are joined to. -/
theorem infix_joined {texts : List String} {text : String} (h : text ∈ texts) :
    text.toList <:+: ("\n".intercalate texts).toList := by
  rw [String.toList_intercalate]
  exact infix_intercalate (List.mem_map_of_mem h)

namespace Config

theorem return_not_mem_of_readText {files : FileTree} {p : Path} {text : String}
    (h : readText files p = .ok text) : '\r' ∉ text.toList := by
  obtain ⟨content, s, -, -, rfl⟩ := readText_eq_ok_iff.mp h
  exact Text.return_not_mem_unify s

theorem readText_of_grows {O : Location → Prop} {t u : FileTree} {p : Path} {text : String}
    (hgrows : FileTree.Grows O t u) (hO : ¬ O (t.place p)) (h : readText t p = .ok text) :
    readText u p = .ok text := by
  obtain ⟨content, s, hread, hs⟩ := readText_eq_ok_iff.mp h
  exact readText_eq_ok_iff.mpr ⟨content, s, hgrows.read hO hread, hs⟩

end Config

namespace Manifest

variable {start name entry file : String} {m m' rest : Json} {items : List Json}
  {chunk : Table String Json}

theorem Lists.congr {chunk' : Table String Json} (h : Lists chunk file)
    (hcss : Table.get? chunk' "css" = Table.get? chunk "css") : Lists chunk' file := by
  obtain ⟨css, its, hget, hrest⟩ := h
  exact ⟨css, its, hcss.trans hget, hrest⟩

/-- The stylesheets of a chunk are no single text. -/
def Listed (chunk : Table String Json) : Prop := ∀ s, Table.get? chunk "css" ≠ some (.str s)

theorem chunk?_addPacked_of_ne (h : addPacked name entry m = .ok m')
    (hentry : packedName name ≠ entry) {key : String} (hkey : key ≠ entry)
    (hpacked : key ≠ packedName name) : chunk? m' key = chunk? m key := by
  obtain ⟨chunks, chunk, css, rfl, -, -, rfl⟩ := addPacked_eq_ok h hentry
  rw [chunk?, chunk?, member?_obj, member?_obj, Table.get?_insert_of_ne _ _ hkey.symm,
    Table.get?_insert_of_ne _ _ hpacked.symm]

/-- The chunk that a packed stylesheet is added to. -/
theorem entry_of_getD {chunks : Table String Json}
    (hchunk : (Table.get? chunks entry).getD (.obj []) = .obj chunk) :
    chunk = [] ∨ chunk? (.obj chunks) entry = some chunk := by
  cases hget : Table.get? chunks entry with
  | none =>
    rw [hget, Option.getD_none, Json.obj.injEq] at hchunk
    exact .inl hchunk.symm
  | some v =>
    rw [hget, Option.getD_some] at hchunk
    exact .inr (chunk?_eq_some_iff.mpr (by rw [member?_obj, hget, hchunk]))

/-- The entry point lists the packed stylesheet, and all that it has listed before. -/
theorem entry_of_addPacked (h : addPacked name entry m = .ok m') (hentry : packedName name ≠ entry)
    (hlisted : ∀ chunk, chunk? m entry = some chunk → Listed chunk) :
    ∃ chunk, chunk? m' entry = some chunk ∧ Listed chunk ∧ Lists chunk (packedFile name) ∧
      ∀ before, chunk? m entry = some before →
        Table.get? chunk "name" = Table.get? before "name" ∧
        ∀ file, Lists before file → Lists chunk file := by
  obtain ⟨chunks, chunk, css, rfl, hchunk, hcss, rfl⟩ := addPacked_eq_ok h hentry
  have hstyles : ∀ s, (Table.get? chunk "css").getD (.arr []) ≠ .str s := by
    intro s hs
    cases hget : Table.get? chunk "css" with
    | none =>
      rw [hget] at hs
      cases hs
    | some v =>
      rw [hget, Option.getD_some] at hs
      rcases entry_of_getD hchunk with rfl | hbefore
      · cases hget
      · exact hlisted chunk hbefore s (by rw [hget, hs])
  obtain ⟨hlisted', its, hits, hmem, hsub⟩ := withStyle_eq_ok hcss hstyles
  have hget : Table.get? (Table.insert chunk "css" css) "css" = some css :=
    Table.get?_insert_self ..
  refine ⟨Table.insert chunk "css" css, ?_, ?_, ⟨css, its, hget, hits, hmem⟩,
    fun before hbefore ↦ ?_⟩
  · rw [chunk?_eq_some_iff, member?_obj, Table.get?_insert_self]
  · intro s hs
    rw [hget, Option.some.injEq] at hs
    exact hlisted' s hs
  · have hsame : chunk = before := by
      rw [chunk?_eq_some_iff, member?_obj] at hbefore
      rw [hbefore, Option.getD_some, Json.obj.injEq] at hchunk
      exact hchunk.symm
    subst hsame
    refine ⟨Table.get?_insert_of_ne chunk css (by decide), fun file hfile ↦ ?_⟩
    obtain ⟨css', its', hcss', hits', hfile'⟩ := hfile
    rw [hcss', Option.getD_some] at hsub
    exact ⟨css, its, hget, hits, hsub its' hits' hfile'⟩

end Manifest

namespace Command

variable {file manifestFile entry text : String} {name : Option String} {c c' : Console}
  {e : String × CompilerConfig} {es : Table String CompilerConfig} {m m' : Json}
  {directory : Path} {u v w : FileTree} {l : Location} {chunk : Table String Json}

/-! ## What a turn keeps -/

/-- A manifest that packed stylesheets can be added to with no list taken away: the entry point is
none of them and has a list, and they have none. -/
structure Ready (entry : String) (es : Table String CompilerConfig) (m : Json) : Prop where
  apart : ∀ e ∈ es, e.2.scriptStrategy = .externalBundler → packedName e.1 ≠ entry
  listed : ∀ chunk, chunk? m entry = some chunk → Listed chunk
  bare : ∀ e ∈ es, e.2.scriptStrategy = .externalBundler →
    ∀ chunk, chunk? m (packedName e.1) = some chunk → ∀ file, ¬ Lists chunk file

/-- A stylesheet of a chunk that no turn writes to before the chunk is packed: it is not at the
location of the manifest, and where it is at that of the packed stylesheet of a configuration, the
chunk is one of those that are packed for the configuration. -/
structure Spared (directory : Path) (es : Table String CompilerConfig) (files : FileTree)
    (l : Location) (chunk : Table String Json) (file : String) : Prop where
  manifest : files.place (directory.joinText file) ≠ l
  packed : ∀ e ∈ es, e.2.scriptStrategy = .externalBundler →
    files.place (directory.joinText file) = files.place (packedPath directory e.1) →
      (Identifier.flatten e.2.namespacePrefix).toList <+: (chunkName chunk).toList

/-- Some chunk of a manifest lists a file whose text contains a text. -/
def Delivers (directory : Path) (m : Json) (files : FileTree) (text : String) : Prop :=
  ∃ key chunk file whole, chunk? m key = some chunk ∧ Lists chunk file ∧
    Config.readText files (directory.joinText file) = .ok whole ∧ text.toList <:+: whole.toList

/-- A text that is delivered, and stays so while configurations have their turns. -/
def Held (directory : Path) (es : Table String CompilerConfig) (l : Location) (m : Json)
    (files : FileTree) (text : String) : Prop :=
  ∃ key chunk file whole, chunk? m key = some chunk ∧ Lists chunk file ∧
    Config.readText files (directory.joinText file) = .ok whole ∧ text.toList <:+: whole.toList ∧
    Spared directory es files l chunk file

theorem Spared.tail (h : Spared directory (e :: es) u l chunk file) :
    Spared directory es u l chunk file where
  manifest := h.manifest
  packed e' he' := h.packed e' (List.mem_cons_of_mem _ he')

theorem Spared.grows {O : Location → Prop} (h : Spared directory es u l chunk file)
    (hgrows : FileTree.Grows O u v) : Spared directory es v l chunk file where
  manifest := by
    rw [hgrows.place]
    exact h.manifest
  packed e he hbundled hplace := by
    rw [hgrows.place, hgrows.place] at hplace
    exact h.packed e he hbundled hplace

/-- The packed stylesheet of a configuration is at no place where a later turn writes. -/
theorem spared_packedFile (hnamed : Config.Named (e :: es))
    (hl : ∀ name, u.place (packedPath directory name) ≠ l) (chunk : Table String Json) :
    Spared directory es u l chunk (packedFile e.1) := by
  have hname := hnamed.names e (List.mem_cons_self ..)
  refine ⟨?_, fun e' he' _ hplace ↦ ?_⟩
  · rw [joinText_packedFile hname]
    exact hl e.1
  · rw [joinText_packedFile hname] at hplace
    refine absurd ?_ (List.nodup_cons.mp hnamed.nodup).1
    rw [name_eq_of_place hplace]
    exact List.mem_map_of_mem he'

theorem exists_text_of_reads {items : List Json} {texts : List String} {item : Json}
    (h : List.Forall₂ (Reads directory u) items texts) (hitem : item ∈ items) :
    ∃ text ∈ texts, Reads directory u item text := by
  induction h with
  | nil => cases hitem
  | @cons item' text items texts hread _ ih =>
    rcases List.mem_cons.mp hitem with rfl | hitem
    · exact ⟨text, List.mem_cons_self .., hread⟩
    · obtain ⟨text', htext', hread'⟩ := ih hitem
      exact ⟨text', List.mem_cons_of_mem _ htext', hread'⟩

theorem return_not_mem_of_reads {items : List Json} {texts : List String}
    (h : List.Forall₂ (Reads directory u) items texts) : ∀ t ∈ texts, '\r' ∉ t.toList := by
  induction h with
  | nil => simp
  | cons hread _ ih =>
    obtain ⟨file, -, htext⟩ := hread
    exact List.forall_mem_cons.mpr ⟨Config.return_not_mem_of_readText htext, ih⟩

/-- The packed stylesheet has the texts of all that were packed. -/
theorem readText_packed {items : List Json} {texts : List String}
    (h : List.Forall₂ (Reads directory u) items texts)
    (hwritten : v.read (packedPath directory e.1) =
      .ok (Utf8.encode ("\n".intercalate texts))) :
    Config.readText v (packedPath directory e.1) = .ok ("\n".intercalate texts) := by
  refine Config.readText_of_read ?_ hwritten
  rw [String.toList_intercalate]
  refine not_mem_intercalate (by decide) fun p hp ↦ ?_
  obtain ⟨t, ht, rfl⟩ := List.mem_map.mp hp
  exact return_not_mem_of_reads h t ht

theorem Ready.tail (h : Ready entry (e :: es) m) : Ready entry es m where
  apart := (List.forall_mem_cons.mp h.apart).2
  listed := h.listed
  bare := (List.forall_mem_cons.mp h.bare).2

theorem Ready.extract {start : String} {items : List Json} {rest : Json} (h : Ready entry es m)
    (hextracted : Manifest.extract start m = .ok (items, rest)) : Ready entry es rest where
  apart := h.apart
  listed chunk hchunk s hs := by
    obtain ⟨before, hbefore, -, hleft⟩ := exists_of_chunk?_extract hextracted hchunk
    split at hleft
    · rw [hleft] at hs
      cases hs
    · exact h.listed before hbefore s (by rw [← hleft, hs])
  bare e he hbundled chunk hchunk file hfile := by
    obtain ⟨before, hbefore, -, hleft⟩ := exists_of_chunk?_extract hextracted hchunk
    split at hleft
    · obtain ⟨css, its, hcss, -⟩ := hfile
      rw [hleft] at hcss
      cases hcss
    · exact h.bare e he hbundled before hbefore file (by rwa [← hleft])

theorem PackTurn.ready (h : PackTurn directory entry e m u m' v) (hnamed : Config.Named (e :: es))
    (hready : Ready entry (e :: es) m) : Ready entry es m' := by
  cases h with
  | skipped _ => exact hready.tail
  | nothing _ extracted => exact (hready.extract extracted).tail
  | packed bundled extracted _ _ _ added =>
    have hrest := hready.extract extracted
    have hentry := hready.apart e (List.mem_cons_self ..) bundled
    obtain ⟨chunk', hchunk', hlisted, -⟩ := entry_of_addPacked added hentry hrest.listed
    refine ⟨hrest.tail.apart, fun chunk hchunk ↦ ?_, fun e' he' hbundled chunk hchunk ↦ ?_⟩
    · rwa [← Option.some.inj (hchunk'.symm.trans hchunk)]
    · have hne : packedName e'.1 ≠ packedName e.1 := by
        intro heq
        refine (List.nodup_cons.mp hnamed.nodup).1 ?_
        rw [← packedName_injective heq]
        exact List.mem_map_of_mem he'
      rw [chunk?_addPacked_of_ne added hentry (hrest.tail.apart e' he' hbundled) hne] at hchunk
      exact hrest.tail.bare e' he' hbundled chunk hchunk

/-- A text that is delivered before a turn is delivered after it: a chunk that is packed gives its
files to the packed stylesheet, and any other keeps them on its list. -/
theorem PackTurn.held (h : PackTurn directory entry e m u m' v) (hnamed : Config.Named (e :: es))
    (hready : Ready entry (e :: es) m) (hl : ∀ name, u.place (packedPath directory name) ≠ l)
    (hheld : Held directory (e :: es) l m u text) : Held directory es l m' v text := by
  have hplace := h.grows.place
  obtain ⟨key, chunk, file, whole, hchunk, hlists, hread, hinfix, hspared⟩ := hheld
  cases h with
  | skipped _ => exact ⟨key, chunk, file, whole, hchunk, hlists, hread, hinfix, hspared.tail⟩
  | nothing bundled extracted =>
    have hother : matchesPrefix (Identifier.flatten e.2.namespacePrefix) chunk = false := by
      by_contra hmatches
      rw [Bool.not_eq_false] at hmatches
      exact absurd (mem_of_extract extracted hchunk hmatches hlists) List.not_mem_nil
    exact ⟨key, chunk, file, whole, chunk?_of_extract extracted hchunk hother, hlists, hread, hinfix,
      hspared.tail⟩
  | packed bundled extracted reads grows written added =>
    have hrest := hready.extract extracted
    have hentry := hready.apart e (List.mem_cons_self ..) bundled
    obtain ⟨chunk', hchunk', -, hpacked, hkept⟩ := entry_of_addPacked added hentry hrest.listed
    cases hmatches : matchesPrefix (Identifier.flatten e.2.namespacePrefix) chunk with
    | true =>
      -- the file is one of those that were joined
      obtain ⟨whole', hwhole, file', heq, hread'⟩ :=
        exists_text_of_reads reads (mem_of_extract extracted hchunk hmatches hlists)
      cases heq
      cases hread.symm.trans hread'
      refine ⟨entry, chunk', packedFile e.1, _, hchunk', hpacked, ?_,
        hinfix.trans (infix_joined hwhole), (spared_packedFile hnamed hl chunk').grows grows⟩
      rw [joinText_packedFile (hnamed.names e (List.mem_cons_self ..))]
      exact readText_packed reads written
    | false =>
      have hleft := chunk?_of_extract extracted hchunk hmatches
      have hfree : u.place (directory.joinText file) ≠ u.place (packedPath directory e.1) := by
        intro hplaced
        have h := hspared.packed e (List.mem_cons_self ..) bundled hplaced
        rw [← matchesPrefix_iff, hmatches] at h
        cases h
      have hread' := Config.readText_of_grows grows hfree hread
      by_cases hkey : key = entry
      · subst hkey
        obtain ⟨hname, hlisted⟩ := hkept chunk hleft
        refine ⟨key, chunk', file, whole, hchunk', hlisted file hlists, hread', hinfix, ?_⟩
        refine ⟨(hspared.grows grows).manifest, fun e' he' hbundled' hplaced ↦ ?_⟩
        rw [chunkName_congr hname]
        exact (hspared.tail.grows grows).packed e' he' hbundled' hplaced
      · have hne : key ≠ packedName e.1 := by
          rintro rfl
          exact hrest.bare e (List.mem_cons_self ..) bundled chunk hleft file hlists
        exact ⟨key, chunk, file, whole, (chunk?_addPacked_of_ne added hentry hkey hne).trans hleft,
          hlists, hread', hinfix, hspared.tail.grows grows⟩

theorem PackRun.held (h : PackRun directory entry es m u m' w) (hnamed : Config.Named es)
    (hready : Ready entry es m) (hl : ∀ name, u.place (packedPath directory name) ≠ l)
    (hheld : Held directory es l m u text) : Held directory [] l m' w text := by
  induction h with
  | nil m u => exact hheld
  | @cons e es m m₁ m' u v w turn rest ih =>
    refine ih hnamed.tail (turn.ready hnamed hready) (fun name ↦ ?_)
      (turn.held hnamed hready hl hheld)
    rw [turn.grows.place]
    exact hl name

/-! ## The whole run -/

/-- After a run that succeeds, the text that a listed stylesheet has had is part of the text of a
file that the written manifest lists, provided that packed stylesheets can be added to the manifest
with no list taken away, and that nothing is written to the stylesheet before it is packed. -/
theorem packing_delivers_spared (hselected : outcome (selected file name) c = (.ok es, c))
    (hmanifest : outcome (readManifest manifestFile) c = (.ok m, c))
    (hrun : outcome (pack file name manifestFile entry) c = (.ok (), c'))
    (hready : Ready entry es m) {key style : String} (hchunk : chunk? m key = some chunk)
    (hlists : Lists chunk style)
    (htext : Config.readText c.files ((Path.ofText manifestFile).parent.joinText style) = .ok text)
    (hspared : Spared (Path.ofText manifestFile).parent es c.files
      (c.files.place (Path.ofText manifestFile)) chunk style) :
    ∃ m', outcome (readManifest manifestFile) c' = (.ok m', c') ∧
      Delivers (Path.ofText manifestFile).parent m' c'.files text := by
  obtain ⟨es', m₁, m', v, hselected', hmanifest', hpacked, hwrite, -⟩ := exists_of_pack hrun
  cases hselected.symm.trans hselected'
  cases hmanifest.symm.trans hmanifest'
  have hproper := Path.proper_ofText manifestFile
  have hrewrites := FileTree.rewrites_write hproper hwrite
  have hplain : m'.Plain := by
    obtain ⟨-, ⟨text, -, hread⟩, -⟩ := outcome_readManifest_eq_ok_iff.mp hmanifest
    exact hpacked.plain hready.apart (Json.plain_of_read hread)
  obtain ⟨key', chunk', style', whole, hchunk', hlists', hread, hinfix, hspared'⟩ :=
    hpacked.held (named_of_selected hselected) hready
      (place_packedPath_ne c.files (Path.ofText manifestFile))
      ⟨key, chunk, style, text, hchunk, hlists, htext, List.infix_rfl, hspared⟩
  refine ⟨m', outcome_readManifest_of_read hplain (FileTree.read_write hproper hwrite), key', chunk',
    style', whole, hchunk', hlists', ?_, hinfix⟩
  refine Config.readText_of_grows hrewrites.toGrows ?_ hread
  rw [hpacked.grows.place (Path.ofText manifestFile)]
  exact hspared'.manifest

/-- A build that was packed before and has one more card since. -/
def heirManifest : Json :=
  .obj [("e.js", .obj [("css", .arr [.str "assets/icecube_a_styles.css"])]),
    ("k", .obj [("name", .str "app_X"), ("css", .arr [.str "x.css"])])]

/-- The manifest when the card is packed as well. -/
def heirPacked : Json :=
  .obj [("e.js", .obj [("css", .arr [.str "assets/icecube_a_styles.css"])]),
    ("k", .obj [("name", .str "app_X")]), ("icecube_a_styles.css", packedChunk "a")]

/-- The files beside the manifest. -/
def heirFiles : List (Location × String) :=
  [(["icecube.yaml"], bundleText), (["build", "assets", "icecube_a_styles.css"], "old"),
    (["build", "x.css"], "x")]

theorem plain_heirManifest : heirManifest.Plain := by
  refine plain_obj_iff.mpr ⟨by simp [Table.keys], List.forall_mem_cons.mpr ⟨?_,
    List.forall_mem_singleton.mpr ?_⟩⟩
  · exact plain_obj_iff.mpr ⟨by simp [Table.keys], by simp [Json.Plain, Json.PlainItems]⟩
  · exact plain_obj_iff.mpr ⟨by simp [Table.keys], by simp [Json.Plain, Json.PlainItems]⟩

theorem plain_heirPacked : heirPacked.Plain := by
  let rest : Json := .obj [("e.js", .obj [("css", .arr [.str "assets/icecube_a_styles.css"])]),
    ("k", .obj [("name", .str "app_X")])]
  have hextract : extract "app" heirManifest = .ok ([.str "x.css"], rest) := rfl
  have hadd : addPacked "a" "e.js" rest = .ok heirPacked := rfl
  exact plain_of_addPacked hadd (by decide) (plain_of_extract hextract plain_heirManifest)

theorem lists_heirPacked {key : String} (hchunk : chunk? heirPacked key = some chunk)
    (hfile : Lists chunk file) : file = "assets/icecube_a_styles.css" := by
  obtain ⟨css, items, hcss, hitems, hmem⟩ := hfile
  have hentry := Table.mem_of_get? (chunk?_eq_some_iff.mp hchunk)
  simp only [List.mem_cons, Prod.mk.injEq, Json.obj.injEq, List.not_mem_nil, or_false,
    packedChunk] at hentry
  rcases hentry with ⟨-, rfl⟩ | ⟨-, rfl⟩ | ⟨-, rfl⟩
  · cases hcss
    cases hitems
    simpa using hmem
  · cases hcss
  · cases hcss

theorem pack_heir :
    outcome (selected "icecube.yaml" none) (bundleConsole heirManifest heirFiles) =
        (.ok bundleConfig.compilers, bundleConsole heirManifest heirFiles) ∧
      outcome (readManifest "build/manifest.json") (bundleConsole heirManifest heirFiles) =
        (.ok heirManifest, bundleConsole heirManifest heirFiles) ∧
      outcome (pack "icecube.yaml" none "build/manifest.json" "e.js")
        (bundleConsole heirManifest heirFiles) = (.ok (), bundleEnd heirManifest heirFiles) :=
  pack_bundle plain_heirManifest (by decide +kernel) (by decide +kernel) (by decide +kernel)

theorem ready_heir : Ready "e.js" bundleConfig.compilers heirManifest where
  apart := by simp [bundleConfig, packedName]
  listed chunk hchunk s hs := by
    cases Option.some.inj hchunk
    cases hs
  bare := by
    intro e he hbundled chunk hchunk
    cases List.mem_singleton.mp he
    cases hchunk

/-- The stylesheet of the new card is delivered. -/
theorem heir_delivers_card :
    outcome (pack "icecube.yaml" none "build/manifest.json" "e.js")
        (bundleConsole heirManifest heirFiles) = (.ok (), bundleEnd heirManifest heirFiles) ∧
      ∃ m', outcome (readManifest "build/manifest.json") (bundleEnd heirManifest heirFiles) =
          (.ok m', bundleEnd heirManifest heirFiles) ∧
        Delivers (Path.ofText "build/manifest.json").parent m'
          (bundleEnd heirManifest heirFiles).files "x" := by
  obtain ⟨hselected, hmanifest, hrun⟩ := pack_heir
  have hcard : chunk? heirManifest "k" =
      some [("name", .str "app_X"), ("css", .arr [.str "x.css"])] := rfl
  have htext : (Config.readText (bundleConsole heirManifest heirFiles).files
      ((Path.ofText "build/manifest.json").parent.joinText "x.css")).toOption = some "x" := by
    decide +kernel
  refine ⟨hrun, packing_delivers_spared hselected hmanifest hrun ready_heir hcard
    ⟨_, _, rfl, rfl, List.mem_singleton_self _⟩ (toOption_eq_some_iff.mp htext) ⟨?_, ?_⟩⟩
  · decide +kernel
  · intro e he _ _
    cases List.mem_singleton.mp he
    decide

/-- The stylesheet that was packed before is written over, and its text is delivered no more. -/
theorem heir_loses_packed :
    outcome (pack "icecube.yaml" none "build/manifest.json" "e.js")
        (bundleConsole heirManifest heirFiles) = (.ok (), bundleEnd heirManifest heirFiles) ∧
      (∃ chunk, chunk? heirManifest "e.js" = some chunk ∧
        Lists chunk "assets/icecube_a_styles.css") ∧
      Config.readText (bundleConsole heirManifest heirFiles).files
        ((Path.ofText "build/manifest.json").parent.joinText "assets/icecube_a_styles.css") =
          .ok "old" ∧
      ∀ m', outcome (readManifest "build/manifest.json") (bundleEnd heirManifest heirFiles) =
          (.ok m', bundleEnd heirManifest heirFiles) →
        ¬ Delivers (Path.ofText "build/manifest.json").parent m'
          (bundleEnd heirManifest heirFiles).files "old" := by
  have hold : (Config.readText (bundleConsole heirManifest heirFiles).files
      ((Path.ofText "build/manifest.json").parent.joinText
        "assets/icecube_a_styles.css")).toOption = some "old" := by decide +kernel
  have hnew : (Config.readText (bundleEnd heirManifest heirFiles).files
      ((Path.ofText "build/manifest.json").parent.joinText
        "assets/icecube_a_styles.css")).toOption = some "x" := by decide +kernel
  have hwritten : ((bundleEnd heirManifest heirFiles).files.read
      (Path.ofText "build/manifest.json")).toOption =
        some (Utf8.encode (heirPacked.pretty ++ "\n")) := by decide +kernel
  refine ⟨pack_heir.2.2, ⟨_, rfl, _, _, rfl, rfl, List.mem_singleton_self _⟩,
    toOption_eq_some_iff.mp hold, fun m' hread ↦ ?_⟩
  cases hread.symm.trans (outcome_readManifest_of_read plain_heirPacked
    (toOption_eq_some_iff.mp hwritten))
  rintro ⟨key, chunk, file, whole, hchunk, hlists, htext, hinfix⟩
  cases lists_heirPacked hchunk hlists
  cases htext.symm.trans (toOption_eq_some_iff.mp hnew)
  exact absurd hinfix (by decide)

end Command

end IceCube
