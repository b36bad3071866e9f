import IceCube.Manifest
import IceCube.Proofs.Json.Reading

/-!
# Taking stylesheets out of a manifest and adding packed ones

Taking the stylesheets of some components leaves every chunk under its key, and those that belong to
the components without a list, so that nothing is left to take again.  Adding a packed stylesheet
puts a chunk of its own under its name and one more item on the list of the entry point; nothing
else changes.
-/

namespace IceCube

theorem Table.erase_of_get?_eq_none {κ ν : Type} [BEq κ] [LawfulBEq κ] {t : Table κ ν} {k : κ}
    (h : Table.get? t k = none) : Table.erase t k = t := by
  refine List.filter_eq_self.mpr fun e he ↦ ?_
  have hk : e.1 ≠ k := by
    rintro rfl
    exact Table.get?_eq_none_iff.mp h (List.mem_map_of_mem he)
  simpa using hk

namespace Manifest

variable {start other name entry file : String} {m m' rest : Json} {items : List Json}

/-- The chunk under a key. -/
def chunk? (manifest : Json) (key : String) : Option (Table String Json) :=
  (manifest.member? key).bind Json.members?

/-- A chunk lists a file among its stylesheets. -/
def Lists (chunk : Table String Json) (file : String) : Prop :=
  ∃ css items, Table.get? chunk "css" = some css ∧ itemsOf css = .ok items ∧ .str file ∈ items

theorem chunk?_eq_some_iff {key : String} {chunk : Table String Json} :
    chunk? m key = some chunk ↔ m.member? key = some (.obj chunk) := by
  rw [chunk?, Option.bind_eq_some_iff]
  constructor
  · rintro ⟨v, hv, hchunk⟩
    cases v <;> cases hchunk
    exact hv
  · intro h
    exact ⟨_, h, rfl⟩

theorem member?_obj (chunks : Table String Json) (key : String) :
    (Json.obj chunks).member? key = Table.get? chunks key := rfl

/-- The name of a chunk does not depend on its stylesheets. -/
theorem chunkName_congr {chunk chunk' : Table String Json}
    (h : Table.get? chunk' "name" = Table.get? chunk "name") : chunkName chunk' = chunkName chunk := by
  rw [chunkName, chunkName, h]

theorem matchesPrefix_congr {chunk chunk' : Table String Json}
    (h : Table.get? chunk' "name" = Table.get? chunk "name") :
    matchesPrefix start chunk' = matchesPrefix start chunk := by
  rw [matchesPrefix, matchesPrefix, chunkName_congr h]

theorem matchesPrefix_iff {chunk : Table String Json} :
    matchesPrefix start chunk = true ↔ start.toList <+: (chunkName chunk).toList :=
  List.isPrefixOf_iff_prefix

/-! ## Items that are told apart -/

theorem sameItem_str {a : String} {v : Json} : sameItem (.str a) v = true ↔ v = .str a := by
  cases v with
  | str b => simpa [sameItem, integer?] using eq_comm
  | float x => cases h : x.toInt? <;> simp [sameItem, integer?, h]
  | _ => simp [sameItem, integer?]

theorem sameItem_comm_str {a : String} {v : Json} : sameItem v (.str a) = true ↔ v = .str a := by
  cases v with
  | str b => simp [sameItem, integer?]
  | float x => cases h : x.toInt? <;> simp [sameItem, integer?, h]
  | _ => simp [sameItem, integer?]

theorem str_mem_distinct (h : .str file ∈ items) : .str file ∈ distinct items := by
  induction items with
  | nil => cases h
  | cons v vs ih =>
    rw [distinct]
    by_cases hv : sameItem v (.str file) = true
    · rw [sameItem_comm_str.mp hv]
      exact List.mem_cons_self ..
    · rcases List.mem_cons.mp h with rfl | h
      · exact absurd (sameItem_str.mpr rfl) hv
      · exact List.mem_cons_of_mem _ (List.mem_filter.mpr ⟨ih h, by simpa using hv⟩)

/-! ## Taking -/

/-- A value without its stylesheets if it is a chunk of some components. -/
def relieved (start : String) : Json → Json
  | .obj chunk => .obj (if matchesPrefix start chunk then Table.erase chunk "css" else chunk)
  | v => v

/-- What is left of a chunk. -/
theorem exists_of_relieved_eq_obj {v : Json} {chunk : Table String Json}
    (h : relieved start v = .obj chunk) : ∃ before, v = .obj before ∧
      (∀ key, key ≠ "css" → Table.get? chunk key = Table.get? before key) ∧
      if matchesPrefix start before then Table.get? chunk "css" = none else chunk = before := by
  cases v with
  | obj before =>
    rw [relieved, Json.obj.injEq] at h
    refine ⟨before, rfl, fun key hkey ↦ ?_, ?_⟩
    · rw [← h]
      split
      · rw [Table.get?_erase, if_neg (Ne.symm hkey)]
      · rfl
    · split
      · rename_i hmatches
        rw [← h, if_pos hmatches, Table.get?_erase, if_pos rfl]
      · rename_i hmatches
        rw [← h, if_neg hmatches]
  | _ => cases h

theorem takeStyles_eq_ok {v v' : Json} (h : takeStyles start v = .ok (items, v')) :
    v' = relieved start v ∧ ∀ chunk css, v = .obj chunk → matchesPrefix start chunk = true →
      Table.get? chunk "css" = some css → itemsOf css = .ok items := by
  cases v with
  | obj chunk =>
    rw [takeStyles] at h
    cases hmatches : matchesPrefix start chunk with
    | false =>
      simp only [hmatches, Except.ok.injEq, Prod.mk.injEq] at h
      refine ⟨by rw [← h.2, relieved, hmatches, if_neg Bool.false_ne_true], ?_⟩
      rintro _ css ⟨⟩ hm
      rw [hmatches] at hm
      cases hm
    | true =>
      cases hcss : Table.get? chunk "css" with
      | none =>
        simp only [hmatches, hcss, Except.ok.injEq, Prod.mk.injEq] at h
        refine ⟨by rw [← h.2, relieved, hmatches, if_pos rfl, Table.erase_of_get?_eq_none hcss], ?_⟩
        rintro _ css ⟨⟩ - hsome
        rw [hcss] at hsome
        cases hsome
      | some css =>
        cases hitems : itemsOf css with
        | error flaw => simp [hmatches, hcss, hitems, bind, Except.bind] at h
        | ok taken =>
          simp only [hmatches, hcss, hitems, bind, Except.bind, pure, Except.pure, Except.ok.injEq,
            Prod.mk.injEq] at h
          refine ⟨by rw [← h.2, relieved, hmatches, if_pos rfl], ?_⟩
          rintro _ css' ⟨⟩ - hsome
          rw [hcss] at hsome
          cases hsome
          rw [hitems, h.1]
  | _ =>
    cases h
    exact ⟨rfl, fun chunk css hv ↦ by cases hv⟩

theorem takeAll_eq_ok {chunks left : List (String × Json)}
    (h : takeAll start chunks = .ok (items, left)) :
    left = chunks.map (fun e ↦ (e.1, relieved start e.2)) ∧
      ∀ key chunk css, (key, .obj chunk) ∈ chunks → matchesPrefix start chunk = true →
        Table.get? chunk "css" = some css → ∃ taken, itemsOf css = .ok taken ∧ taken ⊆ items := by
  induction chunks generalizing items left with
  | nil =>
    cases h
    exact ⟨rfl, by simp⟩
  | cons e chunks ih =>
    obtain ⟨k, v⟩ := e
    rw [takeAll] at h
    cases hv : takeStyles start v with
    | error flaw => simp [hv, bind, Except.bind] at h
    | ok taken =>
      cases hrest : takeAll start chunks with
      | error flaw => simp [hv, hrest, bind, Except.bind] at h
      | ok more =>
        simp only [hv, hrest, bind, Except.bind, pure, Except.pure, Except.ok.injEq,
          Prod.mk.injEq] at h
        obtain ⟨rfl, rfl⟩ := h
        obtain ⟨htaken, htakenItems⟩ := takeStyles_eq_ok hv
        obtain ⟨hmore, hmoreItems⟩ := ih hrest
        refine ⟨by rw [htaken, hmore, List.map_cons], fun key chunk css hmem hmatches hcss ↦ ?_⟩
        rcases List.mem_cons.mp hmem with heq | hmem
        · cases heq
          exact ⟨_, htakenItems chunk css rfl hmatches hcss, List.subset_append_left ..⟩
        · obtain ⟨its, hits, hsub⟩ := hmoreItems key chunk css hmem hmatches hcss
          exact ⟨its, hits, List.Subset.trans hsub (List.subset_append_right ..)⟩

theorem extract_eq_ok (h : extract start m = .ok (items, rest)) :
    ∃ chunks all, m = .obj chunks ∧ takeAll start chunks =
      .ok (all, chunks.map fun e ↦ (e.1, relieved start e.2)) ∧ items = distinct all ∧
      rest = .obj (chunks.map fun e ↦ (e.1, relieved start e.2)) := by
  cases m with
  | obj chunks =>
    rw [extract] at h
    cases hall : takeAll start chunks with
    | error flaw => simp [hall, bind, Except.bind] at h
    | ok all =>
      obtain ⟨all, left⟩ := all
      obtain ⟨rfl, -⟩ := takeAll_eq_ok hall
      simp only [hall, bind, Except.bind] at h
      split at h
      · cases h
        exact ⟨chunks, all, rfl, hall, rfl, rfl⟩
      · cases h
  | _ => cases h

/-- Every chunk stays under its key. -/
theorem member?_of_extract (h : extract start m = .ok (items, rest)) (key : String) :
    rest.member? key = (m.member? key).map (relieved start) := by
  obtain ⟨chunks, all, rfl, -, -, rfl⟩ := extract_eq_ok h
  exact Table.get?_map _ chunks key

theorem exists_of_chunk?_extract (h : extract start m = .ok (items, rest)) {key : String}
    {chunk : Table String Json} (hchunk : chunk? rest key = some chunk) :
    ∃ before, chunk? m key = some before ∧
      (∀ key, key ≠ "css" → Table.get? chunk key = Table.get? before key) ∧
      if matchesPrefix start before then Table.get? chunk "css" = none else chunk = before := by
  rw [chunk?_eq_some_iff, member?_of_extract h, Option.map_eq_some_iff] at hchunk
  obtain ⟨v, hv, hchunk⟩ := hchunk
  obtain ⟨before, rfl, hrest⟩ := exists_of_relieved_eq_obj hchunk
  exact ⟨before, chunk?_eq_some_iff.mpr hv, hrest⟩

/-- A chunk of other components is left as it is. -/
theorem chunk?_of_extract (h : extract start m = .ok (items, rest)) {key : String}
    {chunk : Table String Json} (hchunk : chunk? m key = some chunk)
    (hother : matchesPrefix start chunk = false) : chunk? rest key = some chunk := by
  rw [chunk?_eq_some_iff] at hchunk ⊢
  rw [member?_of_extract h, hchunk, Option.map_some, relieved, hother, if_neg Bool.false_ne_true]

/-- What a chunk of the components lists is taken. -/
theorem mem_of_extract (h : extract start m = .ok (items, rest)) {key : String}
    {chunk : Table String Json} (hchunk : chunk? m key = some chunk)
    (hmatches : matchesPrefix start chunk = true) (hlists : Lists chunk file) :
    .str file ∈ items := by
  obtain ⟨chunks, all, rfl, hall, rfl, -⟩ := extract_eq_ok h
  obtain ⟨css, its, hcss, hits, hfile⟩ := hlists
  have hmem : (key, Json.obj chunk) ∈ chunks := Table.mem_of_get? (chunk?_eq_some_iff.mp hchunk)
  obtain ⟨taken, htaken, hsub⟩ := (takeAll_eq_ok hall).2 key chunk css hmem hmatches hcss
  rw [hits] at htaken
  cases htaken
  exact str_mem_distinct (hsub hfile)

/-! ## Taking again -/

/-- No chunk of some components has stylesheets. -/
def Clear (start : String) (m : Json) : Prop :=
  ∃ chunks, m = .obj chunks ∧ ∀ key chunk, (key, .obj chunk) ∈ chunks →
    matchesPrefix start chunk = true → Table.get? chunk "css" = none

theorem takeStyles_of_clear {v : Json} (h : ∀ chunk, v = .obj chunk →
    matchesPrefix start chunk = true → Table.get? chunk "css" = none) :
    takeStyles start v = .ok ([], v) := by
  cases v with
  | obj chunk =>
    rw [takeStyles]
    cases hmatches : matchesPrefix start chunk with
    | false => rfl
    | true => rw [h chunk rfl hmatches]
  | _ => rfl

theorem takeAll_of_clear {chunks : List (String × Json)}
    (h : ∀ key chunk, (key, .obj chunk) ∈ chunks → matchesPrefix start chunk = true →
      Table.get? chunk "css" = none) : takeAll start chunks = .ok ([], chunks) := by
  induction chunks with
  | nil => rfl
  | cons e chunks ih =>
    obtain ⟨key, v⟩ := e
    have hv : takeStyles start v = .ok ([], v) := by
      refine takeStyles_of_clear fun chunk hchunk ↦ h key chunk ?_
      rw [hchunk]
      exact List.mem_cons_self ..
    have hrest := ih fun key chunk hmem ↦ h key chunk (List.mem_cons_of_mem _ hmem)
    rw [takeAll, hv, hrest]
    rfl

/-- Where nothing is left, taking takes nothing. -/
theorem extract_of_clear (h : Clear start m) : extract start m = .ok ([], m) := by
  obtain ⟨chunks, rfl, hclear⟩ := h
  rw [extract, takeAll_of_clear hclear]
  rfl

theorem clear_of_extract (h : extract start m = .ok (items, rest)) : Clear start rest := by
  obtain ⟨chunks, all, rfl, -, -, rfl⟩ := extract_eq_ok h
  refine ⟨_, rfl, fun key chunk hmem hmatches ↦ ?_⟩
  obtain ⟨⟨k, v⟩, -, heq⟩ := List.mem_map.mp hmem
  obtain ⟨before, -, hsame, hleft⟩ := exists_of_relieved_eq_obj (Prod.mk.inj heq).2
  rw [matchesPrefix_congr (hsame "name" (by decide))] at hmatches
  rwa [hmatches, if_pos rfl] at hleft

/-- Taking for other components gives nothing back. -/
theorem Clear.extract (hclear : Clear start m) (h : extract other m = .ok (items, rest)) :
    Clear start rest := by
  obtain ⟨chunks, all, rfl, -, -, rfl⟩ := extract_eq_ok h
  obtain ⟨_, hm, hclear⟩ := hclear
  cases hm
  refine ⟨_, rfl, fun key chunk hmem hmatches ↦ ?_⟩
  obtain ⟨⟨k, v⟩, hmem', heq⟩ := List.mem_map.mp hmem
  obtain ⟨before, rfl, hsame, hleft⟩ := exists_of_relieved_eq_obj (Prod.mk.inj heq).2
  rw [matchesPrefix_congr (hsame "name" (by decide))] at hmatches
  split at hleft
  · exact hleft
  · rw [hleft]
    exact hclear k before hmem' hmatches

/-! ## Adding -/

/-- A list with one more stylesheet lists it, and all that it has listed. -/
theorem withStyle_eq_ok {css css' : Json} (h : withStyle file css = .ok css')
    (hlist : ∀ s, css ≠ .str s) : (∀ s, css' ≠ .str s) ∧ ∃ its, itemsOf css' = .ok its ∧
      .str file ∈ its ∧ ∀ before, itemsOf css = .ok before → before ⊆ its := by
  cases css with
  | arr vs =>
    rw [withStyle] at h
    split at h
    · rename_i hany
      obtain ⟨v, hv, hsame⟩ := List.any_eq_true.mp hany
      cases sameItem_str.mp hsame
      cases h
      refine ⟨fun s hs ↦ (by cases hs), vs, rfl, hv, fun before hbefore ↦ ?_⟩
      cases hbefore
      exact List.Subset.refl _
    · cases h
      refine ⟨fun s hs ↦ (by cases hs), _, rfl, by simp, fun before hbefore ↦ ?_⟩
      cases hbefore
      exact List.subset_append_left ..
  | obj ms =>
    rw [withStyle] at h
    split at h
    · rename_i hcontains
      cases h
      refine ⟨fun s hs ↦ (by cases hs), _, rfl, ?_, fun before hbefore ↦ ?_⟩
      · obtain ⟨e, he, hfile⟩ := List.mem_map.mp (Table.contains_iff.mp hcontains)
        exact List.mem_map.mpr ⟨e, he, by rw [hfile]⟩
      · cases hbefore
        exact List.Subset.refl _
    · cases h
  | str s => exact absurd rfl (hlist s)
  | _ => cases h

theorem addPacked_eq_ok (h : addPacked name entry m = .ok m') (hentry : packedName name ≠ entry) :
    ∃ chunks chunk css, m = .obj chunks ∧
      (Table.get? chunks entry).getD (.obj []) = .obj chunk ∧
      withStyle (packedFile name) ((Table.get? chunk "css").getD (.arr [])) = .ok css ∧
      m' = .obj (Table.insert (Table.insert chunks (packedName name) (packedChunk name)) entry
        (.obj (Table.insert chunk "css" css))) := by
  cases m with
  | obj chunks =>
    rw [addPacked, Table.get?_insert_of_ne _ _ hentry] at h
    cases hchunk : (Table.get? chunks entry).getD (.obj []) with
    | obj chunk =>
      rw [hchunk, withEntryStyle] at h
      cases hcss : withStyle (packedFile name) ((Table.get? chunk "css").getD (.arr [])) with
      | error flaw => simp [hcss, bind, Except.bind] at h
      | ok css =>
        simp only [hcss, bind, Except.bind, pure, Except.pure, Except.ok.injEq] at h
        exact ⟨chunks, chunk, css, rfl, hchunk, hcss, h.symm⟩
    | _ =>
      rw [hchunk] at h
      cases h
  | _ => cases h

/-! ## Manifests that come back from their texts -/

theorem plain_obj_iff {ms : Table String Json} :
    (Json.obj ms).Plain ↔ (Table.keys ms).Nodup ∧ ∀ e ∈ ms, e.2.Plain :=
  ⟨fun h ↦ ⟨h.1, h.2.forall⟩, fun h ↦ ⟨h.1, Json.plainMembers_of_forall h.2⟩⟩

theorem plain_insert {ms : Table String Json} {key : String} {v : Json} (h : (Json.obj ms).Plain)
    (hv : v.Plain) : (Json.obj (Table.insert ms key v)).Plain := by
  obtain ⟨hnodup, hms⟩ := plain_obj_iff.mp h
  refine plain_obj_iff.mpr ⟨Table.nodup_keys_insert hnodup key v, fun e he ↦ ?_⟩
  rcases Table.mem_of_mem_insert he with rfl | he
  · exact hv
  · exact hms e he

theorem plain_erase {ms : Table String Json} (h : (Json.obj ms).Plain) (key : String) :
    (Json.obj (Table.erase ms key)).Plain := by
  obtain ⟨hnodup, hms⟩ := plain_obj_iff.mp h
  exact plain_obj_iff.mpr ⟨hnodup.sublist (List.filter_sublist.map Prod.fst),
    fun e he ↦ hms e (List.mem_filter.mp he).1⟩

theorem plain_of_get? {ms : Table String Json} {key : String} {v : Json} (h : (Json.obj ms).Plain)
    (hv : Table.get? ms key = some v) : v.Plain :=
  (plain_obj_iff.mp h).2 _ (Table.mem_of_get? hv)

theorem plain_relieved {v : Json} (h : v.Plain) : (relieved start v).Plain := by
  cases v with
  | obj chunk =>
    rw [relieved]
    split
    · exact plain_erase h "css"
    · exact h
  | _ => exact h

theorem plain_of_extract (h : extract start m = .ok (items, rest)) (hm : m.Plain) : rest.Plain := by
  obtain ⟨chunks, all, rfl, -, -, rfl⟩ := extract_eq_ok h
  obtain ⟨hnodup, hchunks⟩ := plain_obj_iff.mp hm
  refine plain_obj_iff.mpr ⟨?_, fun e he ↦ ?_⟩
  · rw [Table.keys, List.map_map]
    exact hnodup
  · obtain ⟨e', he', rfl⟩ := List.mem_map.mp he
    exact plain_relieved (hchunks e' he')

theorem plain_withStyle {css css' : Json} (h : withStyle file css = .ok css') (hcss : css.Plain) :
    css'.Plain := by
  cases css with
  | arr vs =>
    cases h
    split
    · exact hcss
    · refine Json.plainItems_of_forall fun v hv ↦ ?_
      rcases List.mem_append.mp hv with hv | hv
      · exact Json.PlainItems.forall hcss v hv
      · rw [List.mem_singleton.mp hv]
        trivial
  | str s =>
    rw [withStyle] at h
    split at h <;> cases h
    exact hcss
  | obj ms =>
    rw [withStyle] at h
    split at h <;> cases h
    exact hcss
  | _ => cases h

theorem plain_packedChunk (name : String) : (packedChunk name).Plain :=
  plain_obj_iff.mpr ⟨by simp [Table.keys], by simp [Json.Plain]⟩

theorem plain_of_addPacked (h : addPacked name entry m = .ok m') (hentry : packedName name ≠ entry)
    (hm : m.Plain) : m'.Plain := by
  obtain ⟨chunks, chunk, css, rfl, hchunk, hcss, rfl⟩ := addPacked_eq_ok h hentry
  have hempty : (Json.obj []).Plain := plain_obj_iff.mpr ⟨List.nodup_nil, by simp⟩
  have hplain : (Json.obj chunk).Plain := by
    cases hget : Table.get? chunks entry with
    | none =>
      rw [hget, Option.getD_none] at hchunk
      rwa [← hchunk]
    | some v =>
      rw [hget, Option.getD_some] at hchunk
      rw [← hchunk]
      exact plain_of_get? hm hget
  have hstyles : css.Plain := by
    refine plain_withStyle hcss ?_
    cases hget : Table.get? chunk "css" with
    | none => trivial
    | some v => exact plain_of_get? hplain hget
  exact plain_insert (plain_insert hm (plain_packedChunk name)) (plain_insert hplain hstyles)

end Manifest

end IceCube
