import IceCube.Proofs.Manifest.Laws

/-!
# Taking stylesheets divides a manifest

Where the stylesheets of the selected chunks are lists of texts, taking them always succeeds.  What
is taken are these lists one after the other, with each file only where it comes first, and what is
left is the manifest in its order, in which the selected chunks lack their lists and nothing else
has changed.  So no file is lost, and there is nothing to take a second time.
-/

namespace IceCube

/-- Leaving items out and keeping each item where it comes first can be done in either order. -/
theorem eraseDups_filter {α : Type} [BEq α] [LawfulBEq α] (p : α → Bool) (as : List α) :
    (as.filter p).eraseDups = as.eraseDups.filter p := by
  induction as generalizing p with
  | nil => rfl
  | cons a as ih =>
    rw [List.eraseDups_cons, ih]
    by_cases ha : p a = true
    · rw [List.filter_cons_of_pos ha, List.filter_cons_of_pos ha, List.eraseDups_cons,
        List.filter_filter, ih, List.filter_comm, List.filter_filter]
    · rw [List.filter_cons_of_neg ha, List.filter_cons_of_neg ha, ih, List.filter_filter]
      refine List.filter_congr fun b _ ↦ ?_
      by_cases hb : b = a
      · simp [hb, ha]
      · simp [hb]

namespace Manifest

variable {start file : String} {chunks rest : Table String Json} {files : List String} {v : Json}

/-! ## What is selected, and what is listed -/

/-- A value is a chunk whose name begins with a text. -/
def Selected (start : String) : Json → Prop
  | .obj chunk => start.toList <+: (chunkName chunk).toList
  | _ => False

instance (start : String) : DecidablePred (Selected start)
  | .obj chunk => inferInstanceAs (Decidable (start.toList <+: (chunkName chunk).toList))
  | .null | .bool _ | .int _ | .float _ | .str _ | .arr _ => inferInstanceAs (Decidable False)

/-- The texts among the stylesheets of a value. -/
def listed (v : Json) : List String :=
  match v.member? "css" with
  | some (.arr items) => items.filterMap fun
    | .str file => some file
    | _ => none
  | _ => []

/-- The lists of the selected chunks, one after the other. -/
def allListed (start : String) (chunks : Table String Json) : List String :=
  (chunks.values.filter (Selected start ·)).flatMap listed

/-- Whatever the selected chunks have as their stylesheets is a list of texts.  That of other chunks
may be anything. -/
def TextLists (start : String) (chunks : Table String Json) : Prop :=
  ∀ v ∈ chunks.values, Selected start v →
    ∀ css, v.member? "css" = some css → ∃ files, css = .ofTexts files

/-- A chunk has lost its stylesheets and nothing else. -/
def Stripped (v v' : Json) : Prop :=
  ∃ chunk, v = .obj chunk ∧ v' = .obj (chunk.filter fun e ↦ e.1 ≠ "css")

/-- What a value becomes: a selected chunk is stripped, and any other value is as it was. -/
def Remains (start : String) (v v' : Json) : Prop :=
  if Selected start v then Stripped v v' else v' = v

/-- A manifest is divided into the files that its selected chunks list and the rest of it. -/
structure Divided (start : String) (chunks : Table String Json) (files : List String)
    (rest : Table String Json) : Prop where
  /-- Each file is kept only where it comes first. -/
  files_eq : files = (allListed start chunks).eraseDups
  keys_eq : rest.keys = chunks.keys
  values : List.Forall₂ (Remains start) chunks.values rest.values

theorem listed_of_member? (h : v.member? "css" = some (.ofTexts files)) : listed v = files := by
  rw [listed, h]
  simp [Json.ofTexts, List.filterMap_map]

theorem listed_of_member?_eq_none (h : v.member? "css" = none) : listed v = [] := by
  rw [listed, h]

theorem allListed_cons (e : String × Json) : allListed start (e :: chunks) =
    (if Selected start e.2 then listed e.2 else []) ++ allListed start chunks := by
  rw [allListed, Table.values, List.map_cons, List.filter_cons]
  by_cases h : Selected start e.2
  · simp only [h, decide_true, if_true, List.flatMap_cons]
    rfl
  · simp only [h, decide_false, Bool.false_eq_true, if_false]
    rfl

theorem selected_obj_iff {chunk : Table String Json} :
    Selected start (.obj chunk) ↔ matchesPrefix start chunk = true :=
  matchesPrefix_iff.symm

/-! ## What is taken -/

/-- Items that are texts are told apart as texts. -/
theorem distinct_map_str (files : List String) :
    distinct (files.map .str) = files.eraseDups.map .str := by
  induction files with
  | nil => rfl
  | cons file files ih =>
    rw [List.map_cons, distinct, ih, List.eraseDups_cons, eraseDups_filter, List.map_cons,
      List.filter_map]
    congr 2
    refine List.filter_congr fun other _ ↦ ?_
    simp [sameItem, integer?, eq_comm]

/-- A selected chunk gives the files that it lists, and any other value gives none. -/
theorem takeStyles_eq (h : Selected start v →
    ∀ css, v.member? "css" = some css → ∃ files, css = .ofTexts files) :
    takeStyles start v =
      .ok ((if Selected start v then listed v else []).map .str, relieved start v) := by
  cases v with
  | obj chunk =>
    rw [takeStyles, relieved]
    simp only [selected_obj_iff] at h ⊢
    cases hmatches : matchesPrefix start chunk with
    | false => rfl
    | true =>
      cases hcss : Table.get? chunk "css" with
      | none =>
        rw [listed_of_member?_eq_none (by rw [member?_obj, hcss]), Table.erase_of_get?_eq_none hcss]
        rfl
      | some css =>
        obtain ⟨files, rfl⟩ := h hmatches css hcss
        rw [listed_of_member? (by rw [member?_obj, hcss])]
        rfl
  | _ => rfl

theorem takeAll_eq (h : TextLists start chunks) :
    takeAll start chunks = .ok ((allListed start chunks).map .str,
      chunks.map fun e ↦ (e.1, relieved start e.2)) := by
  induction chunks with
  | nil => rfl
  | cons e chunks ih =>
    obtain ⟨hv, hchunks⟩ := List.forall_mem_cons.mp h
    rw [takeAll, takeStyles_eq hv, ih hchunks, allListed_cons, List.map_append]
    rfl

/-- Taking succeeds with the files of the selected chunks, each where it comes first. -/
theorem extract_eq (h : TextLists start chunks) :
    extract start (.obj chunks) =
      .ok ((allListed start chunks).eraseDups.map .str,
        .obj (chunks.map fun e ↦ (e.1, relieved start e.2))) := by
  have hscalar (files : List String) : (files.map Json.str).all isScalar = true := by
    simp [isScalar]
  rw [extract, takeAll_eq h, ← distinct_map_str]
  simp only [bind, Except.bind, hscalar, if_true]
  rfl

/-! ## What is left -/

theorem remains_relieved (v : Json) : Remains start v (relieved start v) := by
  rw [Remains]
  cases v with
  | obj chunk =>
    simp only [selected_obj_iff]
    cases hmatches : matchesPrefix start chunk with
    | false => simp [relieved, hmatches]
    | true =>
      refine ⟨chunk, rfl, ?_⟩
      rw [relieved, hmatches, if_pos rfl, Table.erase]
      exact congrArg _ (List.filter_congr fun e _ ↦ by simp [beq_eq_decide])
  | _ => rfl

theorem Stripped.listed_eq_nil {v' : Json} (h : Stripped v v') : listed v' = [] := by
  obtain ⟨chunk, -, rfl⟩ := h
  refine listed_of_member?_eq_none ?_
  rw [member?_obj, Table.get?_eq_none_iff]
  simp [Table.keys]

/-- Only the values that are not selected still list files. -/
theorem exists_listed_iff {vs vs' : List Json} (h : List.Forall₂ (Remains start) vs vs') :
    (∃ v ∈ vs', file ∈ listed v) ↔ ∃ v ∈ vs, ¬ Selected start v ∧ file ∈ listed v := by
  induction h with
  | nil => simp
  | @cons v v' vs vs' hv hvs ih =>
    simp only [List.exists_mem_cons_iff, ih]
    rw [Remains] at hv
    split at hv
    · rename_i hselected
      simp [hv.listed_eq_nil, hselected]
    · rename_i hother
      simp [hv, hother]

/-- No file is lost: what was listed is taken or is listed still. -/
theorem Divided.listed_iff (h : Divided start chunks files rest) :
    (∃ v ∈ chunks.values, file ∈ listed v) ↔
      file ∈ files ∨ ∃ v ∈ rest.values, file ∈ listed v := by
  rw [exists_listed_iff h.values, h.files_eq, List.mem_eraseDups, allListed, List.mem_flatMap]
  simp only [List.mem_filter, decide_eq_true_eq]
  constructor
  · rintro ⟨v, hv, hfile⟩
    by_cases hselected : Selected start v
    · exact .inl ⟨v, ⟨hv, hselected⟩, hfile⟩
    · exact .inr ⟨v, hv, hselected, hfile⟩
  · rintro (⟨v, ⟨hv, -⟩, hfile⟩ | ⟨v, hv, -, hfile⟩)
    · exact ⟨v, hv, hfile⟩
    · exact ⟨v, hv, hfile⟩

/-- Taking the stylesheets of the selected chunks, where they are lists of texts, divides a manifest
into what they list and what is left, from which taking again takes nothing. -/
theorem extract_divides (h : TextLists start chunks) :
    ∃ files rest, extract start (.obj chunks) = .ok (files.map .str, .obj rest) ∧
      Divided start chunks files rest ∧ extract start (.obj rest) = .ok ([], .obj rest) := by
  have hextract := extract_eq h
  refine ⟨_, _, hextract, ⟨rfl, ?_, ?_⟩, extract_of_clear (clear_of_extract hextract)⟩
  · simp [Table.keys]
  · simp only [Table.values, List.forall₂_map_left_iff, List.forall₂_map_right_iff]
    exact List.forall₂_same.mpr fun e _ ↦ remains_relieved e.2

/-- Two chunks that share a stylesheet, among others that are not selected. -/
def sharedChunks : Table String Json :=
  [("a.js", .obj [("name", .str "app_A"), ("css", .ofTexts ["x.css", "shared.css", "x.css"]),
      ("file", .str "a-1.js")]),
    ("version", .int 3),
    ("b.js", .obj [("css", .ofTexts ["shared.css", "y.css"]), ("name", .str "app_B")]),
    ("c.js", .obj [("name", .null), ("css", .ofTexts ["x.css", "z.css"])]),
    ("d.js", .obj [("css", .ofTexts ["x.css"])])]

/-- What is left of them. -/
def bareChunks : Table String Json :=
  [("a.js", .obj [("name", .str "app_A"), ("file", .str "a-1.js")]),
    ("version", .int 3),
    ("b.js", .obj [("name", .str "app_B")]),
    ("c.js", .obj [("name", .null), ("css", .ofTexts ["x.css", "z.css"])]),
    ("d.js", .obj [("css", .ofTexts ["x.css"])])]

theorem textLists_shared : TextLists "app_" sharedChunks := by
  intro v hv _ css hcss
  simp only [sharedChunks, Table.values, List.map_cons, List.map_nil, List.mem_cons,
    List.not_mem_nil, or_false] at hv
  rcases hv with rfl | rfl | rfl | rfl | rfl
  · cases hcss
    exact ⟨_, rfl⟩
  · cases hcss
  · cases hcss
    exact ⟨_, rfl⟩
  · cases hcss
    exact ⟨_, rfl⟩
  · cases hcss
    exact ⟨_, rfl⟩

/-- Files that the selected chunks list more than once are taken once, where they come first. -/
theorem shared_taken_once : TextLists "app_" sharedChunks ∧
    extract "app_" (.obj sharedChunks) =
      .ok (["x.css", "shared.css", "y.css"].map .str, .obj bareChunks) ∧
    Divided "app_" sharedChunks ["x.css", "shared.css", "y.css"] bareChunks ∧
    extract "app_" (.obj bareChunks) = .ok ([], .obj bareChunks) := by
  obtain ⟨files, rest, hextract, hdivided, hagain⟩ := extract_divides textLists_shared
  have hfiles : files = ["x.css", "shared.css", "y.css"] := hdivided.files_eq.trans (by decide)
  have hrun : extract "app_" (.obj sharedChunks) =
      .ok (["x.css", "shared.css", "y.css"].map .str, .obj bareChunks) := rfl
  subst hfiles
  cases hrun.symm.trans hextract
  exact ⟨textLists_shared, hrun, hdivided, hagain⟩

end Manifest

end IceCube
