import Mathlib.Data.List.Basic
import IceCube.Path

/-!
# Paths and their texts

The parts of a path that was read are names: they are not empty, not a single dot, and without
slashes.  A path of names is read back from its text as it is, so a record that keeps the text of a
path keeps the path.
-/

namespace IceCube

namespace Path

/-- What a part of a path can be. -/
def IsName (n : String) : Prop := n ≠ "" ∧ n ≠ "." ∧ '/' ∉ n.toList

instance (n : String) : Decidable (IsName n) := inferInstanceAs (Decidable (_ ∧ _ ∧ _))

/-- A path whose parts are names. -/
def Proper (p : Path) : Prop := ∀ n ∈ p.parts, IsName n

instance (p : Path) : Decidable p.Proper := inferInstanceAs (Decidable (∀ n ∈ p.parts, IsName n))

/-- The path of what has a name in a directory. -/
def child (p : Path) (n : String) : Path := { p with parts := p.parts ++ [n] }

/-! ## Pieces of a text -/

theorem splitOn_eq (sep : Char) (cs : List Char) : splitOn sep cs = cs.splitOn sep := by
  induction cs with
  | nil => rfl
  | cons c cs ih =>
    rw [splitOn, ih, List.splitOn_cons_eq_if_modifyHead]
    split
    · rfl
    · cases h : cs.splitOn sep with
      | nil => exact absurd h (List.splitOn_ne_nil sep cs)
      | cons p ps => rfl

theorem splitOn_intercalate {sep : Char} {ps : List (List Char)} (h : ∀ p ∈ ps, sep ∉ p)
    (hne : ps ≠ []) : splitOn sep (List.intercalate [sep] ps) = ps := by
  rw [splitOn_eq, List.splitOn_intercalate sep h hne]

theorem splitOn_of_not_mem {sep : Char} {cs : List Char} (h : sep ∉ cs) : splitOn sep cs = [cs] := by
  rw [splitOn_eq, List.splitOn_eq_singleton h]

theorem not_mem_of_mem_splitOn {sep : Char} {cs p : List Char} (h : p ∈ splitOn sep cs) :
    sep ∉ p := by
  induction cs generalizing p with
  | nil =>
    rw [List.mem_singleton.mp h]
    exact List.not_mem_nil
  | cons c cs ih =>
    rw [splitOn] at h
    split at h
    · rcases List.mem_cons.mp h with rfl | h
      · exact List.not_mem_nil
      · exact ih h
    · rename_i hc
      have hsep : sep ≠ c := fun heq ↦ hc (by simp [heq])
      split at h
      · rw [List.mem_singleton.mp h]
        simpa using hsep
      · rename_i q qs hq
        rw [hq] at ih
        rcases List.mem_cons.mp h with rfl | h
        · simpa [hsep] using ih (List.mem_cons_self ..)
        · exact ih (List.mem_cons_of_mem _ h)

theorem mem_of_mem_splitOn {sep d : Char} {cs p : List Char} (h : p ∈ splitOn sep cs)
    (hd : d ∈ p) : d ∈ cs := by
  induction cs generalizing p with
  | nil =>
    rw [List.mem_singleton.mp h] at hd
    exact hd
  | cons c cs ih =>
    rw [splitOn] at h
    split at h
    · rcases List.mem_cons.mp h with rfl | h
      · cases hd
      · exact List.mem_cons_of_mem _ (ih h hd)
    · split at h
      · rw [List.mem_singleton.mp h, List.mem_singleton] at hd
        exact List.mem_cons.mpr (.inl hd)
      · rename_i q qs hq
        rw [hq] at ih
        rcases List.mem_cons.mp h with rfl | h
        · rcases List.mem_cons.mp hd with rfl | hd
          · exact List.mem_cons_self ..
          · exact List.mem_cons_of_mem _ (ih (List.mem_cons_self ..) hd)
        · exact List.mem_cons_of_mem _ (ih (List.mem_cons_of_mem _ h) hd)

/-! ## Reading -/

theorem isName_ofList {cs : List Char} (hempty : cs ≠ []) (hdot : cs ≠ ['.']) (hslash : '/' ∉ cs) :
    IsName (String.ofList cs) := by
  refine ⟨fun h ↦ hempty ?_, fun h ↦ hdot ?_, by rwa [String.toList_ofList]⟩
  · simpa using congrArg String.toList h
  · simpa using congrArg String.toList h

theorem IsName.toList_ne {n : String} (h : IsName n) : n.toList ≠ [] ∧ n.toList ≠ ['.'] := by
  refine ⟨fun hn ↦ h.1 ?_, fun hn ↦ h.2.1 ?_⟩
  · exact String.toList_injective hn
  · exact String.toList_injective hn

theorem proper_ofText (s : String) : (ofText s).Proper := by
  intro n hn
  obtain ⟨cs, hcs, rfl⟩ := List.mem_map.mp hn
  obtain ⟨hmem, hkept⟩ := List.mem_filter.mp hcs
  simp only [Bool.not_eq_true', Bool.or_eq_false_iff, List.isEmpty_eq_false_iff,
    beq_eq_false_iff_ne] at hkept
  exact isName_ofList hkept.1 hkept.2 (not_mem_of_mem_splitOn hmem)

theorem Proper.join {p q : Path} (hp : p.Proper) (hq : q.Proper) : (p.join q).Proper := by
  unfold Path.join
  split
  · exact hq
  · intro n hn
    rcases List.mem_append.mp hn with hn | hn
    · exact hp n hn
    · exact hq n hn

theorem Proper.joinText {p : Path} (hp : p.Proper) (s : String) : (p.joinText s).Proper :=
  hp.join (proper_ofText s)

theorem Proper.child {p : Path} (hp : p.Proper) {n : String} (hn : IsName n) :
    (p.child n).Proper := by
  intro m hm
  rcases List.mem_append.mp hm with hm | hm
  · exact hp m hm
  · rwa [List.mem_singleton.mp hm]

theorem Proper.parent {p : Path} (hp : p.Proper) : p.parent.Proper :=
  fun n hn ↦ hp n (List.dropLast_subset _ hn)

theorem rootOf_of_head?_ne {cs : List Char} (h : cs.head? ≠ some '/') : rootOf cs = .relative := by
  unfold rootOf
  split <;> simp_all

theorem rootOf_slash {cs : List Char} (h : cs.head? ≠ some '/') : rootOf ('/' :: cs) = .slash := by
  cases cs with
  | nil => rfl
  | cons c cs =>
    have hc : c ≠ '/' := by simpa using h
    simp [rootOf, hc]

theorem rootOf_doubleSlash {cs : List Char} (h : cs.head? ≠ some '/') :
    rootOf ('/' :: '/' :: cs) = .doubleSlash := by
  cases cs with
  | nil => rfl
  | cons c cs =>
    have hc : c ≠ '/' := by simpa using h
    simp [rootOf, hc]

theorem IsName.head?_ne {n : String} (h : IsName n) (cs : List Char) :
    (n.toList ++ cs).head? ≠ some '/' := by
  cases hn : n.toList with
  | nil => exact absurd hn h.toList_ne.1
  | cons c ds =>
    have hslash := h.2.2
    rw [hn] at hslash
    simp only [List.mem_cons, not_or] at hslash
    simpa using Ne.symm hslash.1

theorem ofText_name {n : String} (h : IsName n) : ofText n = ⟨.relative, [n]⟩ := by
  have hroot : rootOf n.toList = .relative := rootOf_of_head?_ne (by simpa using h.head?_ne [])
  obtain ⟨hempty, hdot⟩ := h.toList_ne
  simp [ofText, hroot, splitOn_of_not_mem h.2.2, hempty, hdot]

theorem joinText_name {n : String} (h : IsName n) (p : Path) : p.joinText n = p.child n := by
  rw [joinText, ofText_name h]
  rfl

/-! ## Writing and reading back -/

theorem toList_text {p : Path} (h : p.parts ≠ []) :
    p.text.toList = p.root.text.toList ++ List.intercalate ['/'] (p.parts.map String.toList) := by
  rw [text, if_neg (by simp [h]), String.toList_append, String.toList_intercalate]
  rfl

/-- The pieces of the text of names between slashes are these names. -/
theorem parts_of_names {ps : List String} (h : ∀ n ∈ ps, IsName n) :
    (((ps.map String.toList).filter fun p ↦ !(p.isEmpty || p == ['.'])).map String.ofList) = ps := by
  have hkept : (ps.map String.toList).filter (fun p ↦ !(p.isEmpty || p == ['.'])) =
      ps.map String.toList := by
    refine List.filter_eq_self.mpr fun cs hcs ↦ ?_
    obtain ⟨n, hn, rfl⟩ := List.mem_map.mp hcs
    obtain ⟨hempty, hdot⟩ := (h n hn).toList_ne
    simp [hempty, hdot]
  rw [hkept, List.map_map]
  exact (List.map_congr_left fun n _ ↦ String.ofList_toList).trans (List.map_id ps)

theorem head?_intercalate {ps : List String} (h : ∀ n ∈ ps, IsName n) :
    (List.intercalate ['/'] (ps.map String.toList)).head? ≠ some '/' := by
  cases ps with
  | nil => simp [List.intercalate]
  | cons n ps =>
    cases ps with
    | nil => simpa using (h n (by simp)).head?_ne []
    | cons m ps =>
      rw [List.map_cons, List.map_cons, List.intercalate_cons_cons, List.append_assoc]
      exact (h n (by simp)).head?_ne _

/-- A path of names is read from its text. -/
theorem Proper.ofText_text {p : Path} (h : p.Proper) : ofText p.text = p := by
  obtain ⟨root, parts⟩ := p
  by_cases hparts : parts = []
  · subst hparts
    cases root <;> rfl
  · have htext := toList_text (p := ⟨root, parts⟩) hparts
    have hhead := head?_intercalate h
    have hpieces : splitOn '/' (List.intercalate ['/'] (parts.map String.toList)) =
        parts.map String.toList := by
      refine splitOn_intercalate (fun cs hcs ↦ ?_) (by simpa using hparts)
      obtain ⟨n, hn, rfl⟩ := List.mem_map.mp hcs
      exact (h n hn).2.2
    cases root with
    | relative =>
      simp only [Root.text, String.toList_empty, List.nil_append] at htext
      simp only [ofText, htext, rootOf_of_head?_ne hhead, hpieces, parts_of_names h]
    | slash =>
      have hroot : Root.slash.text.toList = ['/'] := rfl
      rw [hroot] at htext
      have hnames := parts_of_names h
      simp only [ofText, htext, List.singleton_append, rootOf_slash hhead, splitOn, beq_self_eq_true,
        if_true, hpieces]
      simpa using hnames
    | doubleSlash =>
      have hroot : Root.doubleSlash.text.toList = ['/', '/'] := rfl
      rw [hroot] at htext
      have hnames := parts_of_names h
      simp only [ofText, htext, List.cons_append, List.nil_append, rootOf_doubleSlash hhead, splitOn,
        beq_self_eq_true, if_true, hpieces]
      simpa using hnames

/-- What is written behind the text of a path is written behind its last name. -/
theorem text_child_append (p : Path) (n suffix : String) :
    (p.child n).text ++ suffix = (p.child (n ++ suffix)).text := by
  have htext (m : String) : (p.child m).text.toList =
      p.root.text.toList ++ List.intercalate ['/'] ((p.parts ++ [m]).map String.toList) :=
    toList_text (p := p.child m) (by simp [child])
  have hlast (m : String) : List.intercalate ['/'] ((p.parts ++ [m]).map String.toList) =
      (p.parts.map fun q ↦ q.toList ++ ['/']).flatten ++ m.toList := by
    induction p.parts with
    | nil => simp [List.intercalate]
    | cons q qs ih =>
      cases hqs : qs ++ [m] with
      | nil => simp at hqs
      | cons r rs =>
        rw [List.cons_append, hqs, List.map_cons, List.map_cons, List.intercalate_cons_cons]
        rw [hqs, List.map_cons] at ih
        rw [ih]
        simp
  refine String.toList_injective ?_
  rw [String.toList_append, htext, htext, hlast, hlast, String.toList_append]
  simp

/-! ## Texts with an end -/

/-- A text without the separator behind another one only makes the last piece longer. -/
theorem exists_splitOn_append (sep : Char) (cs : List Char) : ∃ ps p, splitOn sep cs = ps ++ [p] ∧
    ∀ ds, sep ∉ ds → splitOn sep (cs ++ ds) = ps ++ [p ++ ds] := by
  induction cs with
  | nil => exact ⟨[], [], rfl, fun ds hds ↦ splitOn_of_not_mem hds⟩
  | cons c cs ih =>
    obtain ⟨ps, p, hcs, happend⟩ := ih
    by_cases hc : (c == sep) = true
    · refine ⟨[] :: ps, p, ?_, fun ds hds ↦ ?_⟩
      · rw [splitOn, if_pos hc, hcs, List.cons_append]
      · rw [List.cons_append, splitOn, if_pos hc, happend ds hds, List.cons_append]
    · cases ps with
      | nil =>
        refine ⟨[], c :: p, ?_, fun ds hds ↦ ?_⟩
        · rw [splitOn, if_neg hc, hcs]
          rfl
        · rw [List.cons_append, splitOn, if_neg hc, happend ds hds]
          rfl
      | cons q ps =>
        refine ⟨(c :: q) :: ps, p, ?_, fun ds hds ↦ ?_⟩
        · rw [splitOn, if_neg hc, hcs]
          rfl
        · rw [List.cons_append, splitOn, if_neg hc, happend ds hds]
          rfl

/-- What does not start with a slash has no part in the root of a text that it stands behind. -/
theorem rootOf_append {ds : List Char} (h : ds.head? ≠ some '/') (cs : List Char) :
    rootOf (cs ++ ds) = rootOf cs := by
  have hhead {as : List Char} (has : as.head? ≠ some '/') : (as ++ ds).head? ≠ some '/' := by
    cases as with
    | nil => exact h
    | cons a as => simpa using has
  by_cases h₁ : cs.head? = some '/'
  · obtain ⟨cs, rfl⟩ := List.head?_eq_some_iff.mp h₁
    by_cases h₂ : cs.head? = some '/'
    · obtain ⟨cs, rfl⟩ := List.head?_eq_some_iff.mp h₂
      by_cases h₃ : cs.head? = some '/'
      · obtain ⟨cs, rfl⟩ := List.head?_eq_some_iff.mp h₃
        rfl
      · rw [List.cons_append, List.cons_append, rootOf_doubleSlash h₃, rootOf_doubleSlash (hhead h₃)]
    · rw [List.cons_append, rootOf_slash h₂, rootOf_slash (hhead h₂)]
  · rw [rootOf_of_head?_ne h₁, rootOf_of_head?_ne (hhead h₁)]

/-- The parts that some pieces of a text are read as. -/
def partsOf (ps : List (List Char)) : List String :=
  (ps.filter fun p ↦ !(p.isEmpty || p == ['.'])).map String.ofList

theorem ofText_eq (s : String) : ofText s = ⟨rootOf s.toList, partsOf (splitOn '/' s.toList)⟩ := rfl

theorem exists_of_mem_partsOf {ps : List (List Char)} {n : String} (h : n ∈ partsOf ps) :
    n.toList ∈ ps := by
  obtain ⟨p, hp, rfl⟩ := List.mem_map.mp h
  rw [String.toList_ofList]
  exact List.mem_of_mem_filter hp

theorem join_child (p q : Path) (n : String) : p.join (q.child n) = (p.join q).child n := by
  have hchild : (q.child n).isAbsolute = q.isAbsolute := rfl
  unfold join
  rw [hchild]
  split
  · rfl
  · simp only [child, List.append_assoc]

/-- A text with a long end is read as a directory and a name with this end. -/
theorem exists_ofText_append (s : String) : ∃ (dir : Path) (last : String),
    dir.root = rootOf s.toList ∧
    (∀ n ∈ last :: dir.parts, n.toList ∈ splitOn '/' s.toList) ∧
    ∀ suffix : String, '/' ∉ suffix.toList → 2 < suffix.toList.length →
      ofText (s ++ suffix) = dir.child (last ++ suffix) := by
  obtain ⟨ps, p, hs, happend⟩ := exists_splitOn_append '/' s.toList
  refine ⟨⟨rootOf s.toList, partsOf ps⟩, String.ofList p, rfl, ?_, fun suffix hslash hlong ↦ ?_⟩
  · rw [hs]
    refine List.forall_mem_cons.mpr ⟨by simp, fun n hn ↦ ?_⟩
    exact List.mem_append_left _ (exists_of_mem_partsOf hn)
  · have hroot : rootOf (s ++ suffix).toList = rootOf s.toList := by
      rw [String.toList_append]
      exact rootOf_append (fun h ↦ hslash (List.mem_of_mem_head? h)) _
    have hlast : String.ofList (p ++ suffix.toList) = String.ofList p ++ suffix := by
      rw [String.ofList_append, String.ofList_toList]
    have hkept : partsOf [p ++ suffix.toList] = [String.ofList p ++ suffix] := by
      have hempty : (p ++ suffix.toList).isEmpty = false := by
        rw [List.isEmpty_eq_false_iff]
        intro h
        simp_all
      have hdot : (p ++ suffix.toList == ['.']) = false := by
        rw [beq_eq_false_iff_ne]
        intro h
        have hlength := congrArg List.length h
        rw [List.length_append, List.length_singleton] at hlength
        omega
      simp [partsOf, hempty, hdot, hlast]
    rw [ofText_eq, hroot, String.toList_append, happend _ hslash, child]
    simp only [partsOf, List.filter_append, List.map_append] at hkept ⊢
    rw [hkept]

/-- So is what it leads to from a directory. -/
theorem exists_joinText_append (s : String) : ∃ (dir : Path) (last : String),
    (∀ n ∈ last :: dir.parts, n.toList ∈ splitOn '/' s.toList) ∧
    ∀ (p : Path) (suffix : String), '/' ∉ suffix.toList → 2 < suffix.toList.length →
      p.joinText (s ++ suffix) = (p.join dir).child (last ++ suffix) := by
  obtain ⟨dir, last, -, hpieces, happend⟩ := exists_ofText_append s
  refine ⟨dir, last, hpieces, fun p suffix hslash hlong ↦ ?_⟩
  rw [joinText, happend suffix hslash hlong, join_child]

end Path

end IceCube
