import IceCube.Proofs.FileTree.Growth

/-!
# What a path shows

A path shows a file with its content, a directory or nothing.  That depends on the directories on
the way and on the node at the end.  So trees that differ only where neither of them has a
directory show the same at all other paths.
-/

namespace IceCube

/-- The content of a file. -/
def Node.content? : Node → Option Bytes
  | .file content .. => some content
  | .directory _ => none

namespace FileTree

variable {t u v : FileTree} {p : Path} {l : Location} {O : Location → Prop}

/-- What is at a path, whatever its permission bits and the time of its last write are. -/
def shown (t : FileTree) (p : Path) : Option (Option Bytes) := (t.node? p).map Node.content?

theorem toOption_read (t : FileTree) (p : Path) : (t.read p).toOption = (t.shown p).join := by
  unfold read shown node?
  cases t.locate p with
  | error f => rfl
  | ok l =>
    cases hn : t.at? l with
    | none => simp [Except.toOption, bind, Except.bind, hn]
    | some n => cases n <;> simp [Except.toOption, bind, Except.bind, hn, Node.content?, pure,
        Except.pure]

/-- What is in a directory is at the location below that of the directory. -/
theorem node?_child {n : String} (hn : n ≠ "..") :
    t.node? (p.child n) = if t.isDirectory p then t.at? (t.place p ++ [n]) else none := by
  refine Option.ext fun node ↦ ?_
  rw [node?_eq_some_iff, t.place_child p hn, locate_child_eq_ok]
  constructor
  · rintro ⟨⟨l, mode, hl, hdirectory, -⟩, hnode⟩
    obtain rfl := eq_place hl
    rw [if_pos (isDirectory_iff.mpr ⟨hl, mode, hdirectory⟩)]
    exact hnode
  · intro h
    split at h
    · rename_i hdirectory
      obtain ⟨hl, mode, hm⟩ := isDirectory_iff.mp hdirectory
      exact ⟨⟨_, mode, hl, hm, by simp [enter, hn]⟩, h⟩
    · cases h

theorem shown_child_ne_none_iff {n : String} (hn : n ≠ "..") :
    t.shown (p.child n) ≠ none ↔ t.isDirectory p = true ∧ t.at? (t.place p ++ [n]) ≠ none := by
  rw [shown, node?_child hn]
  split <;> simp_all

/-- What is below a location is found from there. -/
theorem at?_append (t : FileTree) (l : Location) {m : Location} (hm : m ≠ []) :
    t.at? (l ++ m) = Table.get? (t.below l) m := by
  unfold at? below
  induction t.nodes with
  | nil => rfl
  | cons e nodes ih =>
    obtain ⟨k, n⟩ := e
    rw [Table.get?_cons, List.filterMap_cons]
    by_cases hk : k = l ++ m
    · have hlength : 0 < m.length := List.length_pos_of_ne_nil hm
      simp [hk, Table.get?_cons, hlength]
    · by_cases hbelow : l <+: k ∧ l.length < k.length
      · obtain ⟨⟨k', rfl⟩, hlength⟩ := hbelow
        have hk' : k' ≠ m := fun heq ↦ hk (by rw [heq])
        have hlength' : 0 < k'.length := by simpa using hlength
        simp [hk', Table.get?_cons, hlength', ih]
      · rw [if_neg (mt beq_iff_eq.mp hk)]
        have hfalse : (l.isPrefixOf k && decide (l.length < k.length)) = false := by
          rw [Bool.eq_false_iff, ne_eq, Bool.and_eq_true, List.isPrefixOf_iff_prefix,
            decide_eq_true_iff]
          exact hbelow
        rw [hfalse]
        exact ih

/-! ## Growing -/

theorem Grows.node? (h : Grows O t u) (hO : ¬ O (t.place p)) {n : Node} (hn : t.node? p = some n) :
    u.node? p = some n := by
  obtain ⟨hl, hnode⟩ := node?_eq_some_iff.mp hn
  rw [node?_eq_some_iff, h.place]
  exact ⟨h.locate hl, h.kept hO hnode⟩

/-- What is the same at both ends of a time in which trees grow is the same all the time, except
where files are written. -/
theorem Grows.shown_eq (h : Grows O t u) (h' : Grows O u v) (hO : ¬ O (t.place p))
    (hsame : v.shown p = t.shown p) : u.shown p = t.shown p := by
  have hplace : ¬ O (u.place p) := by rwa [h.place]
  unfold shown at hsame ⊢
  cases ht : t.node? p with
  | some n => rw [h.node? hO ht]
  | none =>
    cases hu : u.node? p with
    | none => rfl
    | some n => simp [h'.node? hplace hu, ht] at hsame

/-! ## Trees that differ in files -/

/-- Trees that differ only where neither of them has a directory. -/
structure SameBut (O : Location → Prop) (t u : FileTree) : Prop where
  current : u.current = t.current
  same : ∀ {l}, ¬ O l → u.at? l = t.at? l
  before : ∀ {l mode}, O l → t.at? l ≠ some (.directory mode)
  after : ∀ {l mode}, O l → u.at? l ≠ some (.directory mode)

/-- Without a file all other nodes are the same. -/
theorem sameBut_drop (h : ∀ mode, t.at? l ≠ some (.directory mode)) :
    SameBut (· = l) t (t.drop l) where
  current := rfl
  same hl := by rw [at?_drop, if_neg (Ne.symm hl)]
  before := by
    rintro m mode rfl
    exact h mode
  after := by
    rintro m mode rfl
    simp [at?_drop]

namespace SameBut

variable (h : SameBut O t u)
include h

theorem place (p : Path) : u.place p = t.place p := by
  simp only [FileTree.place, h.current]

/-- The trees have the same directories. -/
theorem at?_eq_directory_iff {mode : Nat} :
    u.at? l = some (.directory mode) ↔ t.at? l = some (.directory mode) := by
  by_cases hl : O l
  · exact ⟨fun hu ↦ absurd hu (h.after hl), fun ht ↦ absurd ht (h.before hl)⟩
  · rw [h.same hl]

theorem locate_eq_ok_iff {l : Location} : u.locate p = .ok l ↔ t.locate p = .ok l := by
  unfold FileTree.locate
  rw [h.current]
  exact ⟨walk_of_directories fun _ _ ↦ h.at?_eq_directory_iff.mp,
    walk_of_directories fun _ _ ↦ h.at?_eq_directory_iff.mpr⟩

theorem isDirectory (p : Path) : u.isDirectory p = t.isDirectory p := by
  rw [Bool.eq_iff_iff, isDirectory_iff, isDirectory_iff, h.place, h.locate_eq_ok_iff]
  simp only [h.at?_eq_directory_iff]

/-- What a path shows is the same unless it leads to where the trees differ. -/
theorem node? (hO : ¬ O (t.place p)) : u.node? p = t.node? p := by
  refine Option.ext fun n ↦ ?_
  rw [node?_eq_some_iff, node?_eq_some_iff, h.place, h.locate_eq_ok_iff, h.same hO]

theorem shown (hO : ¬ O (t.place p)) : u.shown p = t.shown p := by
  rw [FileTree.shown, FileTree.shown, h.node? hO]

theorem read_eq_ok_iff (hO : ¬ O (t.place p)) {b : Bytes} : u.read p = .ok b ↔ t.read p = .ok b := by
  rw [read_eq_ok_iff_node?, read_eq_ok_iff_node?, h.node? hO]

end SameBut

end FileTree

end IceCube
