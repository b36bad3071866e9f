import IceCube.Proofs.FileTree.Shown
import IceCube.Proofs.Step

/-!
# Trees that differ where nobody looks

Two trees can differ in what is hidden, which is anything at or below some locations, and in the
contents of files that are edited.  A path that keeps clear of what is hidden leads to the same place in
both of them, and there is a directory there in both or in neither.  So directories are made, and files
are written, in both trees or in neither of them, and the trees go on to differ in nothing else.
-/

namespace IceCube

open Step

/-- The same is at a location of two trees: nothing, a directory, or a file, which has the same content
in both unless it is edited. -/
inductive Node.Like (edited : Prop) : Option Node → Option Node → Prop where
  | nothing : Like edited none none
  | directory (mode mode' : Nat) :
      Like edited (some (.directory mode)) (some (.directory mode'))
  | file {b b' : Bytes} (content : ¬ edited → b' = b) (mode modified mode' modified' : Nat) :
      Like edited (some (.file b mode modified)) (some (.file b' mode' modified'))

namespace Node.Like

variable {edited edited' : Prop} {n n' : Option Node}

theorem refl (edited : Prop) (n : Option Node) : Like edited n n := by
  rcases n with _ | ⟨content, mode, modified⟩ | mode
  · exact .nothing
  · exact .file (fun _ ↦ rfl) _ _ _ _
  · exact .directory _ _

theorem mono (h : Like edited n n') (he : edited → edited') : Like edited' n n' := by
  cases h with
  | nothing => exact .nothing
  | directory => exact .directory _ _
  | file content => exact .file (fun hnot ↦ content (mt he hnot)) _ _ _ _

end Node.Like

namespace FileTree

/-- What two trees can differ in, and the directory that is the current one in both. -/
structure Difference where
  current : Location
  hidden : Location → Prop
  edited : Location → Prop
  below : ∀ {l m : Location}, hidden l → l <+: m → hidden m

namespace Difference

variable {d : Difference} {t u : FileTree} {p : Path} {l m : Location}

/-- Two trees differ in nothing else. -/
structure Between (d : Difference) (t u : FileTree) : Prop where
  current : t.current = d.current
  current' : u.current = d.current
  nodes : ∀ l, ¬ d.hidden l → Node.Like (d.edited l) (t.at? l) (u.at? l)

/-- A tree differs from one that has another node at a hidden location in nothing else. -/
theorem between_set (hcurrent : t.current = d.current) (hl : d.hidden l) (n : Node) :
    d.Between t (t.set l n) where
  current := hcurrent
  current' := hcurrent
  nodes m hm := by
    rw [at?_set, if_neg]
    · exact .refl _ _
    · rintro rfl
      exact hm hl

/-- Trees that differ in less differ in more. -/
theorem Between.mono {d' : Difference} (h : d.Between t u) (hcurrent : d'.current = d.current)
    (hhidden : ∀ l, d.hidden l → d'.hidden l) (hedited : ∀ l, d.edited l → d'.edited l) :
    d'.Between t u where
  current := h.current.trans hcurrent.symm
  current' := h.current'.trans hcurrent.symm
  nodes l hl := (h.nodes l fun hl' ↦ hl (hhidden l hl')).mono (hedited l)

/-! ## Ways -/

/-- The location that a path names in both trees. -/
def place (d : Difference) (p : Path) : Location :=
  p.parts.foldl enter (if p.isAbsolute then [] else d.current)

/-- The locations on the way to it, with the first and the last. -/
def way (d : Difference) (p : Path) : List Location :=
  p.parts.scanl enter (if p.isAbsolute then [] else d.current)

/-- The way to the end of a path does not go through what is hidden. -/
def Clear (d : Difference) (p : Path) : Prop := ∀ l ∈ d.way p, ¬ d.hidden l

theorem foldl_mem_scanl (parts : List String) (l : Location) :
    parts.foldl enter l ∈ parts.scanl enter l := by
  induction parts generalizing l with
  | nil => simp
  | cons part parts ih =>
    rw [List.scanl_cons, List.foldl_cons]
    exact List.mem_cons_of_mem _ (ih _)

theorem place_mem_way (d : Difference) (p : Path) : d.place p ∈ d.way p := foldl_mem_scanl _ _

theorem mem_scanl_of_dropLast {parts : List String} (h : m ∈ parts.dropLast.scanl enter l) :
    m ∈ parts.scanl enter l := by
  rcases List.eq_nil_or_concat parts with rfl | ⟨parts, last, rfl⟩
  · exact h
  · rw [List.concat_eq_append, List.dropLast_concat] at h
    rw [List.concat_eq_append, List.scanl_append]
    exact List.mem_append_left _ h

/-- The way to what is above goes along the way. -/
theorem Clear.parent (h : d.Clear p) : d.Clear p.parent := fun l hl ↦ h l (mem_scanl_of_dropLast hl)

/-! ## Looking -/

namespace Between

variable (h : d.Between t u)
include h

theorem place (p : Path) : t.place p = d.place p := by
  rw [FileTree.place, Difference.place, h.current]

theorem place' (p : Path) : u.place p = d.place p := by
  rw [FileTree.place, Difference.place, h.current']

/-- Whatever it comes to, a way that keeps clear is the same in both trees. -/
theorem walk {path : String} {parts : List String}
    (hclear : ∀ m ∈ parts.scanl enter l, ¬ d.hidden m) : u.walk path parts l = t.walk path parts l := by
  induction parts generalizing l with
  | nil => rfl
  | cons part parts ih =>
    rw [List.scanl_cons, List.forall_mem_cons] at hclear
    have hnode := h.nodes l hclear.1
    rw [FileTree.walk, FileTree.walk]
    generalize t.at? l = n at hnode ⊢
    generalize u.at? l = n' at hnode ⊢
    cases hnode with
    | nothing => rfl
    | directory => exact ih hclear.2
    | file => rfl

theorem locate (hp : d.Clear p) : u.locate p = t.locate p := by
  rw [FileTree.locate, FileTree.locate, h.current, h.current']
  exact h.walk hp

/-- A path that is found leads to the place that it names. -/
theorem eq_place (hl : t.locate p = .ok l) : l = d.place p :=
  (FileTree.eq_place hl).trans (h.place p)

theorem node (hp : d.Clear p) :
    Node.Like (d.edited (d.place p)) (t.at? (d.place p)) (u.at? (d.place p)) :=
  h.nodes _ (hp _ (d.place_mem_way p))

/-- What is above a place that is not hidden is not hidden either. -/
theorem node_above (hp : d.Clear p) : Node.Like (d.edited (d.place p).dropLast)
    (t.at? (d.place p).dropLast) (u.at? (d.place p).dropLast) :=
  h.nodes _ fun hhidden ↦ hp _ (d.place_mem_way p) (d.below hhidden (List.dropLast_prefix _))

theorem isDirectory (hp : d.Clear p) : u.isDirectory p = t.isDirectory p := by
  unfold FileTree.isDirectory node?
  rw [h.locate hp]
  cases hl : t.locate p with
  | error f => rfl
  | ok l =>
    obtain rfl := h.eq_place hl
    have hnode := h.node hp
    simp only [Except.toOption, Option.bind_some]
    generalize t.at? (d.place p) = n at hnode ⊢
    generalize u.at? (d.place p) = n' at hnode ⊢
    cases hnode <;> rfl

/-- What is at a path is the same, unless a file is there that was edited. -/
theorem read (hp : d.Clear p) (hedited : ¬ d.edited (d.place p)) : u.read p = t.read p := by
  unfold FileTree.read
  rw [h.locate hp]
  cases hl : t.locate p with
  | error f => rfl
  | ok l =>
    obtain rfl := h.eq_place hl
    have hnode := h.node hp
    simp only [bind, Except.bind]
    generalize t.at? (d.place p) = n at hnode ⊢
    generalize u.at? (d.place p) = n' at hnode ⊢
    cases hnode with
    | nothing => rfl
    | directory => rfl
    | file content =>
      obtain rfl := content hedited
      rfl

/-- Where both trees get nodes that are alike, they go on to differ in nothing else. -/
theorem set {n n' : Node} (hl : Node.Like (d.edited l) (some n) (some n')) :
    d.Between (t.set l n) (u.set l n') where
  current := h.current
  current' := h.current'
  nodes m hm := by
    rw [at?_set, at?_set]
    split
    · rename_i heq
      rwa [← heq]
    · exact h.nodes m hm

end Between

/-! ## Making directories -/

/-- Two changes of trees come to the same fault, or to trees that differ in nothing else. -/
inductive Both (d : Difference) : Except Fault FileTree → Except Fault FileTree → Prop where
  | fault (f : Fault) : Both d (.error f) (.error f)
  | done {t u : FileTree} (h : d.Between t u) : Both d (.ok t) (.ok u)

theorem Between.createDirectory (h : d.Between t u) (hp : d.Clear p) (mode : Nat) :
    d.Both (t.createDirectory mode p) (u.createDirectory mode p) := by
  unfold FileTree.createDirectory
  rw [h.locate hp]
  cases hl : t.locate p with
  | error f => exact .fault f
  | ok l =>
    obtain rfl := h.eq_place hl
    have hnode := h.node hp
    have habove := h.node_above hp
    simp only [bind, Except.bind]
    generalize t.at? (d.place p) = n at hnode ⊢
    generalize u.at? (d.place p) = n' at hnode ⊢
    generalize t.at? (d.place p).dropLast = k at habove ⊢
    generalize u.at? (d.place p).dropLast = k' at habove ⊢
    cases hnode with
    | nothing => cases habove with
      | nothing => exact .fault _
      | directory => exact .done (h.set (.directory mode mode))
      | file => exact .fault _
    | directory => exact .fault _
    | file => exact .fault _

theorem Between.makeWithParents {p : Path} (h : d.Between t u) (hp : d.Clear p) (parts mode : Nat) :
    d.Both (t.makeWithParents parts mode p) (u.makeWithParents parts mode p) := by
  have hcreate := h.createDirectory hp mode
  unfold FileTree.makeWithParents
  rw [h.isDirectory hp]
  generalize t.createDirectory mode p = x at hcreate ⊢
  generalize u.createDirectory mode p = y at hcreate ⊢
  cases hcreate with
  | done h => exact .done h
  | fault f =>
    obtain ⟨kind, path⟩ := f
    cases kind with
    | notFound => cases parts with
      | zero => exact .fault _
      | succ parts =>
        have hparent := h.makeWithParents hp.parent parts parentMode
        simp only [bind, Except.bind]
        generalize t.makeWithParents parts parentMode p.parent = x at hparent ⊢
        generalize u.makeWithParents parts parentMode p.parent = y at hparent ⊢
        cases hparent with
        | fault f => exact .fault f
        | done h => exact h.createDirectory hp mode
    | _ =>
      dsimp only
      split
      · exact .done h
      · exact .fault _

theorem Between.ensureDirectory (h : d.Between t u) (hp : d.Clear p) :
    d.Both (t.ensureDirectory p) (u.ensureDirectory p) := by
  rw [FileTree.ensureDirectory, FileTree.ensureDirectory, h.isDirectory hp]
  split
  · exact .done h
  · exact h.makeWithParents hp _ _

/-! ## Writing files -/

/-- What keeps a file from being written is the same in both trees. -/
theorem Between.draft? (h : d.Between t u) (hp : d.Clear p) (b b' : Bytes) :
    (∃ f, t.draft? undisturbed p b = .error f ∧ u.draft? undisturbed p b' = .error f) ∨
      ∃ e e', t.draft? undisturbed p b = .ok e ∧ u.draft? undisturbed p b' = .ok e' := by
  unfold FileTree.draft? undisturbed
  rw [h.locate hp]
  cases hl : t.locate p with
  | error f => exact .inl ⟨f, rfl, rfl⟩
  | ok l =>
    obtain rfl := h.eq_place hl
    have hnode := h.node hp
    have habove := h.node_above hp
    dsimp only
    generalize t.at? (d.place p) = n at hnode ⊢
    generalize u.at? (d.place p) = n' at hnode ⊢
    generalize t.at? (d.place p).dropLast = k at habove ⊢
    generalize u.at? (d.place p).dropLast = k' at habove ⊢
    cases hnode with
    | nothing => cases habove with
      | nothing => exact .inl ⟨_, rfl, rfl⟩
      | directory => exact .inr ⟨_, _, rfl, rfl⟩
      | file => exact .inr ⟨_, _, rfl, rfl⟩
    | directory => exact .inl ⟨_, rfl, rfl⟩
    | file => exact .inr ⟨_, _, rfl, rfl⟩

/-- A file that is written in both trees can get another content in the one than in the other only if it
is one of those that are edited. -/
theorem Between.rewrites {t' u' : FileTree} {b b' : Bytes} (h : d.Between t u)
    (hcontent : ¬ d.edited (d.place p) → b' = b) (ht : Rewrites (· = t.place p) t t')
    (hu : Rewrites (· = u.place p) u u') (hb : t'.read p = .ok b) (hb' : u'.read p = .ok b') :
    d.Between t' u' where
  current := ht.current.trans h.current
  current' := hu.current.trans h.current'
  nodes l hl := by
    obtain ⟨-, mode, modified, hfile⟩ := read_eq_ok_iff.mp hb
    obtain ⟨-, mode', modified', hfile'⟩ := read_eq_ok_iff.mp hb'
    rw [ht.place, h.place] at hfile
    rw [hu.place, h.place'] at hfile'
    by_cases heq : l = d.place p
    · rw [heq, hfile, hfile']
      exact .file hcontent _ _ _ _
    · rw [ht.at? (by rwa [h.place]), hu.at? (by rwa [h.place'])]
      exact h.nodes l hl

/-- Writing fails in both trees with the same fault, or in neither of them. -/
theorem Between.writeIfChanged (h : d.Between t u) (hproper : p.Proper) (hp : d.Clear p)
    {b b' : Bytes} (hcontent : ¬ d.edited (d.place p) → b' = b) :
    SameEnd (fun _ _ ↦ True) d.Between (t.writeIfChanged undisturbed p b)
      (u.writeIfChanged undisturbed p b') := by
  rcases ht : t.writeIfChanged undisturbed p b with ⟨x, t'⟩
  rcases hu : u.writeIfChanged undisturbed p b' with ⟨y, u'⟩
  have hends := h.draft? hp b b'
  cases x with
  | error f =>
    obtain rfl := writeIfChanged_eq_error ht
    rw [writeIfChanged_undisturbed] at ht hu
    rcases hends with ⟨f', hdraft, hdraft'⟩ | ⟨e, e', hdraft, -⟩
    · rw [hdraft] at ht
      rw [hdraft'] at hu
      cases ht
      cases hu
      exact .error _ h
    · rw [hdraft] at ht
      cases e <;> cases ht
  | ok changed =>
    have hdone : ∃ changed', y = .ok changed' := by
      rw [writeIfChanged_undisturbed] at ht hu
      rcases hends with ⟨f', hdraft, -⟩ | ⟨e, e', -, hdraft'⟩
      · rw [hdraft] at ht
        cases ht
      · rw [hdraft'] at hu
        cases e' <;> cases hu <;> exact ⟨_, rfl⟩
    obtain ⟨changed', rfl⟩ := hdone
    exact .ok trivial (h.rewrites hcontent (rewrites_writeIfChanged hproper ht)
      (rewrites_writeIfChanged hproper hu) (read_writeIfChanged ht) (read_writeIfChanged hu))

end Difference

end FileTree

end IceCube
