import IceCube.FileTree.Directory
import IceCube.Proofs.FileTree.Replaced
import IceCube.Proofs.Path

/-!
# What writing leaves as it was

Making directories and replacing files takes nothing away: directories stay, files stay files, and
only the files at the written locations get other contents.  So a path that led somewhere leads
there still, and a file that was not written to is read as before.
-/

namespace IceCube.FileTree

variable {t u v : FileTree} {p : Path} {l m : Location}

/-! ## Places -/

/-- The location that one more part leads to. -/
def enter (l : Location) (part : String) : Location :=
  if part = ".." then l.dropLast else l ++ [part]

/-- The location that a path names, whether or not there is a way to it. -/
def place (t : FileTree) (p : Path) : Location :=
  p.parts.foldl enter (if p.isAbsolute then [] else t.current)

theorem place_child (t : FileTree) (p : Path) {n : String} (h : n ≠ "..") :
    t.place (p.child n) = t.place p ++ [n] := by
  simp [place, Path.child, Path.isAbsolute, enter, h]

theorem walk_eq_ok {path : String} {parts : List String} (h : t.walk path parts l = .ok m) :
    m = parts.foldl enter l := by
  induction parts generalizing l with
  | nil =>
    cases h
    rfl
  | cons part parts ih =>
    rw [walk] at h
    cases hl : t.at? l with
    | none => simp [hl] at h
    | some n =>
      cases n with
      | file content mode modified => simp [hl] at h
      | directory mode =>
        rw [hl] at h
        exact ih h

theorem eq_place (h : t.locate p = .ok l) : l = t.place p := walk_eq_ok h

/-- A way ends with one part exactly if what comes before it leads to a directory. -/
theorem walk_append_eq_ok {path path' : String} {parts : List String} {n : String} :
    t.walk path (parts ++ [n]) l = .ok m ↔
      ∃ k mode, t.walk path' parts l = .ok k ∧ t.at? k = some (.directory mode) ∧ m = enter k n := by
  induction parts generalizing l with
  | nil =>
    cases hl : t.at? l with
    | none => simp [walk, hl]
    | some node =>
      cases node with
      | file content mode modified => simp [walk, hl]
      | directory mode => simp [walk, hl, enter, eq_comm]
  | cons part parts ih =>
    rw [List.cons_append, walk, walk]
    cases hl : t.at? l with
    | none => simp
    | some node =>
      cases node with
      | file content mode modified => simp
      | directory mode => exact ih

theorem locate_child_eq_ok {n : String} :
    t.locate (p.child n) = .ok m ↔
      ∃ l mode, t.locate p = .ok l ∧ t.at? l = some (.directory mode) ∧ m = enter l n :=
  walk_append_eq_ok

theorem node?_eq_some_iff {n : Node} :
    t.node? p = some n ↔ t.locate p = .ok (t.place p) ∧ t.at? (t.place p) = some n := by
  unfold node?
  cases hl : t.locate p with
  | error f => simp [Except.toOption]
  | ok l =>
    obtain rfl := eq_place hl
    simp [Except.toOption]

theorem isDirectory_iff : t.isDirectory p = true ↔
    t.locate p = .ok (t.place p) ∧ ∃ mode, t.at? (t.place p) = some (.directory mode) := by
  simp only [← exists_and_left, ← node?_eq_some_iff]
  unfold isDirectory
  rcases t.node? p with _ | _ | _ <;> simp

theorem isFile_iff : t.isFile p = true ↔
    t.locate p = .ok (t.place p) ∧ ∃ c mode s, t.at? (t.place p) = some (.file c mode s) := by
  simp only [← exists_and_left, ← node?_eq_some_iff]
  unfold isFile
  rcases t.node? p with _ | _ | _ <;> simp

theorem read_eq_ok_iff {b : Bytes} : t.read p = .ok b ↔
    t.locate p = .ok (t.place p) ∧ ∃ mode s, t.at? (t.place p) = some (.file b mode s) := by
  unfold read
  cases hl : t.locate p with
  | error f => simp [bind, Except.bind]
  | ok l =>
    rw [eq_place hl]
    cases hn : t.at? (t.place p) with
    | none => simp [bind, Except.bind, hn]
    | some n => cases n <;> simp [bind, Except.bind, hn, pure, Except.pure]

theorem read_eq_ok_iff_node? {b : Bytes} :
    t.read p = .ok b ↔ ∃ mode s, t.node? p = some (.file b mode s) := by
  simp only [read_eq_ok_iff, node?_eq_some_iff, exists_and_left]

theorem isFile_of_read {b : Bytes} (h : t.read p = .ok b) : t.isFile p = true := by
  obtain ⟨hl, mode, s, hn⟩ := read_eq_ok_iff.mp h
  exact isFile_iff.mpr ⟨hl, b, mode, s, hn⟩

/-- What exists and cannot be read is a directory. -/
theorem read_eq_error_iff {f : Fault} (hp : t.pathExists p = true) :
    t.read p = .error f ↔ t.isDirectory p = true ∧ f = ⟨.isADirectory, p.text⟩ := by
  unfold pathExists node? at hp
  unfold read isDirectory node?
  cases hl : t.locate p with
  | error f' =>
    rw [hl] at hp
    cases hp
  | ok l =>
    rw [hl] at hp
    cases hn : t.at? l with
    | none => simp [Except.toOption, hn] at hp
    | some n =>
      cases n <;> simp [Except.toOption, hn, bind, Except.bind, pure, Except.pure, eq_comm]

theorem pathExists_of_read {b : Bytes} (h : t.read p = .ok b) : t.pathExists p = true := by
  obtain ⟨mode, s, hn⟩ := read_eq_ok_iff_node?.mp h
  rw [pathExists, hn]
  rfl

theorem pathExists_of_isDirectory (h : t.isDirectory p = true) : t.pathExists p = true := by
  obtain ⟨hl, mode, hn⟩ := isDirectory_iff.mp h
  simp [pathExists, node?, hl, hn, Except.toOption]

/-! ## Trees that can be -/

/-- Every location is there once, and all parts of locations are names. -/
structure Sound (t : FileTree) : Prop where
  nodup : (Table.keys t.nodes).Nodup
  names : ∀ l, t.at? l ≠ none → ∀ n ∈ l, Path.IsName n
  current : ∀ n ∈ t.current, Path.IsName n

theorem at?_ne_none_iff : t.at? l ≠ none ↔ ∃ n, (l, n) ∈ t.nodes := by
  rw [at?, ne_eq, Table.get?_eq_none_iff, not_not, Table.keys, List.mem_map]
  constructor
  · rintro ⟨⟨m, n⟩, h, rfl⟩
    exact ⟨n, h⟩
  · rintro ⟨n, h⟩
    exact ⟨(l, n), h, rfl⟩

theorem sound_iff : t.Sound ↔ (Table.keys t.nodes).Nodup ∧
    (∀ e ∈ t.nodes, ∀ n ∈ e.1, Path.IsName n) ∧ ∀ n ∈ t.current, Path.IsName n := by
  constructor
  · intro h
    exact ⟨h.nodup, fun e he ↦ h.names e.1 (at?_ne_none_iff.mpr ⟨e.2, he⟩), h.current⟩
  · rintro ⟨hnodup, hnames, hcurrent⟩
    refine ⟨hnodup, fun l hl ↦ ?_, hcurrent⟩
    obtain ⟨n, hn⟩ := at?_ne_none_iff.mp hl
    exact hnames (l, n) hn

instance (t : FileTree) : Decidable t.Sound := decidable_of_iff _ sound_iff.symm

theorem isName_enter {n : String} (hl : ∀ n ∈ l, Path.IsName n) (hn : Path.IsName n) :
    ∀ m ∈ enter l n, Path.IsName m := by
  intro m hm
  unfold enter at hm
  split at hm
  · exact hl m (List.dropLast_subset _ hm)
  · rcases List.mem_append.mp hm with hm | hm
    · exact hl m hm
    · rwa [List.mem_singleton.mp hm]

theorem isName_foldl_enter {parts : List String} (hparts : ∀ n ∈ parts, Path.IsName n)
    (hl : ∀ n ∈ l, Path.IsName n) : ∀ n ∈ parts.foldl enter l, Path.IsName n := by
  induction parts generalizing l with
  | nil => exact hl
  | cons part parts ih =>
    obtain ⟨hpart, hparts⟩ := List.forall_mem_cons.mp hparts
    exact ih hparts (isName_enter hl hpart)

theorem Sound.isName_place (h : t.Sound) (hp : p.Proper) : ∀ n ∈ t.place p, Path.IsName n := by
  refine isName_foldl_enter hp ?_
  split
  · simp
  · exact h.current

/-- A tree with one more node, or another one in place of a node. -/
theorem Sound.set (h : t.Sound) (hl : ∀ n ∈ l, Path.IsName n) (n : Node) : (t.set l n).Sound where
  nodup := Table.nodup_keys_insert h.nodup l n
  names := by
    intro m hm
    rw [at?_set] at hm
    split at hm
    · rename_i heq
      rwa [← heq]
    · exact h.names m hm
  current := h.current

theorem Sound.drop (h : t.Sound) (l : Location) : (t.drop l).Sound where
  nodup := h.nodup.sublist (List.filter_sublist.map Prod.fst)
  names := by
    intro m hm
    rw [at?_drop] at hm
    split at hm
    · exact absurd rfl hm
    · exact h.names m hm
  current := h.current

/-! ## Growing -/

/-- What was there is there still, and only files at given locations have other contents. -/
structure Grows (O : Location → Prop) (t u : FileTree) : Prop where
  current : u.current = t.current
  directory : ∀ {l mode}, t.at? l = some (.directory mode) → u.at? l = some (.directory mode)
  file : ∀ {l c mode s}, t.at? l = some (.file c mode s) → ∃ c mode s, u.at? l = some (.file c mode s)
  kept : ∀ {l n}, ¬ O l → t.at? l = some n → u.at? l = some n
  sound : t.Sound → u.Sound

/-- Beyond that, nothing but directories has come up elsewhere. -/
structure Edits (O : Location → Prop) (t u : FileTree) : Prop extends Grows O t u where
  written : ∀ {l c mode s}, ¬ O l → u.at? l = some (.file c mode s) →
    t.at? l = some (.file c mode s)

/-- Beyond that, nothing new has come up elsewhere. -/
structure Rewrites (O : Location → Prop) (t u : FileTree) : Prop extends Grows O t u where
  absent : ∀ {l}, ¬ O l → t.at? l = none → u.at? l = none

section Grows

variable {O O' : Location → Prop}

theorem Grows.refl (O : Location → Prop) (t : FileTree) : Grows O t t where
  current := rfl
  directory h := h
  file h := ⟨_, _, _, h⟩
  kept _ h := h
  sound h := h

theorem Grows.trans (h : Grows O t u) (h' : Grows O u v) : Grows O t v where
  current := h'.current.trans h.current
  directory hl := h'.directory (h.directory hl)
  file hl := by
    obtain ⟨c, mode, s, hu⟩ := h.file hl
    exact h'.file hu
  kept hO hl := h'.kept hO (h.kept hO hl)
  sound ht := h'.sound (h.sound ht)

theorem Grows.mono (h : Grows O t u) (hO : ∀ l, O l → O' l) : Grows O' t u where
  current := h.current
  directory := h.directory
  file := h.file
  kept hl := h.kept fun hl' ↦ hl (hO _ hl')
  sound := h.sound

theorem Edits.refl (O : Location → Prop) (t : FileTree) : Edits O t t where
  toGrows := .refl O t
  written _ h := h

theorem Edits.trans (h : Edits O t u) (h' : Edits O u v) : Edits O t v where
  toGrows := h.toGrows.trans h'.toGrows
  written hO hl := h.written hO (h'.written hO hl)

theorem Edits.mono (h : Edits O t u) (hO : ∀ l, O l → O' l) : Edits O' t u where
  toGrows := h.toGrows.mono hO
  written hl := h.written fun hl' ↦ hl (hO _ hl')

theorem Rewrites.refl (O : Location → Prop) (t : FileTree) : Rewrites O t t where
  toGrows := .refl O t
  absent _ h := h

theorem Rewrites.trans (h : Rewrites O t u) (h' : Rewrites O u v) : Rewrites O t v where
  toGrows := h.toGrows.trans h'.toGrows
  absent hO hl := h'.absent hO (h.absent hO hl)

theorem Rewrites.mono (h : Rewrites O t u) (hO : ∀ l, O l → O' l) : Rewrites O' t u where
  toGrows := h.toGrows.mono hO
  absent hl := h.absent fun hl' ↦ hl (hO _ hl')

theorem Rewrites.at? (h : Rewrites O t u) (hl : ¬ O l) : u.at? l = t.at? l := by
  cases ht : t.at? l with
  | none => exact h.absent hl ht
  | some n => exact h.kept hl ht

theorem Rewrites.toEdits (h : Rewrites O t u) : Edits O t u where
  toGrows := h.toGrows
  written hl hu := by rwa [← h.at? hl]

theorem Grows.ne_none (h : Grows O t u) (hl : t.at? l ≠ none) : u.at? l ≠ none := by
  obtain ⟨n, hn⟩ := Option.ne_none_iff_exists'.mp hl
  cases n with
  | file c mode s =>
    obtain ⟨c, mode, s, hu⟩ := h.file hn
    simp [hu]
  | directory mode => simp [h.directory hn]

theorem Grows.place (h : Grows O t u) (p : Path) : u.place p = t.place p := by
  simp only [FileTree.place, h.current]

theorem Grows.locate (h : Grows O t u) (hl : t.locate p = .ok l) : u.locate p = .ok l := by
  unfold FileTree.locate at hl ⊢
  rw [h.current]
  exact walk_of_directories (fun _ _ ↦ h.directory) hl

theorem Grows.isDirectory (h : Grows O t u) (hp : t.isDirectory p = true) :
    u.isDirectory p = true := by
  obtain ⟨hl, mode, hn⟩ := isDirectory_iff.mp hp
  rw [isDirectory_iff, h.place]
  exact ⟨h.locate hl, mode, h.directory hn⟩

theorem Grows.isFile (h : Grows O t u) (hp : t.isFile p = true) : u.isFile p = true := by
  obtain ⟨hl, c, mode, s, hn⟩ := isFile_iff.mp hp
  rw [isFile_iff, h.place]
  exact ⟨h.locate hl, h.file hn⟩

theorem Grows.read (h : Grows O t u) (hO : ¬ O (t.place p)) {b : Bytes} (hp : t.read p = .ok b) :
    u.read p = .ok b := by
  obtain ⟨hl, mode, s, hn⟩ := read_eq_ok_iff.mp hp
  rw [read_eq_ok_iff, h.place]
  exact ⟨h.locate hl, mode, s, h.kept hO hn⟩

end Grows

/-! ## Making directories -/

theorem createDirectory_eq_ok {mode : Nat} (h : t.createDirectory mode p = .ok u) :
    t.locate p = .ok (t.place p) ∧ t.at? (t.place p) = none ∧
      u = t.set (t.place p) (.directory mode) := by
  unfold createDirectory at h
  cases hl : t.locate p with
  | error f => simp [hl, bind, Except.bind] at h
  | ok l =>
    obtain rfl := eq_place hl
    cases hn : t.at? (t.place p) with
    | some n => simp [hl, hn, bind, Except.bind] at h
    | none =>
      cases hd : t.at? (t.place p).dropLast with
      | none => simp [hl, hn, hd, bind, Except.bind] at h
      | some n =>
        cases n with
        | file c m s => simp [hl, hn, hd, bind, Except.bind] at h
        | directory m =>
          simp only [hl, hn, hd, bind, Except.bind, pure, Except.pure, Except.ok.injEq] at h
          exact ⟨rfl, rfl, h.symm⟩

/-- A new directory where there was nothing takes nothing away. -/
theorem edits_set (h : t.at? l = none) (hl : t.Sound → ∀ n ∈ l, Path.IsName n) (mode : Nat) :
    Edits (fun _ ↦ False) t (t.set l (.directory mode)) := by
  have hother : ∀ {m node}, t.at? m = some node →
      (t.set l (.directory mode)).at? m = some node := by
    intro m node hm
    rw [at?_set, if_neg]
    · exact hm
    · rintro rfl
      rw [h] at hm
      cases hm
  exact {
    current := rfl
    directory := hother
    file := fun hm ↦ ⟨_, _, _, hother hm⟩
    kept := fun _ ↦ hother
    sound := fun ht ↦ ht.set (hl ht) _
    written := fun _ hm ↦ by
      rw [at?_set] at hm
      split at hm
      · cases hm
      · exact hm }

theorem edits_createDirectory {mode : Nat} (hp : p.Proper) (h : t.createDirectory mode p = .ok u) :
    Edits (fun _ ↦ False) t u ∧ u.isDirectory p = true := by
  obtain ⟨hl, hn, rfl⟩ := createDirectory_eq_ok h
  have hedits := edits_set hn (fun ht ↦ ht.isName_place hp) mode
  refine ⟨hedits, isDirectory_iff.mpr ?_⟩
  rw [hedits.place]
  exact ⟨hedits.locate hl, mode, by simp⟩

theorem edits_makeWithParents {parts mode : Nat} (hp : p.Proper)
    (h : t.makeWithParents parts mode p = .ok u) :
    Edits (fun _ ↦ False) t u ∧ u.isDirectory p = true := by
  induction parts generalizing t u p mode with
  | zero =>
    unfold makeWithParents at h
    split at h
    · rename_i w hw
      cases h
      exact edits_createDirectory hp hw
    · cases h
    · split at h
      · rename_i hd
        cases h
        exact ⟨.refl _ _, hd⟩
      · cases h
  | succ parts ih =>
    unfold makeWithParents at h
    split at h
    · rename_i w hw
      cases h
      exact edits_createDirectory hp hw
    · cases hw : t.makeWithParents parts parentMode p.parent with
      | error f => simp [hw, bind, Except.bind] at h
      | ok w =>
        obtain ⟨hedits, -⟩ := ih hp.parent hw
        have hc : w.createDirectory mode p = .ok u := by simpa [hw, bind, Except.bind] using h
        obtain ⟨hedits', hd⟩ := edits_createDirectory hp hc
        exact ⟨hedits.trans hedits', hd⟩
    · split at h
      · rename_i hd
        cases h
        exact ⟨.refl _ _, hd⟩
      · cases h

theorem edits_ensureDirectory (hp : p.Proper) (h : t.ensureDirectory p = .ok u) :
    Edits (fun _ ↦ False) t u ∧ u.isDirectory p = true := by
  unfold ensureDirectory at h
  split at h
  · rename_i hd
    cases h
    exact ⟨.refl _ _, hd⟩
  · exact edits_makeWithParents hp h

theorem ensureDirectory_of_isDirectory (h : t.isDirectory p = true) : t.ensureDirectory p = .ok t := by
  rw [ensureDirectory, if_pos h]

/-! ## Replacing files -/

theorem Sound.replaced (h : t.Sound) {d : Draft} (hfree : t.at? d.temporary = none)
    (hd : ∀ n ∈ d.target, Path.IsName n) : (t.replaced d).Sound where
  nodup := by
    refine Table.nodup_keys_insert ?_ _ _
    refine List.Nodup.sublist (List.filter_sublist.map Prod.fst) ?_
    refine Table.nodup_keys_insert ?_ _ _
    refine Table.nodup_keys_insert ?_ _ _
    exact Table.nodup_keys_insert h.nodup _ _
  names := by
    intro m hm
    rw [at?_replaced hfree] at hm
    split at hm
    · rename_i heq
      rwa [← heq]
    · exact h.names m hm
  current := h.current

theorem rewrites_replaced {d : Draft} (hfree : t.at? d.temporary = none)
    (hd : t.Sound → ∀ n ∈ d.target, Path.IsName n)
    (htarget : ∀ mode, t.at? d.target ≠ some (.directory mode)) :
    Rewrites (· = d.target) t (t.replaced d) := by
  have hother : ∀ {l}, ¬ l = d.target → (t.replaced d).at? l = t.at? l := by
    intro l hl
    rw [at?_replaced hfree, if_neg (Ne.symm hl)]
  exact {
    current := rfl
    directory := fun {l mode} hl ↦ by
      rw [hother, hl]
      rintro rfl
      exact htarget mode hl
    file := fun {l c mode s} hl ↦ by
      by_cases heq : l = d.target
      · exact ⟨_, _, _, by rw [at?_replaced hfree, if_pos heq.symm]⟩
      · exact ⟨c, mode, s, by rw [hother heq, hl]⟩
    kept := fun hl hn ↦ by rw [hother hl, hn]
    sound := fun ht ↦ ht.replaced hfree (hd ht)
    absent := fun hl hn ↦ by rw [hother hl, hn] }

/-- Writing a file touches no other location, whichever way it ends. -/
theorem rewrites_writeIfChanged {content : Bytes} {r : Except Fault Bool} (hp : p.Proper)
    (h : t.writeIfChanged undisturbed p content = (r, u)) : Rewrites (· = t.place p) t u := by
  rw [writeIfChanged_undisturbed] at h
  split at h
  · cases h
    exact .refl _ _
  · cases h
    exact .refl _ _
  · rename_i d hdraft
    cases h
    have hdrafted := drafted_of_draft? hdraft
    have htarget := eq_place hdrafted.located
    rw [← htarget]
    exact rewrites_replaced hdrafted.at?_temporary
      (fun ht ↦ by rw [htarget]; exact ht.isName_place hp) hdrafted.free

/-- A file that cannot be written is left alone. -/
theorem writeIfChanged_eq_error {content : Bytes} {f : Fault}
    (h : t.writeIfChanged undisturbed p content = (.error f, u)) : u = t := by
  rw [writeIfChanged_undisturbed] at h
  split at h <;> cases h
  rfl

/-- A file that holds the content is not replaced, and there is nothing else that is not. -/
theorem draft?_eq_none_iff {interrupt : ReplaceStep → Option Interruption} {content : Bytes} :
    t.draft? interrupt p content = .ok none ↔
      interrupt .compare = none ∧ t.read p = .ok content := by
  constructor
  · intro h
    refine ⟨?_, read_of_draft?_eq_none h⟩
    cases hcompare : interrupt .compare with
    | none => rfl
    | some i => simp [draft?, hcompare] at h
  · rintro ⟨hcompare, hread⟩
    obtain ⟨hl, mode, s, hn⟩ := read_eq_ok_iff.mp hread
    simp [draft?, hcompare, hl, hn]

theorem read_ne_of_draft? {interrupt : ReplaceStep → Option Interruption} {content : Bytes}
    {d : Draft} (h : t.draft? interrupt p content = .ok (some d)) : t.read p ≠ .ok content := by
  intro hread
  have hcompare : interrupt .compare = none := by
    cases hi : interrupt .compare with
    | none => rfl
    | some i => simp [draft?, hi] at h
  rw [draft?_eq_none_iff.mpr ⟨hcompare, hread⟩] at h
  cases h

/-- A file that holds the content already is left alone. -/
theorem writeIfChanged_of_read {content : Bytes} (h : t.read p = .ok content) :
    t.writeIfChanged undisturbed p content = (.ok false, t) := by
  rw [writeIfChanged, draft?_eq_none_iff.mpr ⟨rfl, h⟩]

/-- There is a way to the end of a path, no directory is there, and something is above it. -/
structure Writable (t : FileTree) (p : Path) : Prop where
  located : t.locate p = .ok (t.place p)
  free : ∀ mode, t.at? (t.place p) ≠ some (.directory mode)
  above : t.at? (t.place p) = none → t.at? (t.place p).dropLast ≠ none

theorem writable_of_isFile (h : t.isFile p = true) : t.Writable p := by
  obtain ⟨hl, c, mode, s, hn⟩ := isFile_iff.mp h
  exact ⟨hl, by simp [hn], by simp [hn]⟩

/-- What is no directory in a directory can be written. -/
theorem writable_child {n : String} (h : t.isDirectory p = true) (hn : n ≠ "..")
    (hfree : ∀ mode, t.at? (t.place p ++ [n]) ≠ some (.directory mode)) :
    t.Writable (p.child n) := by
  obtain ⟨hl, mode, hdirectory⟩ := isDirectory_iff.mp h
  refine ⟨?_, ?_, fun _ ↦ ?_⟩
  · rw [t.place_child p hn, locate_child_eq_ok]
    exact ⟨_, mode, hl, hdirectory, by simp [enter, hn]⟩
  · rwa [t.place_child p hn]
  · rw [t.place_child p hn, List.dropLast_concat, hdirectory]
    exact Option.some_ne_none _

theorem writeIfChanged_of_writable (h : t.Writable p) (content : Bytes) :
    ∃ b, (t.writeIfChanged undisturbed p content).1 = .ok b := by
  have hdraft : ∃ d, t.draft? undisturbed p content = .ok d := by
    unfold draft?
    rw [h.located]
    cases hn : t.at? (t.place p) with
    | none =>
      cases ha : t.at? (t.place p).dropLast with
      | none => exact absurd ha (h.above hn)
      | some _ => simp [undisturbed, hn, ha]
    | some n =>
      cases n with
      | directory mode => exact absurd hn (h.free mode)
      | file old mode modified => simp [undisturbed, hn]
  obtain ⟨d, hd⟩ := hdraft
  rw [writeIfChanged_undisturbed, hd]
  cases d with
  | none => exact ⟨false, rfl⟩
  | some d => exact ⟨true, rfl⟩

/-- What can be written can be written after a file has been written as well. -/
theorem Writable.rewrites {q : Path} {b : Bytes} (h : t.Writable q)
    (hrewrites : Rewrites (· = t.place p) t u) (hread : u.read p = .ok b) : u.Writable q := by
  have hplace := hrewrites.place q
  obtain ⟨-, mode, modified, hfile⟩ := read_eq_ok_iff.mp hread
  rw [hrewrites.place] at hfile
  refine ⟨by rw [hplace]; exact hrewrites.locate h.located, fun mode' ↦ ?_, fun hnone ↦ ?_⟩
  · rw [hplace]
    by_cases hq : t.place q = t.place p
    · simp [hq, hfile]
    · rw [hrewrites.at? hq]
      exact h.free mode'
  · rw [hplace] at hnone ⊢
    have hq : t.place q ≠ t.place p := by
      intro hq
      rw [hq, hfile] at hnone
      cases hnone
    rw [hrewrites.at? hq] at hnone
    obtain ⟨n, hn⟩ := Option.ne_none_iff_exists'.mp (h.above hnone)
    cases n with
    | directory mode' => simp [hrewrites.directory hn]
    | file c mode' s =>
      obtain ⟨c', mode'', s', hn'⟩ := hrewrites.file hn
      simp [hn']

end IceCube.FileTree
