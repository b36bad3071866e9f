import IceCube.Proofs.FileTree.Shown

/-!
# Writing files in place

A file that is written in place keeps its permission bits and gets its content in one step.  Nothing
else in the tree changes, and writing what is there already shows at no path.
-/

namespace IceCube.FileTree

variable {t u : FileTree} {p : Path} {content : Bytes}

/-- Writing ends with a file at the place of the path, where no directory was. -/
theorem write_eq_ok (h : t.write p content = .ok u) :
    t.locate p = .ok (t.place p) ∧ (∀ mode, t.at? (t.place p) ≠ some (.directory mode)) ∧
      ∃ mode, u = { t with clock := t.clock + 1 }.set (t.place p) (.file content mode t.clock) := by
  unfold write at h
  cases hl : t.locate p with
  | error f => simp [hl, bind, Except.bind] at h
  | ok l =>
    obtain rfl := eq_place hl
    cases hn : t.at? (t.place p) with
    | some n =>
      cases n with
      | directory mode => simp [hl, hn, bind, Except.bind] at h
      | file c mode s =>
        simp only [hl, hn, bind, Except.bind, pure, Except.pure, Except.ok.injEq] at h
        exact ⟨rfl, by simp, mode, h.symm⟩
    | none =>
      cases hd : t.at? (t.place p).dropLast with
      | none => simp [hl, hn, hd, bind, Except.bind] at h
      | some n =>
        cases n with
        | file c mode s => simp [hl, hn, hd, bind, Except.bind] at h
        | directory mode =>
          simp only [hl, hn, hd, bind, Except.bind, pure, Except.pure, Except.ok.injEq] at h
          exact ⟨rfl, by simp, fileMode, h.symm⟩

theorem at?_write (h : t.write p content = .ok u) :
    ∃ mode, ∀ l, u.at? l = if t.place p = l then some (.file content mode t.clock) else t.at? l := by
  obtain ⟨-, -, mode, rfl⟩ := write_eq_ok h
  exact ⟨mode, at?_set _ _ _⟩

/-- Only the written place changes. -/
theorem rewrites_write (hp : p.Proper) (h : t.write p content = .ok u) :
    Rewrites (· = t.place p) t u := by
  obtain ⟨-, hfree, mode, rfl⟩ := write_eq_ok h
  have hother : ∀ {l}, ¬ l = t.place p →
      ({ t with clock := t.clock + 1 }.set (t.place p) (.file content mode t.clock)).at? l =
        t.at? l := by
    intro l hl
    rw [at?_set, if_neg (Ne.symm hl)]
    rfl
  exact {
    current := rfl
    directory := fun {l m} hl ↦ by
      rw [hother, hl]
      rintro rfl
      exact hfree m hl
    file := fun {l c m s} hl ↦ by
      by_cases heq : l = t.place p
      · exact ⟨_, _, _, by rw [at?_set, if_pos heq.symm]⟩
      · exact ⟨c, m, s, by rw [hother heq, hl]⟩
    kept := fun hl hn ↦ by rw [hother hl, hn]
    sound := fun ht ↦ Sound.set (t := { t with clock := t.clock + 1 })
      ⟨ht.nodup, ht.names, ht.current⟩ (ht.isName_place hp) _
    absent := fun hl hn ↦ by rw [hother hl, hn] }

/-- What is written can be read. -/
theorem read_write (hp : p.Proper) (h : t.write p content = .ok u) : u.read p = .ok content := by
  have hrewrites := rewrites_write hp h
  obtain ⟨hl, -, mode, rfl⟩ := write_eq_ok h
  rw [read_eq_ok_iff, hrewrites.place]
  exact ⟨hrewrites.locate hl, mode, t.clock, by rw [at?_set, if_pos rfl]⟩

/-- A file can always be written. -/
theorem write_of_isFile (h : t.isFile p = true) (content : Bytes) :
    ∃ u, t.write p content = .ok u := by
  obtain ⟨hl, c, mode, s, hn⟩ := isFile_iff.mp h
  unfold write
  rw [hl]
  simp only [hn, bind, Except.bind]
  exact ⟨_, rfl⟩

/-- Writing what is there already shows at no path. -/
theorem shown_write_of_read (hp : p.Proper) (hread : t.read p = .ok content)
    (h : t.write p content = .ok u) (q : Path) : u.shown q = t.shown q := by
  have hrewrites := rewrites_write hp h
  obtain ⟨-, mode, s, hfile⟩ := read_eq_ok_iff.mp hread
  obtain ⟨mode', hat⟩ := at?_write h
  have hsame : SameBut (· = t.place p) t u := {
    current := hrewrites.current
    same := hrewrites.at?
    before := by
      rintro l m rfl
      simp [hfile]
    after := by
      rintro l m rfl
      simp [hat] }
  by_cases hq : t.place q = t.place p
  · -- both trees have a file with this content there
    refine Option.ext fun x ↦ ?_
    simp only [shown, Option.map_eq_some_iff, node?_eq_some_iff, hsame.place,
      hsame.locate_eq_ok_iff, hq, hfile, hat, if_true, Option.some.injEq]
    constructor
    · rintro ⟨n, ⟨hl, rfl⟩, rfl⟩
      exact ⟨_, ⟨hl, rfl⟩, rfl⟩
    · rintro ⟨n, ⟨hl, rfl⟩, rfl⟩
      exact ⟨_, ⟨hl, rfl⟩, rfl⟩
  · exact hsame.shown hq

end IceCube.FileTree
