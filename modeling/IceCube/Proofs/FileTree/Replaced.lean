import Mathlib.Data.List.Perm.Subperm
import IceCube.FileTree.Replace
import IceCube.Proofs.Table

/-!
# Files read after they are written

Replacing a file touches no other location: the temporary file has a location of its own and is gone
at the end.  A path that led to the file before leads to it after, because the directories on the
way are as they were.
-/

namespace IceCube.FileTree

variable {t u : FileTree}

@[simp] theorem at?_set (t : FileTree) (l : Location) (n : Node) (m : Location) :
    (t.set l n).at? m = if l = m then some n else t.at? m := Table.get?_insert t.nodes l m n

@[simp] theorem at?_drop (t : FileTree) (l m : Location) :
    (t.drop l).at? m = if l = m then none else t.at? m := Table.get?_erase t.nodes l m

/-! ## Ways through directories -/

/-- A way through directories is a way wherever these are directories. -/
theorem walk_of_directories
    (h : ∀ l mode, t.at? l = some (.directory mode) → u.at? l = some (.directory mode))
    {path : String} {parts : List String} {l target : Location}
    (hwalk : t.walk path parts l = .ok target) : u.walk path parts l = .ok target := by
  induction parts generalizing l with
  | nil => exact hwalk
  | cons part parts ih =>
    rw [walk] at hwalk ⊢
    cases hl : t.at? l with
    | none => simp [hl] at hwalk
    | some n =>
      cases n with
      | file content mode modified => simp [hl] at hwalk
      | directory mode =>
        rw [h l mode hl]
        rw [hl] at hwalk
        exact ih hwalk

/-! ## Temporary files -/

theorem temporaryName_injective (name : String) :
    Function.Injective (temporaryName name) := by
  intro n m h
  have htext : (Nat.repr n).toList = (Nat.repr m).toList := by
    have hlist := congrArg String.toList h
    simpa [temporaryName, toString] using hlist
  rw [Nat.toList_repr, Nat.toList_repr] at htext
  have hnumber := congrArg (fun ds ↦ Nat.ofDigitChars 10 ds 0) htext
  simpa using hnumber

/-- Among more locations than the tree has nodes, one is free. -/
theorem exists_free (t : FileTree) {beside : Nat → Location} (hinj : Function.Injective beside) :
    ∃ n ∈ List.range (t.nodes.length + 1), t.at? (beside n) = none := by
  by_contra hall
  push Not at hall
  have hnodup : ((List.range (t.nodes.length + 1)).map beside).Nodup := List.nodup_range.map hinj
  have hsub : (List.range (t.nodes.length + 1)).map beside ⊆ Table.keys t.nodes := by
    intro l hl
    obtain ⟨n, hn, rfl⟩ := List.mem_map.mp hl
    exact not_not.mp fun hkey ↦ hall n hn (Table.get?_eq_none_iff.mpr hkey)
  have hlen := (hnodup.subperm hsub).length_le
  simp only [List.length_map, List.length_range, Table.keys] at hlen
  exact Nat.not_succ_le_self _ hlen

/-- Nothing is where a temporary file is made. -/
theorem at?_temporaryFor (t : FileTree) (target : Location) :
    t.at? (t.temporaryFor target) = none := by
  let beside (n : Nat) : Location :=
    target.dropLast ++ [temporaryName (target.getLastD "") n]
  have hinj : Function.Injective beside := fun n m h ↦
    temporaryName_injective _ (List.singleton_injective (List.append_cancel_left h))
  obtain ⟨n, hn, hnone⟩ := exists_free t hinj
  cases hfind : (List.range (t.nodes.length + 1)).find? fun n ↦ (t.at? (beside n)).isNone with
  | none => exact absurd hnone (by simpa using List.find?_eq_none.mp hfind n hn)
  | some m =>
    have hm := List.find?_some hfind
    have htemporary : t.temporaryFor target = beside m := by
      rw [temporaryFor]
      simp only [beside] at hfind
      rw [hfind]
      rfl
    rw [htemporary]
    simpa using hm

/-! ## Replacing -/

/-- The tree after all steps of replacing a file. -/
def replaced (t : FileTree) (d : Draft) : FileTree :=
  let filled := ReplaceStep.run d (ReplaceStep.run d t .create) .fill
  ((filled.set d.temporary (.file d.content fileMode t.clock)).drop d.temporary).set d.target
    (.file d.content fileMode t.clock)

theorem replace_undisturbed (t : FileTree) (d : Draft) :
    replace undisturbed d t = (none, t.replaced d) := by
  have hset : ∀ v : FileTree, v.at? d.temporary = some (.file d.content privateMode t.clock) →
      ReplaceStep.run d v .setMode = v.set d.temporary (.file d.content fileMode t.clock) := by
    intro v hv
    simp only [ReplaceStep.run, hv]
  have hrename : ∀ v : FileTree, v.at? d.temporary = some (.file d.content fileMode t.clock) →
      ReplaceStep.run d v .rename =
        (v.drop d.temporary).set d.target (.file d.content fileMode t.clock) := by
    intro v hv
    simp only [ReplaceStep.run, hv]
  have hfilled : (ReplaceStep.run d (ReplaceStep.run d t .create) .fill).at? d.temporary =
      some (.file d.content privateMode t.clock) := by
    simp [ReplaceStep.run, set, at?]
  simp only [replace, perform, replaceSteps, undisturbed]
  rw [hset _ hfilled, hrename _ (by simp)]
  rfl

/-- Replacing a file puts the content at the target and leaves all else alone. -/
theorem at?_replaced {d : Draft} (h : t.at? d.temporary = none) (l : Location) :
    (t.replaced d).at? l =
      if d.target = l then some (.file d.content fileMode t.clock) else t.at? l := by
  have hother : ∀ m, m ≠ d.temporary →
      (ReplaceStep.run d (ReplaceStep.run d t .create) .fill).at? m = t.at? m := by
    intro m hm
    have hne : d.temporary ≠ m := Ne.symm hm
    simp [ReplaceStep.run, set, at?, Table.get?_insert, hne]
  rw [replaced, at?_set, at?_drop, at?_set]
  split_ifs with htarget htemporary
  · rfl
  · rw [← htemporary, h]
  · exact hother l (Ne.symm htemporary)

/-- A path leads to what was put in place of the file that it led to. -/
theorem read_replaced {p : Path} {d : Draft} (h : t.at? d.temporary = none)
    (hlocate : t.locate p = .ok d.target)
    (hdirectory : ∀ mode, t.at? d.target ≠ some (.directory mode)) :
    (t.replaced d).read p = .ok d.content := by
  have hwalk : (t.replaced d).locate p = .ok d.target := by
    refine walk_of_directories (fun l mode hl ↦ ?_) hlocate
    have hne : d.target ≠ l := by
      rintro rfl
      exact hdirectory mode hl
    rw [at?_replaced h, if_neg hne, hl]
  have hfile : (t.replaced d).at? d.target = some (.file d.content fileMode t.clock) := by
    rw [at?_replaced h, if_pos rfl]
  simp only [read, hwalk, hfile, bind, Except.bind]
  rfl

/-! ## Drafts -/

/-- What replaces a file goes to where a path leads, unless a directory is there. -/
structure Drafted (t : FileTree) (p : Path) (content : Bytes) (d : Draft) : Prop where
  located : t.locate p = .ok d.target
  temporary : d.temporary = t.temporaryFor d.target
  content_eq : d.content = content
  free : ∀ mode, t.at? d.target ≠ some (.directory mode)

variable {interrupt : ReplaceStep → Option Interruption} {p : Path} {content : Bytes}

theorem Drafted.at?_temporary {d : Draft} (h : t.Drafted p content d) :
    t.at? d.temporary = none := by
  rw [h.temporary]
  exact at?_temporaryFor t d.target

/-- A file is replaced if it could be read and does not hold the content, or if nothing is there. -/
theorem drafted_of_draft? {d : Draft} (h : t.draft? interrupt p content = .ok (some d)) :
    t.Drafted p content d := by
  unfold draft? at h
  split at h
  · cases h
  · cases h
  · rename_i target _ hlocate
    dsimp only at h
    split at h
    · rename_i hfile
      split at h <;> cases h
      exact ⟨hlocate, rfl, rfl, fun mode ↦ by simp [hfile]⟩
    · cases h
    · rename_i hnone _
      cases h
      exact ⟨hlocate, rfl, rfl, fun mode ↦ by simp [hnone]⟩
    · cases h

/-- A file that does not have to be replaced holds the content. -/
theorem read_of_draft?_eq_none (h : t.draft? interrupt p content = .ok none) :
    t.read p = .ok content := by
  unfold draft? at h
  split at h
  · cases h
  · cases h
  · rename_i target _ hlocate
    dsimp only at h
    split at h
    · rename_i hfile
      split at h
      · rename_i hold
        simp only [read, hlocate, hfile, hold, bind, Except.bind]
        rfl
      · cases h
    · cases h
    · cases h
    · cases h

/-- The three ways in which writing ends if no step is interrupted. -/
theorem writeIfChanged_undisturbed (t : FileTree) (p : Path) (content : Bytes) :
    t.writeIfChanged undisturbed p content = match t.draft? undisturbed p content with
      | .error fault => (.error fault, t)
      | .ok none => (.ok false, t)
      | .ok (some d) => (.ok true, t.replaced d) := by
  rw [writeIfChanged]
  rcases t.draft? undisturbed p content with fault | _ | d
  · rfl
  · rfl
  · dsimp only
    rw [replace_undisturbed]

/-- What is written can be read. -/
theorem read_writeIfChanged {b : Bool}
    (h : t.writeIfChanged undisturbed p content = (.ok b, u)) : u.read p = .ok content := by
  rw [writeIfChanged_undisturbed] at h
  split at h
  · cases h
  · rename_i hdraft
    cases h
    exact read_of_draft?_eq_none hdraft
  · rename_i d hdraft
    cases h
    have hdrafted := drafted_of_draft? hdraft
    rw [read_replaced hdrafted.at?_temporary hdrafted.located hdrafted.free, hdrafted.content_eq]

end IceCube.FileTree
