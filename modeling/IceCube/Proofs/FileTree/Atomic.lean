import IceCube.Proofs.FileTree.Shown

/-!
# Files are replaced in one go

While a file is replaced, the tree goes through many states: one after each step, and one for each byte
that gets into the temporary file.  Up to the last step all of them are as before apart from the
temporary file, and the last step puts the whole content at the target.  So whoever looks at the target
at any moment finds what was there before or the whole content, and a step that is interrupted leaves
nothing behind once the temporary file is removed.
-/

namespace IceCube.FileTree

variable {interrupt : ReplaceStep → Option Interruption} {t u v : FileTree} {d : Draft} {p : Path}
  {content : Bytes} {step : ReplaceStep} {steps : List ReplaceStep}

/-! ## Trees on the way -/

/-- The trees that a step goes through inside while it puts a number of bytes into the temporary
file. -/
def ReplaceStep.passes (d : Draft) (t : FileTree) (n : Nat) : ReplaceStep → List FileTree
  | .fill => (List.range (n + 1)).map (d.filling t)
  | _ => []

/-- The trees that steps go through, up to the one in which they end or are interrupted. -/
def moments (interrupt : ReplaceStep → Option Interruption) (d : Draft) :
    List ReplaceStep → FileTree → List FileTree
  | [], t => [t]
  | step :: steps, t =>
    match interrupt step with
    | some i => t :: step.passes d t i.filled
    | none => (t :: step.passes d t d.content.length) ++ moments interrupt d steps (step.run d t)

/-- The trees that can be seen while a file is written, from the first to the last. -/
def seen (interrupt : ReplaceStep → Option Interruption) (t : FileTree) (p : Path)
    (content : Bytes) : List FileTree :=
  match t.draft? interrupt p content with
  | .ok (some d) => moments interrupt d replaceSteps t ++ [(replace interrupt d t).2]
  | _ => [t]

theorem getLast?_passes (step : ReplaceStep) (d : Draft) (t : FileTree) (n : Nat) :
    (t :: step.passes d t n).getLast? = some (step.cut d t n) := by
  cases step with
  | fill => rw [ReplaceStep.passes, List.range_succ, List.map_append, ← List.cons_append,
      List.map_singleton, List.getLast?_concat, ReplaceStep.cut]
  | _ => rfl

/-- The last moment of some steps is the tree that they leave. -/
theorem getLast?_moments (interrupt : ReplaceStep → Option Interruption) (d : Draft)
    (steps : List ReplaceStep) (t : FileTree) :
    (moments interrupt d steps t).getLast? = some (perform interrupt d steps t).2 := by
  induction steps generalizing t with
  | nil => rfl
  | cons step steps ih =>
    rw [moments, perform]
    cases interrupt step with
    | some i => exact getLast?_passes step d t i.filled
    | none =>
      dsimp only
      rw [List.getLast?_append, ih]
      rfl

/-- What is seen last is the tree that writing leaves. -/
theorem getLast?_seen (interrupt : ReplaceStep → Option Interruption) (t : FileTree) (p : Path)
    (content : Bytes) :
    (t.seen interrupt p content).getLast? = some (t.writeIfChanged interrupt p content).2 := by
  rw [seen, writeIfChanged]
  rcases t.draft? interrupt p content with fault | _ | d
  · rfl
  · rfl
  · rw [List.getLast?_concat]
    dsimp only
    rcases replace interrupt d t with ⟨_ | fault, u⟩ <;> rfl

/-! ## How far steps have come -/

/-- Apart from the temporary file, which is no directory, the tree is as it was. -/
structure Aside (d : Draft) (t u : FileTree) : Prop where
  current : u.current = t.current
  same : ∀ l, l ≠ d.temporary → u.at? l = t.at? l
  file : ∀ mode, u.at? d.temporary ≠ some (.directory mode)

/-- The whole content is at the target, and all else is as it was. -/
structure Complete (d : Draft) (t u : FileTree) : Prop where
  current : u.current = t.current
  target : ∃ modified, u.at? d.target = some (.file d.content fileMode modified)
  same : ∀ l, l ≠ d.target → u.at? l = t.at? l

/-- How far the steps have come, by those that are left. -/
inductive Stage (d : Draft) (t : FileTree) : List ReplaceStep → FileTree → Prop where
  | outset {u : FileTree} (h : Aside d t u) : Stage d t replaceSteps u
  | created {u : FileTree} (h : Aside d t u) : Stage d t [.fill, .setMode, .rename] u
  | filled {u : FileTree} {modified : Nat} (h : Aside d t u)
      (content : u.at? d.temporary = some (.file d.content privateMode modified)) :
      Stage d t [.setMode, .rename] u
  | ready {u : FileTree} {modified : Nat} (h : Aside d t u)
      (content : u.at? d.temporary = some (.file d.content fileMode modified)) :
      Stage d t [.rename] u
  | complete {u : FileTree} (h : Complete d t u) : Stage d t [] u

theorem Aside.refl (h : t.at? d.temporary = none) : Aside d t t where
  current := rfl
  same _ _ := rfl
  file := by simp [h]

/-- Another file in place of the temporary one makes no difference to the rest. -/
theorem Aside.set (h : Aside d t u) (hcurrent : v.current = u.current) (hnodes : v.nodes = u.nodes)
    (b : Bytes) (mode modified : Nat) :
    Aside d t (v.set d.temporary (.file b mode modified)) where
  current := hcurrent.trans h.current
  same l hl := by
    rw [at?_set, if_neg (Ne.symm hl), at?, hnodes]
    exact h.same l hl
  file := by simp

/-- Without the temporary file the tree is as it was. -/
theorem Aside.at?_drop (h : Aside d t u) (hfree : t.at? d.temporary = none) (l : Location) :
    (u.drop d.temporary).at? l = t.at? l := by
  rw [FileTree.at?_drop]
  split
  · rename_i hl
    rw [← hl, hfree]
  · rename_i hl
    exact h.same l (Ne.symm hl)

theorem Stage.aside (h : Stage d t (step :: steps) u) : Aside d t u := by
  cases h <;> assumption

/-- Inside a step, and where it is interrupted, the tree is as it was apart from the temporary
file. -/
theorem Aside.of_mem_passes (h : Aside d t u) {n : Nat} (hv : v ∈ step.passes d u n) :
    Aside d t v := by
  cases step with
  | fill =>
    obtain ⟨k, -, rfl⟩ := List.mem_map.mp hv
    exact h.set (v := { u with clock := u.clock + 1 }) rfl rfl _ _ _
  | _ => cases hv

theorem Aside.cut (h : Aside d t u) (step : ReplaceStep) (n : Nat) :
    Aside d t (step.cut d u n) := by
  cases step with
  | fill => exact h.set (v := { u with clock := u.clock + 1 }) rfl rfl _ _ _
  | _ => exact h

/-- A step that is done brings the tree to the next stage. -/
theorem Stage.run (hfree : t.at? d.temporary = none) (h : Stage d t (step :: steps) u) :
    Stage d t steps (step.run d u) := by
  cases h with
  | outset h => exact .created (h.set rfl rfl _ _ _)
  | created h =>
    exact .filled (h.set (v := { u with clock := u.clock + 1 }) rfl rfl _ _ _)
      (by rw [ReplaceStep.run, at?_set, if_pos rfl])
  | filled h hcontent =>
    rw [ReplaceStep.run, hcontent]
    exact .ready (h.set rfl rfl _ _ _) (by rw [at?_set, if_pos rfl])
  | ready h hcontent =>
    rw [ReplaceStep.run, hcontent]
    refine .complete ⟨h.current, ⟨_, by rw [at?_set, if_pos rfl]⟩, fun l hl ↦ ?_⟩
    rw [at?_set, if_neg (Ne.symm hl)]
    exact h.at?_drop hfree l

/-- Steps end with the content at the target, or with nothing but the temporary file in the tree. -/
theorem Stage.perform (interrupt : ReplaceStep → Option Interruption)
    (hfree : t.at? d.temporary = none) (h : Stage d t steps u) :
    match perform interrupt d steps u with
    | (none, v) => Complete d t v
    | (some _, v) => Aside d t v := by
  induction steps generalizing u with
  | nil =>
    cases h with
    | complete h => exact h
  | cons step steps ih =>
    rw [FileTree.perform]
    cases interrupt step with
    | some i => exact h.aside.cut step i.filled
    | none => exact ih (h.run hfree)

/-- At every moment the target is untouched or complete. -/
theorem Stage.of_mem_moments (hfree : t.at? d.temporary = none) (h : Stage d t steps u)
    (hv : v ∈ moments interrupt d steps u) : Aside d t v ∨ Complete d t v := by
  induction steps generalizing u with
  | nil =>
    cases h with
    | complete h =>
      rw [List.mem_singleton.mp hv]
      exact .inr h
  | cons step steps ih =>
    have hpasses {n : Nat} (hv : v ∈ u :: step.passes d u n) : Aside d t v := by
      rcases List.mem_cons.mp hv with rfl | hv
      · exact h.aside
      · exact h.aside.of_mem_passes hv
    rw [moments] at hv
    cases hi : interrupt step with
    | some i =>
      rw [hi] at hv
      exact .inl (hpasses hv)
    | none =>
      rw [hi] at hv
      rcases List.mem_append.mp hv with hv | hv
      · exact .inl (hpasses hv)
      · exact ih (h.run hfree) hv

/-! ## Replacing -/

/-- A replacement that is interrupted leaves the tree as it was, without a temporary file. -/
theorem ends_of_replace (interrupt : ReplaceStep → Option Interruption)
    (hfree : t.at? d.temporary = none) :
    match replace interrupt d t with
    | (none, u) => Complete d t u
    | (some _, u) => Aside d t u ∧ u.at? d.temporary = none := by
  have hend := (Stage.outset (Aside.refl hfree)).perform interrupt hfree
  rw [replace]
  rcases hperform : perform interrupt d replaceSteps t with ⟨_ | fault, u⟩ <;> rw [hperform] at hend
  · exact hend
  · have hnone : (u.drop d.temporary).at? d.temporary = none := by rw [at?_drop, if_pos rfl]
    refine ⟨⟨hend.current, fun l _ ↦ hend.at?_drop hfree l, ?_⟩, hnone⟩
    simp [hnone]

/-- A temporary file has a longer name than its target. -/
theorem temporaryFor_ne (t : FileTree) (target : Location) : t.temporaryFor target ≠ target := by
  intro heq
  obtain ⟨n, hn⟩ : ∃ n, t.temporaryFor target =
      target.dropLast ++ [temporaryName (target.getLastD "") n] := ⟨_, rfl⟩
  have hname : target.getLastD "" = temporaryName (target.getLastD "") n := by
    conv_lhs => rw [← heq, hn, List.getLastD_concat]
  have hlength := congrArg String.length hname
  have hdot : ".".length = 1 := rfl
  simp only [temporaryName, String.length_append, hdot] at hlength
  omega

/-! ## What a path shows on the way -/

theorem Drafted.shown_of_aside (h : t.Drafted p content d) (haside : Aside d t u) :
    u.shown p = t.shown p := by
  have hsame : SameBut (· = d.temporary) t u := {
    current := haside.current
    same := haside.same _
    before := by
      rintro l mode rfl
      simp [h.at?_temporary]
    after := by
      rintro l mode rfl
      exact haside.file mode }
  refine hsame.shown fun hplace ↦ t.temporaryFor_ne d.target ?_
  rw [← h.temporary, ← hplace, ← eq_place h.located]

theorem Drafted.read_of_complete (h : t.Drafted p content d) (hcomplete : Complete d t u) :
    u.read p = .ok content := by
  have htarget := eq_place h.located
  have hplace : u.place p = d.target := by
    rw [htarget, place, place, hcomplete.current]
  have hlocate : u.locate p = .ok d.target := by
    have hwalk := h.located
    rw [locate] at hwalk ⊢
    rw [hcomplete.current]
    refine walk_of_directories (fun l mode hl ↦ ?_) hwalk
    rwa [hcomplete.same l]
    rintro rfl
    exact h.free mode hl
  obtain ⟨modified, hfile⟩ := hcomplete.target
  rw [read_eq_ok_iff, hplace, ← h.content_eq]
  exact ⟨hlocate, fileMode, modified, hfile⟩

/-! ## Writing -/

/-- Writing is atomic, wherever it is interrupted.  It finds nothing to do exactly if the target can be
read and holds the bytes of the text.  If it writes, the target holds these bytes and nothing else has
changed, and if it fails, nothing has.  In both cases no temporary file is left.  At every moment until
the end the target shows what it showed before or the whole text.  And writing does not fail without
an interruption where a path leads to a file or to a free place in a directory. -/
theorem writing_is_atomic (interrupt : ReplaceStep → Option Interruption) (t : FileTree) (p : Path)
    (text : String) :
    ((t.writeIfChanged interrupt p (Utf8.encode text)).1 = .ok false ↔
      interrupt .compare = none ∧ t.read p = .ok (Utf8.encode text)) ∧
    (match t.writeIfChanged interrupt p (Utf8.encode text) with
      | (.ok false, u) => u = t
      | (.ok true, u) => t.read p ≠ .ok (Utf8.encode text) ∧ u.read p = .ok (Utf8.encode text) ∧
        ∀ l, l ≠ t.place p → u.at? l = t.at? l
      | (.error _, u) => ∀ l, u.at? l = t.at? l) ∧
    (t.writeIfChanged interrupt p (Utf8.encode text)).2.at? (t.temporaryFor (t.place p)) = none ∧
    ((t.seen interrupt p (Utf8.encode text)).head? = some t ∧
      (t.seen interrupt p (Utf8.encode text)).getLast? =
        some (t.writeIfChanged interrupt p (Utf8.encode text)).2 ∧
      ∀ u ∈ t.seen interrupt p (Utf8.encode text),
        u.shown p = t.shown p ∨ u.read p = .ok (Utf8.encode text)) ∧
    (t.Writable p → ∃ b, (t.writeIfChanged undisturbed p (Utf8.encode text)).1 = .ok b) := by
  have hfree := at?_temporaryFor t (t.place p)
  have hlast := getLast?_seen interrupt t p (Utf8.encode text)
  have hwritable (h : t.Writable p) := writeIfChanged_of_writable h (Utf8.encode text)
  rw [← draft?_eq_none_iff, hlast, seen, writeIfChanged]
  rcases hdraft : t.draft? interrupt p (Utf8.encode text) with fault | _ | d
  · exact ⟨by simp, fun _ ↦ rfl, hfree, ⟨rfl, rfl, by simp⟩, hwritable⟩
  · exact ⟨by simp, rfl, hfree, ⟨rfl, rfl, by simp⟩, hwritable⟩
  · have hdrafted := drafted_of_draft? hdraft
    have hplace := eq_place hdrafted.located
    have hdifferent := read_ne_of_draft? hdraft
    have hstart := Stage.outset (Aside.refl hdrafted.at?_temporary)
    have hshown {v : FileTree} (h : Aside d t v ∨ Complete d t v) :
        v.shown p = t.shown p ∨ v.read p = .ok (Utf8.encode text) :=
      h.imp hdrafted.shown_of_aside hdrafted.read_of_complete
    have hhead : (moments interrupt d replaceSteps t).head? = some t := by
      rw [replaceSteps, moments]
      cases interrupt .create <;> rfl
    have hends := ends_of_replace interrupt hdrafted.at?_temporary
    dsimp only
    rcases hreplace : replace interrupt d t with ⟨_ | f, v⟩ <;> rw [hreplace] at hends <;>
      dsimp only at hends ⊢
    · -- all steps were done
      refine ⟨by simp, ⟨hdifferent, hdrafted.read_of_complete hends, ?_⟩, ?_,
        ⟨by simp [hhead], rfl, fun u hu ↦ hshown ?_⟩, hwritable⟩
      · rw [← hplace]
        exact hends.same
      · rw [← hplace, hends.same _ (t.temporaryFor_ne d.target), hplace, hfree]
      · rcases List.mem_append.mp hu with hu | hu
        · exact hstart.of_mem_moments hdrafted.at?_temporary hu
        · rw [List.mem_singleton.mp hu]
          exact .inr hends
    · obtain ⟨haside, hnone⟩ := hends
      refine ⟨by simp, fun l ↦ ?_, ?_, ⟨by simp [hhead], rfl, fun u hu ↦ hshown ?_⟩, hwritable⟩
      · by_cases hl : l = d.temporary
        · rw [hl, hnone, hdrafted.at?_temporary]
        · exact haside.same l hl
      · rw [← hplace, ← hdrafted.temporary, hnone]
      · rcases List.mem_append.mp hu with hu | hu
        · exact hstart.of_mem_moments hdrafted.at?_temporary hu
        · rw [List.mem_singleton.mp hu]
          exact .inl haside

end IceCube.FileTree
