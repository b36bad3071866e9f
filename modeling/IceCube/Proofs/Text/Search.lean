import Mathlib.Data.List.Forall2
import Mathlib.Data.List.Infix
import IceCube.Text.Folded
import IceCube.Text.Word

/-!
# Finding words

A word that can be read in any case is found at its first place wherever it has one.  A word whose
first sign cannot be read as any of its later ones does not overlap itself, so what comes before its
first place is a text in which it does not occur, and there is only one way to cut a text like that.
-/

namespace IceCube.Text

variable {word cs m before after : List Char}

/-! ## Letters -/

theorem eq_of_toLower_eq {c w : Char} (hw : w.toNat < 97) (h : c.toLower = w) : c = w := by
  unfold Char.toLower at h
  split at h
  · rename_i hupper
    have hval : (c.val + 32).toNat = w.toNat := congrArg Char.toNat h
    have hlow : 65 ≤ c.val.toNat := UInt32.le_iff_toNat_le.mp hupper.1
    have hhigh : c.val.toNat ≤ 90 := UInt32.le_iff_toNat_le.mp hupper.2
    rw [UInt32.toNat_add, show (32 : UInt32).toNat = 32 from rfl] at hval
    omega
  · exact h

/-- What comes before the lower-case letters has one form only. -/
theorem sameFolded_iff_of_lt {w c : Char} (hw : w.toNat < 97) (hlower : w.toLower = w) :
    sameFolded w c = true ↔ c = w := by
  have hs : w ≠ 's' := by
    rintro rfl
    revert hw
    decide
  have hi : w ≠ 'i' := by
    rintro rfl
    revert hw
    decide
  simp only [sameFolded, beq_eq_false_iff_ne.mpr hs, beq_eq_false_iff_ne.mpr hi, Bool.false_and,
    Bool.or_false, beq_iff_eq]
  constructor
  · exact eq_of_toLower_eq hw
  · rintro rfl
    exact hlower

/-! ## Words in any case -/

/-- A text is a word in lower case, read in any case. -/
def Spells (word cs : List Char) : Prop := List.Forall₂ (fun w c ↦ sameFolded w c = true) word cs

/-- A word is somewhere in a text, in any case. -/
def Occurs (word cs : List Char) : Prop :=
  ∃ before m after, cs = before ++ m ++ after ∧ Spells word m

/-- What can be read as the first sign of a word can be read as none of its later ones. -/
def Led (word : List Char) : Prop :=
  ∃ w ws, word = w :: ws ∧ ∀ c, sameFolded w c = true → ∀ w' ∈ ws, sameFolded w' c = false

/-- What reads as a word when its capitals are made small reads as the word. -/
theorem spells_of_toLower (h : m.map Char.toLower = word) : Spells word m := by
  subst h
  rw [Spells, List.forall₂_map_left_iff, List.forall₂_same]
  intro c _
  simp [sameFolded]

theorem Occurs.mono (h : Occurs word cs) (before after : List Char) :
    Occurs word (before ++ cs ++ after) := by
  obtain ⟨x, m, y, rfl, hm⟩ := h
  exact ⟨before ++ x, m, y ++ after, by simp, hm⟩

/-- A word starts at the start of a text exactly if what follows it is found. -/
theorem afterFolded?_eq_some_iff :
    afterFolded? word cs = some after ↔ ∃ m, Spells word m ∧ cs = m ++ after := by
  induction word generalizing cs with
  | nil =>
    rw [afterFolded?, Option.some.injEq]
    constructor
    · rintro rfl
      exact ⟨[], .nil, rfl⟩
    · rintro ⟨m, hm, rfl⟩
      cases hm
      rfl
  | cons w word ih =>
    cases cs with
    | nil =>
      rw [afterFolded?]
      constructor
      · nofun
      · rintro ⟨m, hm, h⟩
        cases hm
        cases h
    | cons c cs =>
      rw [afterFolded?]
      constructor
      · intro h
        split at h
        · rename_i hc
          obtain ⟨m, hm, rfl⟩ := ih.mp h
          exact ⟨c :: m, .cons hc hm, rfl⟩
        · cases h
      · rintro ⟨m, hm, h⟩
        obtain ⟨d, m', hd, hm', rfl⟩ := List.forall₂_cons_left_iff.mp hm
        rw [List.cons_append, List.cons.injEq] at h
        obtain ⟨rfl, rfl⟩ := h
        rw [if_pos hd]
        exact ih.mpr ⟨m', hm', rfl⟩

theorem isSome_afterFolded?_iff :
    (afterFolded? word cs).isSome ↔ ∃ m after, Spells word m ∧ cs = m ++ after := by
  rw [Option.isSome_iff_exists]
  simp only [afterFolded?_eq_some_iff]
  rw [exists_comm]

/-- A word starts at the first sign of a text or is in the rest of it. -/
theorem occurs_cons_iff {c : Char} :
    Occurs word (c :: cs) ↔ (afterFolded? word (c :: cs)).isSome ∨ Occurs word cs := by
  rw [isSome_afterFolded?_iff]
  constructor
  · rintro ⟨before, m, after, h, hm⟩
    cases before with
    | nil => exact .inl ⟨m, after, hm, h⟩
    | cons d before =>
      rw [List.cons_append, List.cons_append, List.cons.injEq] at h
      exact .inr ⟨before, m, after, h.2, hm⟩
  · rintro (⟨m, after, hm, h⟩ | h)
    · exact ⟨[], m, after, h, hm⟩
    · simpa using h.mono [c] []

theorem afterFolded?_append (h : Spells word m) (after : List Char) :
    afterFolded? word (m ++ after) = some after := afterFolded?_eq_some_iff.mpr ⟨m, h, rfl⟩

theorem spells_iff : Spells word cs ↔ afterFolded? word cs = some [] := by
  simp [afterFolded?_eq_some_iff]

instance (word cs : List Char) : Decidable (Spells word cs) := decidable_of_iff _ spells_iff.symm

/-! ## The first place of a word -/

theorem splitAtFolded?_of_after (h : afterFolded? word cs = some after) :
    splitAtFolded? word cs = some ([], after) := by
  cases cs with
  | nil => rw [splitAtFolded?, h, Option.map_some]
  | cons c cs => rw [splitAtFolded?, h]

/-- A word is found in a text if it is there, and not after its first place. -/
theorem exists_splitAtFolded? (hm : Spells word m) (before after : List Char) :
    ∃ found rest, splitAtFolded? word (before ++ m ++ after) = some (found, rest) ∧
      after <:+ rest := by
  induction before with
  | nil =>
    rw [List.nil_append]
    exact ⟨[], after, splitAtFolded?_of_after (afterFolded?_append hm after), List.suffix_rfl⟩
  | cons c before ih =>
    obtain ⟨found, rest, hfound, hsuffix⟩ := ih
    cases h : afterFolded? word (c :: (before ++ m ++ after)) with
    | none =>
      refine ⟨c :: found, rest, ?_, hsuffix⟩
      rw [List.cons_append, List.cons_append, splitAtFolded?, h, hfound]
      rfl
    | some rest' =>
      refine ⟨[], rest', splitAtFolded?_of_after h, ?_⟩
      -- both are ends of one text, and the word is not longer than what comes before the second
      obtain ⟨m', hm', heq⟩ := afterFolded?_eq_some_iff.mp h
      have hafter : after <:+ c :: (before ++ m ++ after) := ⟨c :: before ++ m, by simp⟩
      refine List.suffix_of_suffix_length_le hafter ⟨m', heq.symm⟩ ?_
      have hlength := congrArg List.length heq
      have hword := hm.length_eq
      have hword' := hm'.length_eq
      simp only [List.length_cons, List.length_append] at hlength
      omega

theorem exists_of_splitAtFolded? (h : splitAtFolded? word cs = some (before, after)) :
    ∃ m, Spells word m ∧ cs = before ++ m ++ after := by
  induction cs generalizing before with
  | nil =>
    rw [splitAtFolded?, Option.map_eq_some_iff] at h
    obtain ⟨rest, hrest, heq⟩ := h
    cases heq
    exact afterFolded?_eq_some_iff.mp hrest
  | cons c cs ih =>
    rw [splitAtFolded?] at h
    split at h
    · rename_i hrest
      cases h
      exact afterFolded?_eq_some_iff.mp hrest
    · obtain ⟨⟨before, after⟩, hfound, heq⟩ := Option.map_eq_some_iff.mp h
      cases heq
      obtain ⟨m, hm, rfl⟩ := ih hfound
      exact ⟨m, hm, rfl⟩

theorem occurs_iff : Occurs word cs ↔ (splitAtFolded? word cs).isSome := by
  rw [Option.isSome_iff_exists]
  constructor
  · rintro ⟨before, m, after, rfl, hm⟩
    obtain ⟨found, rest, hfound, -⟩ := exists_splitAtFolded? hm before after
    exact ⟨_, hfound⟩
  · rintro ⟨⟨before, after⟩, h⟩
    obtain ⟨m, hm, hcs⟩ := exists_of_splitAtFolded? h
    exact ⟨before, m, after, hcs, hm⟩

instance (word cs : List Char) : Decidable (Occurs word cs) := decidable_of_iff _ occurs_iff.symm

/-- A word that does not overlap itself cannot end in another place of itself. -/
theorem Led.occurs_of_overlap (hword : Led word) (hm : Spells word m) {c : Char} {m' rest : List Char}
    (hm' : Spells word m') (h : c :: (before ++ m ++ after) = m' ++ rest) :
    Occurs word (c :: before) := by
  obtain ⟨w, ws, rfl, hled⟩ := hword
  obtain ⟨d, ms, hd, -, rfl⟩ := List.forall₂_cons_left_iff.mp hm
  rw [List.append_assoc, ← List.cons_append, List.append_eq_append_iff] at h
  rcases h with ⟨k, rfl, hk⟩ | ⟨k, hk, -⟩
  · cases k with
    | nil => exact ⟨[], c :: before, [], by simp, by simpa using hm'⟩
    | cons e k =>
      -- the sign that starts the second place is read as a later one of the first place
      obtain rfl : d = e := by simpa using congrArg List.head? hk
      obtain ⟨w', hw', hmatch⟩ : ∃ w' ∈ ws, sameFolded w' d = true := by
        have htail := (List.forall₂_cons.mp hm').2
        have hlater := List.forall₂_drop_append ws before (d :: k) htail
        obtain ⟨w', ws', hw', -, hdrop⟩ := List.forall₂_cons_right_iff.mp hlater
        exact ⟨w', List.mem_of_mem_drop (hdrop ▸ List.mem_cons_self), hw'⟩
      rw [hled d hd w' hw'] at hmatch
      cases hmatch
  · rw [hk]
    exact ⟨[], m', k, by simp, hm'⟩

/-- The first place of a word that does not overlap itself is the one with the word nowhere before
it. -/
theorem splitAtFolded?_append (hword : Led word) (hm : Spells word m) (h : ¬ Occurs word before)
    (after : List Char) : splitAtFolded? word (before ++ m ++ after) = some (before, after) := by
  induction before with
  | nil => exact splitAtFolded?_of_after (afterFolded?_append hm after)
  | cons c before ih =>
    have hbefore : ¬ Occurs word before := by
      intro hoccurs
      exact h (by simpa using hoccurs.mono [c] [])
    have hstart : afterFolded? word (c :: (before ++ m ++ after)) = none := by
      rw [Option.eq_none_iff_forall_ne_some]
      intro rest hrest
      obtain ⟨m', hm', heq⟩ := afterFolded?_eq_some_iff.mp hrest
      exact h (hword.occurs_of_overlap hm hm' heq)
    rw [List.cons_append, List.cons_append, splitAtFolded?, hstart, ih hbefore]
    rfl

theorem not_occurs_of_splitAtFolded? (h : splitAtFolded? word cs = some (before, after))
    (hword : word ≠ []) : ¬ Occurs word before := by
  intro hoccurs
  obtain ⟨x, m', y, rfl, hm'⟩ := hoccurs
  obtain ⟨m, hm, rfl⟩ := exists_of_splitAtFolded? h
  obtain ⟨found, rest, hfound, hsuffix⟩ := exists_splitAtFolded? hm' x (y ++ m ++ after)
  have heq : x ++ m' ++ y ++ m ++ after = x ++ m' ++ (y ++ m ++ after) := by simp
  rw [heq, hfound] at h
  cases h
  have hlength := hsuffix.length_le
  have hpos := List.length_pos_iff.mpr hword
  have hletters := hm.length_eq
  simp only [List.length_append] at hlength
  omega

/-- A text is cut at the first place of a word that does not overlap itself. -/
theorem splitAtFolded?_eq_some_iff (hword : Led word) :
    splitAtFolded? word cs = some (before, after) ↔
      ∃ m, cs = before ++ m ++ after ∧ Spells word m ∧ ¬ Occurs word before := by
  constructor
  · intro h
    obtain ⟨m, hm, hcs⟩ := exists_of_splitAtFolded? h
    obtain ⟨w, ws, rfl, -⟩ := hword
    exact ⟨m, hcs, hm, not_occurs_of_splitAtFolded? h (List.cons_ne_nil w ws)⟩
  · rintro ⟨m, rfl, hm, h⟩
    exact splitAtFolded?_append hword hm h after

/-- There is one way to cut a text at the first place of a word. -/
theorem Led.cut_unique (hword : Led word) {before' m' after' : List Char} (hm : Spells word m)
    (hm' : Spells word m') (h : ¬ Occurs word before) (h' : ¬ Occurs word before')
    (heq : before ++ m ++ after = before' ++ m' ++ after') :
    before = before' ∧ m = m' ∧ after = after' := by
  have hcut := splitAtFolded?_append hword hm h after
  rw [heq, splitAtFolded?_append hword hm' h', Option.some.injEq, Prod.mk.injEq] at hcut
  obtain ⟨rfl, rfl⟩ := hcut
  rw [List.append_left_inj, List.append_right_inj] at heq
  exact ⟨rfl, heq, rfl⟩

/-! ## Words between other signs -/

/-- A word is in a text with no word character on either side. -/
def HasToken (word cs : List Char) : Prop :=
  ∃ before after, cs = before ++ word ++ after ∧ (∀ c ∈ before.getLast?, isWord c = false) ∧
    ∀ c ∈ after.head?, isWord c = false

theorem boundary_iff (cs : List Char) :
    hasWord.boundary cs = true ↔ ∀ c ∈ cs.head?, isWord c = false := by
  cases cs with
  | nil => simp [hasWord.boundary]
  | cons c cs => simp [hasWord.boundary]

/-- Looking for a word in the rest of a text takes into account which sign was before it. -/
theorem hasWord_iff {previous : Bool} (hword : word ≠ []) :
    hasWord word previous cs = true ↔ ∃ before after, cs = before ++ word ++ after ∧
      (before.getLast?.elim previous isWord = false) ∧ ∀ c ∈ after.head?, isWord c = false := by
  induction cs generalizing previous with
  | nil =>
    rw [hasWord]
    constructor
    · nofun
    · rintro ⟨before, after, h, -⟩
      simp [hword] at h
  | cons c cs ih =>
    rw [hasWord, Bool.or_eq_true, Bool.and_eq_true, Bool.and_eq_true, Bool.not_eq_true',
      List.isPrefixOf_iff_prefix, boundary_iff, ih]
    constructor
    · rintro (⟨⟨hprevious, after, hafter⟩, hboundary⟩ | ⟨before, after, rfl, hbefore, hafter⟩)
      · refine ⟨[], after, hafter.symm, hprevious, ?_⟩
        rwa [← hafter, List.drop_left] at hboundary
      · refine ⟨c :: before, after, rfl, ?_, hafter⟩
        cases before with
        | nil => exact hbefore
        | cons d before => rwa [List.getLast?_cons_cons]
    · rintro ⟨before, after, h, hbefore, hafter⟩
      cases before with
      | nil =>
        refine .inl ⟨⟨hbefore, after, h.symm⟩, ?_⟩
        rw [h, List.nil_append, List.drop_left]
        exact hafter
      | cons d before =>
        rw [List.cons_append, List.cons_append, List.cons.injEq] at h
        obtain ⟨rfl, rfl⟩ := h
        refine .inr ⟨before, after, rfl, ?_, hafter⟩
        cases before with
        | nil => exact hbefore
        | cons d before => rwa [List.getLast?_cons_cons] at hbefore

theorem hasWord_iff_hasToken (hword : word ≠ []) :
    hasWord word false cs = true ↔ HasToken word cs := by
  rw [hasWord_iff hword]
  have helim (before : List Char) : before.getLast?.elim false isWord = false ↔
      ∀ c ∈ before.getLast?, isWord c = false := by
    cases before.getLast? <;> simp
  simp only [helim, HasToken]

end IceCube.Text
