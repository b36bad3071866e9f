import IceCube.Record
import Mathlib.Data.List.Infix

/-!
# Patterns of texts

A pattern asks for signs from given ranges, each so many times, one after the other.  It is found
anywhere in a text unless it is tied to the start or to the end.  Of the language of patterns this is
what sets, counts and the two anchors say; what else a pattern can hold is not read.
-/

namespace IceCube.Schema

/-- Signs from some ranges, a number of times. -/
structure Part where
  ranges : List (Char × Char)
  count : ℕ
deriving DecidableEq, Repr

/-- A pattern: its parts, and whether it is tied to the start and to the end of the text. -/
structure Pattern where
  fromStart : Bool
  parts : List Part
  toEnd : Bool
deriving DecidableEq, Repr

/-! ## What patterns stand for -/

/-- A sign is in one of the ranges of a part. -/
def Part.Has (p : Part) (c : Char) : Prop := ∃ r ∈ p.ranges, r.1 ≤ c ∧ c ≤ r.2

/-- A text is made up of what the parts ask for. -/
inductive Spelled : List Part → List Char → Prop where
  | nil : Spelled [] []
  | cons {p : Part} {ps : List Part} {x y : List Char} (hlength : x.length = p.count)
      (hsigns : ∀ c ∈ x, p.Has c) (hrest : Spelled ps y) : Spelled (p :: ps) (x ++ y)

/-- A pattern is found in a text. -/
def Pattern.Found (p : Pattern) (s : String) : Prop :=
  ∃ before m after, s.toList = before ++ m ++ after ∧ Spelled p.parts m ∧
    (p.fromStart = true → before = []) ∧ (p.toEnd = true → after = [])

/-! ## Reading patterns -/

/-- The signs that stand for something else than themselves. -/
def specialSigns : List Char := "^$\\.*+?()[]\x7b\x7d|".toList

/-- The ranges of a set up to its closing bracket, and what is behind it. -/
def ranges? : List Char → Option (List (Char × Char) × List Char)
  | [] => none
  | ']' :: cs => some ([], cs)
  | a :: '-' :: b :: cs =>
    if a ∈ specialSigns ∨ b ∈ specialSigns then none
    else (ranges? cs).map fun r ↦ ((a, b) :: r.1, r.2)
  | a :: cs =>
    if a ∈ specialSigns ∨ a = '-' then none else (ranges? cs).map fun r ↦ ((a, a) :: r.1, r.2)

/-- The ranges that a part starts with: those of a set, or a sign that stands for itself. -/
def signs? : List Char → Option (List (Char × Char) × List Char)
  | [] => none
  | '[' :: cs => ranges? cs
  | c :: cs => if c ∈ specialSigns then none else some ([(c, c)], cs)

/-- A decimal number up to a closing brace. -/
def closedNumber? : (n : ℕ) → List Char → Option (ℕ × List Char)
  | _, [] => none
  | n, '\x7d' :: cs => some (n, cs)
  | n, c :: cs => if c.isDigit then closedNumber? (10 * n + (c.toNat - 48)) cs else none

/-- How often a part is asked for: once, if there is no number. -/
def count? : List Char → Option (ℕ × List Char)
  | '\x7b' :: c :: cs => if c.isDigit then closedNumber? 0 (c :: cs) else none
  | cs => some (1, cs)

/-- The parts of a pattern, and whether it is tied to the end. -/
def parts? : (fuel : ℕ) → List Char → Option (List Part × Bool)
  | _, [] => some ([], false)
  | _, ['$'] => some ([], true)
  | 0, _ => none
  | fuel + 1, cs => do
    let (ranges, cs) ← signs? cs
    let (count, cs) ← count? cs
    let (parts, toEnd) ← parts? fuel cs
    return (⟨ranges, count⟩ :: parts, toEnd)

/-- The pattern that a text writes. -/
def Pattern.read? (text : String) : Option Pattern :=
  let (fromStart, cs) := match text.toList with
    | '^' :: cs => (true, cs)
    | cs => (false, cs)
  (parts? cs.length cs).map fun r ↦ ⟨fromStart, r.1, r.2⟩

/-! ## The pattern of fingerprints -/

/-- Eight signs from two ranges, and nothing else. -/
def digestSigns : Pattern where
  fromStart := true
  parts := [⟨[('0', '9'), ('a', 'f')], 8⟩]
  toEnd := true

theorem read?_digestPattern : Pattern.read? digestPattern = some digestSigns := by
  decide

theorem spelled_singleton_iff {p : Part} {m : List Char} :
    Spelled [p] m ↔ m.length = p.count ∧ ∀ c ∈ m, p.Has c := by
  constructor
  · intro h
    cases h with
    | cons hlength hsigns hrest =>
      cases hrest
      simpa using ⟨hlength, hsigns⟩
  · rintro ⟨hlength, hsigns⟩
    simpa using Spelled.cons hlength hsigns .nil

/-- A pattern that is tied to both ends is found in the texts that its parts spell. -/
theorem found_of_tied {p : Pattern} (hstart : p.fromStart = true) (hend : p.toEnd = true)
    {s : String} : p.Found s ↔ Spelled p.parts s.toList := by
  constructor
  · rintro ⟨before, m, after, hs, hm, hbefore, hafter⟩
    rw [hbefore hstart, hafter hend, List.nil_append, List.append_nil] at hs
    rwa [hs]
  · intro h
    exact ⟨[], s.toList, [], by simp, h, fun _ ↦ rfl, fun _ ↦ rfl⟩

/-- The check of a fingerprint is its pattern. -/
theorem isDigest_iff_found {s : String} : isDigest s = true ↔ digestSigns.Found s := by
  rw [found_of_tied rfl rfl, digestSigns, spelled_singleton_iff]
  simp only [isDigest, Part.Has, Bool.and_eq_true, beq_iff_eq, List.all_eq_true, Bool.or_eq_true,
    decide_eq_true_eq, List.mem_cons, List.not_mem_nil, or_false, exists_eq_or_imp,
    exists_eq_left, String.length_toList]

end IceCube.Schema
