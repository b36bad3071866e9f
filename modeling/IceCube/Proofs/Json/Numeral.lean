import IceCube.Json.Reader
import IceCube.Json.Writer

/-!
# Numerals read back

A numeral is an optional minus sign, a whole part without needless zeros, an optional fraction and
an optional exponent.  The reader takes all of a numeral that nothing continues, and what it makes
of it depends on the numeral alone.
-/

namespace IceCube.Json.Reader

open Number (Binary64)

/-- A text that does not continue a numeral. -/
def Delimited (cs : List Char) : Prop :=
  ∀ c ∈ cs.head?, c.isDigit = false ∧ c ≠ '.' ∧ c ≠ 'e' ∧ c ≠ 'E'

theorem delimited_nil : Delimited [] := by simp [Delimited]

theorem delimited_cons {c : Char} {cs : List Char} (h : c.isDigit = false) (hpoint : c ≠ '.')
    (he : c ≠ 'e') (hE : c ≠ 'E') : Delimited (c :: cs) := by
  simp [Delimited, h, hpoint, he, hE]

/-- Digits, at least one of them. -/
def Digits (ds : List Char) : Prop := ds ≠ [] ∧ ∀ c ∈ ds, c.isDigit = true

/-- A lone zero, or digits that start with another one. -/
def Whole (ds : List Char) : Prop := ds = ['0'] ∨ Digits ds ∧ ds.head? ≠ some '0'

theorem Whole.digits {ds : List Char} (h : Whole ds) : Digits ds := by
  rcases h with rfl | h
  · exact ⟨by simp, by simp⟩
  · exact h.1

/-- The digits before something that is no digit. -/
theorem digits_append {ds cs : List Char} (h : ∀ c ∈ ds, c.isDigit = true)
    (hcs : ∀ c ∈ cs.head?, c.isDigit = false) : digits (ds ++ cs) = ds := by
  rw [digits, List.takeWhile_append_of_pos h]
  cases cs with
  | nil => simp
  | cons c cs => simp [hcs c (by simp)]

theorem wholePart?_append {ds cs : List Char} (h : Whole ds)
    (hcs : ∀ c ∈ cs.head?, c.isDigit = false) : wholePart? (ds ++ cs) = some ds := by
  rcases h with rfl | ⟨⟨hne, hds⟩, hzero⟩
  · rfl
  · obtain ⟨d, ds, rfl⟩ := List.exists_cons_of_ne_nil hne
    have hd : d ≠ '0' := by simpa using hzero
    rw [wholePart?.eq_def]
    split
    · rename_i heq
      exact absurd (List.cons.inj heq).1 hd
    · rw [digits_append hds hcs]

theorem fractionPart?_append {ds cs : List Char} (h : Digits ds)
    (hcs : ∀ c ∈ cs.head?, c.isDigit = false) : fractionPart? ('.' :: (ds ++ cs)) = some ds := by
  obtain ⟨d, ds', hd⟩ := List.exists_cons_of_ne_nil h.1
  simp only [fractionPart?, digits_append h.2 hcs]
  rw [hd]

theorem fractionPart?_eq_none {cs : List Char} (h : ∀ c ∈ cs.head?, c ≠ '.') :
    fractionPart? cs = none := by
  cases cs with
  | nil => rfl
  | cons c cs =>
    rw [fractionPart?.eq_def]
    split
    · rename_i heq
      exact absurd (List.cons.inj heq).1 (h c (by simp))
    · rfl

theorem exponentPart?_eq_none {cs : List Char} (h : ∀ c ∈ cs.head?, c ≠ 'e' ∧ c ≠ 'E') :
    exponentPart? cs = none := by
  cases cs with
  | nil => rfl
  | cons c cs => simp [exponentPart?, h c (by simp)]

/-- The sign of an exponent. -/
def signOf (negative : Bool) : Char := if negative then '-' else '+'

theorem exponentPart?_append {negative : Bool} {ds cs : List Char} (h : Digits ds)
    (hcs : ∀ c ∈ cs.head?, c.isDigit = false) :
    exponentPart? ('e' :: signOf negative :: (ds ++ cs)) =
      some (if negative then -(natOf ds : Int) else natOf ds, 2 + ds.length) := by
  cases negative <;>
    simp [exponentPart?, signOf, digits_append h.2 hcs, h.1]

/-! ## Numerals -/

/-- A minus sign, if there is one. -/
def minus (negative : Bool) : List Char := if negative then ['-'] else []

theorem drop_minus (negative : Bool) (cs : List Char) :
    (if negative = true then (minus negative ++ cs).drop 1 else minus negative ++ cs) = cs := by
  cases negative <;> rfl

theorem head?_minus (negative : Bool) {cs : List Char} (h : cs.head? ≠ some '-') :
    ((minus negative ++ cs).head? == some '-') = negative := by
  cases negative
  · simpa [minus] using h
  · rfl

theorem Digits.head?_ne {ds : List Char} (h : Digits ds) (cs : List Char) :
    (ds ++ cs).head? ≠ some '-' := by
  obtain ⟨d, ds, rfl⟩ := List.exists_cons_of_ne_nil h.1
  have hd : d.isDigit = true := h.2 d (by simp)
  simp only [List.cons_append, List.head?_cons, ne_eq, Option.some.injEq]
  rintro rfl
  simp at hd

/-- An integer. -/
theorem number?_int (negative : Bool) {ds rest : List Char} (hds : Whole ds)
    (hrest : Delimited rest) :
    number? (minus negative ++ (ds ++ rest)) =
      some (.int (if negative then -(natOf ds : Int) else natOf ds), rest) := by
  have hhead := hds.digits.head?_ne rest
  have hwhole := wholePart?_append hds fun c hc ↦ (hrest c hc).1
  have hfraction := fractionPart?_eq_none fun c hc ↦ (hrest c hc).2.1
  have hexponent := exponentPart?_eq_none fun c hc ↦ (hrest c hc).2.2
  simp only [number?, drop_minus, head?_minus negative hhead, hwhole,
    Option.bind_eq_bind, Option.bind_some, List.drop_left, hfraction, hexponent]
  rfl

/-- The written fraction of digits, nothing where there are none. -/
def point (ds : List Char) : List Char := if ds.isEmpty then [] else '.' :: ds

/-- A written exponent. -/
def exponent : Option (Bool × List Char) → List Char
  | some (negative, ds) => 'e' :: signOf negative :: ds
  | none => []

/-- What a written exponent denotes, zero where there is none. -/
def exponentOf : Option (Bool × List Char) → Int
  | some (negative, ds) => if negative then -(natOf ds : Int) else natOf ds
  | none => 0

/-- What follows digits, be it an exponent or not, continues neither the digits nor a fraction. -/
theorem head?_exponent (e : Option (Bool × List Char)) {rest : List Char} (hrest : Delimited rest) :
    ∀ c ∈ (exponent e ++ rest).head?, c.isDigit = false ∧ c ≠ '.' := by
  intro c hc
  cases e with
  | none => exact ⟨(hrest c hc).1, (hrest c hc).2.1⟩
  | some x =>
    obtain rfl : 'e' = c := by simpa [exponent] using hc
    decide

theorem exponentPart?_exponent {e : Option (Bool × List Char)} (he : ∀ x ∈ e, Digits x.2)
    {rest : List Char} (hrest : Delimited rest) :
    exponentPart? (exponent e ++ rest) = e.map fun x ↦ (exponentOf (some x), 2 + x.2.length) := by
  cases e with
  | none => exact exponentPart?_eq_none fun c hc ↦ (hrest c hc).2.2
  | some x => exact exponentPart?_append (he x rfl) fun c hc ↦ (hrest c hc).1

theorem drop_exponent (e : Option (Bool × List Char)) (rest : List Char) :
    (exponent e ++ rest).drop ((e.map fun x ↦ 2 + x.2.length).getD 0) = rest := by
  cases e with
  | none => rfl
  | some x => simp [exponent, Nat.add_comm 2]

/-- A number with a fraction or an exponent is the one nearest to what its digits denote. -/
theorem number?_float (negative : Bool) {ds fs : List Char} {e : Option (Bool × List Char)}
    (hds : Whole ds) (hfs : ∀ c ∈ fs, c.isDigit = true) (he : ∀ x ∈ e, Digits x.2)
    (hfloat : fs ≠ [] ∨ e ≠ none) {rest : List Char} (hrest : Delimited rest) :
    number? (minus negative ++ (ds ++ (point fs ++ (exponent e ++ rest)))) =
      some (.float (Binary64.ofDecimal negative (natOf (ds ++ fs)) (exponentOf e - fs.length)),
        rest) := by
  have hhead := hds.digits.head?_ne (point fs ++ (exponent e ++ rest))
  have hafter := head?_exponent e hrest
  have hpoint : ∀ c ∈ (point fs ++ (exponent e ++ rest)).head?, c.isDigit = false := by
    cases fs with
    | nil => exact fun c hc ↦ (hafter c hc).1
    | cons f fs => simp [point]
  have hwhole := wholePart?_append hds hpoint
  have hexponent := exponentPart?_exponent he hrest
  have hdrop := drop_exponent e rest
  simp only [number?, drop_minus, head?_minus negative hhead, hwhole,
    Option.bind_eq_bind, Option.bind_some, List.drop_left]
  by_cases hf : fs = []
  · subst hf
    have hfraction : fractionPart? (exponent e ++ rest) = none :=
      fractionPart?_eq_none fun c hc ↦ (hafter c hc).2
    obtain ⟨x, rfl⟩ := Option.ne_none_iff_exists'.mp (hfloat.resolve_left (by simp))
    simp only [point, List.isEmpty_nil, if_true, List.nil_append, hfraction, hexponent]
    simpa using hdrop
  · have hfraction : fractionPart? ('.' :: (fs ++ (exponent e ++ rest))) = some fs :=
      fractionPart?_append ⟨hf, hfs⟩ fun c hc ↦ (hafter c hc).1
    have hpt : point fs = '.' :: fs := by simp [point, hf]
    have hskip : ('.' :: (fs ++ (exponent e ++ rest))).drop (fs.length + 1) =
        exponent e ++ rest := by simp
    simp only [hpt, List.cons_append, hfraction, hskip, hexponent]
    cases e with
    | none => simp [exponent, exponentOf]
    | some x => simpa using hdrop

end IceCube.Json.Reader
