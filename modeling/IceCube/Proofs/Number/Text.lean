import Mathlib.Data.List.DropRight
import Mathlib.Tactic.IntervalCases
import Mathlib.Tactic.Positivity
import IceCube.Proofs.Json.Numeral

/-!
# Texts of numbers

The text of a number is a word or a numeral, and so reads back as one number whatever follows it.
The digits of a numeral start with one that is no zero, because the decimal that is chosen for a
positive number is positive.
-/

namespace IceCube

open Json.Reader

namespace Number

/-! ## Magnitudes -/

theorem lt_pow_decimalLength (n : Nat) : n < 10 ^ Binary64.decimalLength n :=
  (Nat.length_toDigits_le_iff (by decide) Nat.length_toDigits_pos).mp le_rfl

theorem pow_decimalLength_le {n : Nat} (hn : 0 < n) : 10 ^ (Binary64.decimalLength n - 1) ≤ n := by
  by_contra hlt
  rw [not_le] at hlt
  by_cases hone : Binary64.decimalLength n - 1 = 0
  · rw [hone] at hlt
    omega
  · have h := (Nat.length_toDigits_le_iff (by decide) (Nat.pos_of_ne_zero hone)).mpr hlt
    have hpos : 0 < Binary64.decimalLength n := Nat.length_toDigits_pos
    change Binary64.decimalLength n ≤ _ at h
    omega

/-- A power of ten is at most a quotient. -/
def PowLe (e : Int) (num den : Nat) : Prop :=
  den * 10 ^ e.toNat ≤ num * 10 ^ (-e).toNat

theorem PowLe.mono {e f : Int} {num den : Nat} (h : PowLe f num den) (hef : e ≤ f) :
    PowLe e num den := by
  unfold PowLe at *
  by_cases hf : 0 ≤ f
  · have hle : den * 10 ^ f.toNat ≤ num := by simpa [show (-f).toNat = 0 by omega] using h
    calc den * 10 ^ e.toNat ≤ den * 10 ^ f.toNat := by gcongr <;> omega
      _ ≤ num := hle
      _ ≤ num * 10 ^ (-e).toNat := Nat.le_mul_of_pos_right _ (by positivity)
  · have hle : den ≤ num * 10 ^ (-f).toNat := by simpa [show f.toNat = 0 by omega] using h
    calc den * 10 ^ e.toNat = den := by simp [show e.toNat = 0 by omega]
      _ ≤ num * 10 ^ (-f).toNat := hle
      _ ≤ num * 10 ^ (-e).toNat := by gcongr <;> omega

theorem powLe_floorLog10 {num den : Nat} (hnum : 0 < num) (hden : 0 < den) :
    PowLe (floorLog10 num den) num den := by
  unfold floorLog10 PowLe
  dsimp only
  split_ifs with hle hpow
  · have hq : 0 < num / den := Nat.div_pos hle hden
    have hpos : 0 < Binary64.decimalLength (num / den) := Nat.length_toDigits_pos
    have htop : ((Binary64.decimalLength (num / den) : Int) - 1).toNat =
        Binary64.decimalLength (num / den) - 1 := by omega
    have hzero : (-((Binary64.decimalLength (num / den) : Int) - 1)).toNat = 0 := by omega
    rw [htop, hzero]
    calc den * 10 ^ (Binary64.decimalLength (num / den) - 1) ≤ den * (num / den) := by
          gcongr; exact pow_decimalLength_le hq
      _ ≤ num := Nat.mul_div_le num den
      _ = num * 10 ^ 0 := by simp
  · simpa using hpow
  · have hlt := lt_pow_decimalLength (den / num)
    have hden' : den < num * (den / num + 1) := by
      rw [Nat.mul_add, Nat.mul_one]
      have := Nat.div_add_mod den num
      have := Nat.mod_lt den hnum
      omega
    have hzero : (-(Binary64.decimalLength (den / num) : Int)).toNat = 0 := by omega
    have htop : (- -(Binary64.decimalLength (den / num) : Int)).toNat =
        Binary64.decimalLength (den / num) := by omega
    rw [hzero, htop]
    calc den * 10 ^ 0 = den := by simp
      _ ≤ num * (den / num + 1) := hden'.le
      _ ≤ num * 10 ^ Binary64.decimalLength (den / num) := by gcongr; exact hlt

/-! ## The chosen decimal -/

theorem roundDiv_pos {n d : Nat} (h : 0 < n / d) : 0 < roundDiv n d := by
  unfold roundDiv
  dsimp only
  split_ifs <;> omega

/-- On a grid no coarser than the number itself both neighbours are positive. -/
theorem neighbours_pos {num den : Nat} {e : Int} (hden : 0 < den) (h : PowLe e num den) :
    ∀ d ∈ neighbours num den e, 0 < d.digits := by
  have hpos : ∀ n d : Nat, 0 < n / d → ∀ x ∈ ([⟨roundDiv n d, e⟩,
      ⟨if roundDiv n d = n / d then n / d + 1 else n / d, e⟩] : List Decimal), 0 < x.digits := by
    intro n d hq x hx
    simp only [List.mem_cons, List.not_mem_nil, or_false] at hx
    rcases hx with rfl | rfl
    · exact roundDiv_pos hq
    · dsimp only
      split_ifs <;> omega
  unfold neighbours PowLe at *
  split_ifs with he
  · refine hpos _ _ (Nat.div_pos ?_ (by simp [hden]))
    simpa [show (-e).toNat = 0 by omega] using h
  · refine hpos _ _ (Nat.div_pos ?_ hden)
    simpa [show e.toNat = 0 by omega] using h

theorem shortestOf_pos {num den : Nat} (hnum : 0 < num) (hden : 0 < den) :
    0 < (shortestOf num den).digits := by
  unfold shortestOf
  cases h : (List.range 17).findSome? fun i ↦ readsBack? num den (i + 1) with
  | none => exact hnum
  | some d =>
    obtain ⟨i, -, hi⟩ := List.exists_of_findSome?_eq_some h
    rw [readsBack?] at hi
    have hgrid : floorLog10 num den - ((i + 1 : Nat) : Int) + 1 ≤ floorLog10 num den := by omega
    exact neighbours_pos hden ((powLe_floorLog10 hnum hden).mono hgrid) d
      (List.mem_of_find?_eq_some hi)

/-! ## Digits -/

theorem digits_toDigits (n : Nat) : Digits (Nat.toDigits 10 n) :=
  ⟨Nat.toDigits_ne_nil, fun _ hc ↦ Nat.isDigit_of_mem_toDigits (by decide) (by decide) hc⟩

theorem head?_toDigits_ne {n : Nat} (hn : 0 < n) : (Nat.toDigits 10 n).head? ≠ some '0' := by
  induction n using Nat.strong_induction_on with
  | _ n ih =>
    by_cases hlt : n < 10
    · rw [Nat.toDigits_of_lt_base hlt]
      interval_cases n <;> decide
    · rw [Nat.toDigits_of_base_le (by decide) (by omega), List.head?_append_of_ne_nil]
      · exact ih (n / 10) (by omega) (by omega)
      · exact Nat.toDigits_ne_nil

theorem whole_toDigits (n : Nat) : Whole (Nat.toDigits 10 n) := by
  by_cases hn : n = 0
  · exact .inl (by rw [hn]; rfl)
  · exact .inr ⟨digits_toDigits n, head?_toDigits_ne (Nat.pos_of_ne_zero hn)⟩

theorem natOf_toDigits (n : Nat) : natOf (Nat.toDigits 10 n) = n :=
  Nat.ofDigitChars_ten_toDigits

/-- Digits that start with one that is no zero. -/
def Significant (ds : List Char) : Prop := Digits ds ∧ ds.head? ≠ some '0'

theorem Significant.dropZeros {ds : List Char} (h : Significant ds) :
    Significant (dropZeros ds).1 := by
  obtain ⟨⟨hne, hds⟩, hzero⟩ := h
  have hinit : (Number.dropZeros ds).1 <+: ds := List.rdropWhile_prefix (· == '0') ds
  have hkept : (Number.dropZeros ds).1 ≠ [] := by
    obtain ⟨d, ds, rfl⟩ := List.exists_cons_of_ne_nil hne
    intro hnil
    have hall := List.rdropWhile_eq_nil_iff.mp hnil d (by simp)
    simp_all
  refine ⟨⟨hkept, fun c hc ↦ hds c (hinit.subset hc)⟩, ?_⟩
  obtain ⟨rest, hrest⟩ := hinit
  rwa [← hrest, List.head?_append_of_ne_nil _ hkept] at hzero

/-- The digits of a number, followed by zeros or digits of another one. -/
theorem natOf_append (as bs : List Char) :
    natOf (as ++ bs) = natOf as * 10 ^ bs.length + natOf bs := by
  induction bs using List.reverseRecOn with
  | nil => simp [natOf]
  | append_singleton bs b ih =>
    have hlast (cs : List Char) : natOf (cs ++ [b]) = 10 * natOf cs + (b.toNat - 48) := by
      simp [natOf]
    have hten : natOf as * (10 ^ bs.length * 10) = 10 * (natOf as * 10 ^ bs.length) := by
      rw [← Nat.mul_assoc, Nat.mul_comm]
    rw [← List.append_assoc, hlast, hlast, ih, List.length_append, List.length_singleton, pow_succ,
      hten]
    omega

theorem natOf_zeros (k : Nat) : natOf (List.replicate k '0') = 0 := by
  induction k with
  | zero => rfl
  | succ k ih => rw [List.replicate_succ', natOf_append, ih]; rfl

theorem digits_zeros_append {ds : List Char} (h : Digits ds) (k : Nat) :
    Digits (List.replicate k '0' ++ ds) := by
  refine ⟨by simp [h.1], fun c hc ↦ ?_⟩
  rcases List.mem_append.mp hc with hc | hc
  · rw [(List.mem_replicate.mp hc).2]
    rfl
  · exact h.2 c hc

theorem digits_append_zeros {ds : List Char} (h : Digits ds) (k : Nat) :
    Digits (ds ++ List.replicate k '0') := by
  refine ⟨by simp [h.1], fun c hc ↦ ?_⟩
  rcases List.mem_append.mp hc with hc | hc
  · exact h.2 c hc
  · rw [(List.mem_replicate.mp hc).2]
    rfl

theorem natOf_append_zeros (ds : List Char) (k : Nat) :
    natOf (ds ++ List.replicate k '0') = natOf ds * 10 ^ k := by
  rw [natOf_append, natOf_zeros, List.length_replicate, Nat.add_zero]

theorem natOf_zeros_append (ds : List Char) (k : Nat) :
    natOf (List.replicate k '0' ++ ds) = natOf ds := by
  rw [natOf_append, natOf_zeros, Nat.zero_mul, Nat.zero_add]

/-- The zeros that are dropped stand at the end. -/
theorem dropZeros_append (ds : List Char) :
    (dropZeros ds).1 ++ List.replicate (dropZeros ds).2 '0' = ds := by
  obtain ⟨zeros, hzeros⟩ : (dropZeros ds).1 <+: ds := List.rdropWhile_prefix (· == '0') ds
  have hlength : zeros.length = (dropZeros ds).2 := by
    have := congrArg List.length hzeros
    rw [List.length_append] at this
    change zeros.length = ds.length - (dropZeros ds).1.length
    omega
  have hall : ∀ c ∈ zeros, c = '0' := by
    have htail : zeros = ds.rtakeWhile (· == '0') := by
      refine List.append_cancel_left (hzeros.trans ?_)
      exact (List.rdropWhile_append_rtakeWhile).symm
    rw [htail]
    exact fun c hc ↦ by simpa using List.mem_rtakeWhile_imp hc
  rw [← hlength, ← List.eq_replicate_of_mem hall, hzeros]

/-! ## Numerals -/

/-- A whole part with a fraction or an exponent or both, and the decimal that it denotes. -/
def Fractional (d : Decimal) (cs : List Char) : Prop :=
  ∃ ds fs e, Whole ds ∧ (∀ c ∈ fs, c.isDigit = true) ∧ (∀ x ∈ e, Digits x.2) ∧
    (fs ≠ [] ∨ e ≠ none) ∧ cs = ds ++ (point fs ++ exponent e) ∧
    d = ⟨natOf (ds ++ fs), exponentOf e - fs.length⟩

theorem fractional_positional {ds fs : List Char} (hds : Whole ds) (hfs : Digits fs) :
    Fractional ⟨natOf (ds ++ fs), -fs.length⟩ (ds ++ ['.'] ++ fs) :=
  ⟨ds, fs, none, hds, hfs.2, by simp, .inl hfs.1, by simp [point, exponent, hfs.1],
    by simp [exponentOf]⟩

theorem digits_exponentText (width : Nat) (e : Int) :
    ∃ ds, Digits ds ∧ exponentText width e = signOf (decide (e < 0)) :: ds ∧
      exponentOf (some (decide (e < 0), ds)) = e := by
  refine ⟨List.replicate (width - (Nat.toDigits 10 e.natAbs).length) '0' ++
    Nat.toDigits 10 e.natAbs, digits_zeros_append (digits_toDigits _) _,
    by simp [exponentText, signOf], ?_⟩
  simp only [exponentOf, natOf_zeros_append, natOf_toDigits, decide_eq_true_eq]
  split_ifs <;> omega

/-- Some zeros at the end of the digits of a decimal, and an exponent that is less by as many. -/
def Decimal.Fills (d : Decimal) (n : Nat) (e : Int) : Prop :=
  ∃ k : Nat, d.digits = n * 10 ^ k ∧ d.exponent + k = e

/-- Zeros between the point and the digits of a number that is less than one. -/
theorem fractional_zeros_append {ds : List Char} (h : Digits ds) (k : Nat) :
    ∃ d, Fractional d (['0', '.'] ++ List.replicate k '0' ++ ds) ∧
      d.Fills (natOf ds) (-((k + ds.length : Nat) : Int)) := by
  rw [List.append_assoc]
  refine ⟨_, fractional_positional (.inl rfl) (digits_zeros_append h k), 0, ?_, ?_⟩
  · rw [natOf_append, natOf_zeros_append]
    simp [natOf]
  · simp only [List.length_append, List.length_replicate]
    omega

/-- Zeros that fill up the digits of a whole number to the point. -/
theorem fractional_append_zeros {ds : List Char} (h : Significant ds) (k : Nat) :
    ∃ d, Fractional d (ds ++ List.replicate k '0' ++ ['.'] ++ ['0']) ∧ d.Fills (natOf ds) k := by
  have hwhole : Whole (ds ++ List.replicate k '0') := by
    refine .inr ⟨digits_append_zeros h.1 k, ?_⟩
    rw [List.head?_append_of_ne_nil _ h.1.1]
    exact h.2
  refine ⟨_, fractional_positional hwhole (Whole.digits (.inl rfl)), k + 1, ?_, ?_⟩
  · rw [List.append_assoc, show ['0'] = List.replicate 1 '0' from rfl, ← List.replicate_add,
      natOf_append_zeros]
  · simp only [List.length_singleton]
    omega

/-- The point among the digits. -/
theorem fractional_point {ds fs : List Char} (h : Significant (ds ++ fs)) (hds : ds ≠ [])
    (hfs : fs ≠ []) :
    ∃ d, Fractional d (ds ++ ['.'] ++ fs) ∧ d.Fills (natOf (ds ++ fs)) (-fs.length) := by
  obtain ⟨⟨-, hdigits⟩, hzero⟩ := h
  rw [List.head?_append_of_ne_nil _ hds] at hzero
  have hwhole : Whole ds := .inr ⟨⟨hds, fun c hc ↦ hdigits c (List.mem_append_left fs hc)⟩, hzero⟩
  exact ⟨_, fractional_positional hwhole ⟨hfs, fun c hc ↦ hdigits c (List.mem_append_right ds hc)⟩,
    0, by simp, by simp⟩

/-- One digit before the point, and an exponent. -/
theorem fractional_exponent {c : Char} {ds : List Char} (h : Significant (c :: ds)) (width : Nat)
    (top : Int) :
    ∃ d, Fractional d ([c] ++ point ds ++ ['e'] ++ exponentText width top) ∧
      d.Fills (natOf (c :: ds)) (top - ds.length) := by
  obtain ⟨⟨-, hdigits⟩, hzero⟩ := h
  obtain ⟨es, hes, htext, hvalue⟩ := digits_exponentText width top
  have hwhole : Whole [c] := .inr ⟨⟨by simp, by simpa using hdigits c (by simp)⟩, hzero⟩
  refine ⟨_, ⟨[c], ds, some (decide (top < 0), es), hwhole,
    fun d hd ↦ hdigits d (List.mem_cons_of_mem c hd), by simpa using hes, .inr (by simp), ?_, rfl⟩,
    0, by simp, ?_⟩
  · simp [htext, exponent]
  · simp only [hvalue]
    omega

/-- Digits laid out in either way write a numeral that denotes their decimal. -/
theorem Layout.fractional_digits (l : Layout) {ds : List Char} (h : Significant ds) (top : Int) :
    ∃ d, Fractional d (l.digits ds top) ∧ d.Fills (natOf ds) (top + 1 - ds.length) := by
  unfold Layout.digits
  by_cases hrange : l.least ≤ top ∧ top < l.beyond
  · rw [if_pos hrange]
    split_ifs with hneg
    · obtain ⟨d, hd, hfills⟩ := fractional_zeros_append h.1 ((-top).toNat - 1)
      refine ⟨d, hd, ?_⟩
      convert hfills using 1
      omega
    · dsimp only
      by_cases hshort : ds.length ≤ top.toNat + 1
      · obtain ⟨d, hd, hfills⟩ := fractional_append_zeros h (top.toNat + 1 - ds.length)
        rw [List.take_of_length_le hshort, List.drop_of_length_le hshort]
        refine ⟨d, hd, ?_⟩
        convert hfills using 1
        omega
      · have hsplit := List.take_append_drop (top.toNat + 1) ds
        have hdrop : ds.drop (top.toNat + 1) ≠ [] := by simpa using hshort
        obtain ⟨d, hd, hfills⟩ := fractional_point (hsplit.symm ▸ h) (by simp [h.1.1]) hdrop
        rw [if_neg (by simpa using hdrop), Nat.sub_eq_zero_of_le (by omega), List.replicate_zero,
          List.append_nil]
        refine ⟨d, hd, ?_⟩
        rw [hsplit, List.length_drop] at hfills
        convert hfills using 1
        omega
  · rw [if_neg hrange]
    obtain ⟨c, ds, rfl⟩ := List.exists_cons_of_ne_nil h.1.1
    obtain ⟨d, hd, hfills⟩ := fractional_exponent h l.exponentWidth top
    have hpoint : (if (c :: ds).length ≤ 1 then [] else '.' :: (c :: ds).drop 1) = point ds := by
      cases ds <;> rfl
    refine ⟨d, ?_, ?_⟩
    · rw [hpoint]
      exact hd
    · convert hfills using 1
      rw [List.length_cons]
      omega

/-- The text of a finite number is a numeral, which denotes the chosen decimal. -/
theorem Layout.fractional_text (l : Layout) (negative : Bool) (m : Nat) (e : Int) :
    ∃ d cs, Fractional d cs ∧ l.text (.finite negative m e) = minus negative ++ cs ∧
      (m = 0 → d.digits = 0) ∧
      (0 < m → ∃ n f, d.Fills n f ∧
        (shortestOf (scaled m 1 (-e)).1 (scaled m 1 (-e)).2).Fills n f) := by
  by_cases hm : m = 0
  · have hzero := fractional_positional (.inl rfl : Whole ['0']) (⟨by simp, by simp⟩ : Digits ['0'])
    exact ⟨_, _, hzero, by simp [Layout.text, hm, minus], fun _ ↦ rfl, fun h ↦ by omega⟩
  · have hscaled : 0 < (scaled m 1 (-e)).1 ∧ 0 < (scaled m 1 (-e)).2 := by
      unfold scaled
      split_ifs <;> simp <;> omega
    have hpos := shortestOf_pos hscaled.1 hscaled.2
    generalize hd₀ : shortestOf (scaled m 1 (-e)).1 (scaled m 1 (-e)).2 = d₀ at hpos
    have hsig : Significant (Nat.toDigits 10 d₀.digits) :=
      ⟨digits_toDigits _, head?_toDigits_ne hpos⟩
    have hkept := dropZeros_append (Nat.toDigits 10 d₀.digits)
    obtain ⟨d, hd, hfills⟩ := l.fractional_digits hsig.dropZeros
      (d₀.exponent + (Nat.toDigits 10 d₀.digits).length - 1)
    refine ⟨d, _, hd, ?_, fun h ↦ absurd h hm, fun _ ↦ ⟨_, _, hfills,
      (dropZeros (Nat.toDigits 10 d₀.digits)).2, ?_, ?_⟩⟩
    · simp only [Layout.text, hm, if_false, hd₀]
      rfl
    · rw [← natOf_append_zeros, hkept, natOf_toDigits]
    · have hlength := congrArg List.length hkept
      rw [List.length_append, List.length_replicate] at hlength
      omega

end Number

/-! ## Reading -/

namespace Json.Reader

open Number

/-- What starts with a digit, or with a sign and a digit, is no word. -/
theorem scalar?_minus (negative : Bool) {ds : List Char} (h : Digits ds) (cs : List Char) :
    scalar? (minus negative ++ (ds ++ cs)) = number? (minus negative ++ (ds ++ cs)) := by
  obtain ⟨d, ds, rfl⟩ := List.exists_cons_of_ne_nil h.1
  have hd : d.isDigit = true := h.2 d (by simp)
  have hne : ∀ c : Char, c.isDigit = false → c ≠ d := by
    rintro c hc rfl
    simp [hc] at hd
  have hn := hne 'n' rfl
  have ht := hne 't' rfl
  have hf := hne 'f' rfl
  have hN := hne 'N' rfl
  have hI := hne 'I' rfl
  have hm := hne '-' rfl
  cases negative <;> simp [scalar?, afterWord?, minus, hn, ht, hf, hN, hI, hm]

/-- The text of a finite number reads back as the number nearest to the chosen decimal. -/
theorem scalar?_finite (negative : Bool) (m : Nat) (e : Int) :
    ∃ d : Decimal, (∀ rest, Delimited rest →
        scalar? (json.text (.finite negative m e) ++ rest) =
          some (.float (Binary64.ofDecimal negative d.digits d.exponent), rest)) ∧
      (m = 0 → d.digits = 0) ∧
      (0 < m → ∃ n f, d.Fills n f ∧
        (shortestOf (scaled m 1 (-e)).1 (scaled m 1 (-e)).2).Fills n f) := by
  obtain ⟨d, cs, ⟨ds, fs, e', hds, hfs, he, hfloat, rfl, rfl⟩, htext, hvalue⟩ :=
    json.fractional_text negative m e
  refine ⟨_, fun rest hrest ↦ ?_, hvalue⟩
  rw [htext, List.append_assoc, List.append_assoc, List.append_assoc,
    scalar?_minus negative hds.digits]
  exact number?_float negative hds hfs he hfloat hrest

/-- The text of a number reads back as one number, which the text alone decides. -/
theorem scalar?_text (x : Binary64) :
    ∃ y, ∀ rest, Delimited rest → scalar? (json.text x ++ rest) = some (.float y, rest) := by
  cases x with
  | nan => exact ⟨.nan, fun rest _ ↦ by simp [Layout.text, json, scalar?, afterWord?]⟩
  | infinite negative =>
    exact ⟨.infinite negative, fun rest _ ↦ by
      cases negative <;> simp [Layout.text, json, scalar?, afterWord?]⟩
  | finite negative m e =>
    obtain ⟨d, hd, -⟩ := scalar?_finite negative m e
    exact ⟨_, hd⟩

theorem toList_toString_int (i : Int) :
    (toString i).toList = minus (decide (i < 0)) ++ Nat.toDigits 10 i.natAbs := by
  cases i with
  | ofNat n => exact Nat.toList_repr
  | negSucc n =>
    have h : (toString (Int.negSucc n)).toList = '-' :: (n + 1).repr.toList := by
      simp [toString, Int.repr]
    rw [h, Nat.toList_repr, decide_eq_true (Int.negSucc_lt_zero n)]
    rfl

/-- The text of an integer reads back as that integer. -/
theorem scalar?_int (i : Int) {rest : List Char} (hrest : Delimited rest) :
    scalar? ((toString i).toList ++ rest) = some (.int i, rest) := by
  have hwhole := whole_toDigits i.natAbs
  rw [toList_toString_int, List.append_assoc, scalar?_minus _ hwhole.digits,
    number?_int _ hwhole hrest, natOf_toDigits]
  congr 3
  simp only [decide_eq_true_eq]
  split_ifs <;> omega

end Json.Reader

end IceCube
