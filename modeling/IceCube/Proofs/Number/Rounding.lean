import Mathlib.Algebra.Order.Field.Power
import Mathlib.Data.Rat.Cast.Order
import Mathlib.Tactic.FieldSimp
import Mathlib.Tactic.Linarith
import Mathlib.Tactic.Positivity
import Mathlib.Tactic.Ring
import IceCube.Number.Binary64

/-!
# Rounding to the binary format

What a quotient is rounded to depends on its value alone.  A quotient that is nearer to a number of
the format than half a unit of that number is rounded to that number; below a power of two, where
the numbers lie twice as close, a quarter of a unit is near enough.
-/

namespace IceCube.Number

/-! ## Rounding to integers -/

theorem abs_roundDiv_sub_le {n d : ℕ} (hd : 0 < d) : |(roundDiv n d : ℚ) - n / d| ≤ 1 / 2 := by
  have hd' : (0 : ℚ) < d := by exact_mod_cast hd
  have hdiv : (n : ℚ) = d * (n / d : ℕ) + (n % d : ℕ) := by exact_mod_cast (Nat.div_add_mod n d).symm
  have hlt : ((n % d : ℕ) : ℚ) < d := by exact_mod_cast Nat.mod_lt n hd
  have hpos : (0 : ℚ) ≤ (n % d : ℕ) := by positivity
  have hsplit : (n : ℚ) / d = (n / d : ℕ) + (n % d : ℕ) / d := by
    rw [div_eq_iff hd'.ne']
    field_simp
    linarith
  rw [hsplit, abs_le]
  unfold roundDiv
  dsimp only
  split_ifs with hup
  · have hup' : (d : ℚ) ≤ 2 * (n % d : ℕ) := by
      simp only [Bool.or_eq_true, decide_eq_true_eq, Bool.and_eq_true, beq_iff_eq] at hup
      exact_mod_cast hup.elim le_of_lt fun h ↦ h.1.ge
    have hhalf : (1 : ℚ) / 2 ≤ (n % d : ℕ) / d := by rw [div_le_div_iff₀ two_pos hd']; linarith
    have hone : ((n % d : ℕ) : ℚ) / d ≤ 1 := by rw [div_le_one hd']; exact hlt.le
    push_cast
    constructor <;> linarith
  · have hdown : 2 * ((n % d : ℕ) : ℚ) ≤ d := by
      simp only [Bool.or_eq_true, decide_eq_true_eq, not_or, not_lt] at hup
      exact_mod_cast hup.1
    have hhalf : ((n % d : ℕ) : ℚ) / d ≤ 1 / 2 := by rw [div_le_div_iff₀ hd' two_pos]; linarith
    have hzero : (0 : ℚ) ≤ (n % d : ℕ) / d := by positivity
    constructor <;> linarith

/-- What is nearer than a half is what is rounded to. -/
theorem roundDiv_eq_of_near {n d m : ℕ} (hd : 0 < d) (h : |(n : ℚ) / d - m| < 1 / 2) :
    roundDiv n d = m := by
  have hle := abs_le.mp (abs_roundDiv_sub_le (n := n) hd)
  have hlt := abs_lt.mp h
  have hup : (roundDiv n d : ℚ) < m + 1 := by linarith [hle.2, hlt.2]
  have hdown : (m : ℚ) < roundDiv n d + 1 := by linarith [hle.1, hlt.1]
  have hup' : roundDiv n d < m + 1 := by exact_mod_cast hup
  have hdown' : m < roundDiv n d + 1 := by exact_mod_cast hdown
  omega

theorem roundDiv_mul {n d c : ℕ} (hc : 0 < c) : roundDiv (n * c) (d * c) = roundDiv n d := by
  have hlt : (d * c < 2 * (n % d * c)) ↔ (d < 2 * (n % d)) := by
    rw [← mul_assoc, Nat.mul_lt_mul_right hc]
  have heq : (2 * (n % d * c) = d * c) ↔ (2 * (n % d) = d) := by
    rw [← mul_assoc, Nat.mul_left_inj hc.ne']
  simp only [roundDiv, Nat.mul_div_mul_right _ _ hc, Nat.mul_mod_mul_right, hlt, beq_eq_decide, heq]

/-! ## Scaling -/

theorem scaled_pos {num den : ℕ} (hden : 0 < den) (k : ℤ) : 0 < (scaled num den k).2 := by
  unfold scaled
  split_ifs
  · exact Nat.mul_pos hden (Nat.pow_pos two_pos)
  · exact hden

theorem scaled_div (num den : ℕ) (k : ℤ) :
    ((scaled num den k).1 : ℚ) / (scaled num den k).2 = num / den * 2 ^ (-k) := by
  unfold scaled
  split_ifs with hk
  · obtain ⟨j, rfl⟩ := Int.eq_ofNat_of_zero_le hk
    simp only [Int.toNat_natCast, Nat.pow_eq, Nat.cast_mul, Nat.cast_pow, Nat.cast_ofNat, zpow_neg,
      zpow_natCast]
    rw [div_mul_eq_div_div, div_eq_mul_inv]
  · obtain ⟨j, hj⟩ := Int.eq_ofNat_of_zero_le (show 0 ≤ -k by omega)
    simp only [hj, Int.toNat_natCast, Nat.pow_eq, Nat.cast_mul, Nat.cast_pow, Nat.cast_ofNat,
      zpow_natCast]
    rw [mul_div_right_comm]

theorem scaled_mul (num den c : ℕ) (k : ℤ) :
    scaled (num * c) (den * c) k = ((scaled num den k).1 * c, (scaled num den k).2 * c) := by
  unfold scaled
  split_ifs <;> simp [Nat.mul_right_comm]

/-! ## Binary magnitude -/

section Magnitude

variable {num den : ℕ}

/-- The power of two that bounds a quotient from below is next to the one that bounds it from
above. -/
theorem floorLog2_le_and_lt (hnum : 0 < num) (hden : 0 < den) :
    (2 : ℚ) ^ floorLog2 num den ≤ num / den ∧ (num : ℚ) / den < 2 ^ (floorLog2 num den + 1) := by
  have hd : (0 : ℚ) < den := by exact_mod_cast hden
  have hnumLow : (2 : ℚ) ^ Nat.log2 num ≤ num := by exact_mod_cast Nat.log2_self_le hnum.ne'
  have hnumHigh : (num : ℚ) < 2 ^ (Nat.log2 num + 1) := by exact_mod_cast Nat.lt_log2_self
  have hdenLow : (2 : ℚ) ^ Nat.log2 den ≤ den := by exact_mod_cast Nat.log2_self_le hden.ne'
  have hdenHigh : (den : ℚ) < 2 ^ (Nat.log2 den + 1) := by exact_mod_cast Nat.lt_log2_self
  -- the guess is right or one too large
  have hlow : (2 : ℚ) ^ ((Nat.log2 num : ℤ) - Nat.log2 den - 1) ≤ num / den := by
    rw [le_div_iff₀ hd]
    calc (2 : ℚ) ^ ((Nat.log2 num : ℤ) - Nat.log2 den - 1) * den
        ≤ 2 ^ ((Nat.log2 num : ℤ) - Nat.log2 den - 1) * 2 ^ (Nat.log2 den + 1) := by gcongr
      _ = 2 ^ Nat.log2 num := by
        rw [← zpow_natCast, ← zpow_add₀ two_ne_zero, ← zpow_natCast]
        congr 1
        push_cast
        ring
      _ ≤ num := hnumLow
  have hhigh : (num : ℚ) / den < 2 ^ ((Nat.log2 num : ℤ) - Nat.log2 den + 1) := by
    rw [div_lt_iff₀ hd]
    calc (num : ℚ) < 2 ^ (Nat.log2 num + 1) := hnumHigh
      _ = 2 ^ ((Nat.log2 num : ℤ) - Nat.log2 den + 1) * 2 ^ Nat.log2 den := by
        rw [← zpow_natCast, ← zpow_natCast, ← zpow_add₀ two_ne_zero]
        congr 1
        push_cast
        ring
      _ ≤ 2 ^ ((Nat.log2 num : ℤ) - Nat.log2 den + 1) * den := by gcongr
  have hguess : ((scaled num den ((Nat.log2 num : ℤ) - Nat.log2 den)).1 <
      (scaled num den ((Nat.log2 num : ℤ) - Nat.log2 den)).2) ↔
        (num : ℚ) / den < 2 ^ ((Nat.log2 num : ℤ) - Nat.log2 den) := by
    have hpos : 0 < (scaled num den ((Nat.log2 num : ℤ) - Nat.log2 den)).2 := scaled_pos hden _
    have hcast : (0 : ℚ) < (scaled num den ((Nat.log2 num : ℤ) - Nat.log2 den)).2 := by
      exact_mod_cast hpos
    rw [← Nat.cast_lt (α := ℚ), ← div_lt_one hcast, scaled_div, zpow_neg, ← div_eq_mul_inv,
      div_lt_one (by positivity)]
  rw [floorLog2]
  dsimp only
  split_ifs with hlt
  · exact ⟨hlow, by simpa using hguess.mp hlt⟩
  · exact ⟨not_lt.mp fun h ↦ hlt (hguess.mpr h), hhigh⟩

theorem floorLog2_eq {L : ℤ} (hnum : 0 < num) (hden : 0 < den) (hlow : (2 : ℚ) ^ L ≤ num / den)
    (hhigh : (num : ℚ) / den < 2 ^ (L + 1)) : floorLog2 num den = L := by
  obtain ⟨hlow', hhigh'⟩ := floorLog2_le_and_lt hnum hden
  have h₁ := (zpow_lt_zpow_iff_right₀ one_lt_two).mp (hlow.trans_lt hhigh')
  have h₂ := (zpow_lt_zpow_iff_right₀ one_lt_two).mp (hlow'.trans_lt hhigh)
  omega

theorem floorLog2_mul {c : ℕ} (hnum : 0 < num) (hden : 0 < den) (hc : 0 < c) :
    floorLog2 (num * c) (den * c) = floorLog2 num den := by
  obtain ⟨hlow, hhigh⟩ := floorLog2_le_and_lt hnum hden
  have hvalue : ((num * c : ℕ) : ℚ) / (den * c : ℕ) = num / den := by
    push_cast
    exact mul_div_mul_right _ _ (by exact_mod_cast hc.ne')
  exact floorLog2_eq (Nat.mul_pos hnum hc) (Nat.mul_pos hden hc) (hvalue ▸ hlow) (hvalue ▸ hhigh)

end Magnitude

namespace Binary64

/-! ## Rounding to numbers of the format -/

/-- What a quotient is rounded to depends on its value alone. -/
theorem ofRatio_mul (negative : Bool) {num den c : ℕ} (hden : 0 < den) (hc : 0 < c) :
    ofRatio negative (num * c) (den * c) = ofRatio negative num den := by
  rcases Nat.eq_zero_or_pos num with rfl | hnum
  · simp [ofRatio]
  · have hne : num * c ≠ 0 := (Nat.mul_pos hnum hc).ne'
    simp only [ofRatio, hne, hnum.ne', if_false, floorLog2_mul hnum hden hc, scaled_mul,
      roundDiv_mul hc]

/-- A number as the format has it: the significand has 53 binary digits, or fewer where the exponent
is the least. -/
def Proper : Binary64 → Prop
  | .finite _ m e => m < 2 ^ 53 ∧ -1074 ≤ e ∧ e ≤ 971 ∧ (2 ^ 52 ≤ m ∨ e = -1074)
  | _ => True

instance : DecidablePred Proper := fun x ↦ by
  cases x <;> unfold Proper <;> infer_instance

/-- How a quotient is rounded at an exponent that its magnitude asks for. -/
theorem ofRatio_eq (negative : Bool) {num den m : ℕ} {e : ℤ} (hnum : 0 < num) (hden : 0 < den)
    (he : max (floorLog2 num den - 52) (-1074) = e)
    (hm : |(num : ℚ) / den * 2 ^ (-e) - m| < 1 / 2) :
    ofRatio negative num den =
      if m = 2 ^ 53 then (if 971 < e + 1 then infinite negative else finite negative (2 ^ 52) (e + 1))
      else if 971 < e then infinite negative else finite negative m e := by
  have hround : roundDiv (scaled num den e).1 (scaled num den e).2 = m :=
    roundDiv_eq_of_near (scaled_pos hden e) (by rwa [scaled_div])
  simp only [ofRatio, hnum.ne', if_false, he, hround, Nat.pow_eq]
  split_ifs <;> rfl

variable {negative : Bool} {num den m : ℕ} {e : ℤ}

/-- A quotient that is near enough to a number of the format is rounded to it.  Just below a power
of two the numbers lie closer together. -/
theorem ofRatio_of_near (hproper : Proper (finite negative m e)) (hnum : 0 < num) (hden : 0 < den)
    (hnear : |(num : ℚ) / den * 2 ^ (-e) - m| < 1 / 2)
    (hbelow : m = 2 ^ 52 → (m : ℚ) - num / den * 2 ^ (-e) < 1 / 4) :
    ofRatio negative num den = finite negative m e := by
  obtain ⟨hm, hleast, hmost, hfull⟩ := hproper
  obtain ⟨hlow, hhigh⟩ := abs_lt.mp hnear
  obtain ⟨hfloor, hceil⟩ := floorLog2_le_and_lt hnum hden
  have hm' : (m : ℚ) + 1 ≤ 2 ^ 53 := by exact_mod_cast hm
  have hunit : ((2 : ℚ) ^ (-e)) * 2 ^ e = 1 := by
    rw [← zpow_add₀ two_ne_zero, neg_add_cancel, zpow_zero]
  have hmove (k : ℤ) : (2 : ℚ) ^ k * 2 ^ (-e) = 2 ^ (k - e) := by
    rw [← zpow_add₀ two_ne_zero, sub_eq_add_neg]
  have hpos : (0 : ℚ) < 2 ^ (-e) := by positivity
  -- the quotient is below the power of two after the number
  have hupper : floorLog2 num den - 52 ≤ e := by
    have h : (2 : ℚ) ^ (floorLog2 num den - e) < 2 ^ (53 : ℤ) := by
      rw [← hmove]
      calc (2 : ℚ) ^ floorLog2 num den * 2 ^ (-e) ≤ num / den * 2 ^ (-e) := by gcongr
        _ < 2 ^ (53 : ℤ) := by
          have : (2 : ℚ) ^ (53 : ℤ) = 2 ^ 53 := by norm_num
          linarith
    have := (zpow_lt_zpow_iff_right₀ (one_lt_two (α := ℚ))).mp h
    omega
  by_cases hexponent : max (floorLog2 num den - 52) (-1074) = e
  · rw [ofRatio_eq negative hnum hden hexponent hnear, if_neg hm.ne, if_neg (by omega)]
  · -- the quotient is just below the number, which is a power of two
    have hbig : 2 ^ 52 ≤ m := hfull.resolve_right (by omega)
    have hbelowPower : (num : ℚ) / den * 2 ^ (-e) < 2 ^ 52 := by
      have h : (num : ℚ) / den * 2 ^ (-e) < 2 ^ (floorLog2 num den + 1 - e) := by
        rw [← hmove]
        gcongr
      have hle : (2 : ℚ) ^ (floorLog2 num den + 1 - e) ≤ 2 ^ (52 : ℤ) :=
        zpow_le_zpow_right₀ one_le_two (by omega)
      have : (2 : ℚ) ^ (52 : ℤ) = 2 ^ 52 := by norm_num
      linarith
    have hpower : m = 2 ^ 52 := by
      have h : (m : ℚ) < 2 ^ 52 + 1 := by linarith
      have h' : m < 2 ^ 52 + 1 := by exact_mod_cast h
      omega
    have hquarter := hbelow hpower
    have hvalue : (m : ℚ) = 2 ^ 52 := by exact_mod_cast hpower
    have hprevious : floorLog2 num den = e + 51 := by
      refine floorLog2_eq hnum hden ?_ ?_
      · have h : (2 : ℚ) ^ (51 : ℤ) ≤ num / den * 2 ^ (-e) := by
          have : (2 : ℚ) ^ (51 : ℤ) = 2 ^ 51 := by norm_num
          linarith
        calc (2 : ℚ) ^ (e + 51) = 2 ^ (51 : ℤ) * 2 ^ e := by
              rw [← zpow_add₀ two_ne_zero, add_comm]
          _ ≤ num / den * 2 ^ (-e) * 2 ^ e := by gcongr
          _ = num / den := by rw [mul_assoc, hunit, mul_one]
      · calc (num : ℚ) / den = num / den * 2 ^ (-e) * 2 ^ e := by rw [mul_assoc, hunit, mul_one]
          _ < 2 ^ 52 * 2 ^ e := by gcongr
          _ = 2 ^ (e + 51 + 1) := by
            rw [← zpow_natCast, ← zpow_add₀ two_ne_zero]
            congr 1
            push_cast
            ring
    have htwice : (2 : ℚ) ^ (-(e - 1)) = 2 ^ (-e) * 2 := by
      rw [← zpow_add_one₀ two_ne_zero]
      congr 1
      ring
    rw [ofRatio_eq negative (m := 2 ^ 53) (e := e - 1) hnum hden (by omega) ?_, if_pos rfl,
      if_neg (by omega), hpower, sub_add_cancel]
    rw [htwice, ← mul_assoc, abs_lt]
    push_cast
    constructor <;> linarith

/-! ## What is rounded to is of the format -/

theorem proper_zero (negative : Bool) : Proper (zero negative) := by
  cases negative <;> decide

theorem proper_ofRatio (negative : Bool) (num : ℕ) {den : ℕ} (hden : 0 < den) :
    Proper (ofRatio negative num den) := by
  rcases Nat.eq_zero_or_pos num with rfl | hnum
  · exact proper_zero negative
  obtain ⟨hfloor, hceil⟩ := floorLog2_le_and_lt hnum hden
  set e := max (floorLog2 num den - 52) (-1074) with he
  set m := roundDiv (scaled num den e).1 (scaled num den e).2 with hm
  have hnear : |(m : ℚ) - num / den * 2 ^ (-e)| ≤ 1 / 2 := by
    rw [hm, ← scaled_div]
    exact abs_roundDiv_sub_le (scaled_pos hden e)
  obtain ⟨hlow, hhigh⟩ := abs_le.mp hnear
  have hmove (k : ℤ) : (2 : ℚ) ^ k * 2 ^ (-e) = 2 ^ (k - e) := by
    rw [← zpow_add₀ two_ne_zero, sub_eq_add_neg]
  have hmost : m ≤ 2 ^ 53 := by
    have hpower : (num : ℚ) / den * 2 ^ (-e) < 2 ^ (53 : ℤ) := by
      calc (num : ℚ) / den * 2 ^ (-e) < 2 ^ (floorLog2 num den + 1) * 2 ^ (-e) := by gcongr
        _ = 2 ^ (floorLog2 num den + 1 - e) := hmove _
        _ ≤ 2 ^ (53 : ℤ) := zpow_le_zpow_right₀ one_le_two (by omega)
    have hvalue : (2 : ℚ) ^ (53 : ℤ) = 2 ^ 53 := by norm_num
    have hlt : (m : ℚ) < 2 ^ 53 + 1 := by linarith
    have hlt' : m < 2 ^ 53 + 1 := by exact_mod_cast hlt
    omega
  have hfull : 2 ^ 52 ≤ m ∨ e = -1074 := by
    by_cases hleast : e = -1074
    · exact .inr hleast
    · have hpower : (2 : ℚ) ^ (52 : ℤ) ≤ num / den * 2 ^ (-e) := by
        calc (2 : ℚ) ^ (52 : ℤ) = 2 ^ (floorLog2 num den - e) := by
              congr 1
              omega
          _ = 2 ^ floorLog2 num den * 2 ^ (-e) := (hmove _).symm
          _ ≤ num / den * 2 ^ (-e) := by gcongr
      have hvalue : (2 : ℚ) ^ (52 : ℤ) = 2 ^ 52 := by norm_num
      have hlt : (2 : ℚ) ^ 52 < m + 1 := by linarith
      have hlt' : 2 ^ 52 < m + 1 := by exact_mod_cast hlt
      exact .inl (by omega)
  simp only [ofRatio, hnum.ne', if_false, ← he, ← hm, Nat.pow_eq]
  by_cases hcarry : m = 2 ^ 53
  · simp only [hcarry, if_true]
    split_ifs with hinfinite
    · trivial
    · exact ⟨by decide, by omega, by omega, .inl le_rfl⟩
  · simp only [hcarry, if_false]
    split_ifs with hinfinite
    · trivial
    · exact ⟨by omega, by omega, by omega, hfull⟩

theorem proper_ofDecimal (negative : Bool) (digits : ℕ) (exponent : ℤ) :
    Proper (ofDecimal negative digits exponent) := by
  unfold ofDecimal
  dsimp only
  split_ifs
  · exact proper_zero negative
  · trivial
  · exact proper_zero negative
  · exact proper_ofRatio negative _ one_pos
  · exact proper_ofRatio negative _ (Nat.pow_pos (by decide))

end Binary64

end IceCube.Number
