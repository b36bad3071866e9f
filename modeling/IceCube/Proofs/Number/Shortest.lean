import IceCube.Proofs.Number.Rounding
import IceCube.Proofs.Number.Text

/-!
# Seventeen digits are enough

The nearest decimal of seventeen digits is within half a unit of its last digit, and that is less
than half a unit of the binary number.  So it reads back as the number, and the search for the
decimal of fewest digits comes to an end.
-/

namespace IceCube.Number

open Binary64

/-! ## Decimals -/

theorem ten_pow_div (a : ℕ) (e : ℤ) :
    ((a * 10 ^ e.toNat : ℕ) : ℚ) / (10 ^ (-e).toNat : ℕ) = a * 10 ^ e := by
  rcases le_total 0 e with he | he
  · obtain ⟨j, rfl⟩ := Int.eq_ofNat_of_zero_le he
    simp
  · obtain ⟨j, hj⟩ := Int.eq_ofNat_of_zero_le (show 0 ≤ -e by omega)
    obtain rfl : e = -(j : ℤ) := by omega
    simp [div_eq_mul_inv]

theorem decimalLength_pos (n : ℕ) : 0 < decimalLength n := Nat.length_toDigits_pos

theorem decimalLength_mul_pow {n : ℕ} (hn : 0 < n) (k : ℕ) :
    decimalLength (n * 10 ^ k) = decimalLength n + k := by
  have hlow := pow_decimalLength_le hn
  have hhigh := lt_pow_decimalLength n
  have hpos := decimalLength_pos n
  refine le_antisymm ?_ ?_
  · refine (Nat.length_toDigits_le_iff (by decide) (by omega)).mpr ?_
    rw [pow_add]
    gcongr
  · by_contra hlt
    have h := lt_pow_decimalLength (n * 10 ^ k)
    have hle : 10 ^ decimalLength (n * 10 ^ k) ≤ 10 ^ (decimalLength n - 1 + k) := by
      gcongr <;> omega
    have hge : 10 ^ (decimalLength n - 1 + k) ≤ n * 10 ^ k := by
      rw [pow_add]
      gcongr
    omega

/-! ## Reading decimals -/

namespace Binary64

/-- A decimal of a magnitude that the format may have is read as the quotient that it is. -/
theorem ofDecimal_eq_ofRatio (negative : Bool) {n : ℕ} {e : ℤ} (hn : 0 < n)
    (hlow : -400 ≤ e + decimalLength n) (hhigh : e + decimalLength n ≤ 400) :
    ofDecimal negative n e = ofRatio negative (n * 10 ^ e.toNat) (10 ^ (-e).toNat) := by
  simp only [ofDecimal, hn.ne', if_false, not_lt.mpr hhigh, not_lt.mpr hlow, Nat.pow_eq]
  split_ifs with he
  · rw [show (-e).toNat = 0 by omega, pow_zero]
  · rw [show e.toNat = 0 by omega, pow_zero, mul_one]

/-- Zeros at the end of the digits count as much as an exponent. -/
theorem ofDecimal_mul_pow (negative : Bool) {n : ℕ} (hn : 0 < n) (k : ℕ) (e : ℤ) :
    ofDecimal negative (n * 10 ^ k) e = ofDecimal negative n (e + k) := by
  have hpos : 0 < n * 10 ^ k := by positivity
  have hmagnitude : e + (decimalLength (n * 10 ^ k) : ℤ) = e + k + decimalLength n := by
    rw [decimalLength_mul_pow hn]
    push_cast
    ring
  by_cases hin : -400 ≤ e + k + decimalLength n ∧ e + k + decimalLength n ≤ 400
  · rw [ofDecimal_eq_ofRatio negative hpos (by omega) (by omega),
      ofDecimal_eq_ofRatio negative hn hin.1 hin.2]
    -- both quotients are the same but for a power of ten above and below
    have hcross : k + e.toNat + (-(e + k)).toNat = (e + k).toNat + (-e).toNat := by omega
    calc ofRatio negative (n * 10 ^ k * 10 ^ e.toNat) (10 ^ (-e).toNat)
        = ofRatio negative (n * 10 ^ k * 10 ^ e.toNat * 10 ^ (-(e + k)).toNat)
            (10 ^ (-e).toNat * 10 ^ (-(e + k)).toNat) :=
          (ofRatio_mul negative (by positivity) (by positivity)).symm
      _ = ofRatio negative (n * 10 ^ (e + k).toNat * 10 ^ (-e).toNat)
            (10 ^ (-(e + k)).toNat * 10 ^ (-e).toNat) := by
          congr 1
          · rw [mul_assoc, mul_assoc, mul_assoc, ← pow_add, ← pow_add, ← pow_add, ← add_assoc,
              hcross]
          · rw [mul_comm]
      _ = ofRatio negative (n * 10 ^ (e + k).toNat) (10 ^ (-(e + k)).toNat) :=
          ofRatio_mul negative (by positivity) (by positivity)
  · simp only [ofDecimal, hpos.ne', hn.ne', if_false, hmagnitude]
    split_ifs <;> first | rfl | omega

theorem ofDecimal_of_fills (negative : Bool) {d : Decimal} {n : ℕ} {e : ℤ} (hn : 0 < n)
    (h : d.Fills n e) : ofDecimal negative d.digits d.exponent = ofDecimal negative n e := by
  obtain ⟨k, hdigits, hexponent⟩ := h
  rw [hdigits, ofDecimal_mul_pow negative hn, hexponent]

/-- A number with another sign. -/
def signed (negative : Bool) : Binary64 → Binary64
  | .nan => .nan
  | .infinite _ => .infinite negative
  | .finite _ m e => .finite negative m e

theorem signed_ofRatio (negative : Bool) (num den : ℕ) :
    (ofRatio false num den).signed negative = ofRatio negative num den := by
  simp only [ofRatio, zero]
  split_ifs <;> rfl

theorem signed_ofDecimal (negative : Bool) (n : ℕ) (e : ℤ) :
    (ofDecimal false n e).signed negative = ofDecimal negative n e := by
  simp only [ofDecimal, zero]
  split_ifs <;> first | rfl | exact signed_ofRatio _ _ _

end Binary64

/-! ## The search for the shortest decimal -/

/-- The nearer neighbour is within half a unit of the grid. -/
theorem exists_near_of_neighbours (num : ℕ) {den : ℕ} (hden : 0 < den) (g : ℤ) :
    ∃ near, (neighbours num den g).head? = some ⟨near, g⟩ ∧
      |(near : ℚ) * 10 ^ g - num / den| ≤ 10 ^ g / 2 := by
  have hten : (0 : ℚ) < 10 ^ g := by positivity
  have hscale (n d : ℕ) (hd : 0 < d) (hvalue : (n : ℚ) / d * 10 ^ g = num / den) :
      |(roundDiv n d : ℚ) * 10 ^ g - num / den| ≤ 10 ^ g / 2 := by
    rw [← hvalue, ← sub_mul, abs_mul, abs_of_pos hten]
    calc |(roundDiv n d : ℚ) - n / d| * 10 ^ g ≤ 1 / 2 * 10 ^ g := by
          gcongr
          exact abs_roundDiv_sub_le hd
      _ = 10 ^ g / 2 := by ring
  unfold neighbours
  split_ifs with hg
  · obtain ⟨j, rfl⟩ := Int.eq_ofNat_of_zero_le hg
    refine ⟨_, rfl, hscale num (den * 10 ^ j) (by positivity) ?_⟩
    push_cast
    rw [zpow_natCast]
    field_simp
  · obtain ⟨j, hj⟩ := Int.eq_ofNat_of_zero_le (show 0 ≤ -g by omega)
    obtain rfl : g = -(j : ℤ) := by omega
    refine ⟨_, rfl, hscale (num * 10 ^ (- -(j : ℤ)).toNat) den hden ?_⟩
    simp only [neg_neg, Int.toNat_natCast, Nat.cast_mul, Nat.cast_pow, Nat.cast_ofNat, zpow_neg,
      zpow_natCast]
    field_simp

theorem pow_le_of_powLe {e : ℤ} {num den : ℕ} (hden : 0 < den) (h : PowLe e num den) :
    (10 : ℚ) ^ e ≤ num / den := by
  have hd : (0 : ℚ) < den := by exact_mod_cast hden
  have hcast : (den : ℚ) * 10 ^ e.toNat ≤ num * 10 ^ (-e).toNat := by exact_mod_cast h
  have hone := ten_pow_div 1 e
  push_cast at hone
  rw [one_mul, one_mul] at hone
  rw [← hone, div_le_div_iff₀ (by positivity) hd, mul_comm]
  exact hcast

section Seventeen

variable {m : ℕ} {e : ℤ}

theorem value_of_scaled (m : ℕ) (e : ℤ) :
    ((scaled m 1 (-e)).1 : ℚ) / (scaled m 1 (-e)).2 = m * 2 ^ e := by
  rw [scaled_div, neg_neg, Nat.cast_one, div_one]

theorem scaled_fst_pos (hm : 0 < m) (k : ℤ) : 0 < (scaled m 1 k).1 := by
  unfold scaled
  split_ifs
  · exact hm
  · exact Nat.mul_pos hm (Nat.pow_pos two_pos)

/-- The numbers of the format lie between two powers of two. -/
theorem bounds_of_proper (hproper : Proper (.finite false m e)) (hm : 0 < m) :
    (2 : ℚ) ^ (-1074 : ℤ) ≤ m * 2 ^ e ∧ m * (2 : ℚ) ^ e < 2 ^ (1024 : ℤ) := by
  obtain ⟨hbound, hleast, hmost, -⟩ := hproper
  have hmQ : (m : ℚ) < 2 ^ 53 := by exact_mod_cast hbound
  have hmPos : (1 : ℚ) ≤ m := by exact_mod_cast hm
  constructor
  · calc (2 : ℚ) ^ (-1074 : ℤ) ≤ 2 ^ e := zpow_le_zpow_right₀ one_le_two hleast
      _ ≤ m * 2 ^ e := le_mul_of_one_le_left (by positivity) hmPos
  · calc m * (2 : ℚ) ^ e < 2 ^ 53 * 2 ^ e := by gcongr
      _ ≤ 2 ^ 53 * 2 ^ (971 : ℤ) := by gcongr; exact one_le_two
      _ = 2 ^ (1024 : ℤ) := by rw [← zpow_natCast, ← zpow_add₀ two_ne_zero]; rfl

theorem two_zpow_lt_ten_zpow : (2 : ℚ) ^ (1075 : ℤ) < 10 ^ (400 : ℤ) := by
  calc (2 : ℚ) ^ (1075 : ℤ) ≤ 2 ^ (3 * 400 : ℤ) := zpow_le_zpow_right₀ one_le_two (by decide)
    _ = (2 ^ (3 : ℤ)) ^ (400 : ℤ) := zpow_mul 2 3 400
    _ < 10 ^ (400 : ℤ) := zpow_lt_zpow_left₀ (by positivity) (by norm_num) (by decide)

/-- A decimal that is off by less than the half of a number of the format is neither too large nor
too small to be read. -/
theorem magnitude_of_near (hproper : Proper (.finite false m e)) (hm : 0 < m) {near : ℕ} {g : ℤ}
    (hnear : 0 < near) (hclose : |(near : ℚ) * 10 ^ g - m * 2 ^ e| < m * 2 ^ e / 2) :
    -400 ≤ g + decimalLength near ∧ g + decimalLength near ≤ 400 := by
  obtain ⟨hleast, hmost⟩ := bounds_of_proper hproper hm
  obtain ⟨hlow, hhigh⟩ := abs_lt.mp hclose
  have hlen : (near : ℚ) < 10 ^ decimalLength near := by exact_mod_cast lt_pow_decimalLength near
  have hlen' : (10 : ℚ) ^ (decimalLength near - 1) ≤ near := by
    exact_mod_cast pow_decimalLength_le hnear
  have hlenPos := decimalLength_pos near
  have hten : (1 : ℚ) < 10 := by norm_num
  constructor
  · have h : (10 : ℚ) ^ (-400 : ℤ) < 10 ^ (g + decimalLength near) := by
      calc (10 : ℚ) ^ (-400 : ℤ) < 2 ^ (-1075 : ℤ) := by
            rw [zpow_neg, zpow_neg, inv_lt_inv₀ (by positivity) (by positivity)]
            exact two_zpow_lt_ten_zpow
        _ = 2 ^ (-1074 : ℤ) / 2 := by rw [div_eq_mul_inv, ← zpow_sub_one₀ two_ne_zero]; rfl
        _ ≤ m * 2 ^ e / 2 := by gcongr
        _ < near * 10 ^ g := by linarith
        _ < 10 ^ decimalLength near * 10 ^ g := by gcongr
        _ = 10 ^ (g + decimalLength near) := by
            rw [← zpow_natCast, ← zpow_add₀ (by norm_num), add_comm]
    exact ((zpow_lt_zpow_iff_right₀ hten).mp h).le
  · have h : (10 : ℚ) ^ (g + decimalLength near - 1) < 10 ^ (400 : ℤ) := by
      calc (10 : ℚ) ^ (g + decimalLength near - 1)
          = 10 ^ (decimalLength near - 1) * 10 ^ g := by
            rw [← zpow_natCast, ← zpow_add₀ (by norm_num)]
            congr 1
            omega
        _ ≤ near * 10 ^ g := by gcongr
        _ < m * 2 ^ e * 2 := by linarith
        _ < 2 ^ (1024 : ℤ) * 2 := by gcongr
        _ = 2 ^ (1025 : ℤ) := by rw [← zpow_add_one₀ two_ne_zero]; rfl
        _ ≤ 2 ^ (1075 : ℤ) := zpow_le_zpow_right₀ one_le_two (by decide)
        _ < 10 ^ (400 : ℤ) := two_zpow_lt_ten_zpow
    have := (zpow_lt_zpow_iff_right₀ hten).mp h
    omega

/-- A decimal close to a number of the format reads back as that number. -/
theorem ofDecimal_of_near (hproper : Proper (.finite false m e)) (hm : 0 < m) {near : ℕ} {g : ℤ}
    (hnear : 0 < near)
    (hclose : |(near : ℚ) * 10 ^ g - m * 2 ^ e| ≤ m * 2 ^ e / (2 * 10 ^ 16)) :
    ofDecimal false near g = .finite false m e := by
  have hmPos : (0 : ℚ) < m := by exact_mod_cast hm
  have hvalue : (0 : ℚ) < m * 2 ^ e := by positivity
  obtain ⟨hmagnitude, hmagnitude'⟩ := magnitude_of_near hproper hm hnear
    (hclose.trans_lt (by gcongr; norm_num))
  rw [ofDecimal_eq_ofRatio false hnear hmagnitude hmagnitude']
  -- in units of the number the decimal is off by less than a quarter
  have hinv : (2 : ℚ) ^ e * 2 ^ (-e) = 1 := by
    rw [← zpow_add₀ two_ne_zero, add_neg_cancel, zpow_zero]
  have hunits : |(near : ℚ) * 10 ^ g * 2 ^ (-e) - m| ≤ m / (2 * 10 ^ 16) := by
    have hneg : (0 : ℚ) < 2 ^ (-e) := by positivity
    have hsplit : (near : ℚ) * 10 ^ g * 2 ^ (-e) - m =
        (near * 10 ^ g - m * 2 ^ e) * 2 ^ (-e) := by
      rw [sub_mul, mul_assoc (m : ℚ), hinv, mul_one]
    rw [hsplit, abs_mul, abs_of_pos hneg]
    calc |(near : ℚ) * 10 ^ g - m * 2 ^ e| * 2 ^ (-e)
        ≤ m * 2 ^ e / (2 * 10 ^ 16) * 2 ^ (-e) := by gcongr
      _ = m * (2 ^ e * 2 ^ (-e)) / (2 * 10 ^ 16) := by ring
      _ = m / (2 * 10 ^ 16) := by rw [hinv, mul_one]
  have hratio := ten_pow_div near g
  refine ofRatio_of_near hproper (by positivity) (by positivity) ?_ fun hpower ↦ ?_
  · rw [hratio]
    refine lt_of_le_of_lt hunits ?_
    have hmQ : (m : ℚ) < 2 ^ 53 := by exact_mod_cast hproper.1
    rw [div_lt_div_iff₀ (by positivity) two_pos]
    linarith
  · rw [hratio]
    have hpowerQ : (m : ℚ) = 2 ^ 52 := by exact_mod_cast hpower
    have hquarter : (m : ℚ) / (2 * 10 ^ 16) < 1 / 4 := by
      rw [hpowerQ, div_lt_div_iff₀ (by positivity) (by norm_num)]
      norm_num
    linarith [(abs_le.mp hunits).1]

/-- The value of a number of the format is rounded to that number. -/
theorem ofRatio_scaled (hproper : Proper (.finite false m e)) (hm : 0 < m) :
    ofRatio false (scaled m 1 (-e)).1 (scaled m 1 (-e)).2 = .finite false m e := by
  have hinv : (2 : ℚ) ^ e * 2 ^ (-e) = 1 := by
    rw [← zpow_add₀ two_ne_zero, add_neg_cancel, zpow_zero]
  have hexact : ((scaled m 1 (-e)).1 : ℚ) / (scaled m 1 (-e)).2 * 2 ^ (-e) = m := by
    rw [value_of_scaled, mul_assoc, hinv, mul_one]
  refine ofRatio_of_near hproper (scaled_fst_pos hm _) (scaled_pos one_pos _) ?_ fun _ ↦ ?_
  · rw [hexact]
    norm_num
  · rw [hexact]
    norm_num

/-- The seventeenth step of the search ends it, if no other step does. -/
theorem isSome_readsBack?_seventeen (hproper : Proper (.finite false m e)) (hm : 0 < m) :
    (readsBack? (scaled m 1 (-e)).1 (scaled m 1 (-e)).2 17).isSome = true := by
  have hnum := scaled_fst_pos hm (-e)
  have hden : 0 < (scaled m 1 (-e)).2 := scaled_pos one_pos (-e)
  have hvalue := value_of_scaled m e
  have hexact := ofRatio_scaled hproper hm
  have hfloor := powLe_floorLog10 hnum hden
  generalize (scaled m 1 (-e)).1 = num at *
  generalize (scaled m 1 (-e)).2 = den at *
  rw [readsBack?]
  have hgrid : floorLog10 num den - ((17 : ℕ) : ℤ) + 1 = floorLog10 num den - 16 := by
    push_cast
    ring
  rw [hgrid]
  obtain ⟨near, hhead, hclose⟩ := exists_near_of_neighbours num hden (floorLog10 num den - 16)
  have hmem := List.mem_of_head? hhead
  have hpos := neighbours_pos hden (hfloor.mono (by omega)) _ hmem
  -- a unit of the seventeenth digit is small against the number
  have hsmall : (10 : ℚ) ^ (floorLog10 num den - 16) ≤ m * 2 ^ e / 10 ^ 16 := by
    rw [zpow_sub₀ (by norm_num), ← hvalue]
    have := pow_le_of_powLe hden hfloor
    have hcast : (10 : ℚ) ^ (16 : ℤ) = 10 ^ 16 := by norm_num
    rw [hcast]
    gcongr
  have hreads := ofDecimal_of_near hproper hm hpos (g := floorLog10 num den - 16) (by
    rw [← hvalue]
    refine hclose.trans ?_
    rw [hvalue, div_mul_eq_div_div_swap]
    gcongr)
  exact List.find?_isSome.mpr ⟨_, hmem, by rw [hreads, hexact, beq_self_eq_true]⟩

/-- The chosen decimal reads back as the number, with either sign. -/
theorem ofDecimal_shortestOf (negative : Bool) (hproper : Proper (.finite false m e))
    (hm : 0 < m) :
    ofDecimal negative (shortestOf (scaled m 1 (-e)).1 (scaled m 1 (-e)).2).digits
      (shortestOf (scaled m 1 (-e)).1 (scaled m 1 (-e)).2).exponent = .finite negative m e := by
  have hsome := isSome_readsBack?_seventeen hproper hm
  have hexact := ofRatio_scaled hproper hm
  generalize (scaled m 1 (-e)).1 = num at *
  generalize (scaled m 1 (-e)).2 = den at *
  have hfound : ((List.range 17).findSome? fun i ↦ readsBack? num den (i + 1)).isSome = true :=
    List.findSome?_isSome_iff.mpr ⟨16, by simp, hsome⟩
  obtain ⟨d, hd⟩ := Option.isSome_iff_exists.mp hfound
  obtain ⟨i, -, hi⟩ := List.exists_of_findSome?_eq_some hd
  rw [readsBack?] at hi
  have hreads : ofDecimal false d.digits d.exponent = ofRatio false num den := by
    simpa using List.find?_some hi
  rw [shortestOf, hd, Option.getD_some, ← signed_ofDecimal, hreads, hexact]
  rfl

end Seventeen

end IceCube.Number
