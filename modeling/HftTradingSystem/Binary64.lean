import HftTradingSystem.Quote

/-!
# Double-precision floats

Python's floats are IEEE 754 doubles. A double is represented here by the exact rational it
denotes, and every float operation by its exact result rounded to the nearest double, ties to
an even significand, with the subnormals below `2 ^ -1022`: `round`. `float(s)` is the double
nearest the decimal `s`. Overflow to infinity is not modelled: the prices and sizes of the bot
and the converter are far below `2 ^ 1024`. What the float arithmetic does is derived from one
bound on the rounding error, `abs_round_sub_le`. Concrete runs are evaluated one operation at a
time by `round_eq_of_binade`; a double rounds to itself (`round_intCast_mul_zpow`,
`round_round`).
-/

namespace HftTradingSystem

namespace Binary64

/-- The number of binary digits of `n`, halving at most `fuel` times. -/
def bitLengthAux : ℕ → ℕ → ℕ
  | 0, _ => 0
  | fuel + 1, n => if n = 0 then 0 else bitLengthAux fuel (n / 2) + 1

/-- `n.bit_length()`. -/
def bitLength (n : ℕ) : ℕ := bitLengthAux n n

@[simp]
theorem bitLengthAux_zero (fuel : ℕ) : bitLengthAux fuel 0 = 0 := by
  cases fuel <;> rfl

theorem bitLengthAux_spec : ∀ {fuel n : ℕ}, 0 < n → n ≤ fuel →
    2 ^ bitLengthAux fuel n ≤ 2 * n ∧ n < 2 ^ bitLengthAux fuel n
  | 0, _, hn, hle => absurd hle (by omega)
  | fuel + 1, n, hn, hle => by
    rw [bitLengthAux, if_neg hn.ne', pow_succ]
    rcases Nat.eq_zero_or_pos (n / 2) with hhalf | hhalf
    · rw [hhalf, bitLengthAux_zero]
      omega
    · have := bitLengthAux_spec hhalf (show n / 2 ≤ fuel by omega)
      omega

/-- A positive `n` has `bitLength n` binary digits. -/
theorem bitLength_spec {n : ℕ} (hn : 0 < n) : 2 ^ bitLength n ≤ 2 * n ∧ n < 2 ^ bitLength n :=
  bitLengthAux_spec hn le_rfl

/-- `⌊log₂ x⌋` for `x > 0`: the bit length of the numerator less that of the denominator,
less one more where that power of two is above `x`. -/
def log2 (x : ℚ) : ℤ :=
  let k : ℤ := (bitLength x.num.natAbs : ℤ) - bitLength x.den
  if (2 : ℚ) ^ k ≤ x then k else k - 1

theorem log2_spec {x : ℚ} (hx : 0 < x) : 2 ^ log2 x ≤ x ∧ x < 2 ^ (log2 x + 1) := by
  have hnum : 0 < x.num.natAbs := Int.natAbs_pos.2 (Rat.num_pos.2 hx).ne'
  obtain ⟨hn₁, hn₂⟩ := bitLength_spec hnum
  obtain ⟨hd₁, hd₂⟩ := bitLength_spec x.den_pos
  set a := bitLength x.num.natAbs
  set b := bitLength x.den
  have hx : x = (x.num.natAbs : ℚ) / x.den := by
    rw [Nat.cast_natAbs, Int.cast_abs, abs_of_pos (Int.cast_pos.2 (Rat.num_pos.2 hx)),
      Rat.num_div_den]
  have hA : (2 : ℚ) ^ a ≤ 2 * x.num.natAbs := by exact_mod_cast hn₁
  have hA' : (x.num.natAbs : ℚ) < 2 ^ a := by exact_mod_cast hn₂
  have hB : (2 : ℚ) ^ b ≤ 2 * x.den := by exact_mod_cast hd₁
  have hB' : (x.den : ℚ) < 2 ^ b := by exact_mod_cast hd₂
  have hden : (0 : ℚ) < x.den := by exact_mod_cast x.den_pos
  have hk : (2 : ℚ) ^ ((a : ℤ) - b) = 2 ^ a / 2 ^ b := by
    rw [zpow_sub₀ two_ne_zero, zpow_natCast, zpow_natCast]
  -- `x` lies within a factor two of `2 ^ (a - b)` on either side
  have hbelow : x < 2 * 2 ^ ((a : ℤ) - b) := by
    rw [hk, hx, div_lt_iff₀ hden, mul_div_assoc', div_mul_eq_mul_div, lt_div_iff₀ (by positivity)]
    linarith only [mul_le_mul_of_nonneg_left hB (by positivity : (0 : ℚ) ≤ x.num.natAbs),
      mul_lt_mul_of_pos_right hA' (by positivity : (0 : ℚ) < 2 * x.den)]
  have habove : 2 ^ ((a : ℤ) - b) ≤ 2 * x := by
    rw [hk, hx, div_le_iff₀ (by positivity), mul_div_assoc', div_mul_eq_mul_div,
      le_div_iff₀ hden]
    linarith only [mul_le_mul_of_nonneg_right hA hden.le,
      mul_lt_mul_of_pos_left hB' (by positivity : (0 : ℚ) < 2 * x.num.natAbs)]
  unfold log2
  dsimp only
  split_ifs with hle
  · exact ⟨hle, by rwa [zpow_add_one₀ two_ne_zero, mul_comm]⟩
  · rw [sub_add_cancel, zpow_sub_one₀ two_ne_zero]
    exact ⟨by linarith only [habove], not_le.1 hle⟩

theorem log2_eq {x : ℚ} {k : ℤ} (hlo : 2 ^ k ≤ x) (hhi : x < 2 ^ (k + 1)) : log2 x = k := by
  obtain ⟨hlog, hlog'⟩ := log2_spec ((zpow_pos two_pos k).trans_le hlo)
  have : log2 x < k + 1 := (zpow_lt_zpow_iff_right₀ one_lt_two).1 (hlog.trans_lt hhi)
  have : k < log2 x + 1 := (zpow_lt_zpow_iff_right₀ one_lt_two).1 (hlo.trans_lt hlog')
  omega

/-- The exponent of the last significand bit of the doubles around `x`: 52 below the leading
bit of `x`, and never below that of the subnormals. -/
def ulpExponent (x : ℚ) : ℤ := max (log2 |x| - 52) (-1074)

/-- `x` rounded to the nearest double, ties to an even significand. -/
def round (x : ℚ) : ℚ :=
  if x = 0 then 0 else roundHalfEven (x / 2 ^ ulpExponent x) * 2 ^ ulpExponent x

/-- The spacing of the doubles around `x` is at most `|x| / 2 ^ 52`, or that of the
subnormals. -/
theorem two_zpow_ulpExponent_le {x : ℚ} (hx : x ≠ 0) :
    (2 : ℚ) ^ ulpExponent x ≤ |x| / 2 ^ 52 + 1 / 2 ^ 1074 := by
  have hlog := (log2_spec (abs_pos.2 hx)).1
  unfold ulpExponent
  rcases max_cases (log2 |x| - 52) (-1074) with ⟨hmax, -⟩ | ⟨hmax, -⟩ <;> rw [hmax]
  · rw [zpow_sub₀ two_ne_zero]
    have : (2 : ℚ) ^ log2 |x| / 2 ^ (52 : ℤ) ≤ |x| / 2 ^ 52 := by
      rw [zpow_ofNat]
      exact div_le_div_of_nonneg_right hlog (by positivity)
    linarith [show (0 : ℚ) < 1 / 2 ^ 1074 by positivity]
  · rw [zpow_neg, zpow_ofNat, ← one_div]
    linarith [show (0 : ℚ) ≤ |x| / 2 ^ 52 by positivity]

/-- Rounding to a double moves a value by at most half the spacing of the doubles around it:
relatively `2 ^ -53`, or half the least subnormal. -/
theorem abs_round_sub_le (x : ℚ) : |round x - x| ≤ |x| / 2 ^ 53 + 1 / 2 ^ 1075 := by
  unfold round
  split_ifs with hx
  · simp [hx]
  set e := ulpExponent x
  have hp : (0 : ℚ) < 2 ^ e := zpow_pos two_pos e
  have hhalf : |(roundHalfEven (x / 2 ^ e) : ℚ) - x / 2 ^ e| ≤ 1 / 2 :=
    abs_sub_le_iff.2 ⟨by linarith [roundHalfEven_le_add_half (x / 2 ^ e)],
      by linarith [sub_half_le_roundHalfEven (x / 2 ^ e)]⟩
  calc |(roundHalfEven (x / 2 ^ e) : ℚ) * 2 ^ e - x|
      = |(roundHalfEven (x / 2 ^ e) : ℚ) - x / 2 ^ e| * 2 ^ e := by
        rw [← abs_of_pos hp, ← abs_mul, abs_of_pos hp, sub_mul, div_mul_cancel₀ _ hp.ne']
    _ ≤ 1 / 2 * (|x| / 2 ^ 52 + 1 / 2 ^ 1074) :=
        mul_le_mul hhalf (two_zpow_ulpExponent_le hx) hp.le (by norm_num)
    _ = |x| / 2 ^ 53 + 1 / 2 ^ 1075 := by ring

/-- Half the least subnormal is below the relative rounding error at any normal value. -/
theorem half_subnormal_le {M : ℚ} (hM : 1 / 2 ^ 1022 ≤ M) : 1 / 2 ^ 1075 ≤ M / 2 ^ 53 :=
  calc (1 : ℚ) / 2 ^ 1075 = 1 / 2 ^ 1022 / 2 ^ 53 := by rw [div_div, ← pow_add]
    _ ≤ M / 2 ^ 53 := div_le_div_of_nonneg_right hM (by positivity)

/-- The double nearest a value of size at most `M`, for `M` no smaller than the least normal
double, lies within `M / 2 ^ 52` of it. -/
theorem abs_round_sub_le_of_abs_le {x M : ℚ} (hx : |x| ≤ M) (hM : 1 / 2 ^ 1022 ≤ M) :
    |round x - x| ≤ M / 2 ^ 52 := by
  have : |x| / 2 ^ 53 ≤ M / 2 ^ 53 := div_le_div_of_nonneg_right hx (by positivity)
  linarith only [this, abs_round_sub_le x, half_subnormal_le hM]

/-- A value at most `b` rounds to at most `b` raised by the rounding error at `b`. -/
theorem round_le_of_le {x b : ℚ} (hb : 1 / 2 ^ 1022 ≤ b) (hx : x ≤ b) :
    round x ≤ b + b / 2 ^ 52 := by
  have hb0 : 0 ≤ b := le_trans (by positivity) hb
  rcases le_total 0 x with hpos | hneg
  · linarith only [hx, (abs_le.1 (abs_round_sub_le_of_abs_le (abs_le.2 ⟨by linarith, hx⟩) hb)).2]
  · -- a negative value rounds to at most half the least subnormal
    have herr := (abs_le.1 (abs_round_sub_le x)).2
    rw [abs_of_nonpos hneg] at herr
    have : -x / 2 ^ 53 ≤ -x := div_le_self (by linarith) (by norm_num)
    linarith only [herr, this, hneg, half_subnormal_le hb, hb0]

/-- A value at least `a` rounds to at least `a` lowered by the rounding error at `a`. -/
theorem le_round_of_le {x a : ℚ} (ha : 1 / 2 ^ 1022 ≤ a) (hx : a ≤ x) :
    a - a / 2 ^ 52 ≤ round x := by
  have herr := (abs_le.1 (abs_round_sub_le x)).1
  rw [abs_of_nonneg ((le_trans (by positivity) ha).trans hx)] at herr
  have : a * (1 - 1 / 2 ^ 53) ≤ x * (1 - 1 / 2 ^ 53) :=
    mul_le_mul_of_nonneg_right hx (by norm_num)
  linarith only [herr, this, half_subnormal_le ha]

@[simp]
theorem round_zero : round 0 = 0 := if_pos rfl

/-- At a normal `x`, whose binade `2 ^ (e + 52) ≤ |x| < 2 ^ (e + 53)` is known, the double
nearest `x` is `x / 2 ^ e` rounded half to even, times `2 ^ e`. -/
theorem round_eq_of_binade {x : ℚ} (e : ℤ) (he : -1074 ≤ e) (hlo : 2 ^ (e + 52) ≤ |x|)
    (hhi : |x| < 2 ^ (e + 53)) : round x = roundHalfEven (x / 2 ^ e) * 2 ^ e := by
  have hx : x ≠ 0 := abs_pos.1 ((zpow_pos two_pos _).trans_le hlo)
  have hulp : ulpExponent x = e := by
    rw [ulpExponent, log2_eq hlo (by rwa [add_assoc]), add_sub_cancel_right, max_eq_left he]
  rw [round, if_neg hx, hulp]

/-- A nonzero value below `2 ^ (e + 53)` in size has its doubles spaced `2 ^ e` apart at most. -/
theorem ulpExponent_le {y : ℚ} {e : ℤ} (hy : y ≠ 0) (he : -1074 ≤ e) (h : |y| < 2 ^ (e + 53)) :
    ulpExponent y ≤ e := by
  have : log2 |y| < e + 53 :=
    (zpow_lt_zpow_iff_right₀ one_lt_two).1 ((log2_spec (abs_pos.2 hy)).1.trans_lt h)
  rw [ulpExponent]
  omega

/-- The values `m * 2 ^ e` with `|m| < 2 ^ 53`, above the subnormals' grid, are doubles. -/
theorem round_intCast_mul_zpow (m : ℤ) {e : ℤ} (he : -1074 ≤ e) (hm : |m| < 2 ^ 53) :
    round (m * 2 ^ e) = m * 2 ^ e := by
  rcases eq_or_ne m 0 with rfl | hm0
  · simp
  have hp : (0 : ℚ) < 2 ^ e := zpow_pos two_pos e
  have hy : (m : ℚ) * 2 ^ e ≠ 0 := mul_ne_zero (Int.cast_ne_zero.2 hm0) hp.ne'
  have hlt : |(m : ℚ) * 2 ^ e| < 2 ^ (e + 53) := by
    rw [abs_mul, abs_of_pos hp, zpow_add₀ two_ne_zero, mul_comm (2 ^ e : ℚ), zpow_ofNat]
    exact mul_lt_mul_of_pos_right (by rw [← Int.cast_abs]; exact_mod_cast hm) hp
  obtain ⟨k, hk⟩ : ∃ k : ℕ, e = ulpExponent ((m : ℚ) * 2 ^ e) + k :=
    ⟨(e - ulpExponent ((m : ℚ) * 2 ^ e)).toNat, by have := ulpExponent_le hy he hlt; omega⟩
  have hq : (m : ℚ) * 2 ^ e / 2 ^ ulpExponent ((m : ℚ) * 2 ^ e) = ((m * 2 ^ k : ℤ) : ℚ) := by
    rw [div_eq_iff (zpow_ne_zero _ two_ne_zero)]
    nth_rewrite 1 [hk]
    rw [zpow_add₀ two_ne_zero, zpow_natCast]
    push_cast
    ring
  rw [round, if_neg hy, hq, roundHalfEven_intCast, ← hq,
    div_mul_cancel₀ _ (zpow_ne_zero _ two_ne_zero)]

/-- Rounding a double gives it back. -/
@[simp]
theorem round_round (x : ℚ) : round (round x) = round x := by
  rcases eq_or_ne x 0 with rfl | hx
  · simp
  set u := ulpExponent x
  have hu : -1074 ≤ u := le_max_right _ _
  have hp : (0 : ℚ) < 2 ^ u := zpow_pos two_pos u
  have hsmall : |x / 2 ^ u| < 2 ^ 53 := by
    have hlog := (log2_spec (abs_pos.2 hx)).2
    have hulp : log2 |x| - 52 ≤ u := le_max_left _ _
    have : (2 : ℚ) ^ (log2 |x| + 1) ≤ 2 ^ (u + 53) := zpow_le_zpow_right₀ one_le_two (by omega)
    rw [abs_div, abs_of_pos hp, div_lt_iff₀ hp, ← zpow_natCast, ← zpow_add₀ two_ne_zero,
      add_comm]
    exact_mod_cast hlog.trans_le this
  set m := roundHalfEven (x / 2 ^ u)
  have hm : |m| ≤ 2 ^ 53 := by
    have hup : (m : ℚ) < (2 ^ 53 + 1 : ℤ) := by
      push_cast; linarith [roundHalfEven_le_add_half (x / 2 ^ u), (abs_lt.1 hsmall).2]
    have hdown : ((-2 ^ 53 - 1 : ℤ) : ℚ) < m := by
      push_cast; linarith [sub_half_le_roundHalfEven (x / 2 ^ u), (abs_lt.1 hsmall).1]
    have := Int.cast_lt.1 hup
    have := Int.cast_lt.1 hdown
    rw [abs_le]; omega
  have hround : round x = m * 2 ^ u := by rw [round, if_neg hx]
  rw [hround]
  rcases hm.lt_or_eq with hlt | heq
  · exact round_intCast_mul_zpow m hu hlt
  · -- a value rounded up to the next power of two is a double of the next binade
    obtain ⟨n, hn, hmn⟩ : ∃ n : ℤ, |n| < 2 ^ 53 ∧ m = n * 2 := by
      rcases (abs_eq (by norm_num)).1 heq with h | h
      exacts [⟨2 ^ 52, by norm_num, by rw [h]; norm_num⟩,
        ⟨-2 ^ 52, by norm_num, by rw [h]; norm_num⟩]
    rw [show (m : ℚ) * 2 ^ u = n * 2 ^ (u + 1) by
      rw [hmn, zpow_add_one₀ two_ne_zero]; push_cast; ring]
    exact round_intCast_mul_zpow n (by omega) hn

/-- The integers below `2 ^ 53` in size are doubles. -/
theorem round_intCast {n : ℤ} (hn : |n| < 2 ^ 53) : round n = n := by
  simpa using round_intCast_mul_zpow n (e := 0) (by norm_num) hn

theorem round_natCast {n : ℕ} (hn : n < 2 ^ 53) : round n = n := by
  simpa using round_intCast (n := n) (by rw [Nat.abs_cast]; exact_mod_cast hn)

@[simp]
theorem round_ofNat (n : ℕ) [n.AtLeastTwo] (hn : n < 2 ^ 53) :
    round (no_index (OfNat.ofNat n : ℚ)) = OfNat.ofNat n :=
  round_natCast hn

@[simp]
theorem round_one : round 1 = 1 := by
  simpa using round_natCast (n := 1) (by norm_num)

/-- The double nearest `0.1`, just above it. -/
theorem round_one_tenth : round (1 / 10) = 3602879701896397 / 36028797018963968 := by
  rw [round_eq_of_binade (-56) (by norm_num) (by norm_num [abs_of_pos]) (by norm_num [abs_of_pos])]
  norm_num [roundHalfEven]

end Binary64

end HftTradingSystem
