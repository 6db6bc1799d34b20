import Zeus.Lib.Decimal

/-! A finite double is represented by its rational value and every arithmetic result is rounded to
53 bits, ties to the even neighbour. The exponent range is not modelled: there is no overflow and no
subnormal result. -/
namespace Binary64

open DecimalContext (roundHalfEven roundHalfEven_near roundHalfEven_intCast)

/-- Exponent of the last kept bit of `x`. -/
def lastExponent (x : ℚ) : ℤ := Int.log 2 |x| - 52

def round (x : ℚ) : ℚ :=
  if x = 0 then 0 else roundHalfEven (x / 2 ^ lastExponent x) * 2 ^ lastExponent x

def mul (x y : ℚ) : ℚ := round (x * y)

theorem two_zpow_lastExponent_le {x : ℚ} (pos : 0 < x) : (2 : ℚ) ^ lastExponent x ≤ x / 2 ^ 52 := by
  have leading : (2 : ℚ) ^ Int.log 2 x ≤ x := by
    exact_mod_cast Int.zpow_log_le_self (b := 2) (by norm_num) pos
  rw [lastExponent, abs_of_pos pos, zpow_sub₀ (by norm_num)]
  norm_cast at leading ⊢
  gcongr

theorem le_round {x : ℚ} (nn : 0 ≤ x) : x * (1 - 1 / 2 ^ 53) ≤ round x := by
  obtain rfl | pos := nn.eq_or_lt
  · simp [round]
  have unit : (0 : ℚ) < 2 ^ lastExponent x := zpow_pos (by norm_num) _
  have kept := (roundHalfEven_near (x / 2 ^ lastExponent x)).2
  have bit := two_zpow_lastExponent_le pos
  rw [round, if_neg pos.ne']
  calc x * (1 - 1 / 2 ^ 53) ≤ x - 1 / 2 * 2 ^ lastExponent x := by linarith
    _ = (x / 2 ^ lastExponent x - 1 / 2) * 2 ^ lastExponent x := by field_simp
    _ ≤ roundHalfEven (x / 2 ^ lastExponent x) * 2 ^ lastExponent x := by gcongr

theorem round_le {x : ℚ} (nn : 0 ≤ x) : round x ≤ x * (1 + 1 / 2 ^ 53) := by
  obtain rfl | pos := nn.eq_or_lt
  · simp [round]
  have unit : (0 : ℚ) < 2 ^ lastExponent x := zpow_pos (by norm_num) _
  have kept := (roundHalfEven_near (x / 2 ^ lastExponent x)).1
  have bit := two_zpow_lastExponent_le pos
  rw [round, if_neg pos.ne']
  calc roundHalfEven (x / 2 ^ lastExponent x) * 2 ^ lastExponent x
      ≤ (x / 2 ^ lastExponent x + 1 / 2) * 2 ^ lastExponent x := by gcongr
    _ = x + 1 / 2 * 2 ^ lastExponent x := by field_simp
    _ ≤ x * (1 + 1 / 2 ^ 53) := by linarith

theorem round_nonneg {x : ℚ} (nn : 0 ≤ x) : 0 ≤ round x :=
  (mul_nonneg nn (by norm_num)).trans (le_round nn)

theorem round_intCast {n : ℤ} (nn : 0 ≤ n) (small : n < 2 ^ 53) : round (n : ℚ) = n := by
  obtain rfl | pos := nn.eq_or_lt
  · simp [round]
  have positiveQ : (0 : ℚ) < n := by exact_mod_cast pos
  have smallLog : Int.log 2 (n : ℚ) < 53 := by
    apply (Int.lt_zpow_iff_log_lt (b := 2) (by norm_num) positiveQ).mp
    exact_mod_cast small
  obtain ⟨shift, shifted⟩ : ∃ shift : ℕ, lastExponent (n : ℚ) = -shift := by
    rw [lastExponent, abs_of_pos positiveQ]
    exact ⟨(52 - Int.log 2 (n : ℚ)).toNat, by omega⟩
  -- the last kept bit weighs at most one, so the scaled number is still an integer
  have whole : (n : ℚ) / 2 ^ lastExponent (n : ℚ) = ((n * 2 ^ shift : ℤ) : ℚ) := by
    rw [shifted, zpow_neg, zpow_natCast]
    push_cast
    field_simp
  rw [round, if_neg positiveQ.ne', whole, roundHalfEven_intCast, shifted, zpow_neg, zpow_natCast]
  push_cast
  field_simp

end Binary64
