import Mathlib.Data.Int.Log
import Mathlib.Tactic

/-! A finite decimal is represented by its rational value. Every arithmetic result is rounded to the
context's precision, ties to the even digit. Exponent limits are not modelled. -/
namespace DecimalContext

/-- Nearest integer, ties to the even neighbour. -/
def roundHalfEven (x : ℚ) : ℤ :=
  if x - ⌊x⌋ < 1 / 2 then ⌊x⌋
  else if 1 / 2 < x - ⌊x⌋ then ⌊x⌋ + 1
  else if ⌊x⌋ % 2 = 0 then ⌊x⌋ else ⌊x⌋ + 1

theorem roundHalfEven_near (x : ℚ) :
    (roundHalfEven x : ℚ) ≤ x + 1 / 2 ∧ x - 1 / 2 ≤ (roundHalfEven x : ℚ) := by
  have lower := Int.floor_le x
  have upper := Int.lt_floor_add_one x
  unfold roundHalfEven
  split_ifs with below above even
  · constructor <;> linarith
  · push_cast
    constructor <;> linarith
  · constructor <;> linarith
  · push_cast
    constructor <;> linarith

@[simp] theorem roundHalfEven_intCast (n : ℤ) : roundHalfEven (n : ℚ) = n := by
  simp [roundHalfEven]

variable {x y : ℚ} {e : ℤ}

theorem roundHalfEven_mono (h : x ≤ y) : roundHalfEven x ≤ roundHalfEven y := by
  by_contra crossed
  have gap : roundHalfEven y + 1 ≤ roundHalfEven x := by omega
  have gapQ : (roundHalfEven y : ℚ) + 1 ≤ roundHalfEven x := by exact_mod_cast gap
  have nearX := (roundHalfEven_near x).1
  have nearY := (roundHalfEven_near y).2
  have same : x = y := by linarith
  rw [same] at gap
  omega

/-- Weight of the last kept digit when `x` is written with `prec` digits. -/
def lastExponent (prec : ℕ) (x : ℚ) : ℤ := Int.log 10 |x| + 1 - prec

/-- The context rounding: `prec` significant digits, ties to even. -/
def sigRound (prec : ℕ) (x : ℚ) : ℚ :=
  if x = 0 then 0
  else roundHalfEven (x / 10 ^ lastExponent prec x) * 10 ^ lastExponent prec x

@[simp] theorem sigRound_zero (prec : ℕ) : sigRound prec 0 = 0 := by simp [sigRound]

theorem tenPow_pos (e : ℤ) : (0 : ℚ) < 10 ^ e := zpow_pos (by norm_num) e

theorem log_bounds (h : 0 < x) :
    (10 : ℚ) ^ Int.log 10 x ≤ x ∧ x < (10 : ℚ) ^ (Int.log 10 x + 1) := by
  constructor
  · exact_mod_cast Int.zpow_log_le_self (b := 10) (by norm_num) h
  · exact_mod_cast Int.lt_zpow_succ_log_self (b := 10) (by norm_num) x

theorem sigRound_decade {prec : ℕ} (hp : 0 < prec) (h : 0 < x) :
    (10 : ℚ) ^ Int.log 10 x ≤ sigRound prec x ∧
    sigRound prec x ≤ (10 : ℚ) ^ (Int.log 10 x + 1) := by
  have habs : |x| = x := abs_of_pos h
  obtain ⟨low, high⟩ := log_bounds h
  have hq := tenPow_pos (lastExponent prec x)
  have scaleLow : (10 : ℚ) ^ Int.log 10 x =
      ((10 : ℤ) ^ (prec - 1) : ℤ) * 10 ^ lastExponent prec x := by
    rw [lastExponent, habs]
    push_cast
    rw [← zpow_natCast, ← zpow_add₀ (by norm_num)]
    congr 1
    omega
  have scaleHigh : (10 : ℚ) ^ (Int.log 10 x + 1) =
      ((10 : ℤ) ^ prec : ℤ) * 10 ^ lastExponent prec x := by
    rw [lastExponent, habs]
    push_cast
    rw [← zpow_natCast, ← zpow_add₀ (by norm_num)]
    congr 1
    omega
  have v : sigRound prec x =
      roundHalfEven (x / 10 ^ lastExponent prec x) * 10 ^ lastExponent prec x := by
    rw [sigRound, if_neg h.ne']
  rw [v]
  constructor
  · rw [scaleLow] at low ⊢
    have hin := roundHalfEven_mono ((le_div_iff₀ hq).mpr low)
    rw [roundHalfEven_intCast] at hin
    exact mul_le_mul_of_nonneg_right (by exact_mod_cast hin) hq.le
  · rw [scaleHigh] at high ⊢
    have hin := roundHalfEven_mono ((div_le_iff₀ hq).mpr high.le)
    rw [roundHalfEven_intCast] at hin
    exact mul_le_mul_of_nonneg_right (by exact_mod_cast hin) hq.le

theorem sigRound_nonneg {prec : ℕ} (hp : 0 < prec) (h : 0 ≤ x) : 0 ≤ sigRound prec x := by
  rcases h.eq_or_lt with rfl | pos
  · simp
  · exact ((tenPow_pos _).trans_le (sigRound_decade hp pos).1).le

theorem sigRound_mono {prec : ℕ} (hp : 0 < prec) (hx : 0 ≤ x) (h : x ≤ y) :
    sigRound prec x ≤ sigRound prec y := by
  rcases hx.eq_or_lt with rfl | pos
  · simpa using sigRound_nonneg hp h
  have posY : 0 < y := lt_of_lt_of_le pos h
  rcases (Int.log_mono_right (b := 10) pos h).eq_or_lt with same | hne
  · have exponent : lastExponent prec x = lastExponent prec y := by
      rw [lastExponent, lastExponent, abs_of_pos pos, abs_of_pos posY, same]
    rw [sigRound, sigRound, if_neg pos.ne', if_neg posY.ne', exponent]
    have hq := tenPow_pos (lastExponent prec y)
    have scaled := roundHalfEven_mono (div_le_div_of_nonneg_right h hq.le)
    exact mul_le_mul_of_nonneg_right (by exact_mod_cast scaled) hq.le
  · calc sigRound prec x ≤ (10 : ℚ) ^ (Int.log 10 x + 1) := (sigRound_decade hp pos).2
      _ ≤ (10 : ℚ) ^ Int.log 10 y := zpow_le_zpow_right₀ (by norm_num) (by omega)
      _ ≤ sigRound prec y := (sigRound_decade hp posY).1

/-- The value is a whole number of units `10 ^ e`. -/
def OnGrid (e : ℤ) (x : ℚ) : Prop := ∃ n : ℤ, x = n * 10 ^ e

theorem OnGrid.add (hx : OnGrid e x) (hy : OnGrid e y) : OnGrid e (x + y) := by
  obtain ⟨m, rfl⟩ := hx
  obtain ⟨n, rfl⟩ := hy
  exact ⟨m + n, by push_cast; ring⟩

theorem OnGrid.sub (hx : OnGrid e x) (hy : OnGrid e y) : OnGrid e (x - y) := by
  obtain ⟨m, rfl⟩ := hx
  obtain ⟨n, rfl⟩ := hy
  exact ⟨m - n, by push_cast; ring⟩

theorem OnGrid.of_le {d : ℤ} (hx : OnGrid e x) (h : d ≤ e) : OnGrid d x := by
  obtain ⟨n, rfl⟩ := hx
  refine ⟨n * 10 ^ (e - d).toNat, ?_⟩
  have split : (10 : ℚ) ^ e = 10 ^ (e - d).toNat * 10 ^ d := by
    rw [← zpow_natCast, Int.toNat_of_nonneg (by omega), ← zpow_add₀ (by norm_num)]
    congr 1
    omega
  rw [split]
  push_cast
  ring

theorem sigRound_of_grid {prec : ℕ} (grid : OnGrid e x) (fits : |x| < 10 ^ prec * 10 ^ e) :
    sigRound prec x = x := by
  rcases eq_or_ne x 0 with rfl | nonzero
  · exact sigRound_zero prec
  have pos : 0 < |x| := abs_pos.mpr nonzero
  have below : Int.log 10 |x| < prec + e := by
    have upper : |x| < (10 : ℚ) ^ ((prec : ℤ) + e) := by
      rwa [zpow_add₀ (by norm_num), zpow_natCast]
    exact (Int.lt_zpow_iff_log_lt (by norm_num) pos).mp (by exact_mod_cast upper)
  obtain ⟨n, scaled⟩ := grid.of_le (d := lastExponent prec x) (by rw [lastExponent]; omega)
  have unit := tenPow_pos (lastExponent prec x)
  rw [sigRound, if_neg nonzero]
  nth_rewrite 1 [scaled]
  rw [mul_div_assoc, div_self unit.ne', mul_one, roundHalfEven_intCast]
  exact scaled.symm

theorem sigRound_nonpos {prec : ℕ} (h : x ≤ 0) : sigRound prec x ≤ 0 := by
  unfold sigRound
  split_ifs
  · exact le_rfl
  · have unit := tenPow_pos (lastExponent prec x)
    have rounded := roundHalfEven_mono (div_nonpos_of_nonpos_of_nonneg h unit.le)
    rw [show (0 : ℚ) = ((0 : ℤ) : ℚ) by norm_num, roundHalfEven_intCast] at rounded
    exact mul_nonpos_of_nonpos_of_nonneg (by exact_mod_cast rounded) unit.le

def prec : ℕ := 28

def add (x y : ℚ) : ℚ := sigRound prec (x + y)

def sub (x y : ℚ) : ℚ := sigRound prec (x - y)

def mul (x y : ℚ) : ℚ := sigRound prec (x * y)

def div (x y : ℚ) : ℚ := sigRound prec (x / y)

theorem prec_pos : 0 < prec := by decide

theorem add_of_grid (hx : OnGrid e x) (hy : OnGrid e y) (fits : |x + y| < 10 ^ prec * 10 ^ e) :
    add x y = x + y := sigRound_of_grid (hx.add hy) fits

theorem sub_of_grid (hx : OnGrid e x) (hy : OnGrid e y) (fits : |x - y| < 10 ^ prec * 10 ^ e) :
    sub x y = x - y := sigRound_of_grid (hx.sub hy) fits

/-- Nonnegative values of one grid whose total has at most `prec` digits there. -/
def Addable (values : List ℚ) : Prop :=
  ∃ e : ℤ, (∀ x ∈ values, 0 ≤ x ∧ OnGrid e x) ∧ values.sum < 10 ^ prec * 10 ^ e

theorem OnGrid.sum {vs : List ℚ} (grid : ∀ x ∈ vs, OnGrid e x) : OnGrid e vs.sum := by
  induction vs with
  | nil => exact ⟨0, by simp⟩
  | cons x vs ih =>
    rw [List.sum_cons]
    exact (grid x List.mem_cons_self).add (ih fun y mem => grid y (List.mem_cons_of_mem x mem))

theorem Addable.sublist {vs kept : List ℚ} (h : Addable vs) (part : kept.Sublist vs) :
    Addable kept := by
  obtain ⟨e, hle, fits⟩ := h
  refine ⟨e, fun x mem => hle x (part.subset mem), lt_of_le_of_lt ?_ fits⟩
  exact part.sum_le_sum fun x mem => (hle x mem).1

theorem Addable.add_next {front back : List ℚ} (h : Addable (front ++ x :: back)) :
    add front.sum x = (front ++ [x]).sum := by
  have part : (front ++ [x]).Sublist (front ++ x :: back) :=
    List.Sublist.append_left (List.singleton_sublist.mpr List.mem_cons_self) front
  obtain ⟨e, hle, fits⟩ := h.sublist part
  rw [List.sum_append, List.sum_singleton] at fits ⊢
  have last := hle x (by simp)
  have prior : ∀ y ∈ front, 0 ≤ y ∧ OnGrid e y := fun y mem => hle y (List.mem_append_left [x] mem)
  have nn : 0 ≤ front.sum + x := add_nonneg (List.sum_nonneg fun y mem => (prior y mem).1) last.1
  exact add_of_grid (OnGrid.sum fun y mem => (prior y mem).2) last.2 (by rwa [abs_of_nonneg nn])

theorem mul_nonneg_of (hx : 0 ≤ x) (hy : 0 ≤ y) : 0 ≤ mul x y :=
  sigRound_nonneg prec_pos (mul_nonneg hx hy)

theorem div_nonneg_of (hx : 0 ≤ x) (hy : 0 ≤ y) : 0 ≤ div x y :=
  sigRound_nonneg prec_pos (div_nonneg hx hy)

end DecimalContext
