import Mathlib

/-! The law that puts `2 ^ -(k - K)` on each `k > K`, summed over an interval of `k`. -/

namespace GeometricTail

/-- Weight of `k` beyond `K`. -/
noncomputable def weight (K k : ℕ) : ℝ := if K < k then 1 / ((2 ^ (k - K) : ℕ) : ℝ) else 0

theorem weight_of_lt {K k : ℕ} (hbe : K < k) : weight K k = (1 / 2) ^ (k - K) := by
  simp [weight, hbe]

theorem weight_nonneg (K k : ℕ) : 0 ≤ weight K k := by
  unfold weight
  split <;> positivity

theorem two_zpow_neg {z : ℤ} {d : ℕ} (same : z = d) : (2 : ℝ) ^ (-z) = (1 / 2) ^ d := by
  rw [same, zpow_neg, zpow_natCast, one_div, inv_pow]

section
variable {K : ℕ} {P Q : ℕ → Prop} [DecidablePred P]

theorem hasSum_congr_beyond [DecidablePred Q] {total : ℝ} (same : ∀ k, K < k → (P k ↔ Q k))
    (sum : HasSum (fun k => if Q k then weight K k else 0) total) :
    HasSum (fun k => if P k then weight K k else 0) total := by
  have terms : (fun k => if P k then weight K k else 0) =
      fun k => if Q k then weight K k else 0 := by
    funext k
    by_cases hbe : K < k
    · simp only [same k hbe]
    · have early : weight K k = 0 := if_neg hbe
      simp [early]
  rw [terms]
  exact sum

theorem hasSum_of_none_beyond (h0 : ∀ k, K < k → ¬ P k) :
    HasSum (fun k => if P k then weight K k else 0) 0 := by
  refine hasSum_congr_beyond (Q := fun _ => False) (fun k hbe => iff_false_intro (h0 k hbe)) ?_
  simp
end

theorem hasSum_from {K n : ℕ} (hbe : K < n) :
    HasSum (fun k => if n ≤ k then weight K k else 0) ((1 / 2) ^ (n - K - 1)) := by
  have series := hasSum_geometric_two.mul_left ((1 / 2 : ℝ) ^ (n - K))
  have v : (1 / 2 : ℝ) ^ (n - K) * 2 = (1 / 2) ^ (n - K - 1) := by
    obtain ⟨d, rfl⟩ := Nat.exists_eq_add_of_lt hbe
    have more : K + d + 1 - K = d + 1 := by omega
    rw [more, Nat.add_sub_cancel, pow_succ]
    ring
  rw [v] at series
  rw [← (add_right_injective n).hasSum_iff]
  · have terms : (fun k => if n ≤ k then weight K k else 0) ∘ (fun j => n + j) =
        fun j => (1 / 2 : ℝ) ^ (n - K) * (1 / 2) ^ j := by
      funext j
      have later : K < n + j := by omega
      have exponent : n + j - K = (n - K) + j := by omega
      simp only [Function.comp_apply, Nat.le_add_right, if_true, weight_of_lt later, exponent,
        pow_add]
    rw [terms]
    exact series
  · intro k outside
    have early : ¬ n ≤ k := fun le => outside ⟨k - n, by simp only; omega⟩
    simp [early]

theorem hasSum_between {K n m : ℕ} (hbe : K < n) (ord : n ≤ m) :
    HasSum (fun k => if n ≤ k ∧ k ≤ m then weight K k else 0)
      ((1 / 2) ^ (n - K - 1) - (1 / 2) ^ (m - K)) := by
  have diff := (hasSum_from hbe).sub (hasSum_from (show K < m + 1 by omega))
  have exponent : m + 1 - K - 1 = m - K := by omega
  rw [exponent] at diff
  have terms : (fun k => if n ≤ k ∧ k ≤ m then weight K k else 0) =
      fun k => (if n ≤ k then weight K k else 0) - if m + 1 ≤ k then weight K k else 0 := by
    funext k
    by_cases lower : n ≤ k <;> by_cases upper : k ≤ m
    · simp [lower, upper, show ¬ m + 1 ≤ k by omega]
    · simp [lower, upper, show m + 1 ≤ k by omega]
    · simp [lower, show ¬ m + 1 ≤ k by omega]
    · omega
  rw [terms]
  exact diff

theorem hasSum_weight (K : ℕ) : HasSum (weight K) 1 := by
  have whole := hasSum_from (Nat.lt_succ_self K)
  have all := hasSum_congr_beyond (P := fun _ => True)
    (fun k hbe => iff_of_true trivial (Nat.succ_le_of_lt hbe)) whole
  simpa using all

end GeometricTail
