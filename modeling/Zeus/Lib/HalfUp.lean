import Mathlib

/-! The nearest multiple of a quantum, halves upwards. What rounds up to something at all is at
least half of it, so the rounded value never exceeds twice the exact one. -/

namespace HalfUp

variable {α : Type*} [Field α] [LinearOrder α] [FloorRing α]

def round (quantum x : α) : α := ⌊x / quantum + 1 / ((2 : ℕ) : α)⌋ * quantum

variable [IsStrictOrderedRing α]

theorem round_le_two_mul {quantum x : α} (pos : 0 < quantum) (nn : 0 ≤ x) :
    round quantum x ≤ 2 * x := by
  simp only [round, Nat.cast_ofNat]
  have steps : 0 ≤ x / quantum := div_nonneg nn pos.le
  have below : (⌊x / quantum + 1 / 2⌋ : α) ≤ x / quantum + 1 / 2 := Int.floor_le _
  have doubled : (⌊x / quantum + 1 / 2⌋ : α) ≤ 2 * (x / quantum) := by
    rcases le_or_gt ⌊x / quantum + 1 / 2⌋ 0 with low | high
    · have zero : (⌊x / quantum + 1 / 2⌋ : α) ≤ 0 := by exact_mod_cast low
      linarith
    · have one : (1 : α) ≤ ⌊x / quantum + 1 / 2⌋ := by exact_mod_cast high
      linarith
  calc ⌊x / quantum + 1 / 2⌋ * quantum ≤ 2 * (x / quantum) * quantum :=
    mul_le_mul_of_nonneg_right doubled pos.le
    _ = 2 * x := by rw [mul_assoc, div_mul_cancel₀ _ pos.ne']

end HalfUp
