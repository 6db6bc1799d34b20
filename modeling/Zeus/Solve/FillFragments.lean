import Zeus.Lib.HalfUp

/-! A taker order is filled by any number of counterparties, and each fragment is charged its own
rounded fee. -/

namespace Zeus.FillFragments

variable {α : Type*} [Field α] [LinearOrder α]

structure Fragment (α : Type*) [Field α] [LinearOrder α] where
  (size price : α)
  size_pos : 0 < size
  price_pos : 0 < price
  price_le_one : price ≤ 1

def totalSize (fragments : List (Fragment α)) : α := (fragments.map Fragment.size).sum

def feeQuantum : ℚ := 1 / 100000

/-- Up to this rate, price and doubled fee move the same way. -/
def maxFeeRate : ℚ := 1 / 2

def Fragment.exactFee (rate : α) (fragment : Fragment α) : α :=
  rate * fragment.price * (1 - fragment.price) * fragment.size

/-- Cost per share that no BUY fragment at this price exceeds: twice the fee. -/
def safeUnitCost (price rate : α) : α := price + ((2 : ℕ) : α) * rate * price * (1 - price)

/-- Proceeds per share that no SELL fragment at this price falls below. -/
def safeUnitProceeds (price rate : α) : α := price - ((2 : ℕ) : α) * rate * price * (1 - price)

section
variable [FloorRing α]

def Fragment.fee (rate : α) (fragment : Fragment α) : α :=
  HalfUp.round feeQuantum (fragment.exactFee rate)

def buyCost (rate : α) (fragments : List (Fragment α)) : α :=
  (fragments.map fun fragment => fragment.size * fragment.price + fragment.fee rate).sum

def sellProceeds (rate : α) (fragments : List (Fragment α)) : α :=
  (fragments.map fun fragment => fragment.size * fragment.price - fragment.fee rate).sum
end

variable {rate limit price : ℝ}

section
variable (nonneg : 0 ≤ rate)

include nonneg

theorem safeUnitCost_mono (small : rate ≤ (maxFeeRate : ℝ)) (below : price ≤ limit)
    (hin : limit ≤ 1) : safeUnitCost price rate ≤ safeUnitCost limit rate := by
  have half : rate ≤ 1 / 2 := by simpa [maxFeeRate] using small
  have slope : 0 ≤ 1 + 2 * rate * (1 - limit - price) := by nlinarith
  have gap : safeUnitCost limit rate - safeUnitCost price rate =
      (limit - price) * (1 + 2 * rate * (1 - limit - price)) := by
    simp only [safeUnitCost, Nat.cast_ofNat]
    ring
  have rises := mul_nonneg (sub_nonneg.mpr below) slope
  linarith

theorem safeUnitProceeds_mono (small : rate ≤ (maxFeeRate : ℝ)) (pos : 0 ≤ limit)
    (above : limit ≤ price) : safeUnitProceeds limit rate ≤ safeUnitProceeds price rate := by
  have half : rate ≤ 1 / 2 := by simpa [maxFeeRate] using small
  have slope : 0 ≤ 1 - 2 * rate * (1 - limit - price) := by nlinarith
  have gap : safeUnitProceeds price rate - safeUnitProceeds limit rate =
      (price - limit) * (1 - 2 * rate * (1 - limit - price)) := by
    simp only [safeUnitProceeds, Nat.cast_ofNat]
    ring
  have rises := mul_nonneg (sub_nonneg.mpr above) slope
  linarith

theorem Fragment.exactFee_nonneg (frag : Fragment ℝ) : 0 ≤ frag.exactFee rate :=
  mul_nonneg (mul_nonneg (mul_nonneg nonneg frag.price_pos.le) (sub_nonneg.mpr frag.price_le_one))
    frag.size_pos.le

theorem Fragment.fee_le (frag : Fragment ℝ) : frag.fee rate ≤ 2 * frag.exactFee rate := by
  have quantum : (0 : ℝ) < feeQuantum := by norm_num [feeQuantum]
  exact HalfUp.round_le_two_mul quantum (frag.exactFee_nonneg nonneg)

theorem Fragment.cost_le (small : rate ≤ (maxFeeRate : ℝ)) (hin : limit ≤ 1)
    (frag : Fragment ℝ) (below : frag.price ≤ limit) :
    frag.size * frag.price + frag.fee rate ≤ frag.size * safeUnitCost limit rate :=
  calc frag.size * frag.price + frag.fee rate
      ≤ frag.size * frag.price + 2 * frag.exactFee rate := by
        gcongr
        exact frag.fee_le nonneg
    _ = frag.size * safeUnitCost frag.price rate := by
        simp only [Fragment.exactFee, safeUnitCost, Nat.cast_ofNat]
        ring
    _ ≤ frag.size * safeUnitCost limit rate :=
        mul_le_mul_of_nonneg_left (safeUnitCost_mono nonneg small below hin) frag.size_pos.le

theorem Fragment.le_proceeds (small : rate ≤ (maxFeeRate : ℝ)) (pos : 0 ≤ limit)
    (frag : Fragment ℝ) (above : limit ≤ frag.price) :
    frag.size * safeUnitProceeds limit rate ≤ frag.size * frag.price - frag.fee rate :=
  calc frag.size * safeUnitProceeds limit rate
      ≤ frag.size * safeUnitProceeds frag.price rate :=
        mul_le_mul_of_nonneg_left (safeUnitProceeds_mono nonneg small pos above) frag.size_pos.le
    _ = frag.size * frag.price - 2 * frag.exactFee rate := by
        simp only [Fragment.exactFee, safeUnitProceeds, Nat.cast_ofNat]
        ring
    _ ≤ frag.size * frag.price - frag.fee rate := by
        gcongr
        exact frag.fee_le nonneg

/-- However a BUY is cut up below its limit, it costs no more than the limit's safe unit cost. -/
theorem buyCost_le (small : rate ≤ (maxFeeRate : ℝ)) (hin : limit ≤ 1)
    {frags : List (Fragment ℝ)} (below : ∀ frag ∈ frags, frag.price ≤ limit) :
    buyCost rate frags ≤ totalSize frags * safeUnitCost limit rate := by
  unfold buyCost totalSize
  rw [← List.sum_map_mul_right]
  exact List.sum_le_sum fun frag mem => frag.cost_le nonneg small hin (below frag mem)

/-- However a SELL is cut up above its floor, it pays no less than the floor's safe unit
proceeds. -/
theorem le_sellProceeds (small : rate ≤ (maxFeeRate : ℝ)) (pos : 0 ≤ limit)
    {frags : List (Fragment ℝ)} (above : ∀ frag ∈ frags, limit ≤ frag.price) :
    totalSize frags * safeUnitProceeds limit rate ≤ sellProceeds rate frags := by
  unfold sellProceeds totalSize
  rw [← List.sum_map_mul_right]
  exact List.sum_le_sum fun frag mem => frag.le_proceeds nonneg small pos (above frag mem)
end

end Zeus.FillFragments
