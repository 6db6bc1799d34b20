import Zeus.Contracts.ExecutableCostCurve

/-! What a decision carries into the fill certificates: its candidate, its size and limit, and the
terminal-wealth certificate of the action. Floats and decimals are real numbers here; the bid ladder
lives in any ordered field. -/

namespace Zeus.GlobalOrder

open CostCurve

def robustEvEpsUsd : ℚ := 1 / 10 ^ 12

/-- `math.isclose(x, 1.0, rel_tol=0.0, abs_tol=1e-12)`. -/
def closeToOne (x : ℝ) : Prop := |x - 1| ≤ ((1 / 10 ^ 12 : ℚ) : ℝ)

/-- The two branches a terminal-wealth certificate is about. Each certificate class checks these
bounds when it is built. -/
structure TerminalWealth where
  (winProbability lossProbability lossPayoffUsd winPayoffUsd wealthAfterLossUsd
      wealthAfterWinUsd : ℝ)
  win_mem : winProbability ∈ Set.Icc (0 : ℝ) 1
  loss_mem : lossProbability ∈ Set.Icc (0 : ℝ) 1
  lossPayoff_neg : lossPayoffUsd < 0
  winPayoff_pos : 0 < winPayoffUsd
  wealthAfterLoss_nonneg : 0 ≤ wealthAfterLossUsd
  winBaseline_nonneg : 0 ≤ wealthAfterWinUsd - winPayoffUsd

structure Branches where
  (winProbability lossProbability lossBaseline winBaseline : ℝ)

/-- The baselines are what is left when the payoffs are taken back. -/
def TerminalWealth.branches (wealth : TerminalWealth) : Branches where
  winProbability := wealth.winProbability
  lossProbability := wealth.lossProbability
  lossBaseline := wealth.wealthAfterLossUsd - wealth.lossPayoffUsd
  winBaseline := wealth.wealthAfterWinUsd - wealth.winPayoffUsd

inductive Terminal where
  | binary (wealth : TerminalWealth)
  | expectedSell (wealth : TerminalWealth)
  | expectedBuy (wealth : TerminalWealth)

def Terminal.branches : Terminal → Branches
  | .binary wealth => wealth.branches
  | .expectedSell wealth => wealth.branches
  | .expectedBuy wealth => wealth.branches

inductive ExpectedTerminal where
  | sell (wealth : TerminalWealth)
  | buy (wealth : TerminalWealth)

def ExpectedTerminal.terminal : ExpectedTerminal → Terminal
  | .sell wealth => .expectedSell wealth
  | .buy wealth => .expectedBuy wealth

section
variable {α : Type*} [Field α] [LinearOrder α]

structure ExecutableSellCurve (α : Type*) [Field α] [LinearOrder α] where
  levels : List (BidBookLevel α)
  feeModel : FeeModel α
  (minTick minOrderSize : α)
  levels_ne_nil : levels ≠ []
  minTick_pos : 0 < minTick
  minOrderSize_pos : 0 < minOrderSize
  onGrid : ∀ level ∈ levels, ∃ ticks : ℤ, |level.price / minTick - ticks| ≤ (gridEps : α)
  bestFirst : levels.Pairwise fun better worse => worse.price ≤ better.price

def ExecutableSellCurve.netPrice (curve : ExecutableSellCurve α) (price : α) : α :=
  price - curve.feeModel.feePerShare price

structure SellWalk (α : Type*) where
  (remaining net gross limit : α)

/-- The loop of `proceeds_for_shares`. -/
def ExecutableSellCurve.walk (curve : ExecutableSellCurve α) :
    List (BidBookLevel α) → SellWalk α → SellWalk α
  | [], walked => walked
  | level :: rest, walked =>
    let take := min walked.remaining level.size
    if take ≤ 0 then curve.walk rest walked
    else
      let next : SellWalk α := {
        remaining := walked.remaining - take
        net := walked.net + take * curve.netPrice level.price
        gross := walked.gross + take * level.price
        limit := level.price }
      if next.remaining ≤ (depthEps : α) then next else curve.walk rest next

inductive SellDepthError where
  | sharesNotPositive | depthCannotFill
  deriving DecidableEq

/-- `proceeds_for_shares`: net proceeds, gross average price and the deepest bid touched. -/
def ExecutableSellCurve.proceedsForShares (curve : ExecutableSellCurve α) (shares : α) :
    Except SellDepthError (α × α × α) :=
  if shares ≤ 0 then .error .sharesNotPositive
  else
    let walked := curve.walk curve.levels ⟨shares, 0, 0, 0⟩
    if (depthEps : α) < walked.remaining then .error .depthCannotFill
    else .ok (walked.net, walked.gross / shares, walked.limit)

/-- `LIVE_ORDER_MIN_UNIT_PRICE` and `LIVE_ORDER_MAX_UNIT_PRICE`. -/
def liveOrderMinUnitPrice : ℚ := 5 / 100

def liveOrderMaxUnitPrice : ℚ := 95 / 100

def LiveUnitPriceInBand (price : α) : Prop :=
  (liveOrderMinUnitPrice : α) ≤ price ∧ price ≤ (liveOrderMaxUnitPrice : α)

instance (price : α) : Decidable (LiveUnitPriceInBand price) :=
  inferInstanceAs (Decidable (_ ∧ _))

/-- `_live_sell_limit_price`: the deepest bid, floored to the tick grid. -/
def liveSellLimitPrice [FloorRing α] (bestBid deepestBid minTick : α) : Option α :=
  if ¬ LiveUnitPriceInBand bestBid ∨ ¬ LiveUnitPriceInBand deepestBid ∨ bestBid < deepestBid then
    none
  else
    let aligned : α := ⌊deepestBid / minTick⌋ * minTick
    if LiveUnitPriceInBand aligned then some aligned else none

theorem inBand_of_liveSellLimitPrice [FloorRing α] {bestBid deepestBid minTick limit : α}
    (floor : liveSellLimitPrice bestBid deepestBid minTick = some limit) :
    LiveUnitPriceInBand limit := by
  simp only [liveSellLimitPrice] at floor
  split_ifs at floor with refused inBand
  cases floor
  exact inBand
end

inductive ExecutionMode where
  | makerRest | takerLimit
  deriving DecidableEq

structure BuyCandidate where
  (executableCostCurve proposalCostCurve : Option (ExecutableCostCurve ℝ))
  executionCurveIdentity : String
  executionMode : ExecutionMode

/-- `economic_cost_curve`: the proposal if there is one. -/
def BuyCandidate.economicCostCurve (candidate : BuyCandidate) : Option (ExecutableCostCurve ℝ) :=
  candidate.proposalCostCurve.orElse fun _ => candidate.executableCostCurve

structure SellCandidate where
  executableSellCurve : ExecutableSellCurve ℝ
  proposalSellCurve : Option (ExecutableSellCurve ℝ)
  executionMode : ExecutionMode

inductive Candidate where
  | buy (candidate : BuyCandidate)
  | sell (candidate : SellCandidate)

structure Decision where
  candidate : Option Candidate
  terminalWealth : Option TerminalWealth
  expectedTerminalWealth : Option ExpectedTerminal
  (shares limitPrice : ℝ)

/-- `decision.terminal_wealth or decision.expected_terminal_wealth`. -/
def Decision.terminal (decision : Decision) : Option Terminal :=
  match decision.terminalWealth with
  | some wealth => some (.binary wealth)
  | none => decision.expectedTerminalWealth.map ExpectedTerminal.terminal

def Decision.expectedBuyBasis (decision : Decision) : Bool :=
  match decision.expectedTerminalWealth with
  | some (.buy _) => true
  | _ => false

noncomputable def sampleBuyCurve : ExecutableCostCurve ℝ where
  levels := [⟨(1 / 2 : ℚ), (10 : ℚ), by norm_num, by norm_num, by norm_num⟩]
  feeModel := ⟨(1 / 10 : ℚ), by norm_num, by norm_num⟩
  minTick := (1 / 100 : ℚ)
  minOrderSize := (1 : ℚ)
  levels_ne_nil := List.cons_ne_nil _ _
  minTick_pos := by norm_num
  minOrderSize_pos := by norm_num
  onGrid := by
    intro level member
    rw [List.mem_singleton.mp member]
    exact ⟨50, by norm_num [gridEps]⟩
  cheapestFirst := List.pairwise_singleton _ _

noncomputable def sampleBuyCandidate : BuyCandidate :=
  ⟨some sampleBuyCurve, none, "curve", .takerLimit⟩

end Zeus.GlobalOrder
