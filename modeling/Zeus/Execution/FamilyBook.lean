import Zeus.Lib.CheckedFold
import Zeus.Lib.KeyedTable
import Zeus.Probability.OutcomeSpace

/-! One native book for each sibling market, the walk that prices an order on one side of it, and
the payoff of a claim over the outcome space. Prices, sizes and fees are exact rationals. -/

namespace Zeus.NegRisk

open Refusal Zeus.Probability

structure QuoteLevel where
  (price size : ℚ)

inductive LadderSide where
  | ask | bid

structure ExecutableLadder (side : LadderSide) where
  levels : List QuoteLevel
  (feeRate minTickSize minOrderSize : ℚ)

structure MarketBook where
  (conditionId binId yesTokenId noTokenId : String)
  yesAsks : ExecutableLadder .ask
  yesBids : ExecutableLadder .bid
  noAsks : ExecutableLadder .ask
  noBids : ExecutableLadder .bid
  negRisk : Bool

structure NativeQuoteBook where
  (yesAsks noAsks yesBids noBids : List QuoteLevel)
  (minTickSize minOrderSize feeRate : ℚ)

/-- `native_quote_book`: tick, minimum and fee are those of the YES asks. -/
def MarketBook.nativeQuoteBook (market : MarketBook) : NativeQuoteBook where
  yesAsks := market.yesAsks.levels
  noAsks := market.noAsks.levels
  yesBids := market.yesBids.levels
  noBids := market.noBids.levels
  minTickSize := market.yesAsks.minTickSize
  minOrderSize := market.yesAsks.minOrderSize
  feeRate := market.yesAsks.feeRate

/-- The sibling markets of a family by bin; each bin of a market is one of the family. -/
structure FamilyBook where
  omega : OutcomeSpace ℚ
  markets : KeyedTable MarketBook.binId
  completeBook : Bool
  siblings : ∀ market ∈ markets.rows, market.binId ∈ omega.bins.map OutcomeBin.binId
  complete_iff : completeBook = true ↔ ∀ bin ∈ omega.bins, (markets.find bin.binId).isSome

def FamilyBook.binIds (book : FamilyBook) : List String := book.omega.bins.map OutcomeBin.binId

inductive Direction where
  | buyYes | buyNo | sellYes | sellNo
  deriving DecidableEq

def Direction.isBuy : Direction → Bool
  | .buyYes | .buyNo => true
  | .sellYes | .sellNo => false

inductive LeafError where
  | belowMinOrderSize | tickSizeMismatch | noDepth | zeroTick | priceNotProbability
  | feePriceNotInside
  deriving DecidableEq

/-- Which exceptions `_leg_cost` turns into a missing price. -/
def LeafError.isExecutableCostError : LeafError → Bool
  | .belowMinOrderSize | .tickSizeMismatch | .noDepth => true
  | .zeroTick | .priceNotProbability | .feePriceNotInside => false

def executionPrice (value : ℚ) : Except LeafError ℚ :=
  if value < 0 ∨ 1 < value then .error .priceNotProbability else .ok value

def polymarketFee (price feeRate : ℚ) : Except LeafError ℚ :=
  if price ≤ 0 ∨ 1 ≤ price then .error .feePriceNotInside else .ok (feeRate * price * (1 - price))

def NativeQuoteBook.levelsForDirection (book : NativeQuoteBook) : Direction → List QuoteLevel
  | .buyYes => book.yesAsks
  | .buyNo => book.noAsks
  | .sellYes => book.yesBids
  | .sellNo => book.noBids

def assertTickCompatible (price tick : ℚ) : Except LeafError Unit :=
  if tick = 0 then .error .zeroTick
  else if (price / tick).den = 1 then .ok () else .error .tickSizeMismatch

/-- The loop of `_book_walk_average`: it stops at the level that fills the order. -/
def bookWalk (tick shares : ℚ) : List QuoteLevel → ℚ → ℚ → Except LeafError ℚ
  | [], _, _ => .error .noDepth
  | level :: rest, remaining, cost => do
      assertTickCompatible level.price tick
      let take := min remaining level.size
      let cost := cost + take * level.price
      let remaining := remaining - take
      if remaining ≤ 0 then return cost / shares else bookWalk tick shares rest remaining cost

/-- `executable_cost`: the average price of the walk, with the taker fee. -/
def executableCost (book : NativeQuoteBook) (direction : Direction) (shares : ℚ) :
    Except LeafError ℚ := do
  guardBy (require (book.minOrderSize ≤ shares) .belowMinOrderSize)
  let average ← bookWalk book.minTickSize shares (book.levelsForDirection direction) shares 0
  let raw ← executionPrice average
  let fee ← polymarketFee raw book.feeRate
  if direction.isBuy then executionPrice (raw + fee) else executionPrice (max (raw - fee) 0)

inductive ClaimSide where
  | yes | no
  deriving DecidableEq

structure Instrument where
  (instrumentId binId : String)
  side : ClaimSide
  directTokenId : Option String

/-- `_bin_index`: the first position of the id. -/
def binIndex (omega : OutcomeSpace ℚ) (binId : String) : Option ℕ :=
  omega.bins.findIdx? fun bin => bin.binId = binId

/-- `payoff_vector`: one at the bin for a YES, and one everywhere else for a NO. -/
def Instrument.payoffVector (instrument : Instrument) (omega : OutcomeSpace ℚ) : Option (List ℚ) :=
  (binIndex omega instrument.binId).map fun index => match instrument.side with
    | .yes => (List.replicate omega.bins.length 0).set index 1
    | .no => (List.replicate omega.bins.length 1).set index 0

def Instrument.payoff (instrument : Instrument) (omega : OutcomeSpace ℚ) (settled : ℕ) : ℚ :=
  ((instrument.payoffVector omega).bind (·[settled]?)).getD 0

def SettlesAt (omega : OutcomeSpace ℚ) (degrees : ℤ) (settled : ℕ) : Prop :=
  ∃ bins, omega.topologyBins = .ok bins ∧ ∃ bin ∈ bins[settled]?, bin.contains (degrees : ℚ)

def IsMece (omega : OutcomeSpace ℚ) : Prop :=
  ∃ bins, omega.topologyBins = .ok bins ∧ Zeus.Market.Partitions bins

end Zeus.NegRisk
