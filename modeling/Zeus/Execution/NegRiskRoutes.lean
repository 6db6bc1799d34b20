import Zeus.Execution.FamilyBook

/-! Every way to acquire a claim at one size: the direct orders, the basket of sibling YES that
stands for a NO, and the two arbitrages. -/

namespace Zeus.NegRisk

open Refusal Zeus.Probability

inductive RouteType where
  | directYes | directNo | syntheticNotIYesBasket | pairArb | fullYesBasketArb
  deriving DecidableEq

inductive RouteReason where
  | noDepthDirect (direction : Direction) (binId : String)
  | noDepthPair (direction : Direction) (binId : String)
  | noDepthLeg (legBinId : String)
  | incompleteBasket (missing : List String)
  | basketCostOverUnity (cost : ℚ)
  | noPairArb (combined : ℚ)
  | noFullBasketArb (total : ℚ)
  deriving DecidableEq

structure RouteLeg where
  (conditionId binId tokenId : String)
  direction : Direction
  (shares legCost : ℚ)

structure RouteCost where
  routeType : RouteType
  instrument : Instrument
  (shares avgCost maxShares : ℚ)
  legs : List RouteLeg
  executable : Bool
  reason : Option RouteReason

inductive RouteError where
  | nonPositiveShares
  | noRouteForBin (binId : String)
  | noMarket (binId : String)
  | leaf (error : LeafError)
  deriving DecidableEq

/-- `_leg_cost`: nothing where the ladder cannot fill the order. -/
def legCost (market : MarketBook) (direction : Direction) (shares : ℚ) :
    Except RouteError (Option ℚ) :=
  match executableCost market.nativeQuoteBook direction shares with
  | .ok cost => .ok (some cost)
  | .error error => if error.isExecutableCostError then .ok none else .error (.leaf error)

def maxDepthShares (ladder : ExecutableLadder .ask) : ℚ := (ladder.levels.map QuoteLevel.size).sum

def minDepth (depths : List ℚ) : ℚ := depths.min?.getD 0

namespace FamilyBook

variable (book : FamilyBook)

def market (binId : String) : Except RouteError MarketBook :=
  (book.markets.find binId).elim (.error (.noMarket binId)) .ok

def directRoute (routeType : RouteType) (side : ClaimSide) (direction : Direction)
    (tokenOf : MarketBook → String)
    (asksOf : MarketBook → ExecutableLadder .ask) (instrumentId binId : String) (shares : ℚ) :
    Except RouteError RouteCost := do
  let market ← book.market binId
  let route : RouteCost := {
    routeType, shares, instrument := ⟨instrumentId, binId, side, some (tokenOf market)⟩,
    avgCost := 0
    maxShares := maxDepthShares (asksOf market), legs := [], executable := false
    reason := some (.noDepthDirect direction binId) }
  match ← legCost market direction shares with
  | none => return route
  | some cost => return { route with
      avgCost := cost
      legs := [⟨market.conditionId, binId, tokenOf market, direction, shares, cost⟩]
      executable := true, reason := none }

def directYesRoute (binId : String) (shares : ℚ) : Except RouteError RouteCost :=
  book.directRoute .directYes .yes .buyYes MarketBook.yesTokenId MarketBook.yesAsks
    ("YES:" ++ binId) binId shares

def directNoRoute (binId : String) (shares : ℚ) : Except RouteError RouteCost :=
  book.directRoute .directNo .no .buyNo MarketBook.noTokenId MarketBook.noAsks ("NO:" ++ binId)
    binId shares

structure Basket where
  legs : List RouteLeg
  total : ℚ
  depths : List ℚ

def Basket.empty : Basket := ⟨[], 0, []⟩

inductive BasketWalk where
  | filled (basket : Basket)
  | starved (legBinId : String) (depths : List ℚ)

/-- The loop over the siblings of a basket: equal shares of each YES, up to the first that cannot
fill. -/
def walkBasket (shares : ℚ) : List String → Basket → Except RouteError BasketWalk
  | [], basket => return .filled basket
  | binId :: rest, basket => do
      let market ← book.market binId
      let cost ← legCost market .buyYes shares
      let depths := basket.depths ++ [maxDepthShares market.yesAsks]
      match cost with
      | none => return .starved binId depths
      | some cost => walkBasket shares rest {
          legs :=
            basket.legs ++ [⟨market.conditionId, binId, market.yesTokenId, .buyYes, shares, cost⟩]
          total := basket.total + cost
          depths }

/-- `_synthetic_not_i_route`: none for a market that is not neg-risk. -/
def syntheticNotIRoute (binId : String) (shares : ℚ) : Except RouteError (Option RouteCost) := do
  let target ← book.market binId
  if target.negRisk = false then return none
  let siblings := book.binIds.filter (· ≠ binId)
  let missing := siblings.filter fun sibling => (book.markets.find sibling).isNone
  let route : RouteCost := {
    routeType := .syntheticNotIYesBasket, shares, instrument := ⟨"NO:" ++ binId, binId, .no, none⟩
    avgCost := 0, maxShares := 0, legs := [], executable := false,
    reason := some (.incompleteBasket missing) }
  if missing ≠ [] then return some route
  match ← book.walkBasket shares siblings .empty with
  | .starved leg depths =>
    return some { route with maxShares := minDepth depths, reason := some (.noDepthLeg leg) }
  | .filled basket =>
    if 1 < basket.total then return some { route with
      maxShares := minDepth basket.depths, legs := basket.legs
      reason := some (.basketCostOverUnity basket.total) }
    else return some { route with
      avgCost := basket.total, maxShares := minDepth basket.depths, legs := basket.legs
      executable := true, reason := none }

/-- `_pair_arb_route`: YES and NO of one bin. -/
def pairArbRoute (binId : String) (shares : ℚ) : Except RouteError RouteCost := do
  let market ← book.market binId
  let yesCost ← legCost market .buyYes shares
  let noCost ← legCost market .buyNo shares
  let route : RouteCost := {
    routeType := .pairArb, shares,
    instrument := ⟨"PAIR:" ++ binId, binId, .yes, some market.yesTokenId⟩
    avgCost := 0, maxShares := 0, legs := [], executable := false
    reason := some (.noDepthPair (if yesCost = none then .buyYes else .buyNo) binId) }
  match yesCost, noCost with
  | some yesCost, some noCost =>
    let combined := yesCost + noCost
    return { route with
      avgCost := if combined ≤ 1 then combined else 1
      maxShares := min (maxDepthShares market.yesAsks) (maxDepthShares market.noAsks)
      legs := [⟨market.conditionId, binId, market.yesTokenId, .buyYes, shares, yesCost⟩,
        ⟨market.conditionId, binId, market.noTokenId, .buyNo, shares, noCost⟩]
      executable := decide (combined < 1)
      reason := if combined < 1 then none else some (.noPairArb combined) }
  | _, _ => return route

/-- `_full_yes_basket_arb_route`: the YES of every bin; none for a family without bins. -/
def fullYesBasketArbRoute (shares : ℚ) : Except RouteError (Option RouteCost) := do
  match book.binIds with
  | [] => return none
  | firstBinId :: _ =>
    let route : RouteCost := {
      routeType := .fullYesBasketArb, shares
      instrument := ⟨"FULL_YES_BASKET", firstBinId, .yes,
        (book.markets.find firstBinId).map MarketBook.yesTokenId⟩
      avgCost := 0, maxShares := 0, legs := [], executable := false
      reason := some (.incompleteBasket
          (book.binIds.filter fun binId => (book.markets.find binId).isNone)) }
    if book.completeBook = false then return some route
    match ← book.walkBasket shares book.binIds .empty with
    | .starved leg depths =>
      return some { route with maxShares := minDepth depths, reason := some (.noDepthLeg leg) }
    | .filled basket => return some { route with
        avgCost := if basket.total ≤ 1 then basket.total else 1
        maxShares := minDepth basket.depths, legs := basket.legs
        executable := decide (basket.total < 1)
        reason := if basket.total < 1 then none else some (.noFullBasketArb basket.total) }

end FamilyBook

/-- The routes of a family by bin; a bin id that stands twice has one route. -/
structure NegRiskRouteSet where
  (directYes directNo syntheticNotI : List (String × RouteCost))
  (pairArbs fullBasketArbs : List RouteCost)

structure BinRoutes where
  binId : String
  (directYes directNo : RouteCost)
  (syntheticNotI pairArb : Option RouteCost)

def FamilyBook.binRoutes (book : FamilyBook) (shares : ℚ) (enableNegriskRoutes : Bool)
    (binId : String) : Except RouteError BinRoutes := do
  let directYes ← book.directYesRoute binId shares
  let directNo ← book.directNoRoute binId shares
  if enableNegriskRoutes then
    let syntheticNotI ← book.syntheticNotIRoute binId shares
    let pairArb ← book.pairArbRoute binId shares
    return ⟨binId, directYes, directNo, syntheticNotI, some pairArb⟩
  else return ⟨binId, directYes, directNo, none, none⟩

def buildNegriskRouteSet (book : FamilyBook) (shares : ℚ) (enableNegriskRoutes : Bool) :
    Except RouteError NegRiskRouteSet := do
  guardBy (require (0 < shares) .nonPositiveShares)
  let present := book.binIds.filter fun binId => (book.markets.find binId).isSome
  let routes ← present.mapM (book.binRoutes shares enableNegriskRoutes)
  let full ← if enableNegriskRoutes then book.fullYesBasketArbRoute shares else pure none
  return {
    directYes := routes.map fun row => (row.binId, row.directYes)
    directNo := routes.map fun row => (row.binId, row.directNo)
    syntheticNotI :=
      routes.filterMap fun row => row.syntheticNotI.map fun route => (row.binId, route)
    pairArbs := routes.filterMap BinRoutes.pairArb
    fullBasketArbs := full.toList }

/-- `best_no_route`: the first of the cheapest executable routes, or the direct one. -/
def NegRiskRouteSet.bestNoRoute (routes : NegRiskRouteSet) (binId : String) :
    Except RouteError RouteCost := do
  let direct ← (routes.directNo.lookup binId).elim (.error (.noRouteForBin binId)) .ok
  match [some direct, routes.syntheticNotI.lookup binId].reduceOption.filter
    RouteCost.executable with
  | [] => return direct
  | first :: rest =>
    return rest.foldl (fun best route => if route.avgCost < best.avgCost then route else best) first

end Zeus.NegRisk
