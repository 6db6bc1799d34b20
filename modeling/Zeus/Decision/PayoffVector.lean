import Zeus.Contracts.ExecutableCostCurve
import Zeus.Lib.Quantile
import Zeus.Lib.Refusal

/-! Masses, stakes and the search live in an arbitrary ordered field; the log growth is over the
reals. A float that is not finite is `⊥`. -/

namespace Zeus.PayoffVector

open CostCurve Quantile Refusal

inductive PayoffError where
  | candidateNotTradeable | candidateBinNotOutcome
  | matrixBinNotInOmega (outcome : String)
  | columnOutOfRange | noOtherOutcome | degenerateGuard | guardedPiDegenerate
  | noExposureBaseline (outcome : String)
  | degenerateAlpha
  deriving DecidableEq

inductive Side where
  | yes | no
  deriving DecidableEq

def outsideOutcome : String := "__OUTSIDE__"

structure FamilyPayoffMatrix where
  outcomes : List String
  outside_mem : outsideOutcome ∈ outcomes
  nodup : outcomes.Nodup

def FamilyPayoffMatrix.bins (matrix : FamilyPayoffMatrix) : List String :=
  matrix.outcomes.filter (· ≠ outsideOutcome)

section
variable (α : Type) [Field α] [LinearOrder α]

structure NativeSideCandidate where
  binId : String
  side : Side
  qLcb : Option (Set.Icc (0 : α) 1)
  executableCostCurve : Option (ExecutableCostCurve α)
  isTradeable : Bool
  tradeable_qLcb : isTradeable = true → qLcb ≠ none
  tradeable_curve : isTradeable = true → executableCostCurve ≠ none

/-- Wealth by outcome, positive where it is known. -/
structure PortfolioExposureVector where
  wealth : String → Option (Set.Ioi (0 : α))

structure Draw (width : ℕ) where
  masses : List α
  length_eq : masses.length = width
  nonneg : ∀ mass ∈ masses, 0 ≤ mass

structure JointQBand where
  width : ℕ
  samples : List (Draw α width)
  alpha : α

structure Law where
  mass : String → α
  nonneg : ∀ outcome, 0 ≤ mass outcome
end

variable {α : Type} [Field α] [LinearOrder α]

def PortfolioExposureVector.a (exposure : PortfolioExposureVector α) (outcome : String) :
    Except PayoffError (Set.Ioi (0 : α)) :=
  (exposure.wealth outcome).elim (.error (.noExposureBaseline outcome)) .ok

/-- `_candidate_wins`: YES wins on its own bin, NO on every other outcome. -/
def candidateWins (candidate : NativeSideCandidate α) (outcome : String) : Bool :=
  match candidate.side with
  | .yes => outcome == candidate.binId
  | .no => outcome != candidate.binId

/-- Position of a bin in the outcome space; a later bin of the same id wins. -/
def binIndex (omega : List String) (outcome : String) : Option ℕ :=
  omega.zipIdx.reverse.lookup outcome

def Draw.binMass {width : ℕ} (draw : Draw α width) (omega : List String) (outcome : String) : α :=
  (binIndex omega outcome).elim 0 fun column => draw.masses.getD column 0

theorem Draw.binMass_nonneg {width : ℕ} (draw : Draw α width) (omega : List String) (out : String) :
    0 ≤ draw.binMass omega out := by
  unfold Draw.binMass
  cases binIndex omega out with
  | none => exact le_rfl
  | some column =>
    rw [Option.elim_some]
    rcases lt_or_ge column draw.masses.length with hin | outside
    · rw [List.getD_eq_getElem _ _ hin]
      exact draw.nonneg _ (List.getElem_mem hin)
    · exact (List.getD_eq_default _ _ outside).ge

def Draw.law {width : ℕ} (draw : Draw α width) (omega : List String) (matrix : FamilyPayoffMatrix) :
    Law α where
  mass outcome :=
    if outcome = outsideOutcome then max 0 (1 - (matrix.bins.map (draw.binMass omega)).sum)
    else draw.binMass omega outcome
  nonneg outcome := by
    split
    · exact le_max_left _ _
    · exact draw.binMass_nonneg omega outcome

section
variable [IsStrictOrderedRing α]

def complement (q : Set.Icc (0 : α) 1) : Set.Icc (0 : α) 1 :=
  ⟨1 - q, sub_nonneg.mpr q.2.2, sub_le_self 1 q.2.1⟩

/-- Own mass set, the other outcomes scaled to the other mass, or sharing it if they had none. -/
def Law.reanchor (law : Law α) (own : String) (others : List String)
    (ownMass otherMass : Set.Icc (0 : α) 1) : Law α where
  mass outcome :=
    if outcome = own then ownMass
    else if 0 < (others.map law.mass).sum then
      law.mass outcome * (otherMass / (others.map law.mass).sum)
    else otherMass / others.length
  nonneg outcome := by
    split_ifs with isOwn some
    · exact ownMass.2.1
    · exact mul_nonneg (law.nonneg outcome) (div_nonneg otherMass.2.1 some.le)
    · exact div_nonneg otherMass.2.1 (Nat.cast_nonneg _)

def Law.total (law : Law α) (outcomes : List String) : α := (outcomes.map law.mass).sum

def piTolerance : ℚ := 1 / 10 ^ 12

/-- Divide by the total where it is visibly not one. -/
def Law.renormalize (law : Law α) (outcomes : List String) : Law α where
  mass outcome :=
    if (piTolerance : α) < |law.total outcomes - 1| then law.mass outcome / law.total outcomes
    else law.mass outcome
  nonneg outcome := by
    have total : 0 ≤ law.total outcomes := List.sum_nonneg fun mass member => by
      obtain ⟨outcome, -, rfl⟩ := List.mem_map.mp member
      exact law.nonneg outcome
    split_ifs
    · exact div_nonneg (law.nonneg outcome) total
    · exact law.nonneg outcome

def validateGuardedPayoffQLcb (guarded : Option α) :
    Except PayoffError (Option (Set.Icc (0 : α) 1)) :=
  match guarded with
  | none => .ok none
  | some q => if inside : 0 ≤ q ∧ q ≤ 1 then .ok (some ⟨q, inside⟩) else .error .degenerateGuard

/-- `_candidate_pi_matrix`: a NO candidate, or a guarded one, is re-anchored to its own bound. -/
def candidatePiMatrix (candidate : NativeSideCandidate α) (band : JointQBand α)
    (omega : List String)
    (matrix : FamilyPayoffMatrix) (guarded : Option α) : Except PayoffError (List (Law α)) := do
  let qLcb ← (candidate.qLcb.filter fun _ => candidate.isTradeable).elim
    (.error .candidateNotTradeable) .ok
  guardBy (require (candidate.binId ∈ matrix.outcomes) .candidateBinNotOutcome)
  guardBy ((matrix.bins.find? fun outcome => (binIndex omega outcome).isNone).map
      .matrixBinNotInOmega)
  guardBy (require (∀ outcome ∈ matrix.bins, ∀ column ∈ binIndex omega outcome, column < band.width)
    .columnOutOfRange)
  let laws := band.samples.map fun draw => draw.law omega matrix
  let guard ← validateGuardedPayoffQLcb guarded
  if candidate.side = .yes ∧ guard = none then return laws
  let others := matrix.outcomes.filter (· ≠ candidate.binId)
  guardBy (require (others ≠ []) .noOtherOutcome)
  let winMass := guard.getD qLcb
  let ownMass := if candidate.side = .yes then winMass else complement winMass
  let otherMass := if candidate.side = .yes then complement winMass else winMass
  let anchored := laws.map fun law => law.reanchor candidate.binId others ownMass otherMass
  if guard = none then return anchored
  guardBy (require (∀ law ∈ anchored, 0 < law.total matrix.outcomes) .guardedPiDegenerate)
  return anchored.map fun law => law.renormalize matrix.outcomes

inductive TermError where
  | stakeNotPositive | candidateNotTradeable
  | curve (error : CurveError)
  | costOutsideUnitInterval
  deriving DecidableEq

def allInCost (curve : ExecutableCostCurve α) (stakeUsd : α) : Except TermError α := do
  let cost ← (curve.avgCost stakeUsd false).mapError .curve
  guardBy (require (0 < cost ∧ cost < 1) .costOutsideUnitInterval)
  return cost

/-- `_candidate_payoff_terms`: what a stake wins and what it loses. -/
def payoffTerms (candidate : NativeSideCandidate α) (stakeUsd : α) : Except TermError (α × α) := do
  guardBy (require (0 < stakeUsd) .stakeNotPositive)
  let curve ← (candidate.executableCostCurve.filter fun _ => candidate.isTradeable).elim
    (.error .candidateNotTradeable) .ok
  let cost ← allInCost curve stakeUsd
  return (stakeUsd * (1 - cost) / cost, -stakeUsd)

section
variable (α)

/-- What does not depend on the stake: wealth by outcome, the law of every draw and the level. -/
structure PreparedSizing where
  candidate : NativeSideCandidate α
  alpha : Set.Ioo (0 : α) 1
  holdings : List (String × Set.Ioi (0 : α))
  laws : List (Law α)
end

def resolveAlpha (band : JointQBand α) (alpha : Option α) :
    Except PayoffError (Set.Ioo (0 : α) 1) :=
  let level := alpha.getD band.alpha
  if inside : 0 < level ∧ level < 1 then .ok ⟨level, inside⟩ else .error .degenerateAlpha

/-- `_PreparedSizing.__init__`. -/
def prepareSizing (candidate : NativeSideCandidate α) (band : JointQBand α) (omega : List String)
    (matrix : FamilyPayoffMatrix) (exposure : PortfolioExposureVector α) (alpha : Set.Ioo (0 : α) 1)
    (guarded : Option α) : Except PayoffError (PreparedSizing α) := do
  let _ ← validateGuardedPayoffQLcb guarded
  let wealth ← matrix.outcomes.mapM exposure.a
  let laws ← candidatePiMatrix candidate band omega matrix guarded
  return ⟨candidate, alpha, matrix.outcomes.zip wealth, laws⟩

/-- `_feasible_stake_bounds`: the minimum order at the best price, up to the whole book. -/
def feasibleStakeBounds (candidate : NativeSideCandidate α) (maxStakeUsd : Option α) :
    Option (α × α) :=
  match candidate.executableCostCurve with
  | none => none
  | some curve =>
    let fullNotional :=
      (curve.levels.map fun level => curve.feeModel.allInPrice level.price * level.size).sum
    let hi := maxStakeUsd.elim fullNotional fun cap => min fullNotional cap
    let best := curve.levels.head curve.levels_ne_nil
    let lo := curve.feeModel.allInPrice best.price * curve.minOrderSize
    if lo ≤ 0 ∨ hi ≤ 0 ∨ hi < lo then none else some (lo, hi)

def uniformStakeGrid (lo hi : α) (steps : ℕ) : List α :=
  (List.range (steps + 1)).map fun index : ℕ => lo + (hi - lo) * (index : α) / (steps : α)

/-- The loop of `_local_maximum_indexes` over plateaus of equal values. -/
def plateauMaxima (left : WithBot α) (index : ℕ) : List (List (WithBot α)) → List ℕ
  | [] => []
  | plateau :: rest =>
    let value := plateau.headD ⊥
    let right := (rest.head?.bind List.head?).getD ⊥
    let peak :=
      if value ≠ ⊥ ∧ left ≤ value ∧ right ≤ value then [(index + (index + plateau.length - 1)) / 2]
      else []
    peak ++ plateauMaxima value (index + plateau.length) rest

/-- `_local_maximum_indexes`: the middle of every plateau that its neighbours do not exceed. -/
def localMaximumIndexes (values : List (WithBot α)) : List ℕ :=
  plateauMaxima ⊥ 0 (values.splitBy (· == ·))

example : localMaximumIndexes [(1 : WithBot ℚ), 2, 2, 2, ⊥, 0, 3] = [2, 6] := by decide +kernel

structure Best (α : Type) where
  utility : WithBot α
  stake : α

def recordBest (robust : α → WithBot α) (best : Best α) (stakes : List α) : Best α :=
  stakes.foldl (fun best stake =>
      if best.utility < robust stake then ⟨robust stake, stake⟩ else best) best

def spansAround (robust : α → WithBot α) (stakes : List α) : List (α × α) :=
  (localMaximumIndexes (stakes.map robust)).map fun index =>
    (stakes.getD (index - 1) 0, stakes.getD (min (stakes.length - 1) (index + 1)) 0)

def sortedSpans (spans : List (α × α)) : List (α × α) :=
  spans.dedup.insertionSort fun left right => left.1 < right.1 ∨ left.1 = right.1 ∧ left.2 ≤ right.2

def coarseSteps : ℕ := 200

def refineSteps : ℕ := 64

def refinePasses : ℕ := 3

def refineSpans (robust : α → WithBot α) (spans : List (α × α)) (best : Best α) :
    Best α × List (α × α) :=
  (sortedSpans spans).foldl (fun found span => if span.2 ≤ span.1 then found
    else
      let stakes := uniformStakeGrid span.1 span.2 refineSteps
      (recordBest robust found.1 stakes, found.2 ++ spansAround robust stakes)) (best, [])

def refine (robust : α → WithBot α) : ℕ → List (α × α) → Best α → Best α
  | 0, _, best => best
  | passes + 1, spans, best =>
    let found := refineSpans robust spans best
    if found.2 = [] then found.1 else refine robust passes found.2 found.1

def depthBreakpoints (curve : ExecutableCostCurve α) (lo hi : α) : List α :=
  let notionals := curve.levels.map fun level => curve.feeModel.allInPrice level.price * level.size
  (notionals.scanl (· + ·) 0).tail.filter fun cumulative => lo < cumulative ∧ cumulative < hi

def searchStakes (robust : α → WithBot α) (curve : ExecutableCostCurve α) (lo hi : α) : Best α :=
  let stakes :=
    (uniformStakeGrid lo hi coarseSteps ++ depthBreakpoints curve lo hi).dedup.insertionSort (· ≤ ·)
  refine robust refinePasses (spansAround robust stakes) (recordBest robust ⟨⊥, 0⟩ stakes)
end

noncomputable section

def settled (candidate : NativeSideCandidate ℝ) (terms : ℝ × ℝ)
    (holding : String × Set.Ioi (0 : ℝ)) : ℝ :=
  holding.2 + if candidateWins candidate holding.1 then terms.1 else terms.2

def outcomeGrowth (candidate : NativeSideCandidate ℝ) (terms : ℝ × ℝ)
    (holding : String × Set.Ioi (0 : ℝ)) : ℝ :=
  if settled candidate terms holding ≤ 0 then 0
  else Real.log (settled candidate terms holding) - Real.log (holding.2 : ℝ)

open Classical in
/-- Expected log growth of a draw; a ruin it gives mass to has no finite value. -/
def PreparedSizing.drawGrowth (prepared : PreparedSizing ℝ) (terms : ℝ × ℝ) (law : Law ℝ) :
    WithBot ℝ :=
  if ∃ holding ∈ prepared.holdings, settled prepared.candidate terms holding ≤ 0 ∧
        0 < law.mass holding.1 then
    ⊥
  else
    ((prepared.holdings.map fun holding =>
      law.mass holding.1 * outcomeGrowth prepared.candidate terms holding).sum : ℝ)

/-- `robust_at`: the quantile of log growth over the draws, `⊥` where the stake has no price. -/
def PreparedSizing.robustAt (prepared : PreparedSizing ℝ) (stakeUsd : ℝ) : WithBot ℝ :=
  match payoffTerms prepared.candidate stakeUsd with
  | .error _ => ⊥
  | .ok terms => quantile (prepared.laws.map (prepared.drawGrowth terms)) prepared.alpha

structure Sizing where
  optimalStakeUsd : ℝ
  (optimalDeltaU deltaUAtMin : WithBot ℝ)

def finiteOrZero (value : WithBot ℝ) : WithBot ℝ := if value = ⊥ then 0 else value

def optimizeVectorStake (candidate : NativeSideCandidate ℝ) (band : JointQBand ℝ)
    (omega : List String) (matrix : FamilyPayoffMatrix) (exposure : PortfolioExposureVector ℝ)
    (maxStakeUsd alpha guarded : Option ℝ) : Except PayoffError Sizing :=
  match feasibleStakeBounds candidate maxStakeUsd,
      candidate.executableCostCurve.filter fun _ => candidate.isTradeable with
  | some bounds, some curve => do
      let level ← resolveAlpha band alpha
      let prepared ← prepareSizing candidate band omega matrix exposure level guarded
      let deltaUAtMin := finiteOrZero (prepared.robustAt bounds.1)
      if bounds.2 = bounds.1 then
        return ⟨if 0 < deltaUAtMin then bounds.1 else 0, deltaUAtMin, deltaUAtMin⟩
      else
        let best := searchStakes prepared.robustAt curve bounds.1 bounds.2
        if best.utility ≤ 0 ∨ best.stake ≤ 0 then return ⟨0, finiteOrZero best.utility, deltaUAtMin⟩
        else return ⟨best.stake, best.utility, deltaUAtMin⟩
  | _, _ => .ok ⟨0, 0, ⊥⟩
end

structure CandidateEconomics where
  edgeLcb : WithBot ℝ
  chosenStakeEdgeLcb : Option (WithBot ℝ)
  (deltaUAtMin optimalDeltaU : WithBot ℝ)

def LiveCandidatePasses (economics : CandidateEconomics)
    (routeExecutable directionLawProofPresent marketCoherenceAccepted : Bool) : Prop :=
  0 < economics.chosenStakeEdgeLcb.getD economics.edgeLcb ∧
    0 < economics.deltaUAtMin ∧
    0 < economics.optimalDeltaU ∧
    routeExecutable = true ∧
    directionLawProofPresent = true ∧
    marketCoherenceAccepted = true

end Zeus.PayoffVector
