import Zeus.Lib.CheckedFold
import Zeus.Lib.LogGrowth
import Zeus.Lib.Refusal
import Zeus.Solve.FillFragments
import Zeus.Solve.GlobalOrder

namespace Zeus.GlobalOrder

open CheckedFold CostCurve FillFragments LogGrowth Refusal

inductive SellPrefixError where
  | candidateUnavailable | proposalUnavailable | feeAuthorityUnavailable
  | depth (error : SellDepthError)
  | limitUnavailable | prefixNotCoherent | attributeMissing | wealthIncoherent
  | economicsNonPositive
  deriving DecidableEq

open Classical in
/-- One branch of the loop in `_binary_extended_log_delta`: the ruin coefficient, then the finite
log term. -/
noncomputable def addBranch (total : ℝ × ℝ) (probability baseline after : ℝ) : ℝ × ℝ :=
  if probability = 0 then total
  else
    (total.1 + probability * ((if baseline = 0 then 1 else 0) - if after = 0 then 1 else 0),
      total.2 + (if 0 < after then probability * Real.log after else 0) -
        if 0 < baseline then probability * Real.log baseline else 0)

/-- The domain of the extended log: probabilities that sum to one, wealth that may be zero. -/
structure CoherentWealth (branches : Branches) (lossAfter winAfter : ℝ) : Prop where
  complete : closeToOne (branches.lossProbability + branches.winProbability)
  loss_mem : 0 ≤ branches.lossProbability ∧ branches.lossProbability ≤ 1
  win_mem : 0 ≤ branches.winProbability ∧ branches.winProbability ≤ 1
  lossBaseline_nonneg : 0 ≤ branches.lossBaseline
  winBaseline_nonneg : 0 ≤ branches.winBaseline
  lossAfter_nonneg : 0 ≤ lossAfter
  winAfter_nonneg : 0 ≤ winAfter

open Classical in
noncomputable def binaryExtendedLogDelta (branches : Branches) (lossAfter winAfter : ℝ) :
    Except SellPrefixError (ℝ × ℝ) := do
  guardBy (require (CoherentWealth branches lossAfter winAfter) .wealthIncoherent)
  let lossBranch := addBranch (0, 0) branches.lossProbability branches.lossBaseline lossAfter
  return addBranch lossBranch branches.winProbability branches.winBaseline winAfter

def sellBranches : Terminal → Except SellPrefixError Branches
  | .binary wealth => .ok wealth.branches
  | .expectedSell wealth => .ok wealth.branches
  | .expectedBuy _ => .error .attributeMissing

open Classical in
/-- `_global_sell_fill_prefix_extended_objective`: ruin reduction, log change and expected value of
giving up `shares` for `proceeds`. -/
noncomputable def globalSellFillPrefixExtendedObjective (decision : Decision)
    (shares proceeds : ℝ) : Except SellPrefixError (ℝ × ℝ × ℝ) :=
  match decision.candidate, decision.terminal with
  | some (.sell _), some terminal => do
      guardBy (require (0 < shares ∧ shares ≤ decision.shares ∧ 0 < proceeds ∧ proceeds < shares)
        .prefixNotCoherent)
      let branches ← sellBranches terminal
      let (ruinReduction, robustDu) ← binaryExtendedLogDelta branches
        (branches.lossBaseline - shares + proceeds) (branches.winBaseline + proceeds)
      return (ruinReduction, robustDu, branches.winProbability * shares - (shares - proceeds))
  | _, _ => .error .prefixNotCoherent

def SellCandidate.economicSellCurve (candidate : SellCandidate) :
    Except SellPrefixError (ExecutableSellCurve ℝ) :=
  candidate.proposalSellCurve.elim (.error .proposalUnavailable) .ok

noncomputable def SellCandidate.submittedFloor (candidate : SellCandidate) (shares : ℝ) :
    Except SellPrefixError ℝ := do
  let curve ← candidate.economicSellCurve
  let (_, _, deepest) ← (curve.proceedsForShares shares).mapError .depth
  let book := candidate.executableSellCurve
  (liveSellLimitPrice (book.levels.head book.levels_ne_nil).price deepest book.minTick).elim
    (.error .limitUnavailable) .ok

open Classical in
noncomputable def globalSellRoundingSafeProceeds (candidate : SellCandidate) (shares : ℝ) :
    Except SellPrefixError ℝ := do
  let curve ← candidate.economicSellCurve
  let rate := curve.feeModel.feeRate
  guardBy (require (candidate.executionMode = .takerLimit ∧ 0 ≤ rate ∧ rate ≤ (maxFeeRate : ℝ))
    .feeAuthorityUnavailable)
  let limit ← candidate.submittedFloor shares
  return shares * safeUnitProceeds limit rate

def certifiedCandidate (decision : Decision) (current : Option SellCandidate) :
    Except SellPrefixError SellCandidate :=
  match current, decision.candidate with
  | some candidate, _ => .ok candidate
  | none, some (.sell candidate) => .ok candidate
  | none, _ => .error .candidateUnavailable

structure SellPrefixCertificate where
  (proceedsLowerBoundUsd ruinProbabilityReduction deltaLogWealthLowerBound evLowerBoundUsd : ℝ)

open Classical in
noncomputable def globalSellFakPrefixCertificate (decision : Decision)
    (current : Option SellCandidate) : Except SellPrefixError SellPrefixCertificate := do
  let candidate ← certifiedCandidate decision current
  let proceeds ← globalSellRoundingSafeProceeds candidate decision.shares
  let (ruin, deltaLog, ev) ← globalSellFillPrefixExtendedObjective decision decision.shares proceeds
  guardBy (require (robustEvEpsUsd < ev ∧ (0 < ruin ∨ ruin = 0 ∧ 0 < deltaLog))
      .economicsNonPositive)
  return ⟨proceeds, ruin, deltaLog, ev⟩

/-- Ruin reduction and finite log change of giving up `shares` for `proceeds`. -/
noncomputable def extendedLog (branches : Branches) (shares proceeds : ℝ) : ℝ × ℝ :=
  addBranch (addBranch (0, 0) branches.lossProbability branches.lossBaseline
    (branches.lossBaseline - shares + proceeds)) branches.winProbability branches.winBaseline
    (branches.winBaseline + proceeds)

/-- Less ruin, or as much ruin and a larger expected logarithm. -/
def Improves (objective : ℝ × ℝ) : Prop := 0 < objective.1 ∨ objective.1 = 0 ∧ 0 < objective.2

open Classical in
theorem addBranch_fst (total : ℝ × ℝ) (prob baseline after : ℝ) :
    (addBranch total prob baseline after).1 =
      total.1 + prob * ((if baseline = 0 then 1 else 0) - if after = 0 then 1 else 0) := by
  unfold addBranch
  split_ifs with hab <;> simp [hab]

open Classical in
/-- The logarithm of zero is zero here, so an absent term and a skipped branch need no case. -/
theorem addBranch_snd (total : ℝ × ℝ) (prob : ℝ) {baseline after : ℝ} (solv : 0 ≤ baseline)
    (remains : 0 ≤ after) : (addBranch total prob baseline after).2 =
      total.2 + prob * (Real.log after - Real.log baseline) := by
  have finite : ∀ {wealth : ℝ}, 0 ≤ wealth →
      (if 0 < wealth then prob * Real.log wealth else 0) = prob * Real.log wealth := by
    intro wealth nn
    rcases nn.eq_or_lt with rfl | pos
    · simp
    · rw [if_pos pos]
  rcases eq_or_ne prob 0 with hab | hp
  · simp [addBranch, hab]
  · rw [addBranch, if_neg hp, finite solv, finite remains]
    ring

theorem extendedLog_of_solvent {branches : Branches} {shares proceeds : ℝ}
    (loss : 0 < branches.lossBaseline) (win : 0 < branches.winBaseline)
    (lossAfter : 0 < branches.lossBaseline - shares + proceeds)
    (winAfter : 0 < branches.winBaseline + proceeds) :
    extendedLog branches shares proceeds =
      (0,
        branches.lossProbability * growth branches.lossBaseline (proceeds - shares) +
          branches.winProbability * growth branches.winBaseline proceeds) := by
  have given : branches.lossBaseline - shares + proceeds =
      branches.lossBaseline + (proceeds - shares) := by
    ring
  apply Prod.ext
  · simp [extendedLog, addBranch_fst, loss.ne', win.ne', lossAfter.ne', winAfter.ne']
  · rw [given] at lossAfter
    rw [extendedLog, given, addBranch_snd _ _ win.le winAfter.le,
      addBranch_snd _ _ loss.le lossAfter.le,
      growth_eq_sub loss lossAfter, growth_eq_sub win winAfter, zero_add]

section
variable {branches : Branches} {unit shares filled proceeds : ℝ}

structure CertifiedSell (branches : Branches) (unit shares : ℝ) : Prop where
  coherent : CoherentWealth branches (branches.lossBaseline - shares + shares * unit)
    (branches.winBaseline + shares * unit)
  shares_pos : 0 < shares
  unit_pos : 0 < unit
  unit_lt_one : unit < 1
  value_pos : 1 - unit < branches.winProbability
  improves : Improves (extendedLog branches shares (shares * unit))

section
variable (certified : CertifiedSell branches unit shares)

include certified

theorem CertifiedSell.lossBaseline_pos : 0 < branches.lossBaseline := by
  have given : 0 < shares * (1 - unit) :=
    mul_pos certified.shares_pos (sub_pos.mpr certified.unit_lt_one)
  have remains := certified.coherent.lossAfter_nonneg
  linarith

theorem CertifiedSell.win_pos : 0 < branches.winProbability :=
  (sub_pos.mpr certified.unit_lt_one).trans certified.value_pos

theorem CertifiedSell.le_lossAfter (most : filled ≤ shares) (enough : filled * unit ≤ proceeds) :
    branches.lossBaseline - shares + shares * unit ≤ branches.lossBaseline - filled + proceeds := by
  have given := mul_le_mul_of_nonneg_right most (sub_nonneg.mpr certified.unit_lt_one.le)
  linarith

theorem CertifiedSell.value_of_prefix (hpos : 0 < filled) (enough : filled * unit ≤ proceeds) :
    0 < branches.winProbability * filled - (filled - proceeds) := by
  have gains : filled * (1 - unit) < filled * branches.winProbability :=
    mul_lt_mul_of_pos_left certified.value_pos hpos
  linarith

/-- Any prefix that leaves the losing branch solvent ends a ruin, and the only one that does not is
the full fill at the floor. -/
theorem CertifiedSell.improves_of_ruined
    (ruined : branches.winBaseline = 0) (hpos : 0 < filled) (most : filled ≤ shares)
    (enough : filled * unit ≤ proceeds) : Improves (extendedLog branches filled proceeds) := by
  have pos : 0 < proceeds := (mul_pos hpos certified.unit_pos).trans_le enough
  have after := certified.le_lossAfter most enough
  have remains := certified.coherent.lossAfter_nonneg
  rcases eq_or_ne (branches.lossBaseline - filled + proceeds) 0 with gone | left
  · have whole : filled = shares := by
      have slope := sub_pos.mpr certified.unit_lt_one
      have given := mul_le_mul_of_nonneg_right most slope.le
      have same : filled * (1 - unit) = shares * (1 - unit) := by linarith
      exact mul_right_cancel₀ slope.ne' same
    subst whole
    have exactly : proceeds = filled * unit := by linarith
    rw [exactly]
    exact certified.improves
  · left
    have reduction : (extendedLog branches filled proceeds).1 = branches.winProbability := by
      simp [extendedLog, addBranch_fst, certified.lossBaseline_pos.ne', left, ruined, pos.ne']
    rw [reduction]
    exact certified.win_pos

/-- The winning branch is solvent throughout: no prefix changes the ruin, and the log change of a
prefix keeps its share of the full one. -/
theorem CertifiedSell.improves_of_solvent
    (solv : 0 < branches.winBaseline) (hpos : 0 < filled) (most : filled ≤ shares)
    (enough : filled * unit ≤ proceeds) : Improves (extendedLog branches filled proceeds) := by
  have pos : 0 < proceeds := (mul_pos hpos certified.unit_pos).trans_le enough
  have lossPos := certified.lossBaseline_pos
  have winAfter : 0 < branches.winBaseline + proceeds := add_pos solv pos
  have fullWin : 0 < branches.winBaseline + shares * unit :=
    add_pos solv (mul_pos certified.shares_pos certified.unit_pos)
  rcases certified.coherent.loss_mem.1.eq_or_lt with certain | possible
  · -- The losing branch carries no probability and drops out.
    have rises : Real.log branches.winBaseline < Real.log (branches.winBaseline + proceeds) :=
      Real.log_lt_log solv (lt_add_of_pos_right _ pos)
    have objective : extendedLog branches filled proceeds =
        (0,
          branches.winProbability *
            (Real.log (branches.winBaseline + proceeds) - Real.log branches.winBaseline)) := by
      apply Prod.ext
      · simp [extendedLog, addBranch_fst, ← certain, solv.ne', winAfter.ne']
      · rw [extendedLog, addBranch_snd _ _ solv.le winAfter.le]
        simp [addBranch, ← certain]
    rw [objective]
    exact Or.inr ⟨rfl, mul_pos certified.win_pos (sub_pos.mpr rises)⟩
  · -- The full fill leaves the losing branch solvent: it would add ruin otherwise.
    have fullLoss : branches.lossBaseline - shares + shares * unit ≠ 0 := by
      intro gone
      have reduction : (extendedLog branches shares (shares * unit)).1 =
          -branches.lossProbability := by
        simp [extendedLog, addBranch_fst, lossPos.ne', gone, solv.ne', fullWin.ne']
      rcases certified.improves with less | ⟨same, -⟩
      · linarith
      · linarith
    have fullLossPos := lt_of_le_of_ne certified.coherent.lossAfter_nonneg fullLoss.symm
    have lossAfter := fullLossPos.trans_le (certified.le_lossAfter most enough)
    have full := certified.improves
    rw [extendedLog_of_solvent lossPos solv fullLossPos fullWin] at full
    rw [extendedLog_of_solvent lossPos solv lossAfter winAfter]
    have lossGain : shares * unit - shares = shares * (unit - 1) := by ring
    have fullGain := (full.resolve_left (lt_irrefl 0)).2
    simp only [lossGain] at fullGain
    exact Or.inr ⟨rfl,
      gamble_pos certified.coherent.loss_mem.1 certified.coherent.win_mem.1 lossPos solv
      (by linarith) fullWin hpos most (by linarith) enough fullGain⟩

theorem CertifiedSell.improves_of_prefix (hpos : 0 < filled)
    (most : filled ≤ shares) (enough : filled * unit ≤ proceeds) :
    Improves (extendedLog branches filled proceeds) := by
  rcases certified.coherent.winBaseline_nonneg.eq_or_lt with ruined | solv
  · exact certified.improves_of_ruined ruined.symm hpos most enough
  · exact certified.improves_of_solvent solv hpos most enough
end

end

theorem globalSellFillPrefixExtendedObjective_eq_ok {dec : Decision} {shares proceeds : ℝ}
    {scored : ℝ × ℝ × ℝ} :
    globalSellFillPrefixExtendedObjective dec shares proceeds = .ok scored ↔
      ∃ cand hterm branches, dec.candidate = some (.sell cand) ∧
        dec.terminal = some hterm ∧
        sellBranches hterm = .ok branches ∧
        (0 < shares ∧ shares ≤ dec.shares ∧ 0 < proceeds ∧ proceeds < shares) ∧
        CoherentWealth branches (branches.lossBaseline - shares + proceeds)
          (branches.winBaseline + proceeds) ∧
        ((extendedLog branches shares proceeds).1, (extendedLog branches shares proceeds).2,
          branches.winProbability * shares - (shares - proceeds)) = scored := by
  unfold globalSellFillPrefixExtendedObjective
  split
  · next cand hterm isCand isTerm =>
    simp only [binaryExtendedLogDelta, bind_eq_ok, guardBy_eq_ok, require_eq_none]
    constructor
    · rintro ⟨-, sizes, branches, read, delta, ⟨-, coh, isDelta⟩, isScored⟩
      cases isDelta
      cases isScored
      exact ⟨cand, hterm, branches, isCand, isTerm, read, sizes, coh, rfl⟩
    · rintro ⟨sameCandidate, sameTerminal, branches, hf, htf, read, sizes, coh, rfl⟩
      cases isTerm.symm.trans htf
      exact ⟨(), sizes, branches, read, _, ⟨(), coh, rfl⟩, rfl⟩
  · next undefined =>
    constructor
    · intro impossible
      cases impossible
    · rintro ⟨cand, hterm, branches, isCand, isTerm, -⟩
      exact absurd isTerm (undefined cand hterm isCand)

theorem SellCandidate.submittedFloor_pos {cand : SellCandidate} {shares limit : ℝ}
    (floor : cand.submittedFloor shares = .ok limit) : 0 < limit := by
  simp only [SellCandidate.submittedFloor, bind_eq_ok, elim_eq_ok] at floor
  obtain ⟨curve, -, wkd, -, floored⟩ := floor
  have band := (inBand_of_liveSellLimitPrice floored).1
  have least : (0 : ℝ) < liveOrderMinUnitPrice := by norm_num [liveOrderMinUnitPrice]
  exact least.trans_le band

theorem globalSellFakPrefixCertificate_ok {dec : Decision} {cur : Option SellCandidate}
    {cert : SellPrefixCertificate} (ret : globalSellFakPrefixCertificate dec cur = .ok cert) :
    ∃ cand curve limit held hterm branches, certifiedCandidate dec cur = .ok cand ∧
      cand.economicSellCurve = .ok curve ∧
      curve.feeModel.feeRate ≤ (maxFeeRate : ℝ) ∧
      cand.submittedFloor dec.shares = .ok limit ∧
      dec.candidate = some (.sell held) ∧
      dec.terminal = some hterm ∧
      sellBranches hterm = .ok branches ∧
      CertifiedSell branches (safeUnitProceeds limit curve.feeModel.feeRate) dec.shares := by
  simp only [globalSellFakPrefixCertificate, globalSellRoundingSafeProceeds, bind_eq_ok,
    guardBy_eq_ok, require_eq_none, globalSellFillPrefixExtendedObjective_eq_ok] at ret
  obtain ⟨cand, isCand, proceeds, ⟨curve, isCurve, -, ⟨-, -, small⟩, limit, isLimit, isProceeds⟩,
    scored, ⟨held, hterm, branches, isHeld, isTerminal, read, sizes, coherent, isScored⟩, -,
    ⟨value, improves⟩, -⟩ := ret
  cases isProceeds
  cases isScored
  obtain ⟨pos, -, paid, less⟩ := sizes
  have eps : (0 : ℝ) < robustEvEpsUsd := by norm_num [robustEvEpsUsd]
  have unitPos := (mul_pos_iff_of_pos_left pos).mp paid
  have unitLt : safeUnitProceeds limit curve.feeModel.feeRate < 1 := by
    by_contra dear
    have whole := mul_le_mul_of_nonneg_left (not_lt.mp dear) pos.le
    linarith
  have gains : 1 - safeUnitProceeds limit curve.feeModel.feeRate < branches.winProbability := by
    by_contra poor
    have least := mul_le_mul_of_nonneg_left (not_lt.mp poor) pos.le
    linarith [eps.trans value]
  exact ⟨cand, curve, limit, held, hterm, branches, isCand, isCurve, small, isLimit, isHeld,
    isTerminal, read, coherent, pos, unitPos, unitLt, gains, improves⟩

/-- Every non-zero partial fill of a certified SELL has a positive objective: positive value, and
less ruin or else the same ruin and a positive log change. -/
theorem every_sell_prefix_beneficial {dec : Decision} {cur : Option SellCandidate}
    {cert : SellPrefixCertificate} {cand : SellCandidate} {curve : ExecutableSellCurve ℝ}
    {limit : ℝ} (ret : globalSellFakPrefixCertificate dec cur = .ok cert)
    (isCand : certifiedCandidate dec cur = .ok cand) (isCurve : cand.economicSellCurve = .ok curve)
    (isFloor : cand.submittedFloor dec.shares = .ok limit) {frags : List (Fragment ℝ)}
    (above : ∀ frag ∈ frags, limit ≤ frag.price) (hpos : 0 < totalSize frags)
    (most : totalSize frags ≤ dec.shares)
    (below : sellProceeds curve.feeModel.feeRate frags < totalSize frags) :
    ∃ ruin deltaLog ev,
      globalSellFillPrefixExtendedObjective dec (totalSize frags)
        (sellProceeds curve.feeModel.feeRate frags) = .ok (ruin, deltaLog, ev) ∧
      0 < ev ∧
      (0 < ruin ∨ ruin = 0 ∧ 0 < deltaLog) := by
  obtain ⟨sameCandidate, sameCurve, sameLimit, held, hterm, branches, hf, curveFound, small,
    floorFound, isHeld, isTerminal, read, certified⟩ := globalSellFakPrefixCertificate_ok ret
  cases isCand.symm.trans hf
  cases isCurve.symm.trans curveFound
  cases isFloor.symm.trans floorFound
  have enough := le_sellProceeds curve.feeModel.feeRate_nonneg small
    (SellCandidate.submittedFloor_pos isFloor).le above
  have paid := (mul_pos hpos certified.unit_pos).trans_le enough
  have coh : CoherentWealth branches
      (branches.lossBaseline - totalSize frags + sellProceeds curve.feeModel.feeRate frags)
      (branches.winBaseline + sellProceeds curve.feeModel.feeRate frags) := {
    certified.coherent with
    lossAfter_nonneg :=
      certified.coherent.lossAfter_nonneg.trans (certified.le_lossAfter most enough)
    winAfter_nonneg := add_nonneg certified.coherent.winBaseline_nonneg paid.le }
  exact ⟨_, _, _, globalSellFillPrefixExtendedObjective_eq_ok.mpr
      ⟨held, hterm, branches, isHeld, isTerminal, read, ⟨hpos, most, paid, below⟩, coh, rfl⟩,
    certified.value_of_prefix hpos enough, certified.improves_of_prefix hpos most enough⟩

/-- Two held shares and nothing else: without the sale the winning branch is ruined. -/
noncomputable def sampleSellWealth : TerminalWealth where
  winProbability := (1 / 2 : ℚ)
  lossProbability := (1 / 2 : ℚ)
  lossPayoffUsd := (-4 / 5 : ℚ)
  winPayoffUsd := (6 / 5 : ℚ)
  wealthAfterLossUsd := (6 / 5 : ℚ)
  wealthAfterWinUsd := (6 / 5 : ℚ)
  win_mem := by constructor <;> norm_num
  loss_mem := by constructor <;> norm_num
  lossPayoff_neg := by norm_num
  winPayoff_pos := by norm_num
  wealthAfterLoss_nonneg := by norm_num
  winBaseline_nonneg := by norm_num

noncomputable def sampleSellCurve : ExecutableSellCurve ℝ where
  levels := [⟨(3 / 5 : ℚ), (20 : ℚ), by norm_num, by norm_num, by norm_num⟩]
  feeModel := ⟨(1 / 20 : ℚ), by norm_num, by norm_num⟩
  minTick := (1 / 1000 : ℚ)
  minOrderSize := (5 : ℚ)
  levels_ne_nil := List.cons_ne_nil _ _
  minTick_pos := by norm_num
  minOrderSize_pos := by norm_num
  onGrid := by
    intro level member
    rw [List.mem_singleton.mp member]
    exact ⟨600, by norm_num [gridEps]⟩
  bestFirst := List.pairwise_singleton _ _

noncomputable def sampleSellCandidate : SellCandidate :=
  ⟨sampleSellCurve, some sampleSellCurve, .takerLimit⟩

noncomputable def sampleSell : Decision where
  candidate := some (.sell sampleSellCandidate)
  terminalWealth := some sampleSellWealth
  expectedTerminalWealth := none
  shares := (2 : ℚ)
  limitPrice := (3 / 5 : ℚ)

noncomputable def sampleSellFragments : List (Fragment ℝ) :=
  [⟨(6 / 5 : ℚ), (3 / 5 : ℚ), by norm_num, by norm_num, by norm_num⟩,
    ⟨(3 / 10 : ℚ), (7 / 10 : ℚ), by norm_num, by norm_num, by norm_num⟩]

theorem sampleSell_floor :
    sampleSellCandidate.submittedFloor sampleSell.shares = .ok (3 / 5 : ℚ) := by
  have wkd : sampleSellCurve.proceedsForShares sampleSell.shares =
      .ok (2 * (147 / 250), 3 / 5, (3 / 5 : ℚ)) := by
    norm_num [ExecutableSellCurve.proceedsForShares, ExecutableSellCurve.walk, sampleSellCurve,
      sampleSell, depthEps, ExecutableSellCurve.netPrice, FeeModel.feePerShare]
  have floored : liveSellLimitPrice ((3 / 5 : ℚ) : ℝ) (3 / 5 : ℚ) (1 / 1000 : ℚ) =
      some ((3 / 5 : ℚ) : ℝ) := by
    norm_num [liveSellLimitPrice, LiveUnitPriceInBand, liveOrderMinUnitPrice, liveOrderMaxUnitPrice]
  simp only [SellCandidate.submittedFloor, bind_eq_ok, elim_eq_ok]
  exact ⟨sampleSellCurve, rfl, _, mapError_eq_ok.mpr wkd, floored⟩

theorem sampleSell_certified :
    ∃ cert, globalSellFakPrefixCertificate sampleSell none = .ok cert := by
  have unit : safeUnitProceeds (3 / 5 : ℝ) (1 / 20) = 72 / 125 := by norm_num [safeUnitProceeds]
  simp only [globalSellFakPrefixCertificate, globalSellRoundingSafeProceeds, bind_eq_ok,
    guardBy_eq_ok, require_eq_none, globalSellFillPrefixExtendedObjective_eq_ok]
  refine ⟨_, sampleSellCandidate, rfl, _,
    ⟨sampleSellCurve, rfl, (), ?rates, (3 / 5 : ℚ), sampleSell_floor, rfl⟩, _,
    ⟨sampleSellCandidate, _, sampleSellWealth.branches, rfl, rfl, rfl, ?sizes, ?wealth, rfl⟩, (),
    ⟨?value, Or.inl ?ruin⟩, rfl⟩
  case rates => norm_num [sampleSellCandidate, sampleSellCurve, maxFeeRate]
  case sizes => norm_num [sampleSell, sampleSellCurve, unit]
  case wealth =>
    constructor <;>
      norm_num [TerminalWealth.branches, sampleSellWealth, sampleSell, sampleSellCurve, unit,
        closeToOne]
  case value =>
    norm_num [TerminalWealth.branches, sampleSellWealth, sampleSell, sampleSellCurve, unit,
      robustEvEpsUsd]
  case ruin =>
    norm_num [extendedLog, addBranch_fst, TerminalWealth.branches, sampleSellWealth, sampleSell,
      sampleSellCurve, unit]

theorem every_sell_prefix_beneficial_sample :
    ∃ ruin deltaLog ev,
      globalSellFillPrefixExtendedObjective sampleSell (totalSize sampleSellFragments)
        (sellProceeds sampleSellCurve.feeModel.feeRate sampleSellFragments) =
        .ok (ruin, deltaLog, ev) ∧
      0 < ev ∧
      (0 < ruin ∨ ruin = 0 ∧ 0 < deltaLog) := by
  obtain ⟨cert, ret⟩ := sampleSell_certified
  have above : ∀ frag ∈ sampleSellFragments, ((3 / 5 : ℚ) : ℝ) ≤ frag.price := by
    norm_num [sampleSellFragments]
  have hpos : 0 < totalSize sampleSellFragments := by norm_num [totalSize, sampleSellFragments]
  have most : totalSize sampleSellFragments ≤ sampleSell.shares := by
    norm_num [totalSize, sampleSellFragments, sampleSell]
  have below : sellProceeds sampleSellCurve.feeModel.feeRate sampleSellFragments <
      totalSize sampleSellFragments := by
    norm_num [sellProceeds, totalSize, sampleSellFragments, Fragment.fee, Fragment.exactFee,
      HalfUp.round, feeQuantum, sampleSellCurve]
  exact every_sell_prefix_beneficial ret rfl rfl sampleSell_floor above hpos most below

end Zeus.GlobalOrder
