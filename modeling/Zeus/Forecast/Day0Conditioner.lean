import Zeus.Contracts.SettlementSemantics
import Zeus.Lib.ClampedLaw
import Zeus.Types.Market

/-! The settlement value of an active day is `max o X` (HIGH) or `min o X` (LOW) for the observed
extreme `o` and the remaining extreme `X`. Arithmetic is exact; the later normalisation is not
modelled. -/

namespace Zeus.Day0Conditioner

open ClampedLaw MeasureTheory ProbabilityTheory Zeus.Market Zeus.Settlement

section
variable {γ β : Type*} [LinearOrder γ] [Zero β] [One β] [Sub β]

def probabilityHighDay0Bin (obsHigh lo hi : γ) (normalCdf : γ → β) : β :=
  if hi ≤ obsHigh then 0
  else if lo ≤ obsHigh ∧ obsHigh < hi then normalCdf hi
  else normalCdf hi - normalCdf lo

def probabilityLowDay0Bin (obsLow lo hi : γ) (normalCdf : γ → β) : β :=
  if obsLow ≤ lo then 0
  else if lo < obsLow ∧ obsLow ≤ hi then 1 - normalCdf lo
  else normalCdf hi - normalCdf lo

def day0BinPreimageNative {α : Type*} [Field α] (binLow binHigh : Option α) (rule : RoundingRule)
    (halfStep : α) : Extended α × Extended α :=
  let offsets := settlementPreimageOffsets rule halfStep
  (match binLow with
    | none => ⊥
    | some low => finite (low + offsets.1),
   match binHigh with
    | none => ⊤
    | some high => finite (high + offsets.2))
end

noncomputable def preimage (bin : Bin ℝ) (rule : RoundingRule) : Extended ℝ × Extended ℝ :=
  day0BinPreimageNative bin.low bin.high rule defaultHalfStep

/-- The probability that `build_joint_q` enters for a HIGH bin. -/
noncomputable def highMass (μ : Measure ℝ) (obs : ℝ) (rule : RoundingRule) (bin : Bin ℝ) : ℝ :=
  probabilityHighDay0Bin (finite obs) (preimage bin rule).1 (preimage bin rule).2
    (continued (cdf μ))

/-- The probability that `build_joint_q` enters for a LOW bin. -/
noncomputable def lowMass (μ : Measure ℝ) (obs : ℝ) (rule : RoundingRule) (bin : Bin ℝ) : ℝ :=
  probabilityLowDay0Bin (finite obs) (preimage bin rule).1 (preimage bin rule).2 (continued (cdf μ))

/-- Values of `X` for which the settlement value `extreme X` rounds into the bin. -/
def settlesIn (extreme : ℝ → ℝ) (rule : RoundingRule) (bin : Bin ℝ) : Set ℝ :=
  {x | bin.contains (roundValuesOnAxis (extreme x) 1 rule)}

section
variable {bin : Bin ℝ} {rule : RoundingRule}

theorem contains_round_iff (integer : bin.IntegerEdges) (halfOpen : rule ≠ .ceil) (y : ℝ) :
    bin.contains (roundValuesOnAxis y 1 rule) ↔
      (preimage bin rule).1 ≤ finite y ∧ finite y < (preimage bin rule).2 := by
  obtain ⟨integerLow, integerHigh⟩ := integer
  have low : (∀ l ∈ bin.low, l ≤ roundValuesOnAxis y 1 rule) ↔
      (preimage bin rule).1 ≤ finite y := by
    unfold preimage day0BinPreimageNative defaultHalfStep
    cases edge : bin.low with
    | none => simp
    | some l =>
      obtain ⟨z, rfl⟩ := integerLow l edge
      simp [(round_iff halfOpen _ _).1]
  have high : (∀ h ∈ bin.high, roundValuesOnAxis y 1 rule ≤ h) ↔
      finite y < (preimage bin rule).2 := by
    unfold preimage day0BinPreimageNative defaultHalfStep
    cases edge : bin.high with
    | none => simp
    | some h =>
      obtain ⟨z, rfl⟩ := integerHigh h edge
      simp [(round_iff halfOpen _ _).2]
  rw [Bin.contains, IntervalChain.Contains, low, high]

theorem preimage_lt (bin : Bin ℝ) (rule : RoundingRule) :
    (preimage bin rule).1 < (preimage bin rule).2 := by
  unfold preimage day0BinPreimageNative defaultHalfStep
  cases low : bin.low with
  | none => cases bin.high <;> simp
  | some l =>
    cases high : bin.high with
    | none => simp
    | some h =>
      have width := bin.proper l low h high
      have offsets : (settlementPreimageOffsets rule (1 / 2 : ℝ)).1 <
        (settlementPreimageOffsets rule (1 / 2 : ℝ)).2 := by
        cases rule <;> norm_num [settlementPreimageOffsets]
      simp only [finite_lt_finite]
      linarith

theorem measurableSet_settlesIn (integer : bin.IntegerEdges) (halfOpen : rule ≠ .ceil)
    {extreme : ℝ → ℝ} (meas : Measurable extreme) : MeasurableSet (settlesIn extreme rule bin) := by
  have interval : settlesIn extreme rule bin =
      Set.preimage extreme (below (preimage bin rule).2 \ below (preimage bin rule).1) := by
    ext x
    simp only [settlesIn, Set.mem_ofPred_eq, contains_round_iff integer halfOpen, below,
      Set.mem_preimage, Set.mem_sdiff, not_lt, and_comm]
  rw [interval]
  exact meas ((measurableSet_below _).diff (measurableSet_below _))
end

section
variable (μ : Measure ℝ) [IsProbabilityMeasure μ] {bin : Bin ℝ} {rule : RoundingRule}

section
variable (continuous : Continuous (cdf μ)) (obs : ℝ) (halfOpen : rule ≠ .ceil)

include continuous obs halfOpen

theorem highMass_eq (integer : bin.IntegerEdges) :
    highMass μ obs rule bin = μ.real (settlesIn (max obs) rule bin) := by
  simp only [settlesIn, contains_round_iff integer halfOpen]
  rw [real_max μ obs (preimage_lt bin rule).le, real_below μ continuous, real_below μ continuous]
  unfold highMass probabilityHighDay0Bin
  split_ifs with above hin hle
  · rfl
  · rfl
  · exact absurd hin.1 hle
  · exact absurd ⟨‹_›, not_le.mp above⟩ hin
  · rfl

theorem sum_highMass {bins : List (Bin ℝ)} (acc : validateBinTopology bins = .ok ())
    (integer : ∀ bin ∈ bins, bin.IntegerEdges) : (bins.map (highMass μ obs rule)).sum =
      μ.real {x | ∃ bin ∈ bins, x ∈ settlesIn (max obs) rule bin} := by
  have each : bins.map (highMass μ obs rule) =
      bins.map fun bin => μ.real (settlesIn (max obs) rule bin) :=
    List.map_congr_left fun bin mem => highMass_eq μ continuous obs halfOpen (integer bin mem)
  rw [each]
  apply sum_real_eq
  · exact fun bin mem =>
      measurableSet_settlesIn (integer bin mem) halfOpen (measurable_const.max measurable_id)
  · refine (accepted_disjoint acc).imp fun hne => Set.disjoint_left.mpr ?_
    exact fun x here there => hne _ ⟨here, there⟩

theorem sum_highMass_eq_one {bins : List (Bin ℝ)} (acc : validateBinTopology bins = .ok ())
    (integer : ∀ bin ∈ bins, bin.IntegerEdges) (covers : CoversIntegers bins) :
    (bins.map (highMass μ obs rule)).sum = 1 := by
  rw [sum_highMass μ continuous obs halfOpen acc integer]
  have everywhere : {x | ∃ bin ∈ bins, x ∈ settlesIn (max obs) rule bin} = Set.univ := by
    refine Set.eq_univ_of_forall fun x => ?_
    obtain ⟨z, hset⟩ : ∃ z : ℤ, roundValuesOnAxis (max obs x) 1 rule = z := by
      cases rule <;> simp [roundValuesOnAxis]
    obtain ⟨bin, mem, contains⟩ := covers z
    exact ⟨bin, mem, by simpa only [settlesIn, Set.mem_ofPred_eq, hset] using contains⟩
  rw [everywhere, probReal_univ]
end

end

section
variable (μ : Measure ℝ) [IsProbabilityMeasure μ] {bin : Bin ℝ} {rule : RoundingRule}

/-- The LOW formula is the law of the rounded minimum, except at a preimage edge that
the remaining extreme can still fall below or exceed. -/
theorem lowMass_eq_iff (continuous : Continuous (cdf μ)) (obs : ℝ) (halfOpen : rule ≠ .ceil)
    (integer : bin.IntegerEdges) :
    lowMass μ obs rule bin = μ.real (settlesIn (min obs) rule bin) ↔
      cdf μ obs = 1 ∨
      (finite obs ≠ (preimage bin rule).1 ∧ finite obs ≠ (preimage bin rule).2) := by
  simp only [settlesIn, contains_round_iff integer halfOpen]
  rw [real_min μ obs (preimage_lt bin rule).le, real_below μ continuous, real_below μ continuous]
  have proper := preimage_lt bin rule
  have atObs : continued (cdf μ) (finite obs) = cdf μ obs := rfl
  unfold lowMass probabilityLowDay0Bin
  generalize preimage bin rule = bounds at *
  obtain ⟨lo, hi⟩ := bounds
  dsimp only at *
  rcases lt_trichotomy (finite obs) lo with under | rfl | above
  · simp [under, under.le, under.ne, (under.trans proper).ne]
  · simp only [le_refl, if_true, lt_irrefl, if_false, proper, atObs, ne_eq, not_true_eq_false,
      false_and, or_false]
    constructor <;> intro h <;> linarith
  · rcases lt_trichotomy (finite obs) hi with hin | rfl | hbe
    · simp [not_le.mpr above, not_lt.mpr above.le, above, above.ne', hin, hin.le, hin.ne]
    · simp only [not_le.mpr above, not_lt.mpr above.le, above, le_refl, and_self, if_true, if_false,
        lt_irrefl, atObs, ne_eq, not_true_eq_false, and_false, or_false]
      constructor <;> intro h <;> linarith
    · simp [not_le.mpr above, not_lt.mpr above.le, above, above.ne', not_le.mpr hbe,
        not_lt.mpr hbe.le, hbe.ne']
end

/-- On an accepted list with integer edges every bin's HIGH mass is the probability that the rounded
maximum settles in it, and the masses of a list that covers the integers add up to one; edges within
a thousand million degrees make an accepted list cover them. -/
theorem high_day0_matches_settlement (μ : Measure ℝ) [IsProbabilityMeasure μ]
    (continuous : Continuous (cdf μ)) (obs : ℝ) (rule : RoundingRule) (halfOpen : rule ≠ .ceil)
    (bins : List (Bin ℝ)) (acc : validateBinTopology bins = .ok ())
    (integer : ∀ bin ∈ bins, bin.IntegerEdges) :
    (∀ bin ∈ bins, highMass μ obs rule bin = μ.real (settlesIn (max obs) rule bin)) ∧
      (CoversIntegers bins → (bins.map (highMass μ obs rule)).sum = 1) ∧
      ((∀ bin ∈ bins, bin.Bounded) → (bins.map (highMass μ obs rule)).sum = 1) := by
  have total : CoversIntegers bins → (bins.map (highMass μ obs rule)).sum = 1 :=
    sum_highMass_eq_one μ continuous obs halfOpen acc integer
  refine ⟨fun bin mem => highMass_eq μ continuous obs halfOpen (integer bin mem), total, ?_⟩
  exact fun hbd => total (accepted_coversIntegers acc integer hbd)

/-- LOW conditioning agrees with settlement on every bin exactly when the observed low
is no preimage edge, or the remaining low cannot exceed it. -/
theorem low_day0_matches_settlement_iff (μ : Measure ℝ) [IsProbabilityMeasure μ]
    (continuous : Continuous (cdf μ)) (obs : ℝ) (rule : RoundingRule) (halfOpen : rule ≠ .ceil)
    (bins : List (Bin ℝ)) (integer : ∀ bin ∈ bins, bin.IntegerEdges) :
    (∀ bin ∈ bins, lowMass μ obs rule bin = μ.real (settlesIn (min obs) rule bin)) ↔
      cdf μ obs = 1 ∨
      ∀ bin ∈ bins, finite obs ≠ (preimage bin rule).1 ∧ finite obs ≠ (preimage bin rule).2 := by
  have each : ∀ bin ∈ bins, (lowMass μ obs rule bin = μ.real (settlesIn (min obs) rule bin) ↔
      cdf μ obs = 1 ∨ (finite obs ≠ (preimage bin rule).1 ∧ finite obs ≠ (preimage bin rule).2)) :=
    fun bin mem => lowMass_eq_iff μ continuous obs halfOpen (integer bin mem)
  rw [forall₂_congr each]
  by_cases certain : cdf μ obs = 1 <;> simp [certain]

section
def degreeBins : List (Bin ℝ) :=
  [⟨none, some (-1), .celsius, by simp⟩, ⟨some 0, some 0, .celsius, by simp [TempUnit.span]⟩,
   ⟨some 1, none, .celsius, by simp⟩]

theorem degreeBins_accepted : validateBinTopology degreeBins = .ok () := by
  have sorted : degreeBins.insertionSort ordersBefore = degreeBins := by
    apply List.Pairwise.insertionSort_eq
    simp [degreeBins, ordersBefore]
  rw [degreeBins] at sorted ⊢
  have asc : ¬ (1 : ℝ) ≤ 0 := by norm_num
  simp [validateBinTopology, sorted, checkNeighbours, checkAdjacent, isclose, asc]

theorem degreeBins_integer : ∀ bin ∈ degreeBins, bin.IntegerEdges := by
  have zero : ∃ z : ℤ, (0 : ℝ) = z := ⟨0, by simp⟩
  have one : ∃ z : ℤ, (1 : ℝ) = z := ⟨1, by simp⟩
  have minusOne : ∃ z : ℤ, (-1 : ℝ) = z := ⟨-1, by simp⟩
  simp [degreeBins, Bin.IntegerEdges, zero, one, minusOne]

theorem degreeBins_bounded : ∀ bin ∈ degreeBins, bin.Bounded := by
  simp [degreeBins, Bin.Bounded]

noncomputable def unitLaw : Measure ℝ := (volume : Measure ℝ).restrict (Set.Icc 0 1)

instance : IsProbabilityMeasure unitLaw := ⟨by simp [unitLaw]⟩

theorem unitLaw_continuous : Continuous (cdf unitLaw) := by
  have : NullSingletonClass unitLaw :=
    inferInstanceAs (NullSingletonClass ((volume : Measure ℝ).restrict (Set.Icc 0 1)))
  exact continuous_cdf_of_nullSingletons unitLaw

theorem unitLaw_cdf_zero : cdf unitLaw 0 = 0 := by
  have single : Set.Iic (0 : ℝ) ∩ Set.Icc 0 1 = {0} := by
    ext x
    simp only [Set.mem_inter_iff, Set.mem_Iic, Set.mem_Icc, Set.mem_singleton_iff]
    constructor
    · rintro ⟨upper, lower, -⟩
      exact le_antisymm upper lower
    · rintro rfl
      norm_num
  rw [cdf_eq_real, unitLaw, measureReal_restrict_apply measurableSet_Iic, single, measureReal_def,
    measure_singleton, ENNReal.toReal_zero]

theorem high_day0_unitLaw :
    (∀ bin ∈ degreeBins, highMass unitLaw 0 .oracleTruncate bin =
      unitLaw.real (settlesIn (max 0) .oracleTruncate bin)) ∧
    (degreeBins.map (highMass unitLaw 0 .oracleTruncate)).sum = 1 := by
  obtain ⟨settles, -, total⟩ := high_day0_matches_settlement unitLaw unitLaw_continuous 0
    .oracleTruncate (by decide) degreeBins degreeBins_accepted degreeBins_integer
  exact ⟨settles, total degreeBins_bounded⟩

/-- An observed low between the edges. -/
theorem low_day0_unitLaw :
    validateBinTopology degreeBins = .ok () ∧
    ∀ bin ∈ degreeBins, lowMass unitLaw (1 / 2) .oracleTruncate bin =
      unitLaw.real (settlesIn (min (1 / 2)) .oracleTruncate bin) := by
  refine ⟨degreeBins_accepted, (low_day0_matches_settlement_iff unitLaw unitLaw_continuous (1 / 2)
    .oracleTruncate (by decide) degreeBins degreeBins_integer).mpr (.inr ?_)⟩
  have above : finite (2⁻¹ : ℝ) ≠ finite 0 := (finite_lt_finite.mpr (by norm_num)).ne'
  have below : finite (2⁻¹ : ℝ) ≠ finite 1 := (finite_lt_finite.mpr (by norm_num)).ne
  simp [degreeBins, preimage, day0BinPreimageNative, defaultHalfStep, settlementPreimageOffsets,
    above, below, bot_lt_finite.ne', finite_lt_top.ne]

/-- An observed low of exactly zero under truncation: it is the lower preimage edge of
the zero bin, whose formula then says 0 although the settlement value is surely there. -/
theorem low_day0_fails_at_edge :
    validateBinTopology degreeBins = .ok () ∧
    CoversIntegers degreeBins ∧
    Continuous (cdf unitLaw) ∧
    ¬ ∀ bin ∈ degreeBins, lowMass unitLaw 0 .oracleTruncate bin =
          unitLaw.real (settlesIn (min 0) .oracleTruncate bin) := by
  refine ⟨degreeBins_accepted, ?_, unitLaw_continuous, fun all => ?_⟩
  · exact accepted_coversIntegers degreeBins_accepted degreeBins_integer degreeBins_bounded
  · have zeroBin := all ⟨some 0, some 0, .celsius, by simp [TempUnit.span]⟩ (by simp [degreeBins])
    rw [lowMass_eq_iff unitLaw unitLaw_continuous 0 (by decide)
      (degreeBins_integer _ (by simp [degreeBins])), unitLaw_cdf_zero] at zeroBin
    simp [preimage, day0BinPreimageNative, defaultHalfStep, settlementPreimageOffsets] at zeroBin
end

end Zeus.Day0Conditioner
