import Zeus.Contracts.SubmitAmounts
import Zeus.Lib.BestPick
import Zeus.Lib.Binary64
import Zeus.Solve.BuySizes

/-! An immediate BUY is legal when its cash, size times the deepest consumed price, has at most two
decimals. The nearest legal size on one side is searched level by level. Sizes, prices and amounts
are exact rationals; the step comes from a price that is scaled in doubles. -/

namespace Zeus.SingleOrder

open BestPick CostCurve GlobalOrder SubmitAmounts

/-- `x` is on the asked side and no farther than `y`: above it for `at_most`, below it otherwise. -/
def Toward (atMost : Bool) (x y : ℚ) : Prop := if atMost then y ≤ x else x ≤ y

instance (atMost : Bool) (x y : ℚ) : Decidable (Toward atMost x y) :=
  inferInstanceAs (Decidable (ite _ _ _))

inductive Side where
  | yes | no
  deriving DecidableEq

def Side.direction : Side → ExecutionDirection
  | .yes => .buyYes
  | .no => .buyNo

def priceUnits (limitPrice : ℚ) (tick : TickSize) : ℤ :=
  DecimalContext.roundHalfEven
    (Binary64.mul (Binary64.round limitPrice) (Binary64.round (10 ^ tick.decimals)))

def legalStep (limitPrice : ℚ) (tick : TickSize) : ℕ :=
  10 ^ tick.decimals / (priceUnits limitPrice tick).natAbs.gcd (10 ^ tick.decimals)

def unitCandidates (rawUnits : ℤ) (step : ℕ) : List ℤ :=
  let anchor := rawUnits / step
  let multiples :=
    ([-2, -1, 0, 1, 2, 3].map fun shift => anchor + shift).filter fun multiple => 0 ≤ multiple
  let units := multiples.flatMap fun multiple : ℤ => [-2, -1, 0, 1, 2].map fun offset : ℤ =>
    multiple * step + offset
  (units.filter fun units => 0 < units).dedup

def boundedCandidates (atMost : Bool) (limitPrice anchorSize : ℚ) (tick : TickSize) : List ℚ :=
  let rawUnits := if atMost then ⌊anchorSize / sizeQuantum⌋ else ⌈anchorSize / sizeQuantum⌉
  let sizes := (unitCandidates rawUnits (legalStep limitPrice tick)).map fun units : ℤ =>
    (units : ℚ) * sizeQuantum
  (sizes.filter fun size => Toward atMost anchorSize size).insertionSort (Toward atMost)

/-- The nearest candidate that the venue accepts, or what the quantizer finds. -/
def normalizedSize (atMost : Bool) (side : Side) (limitPrice anchorSize : ℚ) (tick : TickSize) :
    Option ℚ :=
  ((boundedCandidates atMost limitPrice anchorSize tick).find?
      (accepted side.direction limitPrice .fok tick)).or <|
    if atMost then quantizeSubmitSharesForVenueAtMost side.direction anchorSize limitPrice .fok tick
    else quantizeSubmitSharesForVenue side.direction anchorSize limitPrice .fok tick

structure Segment where
  (lower upper limitPrice : ℚ)

def segments : List (BookLevel ℚ) → ℚ → List Segment
  | [], _ => []
  | level :: rest, cumulative =>
    ⟨Grid.floorTo sizeQuantum cumulative + sizeQuantum,
      Grid.floorTo sizeQuantum (cumulative + level.size), level.price⟩ ::
      segments rest (cumulative + level.size)

def searchSegment (atMost : Bool) (side : Side) (current : ℚ) (tick : TickSize)
    (segment : Segment) : Option ℚ :=
  let lower := if atMost then segment.lower else max segment.lower current
  let upper := if atMost then min segment.upper current else segment.upper
  let anchorSize := if atMost then upper else lower
  if upper < lower then none
  else (normalizedSize atMost side segment.limitPrice anchorSize tick).filter fun size =>
    lower ≤ size ∧ size ≤ upper

inductive NeighborError where
  | movedInWrongDirection
  deriving DecidableEq

def makerLegalNeighbor (curve : ExecutableCostCurve ℚ) (side : Side) (shares : ℚ) (tick : TickSize)
    (atMost : Bool) : Except NeighborError (Option ℚ) :=
  match singleOrderExecutionBoundary curve shares false with
  | .error _ => .ok none
  | .ok boundary =>
    let quantized := if atMost then
        quantizeSubmitSharesForVenueAtMost side.direction shares boundary.limitPrice .gtc tick
      else quantizeSubmitSharesForVenue side.direction shares boundary.limitPrice .gtc tick
    match quantized with
    | none => .ok none
    | some normalized =>
      match singleOrderExecutionBoundary curve normalized false with
      | .error _ => .ok none
      | .ok _ =>
        if Toward atMost shares normalized then .ok (some normalized)
        else .error .movedInWrongDirection

def takerLegalNeighbor (curve : ExecutableCostCurve ℚ) (side : Side) (shares : ℚ) (tick : TickSize)
    (atMost : Bool) : Option ℚ :=
  let all := segments curve.levels 0
  if shares ≤ 0 ∨ depth curve.levels < shares then none
  else (if atMost then all.reverse else all).findSome? (searchSegment atMost side shares tick)

/-- `_single_order_venue_legal_neighbor`. -/
def venueLegalNeighbor (executionMode : ExecutionMode) (curve : ExecutableCostCurve ℚ) (side : Side)
    (shares : ℚ) (tick : TickSize) (atMost : Bool) : Except NeighborError (Option ℚ) :=
  match executionMode with
  | .makerRest => makerLegalNeighbor curve side shares tick atMost
  | .takerLimit => .ok (takerLegalNeighbor curve side shares tick atMost)

section
variable {atMost : Bool} {x y z : ℚ}

theorem Toward.refl (atMost : Bool) (x : ℚ) : Toward atMost x x := by
  cases atMost <;> exact le_rfl

theorem Toward.trans (first : Toward atMost x y) (snd : Toward atMost y z) : Toward atMost x z := by
  cases atMost
  · exact le_trans first snd
  · exact le_trans snd first

theorem Toward.antisymm (first : Toward atMost x y) (snd : Toward atMost y x) : x = y := by
  cases atMost
  · exact le_antisymm first snd
  · exact le_antisymm snd first

theorem Toward.total (atMost : Bool) (x y : ℚ) : Toward atMost x y ∨ Toward atMost y x := by
  cases atMost
  · exact le_total x y
  · exact le_total y x
end

section
variable {limitPrice : ℚ} {tick : TickSize}

theorem priceUnits_exact (pos : 0 < limitPrice) (hin : limitPrice < 1) (coarse : tick.decimals ≤ 15)
    (hal : HasDecimals limitPrice tick.decimals) :
    (priceUnits limitPrice tick : ℚ) = limitPrice * 10 ^ tick.decimals := by
  obtain ⟨units, isUnits⟩ := hasDecimals_iff.mp hal
  have scalePos : (0 : ℚ) < 10 ^ tick.decimals := by positivity
  have whole : Binary64.round ((10 : ℚ) ^ tick.decimals) = 10 ^ tick.decimals := by
    have small : (10 : ℤ) ^ tick.decimals < 2 ^ 53 :=
      lt_of_le_of_lt (pow_le_pow_right₀ (by norm_num) coarse) (by norm_num)
    exact_mod_cast @Binary64.round_intCast (10 ^ tick.decimals) (by positivity) small
  have size : limitPrice * 10 ^ tick.decimals ≤ 10 ^ 15 :=
    calc limitPrice * 10 ^ tick.decimals ≤ 1 * 10 ^ 15 :=
          mul_le_mul hin.le (pow_le_pow_right₀ (by norm_num) coarse) scalePos.le zero_le_one
      _ = 10 ^ 15 := one_mul _
  generalize product : limitPrice * 10 ^ tick.decimals = exactUnits at size isUnits
  have exactPos : 0 ≤ exactUnits := product ▸ (mul_pos pos scalePos).le
  -- two roundings, each by one part in 2 ^ 53
  have low : exactUnits * (1 - 1 / 2 ^ 53) ≤ Binary64.round limitPrice * 10 ^ tick.decimals := by
    have once := mul_le_mul_of_nonneg_right (Binary64.le_round pos.le) scalePos.le
    linarith
  have high : Binary64.round limitPrice * 10 ^ tick.decimals ≤ exactUnits * (1 + 1 / 2 ^ 53) := by
    have once := mul_le_mul_of_nonneg_right (Binary64.round_le pos.le) scalePos.le
    linarith
  have nn : 0 ≤ Binary64.round limitPrice * 10 ^ tick.decimals :=
    mul_nonneg (Binary64.round_nonneg pos.le) scalePos.le
  have below := Binary64.le_round nn
  have above := Binary64.round_le nn
  have near := DecimalContext.roundHalfEven_near
    (Binary64.round (Binary64.round limitPrice * 10 ^ tick.decimals))
  rw [priceUnits, whole, Binary64.mul]
  generalize Binary64.round limitPrice * 10 ^ tick.decimals = once at low high below above near ⊢
  generalize DecimalContext.roundHalfEven (Binary64.round once) = rounded at near ⊢
  have less : (rounded : ℚ) < units + 1 := by linarith
  have more : (units : ℚ) < rounded + 1 := by linarith
  have same : rounded = units := by
    have less : rounded < units + 1 := by exact_mod_cast less
    have more : units < rounded + 1 := by exact_mod_cast more
    omega
  rw [same, isUnits]

theorem hasDecimals_iff_dvd
    (isUnits : (priceUnits limitPrice tick : ℚ) = limitPrice * 10 ^ tick.decimals) (units : ℤ) :
    HasDecimals (units * sizeQuantum * limitPrice) sdkMakerVenueDecimals ↔
      (legalStep limitPrice tick : ℤ) ∣ units := by
  have scale : (10 : ℚ) ^ tick.decimals ≠ 0 := by positivity
  have cash : units * sizeQuantum * limitPrice * 10 ^ sdkMakerVenueDecimals =
      (units * priceUnits limitPrice tick : ℤ) / (10 ^ tick.decimals : ℤ) := by
    push_cast
    rw [isUnits, sizeQuantum, sdkMakerVenueDecimals]
    field_simp
    ring
  have divides : HasDecimals (units * sizeQuantum * limitPrice) sdkMakerVenueDecimals ↔
      (10 ^ tick.decimals : ℤ) ∣ units * priceUnits limitPrice tick := by
    rw [hasDecimals_iff, cash]
    constructor
    · rintro ⟨n, is⟩
      rw [div_eq_iff (by exact_mod_cast scale)] at is
      exact ⟨n, by rw [mul_comm _ n]; exact_mod_cast is⟩
    · rintro ⟨n, is⟩
      exact ⟨n, by rw [is]; push_cast; field_simp⟩
  rw [divides, legalStep]
  generalize priceUnits limitPrice tick = price
  have power : (10 ^ tick.decimals : ℤ) = ((10 ^ tick.decimals : ℕ) : ℤ) := by push_cast; rfl
  have hpos : 0 < (10 : ℕ) ^ tick.decimals := by positivity
  generalize (10 : ℕ) ^ tick.decimals = scale at power hpos ⊢
  rw [power, Int.natCast_dvd, Int.natCast_dvd, Int.natAbs_mul, mul_comm units.natAbs, Nat.gcd_comm,
    Nat.div_dvd_iff_dvd_mul (Nat.gcd_dvd_left _ _) (Nat.gcd_pos_of_pos_left _ hpos),
    Nat.dvd_gcd_mul_iff_dvd_mul]

theorem legalStep_pos (limitPrice : ℚ) (tick : TickSize) : 0 < legalStep limitPrice tick := by
  have hpos : 0 < (10 : ℕ) ^ tick.decimals := by positivity
  exact Nat.div_pos (Nat.le_of_dvd hpos (Nat.gcd_dvd_right _ _)) (Nat.gcd_pos_of_pos_right _ hpos)
end

section
variable {atMost : Bool} {side : Side} {limitPrice anchorSize : ℚ} {tick : TickSize}

theorem mem_unitCandidates {rawUnits shift : ℤ} {step : ℕ} (near : shift ∈ [-2, -1, 0, 1, 2, 3])
    (nn : 0 ≤ rawUnits / step + shift) (pos : 0 < (rawUnits / step + shift) * step) :
    (rawUnits / step + shift) * step ∈ unitCandidates rawUnits step := by
  rw [unitCandidates, List.mem_dedup, List.mem_filter]
  refine ⟨List.mem_flatMap.mpr ⟨rawUnits / step + shift, ?_, ?_⟩, by simpa using pos⟩
  · exact List.mem_filter.mpr ⟨List.mem_map.mpr ⟨shift, near, rfl⟩, by simpa using nn⟩
  · exact List.mem_map.mpr ⟨0, by simp, add_zero _⟩

structure LegalAt (atMost : Bool) (limitPrice anchorSize shares : ℚ) : Prop where
  grid : Grid.On sizeQuantum shares
  positive : 0 < shares
  onSide : Toward atMost anchorSize shares
  cents : HasDecimals (shares * limitPrice) sdkMakerVenueDecimals

theorem mem_boundedCandidates {size : ℚ} :
    size ∈ boundedCandidates atMost limitPrice anchorSize tick ↔
      (∃ units ∈ unitCandidates
          (if atMost then ⌊anchorSize / sizeQuantum⌋ else ⌈anchorSize / sizeQuantum⌉)
          (legalStep limitPrice tick),
          (units : ℚ) * sizeQuantum = size) ∧
      Toward atMost anchorSize size := by
  rw [boundedCandidates, List.mem_insertionSort, List.mem_filter, List.mem_map, decide_eq_true_eq]

theorem candidate_below {rawUnits multiple : ℤ} {step : ℕ} (steps : 0 < (step : ℤ))
    (pos : 0 < multiple * step) (hle : multiple * step ≤ rawUnits) :
    ∃ units ∈ unitCandidates rawUnits step, (step : ℤ) ∣ units ∧
      multiple * step ≤ units ∧
      units ≤ rawUnits := by
  have count : multiple ≤ rawUnits / step := (Int.le_ediv_iff_mul_le steps).mpr hle
  have atLeast : multiple * step ≤ rawUnits / step * step :=
    mul_le_mul_of_nonneg_right count steps.le
  have first : 0 < multiple := pos_of_mul_pos_left pos steps.le
  refine ⟨(rawUnits / step + 0) * step, mem_unitCandidates (by simp) (by omega) ?_,
    dvd_mul_left _ _, ?_, ?_⟩
  · rw [add_zero]
    omega
  · rwa [add_zero]
  · rw [add_zero]
    exact Int.ediv_mul_le _ steps.ne'

theorem candidate_above {rawUnits multiple : ℤ} {step : ℕ} (steps : 0 < (step : ℤ))
    (hpos : 0 < rawUnits) (hle : rawUnits ≤ multiple * step) :
    ∃ units ∈ unitCandidates rawUnits step, (step : ℤ) ∣ units ∧
      units ≤ multiple * step ∧
      rawUnits ≤ units := by
  have count : 0 ≤ rawUnits / step := Int.ediv_nonneg hpos.le steps.le
  have below : rawUnits / step * step ≤ rawUnits := Int.ediv_mul_le _ steps.ne'
  have above : rawUnits < (rawUnits / step + 1) * step := Int.lt_ediv_add_one_mul_self _ steps
  rcases below.eq_or_lt with whole | part
  · refine ⟨(rawUnits / step + 0) * step, mem_unitCandidates (by simp) (by omega) ?_,
      dvd_mul_left _ _, ?_, ?_⟩
    · rw [add_zero]
      omega
    · rw [add_zero]
      omega
    · rw [add_zero]
      omega
  · have next : rawUnits / step < multiple := lt_of_mul_lt_mul_right (part.trans_le hle) steps.le
    refine ⟨(rawUnits / step + 1) * step,
      mem_unitCandidates (by simp) (by omega) (hpos.trans above), dvd_mul_left _ _,
      mul_le_mul_of_nonneg_right next steps.le, above.le⟩

theorem exists_candidate
    (isUnits : (priceUnits limitPrice tick : ℚ) = limitPrice * 10 ^ tick.decimals)
    (anchored : 0 < anchorSize) {shares : ℚ} (legal : LegalAt atMost limitPrice anchorSize shares) :
    ∃ size ∈ boundedCandidates atMost limitPrice anchorSize tick,
      HasDecimals (size * limitPrice) sdkMakerVenueDecimals ∧ Toward atMost size shares := by
  obtain ⟨⟨units, rfl⟩, pos, onSide, cents⟩ := legal
  obtain ⟨multiple, rfl⟩ := (hasDecimals_iff_dvd isUnits units).mp cents
  have step : 0 < (legalStep limitPrice tick : ℤ) := by exact_mod_cast legalStep_pos limitPrice tick
  rw [mul_comm (legalStep limitPrice tick : ℤ)] at pos onSide cents ⊢
  have hpos : 0 < multiple * (legalStep limitPrice tick : ℤ) := by
    exact_mod_cast (mul_pos_iff_of_pos_right sizeQuantum_pos).mp pos
  cases atMost with
  | true =>
    have hle : multiple * legalStep limitPrice tick ≤ ⌊anchorSize / sizeQuantum⌋ :=
      Int.le_floor.mpr ((le_div_iff₀ sizeQuantum_pos).mpr onSide)
    obtain ⟨units, cand, legal, nearer, hin⟩ := candidate_below step hpos hle
    refine ⟨units * sizeQuantum, mem_boundedCandidates.mpr ⟨⟨units, cand, rfl⟩, ?_⟩,
      (hasDecimals_iff_dvd isUnits units).mpr legal, ?_⟩
    · exact (le_div_iff₀ sizeQuantum_pos).mp (Int.le_floor.mp hin)
    · exact mul_le_mul_of_nonneg_right (by exact_mod_cast nearer) sizeQuantum_pos.le
  | false =>
    have hle : ⌈anchorSize / sizeQuantum⌉ ≤ multiple * legalStep limitPrice tick :=
      Int.ceil_le.mpr ((div_le_iff₀ sizeQuantum_pos).mpr onSide)
    obtain ⟨units, cand, legal, nearer, hin⟩ :=
      candidate_above step (Int.ceil_pos.mpr (div_pos anchored sizeQuantum_pos)) hle
    refine ⟨units * sizeQuantum, mem_boundedCandidates.mpr ⟨⟨units, cand, rfl⟩, ?_⟩,
      (hasDecimals_iff_dvd isUnits units).mpr legal, ?_⟩
    · exact (div_le_iff₀ sizeQuantum_pos).mp (Int.ceil_le.mp hin)
    · exact mul_le_mul_of_nonneg_right (by exact_mod_cast nearer) sizeQuantum_pos.le

theorem pairwise_boundedCandidates :
    (boundedCandidates atMost limitPrice anchorSize tick).Pairwise (Toward atMost) := by
  have total : Std.Total (Toward atMost) := ⟨Toward.total atMost⟩
  have trans : IsTrans ℚ (Toward atMost) := ⟨fun _ _ _ => Toward.trans⟩
  exact List.pairwise_insertionSort _ _

theorem positive_of_mem {size : ℚ}
    (mem : size ∈ boundedCandidates atMost limitPrice anchorSize tick) :
    Grid.On sizeQuantum size ∧ 0 < size ∧ Toward atMost anchorSize size := by
  obtain ⟨⟨units, cand, rfl⟩, onSide⟩ := mem_boundedCandidates.mp mem
  have pos : 0 < units := by
    rw [unitCandidates, List.mem_dedup, List.mem_filter] at cand
    simpa using cand.2
  exact ⟨⟨units, rfl⟩, mul_pos (by exact_mod_cast pos) sizeQuantum_pos, onSide⟩

theorem normalizedSize_best
    (isUnits : (priceUnits limitPrice tick : ℚ) = limitPrice * 10 ^ tick.decimals)
    (hal : HasDecimals limitPrice tick.decimals) (anchored : 0 < anchorSize) :
    Best (Toward atMost) (LegalAt atMost limitPrice anchorSize)
      (normalizedSize atMost side limitPrice anchorSize tick) := by
  have buys : side.direction.isBuy := by cases side <;> rfl
  have accepts {size : ℚ} (grid : Grid.On sizeQuantum size) :
      accepted side.direction limitPrice .fok tick size ↔
        HasDecimals (size * limitPrice) sdkMakerVenueDecimals :=
    accepted_iff buys rfl grid hal
  have srch :=
    best_find? (Toward.refl atMost) (@pairwise_boundedCandidates atMost limitPrice anchorSize tick)
    (accepted side.direction limitPrice .fok tick)
  refine Best.or (srch.of_dominated Toward.trans ?_ ?_) ?_
  · rintro size ⟨mem, isAcc⟩
    obtain ⟨grid, pos, onSide⟩ := positive_of_mem mem
    exact ⟨grid, pos, onSide, (accepts grid).mp isAcc⟩
  · intro size legal
    obtain ⟨nearer, mem, cents, toward⟩ := exists_candidate isUnits anchored legal
    exact ⟨nearer, ⟨mem, (accepts (positive_of_mem mem).1).mpr cents⟩, toward⟩
  · intro size hf
    cases atMost with
    | true =>
      obtain ⟨isAcc, grid, pos, onSide⟩ := quantizeSubmitSharesForVenueAtMost_some buys rfl hf
      exact ⟨grid, pos, onSide, (accepts grid).mp isAcc⟩
    | false =>
      obtain ⟨isAcc, grid, pos, onSide⟩ := quantizeSubmitSharesForVenue_some buys rfl hf
      exact ⟨grid, pos, onSide, (accepts grid).mp isAcc⟩
end

structure Legal (curve : ExecutableCostCurve ℚ) (shares : ℚ) : Prop where
  grid : Grid.On sizeQuantum shares
  positive : 0 < shares
  cents : ∃ level, reachedLevel 0 curve.levels shares = some level ∧
    HasDecimals (shares * level.price) sdkMakerVenueDecimals

section
variable {atMost : Bool} {side : Side} {current shares start : ℚ} {tick : TickSize}
  {levels : List (BookLevel ℚ)}
  {segment : Segment}

structure LegalIn (atMost : Bool) (current : ℚ) (segment : Segment) (shares : ℚ) : Prop where
  grid : Grid.On sizeQuantum shares
  onSide : Toward atMost current shares
  lower : segment.lower ≤ shares
  upper : shares ≤ segment.upper
  cents : HasDecimals (shares * segment.limitPrice) sdkMakerVenueDecimals

theorem searchSegment_best
    (isUnits : (priceUnits segment.limitPrice tick : ℚ) = segment.limitPrice * 10 ^ tick.decimals)
    (hal : HasDecimals segment.limitPrice tick.decimals) (pos : 0 < segment.lower) :
    Best (Toward atMost) (LegalIn atMost current segment)
      (searchSegment atMost side current tick segment) := by
  cases atMost with
  | true =>
    simp only [searchSegment, if_true]
    split_ifs with empty
    · exact fun size legal =>
        absurd (legal.lower.trans (le_min legal.upper legal.onSide)) (not_le.mpr empty)
    · have best := @normalizedSize_best true side segment.limitPrice (min segment.upper current)
        tick isUnits hal (pos.trans_le (not_lt.mp empty))
      refine (best.filter fun better size has nearer legal kept => ?_).congr fun size => ?_
      · simp only [decide_eq_true_eq] at kept ⊢
        exact ⟨kept.1.trans nearer, has.onSide⟩
      · simp only [decide_eq_true_eq]
        refine ⟨fun ⟨legal, lower, upper⟩ => ?_, fun legal => ?_⟩
        · exact ⟨legal.grid, upper.trans (min_le_right _ _), lower, upper.trans (min_le_left _ _),
            legal.cents⟩
        · have upper := le_min legal.upper legal.onSide
          exact ⟨⟨legal.grid, pos.trans_le legal.lower, upper, legal.cents⟩, legal.lower, upper⟩
  | false =>
    simp only [searchSegment, Bool.false_eq_true, if_false]
    split_ifs with empty
    · exact fun size legal =>
        absurd ((max_le legal.lower legal.onSide).trans legal.upper) (not_le.mpr empty)
    · have best := @normalizedSize_best false side segment.limitPrice (max segment.lower current)
        tick isUnits hal (pos.trans_le (le_max_left _ _))
      refine (best.filter fun better size has nearer legal kept => ?_).congr fun size => ?_
      · simp only [decide_eq_true_eq] at kept ⊢
        exact ⟨has.onSide, le_trans nearer kept.2⟩
      · simp only [decide_eq_true_eq]
        refine ⟨fun ⟨legal, lower, upper⟩ => ?_, fun legal => ?_⟩
        · exact ⟨legal.grid, (le_max_right _ _).trans lower, (le_max_left _ _).trans lower, upper,
            legal.cents⟩
        · have lower := max_le legal.lower legal.onSide
          exact ⟨⟨legal.grid, pos.trans_le legal.lower, lower, legal.cents⟩, lower, legal.upper⟩

theorem mem_segment_iff (grid : Grid.On sizeQuantum shares) (size : ℚ) :
    (Grid.floorTo sizeQuantum start + sizeQuantum ≤ shares ↔ start < shares) ∧
      (shares ≤ Grid.floorTo sizeQuantum (start + size) ↔ shares ≤ start + size) := by
  refine ⟨?_, Grid.le_floorTo_iff sizeQuantum_pos grid⟩
  rw [(Grid.on_floorTo _ _).add_le_iff sizeQuantum_pos grid, ← not_le,
    Grid.le_floorTo_iff sizeQuantum_pos grid, not_le]

theorem exists_segment_iff (grid : Grid.On sizeQuantum shares) (P : ℚ → Prop) :
    (∃ segment ∈ segments levels start, (segment.lower ≤ shares ∧ shares ≤ segment.upper) ∧
          P segment.limitPrice) ↔
      start < shares ∧ ∃ lv, reachedLevel 0 levels (shares - start) = some lv ∧ P lv.price := by
  induction levels generalizing start with
  | nil => simp [segments, reachedLevel]
  | cons lv rest ih =>
    have size := lv.size_pos
    obtain ⟨lower, upper⟩ := @mem_segment_iff shares start grid lv.size
    simp only [segments, List.mem_cons, exists_eq_or_imp, ih, lower, upper]
    rcases le_or_gt shares (start + lv.size) with here | hbe
    · rw [reachedLevel_here (by linarith)]
      simp [here, here.not_gt]
    · rw [reachedLevel_later (by linarith), sub_sub]
      have past : start < shares := by linarith
      simp [hbe, hbe.not_ge, past]

theorem lower_of_mem (mem : segment ∈ segments levels start) :
    Grid.floorTo sizeQuantum start + sizeQuantum ≤ segment.lower ∧
    ∃ lv ∈ levels, lv.price = segment.limitPrice := by
  induction levels generalizing start with
  | nil => exact absurd mem List.not_mem_nil
  | cons lv rest ih =>
    rcases List.mem_cons.mp mem with rfl | later
    · exact ⟨le_rfl, lv, List.mem_cons_self, rfl⟩
    · obtain ⟨past, deeper, isDeeper, same⟩ := ih later
      have further : Grid.floorTo sizeQuantum start ≤ Grid.floorTo sizeQuantum (start + lv.size) :=
        (Grid.le_floorTo_iff sizeQuantum_pos (Grid.on_floorTo _ _)).mpr
          ((Grid.floorTo_le sizeQuantum_pos start).trans (le_add_of_nonneg_right lv.size_pos.le))
      exact ⟨by linarith, deeper, List.mem_cons_of_mem _ isDeeper, same⟩

theorem pairwise_segments :
    (segments levels start).Pairwise fun earlier later => earlier.upper < later.lower := by
  induction levels generalizing start with
  | nil => exact List.Pairwise.nil
  | cons lv rest ih =>
    refine List.pairwise_cons.mpr ⟨fun later mem => ?_, ih⟩
    exact (lt_add_of_pos_right _ sizeQuantum_pos).trans_le (lower_of_mem mem).1

variable {curve : ExecutableCostCurve ℚ}

theorem takerLegalNeighbor_best (coarse : tick.decimals ≤ 15)
    (hal : ∀ lv ∈ curve.levels, HasDecimals lv.price tick.decimals) (pos : 0 < current)
    (fits : current ≤ depth curve.levels) :
    Best (Toward atMost) (fun shares => Legal curve shares ∧ Toward atMost current shares)
      (takerLegalNeighbor curve side current tick atMost) := by
  have each (segment : Segment) (mem : segment ∈ segments curve.levels 0) :
      Best (Toward atMost) (LegalIn atMost current segment)
        (searchSegment atMost side current tick segment) := by
    obtain ⟨past, lv, isLevel, same⟩ := lower_of_mem mem
    have decimals := same ▸ hal lv isLevel
    have first : (0 : ℚ) < segment.lower := by
      have zero : Grid.floorTo sizeQuantum 0 = 0 := by simp [Grid.floorTo]
      linarith [sizeQuantum_pos]
    refine searchSegment_best (priceUnits_exact ?_ ?_ coarse decimals) decimals first
    · exact same ▸ lv.price_pos
    · exact same ▸ lv.price_lt_one
  have covers (shares : ℚ) : (∃ segment ∈ segments curve.levels 0,
        LegalIn atMost current segment shares) ↔
        Legal curve shares ∧ Toward atMost current shares := by
    constructor
    · rintro ⟨segment, mem, legal⟩
      obtain ⟨hpos, lv, hr, cents⟩ :=
        (exists_segment_iff legal.grid fun price =>
            HasDecimals (shares * price) sdkMakerVenueDecimals).mp
          ⟨segment, mem, ⟨legal.lower, legal.upper⟩, legal.cents⟩
      rw [sub_zero] at hr
      exact ⟨⟨legal.grid, hpos, lv, hr, cents⟩, legal.onSide⟩
    · rintro ⟨⟨grid, hpos, lv, hr, cents⟩, onSide⟩
      obtain ⟨segment, mem, ⟨lower, upper⟩, cents⟩ :=
        (exists_segment_iff grid fun price =>
            HasDecimals (shares * price) sdkMakerVenueDecimals).mpr
          ⟨hpos, lv, by rwa [sub_zero], cents⟩
      exact ⟨segment, mem, grid, onSide, lower, upper, cents⟩
  rw [takerLegalNeighbor, if_neg (by simp [pos, fits])]
  cases atMost with
  | true =>
    simp only [if_true]
    have srch := best_findSome? (fun segment mem => each segment (List.mem_reverse.mp mem))
      (List.pairwise_reverse.mpr
          (pairwise_segments.imp fun {prior later} hne x y isLater isEarlier =>
        isEarlier.upper.trans (hne.le.trans isLater.lower)))
    exact srch.congr fun shares => by rw [← covers shares]; simp only [List.mem_reverse]
  | false =>
    simp only [Bool.false_eq_true, if_false]
    have srch := best_findSome? each
      (pairwise_segments.imp fun {prior later} hne x y isEarlier isLater =>
      isEarlier.upper.trans (hne.le.trans isLater.lower))
    exact srch.congr covers
end

/-- On tick-aligned prices the neighbour of a size within the depth is the largest legal size at
most as large, and the smallest at least as large that the depth covers, or nothing if there is
none. -/
theorem venueLegalNeighbor_nearest (curve : ExecutableCostCurve ℚ) (tick : TickSize) (side : Side)
    (shares : ℚ) (isTick : curve.minTick = tick.value) (coarse : tick.decimals ≤ 15)
    (hal : ∀ lv ∈ curve.levels, ∃ ticks : ℕ, lv.price = ticks * curve.minTick) (pos : 0 < shares)
    (fits : shares ≤ depth curve.levels) :
    (∃ below, venueLegalNeighbor .takerLimit curve side shares tick true = .ok below ∧
        (∀ x, below = some x ↔ IsGreatest {x | Legal curve x ∧ x ≤ shares} x) ∧
        (below = none ↔ ∀ x, Legal curve x → ¬ x ≤ shares)) ∧
    ∃ above, venueLegalNeighbor .takerLimit curve side shares tick false = .ok above ∧
      (∀ x, above = some x ↔ IsLeast {x | Legal curve x ∧ shares ≤ x} x) ∧
      (above = none ↔ ∀ x, Legal curve x → ¬ shares ≤ x) := by
  have decimals : ∀ lv ∈ curve.levels, HasDecimals lv.price tick.decimals := by
    intro lv mem
    obtain ⟨ticks, is⟩ := hal lv mem
    refine hasDecimals_iff.mpr ⟨ticks * tick.coefficient, ?_⟩
    rw [is, isTick, TickSize.value]
    push_cast
    field_simp
  have best (atMost : Bool) :=
    @takerLegalNeighbor_best atMost side shares tick curve coarse decimals pos fits
  refine ⟨⟨_, rfl, fun x => ?_, ?_⟩, _, rfl, fun x => ?_, ?_⟩
  · exact (best true).some_iff Toward.antisymm
  · exact (best true).none_iff.trans (forall_congr' fun x => not_and)
  · exact (best false).some_iff Toward.antisymm
  · exact (best false).none_iff.trans (forall_congr' fun x => not_and)

def flatBook (minTick : ℚ) (positive : 0 < minTick)
    (grid : ∃ ticks : ℤ, |(56 / 100 : ℚ) / minTick - ticks| ≤ gridEps) : ExecutableCostCurve ℚ where
  levels := [⟨56 / 100, 100, by norm_num, by norm_num, by norm_num⟩]
  feeModel := noFee
  minTick := minTick
  minOrderSize := 15
  levels_ne_nil := List.cons_ne_nil _ _
  minTick_pos := positive
  minOrderSize_pos := by norm_num
  onGrid := by simpa using grid
  cheapestFirst := List.pairwise_singleton _ _

def centBook : ExecutableCostCurve ℚ := flatBook (1 / 100) (by norm_num) ⟨56, by norm_num [gridEps]⟩

theorem quarter_shares_nearest :
    takerLegalNeighbor centBook .yes (47 / 100) ⟨1, 2, by decide⟩ true = some (1 / 4) ∧
    (∃ above,
        venueLegalNeighbor .takerLimit centBook .yes (47 / 100) ⟨1, 2, by decide⟩ false =
          .ok above ∧
        (∀ x, above = some x ↔ IsLeast {x | Legal centBook x ∧ 47 / 100 ≤ x} x)) := by
  refine ⟨by decide +kernel, ?_⟩
  obtain ⟨-, above, is, least, -⟩ :=
    venueLegalNeighbor_nearest centBook ⟨1, 2, by decide⟩ .yes (47 / 100)
    (by norm_num [centBook, flatBook, TickSize.value]) (by decide) (by
      intro lv mem
      rw [List.mem_singleton.mp mem]
      exact ⟨56, by norm_num [centBook, flatBook]⟩) (by norm_num)
        (by norm_num [depth, centBook, flatBook])
  exact ⟨above, is, least⟩

def fineBook : ExecutableCostCurve ℚ :=
  flatBook (1 / 10 ^ 16) (by norm_num) ⟨56 * 10 ^ 14, by norm_num [gridEps]⟩

/-- With a tick of sixteen decimals the double of 56 cents is off by one unit: the step is the whole
scale, and no neighbour of a quarter share, itself legal, is found. -/
theorem fine_tick_misses_quarter :
    fineBook.minTick = TickSize.value ⟨1, 16, by decide⟩ ∧
    priceUnits (56 / 100) ⟨1, 16, by decide⟩ = 5600000000000001 ∧
    takerLegalNeighbor fineBook .yes (1 / 4) ⟨1, 16, by decide⟩ false = none ∧
    Legal fineBook (1 / 4) := by
  refine ⟨by norm_num [fineBook, flatBook, TickSize.value], by decide +kernel, by decide +kernel,
    ?_⟩
  exact ⟨⟨25, by norm_num [sizeQuantum]⟩, by norm_num,
    ⟨56 / 100, 100, by norm_num, by norm_num, by norm_num⟩,
    reachedLevel_here (by norm_num), by decide +kernel⟩

end Zeus.SingleOrder
