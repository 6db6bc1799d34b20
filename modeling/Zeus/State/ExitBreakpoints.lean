import Zeus.Decision.PredictedBinLaw

/-! `_exit_bid_breakpoints` walks the bid ladder up to the holding and records the curve after each
rung that fills. -/

namespace Zeus.PredictedBin

variable {α : Type*} [Field α] [LinearOrder α]

structure BidLevel (α : Type*) where
  (price size : α)

/-- The fields of an exit context that the curve reads; an amount that is not finite is missing. -/
structure ExitContext (α : Type*) where
  (bestBid bidSize : Option α)
  bidLadder : List (BidLevel α)

def exitBidFeeEps : ℚ := 1 / 10 ^ 6

/-- `_net_per_share`: the clamp keeps the fee's price inside the unit interval. -/
def netPerShare (feeRate price : α) : α :=
  let clamped := min (max price (exitBidFeeEps : α)) (1 - (exitBidFeeEps : α))
  price - feeRate * clamped * (1 - clamped)

def breakpointLoop (feeRate : α) : List (BidLevel α) → α → α → α → List (α × α)
  | [], _, _, _ => []
  | level :: rest, remaining, proceeds, filled =>
    if remaining ≤ 0 then []
    else
      let take := min remaining (max 0 level.size)
      if take ≤ 0 then breakpointLoop feeRate rest remaining proceeds filled
      else
        let proceeds := proceeds + take * netPerShare feeRate level.price
        let filled := filled + take
        (filled, proceeds) :: breakpointLoop feeRate rest (remaining - take) proceeds filled

/-- `_exit_bid_breakpoints`: the ladder, else the top of the book, else the best bid without a
size. -/
def exitBidBreakpoints (feeRate : α) (context : ExitContext α) (heldShares : α) : List (α × α) :=
  match context.bestBid with
  | none => []
  | some bid =>
    if heldShares ≤ 0 then []
    else
      match context.bidLadder with
      | level :: rest => breakpointLoop feeRate (level :: rest) heldShares 0 0
      | [] =>
        match context.bidSize.filter (0 ≤ ·) with
        | some bidSize =>
          let xFill := min heldShares bidSize
          [(xFill, xFill * netPerShare feeRate bid)]
        | none => [(heldShares, heldShares * netPerShare feeRate bid)]

def netProceeds (feeRate : α) : List (BidLevel α) → α → α
  | [], _ => 0
  | level :: rest, x =>
    let take := min x (max 0 level.size)
    take * netPerShare feeRate level.price + netProceeds feeRate rest (x - take)

def depth (ladder : List (BidLevel α)) : α := (ladder.map fun level => max 0 level.size).sum

def ExitContext.pricedLadder (context : ExitContext α) (heldShares : α) : List (BidLevel α) :=
  match context.bestBid with
  | none => []
  | some bid =>
    match context.bidLadder with
    | level :: rest => level :: rest
    | [] => [⟨bid, (context.bidSize.filter (0 ≤ ·)).getD heldShares⟩]

variable {feeRate x remaining proceeds filled : α} {ladder rest : List (BidLevel α)}
  {level : BidLevel α}

theorem netProceeds_zero : netProceeds feeRate ladder 0 = 0 := by
  induction ladder with
  | nil => rfl
  | cons level rest ih => simp [netProceeds, ih]

theorem netProceeds_cons_of_le (hle : x ≤ max 0 level.size) :
    netProceeds feeRate (level :: rest) x = x * netPerShare feeRate level.price := by
  simp [netProceeds, min_eq_left hle, netProceeds_zero]

theorem netProceeds_cons_of_ge (past : max 0 level.size ≤ x) :
    netProceeds feeRate (level :: rest) x =
      max 0 level.size * netPerShare feeRate level.price +
        netProceeds feeRate rest (x - max 0 level.size) := by
  simp [netProceeds, min_eq_right past]

theorem netProceeds_cons_of_empty (empty : max 0 level.size = 0) (from0 : 0 ≤ x) :
    netProceeds feeRate (level :: rest) x = netProceeds feeRate rest x := by
  rw [netProceeds_cons_of_ge (empty.trans_le from0), empty, zero_mul, zero_add, sub_zero]

theorem empty_of_take_nonpos (left : 0 < remaining) (empty : min remaining (max 0 level.size) ≤ 0) :
    max 0 level.size = 0 := by
  rcases min_le_iff.mp empty with spent | none
  · exact absurd left spent.not_gt
  · exact le_antisymm none (le_max_left 0 level.size)

theorem depth_cons : depth (level :: rest) = max 0 level.size + depth rest := by simp [depth]

variable [IsStrictOrderedRing α]

theorem depth_nonneg (ladder : List (BidLevel α)) : 0 ≤ depth ladder := by
  refine List.sum_nonneg fun width mem => ?_
  obtain ⟨level, -, rfl⟩ := List.mem_map.mp mem
  exact le_max_left 0 level.size

theorem netProceeds_cons_add (from0 : 0 ≤ x)
    (hle : x ≤ remaining - min remaining (max 0 level.size)) :
    netProceeds feeRate (level :: rest) (min remaining (max 0 level.size) + x) =
      min remaining (max 0 level.size) * netPerShare feeRate level.price +
        netProceeds feeRate rest x := by
  rcases le_total remaining (max 0 level.size) with short | cov
  · rw [min_eq_left short, sub_self] at hle
    obtain rfl := le_antisymm hle from0
    rw [add_zero, netProceeds_zero, add_zero, netProceeds_cons_of_le (min_le_right _ _)]
  · rw [min_eq_right cov, netProceeds_cons_of_ge (le_add_of_nonneg_right from0),
      add_sub_cancel_left]

theorem breakpointLoop_onCurve {point : α × α}
    (mem : point ∈ breakpointLoop feeRate ladder remaining proceeds filled) :
    ∃ x, 0 ≤ x ∧
      x ≤ min remaining (depth ladder) ∧
      point = (filled + x, proceeds + netProceeds feeRate ladder x) := by
  induction ladder generalizing remaining proceeds filled with
  | nil => simp [breakpointLoop] at mem
  | cons level rest ih =>
    rw [depth_cons]
    unfold breakpointLoop at mem
    dsimp only at mem
    split_ifs at mem with spent skipped
    · simp at mem
    · have empty := empty_of_take_nonpos (not_le.mp spent) skipped
      obtain ⟨x, from0, hle, rfl⟩ := ih mem
      exact ⟨x, from0, by rwa [empty, zero_add], by rw [netProceeds_cons_of_empty empty from0]⟩
    · have deep := depth_nonneg rest
      rcases List.mem_cons.mp mem with rfl | later
      · refine ⟨min remaining (max 0 level.size), (not_le.mp skipped).le, ?_, ?_⟩
        · exact le_min (min_le_left _ _) ((min_le_right _ _).trans (le_add_of_nonneg_right deep))
        · rw [netProceeds_cons_of_le (min_le_right _ _)]
      · obtain ⟨x, from0, hle, rfl⟩ := ih later
        obtain ⟨hle, deepEnough⟩ := le_min_iff.mp hle
        refine ⟨min remaining (max 0 level.size) + x, add_nonneg (not_le.mp skipped).le from0, ?_,
          ?_⟩
        · exact le_min (by linarith) (add_le_add (min_le_right _ _) deepEnough)
        · rw [netProceeds_cons_add from0 hle, add_assoc, add_assoc]

/-- Against any slope, a sale is no better than none or than a record. -/
theorem breakpointLoop_corners (slope : α) (from0 : 0 ≤ x)
    (hle : x ≤ min remaining (depth ladder)) :
    netProceeds feeRate ladder x - slope * x ≤ 0 ∨
    ∃ point ∈ breakpointLoop feeRate ladder remaining proceeds filled,
      netProceeds feeRate ladder x - slope * x ≤
        point.2 - proceeds - slope * (point.1 - filled) := by
  induction ladder generalizing remaining proceeds filled x with
  | nil =>
    obtain rfl : x = 0 := le_antisymm (hle.trans (min_le_right _ _)) from0
    simp [netProceeds]
  | cons level rest ih =>
    rw [depth_cons] at hle
    obtain ⟨toRemaining, toDepth⟩ := le_min_iff.mp hle
    unfold breakpointLoop
    dsimp only
    split_ifs with spent skipped
    · obtain rfl : x = 0 := le_antisymm (toRemaining.trans spent) from0
      simp [netProceeds_zero]
    · have empty := empty_of_take_nonpos (not_le.mp spent) skipped
      rw [netProceeds_cons_of_empty empty from0]
      exact ih from0 (by rwa [empty, zero_add] at hle)
    · have pos := not_le.mp skipped
      rcases le_total x (min remaining (max 0 level.size)) with inFirst | past
      · -- the first piece is linear from the hold to its record
        rw [netProceeds_cons_of_le (inFirst.trans (min_le_right _ _))]
        rcases le_total (netPerShare feeRate level.price) slope with poor | rich
        · exact .inl (by nlinarith)
        · exact .inr ⟨_, List.mem_cons_self, by nlinarith⟩
      · have hbe : 0 ≤ x - min remaining (max 0 level.size) := sub_nonneg.mpr past
        have toRest : x - min remaining (max 0 level.size) ≤
            min (remaining - min remaining (max 0 level.size)) (depth rest) := by
          refine le_min (by linarith) ?_
          rcases le_total remaining (max 0 level.size) with short | cov
          · rw [min_eq_left short]
            linarith [depth_nonneg rest]
          · rw [min_eq_right cov]
            linarith
        have wkd :=
          @netProceeds_cons_add _ _ _ feeRate _ remaining rest level _ hbe (le_min_iff.mp toRest).1
        rw [add_sub_cancel] at wkd
        rw [wkd]
        rcases ih hbe toRest with low | ⟨point, mem, low⟩
        · exact .inr ⟨_, List.mem_cons_self, by linarith⟩
        · exact .inr ⟨point, List.mem_cons_of_mem _ mem, by linarith⟩

theorem breakpointLoop_traces {held : α} (pos : 0 < held) :
    Traces (netProceeds feeRate ladder) (min held (depth ladder))
      (breakpointLoop feeRate ladder held 0 0) where
  nonneg := le_min pos.le (depth_nonneg ladder)
  zero := netProceeds_zero
  onCurve := by
    intro point mem
    obtain ⟨x, from0, hle, rfl⟩ := breakpointLoop_onCurve mem
    simp only [zero_add]
    exact ⟨from0, hle, trivial⟩
  corners := by
    intro slope x from0 hle
    simpa using @breakpointLoop_corners _ _ _ feeRate x held 0 0 ladder _ slope from0 hle

theorem singleRung_traces {held bid size : α} (pos : 0 < held) (nn : 0 ≤ size) :
    Traces (netProceeds feeRate [⟨bid, size⟩]) (min held (depth [⟨bid, size⟩]))
      [(min held size, min held size * netPerShare feeRate bid)] := by
  have deep : depth [⟨bid, size⟩] = size := by simp [depth, nn]
  have linear : ∀ x, x ≤ size → netProceeds feeRate [⟨bid, size⟩] x = x * netPerShare feeRate bid :=
    fun x hle =>
    netProceeds_cons_of_le (hle.trans (le_max_right 0 size))
  rw [deep]
  have reach : 0 ≤ min held size := le_min pos.le nn
  refine ⟨reach, netProceeds_zero, ?_, ?_⟩
  · intro point mem
    obtain rfl := List.mem_singleton.mp mem
    exact ⟨reach, le_rfl, (linear _ (min_le_right _ _)).symm⟩
  · intro slope x from0 hle
    rw [linear x (hle.trans (min_le_right _ _))]
    rcases le_total (netPerShare feeRate bid) slope with poor | rich
    · exact .inl (by nlinarith)
    · exact .inr ⟨_, List.mem_singleton_self _, by nlinarith⟩

theorem exitBidBreakpoints_traces (context : ExitContext α) {held : α} (pos : 0 < held) :
    Traces (netProceeds feeRate (context.pricedLadder held))
      (min held (depth (context.pricedLadder held))) (exitBidBreakpoints feeRate context held) := by
  obtain ⟨bestBid, bidSize, bidLadder⟩ := context
  unfold ExitContext.pricedLadder exitBidBreakpoints
  cases bestBid with
  | none => exact breakpointLoop_traces pos
  | some bid =>
    simp only [if_neg pos.not_ge]
    cases bidLadder with
    | cons level rest => exact breakpointLoop_traces pos
    | nil =>
      simp only
      cases known : bidSize.filter (0 ≤ ·) with
      | none => simpa using @singleRung_traces _ _ _ feeRate _ held bid held pos pos.le
      | some size =>
        have nn : 0 ≤ size := of_decide_eq_true (Option.filter_eq_some_iff.mp known).2
        exact singleRung_traces pos nn

/-- The stop is the optimum over every partial sale of the ladder that the context prices: its own,
where it has one and a best bid. -/
theorem exit_stop_is_optimal (feeRate : α) (context : ExitContext α) (held q margin : α)
    (pos : 0 < held) :
    Optimal held q margin (netProceeds feeRate (context.pricedLadder held))
      (min held (depth (context.pricedLadder held)))
      (exitDecision held q (exitBidBreakpoints feeRate context held) margin .none true false) ∧
    (exitDecision held q (exitBidBreakpoints feeRate context held) margin .none true
        false).sharesToSell ≤ held ∧
    (context.bestBid ≠ none → context.bidLadder ≠ [] →
      context.pricedLadder held = context.bidLadder) := by
  have optimal :=
    (@exitBidBreakpoints_traces _ _ _ feeRate _ context held pos).optimal held q margin
  refine ⟨optimal, optimal.within.trans (min_le_left _ _), fun finite hp => ?_⟩
  unfold ExitContext.pricedLadder
  obtain ⟨bid, isBid⟩ := Option.ne_none_iff_exists'.mp finite
  obtain ⟨level, rest, levels⟩ := List.exists_cons_of_ne_nil hp
  rw [isBid, levels]

def twoRungs : ExitContext ℚ := ⟨some (3 / 10), some 10, [⟨3 / 10, 10⟩, ⟨1 / 5, 90⟩]⟩

theorem twoRungs_sells_first :
    (exitDecision 100 (1 / 4) (exitBidBreakpoints (1 / 20) twoRungs 100) (1 / 100) .none true
        false).sharesToSell = 10 ∧
    ∀ x, 0 ≤ x → x ≤ min 100 (depth twoRungs.bidLadder) →
      saleValue 100 (1 / 4) (1 / 100) (netProceeds (1 / 20) twoRungs.bidLadder) x ≤
        saleValue 100 (1 / 4) (1 / 100) (netProceeds (1 / 20) twoRungs.bidLadder) 10 := by
  have sold : (exitDecision 100 (1 / 4) (exitBidBreakpoints (1 / 20) twoRungs 100) (1 / 100) .none
        true
      false).sharesToSell = 10 := by decide +kernel
  obtain ⟨optimal, -, own⟩ :=
    exit_stop_is_optimal (1 / 20) twoRungs 100 (1 / 4) (1 / 100) (by decide +kernel)
  have best := optimal.best
  rw [own (by simp [twoRungs]) (by simp [twoRungs]), sold] at best
  exact ⟨sold, best⟩

/-- A best bid without a ladder, and a ladder without a best bid. -/
def bidOnly : ExitContext ℚ := ⟨some (1 / 2), none, []⟩

def ladderOnly : ExitContext ℚ := ⟨none, none, [⟨1 / 2, 10⟩]⟩

/-- The first sells although its ladder has nothing to sell into; the second holds although its
ladder pays more. -/
theorem stop_ignores_ladder :
    ((exitDecision 10 (1 / 10) (exitBidBreakpoints (1 / 20) bidOnly 10) (1 / 100) .none true
          false).action = .sellReversal ∧
      ¬ ∃ x, 0 < x ∧
          x ≤ min 10 (depth bidOnly.bidLadder) ∧
          10 * (1 / 10) <
            saleValue 10 (1 / 10) (1 / 100) (netProceeds (1 / 20) bidOnly.bidLadder) x) ∧
    (exitDecision 10 (1 / 10) (exitBidBreakpoints (1 / 20) ladderOnly 10) (1 / 100) .none true
        false).action = .hold ∧
    10 ≤ min 10 (depth ladderOnly.bidLadder) ∧
    10 * (1 / 10) <
      saleValue 10 (1 / 10) (1 / 100) (netProceeds (1 / 20) ladderOnly.bidLadder) 10 := by
  refine ⟨⟨by decide +kernel, ?_⟩, by decide +kernel, by decide +kernel, by decide +kernel⟩
  rintro ⟨x, pos, hle, -⟩
  have h0 : x ≤ 0 := hle.trans (min_le_right _ _)
  exact absurd pos h0.not_gt

end Zeus.PredictedBin
