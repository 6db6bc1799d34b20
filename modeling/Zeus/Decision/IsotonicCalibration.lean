import Zeus.Lib.Isotonic

/-! `isotonic_nondecreasing_weighted`, and `_block_position_counts`, which runs the loop a second
time and counts the positions of each block. -/

namespace Zeus.IsotonicCalibration

open Isotonic

variable {K : Type*} [Field K]

/-- `1e-12`. -/
def tolerance : K := ((1 / 10 ^ 12 : ℚ) : K)

structure Block (K : Type*) where
  (value weight : K)

def Block.merge (below top : Block K) : Block K :=
  ⟨(below.value * below.weight + top.value * top.weight) / (below.weight + top.weight),
    below.weight + top.weight⟩

structure CountedBlock (K : Type*) extends Block K where
  count : ℕ

def CountedBlock.merge (below top : CountedBlock K) : CountedBlock K :=
  ⟨⟨(below.value * below.weight + top.value * top.weight) / (below.weight + top.weight),
      below.weight + top.weight⟩,
    below.count + top.count⟩

/-- The value of each block at each of its positions. -/
def expand (blocks : List (Block K)) (counts : List ℕ) : List K :=
  (blocks.zip counts).flatMap fun entry => List.replicate entry.2 entry.1.value

def pool (s : List (K × K)) : Block K := ⟨mean s, totalWeight s⟩

def poolCounted (s : List (K × K)) : CountedBlock K := ⟨pool s, s.length⟩

theorem expand_segments (segs : List (List (K × K))) :
    expand (segs.map pool) (segs.map List.length) = (fitted segs).map Prod.fst := by
  induction segs with
  | nil => rfl
  | cons s segs ih =>
    simp only [expand, fitted, List.map_cons, List.zip_cons_cons, List.flatMap_cons,
      List.map_append, map_fst_levelled] at ih ⊢
    rw [ih]
    rfl

variable [LinearOrder K]

/-- The weight of a value; nothing is given `1e-9`. -/
def effectiveWeight (weight : K) : K := if 0 < weight then weight else ((1 / 10 ^ 9 : ℚ) : K)

/-- The inner loop, on a stack with its top in front. -/
def settle (top : Block K) : List (Block K) → List (Block K)
  | [] => [top]
  | below :: rest =>
    if top.value + tolerance < below.value then settle (below.merge top) rest
    else top :: below :: rest

/-- The stack after the outer loop over some more values. -/
def stackFrom (stack : List (Block K)) (items : List (K × K)) : List (Block K) :=
  items.foldl (fun stack item => settle ⟨item.1, effectiveWeight item.2⟩ stack) stack

def blocks (y w : List K) : List (Block K) := (stackFrom [] (y.zip w)).reverse

def settleCounted (top : CountedBlock K) : List (CountedBlock K) → List (CountedBlock K)
  | [] => [top]
  | below :: rest =>
    if top.value + tolerance < below.value then settleCounted (below.merge top) rest
    else top :: below :: rest

def countedFrom (stack : List (CountedBlock K)) (items : List (K × K)) : List (CountedBlock K) :=
  items.foldl (fun stack item => settleCounted ⟨⟨item.1, effectiveWeight item.2⟩, 1⟩ stack) stack

def blockPositionCounts (y w : List K) : List ℕ :=
  (countedFrom [] (y.zip w)).reverse.map CountedBlock.count

def reexpandByPositions (y w : List K) (blocks : List (Block K)) : List K :=
  let out := expand blocks (blockPositionCounts y w)
  if out.length = y.length then out
  else match out.getLast? with
    | some last => (out ++ List.replicate y.length last).take y.length
    | none => List.replicate y.length 0

/-- `isotonic_nondecreasing_weighted`; nothing is read of `xs`. -/
def isotonicNondecreasingWeighted (_xs ys weights : List K) : List K :=
  if ys.length = 0 then []
  else
    let w := weights.map fun weight => max weight 0
    let w := if w.length = ys.length then w else List.replicate ys.length 1
    let out := expand (blocks ys w) (blockPositionCounts ys w)
    if out.length = ys.length then out else reexpandByPositions ys w (blocks ys w)

/-- The values below and on top that the inner loop compares. -/
def compared (top : Block K) : List (Block K) → List (K × K)
  | [] => []
  | below :: rest =>
    (below.value, top.value) ::
      if top.value + tolerance < below.value then compared (below.merge top) rest else []

def comparedFrom : List (Block K) → List (K × K) → List (K × K)
  | _, [] => []
  | stack, item :: items =>
    let top := ⟨item.1, effectiveWeight item.2⟩
    compared top stack ++ comparedFrom (settle top stack) items

def comparisons (y w : List K) : List (K × K) := comparedFrom [] (y.zip w)

/-- A step down that the loop does not take for one. -/
def Unnoticed (pair : K × K) : Prop := 0 < pair.1 - pair.2 ∧ pair.1 - pair.2 ≤ tolerance

instance (pair : K × K) : Decidable (Unnoticed pair) :=
  inferInstanceAs (Decidable (0 < pair.1 - pair.2 ∧ pair.1 - pair.2 ≤ tolerance))

theorem map_settleCounted (top : CountedBlock K) (stack : List (CountedBlock K)) :
    (settleCounted top stack).map CountedBlock.toBlock =
      settle top.toBlock (stack.map CountedBlock.toBlock) := by
  induction stack generalizing top with
  | nil => rfl
  | cons below rest ih =>
    simp only [settleCounted, settle, List.map_cons]
    split
    · exact ih (below.merge top)
    · rfl

theorem map_countedFrom (stack : List (CountedBlock K)) (items : List (K × K)) :
    (countedFrom stack items).map CountedBlock.toBlock =
      stackFrom (stack.map CountedBlock.toBlock) items := by
  induction items generalizing stack with
  | nil => rfl
  | cons item items ih =>
    rw [countedFrom, List.foldl_cons, ← countedFrom, ih, map_settleCounted]
    rfl

/-- The values that are read, with the weights they are given. -/
def weighted (items : List (K × K)) : List (K × K) :=
  items.map fun item => (item.1, effectiveWeight item.2)

theorem isotonic_eq_fitted (xs : List K) {ys weights : List K} (same : weights.length = ys.length)
    (nn : ∀ weight ∈ weights, 0 ≤ weight) {segs : List (List (K × K))}
    (read : segs.flatten = weighted (ys.zip weights)) (cut : blocks ys weights = segs.map pool)
    (counts : blockPositionCounts ys weights = segs.map List.length) :
    isotonicNondecreasingWeighted xs ys weights = (fitted segs).map Prod.fst := by
  have kept : (weights.map fun weight => max weight 0) = weights := by
    refine (List.map_congr_left fun weight mem => ?_).trans (List.map_id' weights)
    exact max_eq_left (nn weight mem)
  have len : ((fitted segs).map Prod.fst).length = ys.length := by
    simp [length_fitted, read, weighted, same]
  rw [isotonicNondecreasingWeighted]
  split
  next empty => exact (List.eq_nil_of_length_eq_zero (len.trans empty)).symm
  · simp only [kept, if_pos same, cut, counts, expand_segments, if_pos len]

variable [IsStrictOrderedRing K]

theorem tolerance_pos : 0 < (tolerance : K) := by
  have pos : (0 : ℚ) < 1 / 10 ^ 12 := by norm_num
  exact Rat.cast_pos.mpr pos

theorem effectiveWeight_pos (weight : K) : 0 < effectiveWeight weight := by
  rw [effectiveWeight]
  split
  next pos => exact pos
  · have pos : (0 : ℚ) < 1 / 10 ^ 9 := by norm_num
    exact Rat.cast_pos.mpr pos

theorem merge_poolCounted {s t : List (K × K)} (front : Pooled s) (back : Pooled t) :
    (poolCounted s).merge (poolCounted t) = poolCounted (s ++ t) := by
  simp only [CountedBlock.merge, poolCounted, pool, front.mean_append back, totalWeight_append,
    List.length_append]

theorem settleCounted_pooled {stack : List (List (K × K))} (pooled : ∀ s ∈ stack, Pooled s)
    {top : List (K × K)} (own : Pooled top) :
    ∃ segs : List (List (K × K)),
      settleCounted (poolCounted top) (stack.map poolCounted) = segs.map poolCounted ∧
      segs.reverse.flatten = stack.reverse.flatten ++ top ∧
      ∀ s ∈ segs, Pooled s := by
  induction stack generalizing top with
  | nil => exact ⟨[top], rfl, by simp, by simpa using own⟩
  | cons below rest ih =>
    have belowPooled := pooled below List.mem_cons_self
    have restPooled : ∀ s ∈ rest, Pooled s := fun s mem => pooled s (List.mem_cons_of_mem _ mem)
    simp only [List.map_cons, settleCounted]
    split
    next violates =>
      have falls : mean top ≤ mean below :=
        ((lt_add_of_pos_right _ tolerance_pos).trans violates).le
      obtain ⟨segs, hset, joined, all⟩ := ih restPooled (belowPooled.append own falls)
      rw [merge_poolCounted belowPooled own]
      exact ⟨segs, hset, by simp [joined], all⟩
    · refine ⟨top :: below :: rest, rfl, by simp, fun s mem => ?_⟩
      obtain rfl | mem := List.mem_cons.mp mem
      · exact own
      · exact pooled s mem

theorem countedFrom_pooled {stack : List (List (K × K))} (pooled : ∀ s ∈ stack, Pooled s)
    (items : List (K × K)) :
    ∃ segs : List (List (K × K)), countedFrom (stack.map poolCounted) items = segs.map poolCounted ∧
      segs.reverse.flatten = stack.reverse.flatten ++ weighted items ∧
      ∀ s ∈ segs, Pooled s := by
  induction items generalizing stack with
  | nil => exact ⟨stack, rfl, by simp [weighted], pooled⟩
  | cons item items ih =>
    have pos := effectiveWeight_pos item.2
    have block : (⟨⟨item.1, effectiveWeight item.2⟩, 1⟩ : CountedBlock K) =
        poolCounted [(item.1, effectiveWeight item.2)] := by
      simp [poolCounted, pool, mean_singleton pos.ne', totalWeight]
    obtain ⟨hset, isSettled, joined, settledPooled⟩ :=
      settleCounted_pooled pooled (Pooled.singleton item.1 pos)
    obtain ⟨segs, isFinal, read, all⟩ := ih settledPooled
    refine ⟨segs, ?_, ?_, all⟩
    · rw [countedFrom, List.foldl_cons, ← countedFrom, block, isSettled, isFinal]
    · rw [read, joined, weighted, weighted, List.map_cons, List.append_assoc, List.singleton_append]

theorem exists_segments (y w : List K) :
    ∃ segs : List (List (K × K)), segs.flatten = weighted (y.zip w) ∧
      blocks y w = segs.map pool ∧
      blockPositionCounts y w = segs.map List.length ∧
      ∀ s ∈ segs, Pooled s := by
  obtain ⟨segs, counted, read, pooled⟩ := @countedFrom_pooled K _ _ _ [] (by simp) (y.zip w)
  rw [List.map_nil] at counted
  have plain : stackFrom [] (y.zip w) = (countedFrom [] (y.zip w)).map CountedBlock.toBlock :=
    (map_countedFrom [] (y.zip w)).symm
  refine ⟨segs.reverse, by simpa using read, ?_, ?_,
    fun s mem => pooled s (List.mem_reverse.mp mem)⟩
  · rw [blocks, plain, counted, List.map_map, List.map_reverse]
    rfl
  · rw [blockPositionCounts, counted, List.map_reverse, List.map_reverse, List.map_map]
    rfl

/-- The block values fall from the top of a stack to its bottom. -/
def Descends (stack : List (Block K)) : Prop :=
  stack.IsChain fun upper lower => lower.value ≤ upper.value

theorem descends_settle {stack : List (Block K)} (descends : Descends stack) {top : Block K}
    (hne : ∀ pair ∈ compared top stack, ¬Unnoticed pair) : Descends (settle top stack) := by
  induction stack generalizing top with
  | nil => exact List.isChain_singleton _
  | cons below rest ih =>
    rw [compared] at hne
    rw [settle]
    split
    next violates =>
      rw [if_pos violates] at hne
      exact ih descends.tail fun pair mem => hne pair (List.mem_cons_of_mem _ mem)
    next hset =>
      -- the comparison that ends the loop is no step down at all
      have rises : below.value ≤ top.value := by
        by_contra falls
        refine hne _ List.mem_cons_self ⟨sub_pos.mpr (not_le.mp falls), ?_⟩
        linarith [not_lt.mp hset]
      exact List.isChain_cons_cons.mpr ⟨rises, descends⟩

theorem descends_stackFrom {stack : List (Block K)} (descends : Descends stack)
    {items : List (K × K)} (hne : ∀ pair ∈ comparedFrom stack items, ¬Unnoticed pair) :
    Descends (stackFrom stack items) := by
  induction items generalizing stack with
  | nil => exact descends
  | cons item items ih =>
    rw [stackFrom, List.foldl_cons, ← stackFrom]
    rw [comparedFrom] at hne
    apply ih (descends_settle descends fun pair mem => hne pair (List.mem_append_left _ mem))
    intro pair mem
    exact hne pair (List.mem_append_right _ mem)

theorem rises_of_apart {y w : List K} (hne : ∀ pair ∈ comparisons y w, ¬Unnoticed pair)
    {segs : List (List (K × K))} (cut : blocks y w = segs.map pool) :
    (segs.map mean).Pairwise (· ≤ ·) := by
  have descends : Descends (stackFrom [] (y.zip w)) := descends_stackFrom List.isChain_nil hne
  have ascends : (blocks y w).IsChain fun prior later => prior.value ≤ later.value :=
    List.isChain_reverse.mpr descends
  rw [cut, List.isChain_map] at ascends
  exact ((List.isChain_map mean).mpr ascends).pairwise

/-- The weighted pooling is the isotonic least-squares fit, unless it compares two blocks that step
down by at most the tolerance; and both copies of its loop cut the values into the same blocks. -/
theorem pooling_is_isotonic_fit (xs ys weights : List K) (same : weights.length = ys.length)
    (nn : ∀ weight ∈ weights, 0 ≤ weight) (hne : ∀ pair ∈ comparisons ys weights, ¬Unnoticed pair) :
    let fit := isotonicNondecreasingWeighted xs ys weights
    fit.length = ys.length ∧
      fit.Pairwise (· ≤ ·) ∧
      (∀ other : List K, other.length = ys.length → other.Pairwise (· ≤ ·) → other ≠ fit →
        sse (weighted (ys.zip weights)) fit < sse (weighted (ys.zip weights)) other) ∧
      ∃ segs : List (List (K × K)), segs.flatten = weighted (ys.zip weights) ∧
        blocks ys weights = segs.map pool ∧
        blockPositionCounts ys weights = segs.map List.length ∧
        fit = segs.flatMap fun s => List.replicate s.length (mean s) := by
  intro fit
  obtain ⟨segs, read, cut, counts, pooled⟩ := exists_segments ys weights
  have isFitted : fit = (fitted segs).map Prod.fst := isotonic_eq_fitted xs same nn read cut counts
  have len : segs.flatten.length = ys.length := by simp [read, weighted, same]
  refine ⟨?_, ?_, fun other hal sorted differs => ?_, segs, read, cut, counts, ?_⟩
  · rw [isFitted, List.length_map, length_fitted, len]
  · rw [isFitted]
    exact pairwise_fitted (rises_of_apart hne cut)
  · rw [isFitted] at differs ⊢
    have bound := sse_fitted_add_le pooled (hal.trans len.symm) sorted
    have distance : 0 < sse (fitted segs) other := by
      refine sse_pos (fun item mem => ?_) (by rw [length_fitted, len, hal]) differs
      obtain ⟨s, hin, levelledItem⟩ := List.mem_flatMap.mp mem
      obtain ⟨original, among, rfl⟩ := List.mem_map.mp levelledItem
      exact (pooled s hin).positive original among
    rw [← read]
    linarith
  · rw [isFitted, fitted, List.map_flatMap]
    exact List.flatMap_congr fun s _ => map_fst_levelled (mean s) s

theorem threeValues_fit :
    isotonicNondecreasingWeighted [0, 1, 2] [1, 0, 2] [1, 1, 0] = ([1 / 2, 1 / 2, 2] : List ℚ) ∧
    ∀ other : List ℚ, other.length = 3 → other.Pairwise (· ≤ ·) → other ≠ [1 / 2, 1 / 2, 2] →
      sse (weighted [(1, 1), (0, 1), (2, 0)]) [1 / 2, 1 / 2, 2] <
        sse (weighted [(1, 1), (0, 1), (2, 0)]) other := by
  have isFit : isotonicNondecreasingWeighted [0, 1, 2] [1, 0, 2] [1, 1, 0] =
      ([1 / 2, 1 / 2, 2] : List ℚ) := by
    decide +kernel
  have least := (pooling_is_isotonic_fit [0, 1, 2] [1, 0, 2] [1, 1, (0 : ℚ)] rfl (by decide)
    (by decide +kernel)).2.2.1
  rw [isFit] at least
  exact ⟨isFit, least⟩

/-- A step down by the tolerance itself is left as it is. -/
theorem tolerance_step_stays :
    (∀ pair ∈ comparisons [tolerance, 0] [1, (1 : ℝ)],
        ¬(0 < |pair.1 - pair.2| ∧ |pair.1 - pair.2| < tolerance)) ∧
    isotonicNondecreasingWeighted [0, 1] [tolerance, 0] [1, (1 : ℝ)] = [tolerance, 0] ∧
    ¬([tolerance, 0] : List ℝ).Pairwise (· ≤ ·) := by
  have pos : 0 < (tolerance : ℝ) := tolerance_pos
  refine ⟨?_, ?_, ?_⟩
  · simp [comparisons, comparedFrom, compared, settle, abs_of_pos pos]
  · simp [isotonicNondecreasingWeighted, blocks, blockPositionCounts, stackFrom, countedFrom,
      settle, settleCounted, expand]
  · simpa using pos

end Zeus.IsotonicCalibration
