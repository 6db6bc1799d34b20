import Zeus.Forecast.Day0TerminalGrid
import Zeus.Lib.GeometricTail

namespace Zeus.Day0Terminal

open GeometricTail

/-- The value `k` steps on the violating side of the observed one. -/
def shift (metric : Metric) (observed : ℤ) (k : ℕ) : ℤ :=
  match metric with
  | .high => observed - k
  | .low => observed + k

/-- Every value of the cell keeps to the side of the observed extreme. -/
def NonViolating (metric : Metric) (observed : ℤ) (cell : Bounds) : Prop :=
  ∀ value, cell.contains value → match metric with
    | .high => observed ≤ value
    | .low => value ≤ observed

open Classical in
noncomputable def nonviolatingMass (metric : Metric) (observed : ℤ) (cells : List (ℝ × Bounds)) :
    ℝ :=
  (cells.map fun cell => if NonViolating metric observed cell.2 then cell.1 else 0).sum

open Classical in
/-- Share of a bin in the renormalised non-violating template. -/
noncomputable def nonviolatingShare (metric : Metric) (observed : ℤ) (cells : List (ℝ × Bounds))
    (bin : Bounds) : ℝ :=
  (cells.map fun cell =>
      if NonViolating metric observed cell.2 ∧ cell.2.within bin then cell.1 else 0).sum /
    nonviolatingMass metric observed cells

/-- Failure mass of a bin: its explicit steps, and its part of the overflow tail. -/
noncomputable def failureMass (metric : Metric) (observed : ℤ) (steps : ℕ) (law : List ℝ)
    (bin : Bounds) : ℝ :=
  ∑ index ∈ Finset.range steps,
    (if bin.contains (shift metric observed (index + 1)) then law.getD index 0 else 0) +
    law.getD steps 0 *
      tsum fun k : ℕ => if bin.contains (shift metric observed k) then weight steps k else 0

section
variable {metric : Metric} {observed : ℤ} {bin : Bounds}

theorem contains_shift_iff {k : ℕ} (pos : 1 ≤ k) :
    bin.contains (shift metric observed k) ↔
      ∃ kLow kHigh, violationSteps metric observed bin = some (kLow, kHigh) ∧
        kLow ≤ k ∧
        ∀ high ∈ kHigh, (k : ℤ) ≤ high := by
  obtain ⟨low, high⟩ := bin
  cases metric <;> cases low <;> cases high <;>
    simp [Bounds.contains, IntervalChain.Contains, shift, violationSteps] <;> omega

/-- The closed form of the overflow column, as the sum it stands for. -/
theorem hasSum_overflowMass (kLow : ℤ) (kHigh : Option ℤ) (steps : ℕ) :
    HasSum (fun k : ℕ => if kLow ≤ k ∧ ∀ high ∈ kHigh, (k : ℤ) ≤ high then weight steps k else 0)
      (overflowMass kLow kHigh steps) := by
  obtain ⟨n, start⟩ : ∃ n : ℕ, max kLow (steps + 1) = n := ⟨(max kLow (steps + 1)).toNat, by omega⟩
  have hbe : steps < n := by omega
  have first : (2 : ℝ) ^ (-((n : ℤ) - steps - 1)) = (1 / 2) ^ (n - steps - 1) :=
    two_zpow_neg (by omega)
  cases kHigh with
  | none =>
    have v : (overflowMass kLow none steps : ℝ) = (1 / 2) ^ (n - steps - 1) := by
      simp only [overflowMass, Nat.cast_ofNat, start, first, Option.elim_none, sub_zero,
        Option.not_mem_none, false_and, exists_false, if_false]
    rw [v]
    refine hasSum_congr_beyond (fun k hr => ?_) (hasSum_from hbe)
    have lower : kLow ≤ k ↔ n ≤ k := by omega
    simp [lower]
  | some high =>
    by_cases short : high < n
    · have v : (overflowMass kLow (some high) steps : ℝ) = 0 := by
        simp [overflowMass, start, short]
      rw [v]
      refine hasSum_of_none_beyond ?_
      rintro k hr ⟨lower, upper⟩
      have bound := upper high rfl
      omega
    · obtain ⟨m, isHigh⟩ : ∃ m : ℕ, high = m := ⟨high.toNat, by omega⟩
      subst isHigh
      have ord : n ≤ m := by omega
      have last : (2 : ℝ) ^ (-((m : ℤ) - steps)) = (1 / 2) ^ (m - steps) := two_zpow_neg (by omega)
      have v : (overflowMass kLow (some (m : ℤ)) steps : ℝ) =
          (1 / 2) ^ (n - steps - 1) - (1 / 2) ^ (m - steps) := by
        have inRange : ¬ ∃ high ∈ some (m : ℤ), high < (n : ℤ) := by
          simpa using ord
        simp only [overflowMass, Nat.cast_ofNat, start, first, last, inRange, if_false,
          Option.elim_some]
      rw [v]
      refine hasSum_congr_beyond (fun k hr => ?_) (hasSum_between hbe ord)
      have lower : kLow ≤ k ↔ n ≤ k := by omega
      simp [lower]

noncomputable def overflowEntry (metric : Metric) (observed : ℤ) (steps : ℕ) (bin : Bounds) : ℝ :=
  (violationSteps metric observed bin).elim 0 fun range => overflowMass range.1 range.2 steps

theorem hasSum_overflowEntry (metric : Metric) (observed : ℤ) (steps : ℕ) (bin : Bounds) :
    HasSum (fun k : ℕ => if bin.contains (shift metric observed k) then weight steps k else 0)
      (overflowEntry metric observed steps bin) := by
  cases range : violationSteps metric observed bin with
  | none =>
    rw [overflowEntry, range]
    refine hasSum_of_none_beyond fun k hr => ?_
    rw [contains_shift_iff (Nat.one_le_of_lt hr), range]
    simp
  | some steps' =>
    obtain ⟨kLow, kHigh⟩ := steps'
    rw [overflowEntry, range]
    refine hasSum_congr_beyond (fun k hr => ?_) (hasSum_overflowMass kLow kHigh steps)
    rw [contains_shift_iff (Nat.one_le_of_lt hr), range]
    simp

theorem dot_range {α : Type*} [Field α] (law : List α) (f : ℕ → α) :
    dot law ((List.range law.length).map f) =
      ∑ index ∈ Finset.range law.length, law.getD index 0 * f index := by
  induction law using List.reverseRecOn with
  | nil => rfl
  | append_singleton law last ih =>
    have earlier : ∀ index ∈ Finset.range law.length,
        (law ++ [last]).getD index 0 * f index = law.getD index 0 * f index := by
      intro index mem
      rw [List.getD_append _ _ _ _ (Finset.mem_range.mp mem)]
    rw [List.length_append, List.length_singleton, List.range_succ, List.map_append, dot,
      List.zipWith_append (by simp), List.sum_append, Finset.sum_range_succ,
      Finset.sum_congr rfl earlier, ← ih]
    simp [dot]

theorem dot_minusRow {steps : ℕ} {law : List ℝ} (len : law.length = steps + 1) :
    dot law (minusRow metric observed steps bin) = failureMass metric observed steps law bin := by
  have ents : (minusRow metric observed steps bin : List ℝ) =
      (List.range law.length).map fun index =>
        if index < steps then (if bin.contains (shift metric observed (index + 1)) then 1 else 0)
        else overflowEntry metric observed steps bin := by
    rw [len, minusRow]
    apply List.map_congr_left
    intro index _
    have step := @contains_shift_iff metric observed bin (index + 1) (by omega)
    cases range : violationSteps metric observed bin with
    | none =>
      have outside : ¬ bin.contains (shift metric observed (index + 1)) := by simp [step, range]
      simp [range, overflowEntry, outside]
    | some steps' =>
      have hin : bin.contains (shift metric observed (index + 1)) ↔
          steps'.1 ≤ index + 1 ∧ ∀ high ∈ steps'.2, (index + 1 : ℤ) ≤ high := by
        rw [step, range]
        obtain ⟨kLow, kHigh⟩ := steps'
        simp
      simp only [range, overflowEntry, hin, Option.elim_some]
  rw [ents, dot_range, len, Finset.sum_range_succ, failureMass,
    (hasSum_overflowEntry metric observed steps bin).tsum_eq]
  simp only [lt_irrefl, if_false]
  congr 1
  apply Finset.sum_congr rfl
  intro index mem
  simp [Finset.mem_range.mp mem]
end

section
variable {metric : Metric} {observed : ℤ}

theorem nonviolation_iff (metric : Metric) (observed : ℤ) {cell : Bounds} (proper : cell.Proper) :
    nonviolation metric observed cell = true ↔ NonViolating metric observed cell := by
  cases metric with
  | high =>
    simpa [nonviolation, NonViolating, Option.any_eq_true] using
      (forall_ge_iff proper observed).symm
  | low =>
    simpa [nonviolation, NonViolating, Option.any_eq_true] using
      (forall_le_iff proper observed).symm

theorem kept_sum {cells : List (ℝ × Bounds)} (proper : ∀ cell ∈ cells, cell.2.Proper) :
    (List.zipWith (· * ·) (cells.map Prod.fst) ((cells.map Prod.snd).map fun cell =>
          if nonviolation metric observed cell then 1 else 0)).sum =
      nonviolatingMass metric observed cells := by
  rw [List.map_map, List.zipWith_map, List.zipWith_self, nonviolatingMass]
  congr 1
  apply List.map_congr_left
  intro cell mem
  have side := nonviolation_iff metric observed (proper cell mem)
  by_cases keeps : NonViolating metric observed cell.2
  · simp [keeps, side.mpr keeps]
  · simp [keeps, mt side.mp keeps]

theorem dot_plusRow {cells : List (ℝ × Bounds)} (proper : ∀ cell ∈ cells, cell.2.Proper)
    (bin : Bounds) :
    dot ((List.zipWith (· * ·) (cells.map Prod.fst) ((cells.map Prod.snd).map fun cell =>
            if nonviolation metric observed cell then 1 else 0)).map fun mass =>
        mass / nonviolatingMass metric observed cells) (List.zipWith (· * ·)
        ((cells.map Prod.snd).map fun cell => if nestsIn cell bin then 1 else 0)
        ((cells.map Prod.snd).map fun cell => if nonviolation metric observed cell then 1 else 0)) =
      nonviolatingShare metric observed cells bin := by
  simp only [dot, List.map_map, List.zipWith_map, List.zipWith_self, nonviolatingShare]
  rw [div_eq_mul_inv, ← List.sum_map_mul_right]
  congr 1
  apply List.map_congr_left
  intro cell mem
  have side := nonviolation_iff metric observed (proper cell mem)
  have nesting := nestsIn_iff (proper cell mem) bin
  by_cases keeps : NonViolating metric observed cell.2
  · by_cases hin : cell.2.within bin
    · simp [keeps, hin, side.mpr keeps, nesting.mpr hin, div_eq_mul_inv]
    · simp [hin, mt nesting.mp hin]
  · simp [keeps, mt side.mp keeps]
end

section
variable {metric : Metric} {observed : ℤ} {steps : ℕ} {bins : List Bounds}
  (partition : Partition bins)

theorem hasSum_map_sum {f : Bounds → ℕ → ℝ} {a : Bounds → ℝ} (terms : ∀ bin, HasSum (f bin) (a bin))
    (bins : List Bounds) :
    HasSum (fun k => (bins.map fun bin => f bin k).sum) (bins.map a).sum := by
  induction bins with
  | nil => exact hasSum_zero
  | cons bin rest ih =>
    simp only [List.map_cons, List.sum_cons]
    exact (terms bin).add ih

include partition

theorem sum_contains (v : ℤ) (x : ℝ) :
    (bins.map fun bin => if bin.contains v then x else 0).sum = x :=
  IntervalChain.sum_of_unique (partition.exists_bin v) (partition.apart.imp fun hne => hne v) x

theorem sum_nonviolatingShare {cells : List (ℝ × Bounds)}
    (onGrid : ∀ cell ∈ cells, cell.2 ∈ unitSettlementGrid bins observed steps)
    (pos : 0 < nonviolatingMass metric observed cells) :
    (bins.map (nonviolatingShare metric observed cells)).sum = 1 := by
  classical
  have columns : ∀ cell ∈ cells, (bins.map fun bin =>
        if NonViolating metric observed cell.2 ∧ cell.2.within bin then cell.1 else 0).sum =
      if NonViolating metric observed cell.2 then cell.1 else 0 := by
    intro cell mem
    by_cases keeps : NonViolating metric observed cell.2
    · simp only [keeps, true_and, if_true]
      exact IntervalChain.sum_of_unique (exists_within partition observed steps (onGrid cell mem))
        (within_apart partition (grid_proper observed steps (onGrid cell mem))) cell.1
    · simp [keeps]
  have swap := Multiset.sum_map_sum_map (bins : Multiset Bounds) (cells : Multiset (ℝ × Bounds))
    (f := fun bin cell =>
        if NonViolating metric observed cell.2 ∧ cell.2.within bin then cell.1 else 0)
  simp only [Multiset.map_coe, Multiset.sum_coe] at swap
  unfold nonviolatingShare
  simp only [div_eq_mul_inv]
  rw [List.sum_map_mul_right, swap, List.map_congr_left columns]
  exact mul_inv_cancel₀ pos.ne'

theorem sum_overflowEntry : (bins.map (overflowEntry metric observed steps)).sum = 1 := by
  have total := hasSum_map_sum (hasSum_overflowEntry metric observed steps) bins
  simp only [sum_contains partition] at total
  exact total.unique (hasSum_weight steps)

theorem sum_failureMass {law : List ℝ} (len : law.length = steps + 1) :
    (bins.map (failureMass metric observed steps law)).sum = law.sum := by
  have explicit : (bins.map fun bin => ∑ index ∈ Finset.range steps,
      if bin.contains (shift metric observed (index + 1)) then law.getD index 0 else 0).sum =
      ∑ index ∈ Finset.range steps, law.getD index 0 := by
    have swap := Multiset.sum_map_sum_map (bins : Multiset Bounds) (Multiset.range steps)
      (f := fun bin index =>
          if bin.contains (shift metric observed (index + 1)) then law.getD index 0 else 0)
    simp only [Multiset.map_coe, Multiset.sum_coe, sum_contains partition] at swap
    exact swap
  have whole : ∑ index ∈ Finset.range law.length, law.getD index 0 = law.sum := by
    rw [Finset.sum_range, ← Fin.sum_univ_getElem]
    simp
  unfold failureMass
  simp only [(hasSum_overflowEntry metric observed steps _).tsum_eq]
  rw [List.sum_map_add, List.sum_map_mul_left, explicit, sum_overflowEntry partition, ← whole, len,
    Finset.sum_range_succ, mul_one]
end

theorem nonviolatingShare_nonneg {metric : Metric} {observed : ℤ} {cells : List (ℝ × Bounds)}
    (nn : ∀ cell ∈ cells, 0 ≤ cell.1) (pos : 0 < nonviolatingMass metric observed cells)
    (bin : Bounds) : 0 ≤ nonviolatingShare metric observed cells bin := by
  classical
  refine div_nonneg (List.sum_nonneg ?_) pos.le
  intro mass mem
  obtain ⟨cell, inCells, rfl⟩ := List.mem_map.mp mem
  split
  · exact nn cell inCells
  · exact le_rfl

theorem failureMass_nonneg {law : List ℝ} (nn : ∀ mass ∈ law, 0 ≤ mass) (metric : Metric)
    (observed : ℤ) (steps : ℕ) (bin : Bounds) : 0 ≤ failureMass metric observed steps law bin := by
  have entry : ∀ index, 0 ≤ law.getD index 0 := by
    intro index
    rcases lt_or_ge index law.length with hin | outside
    · rw [List.getD_eq_getElem _ _ hin]
      exact nn _ (List.getElem_mem hin)
    · rw [List.getD_eq_default _ _ outside]
  refine add_nonneg (Finset.sum_nonneg fun index _ => ?_)
    (mul_nonneg (entry steps) (tsum_nonneg fun k => ?_))
  · split
    · exact entry index
    · exact le_rfl
  · split
    · exact weight_nonneg steps k
    · exact le_rfl

section
variable {bins : List RawBounds} {parsed : List Bounds}
  (accepted : integerPartition .bin bins = .ok parsed)
  (observed : ℤ) {steps : ℕ} (explicitStep : 1 ≤ steps) (metric : Metric)

include accepted explicitStep

theorem terminalCompositionMaps_grid :
    terminalCompositionMaps ((unitSettlementGrid parsed observed steps).map Bounds.toRaw) observed
      metric bins steps =
      .ok (CompositionMaps.mk (α := ℝ) ((unitSettlementGrid parsed observed steps).map fun cell =>
            if nonviolation metric observed cell then 1 else 0) (parsed.map fun bin =>
            List.zipWith (· * ·) ((unitSettlementGrid parsed observed steps).map fun cell =>
                if nestsIn cell bin then 1 else 0) ((unitSettlementGrid parsed observed steps).map
                fun cell => if nonviolation metric observed cell then 1 else 0))
          (parsed.map (minusRow metric observed steps))) := by
  have partition := (integerPartition_ok accepted).2
  have oneSided : ¬ ∃ cell ∈ unitSettlementGrid parsed observed steps,
      nonviolation metric observed cell = violation metric observed cell := by
    rintro ⟨cell, mem, same⟩
    exact grid_never_straddles parsed observed steps metric mem same
  have nested :
      ¬ ∃ cell ∈ unitSettlementGrid parsed observed steps, parsed.countP (nestsIn cell) ≠ 1 := by
    rintro ⟨cell, mem, other⟩
    exact other (grid_nested partition observed steps mem)
  have enough : ¬ steps < 1 := by omega
  simp only [terminalCompositionMaps, enough, if_false, round_intCast, ne_eq, not_true_eq_false,
    unitSettlementGrid_accepted, accepted, oneSided, nestingMap, nested, List.map_map]
  rfl

theorem compose_grid {cells : List (ℝ × Bounds)}
    (overGrid : cells.map Prod.snd = unitSettlementGrid parsed observed steps)
    (nn : ∀ cell ∈ cells, 0 ≤ cell.1) (pos : 0 < nonviolatingMass metric observed cells)
    {s : ℝ} (atLeastZero : 0 ≤ s) (atMostOne : s ≤ 1) {law : List ℝ} (len : law.length = steps + 1)
    (lawNonneg : ∀ mass ∈ law, 0 ≤ mass) (lawSum : law.sum = 1) :
    composeResolverTerminalDistribution (cells.map Prod.fst)
      ((unitSettlementGrid parsed observed steps).map Bounds.toRaw) observed metric s law bins =
    .ok (parsed.map fun bin => s * nonviolatingShare metric observed cells bin +
      (1 - s) * failureMass metric observed steps law bin) := by
  have proper : ∀ cell ∈ cells, cell.2.Proper := by
    intro cell mem
    refine @grid_proper parsed observed steps cell.2 ?_
    rw [← overGrid]
    exact List.mem_map_of_mem mem
  have valid : ¬ ((cells.map Prod.fst).length ≠
      ((unitSettlementGrid parsed observed steps).map Bounds.toRaw).length ∨ law.length < 2 ∨
      (∃ mass ∈ cells.map Prod.fst, mass < 0) ∨ s < 0 ∨ 1 < s ∨ (∃ mass ∈ law, mass < 0) ∨
      ¬ |law.sum - 1| ≤ failureMassTolerance) := by
    push Not
    refine ⟨by rw [← overGrid]; simp, by omega, ?_, atLeastZero, atMostOne, lawNonneg,
      by norm_num [lawSum, failureMassTolerance]⟩
    intro mass mem
    obtain ⟨cell, inCells, rfl⟩ := List.mem_map.mp mem
    exact nn cell inCells
  have columns : law.length - 1 = steps := by omega
  rw [composeResolverTerminalDistribution, if_neg valid, columns,
    terminalCompositionMaps_grid accepted observed explicitStep metric, ← overGrid]
  simp only [kept_sum proper, not_le.mpr pos, if_false]
  rw [List.zipWith_map, List.zipWith_self]
  congr 1
  apply List.map_congr_left
  intro bin _
  rw [dot_minusRow len, dot_plusRow proper bin]
end

/-- On a unit grid the operator never raises, and the result is a probability distribution over the
bins: `s` of it comes from non-violating cells and `1 - s` from violating values, exactly as
placed. -/
theorem compose_exact {bins : List RawBounds} {parsed : List Bounds}
    (accepted : integerPartition .bin bins = .ok parsed) (observed : ℤ) {steps : ℕ}
    (explicitStep : 1 ≤ steps) (metric : Metric) {template : List ℝ}
    (sized : template.length = (unitSettlementGrid parsed observed steps).length)
    (nn : ∀ mass ∈ template, 0 ≤ mass)
    (pos : 0 <
        nonviolatingMass metric observed (template.zip (unitSettlementGrid parsed observed steps)))
    {s : ℝ} (atLeastZero : 0 ≤ s) (atMostOne : s ≤ 1) {law : List ℝ} (len : law.length = steps + 1)
    (lawNonneg : ∀ mass ∈ law, 0 ≤ mass) (lawSum : law.sum = 1) :
    ∃ Q,
      composeResolverTerminalDistribution template
        ((unitSettlementGrid parsed observed steps).map Bounds.toRaw) observed metric s law bins =
        .ok Q ∧
      Q = parsed.map (fun bin => s *
                nonviolatingShare metric observed
                  (template.zip (unitSettlementGrid parsed observed steps)) bin +
              (1 - s) * failureMass metric observed steps law bin) ∧
      (∀ mass ∈ Q, 0 ≤ mass) ∧
      Q.sum = 1 ∧
      (parsed.map fun bin => s *
            nonviolatingShare metric observed
              (template.zip (unitSettlementGrid parsed observed steps)) bin).sum = s ∧
      (parsed.map fun bin => (1 - s) * failureMass metric observed steps law bin).sum = 1 - s := by
  have partition := (integerPartition_ok accepted).2
  generalize isCells : template.zip (unitSettlementGrid parsed observed steps) = cells at pos ⊢
  have masses : cells.map Prod.fst = template := by rw [← isCells, List.map_fst_zip sized.le]
  have overGrid : cells.map Prod.snd = unitSettlementGrid parsed observed steps := by
    rw [← isCells, List.map_snd_zip sized.ge]
  have cellNonneg : ∀ cell ∈ cells, 0 ≤ cell.1 := by
    intro cell mem
    exact nn cell.1 (masses ▸ List.mem_map_of_mem mem)
  have onGrid : ∀ cell ∈ cells, cell.2 ∈ unitSettlementGrid parsed observed steps := by
    intro cell mem
    exact overGrid ▸ List.mem_map_of_mem mem
  have kept : (parsed.map fun bin => s * nonviolatingShare metric observed cells bin).sum = s := by
    rw [List.sum_map_mul_left, sum_nonviolatingShare partition onGrid pos, mul_one]
  have failed : (parsed.map fun bin => (1 - s) * failureMass metric observed steps law bin).sum =
      1 - s := by
    rw [List.sum_map_mul_left, sum_failureMass partition len, lawSum, mul_one]
  refine ⟨_, ?_, rfl, ?_, ?_, kept, failed⟩
  · rw [← masses]
    exact compose_grid accepted observed explicitStep metric overGrid cellNonneg pos atLeastZero
      atMostOne len lawNonneg lawSum
  · intro mass mem
    obtain ⟨bin, -, rfl⟩ := List.mem_map.mp mem
    exact add_nonneg (mul_nonneg atLeastZero (nonviolatingShare_nonneg cellNonneg pos bin))
      (mul_nonneg (sub_nonneg.mpr atMostOne)
          (failureMass_nonneg lawNonneg metric observed steps bin))
  · rw [List.sum_map_add, kept, failed]
    ring

/-- Bins `≤ -1`, `0`, `≥ 1`, nothing seen above the observed `0`, and one explicit step. -/
theorem compose_exact_pointTemplate :
    ∃ Q,
      composeResolverTerminalDistribution [0, 0, 0, (1 : ℝ), 0, 0, 0] ((unitSettlementGrid
            [⟨none, some (-1)⟩, ⟨some 0, some 0⟩, ⟨some 1, none⟩] 0 1).map Bounds.toRaw) (0 : ℤ)
        .high (1 / 2) [1 / 2, 1 / 2] [(none, some (-1)), (some 0, some 0), (some 1, none)] = .ok Q ∧
      (∀ mass ∈ Q, 0 ≤ mass) ∧
      Q.sum = 1 := by
  have grid : unitSettlementGrid [⟨none, some (-1)⟩, ⟨some 0, some 0⟩, ⟨some 1, none⟩] 0 1 =
      [⟨none, some (-3)⟩, ⟨some (-2), some (-2)⟩, ⟨some (-1), some (-1)⟩, ⟨some 0, some 0⟩,
        ⟨some 1, some 1⟩, ⟨some 2, some 2⟩, ⟨some 3, none⟩] := by decide
  have pos : 0 < nonviolatingMass .high 0 ([0, 0, 0, (1 : ℝ), 0, 0, 0].zip
      (unitSettlementGrid [⟨none, some (-1)⟩, ⟨some 0, some 0⟩, ⟨some 1, none⟩] 0 1)) := by
    rw [← kept_sum fun cell mem => grid_proper 0 1 (List.of_mem_zip mem).2, grid]
    simp [nonviolation]
  have accepted : integerPartition .bin [(none, some (-1)), (some 0, some 0), (some 1, none)] =
      .ok [⟨none, some (-1)⟩, ⟨some 0, some 0⟩, ⟨some 1, none⟩] := by decide +kernel
  have half : (0 : ℝ) ≤ 1 / 2 ∧ (1 / 2 : ℝ) ≤ 1 := by norm_num
  have law : (∀ mass ∈ [(1 / 2 : ℝ), 1 / 2], 0 ≤ mass) ∧ [(1 / 2 : ℝ), 1 / 2].sum = 1 := by norm_num
  obtain ⟨Q, result, -, nn, total, -⟩ := compose_exact accepted 0 le_rfl .high (by rw [grid]; rfl)
    (by simp) pos half.1 half.2 rfl law.1 law.2
  exact ⟨Q, result, nn, total⟩

end Zeus.Day0Terminal
