import Zeus.Forecast.Day0TerminalDistribution

/-! Each cell of the grid lies in exactly one bin, and none straddles the observed value. -/

namespace Zeus.Day0Terminal

def Bounds.contains (bounds : Bounds) (value : ℤ) : Prop :=
  IntervalChain.Contains Bounds.low Bounds.high bounds value

instance (bounds : Bounds) (value : ℤ) : Decidable (bounds.contains value) :=
  inferInstanceAs (Decidable (IntervalChain.Contains _ _ _ _))

def Bounds.Proper (bounds : Bounds) : Prop := IntervalChain.Proper Bounds.low Bounds.high bounds

structure Partition (bins : List Bounds) : Prop where
  proper : ∀ bin ∈ bins, bin.Proper
  chained : ∃ ordered : List Bounds, ordered.Perm bins ∧
    ordered.IsChain followsAt ∧
    ordered ≠ [] ∧
    (∀ bin ∈ ordered.head?, bin.low = none) ∧
    ∀ bin ∈ ordered.getLast?, bin.high = none

theorem followsAt.before {prev cur : Bounds} (hfo : followsAt prev cur) :
    IntervalChain.Before Bounds.low Bounds.high prev cur := by
  obtain ⟨high, isHigh, isLow⟩ := hfo
  exact ⟨high, isHigh, high + 1, isLow, by omega⟩

theorem followsAt.meets {prev cur : Bounds} (hfo : followsAt prev cur) :
    IntervalChain.Meets Bounds.low Bounds.high (fun _ => True) prev cur := by
  obtain ⟨high, isHigh, isLow⟩ := hfo
  exact ⟨high, isHigh, high + 1, isLow, fun v _ above => by omega⟩

namespace Partition

variable {bins : List Bounds} (partition : Partition bins)

include partition

theorem exists_bin (v : ℤ) : ∃ bin ∈ bins, bin.contains v := by
  obtain ⟨ord, perm, chain, ne, left, right⟩ := partition.chained
  obtain ⟨first, head⟩ := Option.isSome_iff_exists.mp (List.isSome_head?.mpr ne)
  obtain ⟨bin, mem, contains⟩ := IntervalChain.exists_of_chain
    (chain.imp fun _ _ hfo => hfo.meets) right trivial ⟨first, head, by simp [left first head]⟩
  exact ⟨bin, perm.subset mem, contains⟩

theorem apart : bins.Pairwise fun a b => ∀ v, ¬ (a.contains v ∧ b.contains v) := by
  obtain ⟨ord, perm, chain, -⟩ := partition.chained
  exact IntervalChain.disjoint_of_chain perm partition.proper (chain.imp fun _ _ hfo => hfo.before)

end Partition

variable {name : PartitionName}

theorem parseBounds_proper {raw : RawBounds} {bounds : Bounds}
    (parsed : parseBounds name raw = .ok bounds) : bounds.Proper := by
  unfold parseBounds at parsed
  split at parsed
  · cases parsed
  · simp only at parsed
    split at parsed <;> rename_i valid
    · cases parsed
    · cases parsed
      push Not at valid
      exact valid.2

theorem parseAll_ok {bins : List RawBounds} {parsed : List Bounds}
    (acc : parseAll name bins = .ok parsed) :
    parsed.length = bins.length ∧ ∀ bin ∈ parsed, bin.Proper := by
  induction bins generalizing parsed with
  | nil =>
    cases acc
    simp
  | cons raw rest ih =>
    rw [parseAll] at acc
    cases first : parseBounds name raw with
    | error error => simp [first] at acc
    | ok bounds =>
      cases others : parseAll name rest with
      | error error => simp [first, others] at acc
      | ok tail =>
        simp only [first, others] at acc
        cases acc
        obtain ⟨len, proper⟩ := ih others
        refine ⟨by simp [len], fun bin mem => ?_⟩
        rcases List.mem_cons.mp mem with rfl | later
        · exact parseBounds_proper first
        · exact proper bin later

theorem integerPartition_ok {bins : List RawBounds} {parsed : List Bounds}
    (acc : integerPartition name bins = .ok parsed) :
    parsed.length = bins.length ∧ Partition parsed := by
  unfold integerPartition at acc
  cases parses : parseAll name bins with
  | error error => simp [parses] at acc
  | ok all =>
    simp only [parses] at acc
    split at acc <;> rename_i shoulders
    · cases acc
    · split at acc <;> rename_i chain
      · cases acc
        obtain ⟨len, proper⟩ := parseAll_ok parses
        push Not at shoulders
        obtain ⟨ne, left, right⟩ := shoulders
        exact ⟨len, proper, _, List.perm_insertionSort _ _, chain, ne, left, right⟩
      · cases acc

theorem parseBounds_toRaw {bounds : Bounds} (proper : bounds.Proper)
    (hbd : bounds.low ≠ none ∨ bounds.high ≠ none) :
    parseBounds name bounds.toRaw = .ok bounds := by
  have rounds : ∀ edge : Option ℤ, (edge.map fun v => (v : ℚ)).map round = edge := by
    intro edge
    cases edge <;> simp
  have integers : ∀ edge : Option ℤ, integerEdge (edge.map fun v => (v : ℚ)) = true := by
    intro edge
    cases edge <;> simp [integerEdge]
  have valid : ¬ ((bounds.low = none ∧ bounds.high = none) ∨
      ∃ low ∈ bounds.low, ∃ high ∈ bounds.high, high < low) := by
    push Not
    exact ⟨fun low => hbd.resolve_left (not_not.mpr low), proper⟩
  simp only [parseBounds, Bounds.toRaw, integers, rounds, Bool.not_true, Bool.or_self,
    Bool.false_eq_true, if_false]
  rw [if_neg valid]

theorem parseAll_toRaw {bins : List Bounds} (proper : ∀ bin ∈ bins, bin.Proper)
    (hbd : ∀ bin ∈ bins, bin.low ≠ none ∨ bin.high ≠ none) :
    parseAll name (bins.map Bounds.toRaw) = .ok bins := by
  induction bins with
  | nil => rfl
  | cons bin rest ih =>
    rw [List.map_cons, parseAll, parseBounds_toRaw (proper bin (by simp)) (hbd bin (by simp)),
      ih (fun other mem => proper other (by simp [mem]))
        (fun other mem => hbd other (by simp [mem]))]

theorem integerPartition_of_chain {bins : List Bounds} (proper : ∀ bin ∈ bins, bin.Proper)
    (hbd : ∀ bin ∈ bins, bin.low ≠ none ∨ bin.high ≠ none) (chain : bins.IsChain followsAt)
    (ne : bins ≠ []) (left : ∀ bin ∈ bins.head?, bin.low = none)
    (right : ∀ bin ∈ bins.getLast?, bin.high = none) :
    integerPartition name (bins.map Bounds.toRaw) = .ok bins := by
  have before := IntervalChain.chain_pairwise proper (chain.imp fun _ _ hfo => hfo.before)
  have asc : bins.Pairwise fun bin other => lowKey bin ≤ lowKey other := by
    refine before.imp_of_mem fun {bin other} mem _ prec => ?_
    obtain ⟨high, isHigh, low, isLow, less⟩ := prec
    have otherKey : lowKey other = (low : WithBot ℤ) := isLow
    cases key : bin.low with
    | none =>
      have binKey : lowKey bin = ⊥ := key
      rw [binKey]
      exact bot_le
    | some own =>
      have binKey : lowKey bin = (own : WithBot ℤ) := key
      rw [binKey, otherKey, WithBot.coe_le_coe]
      exact (proper bin mem own key high isHigh).trans less.le
  have sorted : bins.insertionSort (fun bin other => lowKey bin ≤ lowKey other) = bins :=
    List.Pairwise.insertionSort_eq asc
  have shoulders : ¬ (bins = [] ∨
        (∃ bin ∈ bins.head?, bin.low ≠ none) ∨
        ∃ bin ∈ bins.getLast?, bin.high ≠ none) := by
    push Not
    exact ⟨ne, left, right⟩
  simp only [integerPartition, parseAll_toRaw proper hbd, sorted]
  rw [if_neg shoulders, if_pos chain]

theorem mem_unitCells {v : ℤ} {count : ℕ} {cell : Bounds} (mem : cell ∈ unitCells v count) :
    (∃ w, v ≤ w ∧ w < v + count ∧ cell = ⟨some w, some w⟩) ∨ cell = ⟨some (v + count), none⟩ := by
  induction count generalizing v with
  | zero =>
    rw [unitCells, List.mem_singleton] at mem
    exact .inr (by simpa using mem)
  | succ count ih =>
    rw [unitCells] at mem
    rcases List.mem_cons.mp mem with rfl | later
    · exact .inl ⟨v, le_rfl, by push_cast; omega, rfl⟩
    · rcases ih later with ⟨w, lower, upper, rfl⟩ | rfl
      · exact .inl ⟨w, by omega, by push_cast; omega, rfl⟩
      · refine .inr ?_
        have shift : v + 1 + (count : ℤ) = v + ((count + 1 : ℕ) : ℤ) := by push_cast; ring
        rw [shift]

theorem unitCells_chain {prev : Bounds} {v : ℤ} (ends : prev.high = some (v - 1)) (count : ℕ) :
    (prev :: unitCells v count).IsChain followsAt := by
  have starts : followsAt prev ⟨some v, none⟩ := ⟨v - 1, ends, by simp⟩
  induction count generalizing prev v with
  | zero => exact List.isChain_cons_cons.mpr ⟨starts, List.isChain_singleton _⟩
  | succ count ih =>
    rw [unitCells]
    refine List.isChain_cons_cons.mpr ⟨⟨v - 1, ends, by simp⟩, ?_⟩
    have next : (⟨some v, some v⟩ : Bounds).high = some (v + 1 - 1) := by simp
    exact ih next ⟨v + 1 - 1, next, by simp⟩

theorem unitCells_getLast (v : ℤ) (count : ℕ) :
    (unitCells v count).getLast? = some ⟨some (v + count), none⟩ := by
  induction count generalizing v with
  | zero => simp [unitCells]
  | succ count ih =>
    have tail : unitCells (v + 1) count ≠ [] := by cases count <;> simp [unitCells]
    rw [unitCells, List.getLast?_cons_of_ne_nil tail, ih]
    congr 3
    push_cast
    ring

theorem le_foldl_max {α : Type*} [LinearOrder α] (vs : List α) (start : α) :
    start ≤ vs.foldl max start ∧ ∀ v ∈ vs, v ≤ vs.foldl max start := by
  induction vs generalizing start with
  | nil => simp
  | cons v rest ih =>
    obtain ⟨bound, each⟩ := ih (max start v)
    rw [List.foldl_cons]
    refine ⟨(le_max_left _ _).trans bound, fun other mem => ?_⟩
    rcases List.mem_cons.mp mem with rfl | later
    · exact (le_max_right _ _).trans bound
    · exact each other later

theorem foldl_min_le (vs : List ℤ) (start : ℤ) :
    vs.foldl min start ≤ start ∧ ∀ value ∈ vs, vs.foldl min start ≤ value :=
  @le_foldl_max ℤᵒᵈ _ vs start

section
variable (bins : List Bounds) (observed : ℤ) (steps : ℕ)

theorem gridLow_lt : gridLow bins observed steps < observed := by
  have bound := (foldl_min_le (edges bins) (observed - steps - 1)).1
  unfold gridLow
  omega

theorem lt_gridHigh : observed < gridHigh bins observed steps := by
  have bound := (le_foldl_max (edges bins) (observed + steps + 1)).1
  unfold gridHigh
  omega

theorem mem_unitSettlementGrid {cell : Bounds}
    (mem : cell ∈ unitSettlementGrid bins observed steps) :
    cell = ⟨none, some (gridLow bins observed steps - 1)⟩ ∨
    (∃ w, cell = ⟨some w, some w⟩) ∨
    cell = ⟨some (gridHigh bins observed steps + 1), none⟩ := by
  have low := gridLow_lt bins observed steps
  have high := lt_gridHigh bins observed steps
  rcases List.mem_cons.mp mem with rfl | later
  · exact .inl rfl
  · rcases mem_unitCells later with ⟨w, -, -, rfl⟩ | rfl
    · exact .inr (.inl ⟨w, rfl⟩)
    · refine .inr (.inr ?_)
      congr 2
      omega

theorem unitSettlementGrid_accepted :
    integerPartition .template ((unitSettlementGrid bins observed steps).map Bounds.toRaw) =
      .ok (unitSettlementGrid bins observed steps) := by
  apply integerPartition_of_chain
  · intro cell mem low isLow high isHigh
    rcases mem_unitSettlementGrid bins observed steps mem with rfl | ⟨w, rfl⟩ | rfl
    · cases isLow
    · cases isLow
      cases isHigh
      exact le_rfl
    · cases isHigh
  · intro cell mem
    rcases mem_unitSettlementGrid bins observed steps mem with rfl | ⟨w, rfl⟩ | rfl <;> simp
  · exact unitCells_chain rfl _
  · simp [unitSettlementGrid]
  · intro cell isHead
    cases isHead
    rfl
  · intro cell isLast
    have tail : unitCells (gridLow bins observed steps)
        (gridHigh bins observed steps + 1 - gridLow bins observed steps).toNat ≠ [] := by
      generalize (gridHigh bins observed steps + 1 - gridLow bins observed steps).toNat = count
      cases count <;> simp [unitCells]
    rw [unitSettlementGrid, List.getLast?_cons_of_ne_nil tail, unitCells_getLast] at isLast
    cases isLast
    rfl

theorem grid_never_straddles (metric : Metric) {cell : Bounds}
    (mem : cell ∈ unitSettlementGrid bins observed steps) :
    nonviolation metric observed cell ≠ violation metric observed cell := by
  have low := gridLow_lt bins observed steps
  have high := lt_gridHigh bins observed steps
  rcases mem_unitSettlementGrid bins observed steps mem with rfl | ⟨w, rfl⟩ | rfl
  · cases metric <;> simp [nonviolation, violation] <;> omega
  · cases metric <;> by_cases side : observed ≤ w <;> simp [nonviolation, violation] <;> omega
  · cases metric <;> simp [nonviolation, violation] <;> omega
end

def Bounds.within (bounds other : Bounds) : Prop :=
  ∀ value, bounds.contains value → other.contains value

section
variable {cell : Bounds}

theorem forall_ge_iff (proper : cell.Proper) (m : ℤ) :
    (∀ v, cell.contains v → m ≤ v) ↔ ∃ low ∈ cell.low, m ≤ low := by
  constructor
  · intro above
    cases edge : cell.low with
    | none =>
      have hin : cell.contains (cell.high.elim (m - 1) fun high => min high (m - 1)) := by
        refine ⟨by simp [edge], fun high isHigh => ?_⟩
        rw [Option.mem_def.mp isHigh]
        exact min_le_left _ _
      have bound := above _ hin
      cases high : cell.high <;> simp [high] at bound
    | some low =>
      exact ⟨low, rfl, above low ⟨by simp [edge], fun high isHigh => proper low edge high isHigh⟩⟩
  · rintro ⟨low, isLow, bound⟩ v ⟨lower, -⟩
    exact bound.trans (lower low isLow)

theorem forall_le_iff (proper : cell.Proper) (m : ℤ) :
    (∀ v, cell.contains v → v ≤ m) ↔ ∃ high ∈ cell.high, high ≤ m := by
  constructor
  · intro below
    cases edge : cell.high with
    | none =>
      have hin : cell.contains (cell.low.elim (m + 1) fun low => max low (m + 1)) := by
        refine ⟨fun low isLow => ?_, by simp [edge]⟩
        rw [Option.mem_def.mp isLow]
        exact le_max_left _ _
      have bound := below _ hin
      cases low : cell.low <;> simp [low] at bound
    | some high =>
      exact ⟨high, rfl, below high ⟨fun low isLow => proper low isLow high edge, by simp [edge]⟩⟩
  · rintro ⟨high, isHigh, bound⟩ v ⟨-, upper⟩
    exact (upper high isHigh).trans bound

theorem nestsIn_iff (proper : cell.Proper) (bin : Bounds) :
    nestsIn cell bin = true ↔ cell.within bin := by
  have low : (bin.low.all fun low => cell.low.any fun edge => decide (low ≤ edge)) = true ↔
      ∀ value, cell.contains value → ∀ low ∈ bin.low, low ≤ value := by
    cases bin.low with
    | none => simp
    | some edge => simpa [Option.any_eq_true] using (forall_ge_iff proper edge).symm
  have high : (bin.high.all fun high => cell.high.any fun edge => decide (edge ≤ high)) = true ↔
      ∀ value, cell.contains value → ∀ high ∈ bin.high, value ≤ high := by
    cases bin.high with
    | none => simp
    | some edge => simpa [Option.any_eq_true] using (forall_le_iff proper edge).symm
  rw [nestsIn, Bool.and_eq_true, low, high]
  constructor
  · intro edges value hin
    exact ⟨edges.1 value hin, edges.2 value hin⟩
  · intro hin
    exact ⟨fun value mem => (hin value mem).1, fun value mem => (hin value mem).2⟩

theorem exists_contains (proper : cell.Proper) : ∃ v, cell.contains v := by
  by_contra empty
  push Not at empty
  obtain ⟨low, isLow, above⟩ := (forall_ge_iff proper 1).mp fun v hin => absurd hin (empty v)
  obtain ⟨high, isHigh, below⟩ := (forall_le_iff proper 0).mp fun v hin => absurd hin (empty v)
  have ord := proper low isLow high isHigh
  omega
end

section
variable {bins : List Bounds} (partition : Partition bins) (observed : ℤ) (steps : ℕ)

theorem grid_proper {cell : Bounds} (mem : cell ∈ unitSettlementGrid bins observed steps) :
    cell.Proper :=
  (integerPartition_ok (unitSettlementGrid_accepted bins observed steps)).2.proper cell mem

theorem low_mem_edges {bin : Bounds} (mem : bin ∈ bins) {low : ℤ} (isLow : low ∈ bin.low) :
    low ∈ edges bins :=
  List.mem_flatMap.mpr ⟨bin, mem, List.mem_append_left _ (by simpa using isLow)⟩

theorem high_mem_edges {bin : Bounds} (mem : bin ∈ bins) {high : ℤ} (isHigh : high ∈ bin.high) :
    high ∈ edges bins :=
  List.mem_flatMap.mpr ⟨bin, mem, List.mem_append_right _ (by simpa using isHigh)⟩

include partition

/-- A cell lies in the bin that contains one of its values: no bin edge falls inside it. -/
theorem exists_within {cell : Bounds} (mem : cell ∈ unitSettlementGrid bins observed steps) :
    ∃ bin ∈ bins, cell.within bin := by
  rcases mem_unitSettlementGrid bins observed steps mem with rfl | ⟨w, rfl⟩ | rfl
  · obtain ⟨bin, inBins, lower, upper⟩ := partition.exists_bin (gridLow bins observed steps - 1)
    refine ⟨bin, inBins, fun v hin => ⟨fun low isLow => ?_, fun high isHigh => ?_⟩⟩
    · have edge :=
        (foldl_min_le (edges bins) (observed - steps - 1)).2 low (low_mem_edges inBins isLow)
      have bound := lower low isLow
      rw [gridLow] at bound
      omega
    · exact (hin.2 _ rfl).trans (upper high isHigh)
  · obtain ⟨bin, inBins, contains⟩ := partition.exists_bin w
    refine ⟨bin, inBins, fun v hin => ?_⟩
    have same : v = w := le_antisymm (hin.2 w rfl) (hin.1 w rfl)
    rw [same]
    exact contains
  · obtain ⟨bin, inBins, lower, upper⟩ := partition.exists_bin (gridHigh bins observed steps + 1)
    refine ⟨bin, inBins, fun v hin => ⟨fun low isLow => ?_, fun high isHigh => ?_⟩⟩
    · exact (lower low isLow).trans (hin.1 _ rfl)
    · have edge :=
        (le_foldl_max (edges bins) (observed + steps + 1)).2 high (high_mem_edges inBins isHigh)
      have bound := upper high isHigh
      rw [gridHigh] at bound
      omega

theorem within_apart {cell : Bounds} (proper : cell.Proper) :
    bins.Pairwise fun a b => ¬ (cell.within a ∧ cell.within b) := by
  obtain ⟨v, hin⟩ := exists_contains proper
  exact partition.apart.imp fun apart ⟨inA, inB⟩ => apart v ⟨inA v hin, inB v hin⟩

theorem grid_nested {cell : Bounds} (mem : cell ∈ unitSettlementGrid bins observed steps) :
    bins.countP (nestsIn cell) = 1 := by
  have proper := grid_proper observed steps mem
  obtain ⟨bin, inBins, hle⟩ := exists_within partition observed steps mem
  have counted := IntervalChain.countP_of_unique (p := fun bin => nestsIn cell bin = true)
    ⟨bin, inBins, (nestsIn_iff proper bin).mpr hle⟩
    ((within_apart partition proper).imp fun apart both =>
      apart ⟨(nestsIn_iff proper _).mp both.1, (nestsIn_iff proper _).mp both.2⟩)
  simpa using counted
end

end Zeus.Day0Terminal
