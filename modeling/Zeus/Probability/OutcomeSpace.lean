import Zeus.Contracts.SettlementSemantics
import Zeus.Lib.Refusal
import Zeus.Types.Market

/-! `OutcomeSpace.validate` builds a `Bin` from each outcome and hands them to
`validate_bin_topology`. -/

namespace Zeus.Market

variable {α : Type*} [Field α] [LinearOrder α]

def Partitions (bins : List (Bin α)) : Prop :=
  ∀ z : ℤ, ∃! i : Fin bins.length, (bins.get i).contains (z : α)

variable {bins : List (Bin α)}

section
variable (accepted : validateBinTopology bins = .ok ())

include accepted

theorem accepted_open_low : ∃ bin ∈ bins, bin.low = none := by
  obtain ⟨ord, perm, -, ne, left, -⟩ := validateBinTopology_ok accepted
  obtain ⟨first, head⟩ := Option.isSome_iff_exists.mp (List.isSome_head?.mpr ne)
  exact ⟨first, perm.subset (List.mem_of_mem_head? head), left first head⟩

variable [IsStrictOrderedRing α]

theorem accepted_eq_or_before {bin other : Bin α} (first : bin ∈ bins) (snd : other ∈ bins) :
    bin = other ∨
    IntervalChain.Before Bin.low Bin.high bin other ∨
    IntervalChain.Before Bin.low Bin.high other bin := by
  obtain ⟨ord, perm, chain, -⟩ := validateBinTopology_ok accepted
  exact IntervalChain.eq_or_before_of_chain perm (fun bin _ => bin.proper)
    (chain.imp fun _ _ adj => adj.before) first snd

theorem partitions_iff_covers : Partitions bins ↔ CoversIntegers bins := by
  have hne := accepted_disjoint accepted
  constructor
  · intro partitions z
    obtain ⟨i, contains, -⟩ := partitions z
    exact ⟨_, List.get_mem bins i, contains⟩
  · intro covers z
    obtain ⟨bin, mem, contains⟩ := covers z
    obtain ⟨i, rfl⟩ := List.mem_iff_get.mp mem
    refine ⟨i, contains, fun j also => ?_⟩
    rcases lt_trichotomy i j with before | same | after
    · exact absurd ⟨contains, also⟩ (List.pairwise_iff_get.mp hne i j before z)
    · exact same.symm
    · exact absurd ⟨also, contains⟩ (List.pairwise_iff_get.mp hne j i after z)

variable [FloorRing α]

/-- Above each upper edge a bin begins, no later than the next integer. -/
def EdgesMeet (bins : List (Bin α)) : Prop :=
  ∀ bin ∈ bins, ∀ h ∈ bin.high, ∃ other ∈ bins, ∃ l ∈ other.low, h < l ∧ l ≤ ⌊h⌋ + 1

theorem coversIntegers_iff : CoversIntegers bins ↔ EdgesMeet bins := by
  constructor
  · -- the integer above an upper edge settles in a later bin
    intro covers bin mem h isHigh
    obtain ⟨other, inOther, fromLow, toHigh⟩ := covers (⌊h⌋ + 1)
    have above : h < ((⌊h⌋ + 1 : ℤ) : α) := by
      push_cast
      exact Int.lt_floor_add_one h
    obtain rfl | before | after := accepted_eq_or_before accepted mem inOther
    · exact absurd (toHigh h isHigh) (not_le.mpr above)
    · obtain ⟨h', isHigh', l, isLow, hne⟩ := before
      cases Option.mem_unique isHigh isHigh'
      exact ⟨other, inOther, l, isLow, hne, by exact_mod_cast fromLow l isLow⟩
    · obtain ⟨h', isHigh', l, isLow, hne⟩ := after
      have short := (toHigh h' isHigh').trans_lt (hne.trans_le (bin.proper l isLow h isHigh))
      exact absurd above short.not_gt
  · intro meets z
    obtain ⟨first, inFirst, isOpen⟩ := accepted_open_low accepted
    refine IntervalChain.exists_of_reaches (fun bin _ => bin.proper)
      ⟨first, inFirst, by simp [isOpen]⟩ ?_
    intro bin mem h isHigh short
    obtain ⟨other, inOther, l, isLow, hne, hle⟩ := meets bin mem h isHigh
    refine ⟨other, inOther, l, isLow, hne, hle.trans ?_⟩
    exact_mod_cast Int.floor_lt.mpr short

theorem partitions_iff : Partitions bins ↔ EdgesMeet bins :=
  (partitions_iff_covers accepted).trans (coversIntegers_iff accepted)
end

end Zeus.Market

namespace Zeus.Probability

open Zeus.Market Zeus.Settlement Refusal

variable {α : Type*} [Field α] [LinearOrder α]

structure OutcomeBin (α : Type*) where
  binId : String
  labelUnits : List TempUnit := []
  (lowerNative upperNative : Option α)
  roundingRule : RoundingRule

structure EventResolution where
  measurementUnit : TempUnit
  roundingRule : RoundingRule

structure OutcomeSpace (α : Type*) where
  resolution : EventResolution
  bins : List (OutcomeBin α)

inductive OutcomeSpaceError where
  | tooFewBins (count : ℕ)
  | roundingRuleMismatch (binId : String)
  | invalidBin (binId : String)
  | invalidTopology (error : BinTopologyError)
  deriving DecidableEq

/-- `Bin(...)`, with the checks of its constructor. -/
def OutcomeBin.topologyBin (unit : TempUnit) (outcome : OutcomeBin α) :
    Except OutcomeSpaceError (Bin α) :=
  if ∀ named ∈ outcome.labelUnits, named = unit then
    if covers : ∀ l ∈ outcome.lowerNative, ∀ h ∈ outcome.upperNative, h - l + 1 = unit.span then
      .ok ⟨outcome.lowerNative, outcome.upperNative, unit, covers⟩
    else .error (.invalidBin outcome.binId)
  else .error (.invalidBin outcome.binId)

def OutcomeSpace.topologyBins (space : OutcomeSpace α) : Except OutcomeSpaceError (List (Bin α)) :=
  space.bins.mapM (OutcomeBin.topologyBin space.resolution.measurementUnit)

def OutcomeSpace.validate (space : OutcomeSpace α) : Except OutcomeSpaceError Unit :=
  if space.bins.length < 2 then .error (.tooFewBins space.bins.length)
  else
    match first (space.bins.map fun bin =>
      require (bin.roundingRule = space.resolution.roundingRule)
        (.roundingRuleMismatch bin.binId)) with
    | some error => .error error
    | none =>
      match space.topologyBins with
      | .error error => .error error
      | .ok bins => (validateBinTopology bins).mapError .invalidTopology

theorem OutcomeSpace.validate_eq_ok {space : OutcomeSpace α} (valid : space.validate = .ok ()) :
    ∃ bins, space.topologyBins = .ok bins ∧ validateBinTopology bins = .ok () := by
  unfold OutcomeSpace.validate at valid
  split_ifs at valid
  split at valid
  · cases valid
  · cases built : space.topologyBins with
    | error error => simp [built] at valid
    | ok bins =>
      rw [built] at valid
      exact ⟨bins, rfl, mapError_eq_ok.mp valid⟩

variable [IsStrictOrderedRing α] [FloorRing α]

/-- What is accepted is a partition of the integers exactly when its edges meet. -/
theorem accepted_bins_partition_iff :
    (∀ bins : List (Bin α), validateBinTopology bins = .ok () →
        (Partitions bins ↔ EdgesMeet bins)) ∧
    ∀ space : OutcomeSpace α, space.validate = .ok () →
      ∃ bins, space.topologyBins = .ok bins ∧ (Partitions bins ↔ EdgesMeet bins) := by
  refine ⟨fun bins accepted => partitions_iff accepted, fun space valid => ?_⟩
  obtain ⟨bins, built, accepted⟩ := OutcomeSpace.validate_eq_ok valid
  exact ⟨bins, built, partitions_iff accepted⟩

def celsius (edges : List (Option ℚ × Option ℚ)) : OutcomeSpace ℚ where
  resolution := ⟨.celsius, .wmoHalfUp⟩
  bins := edges.map fun edge => {
    binId := "bin", labelUnits := [.celsius], lowerNative := edge.1, upperNative := edge.2,
    roundingRule := .wmoHalfUp }

def shoulders (low high : ℚ) : List (Bin ℚ) :=
  [⟨none, some low, .celsius, by simp⟩, ⟨some high, none, .celsius, by simp⟩]

theorem whole_degrees_partition :
    validateBinTopology (shoulders 10 11) = .ok () ∧ Partitions (shoulders 10 11) := by
  have accepted : validateBinTopology (shoulders 10 11) = .ok () := by decide +kernel
  have meets : EdgesMeet (shoulders 10 11) := by
    unfold EdgesMeet
    decide +kernel
  exact ⟨accepted, (accepted_bins_partition_iff.1 _ accepted).mpr meets⟩

/-- Shoulders at 10.5 and 11.5 degrees are one degree apart, and eleven degrees settle in
neither. -/
theorem half_degrees_accepted : validateBinTopology (shoulders (21 / 2) (23 / 2)) = .ok () ∧
    (celsius [(none, some (21 / 2)), (some (23 / 2), none)]).validate = .ok () ∧
    ¬ ∃ bin ∈ shoulders (21 / 2) (23 / 2), bin.contains 11 := by
  refine ⟨by decide +kernel, by decide +kernel, ?_⟩
  unfold Bin.contains
  decide +kernel

end Zeus.Probability
