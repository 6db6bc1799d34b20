import Mathlib
import Zeus.Lib.IntervalChain

/-! Raw edges are finite rationals; a validated partition carries them as integers. Masses live in
an arbitrary ordered field, and inputs are single rows (two-dimensional inputs are composed row by
row). -/

namespace Zeus.Day0Terminal

abbrev RawBounds := Option ℚ × Option ℚ

structure Bounds where
  (low high : Option ℤ)
  deriving DecidableEq

def Bounds.toRaw (bounds : Bounds) : RawBounds :=
  (bounds.low.map fun edge => (edge : ℚ), bounds.high.map fun edge => (edge : ℚ))

inductive Metric where
  | high | low
  deriving DecidableEq

inductive PartitionName where
  | template | bin
  deriving DecidableEq

inductive TerminalError where
  | boundsInvalid (name : PartitionName)
  | shoulderTopologyInvalid (name : PartitionName)
  | gapOrOverlap (name : PartitionName)
  | templateNotNestedInBins | compositionInputInvalid | observedNotOnSettlementGrid
  | templateBinStraddlesObserved
  | templateHasNoNonviolationMass
  deriving DecidableEq

def integerEdge (edge : Option ℚ) : Bool := edge.all fun value => decide ((round value : ℚ) = value)

def parseBounds (name : PartitionName) (raw : RawBounds) : Except TerminalError Bounds :=
  if !integerEdge raw.1 || !integerEdge raw.2 then .error (.boundsInvalid name)
  else
    let bounds : Bounds := ⟨raw.1.map round, raw.2.map round⟩
    if (bounds.low = none ∧ bounds.high = none) ∨
        ∃ low ∈ bounds.low, ∃ high ∈ bounds.high, high < low then
      .error (.boundsInvalid name)
    else .ok bounds

def parseAll (name : PartitionName) : List RawBounds → Except TerminalError (List Bounds)
  | [] => .ok []
  | raw :: rest =>
    match parseBounds name raw with
    | .error error => .error error
    | .ok bounds =>
      match parseAll name rest with
      | .error error => .error error
      | .ok parsed => .ok (bounds :: parsed)

def followsAt (previous current : Bounds) : Prop :=
  ∃ high ∈ previous.high, current.low = some (high + 1)

instance (previous current : Bounds) : Decidable (followsAt previous current) :=
  decidable_of_iff (previous.high.any fun high => decide (current.low = some (high + 1)))
    (by simp [followsAt, Option.any_eq_true])

def lowKey (bounds : Bounds) : WithBot ℤ := bounds.low

def integerPartition (name : PartitionName) (bins : List RawBounds) :
    Except TerminalError (List Bounds) :=
  match parseAll name bins with
  | .error error => .error error
  | .ok parsed =>
    let ordered := parsed.insertionSort fun bounds other => lowKey bounds ≤ lowKey other
    if ordered = [] ∨ (∃ bounds ∈ ordered.head?, bounds.low ≠ none) ∨
        (∃ bounds ∈ ordered.getLast?, bounds.high ≠ none) then .error
          (.shoulderTopologyInvalid name)
    else if ordered.IsChain followsAt then .ok parsed
    else .error (.gapOrOverlap name)

def edges (bins : List Bounds) : List ℤ :=
  bins.flatMap fun bounds => bounds.low.toList ++ bounds.high.toList

/-- The unit cells from `value` on, closed by an open shoulder after `count` of them. -/
def unitCells (value : ℤ) : ℕ → List Bounds
  | 0 => [⟨some value, none⟩]
  | count + 1 => ⟨some value, some value⟩ :: unitCells (value + 1) count

def gridLow (bins : List Bounds) (observed : ℤ) (steps : ℕ) : ℤ :=
  (edges bins).foldl min (observed - steps - 1)

def gridHigh (bins : List Bounds) (observed : ℤ) (steps : ℕ) : ℤ :=
  (edges bins).foldl max (observed + steps + 1)

def unitSettlementGrid (bins : List Bounds) (observed : ℤ) (steps : ℕ) : List Bounds :=
  let lo := gridLow bins observed steps
  let hi := gridHigh bins observed steps
  ⟨none, some (lo - 1)⟩ :: unitCells lo (hi + 1 - lo).toNat

section
variable {α : Type*} [Field α] [LinearOrder α]

def nestsIn (fine target : Bounds) : Bool :=
  (target.low.all fun low => fine.low.any fun edge => decide (low ≤ edge)) &&
    (target.high.all fun high => fine.high.any fun edge => decide (edge ≤ high))

/-- The 0/1 map of fine bins into target bins, by target row. The re-validation of its two
arguments is left out: both are validated partitions. -/
def nestingMap (fine target : List Bounds) : Except TerminalError (List (List α)) :=
  if ∃ cell ∈ fine, target.countP (nestsIn cell) ≠ 1 then .error .templateNotNestedInBins
  else .ok (target.map fun bin => fine.map fun cell => if nestsIn cell bin then 1 else 0)

/-- Mass of `k` from `kLow` to `kHigh` under the tail `2 ^ -(k - steps)`. -/
def overflowMass (kLow : ℤ) (kHigh : Option ℤ) (steps : ℕ) : α :=
  let low := max kLow (steps + 1)
  if ∃ high ∈ kHigh, high < low then 0
  else
    let atLeastLow : α := ((2 : ℕ) : α) ^ (-(low - steps - 1))
    let beyondHigh : α := kHigh.elim 0 fun high => ((2 : ℕ) : α) ^ (-(high - steps))
    atLeastLow - beyondHigh

def nonviolation (metric : Metric) (observed : ℤ) (cell : Bounds) : Bool :=
  match metric with
  | .high => cell.low.any fun low => decide (observed ≤ low)
  | .low => cell.high.any fun high => decide (high ≤ observed)

def violation (metric : Metric) (observed : ℤ) (cell : Bounds) : Bool :=
  match metric with
  | .high => cell.high.any fun high => decide (high < observed)
  | .low => cell.low.any fun low => decide (observed < low)

/-- The violation steps a bin contains, `none` when it has no violating value. -/
def violationSteps (metric : Metric) (observed : ℤ) (bin : Bounds) : Option (ℤ × Option ℤ) :=
  match metric with
  | .high =>
    let yHigh := bin.high.elim (observed - 1) fun high => min high (observed - 1)
    if ∃ low ∈ bin.low, yHigh < low then none
    else some (observed - yHigh, bin.low.map fun low => observed - low)
  | .low =>
    let yLow := bin.low.elim (observed + 1) fun low => max low (observed + 1)
    if ∃ high ∈ bin.high, high < yLow then none
    else some (yLow - observed, bin.high.map fun high => high - observed)

def minusRow (metric : Metric) (observed : ℤ) (failureSteps : ℕ) (bin : Bounds) : List α :=
  (List.range (failureSteps + 1)).map fun index => match violationSteps metric observed bin with
    | none => 0
    | some (kLow, kHigh) =>
      if index < failureSteps then
        if kLow ≤ index + 1 ∧ ∀ high ∈ kHigh, (index + 1 : ℤ) ≤ high then 1 else 0
      else overflowMass kLow kHigh failureSteps

structure CompositionMaps (α : Type*) where
  mask : List α
  (plusMap minusMap : List (List α))

def terminalCompositionMaps (templateBins : List RawBounds) (observed : ℚ) (metric : Metric)
    (bins : List RawBounds) (failureSteps : ℕ) : Except TerminalError (CompositionMaps α) :=
  if failureSteps < 1 then .error .compositionInputInvalid
  else if (round observed : ℚ) ≠ observed then .error .observedNotOnSettlementGrid
  else
    match integerPartition .template templateBins, integerPartition .bin bins with
    | .error error, _ => .error error
    | _, .error error => .error error
    | .ok fine, .ok target =>
      let a := round observed
      if ∃ cell ∈ fine, nonviolation metric a cell = violation metric a cell then
        .error .templateBinStraddlesObserved
      else
        let mask := fine.map fun cell => if nonviolation metric a cell then 1 else 0
        match nestingMap fine target with
        | .error error => .error error
        | .ok nesting =>
          .ok { mask := mask
                plusMap := nesting.map fun row => List.zipWith (· * ·) row mask
                minusMap := target.map (minusRow metric a failureSteps) }

def dot (left right : List α) : α := (List.zipWith (· * ·) left right).sum

def failureMassTolerance : ℚ := 1 / 1000000000

def composeResolverTerminalDistribution (template : List α) (templateBins : List RawBounds)
    (observed : ℚ) (metric : Metric) (nonviolationProbability : α) (failureMagnitude : List α)
    (bins : List RawBounds) : Except TerminalError (List α) :=
  if template.length ≠ templateBins.length ∨ failureMagnitude.length < 2 ∨
      (∃ mass ∈ template, mass < 0) ∨ nonviolationProbability < 0 ∨ 1 < nonviolationProbability ∨
      (∃ mass ∈ failureMagnitude, mass < 0) ∨
      ¬ |failureMagnitude.sum - 1| ≤ failureMassTolerance then
    .error .compositionInputInvalid
  else
    match terminalCompositionMaps templateBins observed metric bins
      (failureMagnitude.length - 1) with
    | .error error => .error error
    | .ok maps =>
      let kept := List.zipWith (· * ·) template maps.mask
      if kept.sum ≤ 0 then .error .templateHasNoNonviolationMass
      else
        let qPlus := kept.map fun mass => mass / kept.sum
        .ok (List.zipWith
          (fun plusRow minusRow => nonviolationProbability * dot qPlus plusRow +
            (1 - nonviolationProbability) * dot failureMagnitude minusRow)
          maps.plusMap maps.minusMap)
end

end Zeus.Day0Terminal
