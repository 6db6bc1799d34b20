import Mathlib
import Zeus.Lib.IntervalChain

/-! Edges live in an arbitrary ordered field. An open edge is `none`; the source also spells it as
an infinity, and normalises both spellings before it compares. Labels only repeat the unit and are
left out. -/

namespace Zeus.Market

inductive TempUnit where
  | fahrenheit | celsius
  deriving DecidableEq

def TempUnit.span : TempUnit → ℕ
  | .fahrenheit => 2
  | .celsius => 1

@[ext] structure Bin (α : Type*) [Field α] where
  (low high : Option α)
  unit : TempUnit
  covers : ∀ l ∈ low, ∀ h ∈ high, h - l + 1 = unit.span

section
variable {α : Type*} [Field α] [LinearOrder α]

def Bin.contains (bin : Bin α) (value : α) : Prop :=
  IntervalChain.Contains Bin.low Bin.high bin value

def Bin.IntegerEdges (bin : Bin α) : Prop :=
  (∀ l ∈ bin.low, ∃ z : ℤ, l = z) ∧ ∀ h ∈ bin.high, ∃ z : ℤ, h = z

def normLow (edge : Option α) : WithBot α := edge

def normHigh (edge : Option α) : WithTop α := edge

omit [Field α] [LinearOrder α] in
@[simp] theorem normLow_none : normLow (none : Option α) = ⊥ := rfl

omit [Field α] [LinearOrder α] in
@[simp] theorem normLow_some (x : α) : normLow (some x) = (x : WithBot α) := rfl

inductive BinTopologyError where
  | emptyBinSet | universalBin | mixedBinUnits | leftmostNotOpen | rightmostNotOpen
  | interiorInfiniteEdge
  | overlappingBins | gapBetweenBins
  deriving DecidableEq

/-- `math.isclose` with its default relative tolerance and `abs_tol=1e-9`. -/
def isclose (a b : α) : Bool :=
  decide (|a - b| ≤ max (1 / 1000000000 * max |a| |b|) (1 / 1000000000))

def checkAdjacent (prev nxt : Bin α) : Except BinTopologyError Unit :=
  match prev.high, nxt.low with
  | some prevHigh, some nextLow =>
    if nextLow ≤ prevHigh then .error .overlappingBins
    else if isclose (prevHigh + 1) nextLow then .ok ()
    else .error .gapBetweenBins
  | _, _ => .error .interiorInfiniteEdge

def checkNeighbours : List (Bin α) → Except BinTopologyError Unit
  | prev :: nxt :: rest =>
    match checkAdjacent prev nxt with
    | .error error => .error error
    | .ok () => checkNeighbours (nxt :: rest)
  | _ => .ok ()

/-- The sort key `(low, high)`. -/
def ordersBefore (bin other : Bin α) : Prop :=
  normLow bin.low < normLow other.low ∨
    (normLow bin.low = normLow other.low ∧ normHigh bin.high ≤ normHigh other.high)

instance (bin other : Bin α) : Decidable (ordersBefore bin other) :=
  inferInstanceAs (Decidable (_ ∨ (_ ∧ _)))

def validateBinTopology (bins : List (Bin α)) : Except BinTopologyError Unit :=
  match bins with
  | [] => .error .emptyBinSet
  | first :: rest =>
    if rest = [] ∧ first.low = none ∧ first.high = none then .error .universalBin
    else if ¬ ∀ bin ∈ rest, bin.unit = first.unit then .error .mixedBinUnits
    else
      let ordered := (first :: rest).insertionSort ordersBefore
      if ∃ bin ∈ ordered.head?, bin.low ≠ none then .error .leftmostNotOpen
      else if ∃ bin ∈ ordered.getLast?, bin.high ≠ none then .error .rightmostNotOpen
      else checkNeighbours ordered
end

section
variable {α : Type*} [Field α] [LinearOrder α]

def Adjacent (prev nxt : Bin α) : Prop :=
  ∃ h l, prev.high = some h ∧ nxt.low = some l ∧ h < l ∧ isclose (h + 1) l = true

theorem checkAdjacent_ok_iff {prev nxt : Bin α} :
    checkAdjacent prev nxt = .ok () ↔ Adjacent prev nxt := by
  unfold checkAdjacent Adjacent
  cases prev.high <;> cases nxt.low <;> simp
  split_ifs <;> simp_all

variable {bins : List (Bin α)}

theorem checkNeighbours_ok_iff : checkNeighbours bins = .ok () ↔ bins.IsChain Adjacent := by
  induction bins with
  | nil => simp [checkNeighbours]
  | cons prev rest ih =>
    cases rest with
    | nil => simp [checkNeighbours]
    | cons nxt rest =>
      rw [List.isChain_cons_cons, ← ih, ← checkAdjacent_ok_iff, checkNeighbours]
      cases checkAdjacent prev nxt <;> simp

theorem validateBinTopology_ok (acc : validateBinTopology bins = .ok ()) :
    ∃ ord : List (Bin α), ord.Perm bins ∧
      ord.IsChain Adjacent ∧
      ord ≠ [] ∧
      (∀ bin ∈ ord.head?, bin.low = none) ∧
      ∀ bin ∈ ord.getLast?, bin.high = none := by
  unfold validateBinTopology at acc
  cases bins with
  | nil => cases acc
  | cons first rest =>
    simp only at acc
    split at acc
    · cases acc
    · split at acc
      · cases acc
      · split at acc <;> rename_i left
        · cases acc
        · split at acc <;> rename_i right
          · cases acc
          · push Not at left right
            refine ⟨_, List.perm_insertionSort ordersBefore _, checkNeighbours_ok_iff.mp acc, ?_,
              left, right⟩
            intro empty
            have len := (List.perm_insertionSort ordersBefore (first :: rest)).length_eq
            rw [empty] at len
            cases len

theorem Adjacent.before {prev nxt : Bin α} (adj : Adjacent prev nxt) :
    IntervalChain.Before Bin.low Bin.high prev nxt := by
  obtain ⟨h, l, high, low, below, -⟩ := adj
  exact ⟨h, high, l, low, below⟩

variable [IsStrictOrderedRing α]

theorem Bin.proper (bin : Bin α) : IntervalChain.Proper Bin.low Bin.high bin := by
  intro l low h high
  have width := bin.covers l low h high
  cases unit : bin.unit <;> simp [unit, TempUnit.span] at width <;> linarith

theorem accepted_disjoint (acc : validateBinTopology bins = .ok ()) :
    bins.Pairwise fun a b => ∀ v, ¬ (a.contains v ∧ b.contains v) := by
  obtain ⟨ord, perm, chain, -⟩ := validateBinTopology_ok acc
  exact IntervalChain.disjoint_of_chain perm (fun bin _ => bin.proper)
    (chain.imp fun _ _ adj => adj.before)

def CoversIntegers (bins : List (Bin α)) : Prop := ∀ z : ℤ, ∃ bin ∈ bins, bin.contains (z : α)

def Bin.Bounded (bin : Bin α) : Prop :=
  (∀ l ∈ bin.low, |l| < 1000000000) ∧ ∀ h ∈ bin.high, |h| < 1000000000

theorem Adjacent.meets {prev nxt : Bin α} (adj : Adjacent prev nxt)
    (prevInteger : prev.IntegerEdges) (nextInteger : nxt.IntegerEdges)
    (prevBounded : prev.Bounded) (nextBounded : nxt.Bounded) :
    IntervalChain.Meets Bin.low Bin.high (fun value : α => ∃ z : ℤ, value = z) prev nxt := by
  obtain ⟨h, l, high, low, below, close⟩ := adj
  obtain ⟨z, rfl⟩ := prevInteger.2 h high
  obtain ⟨w, rfl⟩ := nextInteger.1 l low
  have zBound := prevBounded.2 _ high
  have wBound := nextBounded.1 _ low
  have step : z + 1 ≤ w := by exact_mod_cast below
  have touching : w = z + 1 := by
    by_contra gap
    have hne : (z : α) + 2 ≤ w := by exact_mod_cast (show z + 2 ≤ w by omega)
    obtain ⟨zLow, zHigh⟩ := abs_lt.mp zBound
    obtain ⟨wLow, wHigh⟩ := abs_lt.mp wBound
    have size : max |(z : α) + 1| |(w : α)| < 1000000000 :=
      max_lt (abs_lt.mpr ⟨by linarith, by linarith⟩) wBound
    have distance : |(z : α) + 1 - w| = w - (z + 1) := by
      rw [abs_of_nonpos (by linarith)]
      ring
    simp only [isclose, decide_eq_true_eq, le_max_iff, distance] at close
    rcases close with relative | absolute
    · linarith
    · linarith
  refine ⟨z, high, w, low, ?_⟩
  rintro _ ⟨v, rfl⟩ above
  rw [touching]
  exact_mod_cast above

theorem accepted_coversIntegers (acc : validateBinTopology bins = .ok ())
    (integer : ∀ bin ∈ bins, bin.IntegerEdges) (hbd : ∀ bin ∈ bins, bin.Bounded) :
    CoversIntegers bins := by
  obtain ⟨ord, perm, chain, ne, left, right⟩ := validateBinTopology_ok acc
  have meets : ord.IsChain
      (IntervalChain.Meets Bin.low Bin.high fun v : α => ∃ z : ℤ, v = z) := by
    refine List.IsChain.imp_of_mem_imp (fun prev nxt inPrev inNext adj => ?_) chain
    exact adj.meets (integer prev (perm.subset inPrev)) (integer nxt (perm.subset inNext))
      (hbd prev (perm.subset inPrev)) (hbd nxt (perm.subset inNext))
  intro z
  obtain ⟨first, head⟩ := Option.isSome_iff_exists.mp (List.isSome_head?.mpr ne)
  obtain ⟨hf, mem, contains⟩ := IntervalChain.exists_of_chain meets right ⟨z, rfl⟩
    ⟨first, head, by simp [left first head]⟩
  exact ⟨hf, perm.subset mem, contains⟩
end

end Zeus.Market
