import Mathlib

/-! Embedding of the weighted mean of the worst `alpha` fraction of a sample. An empty sample has
the score minus infinity. A rising affine map of the draws is an affine map of their tail mean. -/

namespace Zeus.LowerCvar

section
variable {α : Type*} [Field α] [LinearOrder α] [FloorRing α]

/-- The last draw that counts among `n`, in part if the target is not whole. -/
def boundaryIndex (n : ℕ) (target : α) : ℕ := min (max (⌈target⌉ - 1) 0).toNat (n - 1)

/-- The branch of unit weights: the `alpha * n` worst draws. -/
def uniformTail (du : List α) (alpha : α) : α :=
  let sorted := du.insertionSort (· ≤ ·)
  let target := alpha * du.length
  if target ≤ 0 then sorted.headD 0
  else
    let idx := boundaryIndex du.length target
    let fullSum := (sorted.take idx).sum
    let frac := target - idx
    let boundary := if 0 < frac then frac * sorted.getD idx 0 else 0
    (fullSum + boundary) / target

/-- The branch of general weights, over pairs of a draw and its positive weight. -/
def weightedTail (draws : List (α × α)) (alpha : α) : α :=
  let ordered := draws.insertionSort fun left right => left.1 ≤ right.1
  let target := alpha * (ordered.map Prod.snd).sum
  if target ≤ 0 then (ordered.map Prod.fst).headD 0
  else
    -- `searchsorted` from the left on the cumulative weights
    let cumulative :=
      (List.range ordered.length).map fun i => ((ordered.take (i + 1)).map Prod.snd).sum
    let idx := min (cumulative.findIdx fun weight => target ≤ weight) (ordered.length - 1)
    let fullSum := ((ordered.take idx).map fun draw => draw.2 * draw.1).sum
    let frac := target - ((ordered.take idx).map Prod.snd).sum
    let boundary := if 0 < frac then frac * (ordered.map Prod.fst).getD idx 0 else 0
    (fullSum + boundary) / target

/-- `_lower_cvar`: draws without positive weight are dropped first. -/
def lowerCvar (draws : List (α × α)) (alpha : α) : WithBot α :=
  let kept := draws.filter fun draw => 0 < draw.2
  if kept = [] then ⊥
  else if ∀ draw ∈ kept, draw.2 = 1 then (uniformTail (kept.map Prod.fst) alpha : α)
  else (weightedTail kept alpha : α)

def unitWeights (du : List α) : List (α × α) := du.map fun value => (value, 1)

example :
    lowerCvar (unitWeights [(1 : ℚ) / 2, 1 / 5, 9 / 10, 2 / 5]) (3 / 8) =
      ((4 / 15 : ℚ) : WithBot ℚ) := by
  decide +kernel
end

variable {α : Type*} [Field α] [LinearOrder α] [IsStrictOrderedRing α] [FloorRing α] {du : List α}
  {alpha shift slope : α}

omit [IsStrictOrderedRing α] in
theorem lowerCvar_unitWeights (nonempty : du ≠ []) :
    lowerCvar (unitWeights du) alpha = (uniformTail du alpha : α) := by
  have kept : (unitWeights du).filter (fun draw => 0 < draw.2) = unitWeights du := by
    simp [List.filter_eq_self, unitWeights]
  have unit : ∀ draw ∈ unitWeights du, draw.2 = 1 := by
    simp [unitWeights]
  have vs : (unitWeights du).map Prod.fst = du := by
    simp [unitWeights, Function.comp_def]
  have hp : unitWeights du ≠ [] := by
    simpa [unitWeights] using nonempty
  simp only [lowerCvar, kept, if_neg hp, if_pos unit, vs]

section
variable (nonempty : du ≠ []) (positive : 0 < alpha)

include nonempty positive

theorem target_pos : 0 < alpha * du.length := by
  have hpos : (0 : α) < du.length := by exact_mod_cast List.length_pos_iff.mpr nonempty
  exact mul_pos positive hpos

theorem boundaryIndex_lt : boundaryIndex du.length (alpha * du.length) < du.length ∧
      (boundaryIndex du.length (alpha * du.length) : α) < alpha * du.length := by
  have hpos := List.length_pos_iff.mpr nonempty
  have tgt := target_pos nonempty positive
  have ceil : (1 : ℤ) ≤ ⌈alpha * du.length⌉ := Int.one_le_ceil_iff.mpr tgt
  unfold boundaryIndex
  refine ⟨by omega, ?_⟩
  have below : (min (max (⌈alpha * du.length⌉ - 1) 0).toNat (du.length - 1) : ℕ) ≤
      ⌈alpha * du.length⌉ - 1 := by
    omega
  have hr : (⌈alpha * du.length⌉ : α) < alpha * du.length + 1 := Int.ceil_lt_add_one _
  have cast : ((min (max (⌈alpha * du.length⌉ - 1) 0).toNat (du.length - 1) : ℕ) : α) ≤
      (⌈alpha * du.length⌉ - 1 : ℤ) := by exact_mod_cast below
  push_cast at cast ⊢
  linarith

theorem uniformTail_eq :
    uniformTail du alpha = (((du.insertionSort (· ≤ ·)).take
                (boundaryIndex du.length (alpha * du.length))).sum +
            (alpha * du.length - boundaryIndex du.length (alpha * du.length)) *
              (du.insertionSort (· ≤ ·)).getD (boundaryIndex du.length (alpha * du.length)) 0) /
        (alpha * du.length) := by
  have tgt := target_pos nonempty positive
  have partly := sub_pos.mpr (boundaryIndex_lt nonempty positive).2
  simp only [uniformTail, if_neg tgt.not_ge, if_pos partly]

theorem uniformTail_affine (rising : 0 < slope) :
    uniformTail (du.map fun value => shift + slope * value) alpha =
      shift + slope * uniformTail du alpha := by
  have tgt := target_pos nonempty positive
  obtain ⟨hin, -⟩ := boundaryIndex_lt nonempty positive
  have mapped : du.map (fun value => shift + slope * value) ≠ [] := by simpa using nonempty
  have sorts : (du.map fun value => shift + slope * value).insertionSort (· ≤ ·) =
      (du.insertionSort (· ≤ ·)).map fun value => shift + slope * value := by
    symm
    apply List.map_insertionSort
    intro left _ right _
    simp [rising]
  rw [uniformTail_eq mapped positive, uniformTail_eq nonempty positive, sorts, List.length_map]
  generalize isIdx : boundaryIndex du.length (alpha * du.length) = idx at hin
  have sum : (((du.insertionSort (· ≤ ·)).map fun value => shift + slope * value).take idx).sum =
      idx * shift + slope * ((du.insertionSort (· ≤ ·)).take idx).sum := by
    rw [← List.map_take, List.sum_map_add, List.sum_map_mul_left]
    simp [hin.le]
  have bnd : ((du.insertionSort (· ≤ ·)).map fun value => shift + slope * value).getD idx 0 =
      shift + slope * (du.insertionSort (· ≤ ·)).getD idx 0 := by
    simp [List.getD_eq_getElem?_getD, hin]
  rw [sum, bnd, div_eq_iff tgt.ne', add_mul, mul_assoc slope, div_mul_cancel₀ _ tgt.ne']
  ring
end

theorem lowerCvar_affine (positive : 0 < alpha) (rising : 0 < slope) :
    lowerCvar (unitWeights (du.map fun v => shift + slope * v)) alpha =
      (lowerCvar (unitWeights du) alpha).map fun tail => shift + slope * tail := by
  rcases eq_or_ne du [] with rfl | nonempty
  · rfl
  · have mapped : du.map (fun v => shift + slope * v) ≠ [] := by simpa using nonempty
    rw [lowerCvar_unitWeights mapped, lowerCvar_unitWeights nonempty,
      uniformTail_affine nonempty positive rising]
    rfl

end Zeus.LowerCvar
