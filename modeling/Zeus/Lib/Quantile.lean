import Mathlib

/-! The quantile of a finite sample by linear interpolation between order statistics. A draw may be
minus infinity, and a quantile that touches one has no finite value. -/

namespace Quantile

section
variable {β : Type*} [LinearOrder β] {xs ys : List β}

theorem orderedInsert_of_sorted {x : β} (sorted : (x :: xs).Pairwise (· ≤ ·)) :
    xs.orderedInsert (· ≤ ·) x = x :: xs := by
  cases xs with
  | nil => rfl
  | cons y rest =>
    exact List.orderedInsert_cons_of_le _ _ (List.rel_of_pairwise_cons sorted List.mem_cons_self)

theorem forall₂_orderedInsert (le : List.Forall₂ (· ≤ ·) xs ys) (sortedXs : xs.Pairwise (· ≤ ·))
    (sortedYs : ys.Pairwise (· ≤ ·)) {a b : β} (ab : a ≤ b) :
    List.Forall₂ (· ≤ ·) (xs.orderedInsert (· ≤ ·) a) (ys.orderedInsert (· ≤ ·) b) := by
  induction le generalizing a b with
  | nil => exact .cons ab .nil
  | @cons x y xs ys xy rest ih =>
    have tails := @ih sortedXs.of_cons sortedYs.of_cons
    -- Where one side inserts and the other moves on, the inserted head is itself an insertion.
    rcases le_or_gt a x with ax | xa <;> rcases le_or_gt b y with bLe | yb
    · rw [List.orderedInsert_cons_of_le _ _ ax, List.orderedInsert_cons_of_le _ _ bLe]
      exact .cons ab (.cons xy rest)
    · rw [List.orderedInsert_cons_of_le _ _ ax, List.orderedInsert_of_not_le _ _ yb.not_ge,
        ← orderedInsert_of_sorted sortedXs]
      exact .cons (ax.trans xy) (tails (xy.trans yb.le))
    · rw [List.orderedInsert_of_not_le _ _ xa.not_ge, List.orderedInsert_cons_of_le _ _ bLe,
        ← orderedInsert_of_sorted sortedYs]
      exact .cons (xa.le.trans ab) (tails (ab.trans bLe))
    · rw [List.orderedInsert_of_not_le _ _ xa.not_ge, List.orderedInsert_of_not_le _ _ yb.not_ge]
      exact .cons xy (tails ab)

theorem forall₂_insertionSort (le : List.Forall₂ (· ≤ ·) xs ys) :
    List.Forall₂ (· ≤ ·) (xs.insertionSort (· ≤ ·)) (ys.insertionSort (· ≤ ·)) := by
  induction le with
  | nil => exact .nil
  | cons head rest ih =>
    exact forall₂_orderedInsert ih (List.pairwise_insertionSort _ _)
      (List.pairwise_insertionSort _ _) head

theorem getD_le_getD (le : List.Forall₂ (· ≤ ·) xs ys) (i : ℕ) (default : β) :
    xs.getD i default ≤ ys.getD i default := by
  induction le generalizing i with
  | nil => exact le_rfl
  | cons head rest ih =>
    cases i with
    | zero => exact head
    | succ i => exact ih i
end

section
variable {α : Type*} [Field α]

/-- The point at `share` of the way from `lower` to `upper`. -/
def interpolate (share : α) (lower upper : WithBot α) : WithBot α :=
  WithBot.map₂ (fun low high => low + (high - low) * share) lower upper

def scale (factor : α) : WithBot α → WithBot α := WithBot.map (factor * ·)

theorem interpolate_scale (factor share : α) (low high : WithBot α) :
    interpolate share (scale factor low) (scale factor high) =
      scale factor (interpolate share low high) := by
  cases low with
  | bot => rfl
  | coe a =>
    cases high with
    | bot => rfl
    | coe b =>
      apply congrArg WithBot.some
      ring

variable [LinearOrder α] [IsStrictOrderedRing α]

theorem interpolate_mono {share : α} (nn : 0 ≤ share) (le_one : share ≤ 1)
    {low high low' high' : WithBot α} (lows : low ≤ low') (highs : high ≤ high') :
    interpolate share low high ≤ interpolate share low' high' := by
  cases low with
  | bot => exact bot_le
  | coe a =>
    cases high with
    | bot => exact bot_le
    | coe b =>
      obtain ⟨a', rfl, aLe⟩ := WithBot.coe_le_iff.mp lows
      obtain ⟨b', rfl, bLe⟩ := WithBot.coe_le_iff.mp highs
      have lowers := mul_le_mul_of_nonneg_right aLe (sub_nonneg.mpr le_one)
      have uppers := mul_le_mul_of_nonneg_right bLe nn
      exact WithBot.coe_le_coe.mpr (by linarith)

theorem scale_le_scale {factor : α} (pos : 0 < factor) {x y : WithBot α} :
    scale factor x ≤ scale factor y ↔ x ≤ y := by
  have rising : StrictMono (factor * · : α → α) := fun _ _ less => mul_lt_mul_of_pos_left less pos
  exact rising.withBot_map.le_iff_le

theorem scale_pos {factor : α} (pos : 0 < factor) {x : WithBot α} (gain : 0 < x) :
    0 < scale factor x := by
  cases x with
  | bot => exact absurd gain not_lt_bot
  | coe v => exact WithBot.coe_lt_coe.mpr (mul_pos pos (WithBot.coe_lt_coe.mp gain))
end

variable {α : Type*} [Field α] [LinearOrder α] [FloorRing α]

/-- Where the quantile stands among `n` order statistics, counted from zero. -/
def position (n : ℕ) (level : α) : α := level * ((n - 1 : ℕ) : α)

def quantile (values : List (WithBot α)) (level : α) : WithBot α :=
  let sorted := values.insertionSort (· ≤ ·)
  let below := ⌊position values.length level⌋.toNat
  interpolate (position values.length level - below) (sorted.getD below ⊥)
    (sorted.getD (min (below + 1) (values.length - 1)) ⊥)

example : quantile [((3 : ℚ) : WithBot ℚ), 1, 2] (3 / 4) = ((5 / 2 : ℚ) : WithBot ℚ) := by
  decide +kernel

example : quantile [((3 : ℚ) : WithBot ℚ), ⊥, 2] (1 / 4) = ⊥ := by decide +kernel

variable [IsStrictOrderedRing α] {level : α} {values others : List (WithBot α)}

theorem share_mem (nn : 0 ≤ level) (n : ℕ) :
    0 ≤ position n level - ⌊position n level⌋.toNat ∧
    position n level - ⌊position n level⌋.toNat ≤ 1 := by
  have start : 0 ≤ position n level := mul_nonneg nn (Nat.cast_nonneg _)
  have whole : ((⌊position n level⌋.toNat : ℕ) : α) = (⌊position n level⌋ : α) := by
    exact_mod_cast Int.toNat_of_nonneg (Int.floor_nonneg.mpr start)
  rw [whole]
  exact ⟨Int.fract_nonneg _, (Int.fract_lt_one _).le⟩

theorem quantile_singleton (value : WithBot α) (level : α) : quantile [value] level = value := by
  have start : position 1 level = 0 := by simp [position]
  cases value with
  | bot => simp [quantile, start, interpolate]
  | coe x => simp [quantile, start, interpolate]

omit [IsStrictOrderedRing α] in
theorem quantile_of_forall_bot (none_finite : ∀ v ∈ values, v = ⊥) : quantile values level = ⊥ := by
  have lowest (i : ℕ) : (values.insertionSort (· ≤ ·)).getD i ⊥ = ⊥ := by
    rcases lt_or_ge i (values.insertionSort (· ≤ ·)).length with hin | outside
    · rw [List.getD_eq_getElem _ _ hin]
      exact none_finite _ ((List.mem_insertionSort _).mp (List.getElem_mem hin))
    · exact List.getD_eq_default _ _ outside
  unfold quantile
  dsimp only
  rw [lowest]
  rfl

theorem quantile_mono (nn : 0 ≤ level) (le : List.Forall₂ (· ≤ ·) values others) :
    quantile values level ≤ quantile others level := by
  have sorted := forall₂_insertionSort le
  obtain ⟨lowest, highest⟩ := share_mem nn others.length
  unfold quantile
  rw [le.length_eq]
  exact interpolate_mono lowest highest (getD_le_getD sorted _ ⊥) (getD_le_getD sorted _ ⊥)

theorem quantile_scale {factor : α} (pos : 0 < factor) :
    quantile (values.map (scale factor)) level = scale factor (quantile values level) := by
  have sorts : (values.map (scale factor)).insertionSort (· ≤ ·) =
      (values.insertionSort (· ≤ ·)).map (scale factor) := by
    symm
    apply List.map_insertionSort
    intro x _ y _
    exact (scale_le_scale pos).symm
  have ents : ∀ i, ((values.insertionSort (· ≤ ·)).map (scale factor)).getD i ⊥ =
      scale factor ((values.insertionSort (· ≤ ·)).getD i ⊥) := by
    intro i
    exact List.getD_map _ ⊥ (scale factor)
  simp only [quantile, sorts, List.length_map, ents, interpolate_scale]

theorem quantile_pos_of_scale_le {factor : α} (nn : 0 ≤ level) (pos : 0 < factor)
    (le : List.Forall₂ (fun x y => scale factor x ≤ y) values others)
    (gain : 0 < quantile values level) : 0 < quantile others level := by
  have dominated : List.Forall₂ (· ≤ ·) (values.map (scale factor)) others :=
    List.forall₂_map_left_iff.mpr le
  calc 0 < scale factor (quantile values level) := scale_pos pos gain
    _ = quantile (values.map (scale factor)) level := (quantile_scale pos).symm
    _ ≤ quantile others level := quantile_mono nn dominated

end Quantile
