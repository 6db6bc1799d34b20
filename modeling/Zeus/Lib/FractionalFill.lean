import Mathlib.Tactic

/-! A budget is spread over items of limited capacity. Filling the cheapest items first and one last
item in part costs least, by the dual bound at the cost of that last item. -/

namespace FractionalFill

variable {ι α : Type*} [Fintype ι] [Field α] [LinearOrder α] [IsStrictOrderedRing α]

structure Allocation (capacity : ι → α) (budget : α) (amount : ι → α) : Prop where
  nonneg : ∀ i, 0 ≤ amount i
  le_capacity : ∀ i, amount i ≤ capacity i
  total : ∑ i, amount i = budget

def costs (capacity : ι → α) (budget : α) (cost : ι → α) : Set α :=
  {total | ∃ amount, Allocation capacity budget amount ∧ ∑ i, amount i * cost i = total}

variable {capacity amount cost cost' : ι → α} {budget : α}

theorem Allocation.dual_le (alloc : Allocation capacity budget amount) (t : α) :
    t * budget - ∑ i, capacity i * max (t - cost i) 0 ≤ ∑ i, amount i * cost i := by
  rw [← alloc.total, Finset.mul_sum, ← Finset.sum_sub_distrib]
  refine Finset.sum_le_sum fun i _ => ?_
  have shortfall : amount i * (t - cost i) ≤ capacity i * max (t - cost i) 0 :=
    calc amount i * (t - cost i) ≤ amount i * max (t - cost i) 0 :=
          mul_le_mul_of_nonneg_left (le_max_left _ _) (alloc.nonneg i)
      _ ≤ capacity i * max (t - cost i) 0 :=
          mul_le_mul_of_nonneg_right (alloc.le_capacity i) (le_max_right _ _)
  linarith

variable {front : Finset ι} {last : ι}

structure Cheapest (capacity cost : ι → α) (front : Finset ι) (last : ι) : Prop where
  inside : ∀ i ∈ front, cost i ≤ cost last
  outside : ∀ i, i ∉ front → capacity i = 0 ∨ cost last ≤ cost i

/-- A fill of the cheapest items meets the dual bound at the cost of the last one. -/
theorem Cheapest.dual_eq (chp : Cheapest capacity cost front last) :
    ∑ i ∈ front, capacity i * cost i + (budget - ∑ i ∈ front, capacity i) * cost last =
      cost last * budget - ∑ i, capacity i * max (cost last - cost i) 0 := by
  have outside : ∑ i, capacity i * max (cost last - cost i) 0 =
      ∑ i ∈ front, capacity i * max (cost last - cost i) 0 := by
    refine (Finset.sum_subset front.subset_univ fun i _ hab => ?_).symm
    rcases chp.outside i hab with none | dear
    · rw [none, zero_mul]
    · rw [max_eq_right (sub_nonpos.mpr dear), mul_zero]
  have hin : ∑ i ∈ front, capacity i * max (cost last - cost i) 0 =
      (∑ i ∈ front, capacity i) * cost last - ∑ i ∈ front, capacity i * cost i := by
    rw [Finset.sum_mul, ← Finset.sum_sub_distrib]
    refine Finset.sum_congr rfl fun i full => ?_
    rw [max_eq_left (sub_nonneg.mpr (chp.inside i full)), mul_sub]
  rw [outside, hin]
  ring

section
variable [DecidableEq ι] (capacity) (budget)

/-- The items of `front` in full and the rest of the budget from `last`. -/
def fill (front : Finset ι) (last : ι) (i : ι) : α :=
  if i ∈ front then capacity i else if i = last then budget - ∑ j ∈ front, capacity j else 0

variable {capacity budget}

omit [LinearOrder α] [IsStrictOrderedRing α] in
theorem sum_fill_mul (hne : last ∉ front) (v : ι → α) :
    ∑ i, fill capacity budget front last i * v i =
      ∑ i ∈ front, capacity i * v i + (budget - ∑ i ∈ front, capacity i) * v last := by
  have split (i : ι) : fill capacity budget front last i * v i =
      (if i ∈ front then capacity i * v i else 0) +
        if i = last then (budget - ∑ j ∈ front, capacity j) * v last else 0 := by
    unfold fill
    by_cases full : i ∈ front
    · have other : i ≠ last := fun same => hne (same ▸ full)
      simp [full, other]
    · by_cases same : i = last
      · simp [same, hne]
      · simp [full, same]
  simp [split, Finset.sum_add_distrib, Finset.sum_ite_mem]

omit [LinearOrder α] [IsStrictOrderedRing α] in
theorem sum_fill (hne : last ∉ front) : ∑ i, fill capacity budget front last i = budget := by
  simpa using sum_fill_mul hne fun _ => (1 : α)

theorem fill_allocation (apart : last ∉ front) (nonneg : ∀ i, 0 ≤ capacity i)
    (below : ∑ i ∈ front, capacity i ≤ budget)
      (reached : budget ≤ ∑ i ∈ front, capacity i + capacity last) :
    Allocation capacity budget (fill capacity budget front last) where
  nonneg i := by
    unfold fill
    split_ifs
    · exact nonneg i
    · exact sub_nonneg.mpr below
    · exact le_rfl
  le_capacity i := by
    unfold fill
    split_ifs with full same
    · exact le_rfl
    · rw [same]
      linarith
    · exact nonneg i
  total := sum_fill apart

theorem Cheapest.isLeast (chp : Cheapest capacity cost front last) (hne : last ∉ front)
    (nn : ∀ i, 0 ≤ capacity i) (below : ∑ i ∈ front, capacity i ≤ budget)
    (hr : budget ≤ ∑ i ∈ front, capacity i + capacity last) :
    IsLeast (costs capacity budget cost) (∑ i, fill capacity budget front last i * cost i) := by
  refine ⟨⟨_, fill_allocation hne nn below hr, rfl⟩, ?_⟩
  rintro _ ⟨amount, alloc, rfl⟩
  rw [sum_fill_mul hne, chp.dual_eq]
  exact alloc.dual_le _
end

theorem least_mono {least least' : α} (isLeast : IsLeast (costs capacity budget cost) least)
    (isLeast' : IsLeast (costs capacity budget cost') least') (rises : cost ≤ cost') :
    least ≤ least' := by
  obtain ⟨amount, alloc, rfl⟩ := isLeast'.1
  refine (isLeast.2 ⟨amount, alloc, rfl⟩).trans (Finset.sum_le_sum fun i _ => ?_)
  exact mul_le_mul_of_nonneg_left (rises i) (alloc.nonneg i)

theorem concaveOn_least {least : (ι → α) → α}
    (isLeast : ∀ cost, IsLeast (costs capacity budget cost) (least cost)) :
    ConcaveOn α Set.univ least := by
  refine ⟨convex_univ, fun cost _ cost' _ a b nn nonneg' _ => ?_⟩
  obtain ⟨amount, alloc, is⟩ := (isLeast (a • cost + b • cost')).1
  have first := (isLeast cost).2 ⟨amount, alloc, rfl⟩
  have snd := (isLeast cost').2 ⟨amount, alloc, rfl⟩
  calc a • least cost + b • least cost'
      ≤ a * ∑ i, amount i * cost i + b * ∑ i, amount i * cost' i :=
        add_le_add (mul_le_mul_of_nonneg_left first nn) (mul_le_mul_of_nonneg_left snd nonneg')
    _ = ∑ i, amount i * (a • cost + b • cost') i := by
        rw [Finset.mul_sum, Finset.mul_sum, ← Finset.sum_add_distrib]
        refine Finset.sum_congr rfl fun i _ => ?_
        simp only [Pi.add_apply, Pi.smul_apply, smul_eq_mul]
        ring
    _ = least (a • cost + b • cost') := is

end FractionalFill
