import Mathlib

/-! For a law `μ` on the reals, the mass that `max o X` or `min o X` puts on a half-open interval
with possibly infinite ends, in terms of the mass below each end. -/

namespace ClampedLaw

open MeasureTheory ProbabilityTheory Set

abbrev Extended (α : Type*) := WithBot (WithTop α)

def finite {α : Type*} (x : α) : Extended α := ((x : WithTop α) : WithBot (WithTop α))

section
variable {α : Type*} [LinearOrder α] {x y : α}

@[simp] theorem finite_le_finite : finite x ≤ finite y ↔ x ≤ y := by simp [finite]

@[simp] theorem finite_lt_finite : finite x < finite y ↔ x < y := by simp [finite]

@[simp] theorem bot_lt_finite : (⊥ : Extended α) < finite x := by simp [finite]

@[simp] theorem finite_lt_top : finite x < (⊤ : Extended α) := by
  rw [finite, ← WithBot.coe_top]
  exact WithBot.coe_lt_coe.mpr (WithTop.coe_lt_top x)

theorem finite_max : finite (max x y) = max (finite x) (finite y) :=
  Monotone.map_max fun _ _ h => finite_le_finite.mpr h

theorem finite_min : finite (min x y) = min (finite x) (finite y) :=
  Monotone.map_min fun _ _ h => finite_le_finite.mpr h
end

theorem extended_cases {α : Type*} (e : Extended α) : e = ⊥ ∨ (∃ x, e = finite x) ∨ e = ⊤ := by
  induction e using WithBot.recBotCoe with
  | bot => exact .inl rfl
  | coe e =>
    induction e using WithTop.recTopCoe with
    | top => exact .inr (.inr rfl)
    | coe x => exact .inr (.inl ⟨x, rfl⟩)

/-- A distribution function continued by 0 and 1 at the infinities. -/
def continued {α β : Type*} [Zero β] [One β] (F : α → β) : Extended α → β
  | none => 0
  | some none => 1
  | some (some x) => F x

section
variable (μ : Measure ℝ) [IsProbabilityMeasure μ]

theorem real_Iio_of_continuous (cont : Continuous (cdf μ)) (x : ℝ) : μ.real (Iio x) = cdf μ x := by
  have noAtom : μ {x} = 0 := by
    have limit : Function.leftLim (cdf μ) x = cdf μ x :=
      cont.continuousAt.continuousWithinAt.leftLim_eq
    rw [← measure_cdf μ, StieltjesFunction.measure_singleton, limit, sub_self, ENNReal.ofReal_zero]
  rw [cdf_eq_real]
  exact measureReal_congr (Iio_ae_eq_Iic' noAtom)

theorem continuous_cdf_of_nullSingletons [NullSingletonClass μ] : Continuous (cdf μ) := by
  rw [continuous_iff_continuousAt]
  intro x
  rw [(monotone_cdf μ).continuousAt_iff_leftLim_eq_rightLim, StieltjesFunction.rightLim_eq]
  have noAtom : ENNReal.ofReal (cdf μ x - Function.leftLim (cdf μ) x) = 0 := by
    rw [← StieltjesFunction.measure_singleton, measure_cdf, measure_singleton]
  exact le_antisymm ((monotone_cdf μ).leftLim_le le_rfl) (by simpa using noAtom)

def below (e : Extended ℝ) : Set ℝ := {x | finite x < e}

theorem measurableSet_below (e : Extended ℝ) : MeasurableSet (below e) := by
  rcases extended_cases e with rfl | ⟨x, rfl⟩ | rfl
  · simp [below]
  · simp only [below, finite_lt_finite]
    exact measurableSet_Iio
  · simp [below]

theorem below_mono {d e : Extended ℝ} (h : d ≤ e) : below d ⊆ below e := fun _ mem => mem.trans_le h

theorem real_below (cont : Continuous (cdf μ)) (e : Extended ℝ) :
    μ.real (below e) = continued (cdf μ) e := by
  rcases extended_cases e with rfl | ⟨x, rfl⟩ | rfl
  · simp only [below, not_lt_bot, ofPred_false, measureReal_empty]
    rfl
  · simp only [below, finite_lt_finite]
    exact real_Iio_of_continuous μ cont x
  · simp only [below, finite_lt_top, ofPred_true, probReal_univ]
    rfl

variable {lo hi : Extended ℝ}

theorem real_between (ord : lo ≤ hi) :
    μ.real {x | lo ≤ finite x ∧ finite x < hi} = μ.real (below hi) - μ.real (below lo) := by
  rw [← measureReal_sdiff (below_mono ord) (measurableSet_below lo)]
  congr 1
  ext x
  simp [below, and_comm]

theorem real_max (o : ℝ) (ord : lo ≤ hi) :
    μ.real {x | lo ≤ finite (max o x) ∧ finite (max o x) < hi} =
      if hi ≤ finite o then 0
      else if lo ≤ finite o then μ.real (below hi) else μ.real (below hi) - μ.real (below lo) := by
  simp only [finite_max, le_max_iff, max_lt_iff]
  split_ifs with above hin
  · simp [not_lt.mpr above]
  · simp [hin, not_le.mp above, below]
  · rw [← real_between μ ord]
    simp [hin, not_le.mp above]

theorem real_min (o : ℝ) (ord : lo ≤ hi) :
    μ.real {x | lo ≤ finite (min o x) ∧ finite (min o x) < hi} =
      if finite o < lo then 0
      else if finite o < hi then 1 - μ.real (below lo)
      else μ.real (below hi) - μ.real (below lo) := by
  simp only [finite_min, le_min_iff, min_lt_iff]
  split_ifs with under hin
  · simp [not_le.mpr under]
  · rw [← probReal_compl_eq_one_sub (measurableSet_below lo)]
    congr 1
    ext x
    simp [hin, not_lt.mp under, below]
  · rw [← real_between μ ord]
    simp [hin, not_lt.mp under]

theorem sum_real_eq {ι : Type*} (evs : ι → Set ℝ) (l : List ι)
    (meas : ∀ i ∈ l, MeasurableSet (evs i))
    (disjoint : l.Pairwise fun i j => Disjoint (evs i) (evs j)) :
    (l.map fun i => μ.real (evs i)).sum = μ.real {x | ∃ i ∈ l, x ∈ evs i} := by
  induction l with
  | nil => simp
  | cons i rest ih =>
    obtain ⟨hne, tail⟩ := List.pairwise_cons.mp disjoint
    have restMeasurable : MeasurableSet {x | ∃ j ∈ rest, x ∈ evs j} := by
      have union : {x | ∃ j ∈ rest, x ∈ evs j} = ⋃ j ∈ rest, evs j := by
        ext x
        simp
      rw [union]
      exact MeasurableSet.biUnion rest.finite_toSet.countable fun j mem =>
        meas j (List.mem_cons_of_mem i mem)
    have apartRest : Disjoint (evs i) {x | ∃ j ∈ rest, x ∈ evs j} := by
      rw [Set.disjoint_left]
      rintro x here ⟨j, mem, there⟩
      exact Set.disjoint_left.mp (hne j mem) here there
    rw [List.map_cons, List.sum_cons, ih (fun j mem => meas j (List.mem_cons_of_mem i mem)) tail,
      ← measureReal_union apartRest restMeasurable]
    congr 1
    ext x
    simp
end

end ClampedLaw
