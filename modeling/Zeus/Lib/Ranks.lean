import Mathlib.Tactic

/-! In a sorted list the highest rank of a value is the number of values up to it. So a condition on
a value and a rank that gets easier with the rank can be said without the order of the list. -/

namespace Ranks

variable {α : Type*} [LinearOrder α] {values : List α} {x : α}

/-- The number of values up to `x`. -/
def countUpTo (values : List α) (x : α) : ℕ := values.countP fun value => value ≤ x

theorem countUpTo_perm {other : List α} (same : values.Perm other) (x : α) :
    countUpTo values x = countUpTo other x :=
  same.countP_eq _

section
variable (sorted : values.Pairwise (· ≤ ·))

include sorted

theorem getElem_le_iff {i : ℕ} (hin : i < values.length) :
    values[i] ≤ x ↔ i < countUpTo values x := by
  induction values generalizing i with
  | nil => exact absurd hin (Nat.not_lt_zero i)
  | cons first rest ih =>
    obtain ⟨least, sortedRest⟩ := List.pairwise_cons.mp sorted
    by_cases low : first ≤ x
    · have count : countUpTo (first :: rest) x = countUpTo rest x + 1 := by simp [countUpTo, low]
      cases i with
      | zero => simp [count, low]
      | succ i =>
        rw [List.getElem_cons_succ, ih sortedRest, count]
        omega
    · have none_low : ∀ v ∈ first :: rest, ¬ v ≤ x := by
        intro v mem below
        rcases List.mem_cons.mp mem with rfl | later
        · exact low below
        · exact low ((least v later).trans below)
      have count : countUpTo (first :: rest) x = 0 := by
        simpa [countUpTo, List.countP_eq_zero] using none_low
      simp only [count, Nat.not_lt_zero, iff_false]
      exact none_low _ (List.getElem_mem hin)

theorem lt_countUpTo_getElem {i : ℕ} (hin : i < values.length) : i < countUpTo values values[i] :=
  (getElem_le_iff sorted hin).mp le_rfl

theorem exists_getElem_eq (mem : x ∈ values) :
    ∃ (i : ℕ) (hin : i < values.length), countUpTo values x = i + 1 ∧ values[i] = x := by
  obtain ⟨j, insideJ, rfl⟩ := List.getElem_of_mem mem
  have above := lt_countUpTo_getElem sorted insideJ
  have hle : countUpTo values values[j] ≤ values.length := List.countP_le_length
  refine ⟨countUpTo values values[j] - 1, by omega, by omega, le_antisymm ?_ ?_⟩
  · exact (getElem_le_iff sorted (by omega)).mpr (by omega)
  · exact sorted.rel_get_of_le (by simp; omega)

theorem exists_rank_iff {s : ℕ} (hin : s < values.length) {C : α → ℕ → Prop}
    (easier : ∀ v ∈ values, ∀ r r', 0 < r → r ≤ r' → C v r → C v r') :
    (∃ (r : ℕ) (hle : r < values.length), s ≤ r ∧ C values[r] (r + 1)) ↔
      ∃ v ∈ values, values[s] ≤ v ∧ C v (countUpTo values v) := by
  constructor
  · rintro ⟨r, hle, from_, meets⟩
    have rises : values[s] ≤ values[r] := sorted.rel_get_of_le (by simpa using from_)
    exact ⟨values[r], List.getElem_mem hle, rises,
      easier _ (List.getElem_mem hle) _ _ r.succ_pos (lt_countUpTo_getElem sorted hle) meets⟩
  · rintro ⟨v, mem, from_, meets⟩
    obtain ⟨r, hle, count, rfl⟩ := exists_getElem_eq sorted mem
    have later := (getElem_le_iff sorted hin).mp from_
    exact ⟨r, hle, by omega, count ▸ meets⟩
end

theorem exists_reverse_iff {β : Type*} {items : List β} {n s : ℕ} (size : items.length = n)
    (hin : s < n) {P : β → ℕ → Prop} :
    (∃ j ≤ n - 1 - s, ∃ item, items.reverse[j]? = some item ∧ P item (n - (1 + j) + 1)) ↔
      ∃ r, s ≤ r ∧ ∃ item, items[r]? = some item ∧ P item (r + 1) := by
  subst size
  constructor
  · rintro ⟨j, upTo, item, here, holds⟩
    rw [List.getElem?_reverse (by omega)] at here
    refine ⟨items.length - 1 - j, by omega, item, here, ?_⟩
    rwa [show items.length - 1 - j + 1 = items.length - (1 + j) + 1 by omega]
  · rintro ⟨r, from_, item, here, holds⟩
    have hle : r < items.length := (List.getElem?_eq_some_iff.mp here).1
    refine ⟨items.length - 1 - r, by omega, item, ?_, ?_⟩
    · rw [List.getElem?_reverse (by omega),
        show items.length - 1 - (items.length - 1 - r) = r by omega]
      exact here
    · rwa [show items.length - (1 + (items.length - 1 - r)) + 1 = r + 1 by omega]

end Ranks
