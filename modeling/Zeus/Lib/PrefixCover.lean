import Mathlib.Tactic

/-! Pieces of given lengths lie end to end from zero. A prefix of length `S` covers the early ones
whole, at most one in part, and none after that. -/

namespace PrefixCover

variable {α : Type*} [AddCommGroup α] [LinearOrder α] [IsOrderedAddMonoid α]

/-- Length of the part of the piece from `start` to `start + length` that lies before `S`. -/
def overlap (S start length : α) : α := max 0 (min S (start + length) - start)

def overlaps (S : α) : α → List α → List α
  | _, [] => []
  | start, length :: rest => overlap S start length :: overlaps S (start + length) rest

theorem overlap_eq_min (S start : α) {length : α} (nn : 0 ≤ length) :
    overlap S start length = min (max 0 (S - start)) length := by
  have shifted : min S (start + length) - start = min (S - start) length := by
    rw [min_sub_sub_right S (start + length) start |>.symm, add_sub_cancel_left]
  rw [overlap, shifted, max_min_distrib_left, max_eq_right nn]

theorem remaining_sub_overlap (S start : α) {len : α} (nn : 0 ≤ len) :
    max 0 (S - start) - overlap S start len = max 0 (S - (start + len)) := by
  rw [overlap_eq_min S start nn, ← sub_sub]
  rcases le_total (max 0 (S - start)) len with short | long
  · have hle : S - start - len ≤ 0 := sub_nonpos.mpr ((le_max_right _ _).trans short)
    rw [min_eq_left short, sub_self, max_eq_left hle]
  · rw [min_eq_right long]
    rcases le_total 0 (S - start) with ahead | past
    · rw [max_eq_right ahead] at long ⊢
      rw [max_eq_right (sub_nonneg.mpr long)]
    · rw [max_eq_left past] at long ⊢
      have empty : len = 0 := le_antisymm long nn
      simp [empty, past]

end PrefixCover
