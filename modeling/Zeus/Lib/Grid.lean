import Mathlib.Tactic

namespace Grid

def floorTo (quantum x : ℚ) : ℚ := ⌊x / quantum⌋ * quantum

def ceilTo (quantum x : ℚ) : ℚ := ⌈x / quantum⌉ * quantum

def On (quantum x : ℚ) : Prop := ∃ units : ℤ, x = units * quantum

variable {quantum x y : ℚ}

theorem le_floorTo_iff (pos : 0 < quantum) (grid : On quantum x) :
    x ≤ floorTo quantum y ↔ x ≤ y := by
  obtain ⟨units, rfl⟩ := grid
  rw [floorTo, mul_le_mul_iff_left₀ pos, Int.cast_le, Int.le_floor, le_div_iff₀ pos]

theorem ceilTo_le_iff (pos : 0 < quantum) (grid : On quantum x) : ceilTo quantum y ≤ x ↔ y ≤ x := by
  obtain ⟨units, rfl⟩ := grid
  rw [ceilTo, mul_le_mul_iff_left₀ pos, Int.cast_le, Int.ceil_le, div_le_iff₀ pos]

theorem on_floorTo (quantum y : ℚ) : On quantum (floorTo quantum y) := ⟨_, rfl⟩

theorem on_ceilTo (quantum y : ℚ) : On quantum (ceilTo quantum y) := ⟨_, rfl⟩

theorem le_ceilTo (pos : 0 < quantum) (y : ℚ) : y ≤ ceilTo quantum y :=
  (ceilTo_le_iff pos (on_ceilTo quantum y)).mp le_rfl

theorem floorTo_le (pos : 0 < quantum) (y : ℚ) : floorTo quantum y ≤ y :=
  (le_floorTo_iff pos (on_floorTo quantum y)).mp le_rfl

theorem On.add_le_iff (pos : 0 < quantum) (grid : On quantum x) (grid' : On quantum y) :
    x + quantum ≤ y ↔ x < y := by
  obtain ⟨units, rfl⟩ := grid
  obtain ⟨units', rfl⟩ := grid'
  rw [← add_one_mul, mul_le_mul_iff_left₀ pos, mul_lt_mul_iff_left₀ pos]
  exact_mod_cast Int.add_one_le_iff

theorem On.quantum_le (pos : 0 < quantum) (grid : On quantum x) (hpos : 0 < x) : quantum ≤ x := by
  have zero : On quantum 0 := ⟨0, by simp⟩
  simpa using (zero.add_le_iff pos grid).mpr hpos

end Grid
