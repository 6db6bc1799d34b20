import Mathlib.Tactic

/-! The rounding rules of the settlement contract and the offsets that expand an integer label to
the half-open interval of values which round to it. -/

namespace Zeus.Settlement

inductive RoundingRule where
  | wmoHalfUp | floor | ceil | oracleTruncate
  deriving DecidableEq

variable {α : Type*} [Field α] [LinearOrder α] [FloorRing α]

def roundValuesOnAxis (value precision : α) (rule : RoundingRule) : α :=
  let inv := if 0 < precision then 1 / precision else 1
  let scaled := value * inv
  let rounded : ℤ :=
    match rule with
    | .wmoHalfUp => ⌊scaled + 1 / 2⌋
    | .floor | .oracleTruncate => ⌊scaled⌋
    | .ceil => ⌈scaled⌉
  rounded / inv

/-- The default `half_step`, on the one-degree grid. -/
def defaultHalfStep : α := 1 / 2

def settlementPreimageOffsets (rule : RoundingRule) (halfStep : α) : α × α :=
  match rule with
  | .wmoHalfUp => (-halfStep, halfStep)
  | .floor | .oracleTruncate => (0, 2 * halfStep)
  | .ceil => (-(2 * halfStep), 0)

variable [IsStrictOrderedRing α]

theorem round_iff {rule : RoundingRule} (hopen : rule ≠ .ceil) (v : α) (z : ℤ) :
    ((z : α) ≤ roundValuesOnAxis v 1 rule ↔ z + (settlementPreimageOffsets rule (1 / 2)).1 ≤ v) ∧
      (roundValuesOnAxis v 1 rule ≤ z ↔ v < z + (settlementPreimageOffsets rule (1 / 2)).2) := by
  cases rule with
  | ceil => exact absurd rfl hopen
  | wmoHalfUp =>
    simp only [roundValuesOnAxis, settlementPreimageOffsets, zero_lt_one, if_true, div_one, mul_one,
      Int.cast_le, Int.le_floor, Int.floor_le_iff]
    constructor <;> constructor <;> intro h <;> linarith
  | floor => simp [roundValuesOnAxis, settlementPreimageOffsets, Int.le_floor, Int.floor_le_iff]
  | oracleTruncate =>
    simp [roundValuesOnAxis, settlementPreimageOffsets, Int.le_floor, Int.floor_le_iff]

end Zeus.Settlement
