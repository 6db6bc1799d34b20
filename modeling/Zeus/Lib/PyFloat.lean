import Mathlib.Tactic

/-! A finite double is its exact value; the infinities and not-a-number are as in IEEE arithmetic. A
comparison with not-a-number is false, so only the other values are ordered. -/

inductive PyFloat where
  | finite (value : ℚ)
  | infinite (negative : Bool)
  | nan
  deriving DecidableEq

namespace PyFloat

def zero : PyFloat := .finite 0

def lt : PyFloat → PyFloat → Bool
  | .finite x, .finite y => decide (x < y)
  | .infinite negative, .finite _ => negative
  | .finite _, .infinite negative => !negative
  | .infinite left, .infinite right => left && !right
  | .nan, _ | _, .nan => false

def same (x y : PyFloat) : Bool := decide (x ≠ .nan ∧ x = y)

def le (x y : PyFloat) : Bool := x.lt y || x.same y

def mul : PyFloat → PyFloat → PyFloat
  | .finite x, .finite y => .finite (x * y)
  | .nan, _ | _, .nan => .nan
  | .infinite left, .infinite right => .infinite (left != right)
  | .infinite negative, .finite x | .finite x, .infinite negative =>
    if x = 0 then .nan else .infinite (negative != decide (x < 0))

def div : PyFloat → PyFloat → PyFloat
  | .finite x, .finite y => .finite (x / y)
  | .nan, _ | _, .nan => .nan
  | .infinite _, .infinite _ => .nan
  | .finite _, .infinite _ => .finite 0
  | .infinite negative, .finite y => .infinite (negative != decide (y < 0))

def place : PyFloat → WithBot (WithTop ℚ)
  | .finite x => ((x : WithTop ℚ) : WithBot (WithTop ℚ))
  | .infinite false => ((⊤ : WithTop ℚ) : WithBot (WithTop ℚ))
  | .infinite true | .nan => ⊥

variable {x y : PyFloat}

theorem lt_iff_place (isX : x ≠ .nan) (isY : y ≠ .nan) : x.lt y = true ↔ x.place < y.place := by
  cases x with
  | nan => exact absurd rfl isX
  | finite a =>
    cases y with
    | nan => exact absurd rfl isY
    | finite b => simp [lt, place]
    | infinite negative =>
      cases negative with
      | false => exact ⟨fun _ => WithBot.coe_lt_coe.mpr (WithTop.coe_lt_top a), fun _ => rfl⟩
      | true => simp [lt, place]
  | infinite left =>
    cases y with
    | nan => exact absurd rfl isY
    | finite b => cases left <;> simp [lt, place]
    | infinite right => cases left <;> cases right <;> simp [lt, place]

theorem same_iff_place (isX : x ≠ .nan) (isY : y ≠ .nan) : x.same y = true ↔ x.place = y.place := by
  cases x with
  | nan => exact absurd rfl isX
  | finite a =>
    cases y with
    | nan => exact absurd rfl isY
    | finite b => simp [same, place]
    | infinite negative => cases negative <;> simp [same, place]
  | infinite left =>
    cases y with
    | nan => exact absurd rfl isY
    | finite b => cases left <;> simp [same, place]
    | infinite right => cases left <;> cases right <;> simp [same, place]

end PyFloat
