import Mathlib.Tactic

/-! A validator answers with the first check that failed, or with nothing. `guardBy` turns the
answer into a computation that stops there. -/

namespace Refusal

variable {ε : Type*}

/-- Refuse with `error` unless the condition holds. -/
def require (holds : Prop) [Decidable holds] (error : ε) : Option ε :=
  if holds then none else some error

@[simp] theorem require_eq_none {holds : Prop} [Decidable holds] {error : ε} :
    require holds error = none ↔ holds := by
  unfold require
  split <;> simp [*]

def first (checks : List (Option ε)) : Option ε := checks.findSome? id

@[simp] theorem first_cons {check : Option ε} {checks : List (Option ε)} :
    first (check :: checks) = none ↔ check = none ∧ first checks = none := by
  cases check <;> simp [first]

def guardBy (refusal : Option ε) : Except ε Unit :=
  match refusal with
  | none => .ok ()
  | some error => .error error

@[simp] theorem guardBy_eq_ok {refusal : Option ε} {u : Unit} :
    guardBy refusal = .ok u ↔ refusal = none := by
  cases refusal <;> simp [guardBy]

theorem elim_eq_ok {α : Type*} {hf : Option α} {error : ε} {a : α} :
    hf.elim (.error error) Except.ok = .ok a ↔ hf = some a := by
  cases hf <;> simp

theorem mapError_eq_ok {δ α : Type*} {ans : Except ε α} {f : ε → δ} {a : α} :
    ans.mapError f = .ok a ↔ ans = .ok a := by
  cases ans <;> simp [Except.mapError]

end Refusal
