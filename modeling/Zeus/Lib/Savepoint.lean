import Mathlib.Tactic

/-! A statement over a store either answers or raises, and what it wrote before it raised is in the
store it leaves. `savepoint` takes those writes back. -/

namespace Savepoint

universe u

variable {ε σ α β : Type u} {s t : σ} {a : α} {b : β} {e : ε}

def select (read : σ → Except ε α) : EStateM ε σ α := fun s => match read s with
  | .ok a => .ok a s
  | .error e => .error e s

def write (update : σ → Except ε σ) : EStateM ε σ PUnit := fun s => match update s with
  | .ok t => .ok ⟨⟩ t
  | .error e => .error e s

/-- `SAVEPOINT`, then `RELEASE` on an answer and `ROLLBACK TO` on a raise. -/
def savepoint (body : EStateM ε σ α) : EStateM ε σ α := fun s => match body s with
  | .ok a t => .ok a t
  | .error e _ => .error e s

def stateAfter (body : EStateM ε σ α) (s : σ) : σ :=
  match body s with
  | .ok _ t => t
  | .error _ t => t

theorem bind_eq_ok {x : EStateM ε σ α} {f : α → EStateM ε σ β} :
    (x >>= f) s = .ok b t ↔ ∃ a u, x s = .ok a u ∧ f a u = .ok b t := by
  change EStateM.bind x f s = _ ↔ _
  unfold EStateM.bind
  cases x s <;> simp

@[simp] theorem pure_eq_ok {a' : α} : (pure a : EStateM ε σ α) s = .ok a' t ↔ a = a' ∧ s = t := by
  change EStateM.Result.ok a s = _ ↔ _
  simp

theorem select_bind_eq_ok {read : σ → Except ε α} {f : α → EStateM ε σ β} :
    (select read >>= f) s = .ok b t ↔ ∃ a, read s = .ok a ∧ f a s = .ok b t := by
  rw [bind_eq_ok]
  unfold select
  cases read s <;> simp

@[simp] theorem write_eq_ok {update : σ → Except ε σ} {u : PUnit} :
    write update s = .ok u t ↔ update s = .ok t := by
  unfold write
  cases update s <;> simp

@[simp] theorem savepoint_eq_ok {body : EStateM ε σ α} :
    savepoint body s = .ok a t ↔ body s = .ok a t := by
  unfold savepoint
  cases body s <;> simp

theorem savepoint_raised {body : EStateM ε σ α} (raised : savepoint body s = .error e t) :
    t = s := by
  unfold savepoint at raised
  cases result : body s <;> rw [result] at raised <;> cases raised
  rfl

theorem stateAfter_savepoint_cases (body : EStateM ε σ α) (s : σ) :
    stateAfter (savepoint body) s = s ∨
    ∃ a, savepoint body s = .ok a (stateAfter (savepoint body) s) := by
  unfold stateAfter
  cases result : savepoint body s with
  | ok a t => exact .inr ⟨a, rfl⟩
  | error e t => exact .inl (savepoint_raised result)

end Savepoint
