import Mathlib.Tactic

/-! A finite relation leaves some element without a successor exactly when some element reaches no
cycle. -/

namespace Sink

open Relation

variable {α : Type*} {R : α → α → Prop}

/-- No element that `x` can reach lies on a cycle. -/
def AcyclicFrom (R : α → α → Prop) (x : α) : Prop :=
  ∀ y, ReflTransGen R x y → ¬ TransGen R y y

theorem exists_of_acyclicFrom {S : Set α} (finite : S.Finite) (hcl : ∀ x y, R x y → y ∈ S)
    {x : α} (mem : x ∈ S) (acyclic : AcyclicFrom R x) : ∃ y ∈ S, ∀ z, ¬ R y z := by
  let reached := {y : α // y ∈ S ∧ ReflTransGen R x y}
  have : Finite reached := Set.Finite.subset finite (fun y hy => hy.1)
  let later : reached → reached → Prop := fun a b => TransGen R b.1 a.1
  have : IsTrans reached later := ⟨fun a b c hab hbc => hbc.trans hab⟩
  have : Std.Irrefl later := ⟨fun a cycle => acyclic a.1 a.2.2 cycle⟩
  have founded : WellFounded later := Finite.wellFounded_of_trans_of_irrefl later
  obtain ⟨last, -, minimal⟩ := founded.has_min Set.univ ⟨⟨x, mem, .refl⟩, trivial⟩
  refine ⟨last.1, last.2.1, fun z edge => ?_⟩
  exact minimal ⟨z, hcl _ _ edge, last.2.2.tail edge⟩ trivial (.single edge)

theorem acyclicFrom_of_sink {x : α} (sink : ∀ z, ¬ R x z) : AcyclicFrom R x := by
  intro y path cycle
  have same : x = y := by
    cases path using ReflTransGen.head_induction_on with
    | refl => rfl
    | head edge _ => exact absurd edge (sink _)
  subst same
  obtain ⟨z, edge, -⟩ := TransGen.head'_iff.mp cycle
  exact sink z edge

theorem exists_iff {S : Set α} (finite : S.Finite) (hcl : ∀ x y, R x y → y ∈ S) :
    (∃ x ∈ S, ∀ y, ¬ R x y) ↔ ∃ x ∈ S, AcyclicFrom R x := by
  constructor
  · rintro ⟨x, mem, sink⟩
    exact ⟨x, mem, acyclicFrom_of_sink sink⟩
  · rintro ⟨x, mem, acyclic⟩
    exact exists_of_acyclicFrom finite hcl mem acyclic

end Sink
