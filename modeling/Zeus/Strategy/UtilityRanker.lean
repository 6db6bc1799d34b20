import Zeus.Decision.PayoffVector

/-! `effective_outcome_pi` and `_delta_u_at_stake`: one outcome distribution, one stake, one loop
over the outcomes. A distribution is a dictionary that reads as zero where it has no entry. -/

namespace Zeus.PayoffVector

open Refusal

section
variable {α : Type} [Field α]

abbrev OutcomePi (α : Type) := List (String × α)

/-- `pi.get(outcome, 0.0)`. -/
def OutcomePi.get (pi : OutcomePi α) (outcome : String) : α := (pi.lookup outcome).getD 0

def OutcomePi.over (outcomes : List String) (mass : String → α) : OutcomePi α :=
  outcomes.map fun outcome => (outcome, mass outcome)

theorem OutcomePi.get_over_append {outcomes : List String} {mass : String → α} {rest : OutcomePi α}
    (out : String) : OutcomePi.get (OutcomePi.over outcomes mass ++ rest) out =
      if out ∈ outcomes then mass out else rest.get out := by
  induction outcomes with
  | nil => rfl
  | cons first outcomes ih =>
    by_cases same : out = first
    · subst same
      simp [OutcomePi.get, OutcomePi.over]
    · have differs : (out == first) = false := beq_false_of_ne same
      simp only [OutcomePi.get, OutcomePi.over] at ih
      simp [OutcomePi.get, OutcomePi.over, List.lookup_cons, differs, same, ih]

theorem OutcomePi.get_over {outcomes : List String} {mass : String → α} {out : String}
    (mem : out ∈ outcomes) : (OutcomePi.over outcomes mass).get out = mass out := by
  have hf := @OutcomePi.get_over_append _ _ outcomes mass [] out
  rwa [List.append_nil, if_pos mem] at hf

variable [LinearOrder α]

/-- `effective_outcome_pi`: a NO candidate is re-anchored to its own lower bound. -/
def effectiveOutcomePi (candidate : NativeSideCandidate α) (matrix : FamilyPayoffMatrix)
    (pi : OutcomePi α) : Except PayoffError (OutcomePi α) := do
  let qLcb ← (candidate.qLcb.filter fun _ => candidate.isTradeable).elim
    (.error .candidateNotTradeable) .ok
  guardBy (require (candidate.binId ∈ matrix.outcomes) .candidateBinNotOutcome)
  if candidate.side = .yes then return .over matrix.outcomes pi.get
  let ownMass : α := 1 - qLcb
  let remaining : α := qLcb
  let others := matrix.outcomes.filter (· ≠ candidate.binId)
  let otherTotal := (others.map pi.get).sum
  if otherTotal ≤ 0 then
    let share := if others ≠ [] then remaining / others.length else 0
    return .over matrix.outcomes fun outcome => if outcome = candidate.binId then ownMass else share
  else
    return .over matrix.outcomes fun outcome =>
      if outcome = candidate.binId then ownMass else remaining * (pi.get outcome / otherTotal)
end

noncomputable section

/-- The loop of `_delta_u_at_stake`: outcomes without mass are skipped, a ruin or a missing baseline
ends it. -/
def deltaULoop (candidate : NativeSideCandidate ℝ) (terms : ℝ × ℝ) (pi : OutcomePi ℝ)
    (exposure : PortfolioExposureVector ℝ) : ℝ → List String → WithBot ℝ
  | total, [] => total
  | total, outcome :: rest =>
    if pi.get outcome ≤ 0 then deltaULoop candidate terms pi exposure total rest
    else
      match exposure.a outcome with
      | .error _ => ⊥
      | .ok wealth =>
        let newWealth := (wealth : ℝ) + if candidateWins candidate outcome then terms.1 else terms.2
        if newWealth ≤ 0 then ⊥
        else
          deltaULoop candidate terms pi exposure
            (total + pi.get outcome * (Real.log newWealth - Real.log (wealth : ℝ))) rest

def deltaUAtStake (candidate : NativeSideCandidate ℝ) (matrix : FamilyPayoffMatrix)
    (pi : OutcomePi ℝ) (exposure : PortfolioExposureVector ℝ) (stakeUsd : ℝ) : WithBot ℝ :=
  match payoffTerms candidate stakeUsd with
  | .error _ => ⊥
  | .ok terms => deltaULoop candidate terms pi exposure 0 matrix.outcomes
end

end Zeus.PayoffVector
