import Zeus.Execution.OrderTruthReducer

/-! The reducer is monotone in its facts except where one slot overrides a conclusion reached
elsewhere. -/
namespace Zeus.OrderTruth

/-- Terminal classes in order of strength; every other class is below them. -/
def OrderProofClass.rank : OrderProofClass → ℕ
  | .terminalFilled => 3
  | .terminalPartial => 2
  | .terminalNoFill => 1
  | .partialWithRemainder | .liveResting | .unknownSideEffect | .reviewRequired => 0

theorem concludeOpen_proofClass (q : Query) (slots : Slots) :
    (concludeOpen q slots).proofClass =
      if slots.latestReview.isSome ∨ q.commandState = some .reviewRequired then .reviewRequired
      else if slots.latestUnknown.isSome ∨
          q.commandState = some .unknown ∨
          q.commandState = some .submitUnknownSideEffect then .unknownSideEffect
      else if slots.latestOpen.isSome ∨ q.openOrderPresent = some true then .liveResting
      else .unknownSideEffect := by
  unfold concludeOpen
  cases slots.latestOpen with
  | some fact => split_ifs <;> simp_all
  | none => split_ifs <;> simp_all

theorem concludeOpen_rank (q : Query) (slots : Slots) :
    (concludeOpen q slots).proofClass.rank = 0 := by
  rw [concludeOpen_proofClass]
  split_ifs <;> rfl

theorem concludeMatched_proofClass (q : Query) (matched : ℚ) :
    (concludeMatched q matched).proofClass =
      if coversCommand matched q.commandSize false then .terminalFilled
      else .partialWithRemainder := by
  cases size : q.commandSize with
  | none => simp [concludeMatched, size, coversCommand]
  | some c =>
    simp only [concludeMatched, size]
    split_ifs <;> rfl

theorem conclude_proofClass (q : Query) (slots : Slots) :
    (conclude q slots).proofClass =
      if slots.terminalFill.isSome then .terminalFilled
      else if slots.terminalPartial.isSome then .terminalPartial
      else if 0 < overallMatched q slots then
        if coversCommand (overallMatched q slots) q.commandSize false then .terminalFilled
        else if slots.terminalZeroNoFill.isSome then .terminalPartial else .partialWithRemainder
      else if slots.terminalZeroNoFill.isSome then .terminalNoFill
      else (concludeOpen q slots).proofClass := by
  unfold conclude
  cases fill : slots.terminalFill with
  | some f => rfl
  | none =>
    cases part : slots.terminalPartial with
    | some p => rfl
    | none =>
      cases none_ : slots.terminalZeroNoFill with
      | some z =>
        simp only [concludeZeroNoFill, Option.isSome_none, Option.isSome_some, if_true,
          Bool.false_eq_true, if_false]
        split_ifs <;> rfl
      | none =>
        simp only [Option.isSome_none, Bool.false_eq_true, if_false]
        split_ifs <;> simp_all [concludeMatched_proofClass]

theorem conclude_rank (q : Query) (slots : Slots) :
    (conclude q slots).proofClass.rank =
      if slots.terminalFill.isSome then 3
      else if slots.terminalPartial.isSome then 2
      else if 0 < overallMatched q slots then
        if coversCommand (overallMatched q slots) q.commandSize false then 3
        else if slots.terminalZeroNoFill.isSome then 2 else 0
      else if slots.terminalZeroNoFill.isSome then 1 else 0 := by
  rw [conclude_proofClass]
  split_ifs <;> first | rfl | exact concludeOpen_rank q slots

theorem overallMatched_absorb_le (q : Query) (slots : Slots) (x : OrderFact) :
    overallMatched q slots ≤ overallMatched q (absorb q.commandSize slots x) := by
  simp only [overallMatched, absorb_matched]
  exact max_le_max le_rfl (le_max_left _ _)

/-- No terminal fact was scanned, and the matched size alone covers the command. -/
def FilledBySizeOnly (q : Query) (facts : List OrderFact) : Prop :=
  (∀ f ∈ facts, role q.commandSize f ≠ .terminalFill ∧ role q.commandSize f ≠ .terminalPartial) ∧
    0 < overallMatched q (scan q.commandSize facts) ∧
    coversCommand (overallMatched q (scan q.commandSize facts)) q.commandSize false = true

theorem filledBySizeOnly_iff (q : Query) (facts : List OrderFact) :
    FilledBySizeOnly q facts ↔
      (scan q.commandSize facts).terminalFill = none ∧
      (scan q.commandSize facts).terminalPartial = none ∧
      0 < overallMatched q (scan q.commandSize facts) ∧
      coversCommand (overallMatched q (scan q.commandSize facts)) q.commandSize false = true := by
  rw [scan_terminalFill_none_iff, scan_terminalPartial_none_iff, FilledBySizeOnly]
  constructor
  · rintro ⟨roles, rest⟩
    exact ⟨fun f hf => (roles f hf).1, fun f hf => (roles f hf).2, rest⟩
  · rintro ⟨fills, partials, rest⟩
    exact ⟨fun f hf => ⟨fills f hf, partials f hf⟩, rest⟩

theorem absorb_rank_iff (q : Query) (slots : Slots) (x : OrderFact)
    (nn : 0 ≤ overallMatched q slots) :
    (conclude q slots).proofClass.rank ≤
        (conclude q (absorb q.commandSize slots x)).proofClass.rank ↔
      ¬ ((slots.terminalFill = none ∧
            slots.terminalPartial = none ∧
            0 < overallMatched q slots ∧
            coversCommand (overallMatched q slots) q.commandSize false = true) ∧
          role q.commandSize x = .terminalPartial) := by
  have grows := overallMatched_absorb_le q slots x
  have keeps := coversCommand_mono q.commandSize nn grows
  rw [conclude_rank, conclude_rank, absorb_terminalFill, absorb_terminalPartial,
    absorb_terminalZeroNoFill]
  have pos : 0 < overallMatched q slots →
      0 < overallMatched q (absorb q.commandSize slots x) := fun h => lt_of_lt_of_le h grows
  cases fill : slots.terminalFill with
  | some f => by_cases here : role q.commandSize x = .terminalFill <;> simp [here]
  | none =>
    cases part : slots.terminalPartial with
    | some p =>
      by_cases here : role q.commandSize x = .terminalFill
      · simp [here]
      · by_cases there : role q.commandSize x = .terminalPartial <;> simp [here, there]
    | none =>
      cases kind : role q.commandSize x with
      | terminalFill => simp; split_ifs <;> omega
      | terminalPartial => simp; split_ifs <;> simp_all
      | terminalZeroNoFill | latestOpen | latestUnknown | latestReview | ignored =>
        simp
        split_ifs <;> simp_all

/-- Rank is monotone under appending, except for the one override. -/
theorem reduce_rank_append_iff (q : Query) (facts : List OrderFact) (x : OrderFact) :
    (reduce q facts).proofClass.rank ≤ (reduce q (facts ++ [x])).proofClass.rank ↔
      ¬ (FilledBySizeOnly q facts ∧ role q.commandSize x = .terminalPartial) := by
  rw [reduce, reduce, scan_append, filledBySizeOnly_iff]
  apply absorb_rank_iff
  exact le_max_of_le_right (scan_matched_nonneg q.commandSize facts)

/-- A confirmed cancel reports five matched out of ten after the trade facts proved ten: the reduced
class falls from filled to partial. -/
theorem reduce_rank_regresses :
    (reduce { tradeFilledSize := some 10, commandSize := some 10 } []).proofClass =
      .terminalFilled ∧
    (reduce { tradeFilledSize := some 10, commandSize := some 10 }
        ([] ++ [⟨.cancelConfirmed, some 0, some 5⟩])).proofClass = .terminalPartial ∧
    ¬ ((reduce { tradeFilledSize := some 10, commandSize := some 10 } []).proofClass.rank ≤
          (reduce { tradeFilledSize := some 10, commandSize := some 10 }
              ([] ++ [⟨.cancelConfirmed, some 0, some 5⟩])).proofClass.rank) := by
  decide +kernel

theorem concludeOpen_matched (q : Query) (slots : Slots) :
    (concludeOpen q slots).matchedSize = 0 := by
  unfold concludeOpen
  cases slots.latestOpen with
  | some fact => split_ifs <;> rfl
  | none => split_ifs <;> rfl

theorem concludeMatched_matched (q : Query) (matched : ℚ) :
    (concludeMatched q matched).matchedSize = matched := by
  unfold concludeMatched
  cases q.commandSize with
  | some size =>
    dsimp only
    split_ifs <;> rfl
  | none => rfl

theorem reduce_matched (q : Query) (facts : List OrderFact) : (reduce q facts).matchedSize =
      match (scan q.commandSize facts).terminalFill with
      | some fact => fact.matched
      | none => overallMatched q (scan q.commandSize facts) := by
  have nn : 0 ≤ overallMatched q (scan q.commandSize facts) :=
    le_max_of_le_right (scan_matched_nonneg q.commandSize facts)
  unfold reduce conclude
  cases fill : (scan q.commandSize facts).terminalFill with
  | some fact =>
    have pos := role_terminalFill_matched (scan_terminalFill_mem q.commandSize fill).2
    simp only [pos.ne', if_false]
  | none =>
    cases part : (scan q.commandSize facts).terminalPartial with
    | some fact =>
      have bound := (scan_matched_le_iff q.commandSize facts _).mp le_rfl
      exact max_eq_left (le_max_of_le_right
        (bound.2 fact (scan_slot_mem q.commandSize .terminalPartial (by decide) part).1))
    | none =>
      cases (scan q.commandSize facts).terminalZeroNoFill with
      | some fact =>
        simp only [concludeZeroNoFill]
        split_ifs with pos
        · rfl
        · rfl
        · exact le_antisymm nn (not_lt.mp pos)
      | none =>
        dsimp only
        split_ifs with pos
        · exact concludeMatched_matched q _
        · rw [concludeOpen_matched]
          exact le_antisymm nn (not_lt.mp pos)

/-- The reduced size is at least the trade total and every fact's own size. -/
def KeepsMatched (q : Query) (facts : List OrderFact) : Prop :=
  q.filledFromTrade ≤ (reduce q facts).matchedSize ∧
  ∀ f ∈ facts, f.matched ≤ (reduce q facts).matchedSize

/-- If the facts contain terminal fills, the one scanned last is the largest
report of all, trades included. -/
def LastFillIsLargest (q : Query) (facts : List OrderFact) : Prop :=
  ∀ fill, (scan q.commandSize facts).terminalFill = some fill →
    q.filledFromTrade ≤ fill.matched ∧ ∀ f ∈ facts, f.matched ≤ fill.matched

theorem overallMatched_le_iff (q : Query) (facts : List OrderFact) (bound : ℚ) :
    overallMatched q (scan q.commandSize facts) ≤ bound ↔
      q.filledFromTrade ≤ bound ∧ 0 ≤ bound ∧ ∀ f ∈ facts, f.matched ≤ bound := by
  rw [overallMatched, max_le_iff, scan_matched_le_iff]

theorem reduce_matched_le_overall (q : Query) (facts : List OrderFact) :
    (reduce q facts).matchedSize ≤ overallMatched q (scan q.commandSize facts) := by
  rw [reduce_matched]
  cases fill : (scan q.commandSize facts).terminalFill with
  | none => exact le_rfl
  | some fact =>
    have bound := (overallMatched_le_iff q facts _).mp le_rfl
    exact bound.2.2 fact (scan_terminalFill_mem q.commandSize fill).1

theorem keepsMatched_iff_overall (q : Query) (facts : List OrderFact) : KeepsMatched q facts ↔
      (reduce q facts).matchedSize = overallMatched q (scan q.commandSize facts) := by
  have upper := reduce_matched_le_overall q facts
  constructor
  · rintro ⟨trade, all⟩
    refine le_antisymm upper ((overallMatched_le_iff q facts _).mpr ⟨trade, ?_, all⟩)
    rw [reduce_matched]
    cases fill : (scan q.commandSize facts).terminalFill with
    | none => exact le_max_of_le_right (scan_matched_nonneg q.commandSize facts)
    | some fact =>
      exact (role_terminalFill_matched (scan_terminalFill_mem q.commandSize fill).2).le
  · intro exact_
    have bound := (overallMatched_le_iff q facts _).mp exact_.ge
    exact ⟨bound.1, bound.2.2⟩

theorem keepsMatched_iff_lastFill (q : Query) (facts : List OrderFact) :
    KeepsMatched q facts ↔ LastFillIsLargest q facts := by
  unfold KeepsMatched LastFillIsLargest
  rw [reduce_matched]
  cases fill : (scan q.commandSize facts).terminalFill with
  | none =>
    have bound := (overallMatched_le_iff q facts _).mp le_rfl
    simpa using ⟨bound.1, bound.2.2⟩
  | some fact => simp

theorem overallMatched_subset (q : Query) {facts more : List OrderFact} (h : facts ⊆ more) :
    overallMatched q (scan q.commandSize facts) ≤ overallMatched q (scan q.commandSize more) := by
  have bound := (overallMatched_le_iff q more _).mp le_rfl
  exact (overallMatched_le_iff q facts _).mpr ⟨bound.1, bound.2.1, fun f hf => bound.2.2 f (h hf)⟩

theorem overallMatched_eq (q : Query) {facts other : List OrderFact}
    (same : ∀ f, f ∈ facts ↔ f ∈ other) :
    overallMatched q (scan q.commandSize facts) = overallMatched q (scan q.commandSize other) := by
  apply le_antisymm
  · exact overallMatched_subset q fun f => (same f).mp
  · exact overallMatched_subset q fun f => (same f).mpr

theorem scan_slot_isSome_eq (csize : Option ℚ) {facts other : List OrderFact}
    (same : ∀ f, f ∈ facts ↔ f ∈ other) (hw : Role) :
    ((scan csize facts).slot hw).isSome = ((scan csize other).slot hw).isSome := by
  by_cases ignored : hw = .ignored
  · rw [ignored]
    rfl
  · rw [Bool.eq_iff_iff, scan_slot_isSome_iff _ _ ignored, scan_slot_isSome_iff _ _ ignored]
    simp only [same]

/-- Facts in another order, or repeated, are the same set and reduce to the same class. -/
theorem proof_class_of_same_facts (q : Query) {facts other : List OrderFact}
    (same : ∀ f, f ∈ facts ↔ f ∈ other) :
    (reduce q facts).proofClass = (reduce q other).proofClass := by
  have filled := scan_slot_isSome_eq q.commandSize same
  have fill := filled .terminalFill
  have part := filled .terminalPartial
  have zeroFill := filled .terminalZeroNoFill
  have opened := filled .latestOpen
  have unsure := filled .latestUnknown
  have review := filled .latestReview
  simp only [Slots.slot] at fill part zeroFill opened unsure review
  rw [reduce, reduce, conclude_proofClass, conclude_proofClass, concludeOpen_proofClass,
    concludeOpen_proofClass, overallMatched_eq q same, fill, part, zeroFill, opened, unsure, review]

theorem proof_class_of_same_facts_sample :
    (reduce { commandSize := some 10 }
        [⟨.live, some 10, none⟩, ⟨.cancelConfirmed, none, some 4⟩]).proofClass =
      (reduce { commandSize := some 10 } [⟨.cancelConfirmed, none, some 4⟩, ⟨.live, some 10, none⟩,
          ⟨.cancelConfirmed, none, some 4⟩]).proofClass :=
  proof_class_of_same_facts _ (by simp)

/-- Matched quantity is never forgotten exactly when the last terminal fill is
the largest report; then it grows with the facts, and neither their order nor
their repetition matters. -/
theorem matched_size_kept_iff (q : Query) (facts : List OrderFact) :
    (KeepsMatched q facts ↔ LastFillIsLargest q facts) ∧
    (∀ more, facts ⊆ more → LastFillIsLargest q more →
        (reduce q facts).matchedSize ≤ (reduce q more).matchedSize) ∧
    (∀ other, facts ⊆ other → other ⊆ facts → LastFillIsLargest q facts →
        LastFillIsLargest q other →
        (reduce q facts).matchedSize = (reduce q other).matchedSize) := by
  refine ⟨keepsMatched_iff_lastFill q facts, ?_, ?_⟩
  · intro more sub largest
    have full :=
      (keepsMatched_iff_overall q more).mp ((keepsMatched_iff_lastFill q more).mpr largest)
    calc (reduce q facts).matchedSize ≤ overallMatched q (scan q.commandSize facts) :=
          reduce_matched_le_overall q facts
      _ ≤ overallMatched q (scan q.commandSize more) := overallMatched_subset q sub
      _ = (reduce q more).matchedSize := full.symm
  · intro other sub sup largest largest'
    have here := (keepsMatched_iff_overall q facts).mp
      ((keepsMatched_iff_lastFill q facts).mpr largest)
    have there := (keepsMatched_iff_overall q other).mp
      ((keepsMatched_iff_lastFill q other).mpr largest')
    rw [here, there]
    exact le_antisymm (overallMatched_subset q sub) (overallMatched_subset q sup)

/-- Two terminal fill reports for a ten share order: the reduced size is that of
whichever was scanned last, so twelve matched shares are forgotten. -/
theorem matched_size_forgotten : (reduce { tradeFilledSize := some 12, commandSize := some 10 }
      [⟨.matched, some 0, some 12⟩, ⟨.matched, some 0, some 10⟩]).matchedSize = 10 ∧
    ¬ KeepsMatched { tradeFilledSize := some 12, commandSize := some 10 }
      [⟨.matched, some 0, some 12⟩, ⟨.matched, some 0, some 10⟩] := by
  have v : (reduce { tradeFilledSize := some 12, commandSize := some 10 }
      [⟨.matched, some 0, some 12⟩, ⟨.matched, some 0, some 10⟩]).matchedSize = 10 := by
    decide +kernel
  refine ⟨v, ?_⟩
  rintro ⟨trade, _⟩
  rw [v] at trade
  norm_num [Query.filledFromTrade] at trade

end Zeus.OrderTruth
