import Zeus.Execution.OrderTruthMonotone
import Zeus.State.PositionLots
import Zeus.State.VenueCommands

/-! `append_order_fact` does not store an open fact after a terminal one, unless it raises the
matched size or proves a terminal partial. Whether the payload and the command's own tables prove a
terminal partial is part of the call. -/

namespace Zeus.OrderFacts

open OrderTruth VenueCommands Refusal

deriving instance DecidableEq for OrderFactRow

inductive OrderFactError where
  | helper (error : Lots.LotError)
  | stateInvalid (state : VenueState)
  | rejectRequiresTerminalZeroFill | positiveFactBlocksNoFill
  deriving DecidableEq

def orderFactStates : List VenueState :=
  [.live, .resting, .matched, .partiallyMatched, .other "CANCEL_REQUESTED", .cancelConfirmed,
    .other "CANCEL_UNKNOWN", .other "CANCEL_FAILED", .expired, .venueWiped]

structure OrderFactCall extends OrderFact where
  (venueOrderId commandId : String)
  source : FactSource
  observedAt : String
  localSequence : Option ℤ := none
  rejectZeroFillOverPositiveFact : Bool := false
  /-- The part of `_terminal_partial_correction_proven` that reads the payload and other tables. -/
  payloadProvesPartial : Bool := false

def ofOrder (rows : List OrderFactRow) (venueOrderId commandId : String) : List OrderFactRow :=
  rows.filter fun row => row.venueOrderId == venueOrderId && row.commandId == commandId

/-- `_prior_terminal_no_resting_order_fact`. -/
def priorTerminal (rows : List OrderFactRow) (venueOrderId commandId : String) :
    Option OrderFactRow :=
  let latest := firstBy
    (fun row other => decide (other.localSequence < row.localSequence) ||
      (row.localSequence == other.localSequence && decide (other.factId < row.factId)))
    ((ofOrder rows venueOrderId commandId).filter fun row => terminalStates.contains row.state)
  latest.filter fun row => !(row.state == .matched && !zero row.remainingSize)

/-- `_order_fact_raises_matched`. -/
def raisesMatched (rows : List OrderFactRow) (venueOrderId commandId : String)
    (matchedSize : Option ℚ) : Bool :=
  matchedSize.any fun incoming => decide (0 < incoming) &&
      (ofOrder rows venueOrderId commandId).all fun row =>
        row.matchedSize.all fun value => decide (value < incoming)

/-- `_terminal_partial_correction_proven`. -/
def OrderFactCall.partialCorrectionProven (call : OrderFactCall) : Bool :=
  call.state == .partiallyMatched && zero call.remainingSize &&
    (call.matchedSize.any fun size => decide (0 < size)) && call.payloadProvesPartial

def terminalClasses : List OrderProofClass := [.terminalFilled, .terminalNoFill, .terminalPartial]

/-- The stored fact that stands for an incoming open fact, if it is not to be stored. -/
def suppressedBy (rows : List OrderFactRow) (venueOrderId commandId : String)
    (call : OrderFactCall) : Option OrderFactRow :=
  if call.state ∈ terminalStates then none
  else
    (priorTerminal rows venueOrderId commandId).filter fun prior =>
      !call.partialCorrectionProven &&
        !raisesMatched rows venueOrderId commandId call.matchedSize &&
        terminalClasses.contains (reduce
          { tradeFilledSize := some 0, openOrderPresent := some (openStates.contains call.state) }
          [call.toOrderFact, prior.toOrderFact]).proofClass

def nextFactId (rows : List OrderFactRow) : ℤ := (rows.map OrderFactRow.factId).max?.getD 0 + 1

/-- `append_order_fact`: the id it returns and the table it leaves. -/
def appendOrderFact (rows : List OrderFactRow) (call : OrderFactCall) :
    Except OrderFactError (ℤ × List OrderFactRow) := do
  let venueOrderId ← (Lots.requireNonempty "venue_order_id" call.venueOrderId).mapError .helper
  let commandId ← (Lots.requireNonempty "command_id" call.commandId).mapError .helper
  guardBy (require (call.state ∈ orderFactStates) (.stateInvalid call.state))
  let observedAt ← (Lots.requireNonempty "observed_at" call.observedAt).mapError .helper
  guardBy (require (call.rejectZeroFillOverPositiveFact = true →
      call.state ∈ terminalStates ∧ call.matched = 0)
    .rejectRequiresTerminalZeroFill)
  match suppressedBy rows venueOrderId commandId call with
  | some prior => return (prior.factId, rows)
  | none =>
    let taken :=
      (rows.filter fun row => row.venueOrderId == venueOrderId).map OrderFactRow.localSequence
    let sequence ← (Lots.coerceLocalSequence taken call.localSequence).mapError .helper
    -- The insert and this check are one statement of the source.
    guardBy (require (call.rejectZeroFillOverPositiveFact = true →
      ∀ row ∈ ofOrder rows venueOrderId commandId, ¬ 0 < row.matched) .positiveFactBlocksNoFill)
    let stored : OrderFactRow := {
      call.toOrderFact with
      commandId, venueOrderId, observedAt, factId := nextFactId rows, source := call.source
      localSequence := sequence }
    return (nextFactId rows, rows ++ [stored])

def appendOrderFacts (calls : List OrderFactCall) : List OrderFactRow :=
  calls.foldl (fun rows call => ((appendOrderFact rows call).toOption.map Prod.snd).getD rows) []

section
variable {rows : List OrderFactRow} {call : OrderFactCall} {prior : OrderFactRow}
  {venueOrderId commandId : String}

theorem suppressedBy_of_unchanged {factId : ℤ}
    (unch : appendOrderFact rows call = .ok (factId, rows)) :
    ∃ prior,
      suppressedBy rows (Collateral.strip call.venueOrderId) (Collateral.strip call.commandId)
        call = some prior := by
  simp only [appendOrderFact, Lots.requireNonempty, CheckedFold.bind_eq_ok, mapError_eq_ok,
    guardBy_eq_ok, require_eq_none] at unch
  obtain ⟨orderId, isOrder, commandId, icmd, -, -, observedAt, -, -, -, out⟩ := unch
  split_ifs at isOrder icmd
  cases isOrder
  cases icmd
  split at out
  · next prior hf => exact ⟨prior, hf⟩
  · simp only [CheckedFold.bind_eq_ok] at out
    obtain ⟨seq, -, -, -, hs⟩ := out
    have longer := congrArg (fun ans : Except OrderFactError (ℤ × List OrderFactRow) =>
      ans.toOption.map fun kept => kept.2.length) hs
    simp [pure, Except.pure, Except.toOption] at longer

theorem suppressedBy_spec (supp : suppressedBy rows venueOrderId commandId call = some prior) :
    call.state ∉ terminalStates ∧
    prior ∈ ofOrder rows venueOrderId commandId ∧
    raisesMatched rows venueOrderId commandId call.matchedSize = false := by
  unfold suppressedBy at supp
  split_ifs at supp with hterm
  obtain ⟨hf, kept⟩ := Option.filter_eq_some_iff.mp supp
  obtain ⟨lat, -⟩ := Option.filter_eq_some_iff.mp hf
  have hs := List.mem_of_mem_filter (firstBy_mem lat)
  simp only [Bool.and_eq_true, Bool.not_eq_true'] at kept
  exact ⟨hterm, hs, kept.1.2⟩

theorem matched_le_scan (csize : Option ℚ)
    (repeats : raisesMatched rows venueOrderId commandId call.matchedSize = false) :
    call.matched ≤ (scan csize
          ((ofOrder rows venueOrderId commandId).map (·.toOrderFact))).matchedFromOrders := by
  obtain ⟨nn, bound⟩ := (scan_matched_le_iff csize _ _).mp
    (le_refl (scan csize
          ((ofOrder rows venueOrderId commandId).map (·.toOrderFact))).matchedFromOrders)
  unfold OrderFact.matched
  cases size : call.matchedSize with
  | none => exact nn
  | some incoming =>
    rw [Option.getD_some]
    by_cases pos : 0 < incoming
    · obtain ⟨row, hs, larger⟩ : ∃ row ∈ ofOrder rows venueOrderId commandId,
            incoming ≤ row.matched := by
        by_contra none_larger
        push Not at none_larger
        have raises : raisesMatched rows venueOrderId commandId call.matchedSize = true := by
          simp only [raisesMatched, size, Option.any_some, Bool.and_eq_true, decide_eq_true_eq,
            List.all_eq_true]
          refine ⟨pos, ?_⟩
          intro row hs
          have less := none_larger row hs
          unfold OrderFact.matched at less
          cases held : row.matchedSize with
          | none => rfl
          | some v => simpa [held] using less
        rw [repeats] at raises
        cases raises
      exact larger.trans (bound _ (List.mem_map_of_mem hs))
    · exact (not_lt.mp pos).trans nn
end

/-- An open fact that says nothing of a matched order is left on the book. -/
def ClosesRemainder (fact : OrderFact) : Prop :=
  fact.state ∈ openStates ∧ fact.remainingSize = some 0 ∧ 0 < fact.matched

/-- Some fact is terminal by itself, or the sizes cover the command. -/
def Closed (q : Query) (facts : List OrderFact) : Prop :=
  (∃ fact ∈ facts,
      role q.commandSize fact ∈ [Role.terminalFill, .terminalPartial, .terminalZeroNoFill]) ∨
    coversCommand (overallMatched q (scan q.commandSize facts)) q.commandSize false = true

theorem role_of_open {csize : Option ℚ} {fact : OrderFact} (notTerm : fact.state ∉ terminalStates) :
    role csize fact ≠ .terminalFill ∧
    role csize fact ≠ .terminalZeroNoFill ∧
    (role csize fact = .terminalPartial ↔ ClosesRemainder fact) := by
  have notMatched : fact.state ≠ .matched := by
    intro same
    exact notTerm (by rw [same]; decide)
  unfold role ClosesRemainder zero
  rw [if_neg (fun fill => notMatched fill.1), if_neg notTerm]
  split_ifs <;> simp_all

theorem closed_iff (q : Query) (facts : List OrderFact) :
    Closed q facts ↔
      (scan q.commandSize facts).terminalFill.isSome ∨
      (scan q.commandSize facts).terminalPartial.isSome ∨
      (scan q.commandSize facts).terminalZeroNoFill.isSome ∨
      coversCommand (overallMatched q (scan q.commandSize facts)) q.commandSize false = true := by
  have fill := scan_slot_isSome_iff q.commandSize .terminalFill (by decide) facts
  have part := scan_slot_isSome_iff q.commandSize .terminalPartial (by decide) facts
  have empty := scan_slot_isSome_iff q.commandSize .terminalZeroNoFill (by decide) facts
  simp only [Slots.slot] at fill part empty
  rw [fill, part, empty, Closed]
  simp only [List.mem_cons, List.not_mem_nil, or_false, and_or_left, exists_or, or_assoc]

/-- An open fact that does not raise the matched size leaves the size as it was; it raises the
class exactly when it closes a remainder that nothing had closed. -/
theorem reduce_append_open {q : Query} {facts : List OrderFact} {fact : OrderFact}
    (notTerm : fact.state ∉ terminalStates)
    (repeats : fact.matched ≤ (scan q.commandSize facts).matchedFromOrders) :
    (reduce q (facts ++ [fact])).matchedSize = (reduce q facts).matchedSize ∧
      ((reduce q (facts ++ [fact])).proofClass.rank ≤ (reduce q facts).proofClass.rank ↔
        (ClosesRemainder fact → Closed q facts)) := by
  obtain ⟨notFill, notEmpty, closes⟩ := @role_of_open q.commandSize fact notTerm
  have sameFill : (scan q.commandSize (facts ++ [fact])).terminalFill =
      (scan q.commandSize facts).terminalFill := by
    rw [scan_append, absorb_terminalFill, if_neg notFill]
  have sameEmpty : (scan q.commandSize (facts ++ [fact])).terminalZeroNoFill =
      (scan q.commandSize facts).terminalZeroNoFill := by
    rw [scan_append, absorb_terminalZeroNoFill, if_neg notEmpty]
  have sameSize : overallMatched q (scan q.commandSize (facts ++ [fact])) =
      overallMatched q (scan q.commandSize facts) := by
    rw [overallMatched, scan_append, absorb_matched, max_eq_left repeats, overallMatched]
  constructor
  · rw [reduce_matched, reduce_matched, sameFill, sameSize]
  · rw [reduce, reduce, conclude_rank, conclude_rank, sameFill, sameEmpty, sameSize, scan_append,
      absorb_terminalPartial, closed_iff, ← closes]
    have pos : role q.commandSize fact = .terminalPartial →
        0 < overallMatched q (scan q.commandSize facts) := by
      intro part
      exact (closes.mp part).2.2.trans_le (repeats.trans (le_max_right _ _))
    by_cases part : role q.commandSize fact = .terminalPartial
    · simp only [part, if_true, Option.isSome_some, forall_const, pos part]
      split_ifs <;> simp_all
    · simp [part]

/-- A call that stores nothing has lost nothing exactly when its fact closes no remainder, or the
stored facts already show the order closed. -/
theorem suppressed_fact_adds_nothing_iff {rows : List OrderFactRow} {call : OrderFactCall}
    {factId : ℤ} (q : Query) (supp : appendOrderFact rows call = .ok (factId, rows)) :
    let hs :=
      (ofOrder rows (Collateral.strip call.venueOrderId) (Collateral.strip call.commandId)).map
      (·.toOrderFact)
    (reduce q (hs ++ [call.toOrderFact])).matchedSize ≤ (reduce q hs).matchedSize ∧
        (reduce q (hs ++ [call.toOrderFact])).proofClass.rank ≤ (reduce q hs).proofClass.rank ↔
      (ClosesRemainder call.toOrderFact → Closed q hs) := by
  intro hs
  obtain ⟨prior, isPrior⟩ := suppressedBy_of_unchanged supp
  obtain ⟨notTerm, -, repeats⟩ := suppressedBy_spec isPrior
  obtain ⟨sameSize, sameRank⟩ := @reduce_append_open q hs call.toOrderFact notTerm
    (matched_le_scan q.commandSize repeats)
  rw [sameSize, sameRank]
  exact and_iff_right le_rfl

/-- Half of a ten share order is matched, then a cancel arrives that reports no matched size. -/
def partialThenCancel (remainingSize : Option ℚ) : List OrderFactCall :=
  [{ state := .partiallyMatched, remainingSize := some 5, matchedSize := some 5,
      venueOrderId := "ord-1"
     commandId := "cmd-1", source := .rest, observedAt := "12:00" },
    { state := .cancelConfirmed, remainingSize, matchedSize := none, venueOrderId := "ord-1"
      commandId := "cmd-1", source := .wsUser, observedAt := "12:01" }]

def closingFact : OrderFactCall where
  state := .partiallyMatched
  remainingSize := some 0
  matchedSize := some 5
  venueOrderId := "ord-1"
  commandId := "cmd-1"
  source := .rest
  observedAt := "12:02"

def storedFacts (remainingSize : Option ℚ) : List OrderFact :=
  (ofOrder (appendOrderFacts (partialThenCancel remainingSize)) "ord-1" "cmd-1").map (·.toOrderFact)

/-- The cancel says that nothing is left. -/
theorem suppressed_fact_adds_nothing_sample :
    appendOrderFact (appendOrderFacts (partialThenCancel (some 0))) closingFact =
      .ok (2, appendOrderFacts (partialThenCancel (some 0))) ∧
    (reduce { commandSize := some 10 }
        (storedFacts (some 0) ++ [closingFact.toOrderFact])).matchedSize ≤
      (reduce { commandSize := some 10 } (storedFacts (some 0))).matchedSize ∧
    (reduce { commandSize := some 10 }
        (storedFacts (some 0) ++ [closingFact.toOrderFact])).proofClass.rank ≤
      (reduce { commandSize := some 10 } (storedFacts (some 0))).proofClass.rank := by
  have supp : appendOrderFact (appendOrderFacts (partialThenCancel (some 0))) closingFact =
      .ok (2, appendOrderFacts (partialThenCancel (some 0))) := by decide +kernel
  have hcl : Closed { commandSize := some 10 } (storedFacts (some 0)) :=
    Or.inl ⟨⟨.cancelConfirmed, some 0, none⟩, by decide +kernel, by decide +kernel⟩
  have order : Collateral.strip closingFact.venueOrderId = "ord-1" := by decide +kernel
  have cmd : Collateral.strip closingFact.commandId = "cmd-1" := by decide +kernel
  have iff := suppressed_fact_adds_nothing_iff { commandSize := some 10 } supp
  rw [order, cmd] at iff
  exact ⟨supp, iff.mpr fun _ => hcl⟩

/-- The cancel reports no sizes at all, so nothing stored closes the order. -/
theorem suppressed_fact_closed_remainder :
    appendOrderFact (appendOrderFacts (partialThenCancel none)) closingFact =
      .ok (2, appendOrderFacts (partialThenCancel none)) ∧
    (reduce { commandSize := some 10 } (storedFacts none)).proofClass = .partialWithRemainder ∧
    (reduce { commandSize := some 10 } (storedFacts none ++ [closingFact.toOrderFact])).proofClass =
      .terminalPartial ∧
    ¬ (reduce { commandSize := some 10 }
          (storedFacts none ++ [closingFact.toOrderFact])).proofClass.rank ≤
        (reduce { commandSize := some 10 } (storedFacts none)).proofClass.rank := by
  decide +kernel

end Zeus.OrderFacts
