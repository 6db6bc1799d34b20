import Zeus.Lib.Decimal

/-! One pass over the order facts fills six latest-wins slots and a running maximum; the conclusion
then ranks the slots. Sizes are finite decimals or absent (missing and unparsable text are both
absent). -/
namespace Zeus.OrderTruth

/-- Normalised state text of a fact; `other` is any spelling the reducer has
no branch for. -/
inductive VenueState where
  | matched | cancelConfirmed | expired | venueWiped | live | partiallyMatched | resting | unknown
  | submitUnknownSideEffect | reviewRequired
  | other (text : String)
  deriving DecidableEq

inductive OrderProofClass where
  | terminalNoFill | terminalFilled | terminalPartial | partialWithRemainder | liveResting
  | unknownSideEffect
  | reviewRequired
  deriving DecidableEq

structure OrderFact where
  state : VenueState
  (remainingSize matchedSize : Option ℚ)
  deriving DecidableEq

/-- `source_state` is the empty text when a branch leaves the default. -/
structure CanonicalOrderTruth where
  state : VenueState
  remainingSize : Option ℚ
  matchedSize : ℚ
  proofClass : OrderProofClass
  sourceState : Option VenueState := none
  deriving DecidableEq

def terminalStates : List VenueState := [.matched, .cancelConfirmed, .expired, .venueWiped]

def openStates : List VenueState := [.live, .partiallyMatched, .resting]

def unknownStates : List VenueState := [.unknown, .submitUnknownSideEffect]

def reviewStates : List VenueState := [.reviewRequired]

def fullFillResidualTolerance : ℚ := 1 / 100

/-- `_decimal_or_none(matched_size) or Decimal("0")`. -/
def OrderFact.matched (fact : OrderFact) : ℚ := fact.matchedSize.getD 0

def zero (value : Option ℚ) : Bool := value = some 0

def coversCommand (matched : ℚ) (commandSize : Option ℚ) (allowTerminalDust : Bool) : Bool :=
  let tolerance := if allowTerminalDust then fullFillResidualTolerance else 0
  match commandSize with
  | none => false
  | some size => size ≤ DecimalContext.add matched tolerance

inductive Role where
  | terminalFill | terminalPartial | terminalZeroNoFill | latestOpen | latestUnknown | latestReview
  | ignored
  deriving DecidableEq

def role (commandSize : Option ℚ) (fact : OrderFact) : Role :=
  if fact.state = .matched ∧ zero fact.remainingSize ∧ 0 < fact.matched then
    if commandSize = none ∨ coversCommand fact.matched commandSize true then .terminalFill
    else .terminalPartial
  else if fact.state ∈ terminalStates then
    if fact.state = .matched ∧ ¬ zero fact.remainingSize then .ignored
    else if 0 < fact.matched then .terminalPartial
    else if zero fact.remainingSize then .terminalZeroNoFill
    else .ignored
  else if fact.state ∈ openStates then
    if zero fact.remainingSize ∧ 0 < fact.matched then .terminalPartial else .latestOpen
  else if fact.state ∈ unknownStates then .latestUnknown
  else if fact.state ∈ reviewStates then .latestReview
  else .ignored

structure Slots where
  matchedFromOrders : ℚ := 0
  terminalZeroNoFill : Option OrderFact := none
  latestOpen : Option OrderFact := none
  latestUnknown : Option OrderFact := none
  latestReview : Option OrderFact := none
  terminalFill : Option OrderFact := none
  terminalPartial : Option OrderFact := none

def Slots.slot (slots : Slots) : Role → Option OrderFact
  | .terminalFill => slots.terminalFill
  | .terminalPartial => slots.terminalPartial
  | .terminalZeroNoFill => slots.terminalZeroNoFill
  | .latestOpen => slots.latestOpen
  | .latestUnknown => slots.latestUnknown
  | .latestReview => slots.latestReview
  | .ignored => none

def absorb (commandSize : Option ℚ) (slots : Slots) (fact : OrderFact) : Slots :=
  let seen := { slots with matchedFromOrders := max slots.matchedFromOrders fact.matched }
  match role commandSize fact with
  | .terminalFill => { seen with terminalFill := some fact }
  | .terminalPartial => { seen with terminalPartial := some fact }
  | .terminalZeroNoFill => { seen with terminalZeroNoFill := some fact }
  | .latestOpen => { seen with latestOpen := some fact }
  | .latestUnknown => { seen with latestUnknown := some fact }
  | .latestReview => { seen with latestReview := some fact }
  | .ignored => seen

def scan (commandSize : Option ℚ) (facts : List OrderFact) : Slots :=
  facts.foldl (absorb commandSize) {}

structure Query where
  tradeFilledSize : Option ℚ := none
  commandSize : Option ℚ := none
  openOrderPresent : Option Bool := none
  commandState : Option VenueState := none

def Query.filledFromTrade (q : Query) : ℚ := q.tradeFilledSize.getD 0

/-- `max(filled_from_trade, matched_from_orders)` after the pass. -/
def overallMatched (q : Query) (slots : Slots) : ℚ := max q.filledFromTrade slots.matchedFromOrders

/-- The branches of `reduce` once nothing has matched and no terminal fact is present. -/
def concludeOpen (q : Query) (slots : Slots) : CanonicalOrderTruth :=
  if slots.latestReview.isSome ∨ q.commandState = some .reviewRequired then
    { state := .reviewRequired, remainingSize := none, matchedSize := 0,
      proofClass := .reviewRequired }
  else if slots.latestUnknown.isSome ∨ q.commandState = some .unknown ∨
      q.commandState = some .submitUnknownSideEffect then
    { state := .unknown, remainingSize := none, matchedSize := 0, proofClass := .unknownSideEffect }
  else match slots.latestOpen with
    | some fact =>
      { state := fact.state, remainingSize := fact.remainingSize, matchedSize := 0,
        proofClass := .liveResting }
    | none =>
      if q.openOrderPresent = some true then
        { state := .live, remainingSize := none, matchedSize := 0, proofClass := .liveResting }
      else
        { state := .unknown, remainingSize := none, matchedSize := 0,
          proofClass := .unknownSideEffect }

/-- `matched > 0` without any terminal fact: only the command size can close the order. -/
def concludeMatched (q : Query) (matched : ℚ) : CanonicalOrderTruth :=
  match q.commandSize with
  | some size =>
    let remaining := max 0 (DecimalContext.sub size matched)
    if coversCommand matched q.commandSize false then
      { state := .matched, remainingSize := some remaining, matchedSize := matched,
        proofClass := .terminalFilled }
    else
      { state := .partiallyMatched, remainingSize := some remaining, matchedSize := matched,
        proofClass := .partialWithRemainder }
  | none =>
    { state := .partiallyMatched, remainingSize := none, matchedSize := matched,
      proofClass := .partialWithRemainder }

def concludeZeroNoFill (q : Query) (matched : ℚ) (fact : OrderFact) : CanonicalOrderTruth :=
  if 0 < matched then
    if coversCommand matched q.commandSize false then
      { state := .matched, remainingSize := some 0, matchedSize := matched,
        proofClass := .terminalFilled }
    else
      { state := fact.state, remainingSize := some 0, matchedSize := matched,
        proofClass := .terminalPartial, sourceState := some fact.state }
  else
    { state := fact.state, remainingSize := some 0, matchedSize := 0,
      proofClass := .terminalNoFill, sourceState := some fact.state }

def conclude (q : Query) (slots : Slots) : CanonicalOrderTruth :=
  let matched := overallMatched q slots
  match slots.terminalFill, slots.terminalPartial, slots.terminalZeroNoFill with
  | some fact, _, _ =>
    -- `_decimal_or_none(...) or matched`: a zero matched size is falsy.
    { state := .matched, remainingSize := some 0,
      matchedSize := if fact.matched = 0 then matched else fact.matched,
      proofClass := .terminalFilled }
  | none, some fact, _ =>
    { state := fact.state, remainingSize := some 0, matchedSize := max matched fact.matched,
      proofClass := .terminalPartial, sourceState := some fact.state }
  | none, none, some fact => concludeZeroNoFill q matched fact
  | none, none, none => if 0 < matched then concludeMatched q matched else concludeOpen q slots

def reduce (q : Query) (facts : List OrderFact) : CanonicalOrderTruth :=
  conclude q (scan q.commandSize facts)

theorem scan_append (commandSize : Option ℚ) (facts : List OrderFact) (x : OrderFact) :
    scan commandSize (facts ++ [x]) = absorb commandSize (scan commandSize facts) x := by
  simp only [scan, List.foldl_append, List.foldl_cons, List.foldl_nil]

@[simp] theorem absorb_matched (commandSize : Option ℚ) (slots : Slots) (fact : OrderFact) :
    (absorb commandSize slots fact).matchedFromOrders =
      max slots.matchedFromOrders fact.matched := by
  cases h : role commandSize fact <;> simp only [absorb, h]

theorem absorb_slot (commandSize : Option ℚ) (slots : Slots) (fact : OrderFact) (hw : Role)
    (kept : hw ≠ .ignored) : (absorb commandSize slots fact).slot hw =
      if role commandSize fact = hw then some fact else slots.slot hw := by
  cases h : role commandSize fact <;> cases hw <;> simp_all [absorb, Slots.slot]

theorem absorb_terminalFill (commandSize : Option ℚ) (slots : Slots) (fact : OrderFact) :
    (absorb commandSize slots fact).terminalFill =
      if role commandSize fact = .terminalFill then some fact else slots.terminalFill :=
  absorb_slot commandSize slots fact .terminalFill (by decide)

theorem absorb_terminalPartial (commandSize : Option ℚ) (slots : Slots) (fact : OrderFact) :
    (absorb commandSize slots fact).terminalPartial =
      if role commandSize fact = .terminalPartial then some fact else slots.terminalPartial :=
  absorb_slot commandSize slots fact .terminalPartial (by decide)

theorem absorb_terminalZeroNoFill (commandSize : Option ℚ) (slots : Slots) (fact : OrderFact) :
    (absorb commandSize slots fact).terminalZeroNoFill =
      if role commandSize fact = .terminalZeroNoFill then some fact else slots.terminalZeroNoFill :=
  absorb_slot commandSize slots fact .terminalZeroNoFill (by decide)

theorem role_terminalFill_matched {commandSize : Option ℚ} {fact : OrderFact}
    (h : role commandSize fact = .terminalFill) : 0 < fact.matched := by
  unfold role at h
  split_ifs at h with fill
  exact fill.2.2

theorem coversCommand_mono {x y : ℚ} (commandSize : Option ℚ) (nn : 0 ≤ x) (h : x ≤ y)
    (cov : coversCommand x commandSize false = true) :
    coversCommand y commandSize false = true := by
  cases commandSize with
  | none => simp [coversCommand] at cov
  | some size =>
    simp only [coversCommand, Bool.false_eq_true, if_false, decide_eq_true_eq] at cov ⊢
    refine le_trans cov ?_
    simp only [DecimalContext.add, add_zero]
    exact DecimalContext.sigRound_mono (by decide) nn h

section
variable (commandSize : Option ℚ)

theorem scan_matched_nonneg (facts : List OrderFact) :
    0 ≤ (scan commandSize facts).matchedFromOrders := by
  induction facts using List.reverseRecOn with
  | nil => simp [scan]
  | append_singleton facts x ih =>
    rw [scan_append, absorb_matched]
    exact le_max_of_le_left ih

theorem scan_matched_le_iff (facts : List OrderFact) (bound : ℚ) :
    (scan commandSize facts).matchedFromOrders ≤ bound ↔
      0 ≤ bound ∧ ∀ f ∈ facts, f.matched ≤ bound := by
  induction facts using List.reverseRecOn with
  | nil => simp [scan]
  | append_singleton facts x ih =>
    rw [scan_append, absorb_matched, max_le_iff, ih]
    simp only [List.mem_append, List.mem_singleton, or_imp, forall_and, forall_eq]
    tauto

theorem scan_slot_isSome_iff (written : Role) (kept : written ≠ .ignored) (facts : List OrderFact) :
    ((scan commandSize facts).slot written).isSome ↔ ∃ f ∈ facts, role commandSize f = written := by
  induction facts using List.reverseRecOn with
  | nil => cases written <;> simp [scan, Slots.slot]
  | append_singleton facts x ih =>
    rw [scan_append, absorb_slot _ _ _ _ kept]
    split_ifs with here
    · simp only [Option.isSome_some, true_iff]
      exact ⟨x, by simp, here⟩
    · rw [ih]
      simp only [List.mem_append, List.mem_singleton, or_and_right, exists_or, exists_eq_left, here,
        or_false]

theorem scan_slot_none_iff (written : Role) (kept : written ≠ .ignored) (facts : List OrderFact) :
    (scan commandSize facts).slot written = none ↔ ∀ f ∈ facts, role commandSize f ≠ written := by
  rw [← Option.not_isSome_iff_eq_none, scan_slot_isSome_iff commandSize written kept]
  push Not
  rfl

theorem scan_terminalFill_none_iff (facts : List OrderFact) :
    (scan commandSize facts).terminalFill = none ↔
      ∀ f ∈ facts, role commandSize f ≠ .terminalFill :=
  scan_slot_none_iff commandSize .terminalFill (by decide) facts

theorem scan_terminalPartial_none_iff (facts : List OrderFact) :
    (scan commandSize facts).terminalPartial = none ↔
      ∀ f ∈ facts, role commandSize f ≠ .terminalPartial :=
  scan_slot_none_iff commandSize .terminalPartial (by decide) facts

variable {facts : List OrderFact}

theorem scan_slot_mem (written : Role) (kept : written ≠ .ignored) {fact : OrderFact}
    (h : (scan commandSize facts).slot written = some fact) :
    fact ∈ facts ∧ role commandSize fact = written := by
  induction facts using List.reverseRecOn with
  | nil => cases written <;> simp [scan, Slots.slot] at h
  | append_singleton facts x ih =>
    rw [scan_append, absorb_slot _ _ _ _ kept] at h
    split_ifs at h with here
    · cases h
      exact ⟨by simp, here⟩
    · exact ⟨List.mem_append_left _ (ih h).1, (ih h).2⟩

theorem scan_terminalFill_mem {fact : OrderFact}
    (h : (scan commandSize facts).terminalFill = some fact) :
    fact ∈ facts ∧ role commandSize fact = .terminalFill :=
  scan_slot_mem commandSize .terminalFill (by decide) h
end

end Zeus.OrderTruth
