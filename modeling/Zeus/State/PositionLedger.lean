import Zeus.State.PositionCurrent

/-! `append_many_and_project`: the batch check compares the last event with the projection it was
given; the writer merges that projection with the stored row afterwards. -/

namespace Zeus.PositionLedger

open Refusal
open Zeus.Collateral (strip)
open Zeus.PositionCurrent

structure PositionEvent where
  (eventId positionId : String)
  sequenceNo : ℤ
  eventType : PositionEventType
  phaseAfter : Option LifecyclePhase
  strategyKey : String
  idempotencyKey : Option String := none
  env : Option String

structure Ledger where
  current : Table
  events : List PositionEvent

inductive LedgerError where
  | missingEnv
  | invalidEnv (env : String)
  | emptyBatch | positionIdMismatch | strategyKeyMismatch | phaseMismatch | integrityError
  | projection (error : UpsertError)
  deriving DecidableEq

def positionEventEnvs : List String := ["live", "test", "replay", "backtest"]

def normalizePositionEventEnv (text : String) : Except LedgerError String :=
  let env := PyText.onString PyText.lower (strip text)
  if env ∈ positionEventEnvs then .ok env else .error (.invalidEnv env)

def prepareEvent (event : PositionEvent) : Except LedgerError PositionEvent :=
  if blank event.env then .error .missingEnv
  else (normalizePositionEventEnv (event.env.getD "")).map fun env => { event with env := some env }

/-- The first event of another position or strategy; then the last phase, where both are given. -/
def validateEventProjectionBatch (events : List PositionEvent) (projection : Projection) :
    Option LedgerError :=
  first [
    require (events ≠ []) .emptyBatch,
    events.findSome? fun event => first [
      require (event.positionId = projection.positionId) .positionIdMismatch,
      require (event.strategyKey = projection.strategyKey) .strategyKeyMismatch],
    require (∀ phase ∈ events.getLast?.bind PositionEvent.phaseAfter, ∀ asked ∈ projection.phase,
        phase = asked)
      .phaseMismatch]

/-- INSERT INTO `position_events` under its keys and checks. -/
def insertEvent (events : List PositionEvent) (event : PositionEvent) :
    Except LedgerError (List PositionEvent) :=
  if (events.any fun row => row.eventId == event.eventId ||
      (row.positionId == event.positionId && row.sequenceNo == event.sequenceNo) ||
      (row.idempotencyKey.isSome && row.idempotencyKey == event.idempotencyKey)) ||
      decide (event.sequenceNo < 1) || event.phaseAfter == some .unknown then
    .error .integrityError
  else .ok (events ++ [event])

def appendManyAndProject (ledger : Ledger) (events : List PositionEvent) (projection : Projection) :
    Except LedgerError Ledger := do
  let prepared ← events.mapM prepareEvent
  guardBy (validateEventProjectionBatch prepared projection)
  let journal ← prepared.foldlM insertEvent ledger.events
  let current ← (upsertPositionCurrent ledger.current
      (prepared.getLast?.map PositionEvent.eventType)
    projection).mapError .projection
  return ⟨current, journal⟩

variable {ledger after : Ledger} {events prepared : List PositionEvent} {event : PositionEvent}
  {projection : Projection}

theorem prepareEvent_ok {before : PositionEvent} (prepared : prepareEvent before = .ok event) :
    event.positionId = before.positionId ∧
    event.eventType = before.eventType ∧
    event.phaseAfter = before.phaseAfter := by
  unfold prepareEvent at prepared
  split_ifs at prepared
  cases normal : normalizePositionEventEnv (before.env.getD "") with
  | error error =>
    rw [normal] at prepared
    cases prepared
  | ok env =>
    rw [normal] at prepared
    cases prepared
    exact ⟨rfl, rfl, rfl⟩

theorem append_ok (acc : appendManyAndProject ledger events projection = .ok after)
    (last : events.getLast? = some event) :
    event.positionId = projection.positionId ∧
    (∀ phase ∈ event.phaseAfter, ∀ asked ∈ projection.phase, phase = asked) ∧
    upsertPositionCurrent ledger.current (some event.eventType) projection = .ok after.current := by
  simp only [appendManyAndProject, CheckedFold.bind_eq_ok, guardBy_eq_ok, mapError_eq_ok,
    validateEventProjectionBatch, first_cons, require_eq_none] at acc
  obtain ⟨prepared, mapped, _, ⟨-, owned, agreed, -⟩, journal, -, cur, projected, wrote⟩ := acc
  cases wrote
  obtain ⟨hs, isStored, lastStored⟩ := CheckedFold.getLast_of_mapM_eq_ok mapped last
  obtain ⟨sameId, sameType, samePhase⟩ := prepareEvent_ok isStored
  rw [lastStored] at agreed projected
  rw [Option.map_some, sameType] at projected
  rw [Option.bind_some, samePhase] at agreed
  refine ⟨?_, agreed, projected⟩
  have own := List.findSome?_eq_none_iff.mp owned hs (List.mem_of_getLast? lastStored)
  rw [first_cons, require_eq_none] at own
  exact sameId.symm.trans own.1

/-- The stored row keeps its pending exit through an event of this type. -/
def KeepsPendingExit (ledger : Ledger) (event : PositionEvent) : Prop :=
  event.positionId ≠ "" ∧
    event.eventType ∈ pendingExitAuthorityPreservingEventTypes ∧
    ∃ row, ledger.current.find event.positionId = some row ∧ row.exitProtected

theorem merged_phase (own : event.positionId = projection.positionId) :
    (KeepsPendingExit ledger event ∧
      (merged ledger.current (some event.eventType) projection).phase = some .pendingExit) ∨
    (¬ KeepsPendingExit ledger event ∧
        (merged ledger.current (some event.eventType) projection).phase = projection.phase) := by
  unfold KeepsPendingExit
  rw [own]
  by_cases anon : projection.positionId = ""
  · rw [merged_of_blank anon]
    exact .inr ⟨fun keeps => keeps.1 anon, rfl⟩
  · cases hf : ledger.current.find projection.positionId with
    | none =>
      refine .inr ⟨?_, ?_⟩
      · rintro ⟨-, -, row, isRow, -⟩
        cases isRow
      · rw [merged, if_neg anon, hf]
        rfl
    | some row =>
      rw [merged_of_found anon hf, mergeExisting_phase]
      split_ifs with pres
      · exact .inl ⟨⟨anon, by simpa using pres.1, row, rfl, pres.2⟩, rfl⟩
      · refine .inr ⟨?_, rfl⟩
        rintro ⟨-, type, other, isOther, held⟩
        cases isOther
        exact pres ⟨by simpa using type, held⟩

/-- After an accepted batch the row has the phase of the last event, except that a monitor refresh
or a chain correction leaves a protected pending exit in place. -/
theorem row_phase_of_last_event {phase : LifecyclePhase}
    (acc : appendManyAndProject ledger events projection = .ok after)
    (last : events.getLast? = some event) (given : event.phaseAfter = some phase) :
    (KeepsPendingExit ledger event →
      (after.current.find event.positionId).map Row.phase = some .pendingExit) ∧
    (¬ KeepsPendingExit ledger event →
      (after.current.find event.positionId).map Row.phase = some phase) := by
  obtain ⟨own, agreed, projected⟩ := append_ok acc last
  obtain ⟨-, row, hw⟩ := upsert_ok projected
  have hs : after.current.find event.positionId = some row := by
    rw [own, hw.find, merged_positionId, if_pos rfl]
  rw [hs, Option.map_some, Option.some_inj, Option.some_inj]
  rcases merged_phase own with ⟨keeps, merges⟩ | ⟨free, merges⟩ <;> rw [hw.phase] at merges
  · exact ⟨fun _ => Option.some.inj merges, fun free => absurd keeps free⟩
  · exact ⟨fun keeps => absurd keeps free, fun _ => (agreed phase given row.phase merges.symm).symm⟩

def sampleLedgerProjection (phase : LifecyclePhase) : Projection where
  positionId := "pos-7"
  strategyKey := "center_buy"
  direction := some .buyNo
  entry := { noTokenId := some "tok-7", conditionId := some "cond-7", shares := some 5 }
  exit := { orderStatus := some "sell_placed" }
  phase := some phase

def sampleLedgerEvent (sequenceNo : ℤ) (eventType : PositionEventType) (phase : LifecyclePhase) :
    PositionEvent where
  eventId := if sequenceNo = 1 then "evt-a" else "evt-b"
  positionId := "pos-7"
  sequenceNo := sequenceNo
  eventType := eventType
  phaseAfter := some phase
  strategyKey := "center_buy"
  env := some " Live"

def exitPosted : Ledger :=
  (appendManyAndProject ⟨.empty, []⟩ [sampleLedgerEvent 1 .exitOrderPosted .pendingExit]
    (sampleLedgerProjection .pendingExit)).toOption.getD ⟨.empty, []⟩

def released (eventType : PositionEventType) : Except LedgerError Ledger :=
  appendManyAndProject exitPosted [sampleLedgerEvent 2 eventType .active]
    (sampleLedgerProjection .active)

theorem exitRetryReleased_row_phase :
    ∃ after, released .exitRetryReleased = .ok after ∧
      (after.current.find "pos-7").map Row.phase = some .active := by
  have acc : (released .exitRetryReleased).toOption.isSome = true := by decide +kernel
  cases ans : released .exitRetryReleased with
  | error error =>
    rw [ans] at acc
    cases acc
  | ok after =>
    refine ⟨after, rfl, (row_phase_of_last_event ans rfl rfl).2 ?_⟩
    rintro ⟨-, preserving, -⟩
    exact absurd preserving (by decide)

/-- A monitor refresh records that the position is active and leaves its row in the pending exit. -/
theorem refreshed_row_behind_event :
    (released .monitorRefreshed).toOption.map (fun after =>
      (after.events.getLast?.bind PositionEvent.phaseAfter,
        (after.current.find "pos-7").map Row.phase)) =
      some (some .active, some .pendingExit) := by
  decide +kernel

end Zeus.PositionLedger
