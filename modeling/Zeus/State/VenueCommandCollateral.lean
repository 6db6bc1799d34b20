import Zeus.State.VenueCommandJournal

/-! A command whose venue order is live keeps its reservation, unless a clearance reopens one that
had ended. -/

namespace Zeus.VenueCommands

open Savepoint
open Zeus.Collateral

variable {readers : Readers} {db : Db} {commandId : String}

variable {call : Call} {command : Command} {row : Reservation}

theorem accepts_iff :
    accepts readers db call = true ↔ ∃ eid after, appendEvent readers call db = .ok eid after := by
  unfold accepts
  cases appendEvent readers call db <;> simp

theorem step_of_accepts (acc : accepts readers db call = true) :
    ∃ command target terminalPartial restored, Appended db call command target terminalPartial
        restored (db.step readers (.appendEvent call)) := by
  obtain ⟨eid, after, ans⟩ := accepts_iff.mp acc
  have same : db.step readers (.appendEvent call) = after := by
    change Savepoint.stateAfter (appendEvent readers call) db = after
    rw [Savepoint.stateAfter, ans]
  rw [same]
  exact appendEvent_ok ans

theorem step_of_accepts_command (hcmd : db.commands.find call.commandId = some command)
    (acc : accepts readers db call = true) :
    ∃ target terminalPartial restored, Appended db call command target terminalPartial restored
        (db.step readers (.appendEvent call)) := by
  obtain ⟨hf, target, terminalPartial, restored, app⟩ := step_of_accepts acc
  have same : hf = command := Option.some.inj (app.found.symm.trans hcmd)
  subst same
  exact ⟨target, terminalPartial, restored, app⟩

theorem step_cases (readers : Readers) (hcmd : db.commands.find commandId = some command)
    (hasRow : db.reservations.find commandId = some row) (step : Step) :
    ((db.step readers step).commands.find commandId = some command ∧
      (db.step readers step).reservations.find commandId = some row) ∨
    ∃ call, step = .appendEvent call ∧
      call.commandId = commandId ∧
      accepts readers db call = true := by
  have resvg : ∀ {op owner}, ((∃ amt now, op = .reservePusd owner amt now) ∨
      ∃ tid size now, op = .reserveTokens owner tid size now) →
      (next db.ledger op).reservations.find commandId = some row := by
    intro op owner rsv
    rcases reserve_find rsv commandId with same | ⟨hab, -⟩
    · exact same.trans hasRow
    · rw [show db.ledger.reservations.find commandId = some row from hasRow] at hab
      cases hab
  cases step with
  | createCommand new =>
    refine .inl ?_
    change (Savepoint.stateAfter (createCommand new) db).commands.find commandId = some command ∧
      (Savepoint.stateAfter (createCommand new) db).reservations.find commandId = some row
    unfold createCommand
    rcases stateAfter_savepoint_cases _ db with unch | ⟨u, hans⟩
    · rw [unch]
      exact ⟨hcmd, hasRow⟩
    · have created := createCommand_ok hans
      rw [created.commands, created.reservations]
      split <;> rename_i own
      · rw [own, created.fresh] at hcmd
        cases hcmd
      · exact ⟨hcmd, hasRow⟩
  | reservePusd owner amt now => exact .inl ⟨hcmd, resvg (.inl ⟨amt, now, rfl⟩)⟩
  | reserveTokens owner tid size now => exact .inl ⟨hcmd, resvg (.inr ⟨tid, size, now, rfl⟩)⟩
  | recordSnapshot snap =>
    refine .inl ⟨hcmd, ?_⟩
    change (next db.ledger (.snapshot snap)).reservations.find commandId = some row
    rw [snapshot_reservations]
    exact hasRow
  | recordFacts facts => exact .inl ⟨hcmd, hasRow⟩
  | holdMutexes holdings => exact .inl ⟨hcmd, hasRow⟩
  | appendEvent call =>
    by_cases acc : accepts readers db call = true
    · by_cases own : call.commandId = commandId
      · exact .inr ⟨call, rfl, own, acc⟩
      · obtain ⟨_, _, _, _, app⟩ := step_of_accepts acc
        refine .inl ⟨?_, ?_⟩
        · rw [app.commands, if_neg (Ne.symm own)]
          exact hcmd
        · rw [app.frame.other commandId (Ne.symm own)]
          exact hasRow
    · refine .inl ?_
      have unch : db.step readers (.appendEvent call) = db := by
        change Savepoint.stateAfter (appendEvent readers call) db = db
        cases ans : appendEvent readers call db with
        | ok eid after => exact absurd (accepts_iff.mpr ⟨eid, after, ans⟩) acc
        | error error after =>
          rw [Savepoint.stateAfter, ans]
          unfold appendEvent at ans
          exact savepoint_raised ans
      rw [unch]
      exact ⟨hcmd, hasRow⟩

def Held (db : Db) (commandId : String) : Prop :=
  ∃ row, db.reservations.find commandId = some row ∧ row.releasedAt = none

instance (db : Db) (commandId : String) : Decidable (Held db commandId) :=
  decidable_of_iff ((db.reservations.find commandId).any fun row => row.releasedAt = none)
    (by simp [Held, Option.any_eq_true])

section
variable {call : Call} {command : Command} {target : CommandState} {terminalPartial : Bool}
  {restored after : Db}

theorem Appended.untouched (app : Appended db call command target terminalPartial restored after)
    (skipped : restoresCollateral command.state call = false)
    (live : stateAfterCall command.state target call ∉ terminalStates)
    (notPartial : terminalPartial = false) : after.reservations = db.reservations := by
  rw [app.reservations, settledLedger, terminalDispatch, if_neg (by simp [live, notPartial]),
    app.restores.eq_of_skipped skipped]
  rfl
end

/-- The states in which no fill and no end of the command has been recorded yet. -/
def heldStates : List CommandState :=
  [.intentCreated, .snapshotBound, .signedPersisted, .submitting, .posting, .postAcked, .acked,
    .unknown, .submitUnknownSideEffect]

/-- The only way into these states from outside is the live-order clearance, and no fill event and
no late-fill correction leads there. -/
theorem transitions_into_held :
    ∀ row ∈ transitions, row.2 ∈ heldStates →
      row.2 ∉ terminalStates ∧
      row.1.1 ∉ lateFillStates ∧
      row.1.2 ≠ .partialFillObserved ∧
      (row.1.1 ∈ heldStates ∨ row.1.2 = .reviewClearedVenueOrderLive) := by
  decide

theorem transitions_of_clearance :
    ∀ row ∈ transitions, row.1.2 = .reviewClearedVenueOrderLive → row.2 = .acked := by
  decide

section
variable {call : Call} {command : Command} {target : CommandState} {terminalPartial : Bool}
  {restored after : Db}

theorem Appended.into_held (app : Appended db call command target terminalPartial restored after)
    (held : stateAfterCall command.state target call ∈ heldStates) :
    after.reservations = db.reservations ∧
    (command.state ∈ heldStates ∨ call.eventType = .reviewClearedVenueOrderLive) := by
  have isTarget : stateAfterCall command.state target call = target := by
    unfold stateAfterCall at held ⊢
    split <;> rename_i kept
    · rw [if_pos kept] at held
      exact absurd held (by decide)
    · rfl
  rw [isTarget] at held
  obtain ⟨live, notLate, notPartial, src⟩ :=
    transitions_into_held _ (mem_transitions app.legal) held
  refine ⟨app.untouched ?_ ?_ ?_, src⟩
  · simp [restoresCollateral, terminalLateFill, notLate]
  · rwa [isTarget]
  · by_contra isPartial
    exact notPartial (app.partialFill (by simpa using isPartial))

theorem Appended.clearance_state
    (app : Appended db call command target terminalPartial restored after)
    (clears : call.eventType = .reviewClearedVenueOrderLive) :
    stateAfterCall command.state target call = .acked := by
  have acked : target = .acked := transitions_of_clearance _ (mem_transitions app.legal) clears
  unfold stateAfterCall
  rw [if_neg (by simp [genuineCancelFill, clears]), acked]
end

/-- The command and its reservation exist, and the reservation is open in a held state. -/
structure Covered (db : Db) (commandId : String) : Prop where
  reserved : ∃ row, db.reservations.find commandId = some row
  held : ∃ command, db.commands.find commandId = some command ∧
    (command.state ∈ heldStates → Held db commandId)

/-- The step is an accepted live-order clearance of the command. -/
def Step.clears (readers : Readers) (db : Db) (commandId : String) : Step → Prop
  | .appendEvent call =>
    call.commandId = commandId ∧
      call.eventType = .reviewClearedVenueOrderLive ∧
      accepts readers db call = true
  | _ => False

theorem Covered.step (cov : Covered db commandId) {step : Step}
    (whileHeld : step.clears readers db commandId → Held db commandId) :
    Covered (db.step readers step) commandId := by
  obtain ⟨row, hasRow⟩ := cov.reserved
  obtain ⟨command, hcmd, held⟩ := cov.held
  rcases step_cases readers hcmd hasRow step with ⟨sameCmd, sameRow⟩ | ⟨call, rfl, rfl, acc⟩
  · refine ⟨⟨row, sameRow⟩, command, sameCmd, fun inHeld => ?_⟩
    obtain ⟨_, isRow, isOpen⟩ := held inHeld
    rw [hasRow] at isRow
    cases isRow
    exact ⟨row, sameRow, isOpen⟩
  · obtain ⟨target, terminalPartial, restored, app⟩ := step_of_accepts_command hcmd acc
    constructor
    · have hp := app.frame.kept call.commandId
      rw [hasRow, Option.isSome_some] at hp
      exact Option.isSome_iff_exists.mp hp
    · refine ⟨_, (app.commands _).trans (if_pos rfl), fun inHeld => ?_⟩
      obtain ⟨same, src⟩ := app.into_held inHeld
      -- the reservations are those of the state before, where the row was open either way
      have heldBefore : Held db call.commandId := by
        rcases src with hin | clears
        · exact held hin
        · exact whileHeld ⟨rfl, clears, acc⟩
      unfold Held
      rwa [same]

/-- Whenever the venue order is live with nothing matched, the reservation is open. -/
def LiveHeld (db : Db) (commandId : String) : Prop :=
  ∀ command, db.commands.find commandId = some command → command.state ∈ [.acked, .postAcked] →
    Held db commandId

instance (db : Db) (commandId : String) : Decidable (LiveHeld db commandId) :=
  decidable_of_iff
    ((db.commands.find commandId).all fun command =>
      command.state ∈ [StateLabel.acked, .postAcked] → Held db commandId)
    (by simp only [LiveHeld, Option.all_eq_true, decide_eq_true_eq])

theorem Covered.liveHeld (cov : Covered db commandId) : LiveHeld db commandId := by
  intro command hf live
  obtain ⟨other, isOther, held⟩ := cov.held
  rw [hf] at isOther
  cases isOther
  have hin : ∀ state ∈ ([.acked, .postAcked] : List CommandState), state ∈ heldStates := by decide
  exact held (hin command.state live)

theorem Covered.run {steps : List Step} (cov : Covered db commandId)
    (whileHeld : ∀ prior step, prior ++ [step] <+: steps →
      step.clears readers (db.run readers prior) commandId → Held (db.run readers prior) commandId)
    {prior : List Step} (hr : prior <+: steps) : Covered (db.run readers prior) commandId := by
  induction prior using List.reverseRecOn with
  | nil => exact cov
  | append_singleton prior step before =>
    rw [Db.run_concat]
    exact (before ((List.prefix_append prior [step]).trans hr)).step (whileHeld prior step hr)

theorem live_order_keeps_collateral_iff {command : Command} {row : Reservation}
    (hcmd : db.commands.find commandId = some command)
    (hasRow : db.reservations.find commandId = some row) (act : row.releasedAt = none)
    (steps : List Step) :
    (∀ prior, prior <+: steps → LiveHeld (db.run readers prior) commandId) ↔
      ∀ prior step, prior ++ [step] <+: steps →
        step.clears readers (db.run readers prior) commandId →
        Held (db.run readers prior) commandId := by
  constructor
  · intro always prior step hr clears
    cases step with
    | appendEvent call =>
      obtain ⟨own, isClearance, acc⟩ := clears
      obtain ⟨before, target, terminalPartial, restored, app⟩ := step_of_accepts acc
      have isAcked := app.clearance_state isClearance
      obtain ⟨same, -⟩ := app.into_held (by rw [isAcked]; decide)
      have live := always _ hr
      rw [Db.run_concat] at live
      have held := live _ ((app.commands commandId).trans (if_pos own.symm))
        (by change stateAfterCall _ _ _ ∈ _; rw [isAcked]; decide)
      unfold Held at held
      rwa [same] at held
    | _ => cases clears
  · intro whileHeld prior hr
    have cov : Covered db commandId :=
      ⟨⟨row, hasRow⟩, command, hcmd, fun _ => ⟨row, hasRow, act⟩⟩
    exact (cov.run whileHeld hr).liveHeld

def orderNotFound (eventId : String) : Step :=
  .appendEvent (sampleCall eventId .reviewRequired
    { members := [("reason", .str "recovery_order_not_found_at_venue")] })

def liveClearance (eventId : String) : Step :=
  .appendEvent (sampleCall eventId .reviewClearedVenueOrderLive {
    members := [
      ("reason", .str "review_cleared_venue_order_live"), ("command_id", .str "cmd-1"),
      ("proof_class", .str LiveProofClass.boundEntry.text),
      ("side_effect_boundary_crossed", .bool true), ("sdk_submit_attempted", .bool true)]
    requiredPredicates :=
      some (LiveProofClass.boundEntry.requiredTrue.map fun predicate =>
          (predicate.text, .bool true))
    venueOrderLiveProof := some {
      members := [
        ("source", .str LiveProofClass.boundEntry.proofSource),
        ("observed_at", .str "2026-09-18T12:01:00+00:00"), ("venue_order_id", .str "ord-1"),
        ("point_order_status", .str "LIVE")] }
    sourceProof := some [
      ("source_function", .str "operator_review"),
      ("source_reason", .str LiveProofClass.boundEntry.text)] })

/-- A clearance of an order that was acknowledged and then looked for. -/
def reviewedLive : List Step := [acknowledgement, orderNotFound "evt-4", liveClearance "evt-5"]

theorem live_order_keeps_collateral_sample :
    ((Db.empty.run sampleReaders (submission ++ reviewedLive)).eventsOf "cmd-1").length = 5 ∧
      ∀ prior, prior <+: reviewedLive →
      LiveHeld ((Db.empty.run sampleReaders submission).run sampleReaders prior) "cmd-1" := by
  obtain ⟨always, someCommand, evs⟩ : (∀ prior ∈ reviewedLive.inits,
          Held ((Db.empty.run sampleReaders submission).run sampleReaders prior) "cmd-1") ∧
        ((Db.empty.run sampleReaders submission).commands.find "cmd-1").isSome = true ∧
        ((Db.empty.run sampleReaders (submission ++ reviewedLive)).eventsOf "cmd-1").length =
          5 := by
    decide +kernel
  obtain ⟨row, hasRow, act⟩ := always [] (by simp)
  obtain ⟨command, hcmd⟩ := Option.isSome_iff_exists.mp someCommand
  refine ⟨evs, (live_order_keeps_collateral_iff hcmd hasRow act reviewedLive).mpr ?_⟩
  intro prior step hr _
  exact always prior ((List.mem_inits _ _).mpr ((List.prefix_append prior [step]).trans hr))

/-- The command is recorded as filled in between, which closes the reservation. -/
def reopening : List Step :=
  [acknowledgement, .appendEvent (sampleCall "evt-4" .fillConfirmed {}), orderNotFound "evt-5",
    liveClearance "evt-6"]

theorem cleared_order_without_collateral :
    Held (Db.empty.run sampleReaders submission) "cmd-1" ∧
    ((Db.empty.run sampleReaders (submission ++ reopening)).eventsOf "cmd-1").map
      CommandEvent.stateAfter =
      [.intentCreated, .submitting, .acked, .filled, .reviewRequired, .acked] ∧
    ¬ LiveHeld (Db.empty.run sampleReaders (submission ++ reopening)) "cmd-1" := by
  decide +kernel

def IsCancelled (db : Db) (commandId : String) : Prop :=
  ∃ command, db.commands.find commandId = some command ∧ command.state = .cancelled

instance (db : Db) (commandId : String) : Decidable (IsCancelled db commandId) :=
  decidable_of_iff ((db.commands.find commandId).any fun command => command.state = .cancelled)
    (by simp [IsCancelled, Option.any_eq_true])

structure Cancelled (db : Db) (commandId : String) (row : Reservation) : Prop where
  state : IsCancelled db commandId
  stored : db.reservations.find commandId = some row
  closed : row.releasedAt ≠ none

theorem transitions_of_cancel :
    ∀ row ∈ transitions, row.1.2 = .cancelAcked →
      row.1.1 ∉ lateFillStates ∧ row.2 = .cancelled := by
  decide

theorem transitions_from_cancelled :
    ∀ row ∈ transitions, row.1.1 = .cancelled → row.2 ≠ .cancelled := by
  decide

theorem genuineCancelFill_skips (genuine : genuineCancelFill call.eventType call.payload)
    (curSt : CommandState) : restoresCollateral curSt call = false := by
  obtain ⟨pl, isPayload, why⟩ := (Option.any_eq_true _ _).mp genuine.2
  have isText : (pl.get "reason").orEmpty = genuineCancelReason := by
    have same : (pl.get "reason").eqClass = .text genuineCancelReason := of_decide_eq_true why
    cases v : pl.get "reason" <;> rw [v] at same <;> cases same
    rfl
  simp [restoresCollateral, isPayload, isText]

section
variable {call : Call} {command : Command} {target : CommandState} {terminalPartial : Bool}
  {restored after : Db}

theorem Appended.cancelled_reservations
    (app : Appended db call command target terminalPartial restored after)
    (skipped : restoresCollateral command.state call = false)
    (ends : stateAfterCall command.state target call = .cancelled) :
    after.reservations =
      (convertReservationOnFill db.ledger call.commandId .cancelled call.now).2.reservations := by
  have disp : terminalDispatch call.commandId .cancelled terminalPartial call.now =
      some (.convert call.commandId .cancelled call.now) := by
    unfold terminalDispatch
    rw [if_pos (.inl (by decide)), if_pos (.inr (by decide))]
  rw [app.reservations, settledLedger, ends, disp, app.restores.eq_of_skipped skipped]
  rfl

/-- The table leads out of `CANCELLED`, so a call that stays there is a fill after a genuine
cancel. -/
theorem Appended.genuine_of_stays
    (app : Appended db call command target terminalPartial restored after)
    (was : command.state = .cancelled)
    (stays : stateAfterCall command.state target call = .cancelled) :
    genuineCancelFill call.eventType call.payload := by
  by_contra other
  have isTarget : stateAfterCall command.state target call = target :=
    if_neg fun kept => other kept.2
  rw [isTarget] at stays
  exact transitions_from_cancelled _ (mem_transitions app.legal) was stays
end

theorem Cancelled.accepted (canc : Cancelled db call.commandId row)
    (acc : accepts readers db call = true)
    (genuine : genuineCancelFill call.eventType call.payload) :
    Cancelled (db.step readers (.appendEvent call)) call.commandId row := by
  obtain ⟨command, hcmd, isCanc⟩ := canc.state
  obtain ⟨target, terminalPartial, restored, app⟩ := step_of_accepts_command hcmd acc
  have kept : stateAfterCall command.state target call = .cancelled := if_pos ⟨isCanc, genuine⟩
  refine ⟨⟨_, (app.commands _).trans (if_pos rfl), kept⟩, ?_, canc.closed⟩
  rw [app.cancelled_reservations (genuineCancelFill_skips genuine _) kept, convert_of_closed]
  · exact canc.stored
  · intro other isOther
    have same : other = row := Option.some.inj (isOther.symm.trans canc.stored)
    rw [same]
    exact canc.closed

theorem Cancelled.step (canc : Cancelled db commandId row) {step : Step}
    (stays : IsCancelled (db.step readers step) commandId) :
    Cancelled (db.step readers step) commandId row := by
  obtain ⟨command, hcmd, isCanc⟩ := canc.state
  rcases step_cases readers hcmd canc.stored step with ⟨-, sameRow⟩ | ⟨call, rfl, rfl, acc⟩
  · exact ⟨stays, sameRow, canc.closed⟩
  · obtain ⟨target, _, _, app⟩ := step_of_accepts_command hcmd acc
    obtain ⟨later, isLater, isStill⟩ := stays
    rw [app.commands, if_pos rfl] at isLater
    cases isLater
    exact canc.accepted acc (app.genuine_of_stays isCanc isStill)

theorem Cancelled.run (canc : Cancelled db commandId row) {steps : List Step}
    (stays : ∀ prior, prior <+: steps → IsCancelled (db.run readers prior) commandId) :
    Cancelled (db.run readers steps) commandId row := by
  induction steps using List.reverseRecOn with
  | nil => exact canc
  | append_singleton steps step before =>
    have still := stays _ List.prefix_rfl
    rw [Db.run_concat] at still ⊢
    refine (before fun prior hr => ?_).step still
    exact stays prior (hr.trans (List.prefix_append steps [step]))

/-- What the cancel leaves in `converted_amount`: the fraction that the facts stored at the cancel
prove, or what an earlier event converted. -/
def cancelConversion (db : Db) (command : Command) (row : Reservation) : ℕ :=
  if row.releasedAt = none then
    filledReservationAmount row.amount command.size (provenFilledSize db.ledger row.commandId)
  else row.convertedAmount

theorem convertedNow_ledger (hcmd : db.commands.find row.commandId = some command) :
    convertedNow db.ledger row =
      filledReservationAmount row.amount command.size
        (provenFilledSize db.ledger row.commandId) := by
  have inLedger : db.ledger.venueCommands.find row.commandId = some command.toVenueCommand := by
    have projected :=
      KeyedTable.find_map db.commands Command.toVenueCommand (fun _ => rfl) row.commandId
    rwa [hcmd] at projected
  rw [convertedNow, inLedger]
  rfl

theorem Cancelled.of_cancel (hcmd : db.commands.find call.commandId = some command)
    (hasRow : db.reservations.find call.commandId = some row)
    (isCancel : call.eventType = .cancelAcked) (acc : accepts readers db call = true) :
    ∃ hcl, Cancelled (db.step readers (.appendEvent call)) call.commandId hcl ∧
      hcl.convertedAmount = cancelConversion db command row := by
  obtain ⟨target, terminalPartial, restored, app⟩ := step_of_accepts_command hcmd acc
  obtain ⟨notLate, isCanc⟩ := transitions_of_cancel _ (mem_transitions app.legal) isCancel
  have ends : stateAfterCall command.state target call = .cancelled := by
    unfold stateAfterCall
    rw [if_neg (by simp [genuineCancelFill, isCancel])]
    exact isCanc
  have skipped : restoresCollateral command.state call = false := by
    simp [restoresCollateral, terminalLateFill, notLate]
  have state : IsCancelled (db.step readers (.appendEvent call)) call.commandId :=
    ⟨_, (app.commands _).trans (if_pos rfl), ends⟩
  have sameId : row.commandId = call.commandId := (KeyedTable.find_some hasRow).2
  have reservations := app.cancelled_reservations skipped ends
  rcases convert_cases db.ledger call.commandId .cancelled call.now with
    ⟨hcl, unch⟩ | ⟨other, why, isOther, isOpen, changed⟩
  · have wasClosed : row.releasedAt ≠ none := hcl row hasRow
    refine ⟨row, ⟨state, ?_, wasClosed⟩, ?_⟩
    · rw [reservations, unch]
      exact hasRow
    · rw [cancelConversion, if_neg wasClosed]
  · have same : other = row := Option.some.inj (isOther.symm.trans hasRow)
    subst same
    refine ⟨other.convert call.now why (convertedNow db.ledger other),
      ⟨state, ?_, by simp [Reservation.convert]⟩, ?_⟩
    · rw [reservations, changed]
      simp only [KeyedTable.find_modify, if_true]
      rw [isOther, Option.map_some]
    · rw [cancelConversion, if_pos isOpen, ← convertedNow_ledger (by rw [sameId]; exact hcmd)]
      rfl

theorem genuine_cancel_fill_paid_iff {cancel fill : Call} {command : Command} {row : Reservation}
    {steps : List Step} {filled : ℚ} (hcmd : db.commands.find cancel.commandId = some command)
    (hasRow : db.reservations.find cancel.commandId = some row)
    (isCancel : cancel.eventType = .cancelAcked) (cancels : accepts readers db cancel = true)
    (stays : ∀ prior, prior <+: steps →
        IsCancelled (db.run readers (.appendEvent cancel :: prior)) cancel.commandId)
    (own : fill.commandId = cancel.commandId)
    (genuine : genuineCancelFill fill.eventType fill.payload)
    (fills : accepts readers (db.run readers (.appendEvent cancel :: steps)) fill = true)
    (_ : canonicalFilledSize readers fill = some filled) :
    (∃ final,
          (db.run readers (.appendEvent cancel :: steps ++ [.appendEvent fill])).reservations.find
            cancel.commandId = some final ∧
          ⌊row.amount * filled / command.size⌋ ≤ (final.convertedAmount : ℤ)) ↔
      ⌊row.amount * filled / command.size⌋ ≤ (cancelConversion db command row : ℤ) := by
  obtain ⟨hcl, canc, conv⟩ := Cancelled.of_cancel hcmd hasRow isCancel cancels
  have atFill : Cancelled (db.run readers (.appendEvent cancel :: steps)) fill.commandId hcl := by
    rw [own]
    exact canc.run stays
  have committed := atFill.accepted fills genuine
  rw [Db.run_concat, ← own, committed.stored, ← conv]
  simp

def matchedFour : Facts where
  orderFacts := [{
    state := .cancelConfirmed, remainingSize := some 0, matchedSize := some 4, commandId := "cmd-1"
    factId := 1, venueOrderId := "ord-1", source := .rest
    observedAt := "2026-09-18T12:01:00+00:00", localSequence := 1 }]
  tradeFacts := ⟨[{
    tradeFactId := 1, tradeId := "trade-1", venueOrderId := "ord-1", commandId := "cmd-1"
    state := .confirmed, filledSize := 4, fillPrice := 1 / 2, txHash := none, venueTimestamp := none
    observedAt := "2026-09-18T12:00:00+00:00", localSequence := 1, sourceTradeFactId := none
    source := .rest }], by simp, by simp⟩
  executionFacts := []

def cancelRequested : List Step :=
  submission ++ [acknowledgement, .appendEvent (sampleCall "evt-4" .cancelRequested {})]

def cancelAcked : Call := sampleCall "evt-5" .cancelAcked {}

def fillAfterCancel : Call :=
  sampleCall "evt-6" .partialFillObserved {
    members := [
      ("reason", .str genuineCancelReason),
      ("proof_class", .str "terminal_command_late_fill_correction"),
      ("command_id", .str "cmd-1"), ("terminal_state_before", .str "CANCELLED"),
      ("venue_order_id", .str "ord-1"), ("trade_id", .str "trade-1"),
      ("canonical_filled_size", .str "4")]
    requiredPredicates :=
      some (LateFillCategory.genuineCancel.requiredNames.map fun name => (name, .bool true)) }

def factsFirst : Db := Db.empty.run sampleReaders (cancelRequested ++ [.recordFacts matchedFour])

theorem genuine_cancel_fill_paid_sample :
    accepts sampleReaders factsFirst cancelAcked = true ∧
    accepts sampleReaders (factsFirst.run sampleReaders [.appendEvent cancelAcked])
      fillAfterCancel = true ∧
    ∃ final,
      (factsFirst.run sampleReaders
          ([.appendEvent cancelAcked] ++ [.appendEvent fillAfterCancel])).reservations.find
        cancelAcked.commandId = some final ∧
      2000000 ≤ (final.convertedAmount : ℤ) := by
  -- One evaluation of the run for all that is read off it.
  obtain ⟨cancels, fills, still, size, genuine⟩ : accepts sampleReaders factsFirst cancelAcked =
    true ∧
        accepts sampleReaders (factsFirst.run sampleReaders [.appendEvent cancelAcked])
          fillAfterCancel = true ∧
        IsCancelled (factsFirst.run sampleReaders [.appendEvent cancelAcked])
          cancelAcked.commandId ∧
        canonicalFilledSize sampleReaders fillAfterCancel = some 4 ∧
        genuineCancelFill fillAfterCancel.eventType fillAfterCancel.payload := by
    decide +kernel
  have hcmd := (Option.some_get
    (show (factsFirst.commands.find cancelAcked.commandId).isSome = true by decide +kernel)).symm
  have hasRow := (Option.some_get
    (show (factsFirst.reservations.find cancelAcked.commandId).isSome = true
        by decide +kernel)).symm
  have stays : ∀ prior, prior <+: ([] : List Step) →
      IsCancelled (factsFirst.run sampleReaders (.appendEvent cancelAcked :: prior))
        cancelAcked.commandId := by
    intro prior hr
    rw [List.prefix_nil.mp hr]
    exact still
  have own : fillAfterCancel.commandId = cancelAcked.commandId := rfl
  obtain ⟨final, isFinal, paid⟩ :=
    (genuine_cancel_fill_paid_iff hcmd hasRow rfl cancels stays own genuine fills size).mpr
      (by decide +kernel)
  exact ⟨cancels, fills, final, isFinal, le_trans (by decide +kernel) paid⟩

/-- The facts arrive between the cancel and the fill. -/
theorem unconverted_fill_after_cancel : let db := Db.empty.run sampleReaders cancelRequested
    let retired := db.run sampleReaders [.appendEvent cancelAcked, .recordFacts matchedFour]
    accepts sampleReaders db cancelAcked = true ∧
    accepts sampleReaders retired fillAfterCancel = true ∧
      genuineCancelFill fillAfterCancel.eventType fillAfterCancel.payload ∧
      canonicalFilledSize sampleReaders fillAfterCancel = some 4 ∧
      ((retired.step sampleReaders (.appendEvent fillAfterCancel)).reservations.find "cmd-1").map
        (fun row => (row.amount, row.convertedAmount)) = some (5000000, 0) ∧
      0 < ⌊(5000000 * 4 / sampleCommand.size : ℚ)⌋ := by
  decide +kernel

end Zeus.VenueCommands
