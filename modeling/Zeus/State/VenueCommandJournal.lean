import Zeus.State.VenueCommandRepo

/-! `appendEvent_ok` takes an accepted call apart; the rest reads off it. -/

namespace Zeus.VenueCommands

open Refusal Savepoint
open Zeus.Collateral

/-- The late-fill branch of an accepted call: it leaves the database alone, or the restore
succeeded. -/
inductive Restored (db : Db) (currentState : CommandState) (call : Call) : Db → Prop
  | untouched (skipped : restoresCollateral currentState call =
      false) : Restored db currentState call db
  | rebuilt {filledSize : ℚ} {isPartial : Bool} {ledger : Collateral.Db}
      (late : restoresCollateral currentState call = true)
      (succeeds : restoreReservationForLateFill db.ledger call.commandId filledSize isPartial
          call.now =
        (.ok (), ledger)) : Restored db currentState call (db.withLedger ledger)

def settledLedger (commandId : String) (stateAfter : CommandState) (terminalPartial : Bool)
    (now : Time) (ledger : Collateral.Db) : Collateral.Db :=
  (terminalDispatch commandId stateAfter terminalPartial now).elim ledger (next ledger)

def journalled (event : CommandEvent) (provenance : List ProvenanceEvent) (db : Db) : Db :=
  { updateCommand event { db with events := db.events ++ [event] } with provenance := provenance }

/-- Everything an accepted call did to the journal, the command rows and the reservations. -/
structure Appended (db : Db) (call : Call) (command : Command) (target : CommandState)
    (terminalPartial : Bool) (restored after : Db) : Prop where
  found : db.commands.find call.commandId = some command
  legal : transition command.state call.eventType = some target
  partialFill : terminalPartial = true → call.eventType = .partialFillObserved
  restores : Restored db command.state call restored
  events : after.events = db.events ++
    [call.event (nextSequenceNo db call.commandId) (stateAfterCall command.state target call)]
  commands : ∀ k, after.commands.find k =
    if k = call.commandId then some (command.advance (call.event (nextSequenceNo db call.commandId)
      (stateAfterCall command.state target call)))
    else db.commands.find k
  reservations : after.reservations =
    (settledLedger call.commandId (stateAfterCall command.state target call)
    terminalPartial call.now restored.ledger).reservations

variable {db after : Db} {readers : Readers} {currentState : CommandState} {event : CommandEvent}

theorem restoreForLateFill_ok {call : Call} {latePartial : Bool} {restored : Db} {u : PUnit}
    (done : restoreForLateFill readers currentState call latePartial db = .ok u restored) :
    Restored db currentState call restored := by
  unfold restoreForLateFill at done
  split at done <;> rename_i late
  · split at done
    · cases done
    · rename_i fsize _
      split at done <;> rename_i ledger result <;> cases done
      exact .rebuilt late result
  · cases done
    exact .untouched (by simpa using late)

theorem Restored.tables {restored : Db} {call : Call}
    (restores : Restored db currentState call restored) :
    restored.events = db.events ∧ restored.commands = db.commands := by
  cases restores with
  | untouched => exact ⟨rfl, rfl⟩
  | rebuilt => exact ⟨rfl, rfl⟩

theorem Restored.eq_of_skipped {restored : Db} {call : Call}
    (restores : Restored db currentState call restored)
    (skipped : restoresCollateral currentState call = false) : restored = db := by
  cases restores with
  | untouched => rfl
  | rebuilt late =>
    rw [skipped] at late
    cases late

theorem insertEvent_ok (inserted : insertEvent event db = .ok after) :
    after = { db with events := db.events ++ [event] } := by
  unfold insertEvent at inserted
  split at inserted <;> cases inserted
  rfl

theorem appendCommandProvenanceEvent_ok
    (appended : appendCommandProvenanceEvent event db = .ok after) :
    ∃ provenance, after = { db with provenance := provenance } := by
  unfold appendCommandProvenanceEvent at appended
  dsimp only at appended
  split at appended
  · cases appended
  · split at appended <;> cases appended
    exact ⟨_, rfl⟩

theorem settleTerminal_eq (cid : String) (stateAfter : CommandState) (terminalPartial : Bool)
    (now : Time) (db : Db) : ∃ mutexes, settleTerminal cid stateAfter terminalPartial now db =
      { db.withLedger (settledLedger cid stateAfter terminalPartial now db.ledger) with
        exitMutexes := mutexes } := by
  unfold settleTerminal settledLedger
  cases terminalDispatch cid stateAfter terminalPartial now with
  | some op =>
    unfold releaseExitMutexForCommandState
    dsimp only
    split <;> exact ⟨_, rfl⟩
  | none =>
    dsimp only
    split
    · unfold releaseExitMutexForCommandState
      split <;> exact ⟨_, rfl⟩
    · exact ⟨_, rfl⟩

theorem ledger_journalled (event : CommandEvent) (prov : List ProvenanceEvent) (db : Db) :
    (journalled event prov db).ledger = db.ledger := by
  simp only [Db.ledger, journalled, updateCommand]
  congr 1
  exact KeyedTable.map_modify _ _ _ _ _ _ fun _ => rfl

theorem appendEvent_ok {call : Call} {eventId : String}
    (accepted : appendEvent readers call db = .ok eventId after) :
    ∃ command target terminalPartial restored,
      Appended db call command target terminalPartial restored after := by
  unfold appendEvent at accepted
  rw [savepoint_eq_ok] at accepted
  obtain ⟨command, found, accepted⟩ := select_bind_eq_ok.mp accepted
  obtain ⟨target, legal, accepted⟩ := select_bind_eq_ok.mp accepted
  obtain ⟨_, -, accepted⟩ := select_bind_eq_ok.mp accepted
  obtain ⟨latePartial, -, accepted⟩ := select_bind_eq_ok.mp accepted
  obtain ⟨terminalPartial, verdict, accepted⟩ := select_bind_eq_ok.mp accepted
  obtain ⟨_, -, accepted⟩ := select_bind_eq_ok.mp accepted
  obtain ⟨_, restored, restoring, accepted⟩ := bind_eq_ok.mp accepted
  obtain ⟨sequenceNo, numbered, accepted⟩ := select_bind_eq_ok.mp accepted
  obtain ⟨_, inserted, inserting, accepted⟩ := bind_eq_ok.mp accepted
  obtain ⟨_, updated, updating, accepted⟩ := bind_eq_ok.mp accepted
  obtain ⟨_, proven, proving, accepted⟩ := bind_eq_ok.mp accepted
  obtain ⟨_, settled, settling, accepted⟩ := bind_eq_ok.mp accepted
  obtain ⟨-, rfl⟩ := pure_eq_ok.mp accepted
  rw [write_eq_ok] at inserting updating proving settling
  have restores := restoreForLateFill_ok restoring
  obtain ⟨sameEvents, sameCommands⟩ := restores.tables
  have number : sequenceNo = nextSequenceNo db call.commandId := by
    have read := (Except.ok.inj numbered).symm
    rwa [nextSequenceNo, sameEvents] at read
  subst number
  obtain ⟨provenance, wasProven⟩ := appendCommandProvenanceEvent_ok proving
  obtain ⟨mutexes, wasSettled⟩ := settleTerminal_eq call.commandId
    (stateAfterCall command.state target call) terminalPartial call.now proven
  rw [← Except.ok.inj updating, insertEvent_ok inserting] at wasProven
  change proven = journalled _ provenance restored at wasProven
  have isAfter := (Except.ok.inj settling).symm.trans wasSettled
  have found := elim_eq_ok.mp found
  refine ⟨command, target, terminalPartial, restored, found, elim_eq_ok.mp legal, ?_, restores, ?_,
    ?_, ?_⟩
  · intro isPartial
    rw [isPartial] at verdict
    exact terminalPartial_eventType (mapError_eq_ok.mp verdict)
  · rw [isAfter, wasProven]
    change restored.events ++ _ = _
    rw [sameEvents]
  · intro k
    rw [isAfter, wasProven]
    simp only [Db.withLedger, journalled, updateCommand, KeyedTable.find_modify, sameCommands]
    change (if k = call.commandId then _ else _) = _
    split <;> rename_i own
    · rw [own, found]
      rfl
    · rfl
  · rw [isAfter, wasProven, ledger_journalled]
    rfl

structure Created (db : Db) (new : NewCommand) (after : Db) : Prop where
  fresh : db.commands.find new.commandId = none
  events : after.events = db.events ++ [new.event]
  commands : ∀ k, after.commands.find k =
    if k = new.commandId then some (new.row.begin new.event) else db.commands.find k
  reservations : after.reservations = db.reservations

theorem createCommand_ok {new : NewCommand} {u : PUnit}
    (created : createCommand new db = .ok u after) : Created db new after := by
  unfold createCommand at created
  rw [savepoint_eq_ok] at created
  obtain ⟨_, -, created⟩ := select_bind_eq_ok.mp created
  obtain ⟨_, withRow, inserting, created⟩ := bind_eq_ok.mp created
  obtain ⟨_, withEvent, journalling, created⟩ := bind_eq_ok.mp created
  obtain ⟨_, begun, beginning, proving⟩ := bind_eq_ok.mp created
  rw [write_eq_ok] at inserting journalling beginning proving
  obtain ⟨provenance, rfl⟩ := appendCommandProvenanceEvent_ok proving
  cases beginning
  obtain rfl := insertEvent_ok journalling
  cases inserted : db.commands.tryInsert new.row with
  | none =>
    rw [inserted] at inserting
    cases inserting
  | some commands =>
    rw [inserted] at inserting
    cases inserting
    obtain ⟨fresh, -⟩ := KeyedTable.tryInsert_eq_some_iff.mp inserted
    refine ⟨fresh, rfl, ?_, rfl⟩
    intro k
    have sameKey : new.row.key = new.commandId := rfl
    simp only [KeyedTable.find_modify, KeyedTable.find_tryInsert inserted, sameKey]
    by_cases own : k = new.commandId
    · rw [if_pos own, if_pos own.symm, if_pos own]
      rfl
    · rw [if_neg own, if_neg (Ne.symm own), if_neg own]

theorem reserve_find {ledger : Collateral.Db} {op : Op} {cid : String}
    (rsv : (∃ amt now, op = .reservePusd cid amt now) ∨
      ∃ tid size now, op = .reserveTokens cid tid size now) (k : String) :
    (next ledger op).reservations.find k = ledger.reservations.find k ∨
    (ledger.reservations.find k = none ∧ k = cid) := by
  have inserted : ∀ {kind amt now after}, insertReservation ledger cid kind amt now = some after →
      after.reservations.find k = ledger.reservations.find k ∨
        (ledger.reservations.find k = none ∧ k = cid) := by
    intro kind amt now after hw
    obtain ⟨-, table, tried, rfl⟩ := insertReservation_eq_some hw
    obtain ⟨fresh, -⟩ := KeyedTable.tryInsert_eq_some_iff.mp tried
    rw [KeyedTable.find_tryInsert tried]
    split <;> rename_i own
    · subst own
      exact .inr ⟨fresh, rfl⟩
    · exact .inl rfl
  have effect := next_effect ledger op
  generalize next ledger op = after at effect
  rcases rsv with ⟨amt, now, rfl⟩ | ⟨tid, size, now, rfl⟩
  · cases effect with
    | refused => exact .inl rfl
    | reservedPusd _ _ hw => exact inserted hw
  · cases effect with
    | refused => exact .inl rfl
    | reservedTokens hw => exact inserted hw

theorem snapshot_reservations (ledger : Collateral.Db) (snap : CollateralSnapshot) :
    (next ledger (.snapshot snap)).reservations = ledger.reservations := by
  have effect := next_effect ledger (.snapshot snap)
  generalize next ledger (.snapshot snap) = after at effect
  cases effect with
  | refused | recorded | matured => rfl

/-- The event continues from the one before it: by the transition table, except that a fill after a
genuine cancel keeps `CANCELLED`. -/
def Follows (previous event : CommandEvent) : Prop :=
  let kept := previous.stateAfter = .cancelled ∧ genuineCancelFill event.eventType event.payload
  (kept ∧ event.stateAfter = .cancelled) ∨
    (¬kept ∧ transition previous.stateAfter event.eventType = some event.stateAfter)

structure JournalHolds (db : Db) : Prop where
  numbered : Journal.Numbered CommandEvent.commandId CommandEvent.sequenceNo db.events
  linked : ∀ k, (db.eventsOf k).IsChain Follows
  shown : ∀ k command, db.commands.find k = some command →
    ∃ last, (db.eventsOf k).getLast? = some last ∧
    command.state = last.stateAfter ∧
    command.lastEventId = some last.eventId
  owned : ∀ k, db.commands.find k = none → db.eventsOf k = []
  closed : ∀ k command row, db.commands.find k = some command → command.state ∈ terminalStates →
    db.reservations.find k = some row → row.releasedAt ≠ none
  reserved : ∀ k row, db.reservations.find k = some row →
    ∃ command, db.commands.find k = some command

theorem JournalHolds.empty : JournalHolds .empty where
  numbered := fun _ => rfl
  linked _ := List.isChain_nil
  shown _ _ found := by cases found
  owned _ _ := rfl
  closed _ _ _ found := by cases found
  reserved _ _ found := by cases found

theorem JournalHolds.of_tables (holds : JournalHolds db) (evs : after.events = db.events)
    (cmds : after.commands = db.commands)
      (reservations : ∀ k row, after.reservations.find k = some row →
      db.reservations.find k = some row ∨
      ∃ command, db.commands.find k = some command ∧
        command.state ∉ terminalStates) : JournalHolds after where
  numbered := by
    rw [evs]
    exact holds.numbered
  linked k := by
    rw [Db.eventsOf, evs]
    exact holds.linked k
  shown k command hf := by
    rw [cmds] at hf
    rw [Db.eventsOf, evs]
    exact holds.shown k command hf
  owned k absent := by
    rw [cmds] at absent
    rw [Db.eventsOf, evs]
    exact holds.owned k absent
  closed k command row hf terminal stored := by
    rw [cmds] at hf
    rcases reservations k row stored with old | ⟨other, isOther, early⟩
    · exact holds.closed k command row hf terminal old
    · rw [hf] at isOther
      cases isOther
      exact absurd terminal early
  reserved k row stored := by
    rw [cmds]
    rcases reservations k row stored with old | ⟨command, hf, -⟩
    · exact holds.reserved k row old
    · exact ⟨command, hf⟩

structure Recorded (db after : Db) (event : CommandEvent) (row : Command) : Prop where
  events : after.events = db.events ++ [event]
  commands : ∀ k,
    after.commands.find k = if k = event.commandId then some row else db.commands.find k
  others : ∀ k, k ≠ event.commandId → after.reservations.find k = db.reservations.find k
  state : row.state = event.stateAfter
  lastEventId : row.lastEventId = some event.eventId

theorem Recorded.eventsOf {row : Command} (hrec : Recorded db after event row) (k : String) :
    after.eventsOf k = if event.commandId = k then db.eventsOf k ++ [event] else db.eventsOf k := by
  rw [Db.eventsOf, hrec.events]
  exact Journal.ofKey_concat

theorem JournalHolds.recorded {row : Command} (holds : JournalHolds db)
    (hrec : Recorded db after event row)
    (next : event.sequenceNo = nextSequenceNo db event.commandId)
    (hfo : ∀ last, (db.eventsOf event.commandId).getLast? = some last → Follows last event)
    (closes : row.state ∈ terminalStates →
      ∀ resv, after.reservations.find event.commandId = some resv → resv.releasedAt ≠ none) :
    JournalHolds after := by
  constructor
  case numbered =>
    rw [hrec.events]
    exact holds.numbered.concat next
  case linked =>
    intro k
    rw [Db.eventsOf, hrec.events]
    exact Journal.isChain_ofKey_concat (holds.linked k) hfo
  case shown =>
    intro k command hf
    rw [hrec.commands] at hf
    rw [hrec.eventsOf]
    split at hf <;> rename_i own
    · cases hf
      rw [if_pos own.symm, List.getLast?_concat]
      exact ⟨event, rfl, hrec.state, hrec.lastEventId⟩
    · rw [if_neg (Ne.symm own)]
      exact holds.shown k command hf
  case owned =>
    intro k hab
    rw [hrec.commands] at hab
    split at hab <;> rename_i own
    · cases hab
    · rw [hrec.eventsOf, if_neg (Ne.symm own)]
      exact holds.owned k hab
  case closed =>
    intro k command resv hf hterm hs
    rw [hrec.commands] at hf
    split at hf <;> rename_i own
    · cases hf
      subst own
      exact closes hterm resv hs
    · rw [hrec.others k own] at hs
      exact holds.closed k command resv hf hterm hs
  case reserved =>
    intro k resv hs
    rw [hrec.commands]
    split <;> rename_i own
    · exact ⟨row, rfl⟩
    · rw [hrec.others k own] at hs
      exact holds.reserved k resv hs

theorem JournalHolds.created {new : NewCommand} (holds : JournalHolds db)
    (created : Created db new after) : JournalHolds after := by
  have none_yet : db.eventsOf new.commandId = [] := holds.owned _ created.fresh
  have hrec : Recorded db after new.event (new.row.begin new.event) :=
    ⟨created.events, created.commands, fun k _ => by rw [created.reservations], rfl, rfl⟩
  refine holds.recorded hrec ?_ ?_ ?_
  · rw [nextSequenceNo, holds.numbered.nextNumber_eq]
    change 1 = (db.eventsOf new.commandId).length + 1
    rw [none_yet]
    rfl
  · intro last isLast
    change (db.eventsOf new.commandId).getLast? = some last at isLast
    rw [none_yet] at isLast
    cases isLast
  · -- a command that was not there has no reservation
    intro _ resv hs
    rw [created.reservations] at hs
    obtain ⟨command, hf⟩ := holds.reserved _ resv hs
    exact absurd (created.fresh.symm.trans hf) (by simp)

section
variable {db restored after : Db} {call : Call} {command : Command} {target : CommandState}
  {terminalPartial : Bool}

theorem Restored.frame {currentState : CommandState}
    (restores : Restored db currentState call restored) :
    ReservationFrame call.commandId db.reservations restored.reservations := by
  cases restores with
  | untouched => exact .refl _ _
  | rebuilt _ ok => exact restore_frame ok

theorem settledLedger_frame (cid : String) (stateAfter : CommandState) (terminalPartial : Bool)
    (now : Time) (ledger : Collateral.Db) :
    ReservationFrame cid ledger.reservations
      (settledLedger cid stateAfter terminalPartial now ledger).reservations := by
  unfold settledLedger
  cases disp : terminalDispatch cid stateAfter terminalPartial now with
  | none => exact .refl _ _
  | some op => exact terminalDispatch_frame disp ledger

section
variable (appended : Appended db call command target terminalPartial restored after)

include appended

theorem Appended.frame : ReservationFrame call.commandId db.reservations after.reservations := by
  rw [appended.reservations]
  exact appended.restores.frame.trans
    (settledLedger_frame _ (stateAfterCall command.state target call) terminalPartial call.now
        restored.ledger)

theorem Appended.closes (hterm : stateAfterCall command.state target call ∈ terminalStates)
    {row : Reservation} (hs : after.reservations.find call.commandId = some row) :
    row.releasedAt ≠ none := by
  rw [appended.reservations] at hs
  unfold settledLedger at hs
  cases disp : terminalDispatch call.commandId (stateAfterCall command.state target call)
    terminalPartial
      call.now with
  | none =>
    unfold terminalDispatch at disp
    rw [if_pos (.inl hterm)] at disp
    split at disp <;> cases disp
  | some op =>
    rw [disp] at hs
    exact terminalDispatch_closes disp hs

theorem Appended.follows (holds : JournalHolds db) {last : CommandEvent}
    (isLast : (db.eventsOf call.commandId).getLast? = some last) (sequenceNo : ℕ) :
    Follows last (call.event sequenceNo (stateAfterCall command.state target call)) := by
  obtain ⟨shown, isShown, sameState, -⟩ := holds.shown _ _ appended.found
  rw [isLast] at isShown
  cases isShown
  simp only [Follows, ← sameState]
  by_cases kept : command.state = .cancelled ∧ genuineCancelFill call.eventType call.payload
  · exact .inl ⟨kept, if_pos kept⟩
  · refine .inr ⟨kept, appended.legal.trans ?_⟩
    simp only [Call.event, stateAfterCall, if_neg kept]

theorem Appended.recorded :
    Recorded db after
      (call.event (nextSequenceNo db call.commandId) (stateAfterCall command.state target call))
      (command.advance (call.event (nextSequenceNo db call.commandId)
            (stateAfterCall command.state target call))) :=
  ⟨appended.events, appended.commands, appended.frame.other, rfl, rfl⟩
end

theorem JournalHolds.appended (holds : JournalHolds db)
    (appended : Appended db call command target terminalPartial restored after) :
    JournalHolds after := by
  refine holds.recorded appended.recorded rfl ?_ ?_
  · intro last isLast
    exact appended.follows holds isLast _
  · intro hterm resv hs
    exact appended.closes hterm hs
end

/-- A reservation is created for a command that has not ended. -/
def Step.reservesOpen (db : Db) : Step → Bool
  | .reservePusd commandId _ _ | .reserveTokens commandId _ _ _ =>
    (db.commands.find commandId).any fun command => !terminalStates.contains command.state
  | _ => true

def reservesOpen (readers : Readers) (db : Db) : List Step → Bool
  | [] => true
  | step :: steps => step.reservesOpen db && reservesOpen readers (db.step readers step) steps

theorem JournalHolds.step {step : Step} (holds : JournalHolds db)
    (early : step.reservesOpen db = true) : JournalHolds (db.step readers step) := by
  have resvg : ∀ {op commandId}, ((∃ amt now, op = .reservePusd commandId amt now) ∨
      ∃ tid size now, op = .reserveTokens commandId tid size now) →
      ((db.commands.find commandId).any fun command => !terminalStates.contains command.state) =
        true →
      JournalHolds (db.withLedger (next db.ledger op)) := by
    intro op commandId rsv early
    obtain ⟨command, hf, notTerm⟩ := (Option.any_eq_true _ _).mp early
    refine holds.of_tables rfl rfl ?_
    intro k row hs
    rcases reserve_find rsv k with same | ⟨-, rfl⟩
    · exact .inl (same.symm.trans hs)
    · exact .inr ⟨command, hf, by simpa using notTerm⟩
  cases step with
  | createCommand new =>
    change JournalHolds (Savepoint.stateAfter (VenueCommands.createCommand new) db)
    unfold VenueCommands.createCommand
    rcases stateAfter_savepoint_cases _ db with unch | ⟨u, created⟩
    · rw [unch]
      exact holds
    · exact holds.created (createCommand_ok created)
  | reservePusd commandId amt now => exact resvg (.inl ⟨amt, now, rfl⟩) early
  | reserveTokens commandId tid size now => exact resvg (.inr ⟨tid, size, now, rfl⟩) early
  | recordSnapshot snap =>
    refine holds.of_tables rfl rfl fun k row hs => .inl ?_
    change (next db.ledger (.snapshot snap)).reservations.find k = some row at hs
    rwa [snapshot_reservations] at hs
  | recordFacts facts => exact holds.of_tables rfl rfl fun _ _ hs => .inl hs
  | holdMutexes holdings => exact holds.of_tables rfl rfl fun _ _ hs => .inl hs
  | appendEvent call =>
    change JournalHolds (Savepoint.stateAfter (VenueCommands.appendEvent readers call) db)
    unfold VenueCommands.appendEvent
    rcases stateAfter_savepoint_cases _ db with unch | ⟨eid, acc⟩
    · rw [unch]
      exact holds
    · obtain ⟨_, _, _, _, appended⟩ := appendEvent_ok acc
      exact holds.appended appended

theorem JournalHolds.run {steps : List Step} (holds : JournalHolds db)
    (early : reservesOpen readers db steps = true) : JournalHolds (db.run readers steps) := by
  induction steps generalizing db with
  | nil => exact holds
  | cons step steps rest =>
    obtain ⟨first, later⟩ := Bool.and_eq_true_iff.mp early
    exact rest (holds.step first) later

theorem command_row_is_journal_fold {readers : Readers} {steps : List Step}
    (early : reservesOpen readers .empty steps = true) (cid : String) :
    let db := Db.empty.run readers steps
    (db.eventsOf cid).map CommandEvent.sequenceNo = List.range' 1 (db.eventsOf cid).length ∧
      (db.eventsOf cid).IsChain Follows ∧
      (∀ command, db.commands.find cid = some command →
        (∃ last, (db.eventsOf cid).getLast? = some last ∧ command.state = last.stateAfter ∧
          command.lastEventId = some last.eventId) ∧
        (command.state ∈ terminalStates →
          ∀ row, db.reservations.find cid = some row → row.releasedAt ≠ none)) ∧
      (∀ call eid after, appendEvent readers call db = .ok eid after → call.commandId = cid →
        ∃ event command, after.eventsOf cid = db.eventsOf cid ++ [event] ∧
          event.eventId = call.eventId ∧
          event.eventType = call.eventType ∧
          after.commands.find cid = some command ∧
          command.state = event.stateAfter ∧
          command.lastEventId = some event.eventId) ∧
      ∀ call error after, appendEvent readers call db = .error error after → after = db := by
  intro db
  have holds : JournalHolds db := JournalHolds.empty.run early
  refine ⟨holds.numbered cid, holds.linked cid, ?_, ?_, ?_⟩
  · intro command hf
    exact ⟨holds.shown cid command hf, fun hterm row => holds.closed cid command row hf hterm⟩
  · intro call eid after acc own
    obtain ⟨command, target, _, _, appended⟩ := appendEvent_ok acc
    refine ⟨_, _, ?_, rfl, rfl, (appended.commands cid).trans (if_pos own.symm), rfl, rfl⟩
    exact (appended.recorded.eventsOf cid).trans (if_pos own)
  · intro call error after raised
    unfold appendEvent at raised
    exact savepoint_raised raised

def sampleReaders : Readers where
  parseDecimal text := [("10", 10), ("4", 4)].lookup text
  parseUtc text :=
    [("2026-09-18T12:00:00+00:00", 0), ("2026-09-18T12:01:00+00:00", 60000000)].lookup text

def sampleCommand : NewCommand where
  commandId := "cmd-1"
  intentKind := .entry
  side := .buy
  size := 10
  price := 1 / 2
  tokenId := "tok-1"
  eventId := "evt-1"
  createdAt := "2026-09-18T12:00:00+00:00"

def sampleCall (eventId : String) (eventType : CommandEventType) (payload : Payload) : Call where
  commandId := "cmd-1"
  eventType := eventType
  occurredAt := "2026-09-18T12:00:00+00:00"
  payload := some payload
  eventId := eventId
  now := 0

def sampleCapability : ExecutionCapability where
  allowed := .bool true
  components := some [
    { component := .str "entry_economics", allowed := .bool true
      details := some (entrySubmitEconomicsDetailFields.map fun field => (field, .int 1)) },
    { component := .str "entry_actionable_certificate", allowed := .bool true, details := none }]

def submission : List Step := [
  .recordSnapshot {
    pusdBalanceMicro := 20000000, pusdAllowanceMicro := 20000000, ctfTokenBalances := []
    ctfTokenAllowances := [], capturedAt := 0, authorityTier := .chain },
  .createCommand sampleCommand,
  .reservePusd "cmd-1" 5000000 0,
  .appendEvent (sampleCall "evt-2" .submitRequested
      { executionCapability := some sampleCapability })]

def acknowledgement : Step :=
  .appendEvent (sampleCall "evt-3" .submitAcked { members := [("venue_order_id", .str "ord-1")] })

theorem command_row_is_journal_fold_sample :
    let journal := (Db.empty.run sampleReaders (submission ++ [acknowledgement])).eventsOf "cmd-1"
    reservesOpen sampleReaders .empty (submission ++ [acknowledgement]) = true ∧
    journal.length = 3 ∧
      journal.map CommandEvent.sequenceNo = List.range' 1 journal.length := by
  have early : reservesOpen sampleReaders .empty (submission ++ [acknowledgement]) = true := by
    decide +kernel
  exact ⟨early, by decide +kernel, (command_row_is_journal_fold early "cmd-1").1⟩

end Zeus.VenueCommands
