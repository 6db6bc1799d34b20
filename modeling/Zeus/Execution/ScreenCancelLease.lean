import Zeus.Execution.ScreenCancel

/-! `finalize_screen_redecision_cancel_obligation`, and runs of claims and finalizations of one
command by any number of workers. No lock is held between two transactions. -/

namespace Zeus.ScreenCancel

open Zeus.Collateral (Time)
open Refusal
open Zeus.VenueCommands
open Zeus.LiveOrder (Value)

inductive Ending where
  | cancelAcked | cancelReplaceBlocked
  deriving DecidableEq

def Ending.eventType : Ending → CommandEventType
  | .cancelAcked => .cancelAcked
  | .cancelReplaceBlocked => .cancelReplaceBlocked

structure Finalize where
  (commandId venueOrderId attemptId expectedLastEventId : String)
  ending : Ending
  payload : Payload
  now : Time
  (occurredAt eventId : String)
  deadlineBefore : Bool := false
  databaseLocked : Bool := false
  deadlineInside : Bool := false
  deadlineAfter : Bool := false

inductive FinalizeStop where
  | deadlineDeferred | sqliteBusyDeferred | casStale | leaseMismatch | identityMismatch
  deriving DecidableEq

inductive FinalizeOutcome where
  | stopped (stop : FinalizeStop)
  | finalized (eventId : String)
  | raised (error : AppendError)
  deriving DecidableEq

/-- The identity that a lease and the payload of its ending carry; the order id is compared as it
is stored, not as text. -/
def bearsObligation (payload : Payload) (commandId venueOrderId : String) : Bool :=
  decide ((payload.get "schema_version").same (.int 1)) &&
    decide (payload.reads "obligation_id" (obligationId commandId venueOrderId)) &&
    decide (payload.reads "obligation_kind" "screen_redecision_cancel_v1") &&
    decide (payload.reads "owner" "command_recovery") &&
      decide (payload.reads "venue_order_id" venueOrderId)

def lease (event : CommandEvent) : Payload := event.payload.getD {}

def Finalize.call (finalize : Finalize) : Call where
  commandId := finalize.commandId
  eventType := finalize.ending.eventType
  occurredAt := finalize.occurredAt
  payload := some finalize.payload
  eventId := finalize.eventId
  now := finalize.now

def finalizePlan (finalize : Finalize) (db : Db) : Except FinalizeStop Call := do
  let command ← (db.commands.find finalize.commandId).elim (.error .casStale) .ok
  guardBy (require (command.state = .cancelPending ∧
    command.lastEventId.getD "" = finalize.expectedLastEventId) .casStale)
  let latest ← (db.latestEvent finalize.commandId fun _ => true).elim (.error .leaseMismatch) .ok
  guardBy (require (latest.eventType = .cancelDispatchStarted) .leaseMismatch)
  guardBy (require (bearsObligation (lease latest) finalize.commandId finalize.venueOrderId = true ∧
    (lease latest).reads "attempt_id" finalize.attemptId) .identityMismatch)
  guardBy (require (bearsObligation finalize.payload finalize.commandId finalize.venueOrderId =
        true)
    .identityMismatch)
  return finalize.call

def finalizeScreenRedecisionCancelObligation (readers : Readers) (finalize : Finalize) (db : Db) :
    FinalizeOutcome × Db :=
  if finalize.deadlineBefore then (.stopped .deadlineDeferred, db)
  else if finalize.databaseLocked then (.stopped .sqliteBusyDeferred, db)
  else if finalize.deadlineInside then (.stopped .deadlineDeferred, db)
  else
    match finalizePlan finalize db with
    | .error stop => (.stopped stop, db)
    | .ok call =>
      match appendEvent readers.toReaders call db with
      | .error error _ => (.raised error, db)
      | .ok eventId after =>
        if finalize.deadlineAfter then (.stopped .deadlineDeferred, db)
        else (.finalized eventId, after)

inductive Op where
  | claim (arguments : Claim)
  | finalize (arguments : Finalize)

def Op.commandId : Op → String
  | .claim arguments => arguments.commandId
  | .finalize arguments => arguments.commandId

def transact (readers : Readers) (db : Db) : Op → Db
  | .claim arguments => (claimScreenRedecisionCancelObligation readers arguments db).2
  | .finalize arguments => (finalizeScreenRedecisionCancelObligation readers arguments db).2

def runOps (readers : Readers) (db : Db) (ops : List Op) : Db := ops.foldl (transact readers) db

def isLease (event : CommandEvent) : Bool := event.eventType == .cancelDispatchStarted

def isEnding (event : CommandEvent) : Bool :=
  event.eventType == .cancelAcked || event.eventType == .cancelReplaceBlocked

def leases (db : Db) (commandId : String) : List CommandEvent :=
  (db.eventsOf commandId).filter isLease

def leaseGeneration (event : CommandEvent) : Option ℤ :=
  match (lease event).get "generation" with
  | .int generation => some generation
  | _ => none

def leaseExpired (readers : Readers) (now : Time) (event : CommandEvent) : Bool :=
  isoExpired readers now
    (orElse ((lease event).get "expires_at") ((lease event).get "lease_expires_at"))

def Pending (db : Db) (commandId : String) : Prop :=
  ∃ command, db.commands.find commandId = some command ∧ command.state = .cancelPending

variable {readers : Readers} {db after : Db} {commandId : String} {event : CommandEvent}

/-- A transaction wrote one event of a pending command, and it is the latest one. -/
structure Wrote (db after : Db) (commandId : String) (event : CommandEvent) : Prop where
  pending : Pending db commandId
  eventsOf : after.eventsOf commandId = db.eventsOf commandId ++ [event]
  latest : (after.latestEvent commandId fun _ => true) = some event
  shown : ∃ command, after.commands.find commandId = some command ∧
    transition .cancelPending event.eventType = some command.state

theorem wrote_of_appendEvent {call : Call} {command : Command} {eid : String}
    (hf : db.commands.find call.commandId = some command) (pend : command.state = .cancelPending)
    (ans : appendEvent readers.toReaders call db = .ok eid after) :
    ∃ event, Wrote db after call.commandId event ∧
      event.eventType = call.eventType ∧
      event.payload = call.payload := by
  obtain ⟨hs, tgt, tp, rstd, app⟩ := appendEvent_ok ans
  have same : hs = command := Option.some.inj (app.found.symm.trans hf)
  subst same
  have evs := (app.recorded.eventsOf call.commandId).trans (if_pos rfl)
  refine ⟨_, ⟨⟨hs, hf, pend⟩, evs, ?_, _, (app.commands _).trans (if_pos rfl), ?_⟩, rfl, rfl⟩
  · -- the sequence number is above those of the events before it
    rw [Db.latestEvent, evs, List.filter_true]
    refine firstBy_concat fun held isHeld => decide_eq_true ?_
    exact Journal.number_lt_nextNumber isHeld
  · have legal := app.legal
    rw [pend] at legal
    simpa [Command.advance, Call.event, stateAfterCall, pend] using legal

/-- The latest event lets a claim made at `now` take the generation. -/
def Grants (readers : Readers) (now : Time) (generation : ℤ) (latest : CommandEvent) : Prop :=
  latest.eventType = .cancelRequested ∨
  (isLease latest = true ∧ leaseExpired readers now latest = true ∧
      ∃ previous,
        readers.parseInt (orElse ((lease latest).get "generation") (.int 0)) = some previous ∧
        previous < generation)

theorem claimGeneration_ok {claim : Claim} {lat : CommandEvent} {generation : ℤ}
    (claimed : claimGeneration readers claim lat = .ok generation) :
    Grants readers claim.now generation lat := by
  unfold claimGeneration at claimed
  simp only at claimed
  split_ifs at claimed with isDispatch act unseen reqd
  · obtain ⟨prev, read, rfl⟩ : ∃ prev,
        readers.parseInt (orElse ((lat.payload.getD {}).get "generation") (.int 0)) = some prev ∧
          max claim.generation (prev + 1) = generation := by
      cases read : readers.parseInt (orElse ((lat.payload.getD {}).get "generation") (.int 0)) with
      | none =>
        rw [read] at claimed
        cases claimed
      | some prev =>
        rw [read] at claimed
        exact ⟨prev, rfl, Except.ok.inj claimed⟩
    refine .inr ⟨by simp [isLease, isDispatch], by simpa [leaseExpired, lease] using act, prev,
      read, ?_⟩
    exact lt_of_lt_of_le (Int.lt_succ prev) (le_max_right _ _)
  · exact .inl reqd

inductive Effect (readers : Readers) (db : Db) (commandId : String) : Db → Prop
  | kept : Effect readers db commandId db
  | leased {after : Db} {event latest : CommandEvent} {now : Time} {generation : ℤ}
      (wrote : Wrote db after commandId event) (isLease : isLease event = true)
      (own : leaseGeneration event = some generation)
      (isLatest : (db.latestEvent commandId fun _ => true) = some latest)
      (grants : Grants readers now generation latest) : Effect readers db commandId after
  | ended {after : Db} {event : CommandEvent} (wrote : Wrote db after commandId event)
      (isEnding : isEnding event = true) : Effect readers db commandId after

theorem claim_effect (readers : Readers) (claim : Claim) (db : Db) :
    Effect readers db claim.commandId
      (claimScreenRedecisionCancelObligation readers claim db).2 := by
  rcases claim_cases readers claim db with ⟨plan, eid, after, hpl, ans, out⟩ | ⟨_, left⟩ | ⟨_, left⟩
  · obtain ⟨cmd, lat, marker, gen, witness, hf, pend, isLat, claimed, made⟩ :=
      claimPlan_ok hpl
    rw [out]
    rcases made with rfl | rfl
    · obtain ⟨event, wrote, type, pl⟩ := wrote_of_appendEvent hf pend ans
      refine .leased wrote ?_ ?_ isLat (claimGeneration_ok claimed)
      · rw [isLease, type]
        rfl
      · rw [leaseGeneration, lease, pl]
        rfl
    · obtain ⟨event, wrote, type, -⟩ := wrote_of_appendEvent hf pend ans
      refine .ended wrote ?_
      rw [isEnding, type]
      rfl
  · rw [left]
    exact .kept
  · rw [left]
    exact .kept

theorem dispatch_granted {claim : Claim} {eid attemptId : String} {gen : ℤ}
    (hgr : (claimScreenRedecisionCancelObligation readers claim db).1 =
        .dispatch eid gen attemptId) :
    Pending db claim.commandId ∧
    ∃ lat, (db.latestEvent claim.commandId fun _ => true) = some lat ∧
      Grants readers claim.now gen lat := by
  rcases claim_cases readers claim db with ⟨plan, eid, after, hpl, ans, out⟩ | ⟨_, left⟩ | ⟨_, left⟩
  · obtain ⟨cmd, lat, marker, claimedAs, witness, hf, pend, isLat, claimed, made⟩ :=
      claimPlan_ok hpl
    rw [out] at hgr
    rcases made with rfl | rfl
    · cases hgr
      exact ⟨⟨cmd, hf, pend⟩, lat, isLat, claimGeneration_ok claimed⟩
    · cases hgr
  · rw [left] at hgr
    cases hgr
  · rw [left] at hgr
    cases hgr

theorem finalize_cases (readers : Readers) (finl : Finalize) (db : Db) :
    (∃ call eid after, finalizePlan finl db = .ok call ∧
      appendEvent readers.toReaders call db = .ok eid after ∧
      finalizeScreenRedecisionCancelObligation readers finl db = (.finalized eid, after)) ∨
      (∃ stop, finalizeScreenRedecisionCancelObligation readers finl db = (.stopped stop, db)) ∨
      ∃ error, finalizeScreenRedecisionCancelObligation readers finl db = (.raised error, db) := by
  unfold finalizeScreenRedecisionCancelObligation
  cases hpl : finalizePlan finl db with
  | error stop => split_ifs <;> exact .inr (.inl ⟨_, rfl⟩)
  | ok call =>
    cases ans : appendEvent readers.toReaders call db with
    | error error left =>
      simp only [ans]
      split_ifs
      case neg => exact .inr (.inr ⟨_, rfl⟩)
      all_goals exact .inr (.inl ⟨_, rfl⟩)
    | ok eid after =>
      simp only [ans]
      split_ifs
      case neg => exact .inl ⟨call, eid, after, rfl, ans, rfl⟩
      all_goals exact .inr (.inl ⟨_, rfl⟩)

theorem finalizePlan_ok {finl : Finalize} {call : Call} (hpl : finalizePlan finl db = .ok call) :
    call = finl.call ∧
    Pending db finl.commandId ∧
    ∃ lat, (db.latestEvent finl.commandId fun _ => true) = some lat ∧
      isLease lat = true ∧
      (lease lat).reads "attempt_id" finl.attemptId := by
  simp only [finalizePlan, CheckedFold.bind_eq_ok, guardBy_eq_ok, require_eq_none, elim_eq_ok]
    at hpl
  obtain ⟨cmd, hf, _, ⟨pend, -⟩, lat, isLat, _, isDispatch, _, ⟨-, attempt⟩, _, -, ret⟩ := hpl
  exact ⟨(Except.ok.inj ret).symm, ⟨cmd, hf, pend⟩, lat, isLat, by simp [isLease, isDispatch],
    attempt⟩

theorem finalize_effect (readers : Readers) (finl : Finalize) (db : Db) :
    Effect readers db finl.commandId
      (finalizeScreenRedecisionCancelObligation readers finl db).2 := by
  rcases finalize_cases readers finl db with ⟨call, eid, after, hpl, ans, out⟩ | ⟨_, left⟩ |
    ⟨_, left⟩
  · obtain ⟨rfl, ⟨cmd, hf, pend⟩, -⟩ := finalizePlan_ok hpl
    obtain ⟨event, wrote, type, -⟩ := wrote_of_appendEvent hf pend ans
    rw [out]
    refine .ended wrote ?_
    rw [isEnding, type]
    cases h : finl.ending <;> simp [Finalize.call, Ending.eventType, h]
  · rw [left]
    exact .kept
  · rw [left]
    exact .kept

theorem transact_effect (readers : Readers) (db : Db) (op : Op) :
    Effect readers db op.commandId (transact readers db op) := by
  cases op with
  | claim arguments => exact claim_effect readers arguments db
  | finalize arguments => exact finalize_effect readers arguments db

/-- What holds of the command's journal after `begun` and some transactions. -/
structure Fenced (begun : List CommandEvent) (db : Db) (commandId : String) : Prop where
  increasing : ∃ generations : List ℤ,
    (leases db commandId).map leaseGeneration = generations.map some ∧ generations.IsChain (· < ·)
  latest : Pending db commandId → leases db commandId ≠ [] →
    (db.latestEvent commandId fun _ => true) = (leases db commandId).getLast?
  ended : ∃ appended, db.eventsOf commandId = begun ++ appended ∧
    (appended.filter isEnding).length ≤ 1 ∧
    (Pending db commandId → appended.filter isEnding = [])

theorem Fenced.of_fresh (fresh : leases db commandId = []) :
    Fenced (db.eventsOf commandId) db commandId where
  increasing := ⟨[], by rw [fresh]; rfl, .nil⟩
  latest _ some := absurd fresh some
  ended := ⟨[], (List.append_nil _).symm, Nat.zero_le _, fun _ => rfl⟩

theorem leaseGeneration_eq_some {gen : ℤ} :
    leaseGeneration event = some gen ↔ (lease event).get "generation" = .int gen := by
  unfold leaseGeneration
  split <;> simp_all

theorem orElse_int_zero (number : ℤ) : orElse (.int number) (.int 0) = .int number := by
  by_cases zero : number = 0 <;> simp [orElse, Value.truthy, zero]

theorem Grants.generation_lt {now : Time} {generation prev : ℤ}
    (reads : ∀ number, readers.parseInt (.int number) = some number)
    (grants : Grants readers now generation event) (held : isLease event = true)
    (own : leaseGeneration event = some prev) : prev < generation := by
  rcases grants with reqd | ⟨-, -, read, isRead, less⟩
  · rw [isLease, reqd] at held
    cases held
  · rw [leaseGeneration_eq_some.mp own, orElse_int_zero, reads] at isRead
    cases isRead
    exact less

theorem Wrote.leases_eq (wrote : Wrote db after commandId event) :
    leases after commandId = leases db commandId ++ [event].filter isLease := by
  rw [leases, wrote.eventsOf, List.filter_append, leases]

theorem not_isEnding_of_isLease (held : isLease event = true) : isEnding event = false := by
  rw [isLease, beq_iff_eq] at held
  rw [isEnding, held]
  rfl

theorem Wrote.not_pending (wrote : Wrote db after commandId event) (ends : isEnding event = true) :
    ¬ Pending after commandId := by
  rintro ⟨cmd, hf, pend⟩
  obtain ⟨shown, isShown, tgt⟩ := wrote.shown
  rw [hf] at isShown
  cases isShown
  rw [pend] at tgt
  rw [isEnding, Bool.or_eq_true, beq_iff_eq, beq_iff_eq] at ends
  rcases ends with acked | blocked
  · rw [acked] at tgt
    exact absurd tgt (by decide)
  · rw [blocked] at tgt
    exact absurd tgt (by decide)

variable {begun : List CommandEvent}

theorem Fenced.leased {lat : CommandEvent} {now : Time} {gen : ℤ}
    (reads : ∀ number, readers.parseInt (.int number) = some number)
    (fenced : Fenced begun db commandId) (wrote : Wrote db after commandId event)
    (held : isLease event = true) (own : leaseGeneration event = some gen)
    (isLat : (db.latestEvent commandId fun _ => true) = some lat)
    (grants : Grants readers now gen lat) : Fenced begun after commandId := by
  have grown : leases after commandId = leases db commandId ++ [event] := by
    rw [wrote.leases_eq, List.filter_singleton, held]
    rfl
  obtain ⟨gens, same, chain⟩ := fenced.increasing
  obtain ⟨app, evs, -, h0⟩ := fenced.ended
  refine ⟨⟨gens ++ [gen], ?_, ?_⟩, ?_, app ++ [event], ?_, ?_⟩
  · rw [grown, List.map_append, List.map_append, same, List.map_singleton, own]
    rfl
  · refine List.isChain_append.mpr ⟨chain, .singleton _, ?_⟩
    intro prev isPrevious next isNext
    cases isNext
    -- the last generation is that of the last lease, which is the latest event
    have lastOf := congrArg List.getLast? same
    rw [List.getLast?_map, List.getLast?_map, isPrevious] at lastOf
    obtain ⟨last, isLast, ownLast⟩ := Option.map_eq_some_iff.mp lastOf
    have hs := List.mem_of_getLast? isLast
    have met := fenced.latest wrote.pending (List.ne_nil_of_mem hs)
    rw [isLat, isLast] at met
    cases met
    exact grants.generation_lt reads (List.mem_filter.mp hs).2 ownLast
  · intro _ _
    rw [wrote.latest, grown, List.getLast?_concat]
  · rw [wrote.eventsOf, evs, List.append_assoc]
  · rw [List.filter_append, h0 wrote.pending, List.filter_singleton, not_isEnding_of_isLease held]
    exact ⟨Nat.zero_le _, fun _ => rfl⟩

theorem Fenced.end (fenced : Fenced begun db commandId) (wrote : Wrote db after commandId event)
    (ends : isEnding event = true) : Fenced begun after commandId := by
  have other : isLease event = false := by
    by_contra held
    rw [not_isEnding_of_isLease (Bool.not_eq_false _ ▸ held)] at ends
    cases ends
  have same : leases after commandId = leases db commandId := by
    rw [wrote.leases_eq, List.filter_singleton, other]
    exact List.append_nil _
  obtain ⟨app, evs, -, h0⟩ := fenced.ended
  refine ⟨?_, ?_, app ++ [event], ?_, ?_, ?_⟩
  · rw [same]
    exact fenced.increasing
  · intro pend
    exact absurd pend (wrote.not_pending ends)
  · rw [wrote.eventsOf, evs, List.append_assoc]
  · rw [List.filter_append, h0 wrote.pending, List.filter_singleton, ends]
    exact le_rfl
  · intro pend
    exact absurd pend (wrote.not_pending ends)

theorem Fenced.transact (reads : ∀ number, readers.parseInt (.int number) = some number) {op : Op}
    (fenced : Fenced begun db op.commandId) :
    Fenced begun (transact readers db op) op.commandId := by
  have effect := transact_effect readers db op
  generalize ScreenCancel.transact readers db op = after at effect ⊢
  cases effect with
  | kept => exact fenced
  | leased wrote held own isLat grants => exact fenced.leased reads wrote held own isLat grants
  | ended wrote ends => exact fenced.end wrote ends

theorem Fenced.run (reads : ∀ number, readers.parseInt (.int number) = some number) {ops : List Op}
    (about : ∀ op ∈ ops, op.commandId = commandId) (fenced : Fenced begun db commandId) :
    Fenced begun (runOps readers db ops) commandId := by
  induction ops generalizing db with
  | nil => exact fenced
  | cons op rest ih =>
    have own := about op List.mem_cons_self
    subst own
    exact ih (fun later mem => about later (List.mem_cons_of_mem _ mem)) (fenced.transact reads)

/-- Over every run of claims and finalizations of a command that starts without a lease: the
generations increase, a lease is granted only after the latest one expired, only its attempt
finalizes, and the obligation ends once. -/
theorem screen_cancel_lease_fenced (reads : ∀ number, readers.parseInt (.int number) = some number)
    {ops : List Op} (about : ∀ op ∈ ops, op.commandId = commandId)
    (fresh : leases db commandId = []) :
    (∃ gens : List ℤ,
        (leases (runOps readers db ops) commandId).map leaseGeneration = gens.map some ∧
        gens.Pairwise (· < ·)) ∧
    (∀ claim eid gen attemptId, claim.commandId = commandId →
        (claimScreenRedecisionCancelObligation readers claim (runOps readers db ops)).1 =
          .dispatch eid gen attemptId →
        ∀ last, (leases (runOps readers db ops) commandId).getLast? = some last →
          leaseExpired readers claim.now last = true) ∧
    (∀ finl eid, finl.commandId = commandId →
        (finalizeScreenRedecisionCancelObligation readers finl (runOps readers db ops)).1 =
          .finalized eid →
        ∃ last, (leases (runOps readers db ops) commandId).getLast? = some last ∧
          (lease last).reads "attempt_id" finl.attemptId) ∧
    ∃ app, (runOps readers db ops).eventsOf commandId = db.eventsOf commandId ++ app ∧
      (app.filter isEnding).length ≤ 1 := by
  have fenced := (Fenced.of_fresh fresh).run reads about
  refine ⟨?_, ?_, ?_, ?_⟩
  · obtain ⟨gens, same, chain⟩ := fenced.increasing
    exact ⟨gens, same, List.isChain_iff_pairwise.mp chain⟩
  · rintro claim eid gen attemptId rfl hgr last isLast
    obtain ⟨pend, lat, isLat, grants⟩ := dispatch_granted hgr
    have hs := List.mem_of_getLast? isLast
    have met := fenced.latest pend (List.ne_nil_of_mem hs)
    rw [isLat, isLast] at met
    cases met
    rcases grants with reqd | ⟨-, expired, -⟩
    · have held := (List.mem_filter.mp hs).2
      rw [isLease, reqd] at held
      cases held
    · exact expired
  · rintro finl eid rfl fin
    rcases finalize_cases readers finl (runOps readers db ops) with
      ⟨call, _, _, hpl, -, -⟩ | ⟨_, left⟩ | ⟨_, left⟩
    · obtain ⟨-, pend, lat, isLat, held, attempt⟩ := finalizePlan_ok hpl
      have hs : lat ∈ leases (runOps readers db ops) finl.commandId := by
        have mem := firstBy_mem isLat
        rw [List.filter_true] at mem
        exact List.mem_filter.mpr ⟨mem, held⟩
      exact ⟨lat, (fenced.latest pend (List.ne_nil_of_mem hs)).symm.trans isLat, attempt⟩
    · rw [left] at fin
      cases fin
    · rw [left] at fin
      cases fin
  · obtain ⟨app, evs, once, -⟩ := fenced.ended
    exact ⟨app, evs, once⟩

def leaseReaders : Readers :=
  { screenReaders with
    parseInt := fun value => match value with
      | .int number => some number
      | _ => none }

/-- A claim of a live order at `now`, which is `capturedAt`, for a lease until one minute past. -/
def leaseClaim (attemptId eventId capturedAt : String) (now : Time) : Claim where
  commandId := "cmd-1"
  venueOrderId := "ord-1"
  attemptId := attemptId
  expiresAt := "2026-09-18T12:01:00+00:00"
  freshWitness := pointWitness screenReaders "ord-1" capturedAt
    (some [("id", .str "ord-1"), ("status", .str "LIVE"), ("size_matched", .str "4")])
  now := now
  occurredAt := capturedAt
  eventId := eventId

def leaseFinalize (attemptId expectedLastEventId : String) : Finalize where
  commandId := "cmd-1"
  venueOrderId := "ord-1"
  attemptId := attemptId
  expectedLastEventId := expectedLastEventId
  ending := .cancelReplaceBlocked
  payload := {
    members := [
      ("schema_version", .int 1), ("obligation_id", .str (obligationId "cmd-1" "ord-1")),
      ("obligation_kind", .str "screen_redecision_cancel_v1"), ("owner", .str "command_recovery"),
      ("venue_order_id", .str "ord-1")] }
  now := 60000000
  occurredAt := "2026-09-18T12:01:00+00:00"
  eventId := "evt-7"

/-- Two workers hold the lease in turn; the first is still active at the minute's beginning. -/
def leaseOps : List Op := [
  .claim (leaseClaim "attempt-1" "evt-5" "2026-09-18T12:00:00+00:00" 0),
  .claim (leaseClaim "attempt-2" "evt-6" "2026-09-18T12:00:00+00:00" 0),
  .claim (leaseClaim "attempt-2" "evt-6" "2026-09-18T12:01:00+00:00" 60000000)]

def leasedTwice : Db := runOps leaseReaders (Db.empty.run sampleReaders screenRequested) leaseOps

theorem screen_cancel_lease_fenced_sample :
    (leases leasedTwice "cmd-1").map leaseGeneration = [some 1, some 2] ∧
    (finalizeScreenRedecisionCancelObligation leaseReaders (leaseFinalize "attempt-1" "evt-5")
        leasedTwice).1 = .stopped .casStale ∧
    (finalizeScreenRedecisionCancelObligation leaseReaders (leaseFinalize "attempt-2" "evt-6")
        leasedTwice).1 = .finalized "evt-7" ∧
    ∃ last, (leases leasedTwice "cmd-1").getLast? = some last ∧
      (lease last).reads "attempt_id" "attempt-2" := by
  have fin : (finalizeScreenRedecisionCancelObligation leaseReaders
        (leaseFinalize "attempt-2" "evt-6")
      leasedTwice).1 = .finalized "evt-7" := by decide +kernel
  have fenced := @screen_cancel_lease_fenced leaseReaders _ _ (fun _ => rfl) _
    (show ∀ op ∈ leaseOps, op.commandId = "cmd-1" by simp [leaseOps, Op.commandId, leaseClaim])
    (show leases (Db.empty.run sampleReaders screenRequested) "cmd-1" = [] by decide +kernel)
  exact ⟨by decide +kernel, by decide +kernel, fin, fenced.2.2.1 _ _ rfl fin⟩

end Zeus.ScreenCancel
