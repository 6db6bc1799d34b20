import Zeus.State.VenueCommandCollateral

/-! `claim_screen_redecision_cancel_obligation`: one transaction that compares the command with its
cancel marker and a fresh point-order witness, and then starts a dispatch or writes CANCEL_ACKED. A
call says when its deadline passed and whether the database was locked. -/

namespace Zeus.ScreenCancel

open Zeus.Collateral (Time Reservation strip filledReservationAmount provenFilledSize)
open Refusal
open Zeus.VenueCommands
open Zeus.LiveOrder (Value)

inductive Double where
  | nan | negInf | finite (value : ℚ) | posInf
  deriving DecidableEq

def Double.lt : Double → Double → Bool
  | .nan, _ | _, .nan => false
  | .finite x, .finite y => decide (x < y)
  | .negInf, other => other != .negInf
  | .finite _, other => other == .posInf
  | .posInf, _ => false

/-- Readers of JSON scalars beside those of `append_event`: `float` and `int` where they do not
raise, ISO instants (without a zone in UTC), and the text of a float and of a dictionary. -/
structure Readers extends VenueCommands.Readers where
  parseFloat : Value → Option Double
  parseInt : Value → Option ℤ
  parseIso : String → Option Time
  floatText : ℚ → String
  dictText : Members → String

inductive WitnessStatus where
  | live | openOrder | resting | cancelled | canceled | expired | rejected | filled | absent
  deriving DecidableEq

def WitnessStatus.isLive (status : WitnessStatus) : Bool :=
  [.live, .openOrder, .resting].contains status

def WitnessStatus.ofText (text : String) : Option WitnessStatus :=
  [("LIVE", .live), ("OPEN", .openOrder), ("RESTING", .resting), ("CANCELLED", .cancelled),
    ("CANCELED", .canceled), ("EXPIRED", .expired), ("REJECTED", .rejected), ("FILLED", .filled),
    ("ABSENT", .absent)].lookup text

def finiteNonnegative (readers : Readers) (value : Value) : Option ℚ :=
  match readers.parseFloat value with
  | some (.finite number) => if 0 ≤ number then some number else none
  | _ => none

def venueStatus (data : Members) : String :=
  let status := upper (strip (orElse (data.get "status") (data.get "state")).orEmpty)
  if status.startsWith "ORDER_STATUS_" then String.ofList (status.toList.drop 13) else status

/-- `_screen_cancel_point_witness`, given what `get_order` returned. -/
def pointWitness (readers : Readers) (orderId capturedAt : String) (answer : Option Members) :
    Option Members :=
  match answer with
  | none => some [
      ("order_id", .str orderId), ("status", .str "ABSENT"), ("matched_size", .str "0"),
      ("source", .str "authenticated_point_order"), ("captured_at", .str capturedAt)]
  | some data =>
    let observedId := (data.firstOf ["orderID", "orderId", "order_id", "id"]).orEmpty
    let status := venueStatus data
    if observedId ≠ "" ∧ observedId ≠ orderId then none
    else if (WitnessStatus.ofText status).all (· == .absent) then none
    else
      (["_v2_matched_size", "size_matched", "sizeMatched", "matched_size", "matchedSize"].findSome?
        fun name => finiteNonnegative readers (data.get name)).map fun matched => [
          ("order_id", .str orderId), ("status", .str status),
          ("matched_size", .str (readers.floatText matched)),
          ("remaining_size", data.firstOf ["remaining_size", "remainingSize"]),
          ("source", .str "authenticated_point_order"), ("captured_at", .str capturedAt)]

/-- `_screen_cancel_witness_is_fresh`; ages are in microseconds. -/
def witnessIsFresh (readers : Readers) (now : Time) (witness : Members) : Bool :=
  decide ((witness.get "source").same (.str "authenticated_point_order")) &&
    (readers.parseIso (witness.get "captured_at").orEmpty).any fun capturedAt =>
      decide (0 ≤ now - capturedAt) && decide (now - capturedAt ≤ 2000000)

def obligationId (commandId venueOrderId : String) : String :=
  "screen_redecision_v1:" ++ commandId ++ ":" ++ venueOrderId

/-- `_screen_cancel_marker_is_exact`. -/
def markerIsExact (payload : Payload) (commandId venueOrderId : String) : Bool :=
  decide ((payload.get "schema_version").same (.int 1)) &&
    decide (payload.reads "obligation_id" (obligationId commandId venueOrderId)) &&
    decide (payload.reads "obligation_kind" "screen_redecision_cancel_v1") &&
    decide (payload.reads "owner" "command_recovery") &&
    (payload.get "venue_order_id").orEmpty == venueOrderId

/-- `_screen_cancel_iso_expired`: what cannot be read has expired. -/
def isoExpired (readers : Readers) (now : Time) (value : Value) : Bool :=
  (readers.parseIso value.text).all fun parsed => decide (parsed ≤ now)

inductive Deferral where
  | deadlineDeferred | sqliteBusyDeferred | missing | stateOrOrderMismatch | missingEvents
  | legacyOrMalformedMarker | activeLease | expiredLeaseWithoutWitness | unexpectedLatestEvent
  | freshWitnessMissing | witnessStale | freshWitnessInvalid | subMinimum
  deriving DecidableEq

inductive Stop where
  | deferred (action : Deferral)
  | generationUnreadable
  deriving DecidableEq

inductive Outcome where
  | stopped (stop : Stop)
  | dispatch (eventId : String) (generation : ℤ) (attemptId : String)
  | finalized (eventId : String)
  | raised (error : AppendError)
  deriving DecidableEq

/-- The arguments, with what the function draws from outside: its clocks, the id of the event, and
where its deadline fell. -/
structure Claim where
  (commandId venueOrderId : String)
  owner : String := ""
  generation : ℤ := 1
  attemptId : String := ""
  expiresAt : String := ""
  freshWitness : Option Members
  now : Time
  (occurredAt eventId : String)
  deadlineBefore : Bool := false
  databaseLocked : Bool := false
  deadlineInside : Bool := false
  deadlineAfter : Bool := false

def soleMarker (claim : Claim) (db : Db) : Option Payload :=
  match (db.eventsOf claim.commandId).filter fun event => event.eventType == .cancelRequested with
  | [event] =>
    let marker := event.payload.getD {}
    if markerIsExact marker claim.commandId claim.venueOrderId then some marker else none
  | _ => none

/-- The generation to claim: an expired lease is passed by a greater one. -/
def claimGeneration (readers : Readers) (claim : Claim) (latest : CommandEvent) : Except Stop ℤ :=
  let lease := latest.payload.getD {}
  if latest.eventType = .cancelDispatchStarted then
    if !isoExpired readers claim.now
          (orElse (lease.get "expires_at") (lease.get "lease_expires_at")) then
      .error (.deferred .activeLease)
    else if claim.freshWitness.isNone then .error (.deferred .expiredLeaseWithoutWitness)
    else
      (readers.parseInt (orElse (lease.get "generation") (.int 0))).elim
        (.error .generationUnreadable) fun previous => .ok (max claim.generation (previous + 1))
  else if latest.eventType = .cancelRequested then .ok claim.generation
  else .error (.deferred .unexpectedLatestEvent)

def subMinimum (readers : Readers) (marker : Payload) (witness : Members) : Option Bool := do
  let minimum := marker.get "min_order_size"
  let minSize ← if minimum = .null then some (.finite 0) else readers.parseFloat minimum
  let matched ← readers.parseFloat (orElse (witness.get "matched_size") (.float 0 "0.0"))
  return Double.lt (.finite 0) minSize && Double.lt (.finite 0) matched && Double.lt matched minSize

def witnessMember (readers : Readers) (witness : Members) : String × Value :=
  ("fresh_point_order_witness",
    .object (readers.dictText witness) (!witness.isEmpty) (readers.dictText witness))

def obligationMembers (marker : Payload) : Members := [
  ("schema_version", .int 1), ("obligation_id", marker.get "obligation_id"),
  ("obligation_kind", marker.get "obligation_kind"), ("owner", marker.get "owner")]

def Claim.call (claim : Claim) (eventType : CommandEventType) (members : Members) : Call where
  commandId := claim.commandId
  eventType := eventType
  occurredAt := claim.occurredAt
  payload := some { members }
  eventId := claim.eventId
  now := claim.now

def dispatchCall (readers : Readers) (claim : Claim) (marker : Payload) (generation : ℤ)
    (witness : Members) : Call :=
  let owner := claim.owner.toList
  claim.call .cancelDispatchStarted (obligationMembers marker ++ [
    ("owner_boot_id", .str (String.ofList (owner.takeWhile (· ≠ ':')))),
    ("owner_pid", .str (String.ofList ((owner.dropWhile (· ≠ ':')).drop 1))),
    ("generation", .int generation), ("attempt_id", .str claim.attemptId),
    ("expires_at", .str claim.expiresAt),
    ("venue_order_id", .str claim.venueOrderId), witnessMember readers witness])

def acknowledgeCall (readers : Readers) (claim : Claim) (marker : Payload) (witness : Members) :
    Call :=
  claim.call .cancelAcked (obligationMembers marker ++ [
    ("venue_order_id", .str claim.venueOrderId),
    ("reason", .str "fresh_point_order_terminal_or_absent"), witnessMember readers witness])

inductive Plan where
  | dispatch (call : Call) (generation : ℤ)
  | finalize (call : Call)

def Plan.call : Plan → Call
  | .dispatch call _ | .finalize call => call

def Plan.outcome (claim : Claim) (eventId : String) : Plan → Outcome
  | .dispatch _ generation => .dispatch eventId generation claim.attemptId
  | .finalize _ => .finalized eventId

def witnessPlan (readers : Readers) (claim : Claim) (marker : Payload) (generation : ℤ)
    (witness : Members) : Except Stop Plan :=
  match WitnessStatus.ofText (upper (witness.get "status").orEmpty) with
  | none => .error (.deferred .freshWitnessInvalid)
  | some status =>
    if status.isLive then
      match subMinimum readers marker witness with
      | none => .error (.deferred .freshWitnessInvalid)
      | some true => .error (.deferred .subMinimum)
      | some false =>
        .ok (.dispatch (dispatchCall readers claim marker generation witness) generation)
    else .ok (.finalize (acknowledgeCall readers claim marker witness))

def claimPlan (readers : Readers) (claim : Claim) (db : Db) : Except Stop Plan := do
  let command ← (db.commands.find claim.commandId).elim (.error (.deferred .missing)) .ok
  guardBy (require (command.state = .cancelPending ∧
      command.venueOrderId.getD "" = claim.venueOrderId)
    (.deferred .stateOrOrderMismatch))
  let latest ← (db.latestEvent claim.commandId fun _ => true).elim
    (.error (.deferred .missingEvents)) .ok
  let marker ← (soleMarker claim db).elim (.error (.deferred .legacyOrMalformedMarker)) .ok
  let generation ← claimGeneration readers claim latest
  let witness ← claim.freshWitness.elim (.error (.deferred .freshWitnessMissing)) .ok
  guardBy (require (witnessIsFresh readers claim.now witness = true) (.deferred .witnessStale))
  witnessPlan readers claim marker generation witness

def claimScreenRedecisionCancelObligation (readers : Readers) (claim : Claim) (db : Db) :
    Outcome × Db :=
  if claim.deadlineBefore then (.stopped (.deferred .deadlineDeferred), db)
  else if claim.databaseLocked then (.stopped (.deferred .sqliteBusyDeferred), db)
  else if claim.deadlineInside then (.stopped (.deferred .deadlineDeferred), db)
  else
    match claimPlan readers claim db with
    | .error stop => (.stopped stop, db)
    | .ok plan =>
      match appendEvent readers.toReaders plan.call db with
      | .error error _ => (.raised error, db)
      | .ok eventId after =>
        if claim.deadlineAfter then (.stopped (.deferred .deadlineDeferred), db)
        else (plan.outcome claim eventId, after)

variable {readers : Readers} {claim : Claim} {db after : Db} {eventId : String}

theorem witnessPlan_ok {marker : Payload} {gen : ℤ} {witness : Members} {plan : Plan}
    (hpl : witnessPlan readers claim marker gen witness = .ok plan) :
    plan = .dispatch (dispatchCall readers claim marker gen witness) gen ∨
      plan = .finalize (acknowledgeCall readers claim marker witness) := by
  unfold witnessPlan at hpl
  split at hpl
  · cases hpl
  · split_ifs at hpl
    · split at hpl <;> cases hpl
      exact .inl rfl
    · cases hpl
      exact .inr rfl

theorem claimPlan_ok {plan : Plan} (hpl : claimPlan readers claim db = .ok plan) :
    ∃ cmd lat marker gen witness, db.commands.find claim.commandId = some cmd ∧
      cmd.state = .cancelPending ∧
      (db.latestEvent claim.commandId fun _ => true) = some lat ∧
      claimGeneration readers claim lat = .ok gen ∧
      (plan = .dispatch (dispatchCall readers claim marker gen witness) gen ∨
        plan = .finalize (acknowledgeCall readers claim marker witness)) := by
  simp only [claimPlan, CheckedFold.bind_eq_ok, guardBy_eq_ok, require_eq_none, elim_eq_ok] at hpl
  obtain ⟨cmd, hf, _, ⟨pend, -⟩, lat, isLat, marker, -, gen, claimed, witness, -, _, -,
    hpl⟩ := hpl
  exact ⟨cmd, lat, marker, gen, witness, hf, pend, isLat, claimed, witnessPlan_ok hpl⟩

theorem claim_cases (readers : Readers) (claim : Claim) (db : Db) :
    (∃ plan eventId after, claimPlan readers claim db = .ok plan ∧
        appendEvent readers.toReaders plan.call db = .ok eventId after ∧
        claimScreenRedecisionCancelObligation readers claim db =
          (plan.outcome claim eventId, after)) ∨
    (∃ stop, claimScreenRedecisionCancelObligation readers claim db = (.stopped stop, db)) ∨
    ∃ error, claimScreenRedecisionCancelObligation readers claim db = (.raised error, db) := by
  unfold claimScreenRedecisionCancelObligation
  cases hpl : claimPlan readers claim db with
  | error stop => split_ifs <;> exact .inr (.inl ⟨_, rfl⟩)
  | ok plan =>
    cases ans : appendEvent readers.toReaders plan.call db with
    | error error left =>
      simp only [ans]
      split_ifs
      case neg => exact .inr (.inr ⟨_, rfl⟩)
      all_goals exact .inr (.inl ⟨_, rfl⟩)
    | ok eventId after =>
      simp only [ans]
      split_ifs
      case neg => exact .inl ⟨plan, eventId, after, rfl, ans, rfl⟩
      all_goals exact .inr (.inl ⟨_, rfl⟩)

theorem finalized_appends
    (fin : claimScreenRedecisionCancelObligation readers claim db = (.finalized eventId, after)) :
    ∃ call, call.commandId = claim.commandId ∧
      call.eventType = .cancelAcked ∧
      accepts readers.toReaders db call = true ∧
      after = db.step readers.toReaders (.appendEvent call) := by
  rcases claim_cases readers claim db with ⟨plan, id, hw, hpl, ans, out⟩ | ⟨_, left⟩ | ⟨_, left⟩
  · rw [fin] at out
    cases plan with
    | dispatch call gen => cases out
    | finalize call =>
      cases out
      obtain ⟨_, _, marker, _, witness, -, -, -, -, made⟩ := claimPlan_ok hpl
      have made : call = acknowledgeCall readers claim marker witness := by simpa using made
      subst made
      refine ⟨_, rfl, rfl, accepts_iff.mpr ⟨_, _, ans⟩, ?_⟩
      change _ = Savepoint.stateAfter (appendEvent readers.toReaders _) db
      rw [Savepoint.stateAfter, show appendEvent readers.toReaders _ db = _ from ans]
  · cases fin.symm.trans left
  · cases fin.symm.trans left

/-- A finalized claim converts what its witness saw matched exactly when the facts stored before
it prove enough. -/
theorem witnessed_fill_converted_iff {cmd : Command} {row : Reservation} {witness : Members}
    {matched : ℚ}
    (fin : claimScreenRedecisionCancelObligation readers claim db = (.finalized eventId, after))
    (hcmd : db.commands.find claim.commandId = some cmd)
    (hasRow : db.reservations.find claim.commandId = some row) (act : row.releasedAt = none)
    (_ : claim.freshWitness = some witness)
    (_ : readers.decimal (witness.get "matched_size") = some matched) :
    (∃ hcl, after.reservations.find claim.commandId = some hcl ∧
          ⌊row.amount * min 1 (matched / cmd.size)⌋ ≤ (hcl.convertedAmount : ℤ)) ↔
      ⌊row.amount * min 1 (matched / cmd.size)⌋ ≤
        (filledReservationAmount row.amount cmd.size
            (provenFilledSize db.ledger claim.commandId) : ℤ) := by
  obtain ⟨call, own, isCancel, acc, rfl⟩ := finalized_appends fin
  rw [← own] at hcmd hasRow ⊢
  obtain ⟨hcl, canc, conv⟩ := Cancelled.of_cancel hcmd hasRow isCancel acc
  have sameId : row.commandId = call.commandId := (KeyedTable.find_some hasRow).2
  rw [cancelConversion, if_pos act, sameId] at conv
  rw [canc.stored, ← conv]
  simp

def screenReaders : Readers where
  toReaders := sampleReaders
  parseFloat value := (sampleReaders.decimal value).map .finite
  parseInt _ := none
  parseIso := sampleReaders.parseUtc
  floatText number := if number = 10 then "10" else "4"
  dictText _ := "witness"

def screenRequested : List Step :=
  submission ++ [acknowledgement, .appendEvent (sampleCall "evt-4" .cancelRequested {
    members := [
      ("schema_version", .int 1), ("obligation_id", .str (obligationId "cmd-1" "ord-1")),
      ("obligation_kind", .str "screen_redecision_cancel_v1"), ("owner", .str "command_recovery"),
      ("venue_order_id", .str "ord-1")] })]

/-- A claim with the witness of an order that the venue shows in `status`, matched for `matched`. -/
def screenClaim (status matched : String) : Claim where
  commandId := "cmd-1"
  venueOrderId := "ord-1"
  freshWitness := pointWitness screenReaders "ord-1" "2026-09-18T12:00:00+00:00"
    (some [("id", .str "ord-1"), ("status", .str status), ("size_matched", .str matched)])
  now := 0
  occurredAt := "2026-09-18T12:00:00+00:00"
  eventId := "evt-5"

/-- The facts of the four matched shares are stored when the claim is made. -/
def factsBeforeClaim : Db :=
  Db.empty.run sampleReaders (screenRequested ++ [.recordFacts matchedFour])

theorem witnessed_fill_converted_sample :
    (claimScreenRedecisionCancelObligation screenReaders (screenClaim "CANCELED" "4")
        factsBeforeClaim).1 = .finalized "evt-5" ∧
    ∃ hcl,
      (claimScreenRedecisionCancelObligation screenReaders (screenClaim "CANCELED" "4")
          factsBeforeClaim).2.reservations.find "cmd-1" = some hcl ∧
      2000000 ≤ (hcl.convertedAmount : ℤ) := by
  have out : (claimScreenRedecisionCancelObligation screenReaders (screenClaim "CANCELED" "4")
      factsBeforeClaim).1 = .finalized "evt-5" := by decide +kernel
  have fin : claimScreenRedecisionCancelObligation screenReaders (screenClaim "CANCELED" "4")
      factsBeforeClaim = (.finalized "evt-5", (claimScreenRedecisionCancelObligation screenReaders
        (screenClaim "CANCELED" "4") factsBeforeClaim).2) := Prod.ext out rfl
  have hcmd := (Option.some_get
    (show (factsBeforeClaim.commands.find "cmd-1").isSome = true by decide +kernel)).symm
  have hasRow := (Option.some_get
    (show (factsBeforeClaim.reservations.find "cmd-1").isSome = true by decide +kernel)).symm
  have given := (Option.some_get
    (show (screenClaim "CANCELED" "4").freshWitness.isSome = true by decide +kernel)).symm
  obtain ⟨hcl, isClosed, enough⟩ :=
    (witnessed_fill_converted_iff fin hcmd hasRow (by decide +kernel) given
      (show _ = some 4 by decide +kernel)).mpr (by decide +kernel)
  exact ⟨out, hcl, isClosed, le_trans (by decide +kernel) enough⟩

/-- The witness is ahead of the facts: a filled order is acknowledged as an unfilled cancel. -/
theorem filled_order_closed_as_cancel : let db := Db.empty.run sampleReaders screenRequested
    let claimed :=
      claimScreenRedecisionCancelObligation screenReaders (screenClaim "FILLED" "10") db
    claimed.1 = .finalized "evt-5" ∧
      IsCancelled claimed.2 "cmd-1" ∧
      (claimed.2.reservations.find "cmd-1").map
        (fun row => (row.amount, row.convertedAmount, row.releaseReason)) =
        some (5000000, 0, some (.state .cancelled)) ∧
      ¬ ⌊(5000000 * min 1 (10 / sampleCommand.size) : ℚ)⌋ ≤ 0 := by
  decide +kernel

end Zeus.ScreenCancel
