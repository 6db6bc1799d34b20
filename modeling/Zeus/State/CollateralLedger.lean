import Zeus.Execution.OrderTruthReducer
import Zeus.Lib.KeyedTable
import Zeus.Lib.PyText
import Zeus.State.FillDedup

/-! Each operation is one atomic step on the tables, and returns what the caller sees together with
the database it leaves, so that a step that raises says what it wrote before. Timestamps are
microseconds, and the `julianday` comparisons are exact. Unread columns (legacy USDC.e, payload
hashes, settle reasons) are left out. -/

namespace Zeus.Collateral

open Zeus.FillDedup

abbrev Time := ℤ

def microScale : ℚ := 1000000

def ctfScale : ℚ := 1000000

/-- `COLLATERAL_SNAPSHOT_MAX_AGE_SECONDS`, in microseconds. -/
def snapshotMaxAge : Time := 180 * 1000000

/-- `COLLATERAL_SNAPSHOT_CLOCK_SKEW_SECONDS`, in microseconds. -/
def clockSkew : Time := 5 * 1000000

def sqliteSignedIntegerMax : ℤ := 2 ^ 63 - 1

/-- State texts passed to the ledger: the command states, the spelling `CANCELED`,
and the label a late-fill restore passes. -/
inductive StateLabel where
  | intentCreated | snapshotBound | submitting | signedPersisted | posting | postAcked | acked
  | unknown | submitUnknownSideEffect | partiallyFilled | filled | cancelPending | canceled
  | cancelled | expired | submitRejected | rejected | reviewRequired | lateFillCorrection
  deriving DecidableEq

def releaseStates : List StateLabel := [.rejected, .submitRejected]

def convertStates : List StateLabel := [.canceled, .cancelled, .filled, .expired]

def terminalReservationStates : List StateLabel := releaseStates ++ convertStates

/-- `TERMINAL_STATES` of the command bus. -/
def terminalStates : List StateLabel := [.submitRejected, .filled, .cancelled, .expired, .rejected]

inductive IntentKind where
  | entry | exit | other
  deriving DecidableEq

inductive Side where
  | buy | sell | other
  deriving DecidableEq

structure VenueCommand where
  commandId : String
  intentKind : IntentKind
  side : Side
  (size price : ℚ)
  tokenId : String
  deriving DecidableEq

structure VenueOrderFact extends OrderTruth.OrderFact where
  commandId : String
  deriving DecidableEq

/-- Reservation type together with the token that its CHECK ties to it. -/
inductive ReservationKind where
  | pusdBuy
  | ctfSell (tokenId : String)
  deriving DecidableEq

inductive ReleaseReason where
  | state (label : StateLabel)
  | convertedOnFill
  deriving DecidableEq

structure Reservation where
  commandId : String
  kind : ReservationKind
  amount : ℕ
  createdAt : Time
  releasedAt : Option Time := none
  releaseReason : Option ReleaseReason := none
  convertedAmount : ℕ := 0
  deriving DecidableEq

/-- A row of `collateral_unsettled_proceeds`. Its CHECK makes a `PUSD_BUY` row an
outgoing deduction and a `CTF_SELL` row incoming proceeds. -/
structure UnsettledProceeds where
  commandId : String
  kind : ReservationKind
  amountMicro : ℕ
  createdAt : Time
  settledAt : Option Time := none
  deriving DecidableEq

inductive AuthorityTier where
  | chain | venue | degraded
  deriving DecidableEq

structure CollateralSnapshot where
  (pusdBalanceMicro pusdAllowanceMicro : ℤ)
  (ctfTokenBalances ctfTokenAllowances : List (String × ℤ))
  capturedAt : Time
  authorityTier : AuthorityTier
  deriving DecidableEq

/-- The tables the ledger operations read and write. Snapshots stand in `id` order;
`activeCtfExposure` is what the position projection answers. -/
structure Db where
  venueCommands : KeyedTable VenueCommand.commandId
  venueOrderFacts : List VenueOrderFact
  venueTradeFacts : VenueTradeFacts
  activeCtfExposure : Bool
  reservations : KeyedTable Reservation.commandId
  unsettledProceeds : KeyedTable UnsettledProceeds.commandId
  snapshots : List CollateralSnapshot

def Db.empty : Db := ⟨.empty, [], .empty, false, .empty, .empty, []⟩

/-- `ORDER BY id DESC LIMIT 1`. -/
def Db.latest (db : Db) : Option CollateralSnapshot := db.snapshots.getLast?

inductive LedgerError where
  | integrityError
  | pusdInsufficientCas (commandId : String) (amountMicro : ℤ)
  | pusdInsufficientTrigger (commandId : String) (amountMicro : ℤ)
  | ctfTokensInsufficientCas (tokenId commandId : String) (reserved available : ℤ)
  | collateralSnapshotDegraded
  | collateralSnapshotFuture (age : Time)
  | collateralSnapshotStale (age : Time)
  | ctfTokenIdRequired
  | ctfTokensInsufficient (tokenId : String) (required available : ℤ)
  | ctfAllowanceInsufficient (tokenId : String) (required availableAllowance allowance : ℤ)
  | latePartialFillReservationMissing | latePartialFillReservationShapeInvalid
  | latePartialFillReservationIdentityInvalid | lateFillReservationDoesNotAdvanceConversion
  | lateFillReservationCasFailed | lateFillReservationConversionFailed
  | latePartialFillRemainderReservationCasFailed
  deriving DecidableEq

def Reservation.heldPusd (row : Reservation) : ℕ :=
  if row.kind = .pusdBuy ∧ row.releasedAt = none then row.amount else 0

def Reservation.heldTokens (tokenId : String) (row : Reservation) : ℕ :=
  if row.kind = .ctfSell tokenId ∧ row.releasedAt = none then row.amount else 0

def UnsettledProceeds.openDeduction (row : UnsettledProceeds) : ℕ :=
  if row.kind = .pusdBuy ∧ row.settledAt = none then row.amountMicro else 0

/-- `_reserved_pusd_for_connection`. -/
def reservedPusd (db : Db) : ℕ := db.reservations.total Reservation.heldPusd

/-- `_reserved_tokens_for_connection`, read at one token. -/
def reservedTokens (db : Db) (tokenId : String) : ℕ :=
  db.reservations.total (Reservation.heldTokens tokenId)

/-- What the pUSD guard subtracts: open reservations and open deductions. -/
def committed (db : Db) : ℕ :=
  reservedPusd db + db.unsettledProceeds.total UnsettledProceeds.openDeduction

def pusdGuard (latest : CollateralSnapshot) (alreadyCommitted : ℕ) (amount : ℤ) (now : Time) :
    Bool :=
  decide (latest.authorityTier ≠ .degraded) &&
    decide (now - snapshotMaxAge ≤ latest.capturedAt) &&
    decide (latest.capturedAt ≤ now + clockSkew) &&
    decide (amount ≤ latest.pusdBalanceMicro - alreadyCommitted) &&
    decide (amount ≤ latest.pusdAllowanceMicro - alreadyCommitted)

/-- The condition of `trg_reservations_no_overreserve`. -/
def overreserved (latest : CollateralSnapshot) (db : Db) : Bool :=
  decide (latest.pusdBalanceMicro - committed db < 0)

/-- INSERT under the primary key and the `amount >= 0` check. -/
def insertReservation (db : Db) (commandId : String) (kind : ReservationKind) (amount : ℤ)
    (now : Time) : Option Db :=
  if 0 ≤ amount then
    (db.reservations.tryInsert
      { commandId := commandId, kind := kind, amount := amount.toNat, createdAt := now }).map
      fun table => { db with reservations := table }
  else none

def casInsertPusdReservation (db : Db) (commandId : String) (amount : ℤ) (now : Time) :
    Except LedgerError Unit × Db :=
  match db.latest with
  | none => (.error (.pusdInsufficientCas commandId amount), db)
  | some latest =>
    if pusdGuard latest (committed db) amount now then
      match insertReservation db commandId .pusdBuy amount now with
      | none => (.error .integrityError, db)
      | some inserted =>
        if overreserved latest inserted then
          (.error (.pusdInsufficientTrigger commandId amount), db)
        else (.ok (), inserted)
    else (.error (.pusdInsufficientCas commandId amount), db)

def tokenRequiredUnits (size : ℚ) : ℕ := ⌈DecimalContext.mul size ctfScale⌉.toNat

def tokenBalance (snapshot : CollateralSnapshot) (tokenId : String) : ℤ :=
  (snapshot.ctfTokenBalances.lookup tokenId).getD 0

def tokenAllowance (snapshot : CollateralSnapshot) (tokenId : String) : ℤ :=
  (snapshot.ctfTokenAllowances.lookup tokenId).getD 0

def availableTokens (snapshot : CollateralSnapshot) (reserved : ℕ) (tokenId : String) : ℤ :=
  max 0 (tokenBalance snapshot tokenId - reserved)

def availableTokenAllowance (snapshot : CollateralSnapshot) (reserved : ℕ) (tokenId : String) : ℤ :=
  max 0 (tokenAllowance snapshot tokenId - reserved)

def strip : String → String := PyText.onString PyText.strip

def snapshotIsFreshEnoughForCache (snapshot : CollateralSnapshot) (now : Time) : Bool :=
  decide (now - snapshot.capturedAt ≤ snapshotMaxAge + clockSkew)

/-- The portfolio witness of `load_latest_collateral_snapshot_read_only`: among the last
32 rows by id, newest capture first, the first usable one, else the newest. -/
def loadLatestCollateralSnapshot (db : Db) (now : Time) : Option CollateralSnapshot :=
  let rows :=
    (db.snapshots.reverse.take 32).insertionSort fun row other => other.capturedAt ≤ row.capturedAt
  let usable := fun row : CollateralSnapshot =>
    decide (row.authorityTier ≠ .degraded) && snapshotIsFreshEnoughForCache row now
  match rows.find? fun row => usable row &&
      !(db.activeCtfExposure && row.ctfTokenBalances.isEmpty) with
  | some row => some row
  | none =>
    match rows.find? usable with
    | some row => some row
    | none => rows.head?

def assertSnapshotFresh (snapshot : CollateralSnapshot) (now : Time) : Except LedgerError Unit :=
  let age := now - snapshot.capturedAt
  if age < -clockSkew then .error (.collateralSnapshotFuture age)
  else if age < 0 then .ok ()
  else if snapshotMaxAge < age then .error (.collateralSnapshotStale age)
  else .ok ()

def assertSnapshotAllowsSell (snapshot : CollateralSnapshot) (reserved : String → ℕ)
    (tokenId : String) (size : ℚ) (now : Time) : Except LedgerError Unit := do
  let selectedToken := strip tokenId
  if selectedToken = "" then throw .ctfTokenIdRequired
  if snapshot.authorityTier = .degraded then throw .collateralSnapshotDegraded
  assertSnapshotFresh snapshot now
  let required := tokenRequiredUnits size
  let available := availableTokens snapshot (reserved selectedToken) selectedToken
  if available < required then throw (.ctfTokensInsufficient selectedToken required available)
  let availableAllowance := availableTokenAllowance snapshot (reserved selectedToken) selectedToken
  if availableAllowance < required then
    throw (.ctfAllowanceInsufficient selectedToken required availableAllowance
      (tokenAllowance snapshot selectedToken))

def sellPreflightInTransaction (db : Db) (tokenId : String) (size : ℚ) (now : Time) :
    Except LedgerError Unit :=
  match loadLatestCollateralSnapshot db now with
  | none => .error .collateralSnapshotDegraded
  | some snapshot => assertSnapshotAllowsSell snapshot (reservedTokens db) tokenId size now

def latestTokenBalance (db : Db) (tokenId : String) : ℤ :=
  (db.latest.map fun snapshot => tokenBalance snapshot tokenId).getD 0

/-- Insert, sum again, and delete the own row when the sum exceeds the balance. -/
def casInsertCtfReservation (db : Db) (commandId tokenId : String) (amount : ℕ) (now : Time) :
    Except LedgerError Unit × Db :=
  match insertReservation db commandId (.ctfSell tokenId) amount now with
  | none => (.error .integrityError, db)
  | some inserted =>
    let totalReserved := reservedTokens inserted tokenId
    let available := latestTokenBalance inserted tokenId
    if available < totalReserved then
      (.error (.ctfTokensInsufficientCas tokenId commandId totalReserved available),
        { inserted with reservations := inserted.reservations.erase commandId })
    else (.ok (), inserted)

def reserveTokensForSellInTransaction (db : Db) (commandId tokenId : String) (size : ℚ)
    (now : Time) : Except LedgerError Unit × Db :=
  match sellPreflightInTransaction db tokenId size now with
  | .error error => (.error error, db)
  | .ok () => casInsertCtfReservation db commandId tokenId (tokenRequiredUnits size) now

def Reservation.release (now : Time) (label : StateLabel) (row : Reservation) : Reservation :=
  if row.releasedAt = none then
    { row with releasedAt := some now, releaseReason := some (.state label) }
  else row

theorem Reservation.release_commandId (now : Time) (label : StateLabel) (row : Reservation) :
    (row.release now label).commandId = row.commandId := by
  unfold Reservation.release
  split <;> rfl

def releaseReservationForCommandState (db : Db) (commandId : String) (state : StateLabel)
    (now : Time) : Db :=
  if state ∈ terminalReservationStates then
    { db with
      reservations := db.reservations.modify commandId (Reservation.release now state)
        (Reservation.release_commandId now state) }
  else db

def maxMatchedSize (db : Db) (commandId : String) : ℚ :=
  (db.venueOrderFacts.filter fun fact => fact.commandId == commandId).foldl
    (fun best fact => max best (fact.matchedSize.getD 0)) 0

def tradeTotal (db : Db) (commandId : String) : ℚ :=
  (economicTradeFactsForCommand db.venueTradeFacts commandId).foldl
    (fun total fact => if fact.isFill then DecimalContext.add total fact.filledSize else total) 0

def provenFilledSize (db : Db) (commandId : String) : ℚ :=
  max (maxMatchedSize db commandId) (tradeTotal db commandId)

def filledReservationAmount (amount : ℕ) (orderSize filled : ℚ) : ℕ :=
  if orderSize ≤ 0 ∨ filled ≤ 0 then 0
  else
    let ratio := min 1 (DecimalContext.div filled orderSize)
    let converted := ⌊DecimalContext.mul amount ratio⌋
    (max 0 (min (amount : ℤ) converted)).toNat

def proceedsMicro (converted : ℕ) (price : ℚ) : ℕ :=
  let shares := DecimalContext.div converted ctfScale
  ⌊DecimalContext.mul (DecimalContext.mul shares price) microScale⌋.toNat

def unsettledAmount (kind : ReservationKind) (converted : ℕ) (price : ℚ) : ℕ :=
  match kind with
  | .pusdBuy => converted
  | .ctfSell _ => proceedsMicro converted price

/-- `ON CONFLICT DO UPDATE … WHERE excluded.amount_micro > amount_micro`: a larger amount
replaces the old one and opens the row again. -/
def UnsettledProceeds.raise (amount : ℕ) (now : Time) (row : UnsettledProceeds) :
    UnsettledProceeds :=
  if row.amountMicro < amount then
    { row with amountMicro := max row.amountMicro amount, createdAt := now, settledAt := none }
  else row

theorem UnsettledProceeds.raise_commandId (amt : ℕ) (now : Time) (row : UnsettledProceeds) :
    (row.raise amt now).commandId = row.commandId := by
  unfold UnsettledProceeds.raise
  split <;> rfl

def recordUnsettled (table : KeyedTable UnsettledProceeds.commandId) (row : UnsettledProceeds) :
    KeyedTable UnsettledProceeds.commandId :=
  table.upsert row (UnsettledProceeds.raise row.amountMicro row.createdAt)
    (UnsettledProceeds.raise_commandId _ _)

def Reservation.convert (now : Time) (reason : ReleaseReason) (converted : ℕ) (row : Reservation) :
    Reservation :=
  { row with releasedAt := some now, releaseReason := some reason, convertedAmount := converted }

theorem Reservation.convert_commandId (now : Time) (why : ReleaseReason) (conv : ℕ)
    (row : Reservation) : (row.convert now why conv).commandId = row.commandId := rfl

/-- What the open reservation `row` converts, at the fills recorded now. -/
def convertedNow (db : Db) (row : Reservation) : ℕ :=
  filledReservationAmount row.amount
    (((db.venueCommands.find row.commandId).map VenueCommand.size).getD 0)
    (provenFilledSize db row.commandId)

def convertReservationOnFill (db : Db) (commandId : String) (stateAfter : StateLabel) (now : Time) :
    Bool × Db :=
  match db.reservations.find commandId with
  | none => (false, db)
  | some row =>
    if row.releasedAt = none then
      let price := ((db.venueCommands.find commandId).map VenueCommand.price).getD 0
      let converted := convertedNow db row
      let reason := if 0 < converted then .convertedOnFill else .state stateAfter
      (true, { db with
          reservations :=
            db.reservations.modify commandId (Reservation.convert now reason converted)
              (Reservation.convert_commandId now reason converted)
          unsettledProceeds :=
            if 0 < converted then
              recordUnsettled db.unsettledProceeds
                { commandId := commandId, kind := row.kind,
                  amountMicro := unsettledAmount row.kind converted price, createdAt := now }
            else db.unsettledProceeds })
    else (false, db)

/-- The amounts of the original order and of its unfilled remainder, when command and
reservation are an entry BUY or an exit SELL. -/
def lateFillAmounts (command : VenueCommand) (kind : ReservationKind) (remaining : ℚ) :
    Option (ℕ × ℕ) :=
  let notional :=
    fun size : ℚ => ⌈DecimalContext.mul (DecimalContext.mul size command.price) microScale⌉.toNat
  match command.intentKind, command.side, kind with
  | .entry, .buy, .pusdBuy => some (notional command.size, notional remaining)
  | .exit, .sell, .ctfSell _ => some (tokenRequiredUnits command.size, tokenRequiredUnits remaining)
  | _, _, _ => none

def tokenGuard (command : VenueCommand) (kind : ReservationKind) : Bool :=
  match kind with
  | .pusdBuy => true
  | .ctfSell tokenId => tokenId == command.tokenId

def Reservation.reopen (amount : ℕ) (row : Reservation) : Reservation :=
  { row with amount := amount, releasedAt := none, releaseReason := none, convertedAmount := 0 }

theorem Reservation.reopen_commandId (amt : ℕ) (row : Reservation) :
    (row.reopen amt).commandId = row.commandId := rfl

def reopenReservation (db : Db) (commandId : String) (amount : ℕ) : Db :=
  { db with
    reservations := db.reservations.modify commandId (Reservation.reopen amount)
      (Reservation.reopen_commandId amount) }

/-- Whether the size test of the restore refuses the request. -/
def lateFillShapeInvalid (command : VenueCommand) (reservation : Reservation) (filledSize : ℚ)
    (isPartial : Bool) : Bool :=
  let remaining := DecimalContext.sub command.size filledSize
  decide (command.size ≤ 0) || decide (command.price ≤ 0) || decide (filledSize ≤ 0) ||
    decide (remaining < 0) || (isPartial && decide (remaining ≤ 0)) ||
    (!isPartial && decide (1 / 100 < remaining)) || decide (reservation.releasedAt = none)

def restoreReservationForLateFill (db : Db) (commandId : String) (filledSize : ℚ) (isPartial : Bool)
    (now : Time) : Except LedgerError Unit × Db :=
  match db.venueCommands.find commandId, db.reservations.find commandId with
  | some command, some reservation =>
    let remaining := DecimalContext.sub command.size filledSize
    if lateFillShapeInvalid command reservation filledSize isPartial then
      (.error .latePartialFillReservationShapeInvalid, db)
    else
      match lateFillAmounts command reservation.kind remaining with
      | none => (.error .latePartialFillReservationIdentityInvalid, db)
      | some (originalAmount, remainderAmount) =>
        let newlyProvenConverted := ⌊DecimalContext.mul originalAmount
          (min 1 (DecimalContext.div filledSize command.size))⌋
        if newlyProvenConverted ≤ reservation.convertedAmount then
          (.error .lateFillReservationDoesNotAdvanceConversion, db)
        else if !tokenGuard command reservation.kind then
          (.error .lateFillReservationCasFailed, db)
        else
          match convertReservationOnFill (reopenReservation db commandId originalAmount) commandId
              .lateFillCorrection now with
          | (false, after) => (.error .lateFillReservationConversionFailed, after)
          | (true, after) =>
            if !isPartial then (.ok (), after)
            else if (after.reservations.find commandId).any fun row =>
                row.releasedAt.isSome && decide (0 < row.convertedAmount) then
              (.ok (), reopenReservation after commandId remainderAmount)
            else (.error .latePartialFillRemainderReservationCasFailed, after)
  | _, _ => (.error .latePartialFillReservationMissing, db)

/-- The savepoint of `append_event`: a raise takes back what was written. -/
def inSavepoint (db : Db) (result : Except LedgerError Unit × Db) : Except LedgerError Unit × Db :=
  match result.1 with
  | .error error => (.error error, db)
  | .ok () => result

def UnsettledProceeds.matured (capturedAt : Time) (row : UnsettledProceeds) : Bool :=
  decide (row.settledAt = none) && decide (row.createdAt < capturedAt - clockSkew)

def UnsettledProceeds.settle (capturedAt : Time) (row : UnsettledProceeds) : UnsettledProceeds :=
  { row with settledAt := some capturedAt }

theorem UnsettledProceeds.settle_commandId (capAt : Time) (row : UnsettledProceeds) :
    (row.settle capAt).commandId = row.commandId := rfl

def clearMaturedUnsettledProceeds (db : Db) (capturedAt : Time) : Db :=
  { db with
    unsettledProceeds := db.unsettledProceeds.modifyWhere (UnsettledProceeds.matured capturedAt)
      (UnsettledProceeds.settle capturedAt) (UnsettledProceeds.settle_commandId capturedAt) }

def sqliteMicro (value : ℤ) : ℤ := min sqliteSignedIntegerMax (max 0 value)

def persistSnapshot (db : Db) (snapshot : CollateralSnapshot) : Db :=
  let cleared :=
    if snapshot.authorityTier = .degraded then db
    else clearMaturedUnsettledProceeds db snapshot.capturedAt
  { cleared with
    snapshots := cleared.snapshots ++ [{ snapshot with
          pusdBalanceMicro := sqliteMicro snapshot.pusdBalanceMicro
          pusdAllowanceMicro := sqliteMicro snapshot.pusdAllowanceMicro }] }

inductive Op where
  | insertCommand (command : VenueCommand)
  | appendOrderFact (fact : VenueOrderFact)
  | appendTradeFact (fact : TradeFact)
  | setCtfExposure (active : Bool)
  | reservePusd (commandId : String) (amount : ℤ) (now : Time)
  | reserveTokens (commandId tokenId : String) (size : ℚ) (now : Time)
  | release (commandId : String) (state : StateLabel) (now : Time)
  | convert (commandId : String) (stateAfter : StateLabel) (now : Time)
  | restore (commandId : String) (filledSize : ℚ) (isPartial : Bool) (now : Time)
  | snapshot (snapshot : CollateralSnapshot)
  deriving DecidableEq

/-- Which ledger operation the terminal dispatch of `append_event` calls. -/
def terminalDispatch (commandId : String) (stateAfter : StateLabel) (terminalPartial : Bool)
    (now : Time) : Option Op :=
  if stateAfter ∈ terminalStates ∨ terminalPartial = true then
    if terminalPartial = true ∨ stateAfter ∈ convertStates then
      some (.convert commandId stateAfter now)
    else some (.release commandId stateAfter now)
  else none

def inserted (db : Db) : Option Db → Except LedgerError Unit × Db
  | none => (.error .integrityError, db)
  | some written => (.ok (), written)

def step (db : Db) : Op → Except LedgerError Unit × Db
  | .insertCommand command =>
    inserted db ((db.venueCommands.tryInsert command).map fun table =>
        { db with venueCommands := table })
  | .appendOrderFact fact => (.ok (), { db with venueOrderFacts := db.venueOrderFacts ++ [fact] })
  | .appendTradeFact fact =>
    inserted db ((db.venueTradeFacts.tryAppend fact).map fun table =>
        { db with venueTradeFacts := table })
  | .setCtfExposure active => (.ok (), { db with activeCtfExposure := active })
  | .reservePusd commandId amount now => casInsertPusdReservation db commandId amount now
  | .reserveTokens commandId tokenId size now =>
    reserveTokensForSellInTransaction db commandId tokenId size now
  | .release commandId state now =>
    (.ok (), releaseReservationForCommandState db commandId state now)
  | .convert commandId stateAfter now =>
    (.ok (), (convertReservationOnFill db commandId stateAfter now).2)
  | .restore commandId filledSize isPartial now =>
    inSavepoint db (restoreReservationForLateFill db commandId filledSize isPartial now)
  | .snapshot snapshot => (.ok (), persistSnapshot db snapshot)

def next (db : Db) (op : Op) : Db := (step db op).2

def run (db : Db) (ops : List Op) : Db := ops.foldl next db

theorem run_append (db : Db) (ops later : List Op) :
    run db (ops ++ later) = run (run db ops) later :=
  List.foldl_append

theorem run_concat (db : Db) (ops : List Op) (op : Op) :
    run db (ops ++ [op]) = next (run db ops) op := by
  simp [run]

end Zeus.Collateral
