import Zeus.State.PositionCurrent

/-! `consolidate`: every token that more than one open row holds is compared with its balance in the
chain snapshot. Numbers are exact. -/

namespace Zeus.DuplicateConsolidator

open Zeus.Collateral (strip)
open Zeus.PositionCurrent

inductive VoidReason where
  | duplicateConsolidated | duplicateOpenRowsMerged
  deriving DecidableEq

inductive Audit where
  | voided (reason : VoidReason)
  | superseded (absorbed : List String)
  deriving DecidableEq

/-- A row of `position_events`; rows of other writers have no audit. -/
structure StoredEvent where
  positionId : String
  sequenceNo : ℕ
  eventType : PositionEventType
  occurredAt : String
  phaseBefore : Option LifecyclePhase := none
  phaseAfter : Option LifecyclePhase := none
  strategyKey : String
  audit : Option Audit := none

structure ReviewItem where
  keeperId : String
  absorbedIds : List String
  exposureBoundUsd : Option ℚ
  deriving DecidableEq

/-- The tables. Position ids are minted without white space around them. -/
structure Store where
  table : Table
  trimmed : ∀ row ∈ table.rows, strip row.positionId = row.positionId
  events : List StoredEvent
  reviewItems : List ReviewItem := []
  /-- `position_events_admits_event_type` for POSITION_IDENTITY_SUPERSEDED. -/
  admitsSuperseded : Bool := true

/-- Balances of the latest CHAIN snapshot, in micro-shares; `none` is not an integer. -/
abbrev ChainSnapshot := List (String × Option ℤ)

/-- `_load_chain_shares_by_token`. -/
def ChainSnapshot.shares (snapshot : ChainSnapshot) (token : String) : Option ℚ :=
  (snapshot.lookup token).join.map fun micro => micro / 1000000

def tolerance : ℚ := 1 / 1000000000

/-- `_HELD_TOKEN_SQL`: a row of unknown direction holds nothing. -/
def heldToken (row : Row) : Option String :=
  match row.direction with
  | some .buyNo => row.entry.noTokenId.filter fun token => token ≠ ""
  | some .buyYes => row.entry.tokenId.filter fun token => token ≠ ""
  | _ => none

def openRows (table : Table) (token : String) : List Row :=
  table.rows.filter fun row => row.phase ∈ openPhases ∧ heldToken row = some token

/-- MIN(`occurred_at`) over the events of a position. -/
def firstAt (events : List StoredEvent) (positionId : String) : Option String :=
  ((Journal.ofKey StoredEvent.positionId events positionId).map StoredEvent.occurredAt).min?

structure Entry where
  row : Row
  firstAt : Option String

def Entry.id (entry : Entry) : String := entry.row.positionId

def Entry.shares (entry : Entry) : ℚ := entry.row.entry.shares.getD 0

/-- `_row_dicts_for_token`. -/
def entries (store : Store) (token : String) : List Entry :=
  (openRows store.table token).map fun row => ⟨row, firstAt store.events row.positionId⟩

def total (rows : List Entry) : ℚ := (rows.map Entry.shares).sum

def orNines (text : String) : String := if text = "" then "9999" else text

/-- The triples of `_enumerate_duplicates`, oldest first. -/
def byAge (rows : List Entry) : List Entry :=
  rows.insertionSort fun entry other =>
    orNines (entry.firstAt.getD "") ≤ orNines (other.firstAt.getD "")

def normIdentity (text : Option String) : String := strip (text.getD "")

structure MergeIdentity where
  phase : LifecyclePhase
  (marketId city targetDate binLabel : String)
  direction : Option Direction
  unit : Option TemperatureUnit
  (strategyKey conditionId : String)
  temperatureMetric : TemperatureMetric
  deriving DecidableEq

def mergeIdentity (row : Row) : MergeIdentity where
  phase := row.phase
  marketId := normIdentity row.entry.marketId
  city := normIdentity row.city
  targetDate := normIdentity row.targetDate
  binLabel := normIdentity row.binLabel
  direction := row.direction
  unit := row.unit
  strategyKey := strip row.strategyKey
  conditionId := normIdentity row.entry.conditionId
  temperatureMetric := row.temperatureMetric

/-- `_merge_identity_key`: the columns that must not be missing. -/
def mergeIdentityKey (entry : Entry) : Option MergeIdentity :=
  let identity := mergeIdentity entry.row
  if identity.targetDate = "" ∨
      identity.direction = none ∨
      identity.strategyKey = "" ∨
      identity.conditionId = "" then
    none
  else some identity

def positionSortKey (entry : Entry) : String ×ₗ String ×ₗ String :=
  toLex (orNines (normIdentity entry.firstAt), toLex (strip entry.row.updatedAt, strip entry.id))

def byPosition (rows : List Entry) : List Entry :=
  rows.insertionSort fun entry other => positionSortKey entry ≤ positionSortKey other

/-- The conditions under which `_merge_equivalent_rows` goes through. -/
def Mergeable (balance : ℚ) (rows : List Entry) : Prop :=
  1 < rows.length ∧
  (rows.map mergeIdentityKey).dedup.length = 1 ∧
  none ∉ rows.map mergeIdentityKey ∧
    (∀ entry ∈ rows, strip entry.id ≠ "") ∧
    0 < total rows ∧
    total rows ≤ balance + tolerance

instance (balance : ℚ) (rows : List Entry) : Decidable (Mergeable balance rows) :=
  inferInstanceAs (Decidable (_ ∧ _))

def mergePlan (balance : ℚ) (rows : List Entry) : Option (Entry × List Entry) :=
  if Mergeable balance rows then
    (byPosition rows).getLast?.map fun keeper => (keeper, (byPosition rows).dropLast)
  else none

/-- The length of the first prefix whose shares are the excess; a prefix beyond it ends the
search. -/
def cleanPrefixLen (excess : ℚ) : (cum : ℚ) → (index : ℕ) → List Entry → Option ℕ
  | _, _, [] => none
  | cum, index, entry :: rest =>
    if |cum + entry.shares - excess| ≤ tolerance then some (index + 1)
    else if excess + tolerance < cum + entry.shares then none
    else cleanPrefixLen excess (cum + entry.shares) (index + 1) rest

inductive Verdict where
  | divergent
  | merged (keeper : Entry) (absorbed : List Entry)
  | overbook (voided : List Entry)

/-- One round of the loop: `seen` are the rows that were enumerated, `rows` those read again. -/
def judge (balance : Option ℚ) (seen rows : List Entry) : Verdict :=
  match balance with
  | none => .divergent
  | some balance =>
    if total seen ≤ balance + tolerance then
      (mergePlan balance rows).elim .divergent fun plan => .merged plan.1 plan.2
    else
      (cleanPrefixLen (total seen - balance) 0 0 (byAge seen)).elim .divergent fun length =>
        .overbook ((byAge seen).take length)

inductive ConsolidateError where
  | voidTargetNotFound (positionId : String)
  deriving DecidableEq

def nextSequenceNo (events : List StoredEvent) (positionId : String) : ℕ :=
  Journal.nextNumber StoredEvent.positionId StoredEvent.sequenceNo events positionId

def Row.void (now : String) (row : Row) : Row :=
  { row with
    phase := .voided
    entry := { row.entry with shares := some 0, costBasisUsd := some 0 }
    updatedAt := now }

theorem Row.void_key (now : String) (row : Row) : (Row.void now row).key = row.key := rfl

theorem trimmed_void (store : Store) (now pid : String) :
    ∀ row ∈ (store.table.modify pid (Row.void now) (Row.void_key now)).rows,
      strip row.positionId = row.positionId := by
  intro row mem
  obtain ⟨old, inRows, rfl⟩ := List.mem_map.mp mem
  split_ifs
  · exact store.trimmed old inRows
  · exact store.trimmed old inRows

def voidRow (now : String) (reason : VoidReason) (store : Store) (positionId : String) :
    Except ConsolidateError Store :=
  match store.table.find positionId with
  | none => .error (.voidTargetNotFound positionId)
  | some row => .ok { store with
      table := store.table.modify positionId (Row.void now) (Row.void_key now)
      trimmed := trimmed_void store now positionId
      events := store.events ++ [{
        positionId, sequenceNo := nextSequenceNo store.events positionId, eventType := .adminVoided
        occurredAt := now, phaseBefore := some row.phase, phaseAfter := some .voided
        strategyKey := row.strategyKey, audit := some (.voided reason) }] }

def recordSuperseded (now : String) (keeper : Entry) (absorbed : List String) (store : Store) :
    Store :=
  let keeperId := strip keeper.id
  if store.admitsSuperseded then
    { store with events := store.events ++ [{
        positionId := keeperId, sequenceNo := nextSequenceNo store.events keeperId
        eventType := .positionIdentitySuperseded, occurredAt := now,
        phaseAfter := some keeper.row.phase
        strategyKey := strip keeper.row.strategyKey, audit := some (.superseded absorbed) }] }
  else
    { store with reviewItems := store.reviewItems ++ [{
        keeperId, absorbedIds := absorbed
        exposureBoundUsd := keeper.row.entry.costBasisUsd.filter fun cost => 0 ≤ cost }] }

def Verdict.voided : Verdict → List String
  | .divergent => []
  | .merged _ absorbed => absorbed.map fun entry => strip entry.id
  | .overbook voided => voided.map Entry.id

def Verdict.settle (now : String) (store : Store) : Verdict → Except ConsolidateError Store
  | .divergent => .ok store
  | .merged keeper absorbed => do
      let ids := absorbed.map fun entry => strip entry.id
      let store ← ids.foldlM (voidRow now .duplicateOpenRowsMerged) store
      return recordSuperseded now keeper ids store
  | .overbook voided => (voided.map Entry.id).foldlM (voidRow now .duplicateConsolidated) store

/-- `_enumerate_duplicates`: the tokens with more than one open row. -/
def duplicates (store : Store) : List String :=
  (store.table.rows.filterMap fun row =>
      (heldToken row).filter fun _ => row.phase ∈ openPhases).dedup.filter
    fun token => 1 < (entries store token).length

structure Pass where
  store : Store
  report : List (String × Verdict) := []

/-- One token of the loop, whose rows were enumerated in `seen`. -/
def consolidateToken (snapshot : ChainSnapshot) (now : String) (seen : Store) (pass : Pass)
    (token : String) : Except ConsolidateError Pass := do
  let verdict := judge (snapshot.shares token) (entries seen token) (entries pass.store token)
  let store ← verdict.settle now pass.store
  return ⟨store, pass.report ++ [(token, verdict)]⟩

def consolidate (snapshot : ChainSnapshot) (now : String) (store : Store) :
    Except ConsolidateError Pass :=
  (duplicates store).foldlM (consolidateToken snapshot now store) { store }

end Zeus.DuplicateConsolidator
