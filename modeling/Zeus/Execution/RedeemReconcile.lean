import Mathlib.Data.Char
import Mathlib.Data.List.Lex
import Zeus.Execution.RedeemProofs
import Zeus.Lib.KeyedTable

/-! `reconcile_pending_redeems` takes the commands whose transaction has a hash, oldest first and at
most a batch, and moves each to the state that its receipt proves. -/

namespace Zeus.Redeem

open PyText (lower)
open FillCashProof (Text hexOf)

inductive SettlementState where
  | intentCreated | submitted | txHashed | confirmed | failed | retrying | reviewRequired
  | operatorRequired
  deriving DecidableEq

/-- What `error_payload` holds; the payloads of other writers have only their code here. -/
inductive ErrorPayload where
  | misrouted (wrongAdapterInLogs expected : Text) (previousTxHash : String)
  | negRiskReview (errorCode : ErrorCode) (conditionId : Text) (payoutFromReceipt : Option ℕ)
      (expectedAmountPerSlot : Option ℤ) (txHash : String)
  | standardReview (errorCode : ErrorCode) (conditionId : Text) (payoutFromReceipt : Option ℕ)
      (expectedPayoutMicro : Option ℤ) (txHash : String)
  | receipt (receipt : Receipt)
  | other (errorCode : Option ErrorCode)
  deriving DecidableEq

def ErrorPayload.errorCode : ErrorPayload → Option ErrorCode
  | .misrouted _ _ _ => some .negRiskMisrouted
  | .negRiskReview code _ _ _ _ | .standardReview code _ _ _ _ => some code
  | .receipt _ => none
  | .other code => code

/-- A row of `settlement_commands`. -/
structure Command where
  commandId : String
  state : SettlementState
  conditionId : Text
  pusdAmountMicro : Option ℤ
  tokenAmounts : Option (List (String × Option ℚ))
  txHash : Option String
  (blockNumber confirmationCount : Option ℤ)
  requestedAt : String
  terminalAt : Option String
  errorPayload : Option ErrorPayload
  deriving DecidableEq

abbrev Commands := KeyedTable Command.commandId

/-- A row of `settlement_command_events`. -/
structure Event where
  commandId : String
  eventType : SettlementState
  receipt : Receipt
  error : Option ErrorPayload
  recordedAt : String
  deriving DecidableEq

structure Ledger where
  commands : Commands
  events : List Event

structure SettlementResult where
  commandId : String
  state : SettlementState
  txHash : String
  blockNumber : Option ℤ
  confirmationCount : ℤ
  rawResponse : Receipt
  errorPayload : Option ErrorPayload
  deriving DecidableEq

/-- What a call reads besides the table: the chain, the kind of a market, the size of the batch, and
how many of its rows the clock allows. -/
structure Tick where
  receipt : String → Option Receipt
  currentBlock : Option ℤ
  lookupNegRisk : Text → Option Bool
  batchCap : ℤ
  affordable : ℕ
  now : String

inductive Outcome where
  | deferred
  | misrouted (error : ErrorPayload)
  | review (error : ErrorPayload)
  | confirmed | failed
  deriving DecidableEq

def Outcome.state : Outcome → Option SettlementState
  | .deferred => none
  | .misrouted _ => some .operatorRequired
  | .review _ => some .reviewRequired
  | .confirmed => some .confirmed
  | .failed => some .failed

/-- `wrong_adapter_in_logs`. -/
def wrongAdaptersInLogs (logs : List Log) : Text :=
  [','].intercalate ((payoutRedemptionEmitters logs).insertionSort (· ≤ ·))

def Proof.outcome (review : ErrorCode → Option ℕ → ErrorPayload) (proof : Proof) : Outcome :=
  match proof.errorCode with
  | some code => .review (review code proof.payout)
  | none => .confirmed

theorem Proof.outcome_state (review : ErrorCode → Option ℕ → ErrorPayload) (proof : Proof) :
    (proof.outcome review).state =
      if proof.errorCode = none then some .confirmed else some .reviewRequired := by
  unfold Proof.outcome
  cases proof.errorCode <;> rfl

def negRiskOutcome (row : Command) (txHash : String) (logs : List Log) : Outcome :=
  if routedToNegRiskAdapter logs then
    (negRiskProof (lower row.conditionId) (reconcileAmountPerSlot row.tokenAmounts) logs).outcome
      fun code payout =>
      .negRiskReview code row.conditionId payout (reconcileAmountPerSlot row.tokenAmounts) txHash
  else .misrouted (.misrouted (wrongAdaptersInLogs logs) negRiskAdapterAddress txHash)

def standardOutcome (row : Command) (txHash : String) (logs : List Log) : Outcome :=
  (standardProof (lower row.conditionId) row.pusdAmountMicro false logs).outcome fun code payout =>
    .standardReview code row.conditionId payout row.pusdAmountMicro txHash

/-- The branches of the loop body. The kind of the market is looked up for a successful receipt
only; an unknown kind leaves the command for the next call. -/
def Tick.outcome (tick : Tick) (row : Command) (txHash : String) (receipt : Receipt) : Outcome :=
  match receipt.status with
  | .success =>
    match tick.lookupNegRisk row.conditionId with
    | none => .deferred
    | some true => negRiskOutcome row txHash receipt.logs
    | some false => standardOutcome row txHash receipt.logs
  | .failed => .failed
  | .unknown => .deferred

def Tick.confirmationCount (tick : Tick) (blockNumber : Option ℤ) : ℤ :=
  match tick.currentBlock, blockNumber with
  | some current, some block => max 0 (current - block + 1)
  | _, _ => 0

/-- `_transition` into a terminal state. -/
def Command.transition (tick : Tick) (receipt : Receipt) (state : SettlementState)
    (error : Option ErrorPayload) (row : Command) : Command :=
  { row with
    state
    blockNumber := receipt.blockNumber.or row.blockNumber
    confirmationCount := some (tick.confirmationCount receipt.blockNumber)
    terminalAt := some tick.now
    errorPayload := error }

/-- The UPDATE of a row. The misrouted command is not terminal: it waits for another transaction. -/
def Outcome.write (tick : Tick) (receipt : Receipt) : Outcome → Command → Command
  | .deferred, row => row
  | .misrouted error, row =>
    { row with state := .operatorRequired, terminalAt := none, errorPayload := some error }
  | .review error, row => row.transition tick receipt .reviewRequired (some error)
  | .confirmed, row => row.transition tick receipt .confirmed none
  | .failed, row => row.transition tick receipt .failed (some (.receipt receipt))

def Outcome.events (tick : Tick) (row : Command) (receipt : Receipt) : Outcome → List Event
  | .deferred => []
  | .misrouted error => [⟨row.commandId, .operatorRequired, receipt, some error, tick.now⟩]
  | .review _ => [⟨row.commandId, .reviewRequired, receipt, none, tick.now⟩]
  | .confirmed => [⟨row.commandId, .confirmed, receipt, none, tick.now⟩]
  | .failed => [⟨row.commandId, .failed, receipt, none, tick.now⟩]

def Outcome.results (tick : Tick) (row : Command) (txHash : String) (receipt : Receipt) :
    Outcome → List SettlementResult
  | .deferred => []
  | .misrouted _ =>
    [⟨row.commandId, .operatorRequired, txHash, none, 0, receipt,
        some (.other (some .negRiskMisrouted))⟩]
  | .review error => [⟨row.commandId, .reviewRequired, txHash, receipt.blockNumber,
      tick.confirmationCount receipt.blockNumber, receipt, some error⟩]
  | .confirmed => [⟨row.commandId, .confirmed, txHash, receipt.blockNumber,
      tick.confirmationCount receipt.blockNumber, receipt, none⟩]
  | .failed => [⟨row.commandId, .failed, txHash, receipt.blockNumber,
      tick.confirmationCount receipt.blockNumber, receipt, some (.receipt receipt)⟩]

theorem Outcome.write_key (tick : Tick) (rcpt : Receipt) (out : Outcome) (row : Command) :
    (out.write tick rcpt row).commandId = row.commandId := by
  cases out <;> rfl

theorem Outcome.write_state (tick : Tick) (rcpt : Receipt) (out : Outcome) (row : Command) :
    (out.write tick rcpt row).state = out.state.getD row.state := by
  cases out <;> rfl

/-- `recheckable_review_errors`. -/
def recheckable (row : Command) : Bool :=
  row.errorPayload.bind ErrorPayload.errorCode = some .negRiskAmountMismatch

/-- `LIMIT`: a negative one is none. -/
def limit (cap : ℤ) (rows : List Command) : List Command :=
  if cap < 0 then rows else rows.take cap.toNat

def oldestFirst (rows : List Command) : List Command :=
  rows.insertionSort fun first second => first.requestedAt < second.requestedAt ∨
      first.requestedAt = second.requestedAt ∧ first.commandId ≤ second.commandId

def hashedRows (tick : Tick) (commands : Commands) : List Command :=
  limit tick.batchCap
    (oldestFirst (commands.rows.filter fun row => row.txHash.isSome ∧ row.state = .txHashed))

def reviewRows (tick : Tick) (commands : Commands) : List Command :=
  (oldestFirst (commands.rows.filter fun row => row.txHash.isSome ∧
        row.state = .reviewRequired ∧
        recheckable row)).take
    (tick.batchCap - (hashedRows tick commands).length).toNat

/-- The rows that the loop reaches before the clock stops it. -/
def reached (tick : Tick) (commands : Commands) : List Command :=
  (hashedRows tick commands ++ reviewRows tick commands).take tick.affordable

def Tick.receiptOf (tick : Tick) (row : Command) : Option (String × Receipt) :=
  row.txHash.bind fun txHash => (tick.receipt txHash).map fun receipt => (txHash, receipt)

def settleRow (tick : Tick) (state : Ledger × List SettlementResult) (row : Command) :
    Ledger × List SettlementResult :=
  match tick.receiptOf row with
  | none => state
  | some (txHash, receipt) =>
    let outcome := tick.outcome row txHash receipt
    ({ commands := state.1.commands.modify row.commandId (outcome.write tick receipt)
          (outcome.write_key tick receipt)
       events := state.1.events ++ outcome.events tick row receipt },
      state.2 ++ outcome.results tick row txHash receipt)

def reconcilePendingRedeems (tick : Tick) (ledger : Ledger) : Ledger × List SettlementResult :=
  (reached tick ledger.commands).foldl (settleRow tick) (ledger, [])

def stateAfter (tick : Tick) (ledger : Ledger) (commandId : String) : Option SettlementState :=
  ((reconcilePendingRedeems tick ledger).1.commands.find commandId).map Command.state

section
variable {tick : Tick}

def Tick.settled (tick : Tick) (row : Command) : Command :=
  match tick.receiptOf row with
  | none => row
  | some (txHash, receipt) => (tick.outcome row txHash receipt).write tick receipt row

variable {row : Command} {state : Ledger × List SettlementResult} {commands : Commands}

theorem find_settleRow_self (hs : state.1.commands.find row.commandId = some row) :
    (settleRow tick state row).1.commands.find row.commandId = some (tick.settled row) := by
  unfold settleRow Tick.settled
  cases tick.receiptOf row with
  | none => exact hs
  | some seen =>
    refine (KeyedTable.find_modify _ _ _ (Outcome.write_key tick seen.2 _) _).trans ?_
    rw [if_pos rfl, hs]
    rfl

theorem find_settleRow_other {cid : String} (other : cid ≠ row.commandId) :
    (settleRow tick state row).1.commands.find cid = state.1.commands.find cid := by
  unfold settleRow
  cases tick.receiptOf row with
  | none => rfl
  | some seen =>
    exact (KeyedTable.find_modify _ _ _ (Outcome.write_key tick seen.2 _) _).trans (if_neg other)

theorem find_foldl_other {rows : List Command} {cid : String}
    (hab : cid ∉ rows.map Command.commandId) :
    (rows.foldl (settleRow tick) state).1.commands.find cid = state.1.commands.find cid := by
  induction rows generalizing state with
  | nil => rfl
  | cons first rest ih =>
    rw [List.map_cons, List.mem_cons, not_or] at hab
    rw [List.foldl_cons, ih hab.2, find_settleRow_other hab.1]

theorem find_foldl_mem {rows : List Command} (nd : (rows.map Command.commandId).Nodup)
    (hs : ∀ other ∈ rows, state.1.commands.find other.commandId = some other) (mem : row ∈ rows) :
    (rows.foldl (settleRow tick) state).1.commands.find row.commandId =
      some (tick.settled row) := by
  induction rows generalizing state with
  | nil => cases mem
  | cons first rest ih =>
    obtain ⟨fresh, ndr⟩ := List.nodup_cons.mp nd
    rw [List.foldl_cons]
    rcases List.mem_cons.mp mem with rfl | later
    · rw [find_foldl_other fresh]
      exact find_settleRow_self (hs row List.mem_cons_self)
    · apply ih ndr _ later
      intro other hp
      have differs : other.commandId ≠ first.commandId := by
        intro same
        exact fresh (same ▸ List.mem_map_of_mem hp)
      rw [find_settleRow_other differs]
      exact hs other (List.mem_cons_of_mem first hp)

theorem limit_sublist (cap : ℤ) (rows : List Command) : (limit cap rows).Sublist rows := by
  unfold limit
  split
  · exact List.Sublist.refl rows
  · exact List.take_sublist _ rows

theorem mem_hashedRows (mem : row ∈ hashedRows tick commands) :
    row ∈ commands.rows ∧ row.state = .txHashed := by
  have kept := List.mem_filter.mp ((List.mem_insertionSort _).mp ((limit_sublist _ _).subset mem))
  exact ⟨kept.1, (of_decide_eq_true kept.2).2⟩

theorem mem_reviewRows (mem : row ∈ reviewRows tick commands) :
    row ∈ commands.rows ∧ row.state = .reviewRequired := by
  have kept := List.mem_filter.mp ((List.mem_insertionSort _).mp (List.mem_of_mem_take mem))
  exact ⟨kept.1, (of_decide_eq_true kept.2).2.1⟩

theorem mem_of_reached (mem : row ∈ reached tick commands) : row ∈ commands.rows := by
  rcases List.mem_append.mp (List.mem_of_mem_take mem) with hashed | review
  · exact (mem_hashedRows hashed).1
  · exact (mem_reviewRows review).1

theorem nodup_oldestFirst (keep : Command → Bool) :
    ((oldestFirst (commands.rows.filter keep)).map Command.commandId).Nodup := by
  refine ((List.perm_insertionSort _ _).map _).nodup_iff.mpr ?_
  exact commands.nodup.sublist (List.filter_sublist.map _)

theorem nodup_reached (commands : Commands) :
    ((reached tick commands).map Command.commandId).Nodup := by
  apply List.Nodup.sublist ((List.take_sublist _ _).map _)
  rw [List.map_append, List.nodup_append]
  refine ⟨(nodup_oldestFirst _).sublist ((limit_sublist _ _).map _),
    (nodup_oldestFirst _).sublist ((List.take_sublist _ _).map _), ?_⟩
  intro first inHashed snd inReview same
  obtain ⟨hashed, memberHashed, rfl⟩ := List.mem_map.mp inHashed
  obtain ⟨review, memberReview, rfl⟩ := List.mem_map.mp inReview
  obtain ⟨storedHashed, stateHashed⟩ := mem_hashedRows memberHashed
  obtain ⟨storedReview, stateReview⟩ := mem_reviewRows memberReview
  cases List.inj_on_of_nodup_map commands.nodup storedHashed storedReview same
  cases stateHashed.symm.trans stateReview

theorem find_reconcilePendingRedeems {ledger : Ledger} (hs : row ∈ ledger.commands.rows) :
    (reconcilePendingRedeems tick ledger).1.commands.find row.commandId =
      some (if row ∈ reached tick ledger.commands then tick.settled row else row) := by
  by_cases taken : row ∈ reached tick ledger.commands
  · rw [if_pos taken]
    exact find_foldl_mem (nodup_reached _)
      (fun other mem => KeyedTable.find_of_mem (mem_of_reached mem)) taken
  · rw [if_neg taken]
    refine (find_foldl_other ?_).trans (KeyedTable.find_of_mem hs)
    intro hp
    obtain ⟨other, mem, same⟩ := List.mem_map.mp hp
    exact taken (List.inj_on_of_nodup_map ledger.commands.nodup (mem_of_reached mem) hs same ▸ mem)

theorem stateAfter_eq {ledger : Ledger} {txHash : String} {rcpt : Receipt}
    (hs : row ∈ ledger.commands.rows) (hash : row.txHash = some txHash)
    (hf : tick.receipt txHash = some rcpt) :
    stateAfter tick ledger row.commandId =
      some (if row ∈ reached tick ledger.commands then
          (tick.outcome row txHash rcpt).state.getD row.state
        else row.state) := by
  have seen : tick.receiptOf row = some (txHash, rcpt) := by
    simp [Tick.receiptOf, hash, hf]
  rw [stateAfter, find_reconcilePendingRedeems hs, Option.map_some]
  split
  · simp only [Tick.settled, seen, Outcome.write_state]
  · rfl
end

def Tick.withLogs (tick : Tick) (txHash : String) (logs : List Log) : Tick :=
  { tick with
    receipt := fun hash =>
      if hash = txHash then (tick.receipt hash).map fun receipt => { receipt with logs }
      else tick.receipt hash }

def Command.AdapterStands (row : Command) (log : Log) : Prop :=
  log.carries (lower row.conditionId) = true ∧
  ∃ payout, log.Pays (reconcileAmountPerSlot row.tokenAmounts) payout

def Command.StandardStands (row : Command) (log : Log) : Prop :=
  (checkStandardRedemption row.pusdAmountMicro log).errorCode = none

/-- The logs at which the scan of a command may stop agree. -/
def Command.LogsAgree (row : Command) (negRisk : Bool) (logs : List Log) : Prop :=
  match negRisk with
  | true =>
    ∀ first ∈ logs, ∀ second ∈ logs, first.isAdapterRedemption = true →
      second.isAdapterRedemption = true → (row.AdapterStands first ↔ row.AdapterStands second)
  | false => ∀ first ∈ logs, ∀ second ∈ logs, first.decidesStandard (lower row.conditionId) = true →
      second.decidesStandard (lower row.conditionId) = true →
      (row.StandardStands first ↔ row.StandardStands second)

section
variable {row : Command} {txHash : String}

def Proof.state (proof : Proof) : SettlementState :=
  if proof.errorCode = none then .confirmed else .reviewRequired

theorem Proof.state_eq_iff {first snd : Proof} :
    first.state = snd.state ↔ (first.errorCode = none ↔ snd.errorCode = none) := by
  unfold Proof.state
  by_cases left : first.errorCode = none <;> by_cases right : snd.errorCode = none <;>
    simp [left, right]

theorem Proof.state_eq_confirmed_iff {proof : Proof} :
    proof.state = .confirmed ↔ proof.errorCode = none := by
  unfold Proof.state
  by_cases clear : proof.errorCode = none <;> simp [clear]

variable {logs : List Log}

/-- The state of a neg-risk command is decided by the first redemption of the adapter. -/
theorem negRiskOutcome_state (routed : routedToNegRiskAdapter logs = true) :
    (negRiskOutcome row txHash logs).state =
      some ((logs.find? Log.isAdapterRedemption).elim .reviewRequired fun log =>
          (checkAdapterRedemption (lower row.conditionId) (reconcileAmountPerSlot row.tokenAmounts)
              log).state) := by
  rw [negRiskOutcome, if_pos routed, Proof.outcome_state, negRiskProof_eq]
  cases logs.find? Log.isAdapterRedemption with
  | none => rfl
  | some log => exact (apply_ite some _ _ _).symm

theorem standardOutcome_state (logs : List Log) :
    (standardOutcome row txHash logs).state =
      some ((logs.find? (Log.decidesStandard (lower row.conditionId))).elim .reviewRequired
          fun log => (checkStandardRedemption row.pusdAmountMicro log).state) := by
  rw [standardOutcome, Proof.outcome_state]
  have decided := @standardProof_eq (lower row.conditionId) row.pusdAmountMicro false logs
  cases hf : logs.find? (Log.decidesStandard (lower row.conditionId)) with
  | none =>
    rw [hf] at decided
    exact if_neg (Option.ne_none_iff_isSome.mpr decided)
  | some log =>
    rw [hf] at decided
    rw [decided]
    exact (apply_ite some _ _ _).symm

theorem routedToNegRiskAdapter_perm {order : List Log} (same : order.Perm logs) :
    routedToNegRiskAdapter order = routedToNegRiskAdapter logs :=
  same.any_eq

theorem routed_of_isAdapterRedemption {log : Log} (mem : log ∈ logs)
    (rdm : log.isAdapterRedemption = true) : routedToNegRiskAdapter logs = true :=
  List.any_eq_true.mpr ⟨log, mem, decide_eq_true (of_decide_eq_true rdm).1⟩

theorem negRiskOutcome_perm_iff (logs : List Log) : (∀ order : List Log, order.Perm logs →
      (negRiskOutcome row txHash order).state = (negRiskOutcome row txHash logs).state) ↔
      row.LogsAgree true logs := by
  by_cases routed : routedToNegRiskAdapter logs = true
  · have routedIn : ∀ order : List Log, order.Perm logs → routedToNegRiskAdapter order = true :=
      fun order same => (routedToNegRiskAdapter_perm same).trans routed
    have scanned := @FirstMatch.verdict_perm_iff _ _ Log.isAdapterRedemption logs fun hf =>
      hf.elim SettlementState.reviewRequired fun log =>
        (checkAdapterRedemption (lower row.conditionId) (reconcileAmountPerSlot row.tokenAmounts)
            log).state
    simp only [Option.elim_some, Proof.state_eq_iff, checkAdapterRedemption_stands_iff] at scanned
    rw [Command.LogsAgree]
    refine Iff.trans ?_ scanned
    refine forall_congr' fun order => forall_congr' fun same => ?_
    rw [negRiskOutcome_state (routedIn order same), negRiskOutcome_state routed, Option.some_inj]
  · -- no log of the adapter in any order: the command is misrouted
    have misrouted : ∀ order : List Log, order.Perm logs →
        (negRiskOutcome row txHash order).state = some .operatorRequired := by
      intro order same
      rw [negRiskOutcome, if_neg (by rwa [routedToNegRiskAdapter_perm same])]
      rfl
    constructor
    · intro _ first mem _ _ rdm
      exact absurd (routed_of_isAdapterRedemption mem rdm) routed
    · intro _ order same
      rw [misrouted order same, misrouted logs (.refl logs)]

theorem standardOutcome_perm_iff (logs : List Log) : (∀ order : List Log, order.Perm logs →
      (standardOutcome row txHash order).state = (standardOutcome row txHash logs).state) ↔
      row.LogsAgree false logs := by
  have scanned :=
    @FirstMatch.verdict_perm_iff _ _ (Log.decidesStandard (lower row.conditionId)) logs fun hf =>
    hf.elim SettlementState.reviewRequired fun log =>
      (checkStandardRedemption row.pusdAmountMicro log).state
  simp only [Option.elim_some, Proof.state_eq_iff] at scanned
  rw [Command.LogsAgree]
  refine Iff.trans ?_ scanned
  refine forall_congr' fun order => forall_congr' fun same => ?_
  rw [standardOutcome_state, standardOutcome_state, Option.some_inj]

theorem isSome_negRiskOutcome_state (logs : List Log) :
    (negRiskOutcome row txHash logs).state.isSome := by
  unfold negRiskOutcome
  split
  · rw [Proof.outcome_state]
    split <;> rfl
  · rfl

theorem isSome_standardOutcome_state (logs : List Log) :
    (standardOutcome row txHash logs).state.isSome := by
  rw [standardOutcome_state]
  rfl

theorem getD_eq_getD_iff {first second : Option SettlementState} (someFirst : first.isSome)
    (someSecond : second.isSome) (state : SettlementState) :
    first.getD state = second.getD state ↔ first = second := by
  obtain ⟨left, rfl⟩ := Option.isSome_iff_exists.mp someFirst
  obtain ⟨right, rfl⟩ := Option.isSome_iff_exists.mp someSecond
  simp

theorem outcome_perm_iff (tick : Tick) (rcpt : Receipt) :
    (∀ order : List Log, order.Perm rcpt.logs →
          (tick.outcome row txHash { rcpt with logs := order }).state.getD row.state =
            (tick.outcome row txHash rcpt).state.getD row.state) ↔
      (rcpt.status = .success →
        ∀ negRisk, tick.lookupNegRisk row.conditionId = some negRisk →
          row.LogsAgree negRisk rcpt.logs) := by
  unfold Tick.outcome
  cases rcpt.status with
  | success =>
    cases tick.lookupNegRisk row.conditionId with
    | none => simp
    | some negRisk =>
      cases negRisk with
      | true =>
        simp only [getD_eq_getD_iff (isSome_negRiskOutcome_state _) (isSome_negRiskOutcome_state _),
          negRiskOutcome_perm_iff]
        simp
      | false =>
        simp only [getD_eq_getD_iff (isSome_standardOutcome_state _)
            (isSome_standardOutcome_state _),
          standardOutcome_perm_iff]
        simp
  | failed => simp
  | unknown => simp

/-- With one redemption of the condition, and that in order, the command is confirmed just when the
adapter reports no other redemption before it. -/
theorem negRiskOutcome_confirmed_iff {good : Log}
    (one : (logs.filter fun log => log.isAdapterRedemption && log.carries (lower row.conditionId)) =
        [good]) (pays : ∃ payout, good.Pays (reconcileAmountPerSlot row.tokenAmounts) payout) :
    (negRiskOutcome row txHash logs).state = some .confirmed ↔
      logs.find? Log.isAdapterRedemption = some good := by
  have kept : good ∈
      logs.filter fun log => log.isAdapterRedemption && log.carries (lower row.conditionId) :=
    one ▸ List.mem_singleton_self good
  obtain ⟨mem, both⟩ := List.mem_filter.mp kept
  obtain ⟨rdm, carried⟩ := Bool.and_eq_true_iff.mp both
  rw [negRiskOutcome_state (routed_of_isAdapterRedemption mem rdm), Option.some_inj]
  constructor
  · intro conf
    cases hf : logs.find? Log.isAdapterRedemption with
    | none =>
      rw [hf] at conf
      cases conf
    | some log =>
      rw [hf] at conf
      have stands := checkAdapterRedemption_stands_iff.mp ((Proof.state_eq_confirmed_iff).mp conf)
      have also : log ∈
          logs.filter fun log => log.isAdapterRedemption && log.carries (lower row.conditionId) :=
        List.mem_filter.mpr ⟨List.mem_of_find?_eq_some hf,
          Bool.and_eq_true_iff.mpr ⟨List.find?_some hf, stands.1⟩⟩
      rw [one, List.mem_singleton] at also
      rw [also]
  · intro hf
    rw [hf]
    exact Proof.state_eq_confirmed_iff.mpr (checkAdapterRedemption_stands_iff.mpr ⟨carried, pays⟩)
end

/-- The adapter's scan judges by the first redemption that the adapter reports, of whatever
condition. One redemption of the command's condition, in order, confirms it just when no other
stands before it; and the order of the logs does not matter just when the logs at which the scan may
stop agree. -/
theorem redeem_state_follows_log_order (tick : Tick) (ledger : Ledger) (row : Command)
    (txHash : String) (rcpt : Receipt) (hs : row ∈ ledger.commands.rows)
    (hash : row.txHash = some txHash) (hf : tick.receipt txHash = some rcpt) :
    (∀ good : Log, row ∈ reached tick ledger.commands → row.state = .txHashed →
        rcpt.status = .success → tick.lookupNegRisk row.conditionId = some true →
        (rcpt.logs.filter fun log => log.isAdapterRedemption &&
              log.carries (lower row.conditionId)) = [good] →
        (∃ payout, good.Pays (reconcileAmountPerSlot row.tokenAmounts) payout) →
        (stateAfter tick ledger row.commandId = some .confirmed ↔
            rcpt.logs.find? Log.isAdapterRedemption = some good)) ∧
    ((∀ order : List Log, order.Perm rcpt.logs →
            stateAfter (tick.withLogs txHash order) ledger row.commandId =
              stateAfter tick ledger row.commandId) ↔
        (row ∈ reached tick ledger.commands → rcpt.status = .success →
          ∀ negRisk, tick.lookupNegRisk row.conditionId = some negRisk →
            row.LogsAgree negRisk rcpt.logs)) := by
  constructor
  · intro good taken hashed success negRisk one pays
    have out : tick.outcome row txHash rcpt = negRiskOutcome row txHash rcpt.logs := by
      simp only [Tick.outcome, success, negRisk]
    rw [stateAfter_eq hs hash hf, if_pos taken, out, hashed, Option.some_inj,
      ← @negRiskOutcome_confirmed_iff row txHash _ _ one pays]
    obtain ⟨state, moved⟩ :=
      Option.isSome_iff_exists.mp (@isSome_negRiskOutcome_state row txHash rcpt.logs)
    rw [moved, Option.getD_some, Option.some_inj]
  · rw [← @outcome_perm_iff row txHash tick rcpt]
    have replaced : ∀ order : List Log,
        (tick.withLogs txHash order).receipt txHash = some { rcpt with logs := order } := by
      intro order
      simp [Tick.withLogs, hf]
    -- the batch and the kind of the market are those of the call with the logs as they were
    have after : ∀ order : List Log, stateAfter (tick.withLogs txHash order) ledger row.commandId =
        some (if row ∈ reached tick ledger.commands then
          (tick.outcome row txHash { rcpt with logs := order }).state.getD row.state else
            row.state) :=
      fun order => stateAfter_eq hs hash (replaced order)
    simp only [after, stateAfter_eq hs hash hf, Option.some_inj]
    by_cases taken : row ∈ reached tick ledger.commands
    · simp only [taken, if_true, true_imp_iff]
    · simp only [taken, if_false, false_imp_iff, implies_true]

def sampleRedemption (condition : ℕ) : Log where
  address := some (.text negRiskAdapterAddress)
  topics := [.text negRiskRedemptionTopic, .text (hexOf 32 7), .text (hexOf 32 condition)]
  data := some (.text (hexOf 64 1))

def sampleCommand : Command where
  commandId := "redeem"
  state := .txHashed
  conditionId := hexOf 32 1
  pusdAmountMicro := none
  tokenAmounts := none
  txHash := some "tx"
  blockNumber := none
  confirmationCount := some 0
  requestedAt := "2026-05-19"
  terminalAt := none
  errorPayload := none

def sampleLedger : Ledger := ⟨⟨[sampleCommand], List.nodup_singleton _⟩, []⟩

def sampleTick (logs : List Log) : Tick where
  receipt := fun _ => some ⟨.success, some 5, logs⟩
  currentBlock := some 9
  lookupNegRisk := fun _ => some true
  batchCap := 50
  affordable := 50
  now := "2026-05-20"

theorem sampleRedemption_pays :
    ∃ payout,
      (sampleRedemption 1).Pays (reconcileAmountPerSlot sampleCommand.tokenAmounts) payout := by
  refine ⟨1, by decide +kernel, Nat.one_pos, ?_⟩
  intro amt hrec
  cases hrec

/-- The redemption of the command stands before that of another condition. -/
theorem ownRedemption_first_confirms :
    stateAfter (sampleTick [sampleRedemption 1, sampleRedemption 2]) sampleLedger "redeem" =
      some .confirmed :=
  ((redeem_state_follows_log_order (sampleTick [sampleRedemption 1, sampleRedemption 2])
        sampleLedger sampleCommand "tx"
    ⟨.success, some 5, [sampleRedemption 1, sampleRedemption 2]⟩ List.mem_cons_self rfl rfl).1
      (sampleRedemption 1)
      (by decide +kernel) rfl rfl rfl (by decide +kernel) sampleRedemption_pays).mpr
        (by decide +kernel)

/-- The same logs in the other order: the command goes to review, although its own redemption is in
order. -/
theorem otherRedemption_first_reviews :
    sampleCommand ∈
      reached (sampleTick [sampleRedemption 2, sampleRedemption 1]) sampleLedger.commands ∧
    ([sampleRedemption 2, sampleRedemption 1].filter fun log => log.isAdapterRedemption &&
          log.carries (lower sampleCommand.conditionId)) = [sampleRedemption 1] ∧
    (∃ payout,
        (sampleRedemption 1).Pays (reconcileAmountPerSlot sampleCommand.tokenAmounts) payout) ∧
    stateAfter (sampleTick [sampleRedemption 2, sampleRedemption 1]) sampleLedger "redeem" =
      some .reviewRequired ∧
    stateAfter ((sampleTick [sampleRedemption 2, sampleRedemption 1]).withLogs "tx"
        [sampleRedemption 1, sampleRedemption 2]) sampleLedger "redeem" = some .confirmed :=
  ⟨by decide +kernel, by decide +kernel, sampleRedemption_pays, by decide +kernel,
    by decide +kernel⟩

end Zeus.Redeem
