import Zeus.Lib.KeyedTable

/-! A command wraps USDC.e of the Safe into pUSD in an approve and a wrap. The submitter, the
same-tick path and the reconciler move the commands by compare-and-swap on the state. A step of a
worker is one statement or one call. An UPDATE may fail with a lock error; nothing is written
then. -/

namespace Zeus.WrapCommands

inductive TxKind where
  | approve | wrap
  deriving DecidableEq

/-- A Safe transaction stands for its hash. -/
structure Tx where
  kind : TxKind
  (amountMicro nonce : ℕ)
  deriving DecidableEq

structure Receipt where
  status : Bool
  blockNumber : ℕ
  deriving DecidableEq

inductive WrapState where
  | requested | approveTxHashed | approved | txHashed | confirmed | failed
  deriving DecidableEq

def wrapTerminalStates : List WrapState := [.confirmed, .failed]

/-- `_LEGAL_PREDECESSORS`; any state that is not terminal may fail. -/
def legalPredecessors : WrapState → Option (List WrapState)
  | .approveTxHashed => some [.requested]
  | .approved => some [.approveTxHashed]
  | .txHashed => some [.approved, .requested]
  | .confirmed => some [.txHashed]
  | .failed | .requested => none

def WrapState.admits (target current : WrapState) : Bool :=
  match legalPredecessors target with
  | none => current ∉ wrapTerminalStates
  | some predecessors => current ∈ predecessors

inductive Refusal where
  | notSent (message : String)
  | rejected (target observed : WrapState)
  | missing (commandId : String)
  | locked
  deriving DecidableEq

inductive ErrorPayload where
  | txReverted (tx : Tx) (txKind : Option TxKind)
  | error (error : Refusal) (txKind : TxKind)
  deriving DecidableEq

/-- A row of `wrap_unwrap_commands` with direction WRAP. -/
structure Command where
  commandId : String
  state : WrapState := .requested
  amountMicro : ℕ
  requestedAt : ℤ
  txHash : Option Tx := none
  blockNumber : Option ℕ := none
  confirmationCount : ℕ := 0
  errorPayload : Option ErrorPayload := none
  txKind : Option TxKind := none
  deriving DecidableEq

abbrev Commands := KeyedTable Command.commandId

structure Transition where
  target : WrapState
  txHash : Option Tx := none
  blockNumber : Option ℕ := none
  confirmationCount : Option ℕ := none
  errorPayload : Option ErrorPayload := none
  txKind : Option TxKind := none

def markWrapApproveTxHashed (tx : Tx) : Transition :=
  { target := .approveTxHashed, txHash := some tx, txKind := some .approve }

def markWrapApproved : Transition := { target := .approved }

def markWrapTxHashed (tx : Tx) : Transition :=
  { target := .txHashed, txHash := some tx, txKind := some .wrap }

def confirmWrap (confirmationCount : ℕ) (blockNumber : Option ℕ) : Transition :=
  { target := .confirmed, blockNumber, confirmationCount := some confirmationCount }

def failWrap (errorPayload : ErrorPayload) : Transition :=
  { target := .failed, errorPayload := some errorPayload }

def Command.moved (transition : Transition) (command : Command) : Command :=
  { command with
    state := transition.target
    txHash := transition.txHash.or command.txHash
    blockNumber := transition.blockNumber.or command.blockNumber
    confirmationCount := transition.confirmationCount.getD command.confirmationCount
    errorPayload := transition.errorPayload.or command.errorPayload
    txKind := transition.txKind.or command.txKind }

theorem Command.moved_key (tr : Transition) (cmd : Command) :
    (cmd.moved tr).commandId = cmd.commandId := rfl

/-- `_transition`: the UPDATE goes through when the state of the row is a legal predecessor. -/
def Commands.transition (commands : Commands) (commandId : String) (transition : Transition) :
    Except Refusal Commands :=
  match commands.find commandId with
  | none => .error (.missing commandId)
  | some command =>
    if transition.target.admits command.state then
      .ok (commands.modify commandId (Command.moved transition) (Command.moved_key transition))
    else .error (.rejected transition.target command.state)

def listPendingWrapCommands (commands : Commands) : List Command :=
  (commands.rows.filter fun command => command.state ∉ wrapTerminalStates).insertionSort
    fun first second =>
    first.requestedAt < second.requestedAt ∨
      first.requestedAt = second.requestedAt ∧ first.commandId ≤ second.commandId

def actionable (commands : Commands) : List Command :=
  (listPendingWrapCommands commands).filter fun command => command.state ∈ [.requested, .approved]

/-- The rows that `reconcile_pending_wraps` reads. -/
def reconcilable (commands : Commands) : List Command :=
  (commands.rows.filter fun command => command.state ∈ [.approveTxHashed, .txHashed]).insertionSort
    fun first second => first.requestedAt ≤ second.requestedAt

def nextKind (state : WrapState) : TxKind := if state = .requested then .approve else .wrap

def Command.nextTx (command : Command) (nonce : ℕ) : Tx :=
  ⟨nextKind command.state, command.amountMicro, nonce⟩

def markHashed (tx : Tx) : Transition :=
  match tx.kind with
  | .approve => markWrapApproveTxHashed tx
  | .wrap => markWrapTxHashed tx

/-- The branches of `reconcile_pending_wraps`: the receipt is of the hash in the snapshot, the state
was read again. -/
def reconcileTransition (tx : Tx) (receipt : Receipt) (current : WrapState) : Option Transition :=
  if !receipt.status then some (failWrap (.txReverted tx none))
  else if current = .approveTxHashed then some markWrapApproved
  else if current = .txHashed then some (confirmWrap 1 (some receipt.blockNumber))
  else none

/-- The end of `_advance_one`, with the receipt of the transaction it sent. -/
def proceedsTransition (tx : Tx) (receipt : Receipt) : Transition :=
  if !receipt.status then failWrap (.txReverted tx (some tx.kind))
  else
    match tx.kind with
    | .approve => markWrapApproved
    | .wrap => confirmWrap 1 (some receipt.blockNumber)

/-- A worker between two of its steps; the rows are the rest of its snapshot. -/
inductive Stage where
  | idle
  | reconciling (rows : List Command)
  | answered (row : Command) (tx : Tx) (receipt : Receipt) (rows : List Command)
  | routed (row : Command) (tx : Tx) (receipt : Receipt) (current : WrapState) (rows : List Command)
  | submitting (rows : List Command)
  | submitted (row : Command) (tx : Tx) (rows : List Command)
  | failing (row : Command) (error : Refusal) (rows : List Command)
  | proceeding (row : Command)
  | proceeded (row : Command) (tx : Tx)
  | marked (commandId : String) (tx : Tx)
  | settling (commandId : String) (tx : Tx) (receipt : Receipt)

def Stage.write : Stage → Option (String × Transition)
  | .routed row tx receipt current _ =>
    (reconcileTransition tx receipt current).map (row.commandId, ·)
  | .submitted row tx _ | .proceeded row tx => some (row.commandId, markHashed tx)
  | .failing row error _ => some (row.commandId, failWrap (.error error (nextKind row.state)))
  | .settling commandId tx receipt => some (commandId, proceedsTransition tx receipt)
  | _ => none

def Stage.applied : Stage → Stage
  | .routed _ _ _ _ rows => .reconciling rows
  | .submitted _ _ rows | .failing _ _ rows => .submitting rows
  | .proceeded row tx => .marked row.commandId tx
  | _ => .idle

/-- The reconciler goes on to the next row when the swap was lost and stops at any other error; the
submitter fails the command at any error. -/
def Stage.refused (error : Refusal) : Stage → Stage
  | .routed _ _ _ _ rows =>
    match error with
    | .rejected _ _ => .reconciling rows
    | _ => .idle
  | .submitted row _ rows => .failing row error rows
  | .failing _ _ rows => .submitting rows
  | _ => .idle

def Stage.skipped : Stage → Stage
  | .routed _ _ _ _ rows => .reconciling rows
  | stage => stage

/-- `broadcasts` are the transactions sent for a command, `mined` their receipts and `returned` the
receipts that a worker has been given. -/
structure System (ι : Type) where
  commands : Commands
  broadcasts : List (String × Tx)
  mined : Tx → Option Receipt
  returned : List (Tx × Receipt)
  stage : ι → Stage

inductive Op (ι : Type) where
  | enqueue (commandId : String) (amountMicro : ℕ) (requestedAt : ℤ)
  | mine (tx : Tx) (receipt : Receipt)
  | reconcile (worker : ι)
  | submit (worker : ι)
  | proceed (worker : ι)
  | proceedNew (worker : ι) (commandId : String) (amountMicro : ℕ) (requestedAt : ℤ)
  | broadcast (worker : ι) (reply : Except String ℕ)
  | receipt (worker : ι) (answers : Bool)
  | reread (worker : ι)
  | write (worker : ι) (locked : Bool)

section
variable {ι : Type} [DecidableEq ι]

def System.become (system : System ι) (worker : ι) (stage : Stage) : System ι :=
  { system with stage := Function.update system.stage worker stage }

def System.send (system : System ι) (row : Command) (nonce : ℕ) : System ι :=
  { system with broadcasts := system.broadcasts ++ [(row.commandId, row.nextTx nonce)] }

def System.receiptOf (system : System ι) (tx : Tx) (answers : Bool) : Option Receipt :=
  if answers then system.mined tx else none

def System.give (system : System ι) (tx : Tx) (receipt : Receipt) : System ι :=
  { system with returned := system.returned ++ [(tx, receipt)] }

def System.step (system : System ι) : Op ι → System ι
  | .enqueue commandId amountMicro requestedAt =>
    match system.commands.tryInsert { commandId, amountMicro, requestedAt } with
    | some commands => { system with commands }
    | none => system
  | .mine tx receipt =>
    if system.mined tx = none ∧ tx ∈ system.broadcasts.map Prod.snd then
      { system with mined := Function.update system.mined tx (some receipt) }
    else system
  | .reconcile worker =>
    match system.stage worker with
    | .idle => system.become worker (.reconciling (reconcilable system.commands))
    | _ => system
  | .submit worker =>
    match system.stage worker with
    | .idle => system.become worker (.submitting (actionable system.commands))
    | _ => system
  | .proceed worker =>
    match system.stage worker, actionable system.commands with
    | .idle, row :: _ => system.become worker (.proceeding row)
    | _, _ => system
  | .proceedNew worker commandId amountMicro requestedAt =>
    -- fresh proceeds: the row is enqueued and driven without another read
    let row : Command := { commandId, amountMicro, requestedAt }
    match system.stage worker, system.commands.tryInsert row with
    | .idle, some commands => ({ system with commands }).become worker (.proceeding row)
    | _, _ => system
  | .broadcast worker reply =>
    match system.stage worker, reply with
    | .submitting [], _ => system.become worker .idle
    | .submitting (row :: rows), .ok nonce =>
      (system.send row nonce).become worker (.submitted row (row.nextTx nonce) rows)
    | .submitting (row :: rows), .error message =>
      system.become worker (.failing row (.notSent message) rows)
    | .proceeding row, .ok nonce =>
      (system.send row nonce).become worker (.proceeded row (row.nextTx nonce))
    | .proceeding _, .error _ => system.become worker .idle
    | _, _ => system
  | .receipt worker answers =>
    match system.stage worker with
    | .reconciling [] => system.become worker .idle
    | .reconciling (row :: rows) =>
      match row.txHash with
      | none => system.become worker (.reconciling rows)
      | some tx =>
        match system.receiptOf tx answers with
        | none => system.become worker (.reconciling rows)
        | some receipt => (system.give tx receipt).become worker (.answered row tx receipt rows)
    | .marked commandId tx =>
      match system.receiptOf tx answers with
      | none => system.become worker .idle
      | some receipt => (system.give tx receipt).become worker (.settling commandId tx receipt)
    | _ => system
  | .reread worker =>
    match system.stage worker with
    | .answered row tx receipt rows =>
      match system.commands.find row.commandId with
      | none => system.become worker (.reconciling rows)
      | some current => system.become worker (.routed row tx receipt current.state rows)
    | _ => system
  | .write worker locked =>
    match (system.stage worker).write with
    | none => system.become worker (system.stage worker).skipped
    | some (commandId, transition) =>
      if locked then system.become worker ((system.stage worker).refused .locked)
      else
        match system.commands.transition commandId transition with
        | .ok commands => ({ system with commands }).become worker (system.stage worker).applied
        | .error error => system.become worker ((system.stage worker).refused error)

def System.start : System ι := ⟨.empty, [], fun _ => none, [], fun _ => .idle⟩

def System.run (ops : List (Op ι)) : System ι := ops.foldl System.step .start

theorem System.run_concat (ops : List (Op ι)) (op : Op ι) :
    System.run (ops ++ [op]) = (System.run ops).step op := by
  simp [System.run]
end

end Zeus.WrapCommands
