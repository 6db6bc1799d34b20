import Zeus.Execution.WrapCommands

/-! Every write raises the rank of a state, so a row that was read is either still the row of the
table or has been overtaken. -/

namespace Zeus.WrapCommands

def WrapState.rank : WrapState → ℕ
  | .requested => 0
  | .approveTxHashed => 1
  | .approved => 2
  | .txHashed => 3
  | .confirmed | .failed => 4

theorem rank_lt_of_admits {tgt current : WrapState} (admitted : tgt.admits current = true)
    (moves : tgt ≠ .requested) : current.rank < tgt.rank := by
  cases tgt <;> cases current <;> first | contradiction | decide

theorem not_terminal_of_admits {tgt current : WrapState} (admitted : tgt.admits current = true) :
    current ∉ wrapTerminalStates := by
  cases tgt <;> cases current <;> first | contradiction | decide

theorem rank_le_of_terminal {state : WrapState} (hterm : state ∈ wrapTerminalStates)
    (next : WrapState) : next.rank ≤ state.rank := by
  cases state <;> cases next <;> first | contradiction | decide

theorem txHashed_of_admits_confirmed {current : WrapState}
    (admitted : WrapState.confirmed.admits current = true) : current = .txHashed := by
  cases current <;> first | rfl | contradiction

def TxKind.hashed : TxKind → WrapState
  | .approve => .approveTxHashed
  | .wrap => .txHashed

theorem markHashed_eq (tx : Tx) :
    (markHashed tx).target = tx.kind.hashed ∧
    (markHashed tx).txHash = some tx ∧
    (markHashed tx).txKind = some tx.kind := by
  unfold markHashed
  cases kind : tx.kind <;> exact ⟨rfl, rfl, rfl⟩

def Receipt.Mined (mined : Tx → Option Receipt) (tx : Tx) : Prop :=
  ∃ receipt, mined tx = some receipt ∧ receipt.status = true

/-- A row moves on; from the approve hash to the approval only with the receipt of that hash. -/
structure Advances (mined : Tx → Option Receipt) (before after : Command) : Prop where
  rises : before.state.rank < after.state.rank
  approval : before.state = .approveTxHashed → after.state = .approved ∨ after.state = .txHashed →
    ∃ tx, before.txHash = some tx ∧ Receipt.Mined mined tx

theorem Advances.moves {mined : Tx → Option Receipt} {before after : Command}
    (advances : Advances mined before after) : after.state ≠ before.state := by
  intro same
  have rises := advances.rises
  rw [same] at rises
  exact lt_irrefl _ rises

section
variable {ι : Type}

/-- A row that was read is the row of the table, or the table is past it. -/
def Seen (system : System ι) (row : Command) : Prop :=
  ∃ current, system.commands.find row.commandId = some current ∧
    (current = row ∨ row.state.rank < current.state.rank) ∧
    (row.state = .approveTxHashed → current.state = .approved ∨ current.state = .txHashed →
      ∃ tx, row.txHash = some tx ∧ Receipt.Mined system.mined tx)

structure Holds (system : System ι) (row : Command) (tx : Tx) : Prop where
  seen : Seen system row
  hash : row.txHash = some tx
  state : row.state = tx.kind.hashed
  sent : (row.commandId, tx) ∈ system.broadcasts

structure Waits (system : System ι) (row : Command) : Prop where
  seen : Seen system row
  state : row.state = .requested ∨ row.state = .approved

def Stage.Sound (system : System ι) : Stage → Prop
  | .idle => True
  | .reconciling rows => ∀ row ∈ rows, ∃ tx, Holds system row tx
  | .answered row tx receipt rows | .routed row tx receipt _ rows =>
    Holds system row tx ∧ (tx, receipt) ∈ system.returned ∧ ∀ row ∈ rows, ∃ tx, Holds system row tx
  | .submitting rows | .failing _ _ rows => ∀ row ∈ rows, Waits system row
  | .submitted row tx rows =>
    (row.commandId, tx) ∈ system.broadcasts ∧ ∀ row ∈ rows, Waits system row
  | .proceeding row => Waits system row
  | .proceeded row tx => (row.commandId, tx) ∈ system.broadcasts
  | .marked commandId tx => ∃ row, Holds system row tx ∧ row.commandId = commandId
  | .settling commandId tx receipt =>
    (∃ row, Holds system row tx ∧ row.commandId = commandId) ∧ (tx, receipt) ∈ system.returned

def Command.Recorded (broadcasts : List (String × Tx)) (row : Command) : Prop :=
  row.state = .approveTxHashed ∨ row.state = .txHashed →
    ∃ tx, row.txHash = some tx ∧
      row.state = tx.kind.hashed ∧
      row.txKind = some tx.kind ∧
      (row.commandId, tx) ∈ broadcasts

structure System.Sound (system : System ι) : Prop where
  truthful : ∀ tx receipt, (tx, receipt) ∈ system.returned → system.mined tx = some receipt
  recorded : ∀ row ∈ system.commands.rows, row.Recorded system.broadcasts
  sent : ∀ commandId tx, (commandId, tx) ∈ system.broadcasts → tx.kind = .wrap →
    ∃ row, system.commands.find commandId = some row ∧ WrapState.approved.rank ≤ row.state.rank
  workers : ∀ worker, (system.stage worker).Sound system

structure Grows (before after : System ι) : Prop where
  rows : ∀ commandId row, before.commands.find commandId = some row →
    ∃ later, after.commands.find commandId = some later ∧
      (later = row ∨ Advances before.mined row later)
  mined : ∀ tx receipt, before.mined tx = some receipt → after.mined tx = some receipt
  returned : before.returned ⊆ after.returned
  broadcasts : before.broadcasts ⊆ after.broadcasts

variable {before after : System ι} {row : Command} {tx : Tx}

theorem Grows.of_commands_eq (same : after.commands = before.commands)
    (mined : ∀ tx receipt, before.mined tx = some receipt → after.mined tx = some receipt)
    (ret : before.returned ⊆ after.returned) (broadcasts : before.broadcasts ⊆ after.broadcasts) :
    Grows before after :=
  ⟨fun _ row hf => ⟨row, same ▸ hf, .inl rfl⟩, mined, ret, broadcasts⟩

section
variable (grows : Grows before after)

include grows

theorem Receipt.Mined.mono (mined : Receipt.Mined before.mined tx) :
    Receipt.Mined after.mined tx := by
  obtain ⟨receipt, isMined, status⟩ := mined
  exact ⟨receipt, grows.mined tx receipt isMined, status⟩

theorem Seen.mono (seen : Seen before row) : Seen after row := by
  obtain ⟨current, hf, older, approval⟩ := seen
  obtain ⟨later, hs, same | advances⟩ := grows.rows row.commandId current hf
  · subst same
    refine ⟨later, hs, older, fun hashed moved => ?_⟩
    obtain ⟨tx, hash, mined⟩ := approval hashed moved
    exact ⟨tx, hash, mined.mono grows⟩
  · have rises := advances.rises
    refine ⟨later, hs, .inr ?_, fun hashed moved => ?_⟩
    · obtain rfl | rank := older
      · exact rises
      · exact rank.trans rises
    · obtain rfl | rank := older
      · obtain ⟨tx, hash, mined⟩ := advances.approval hashed moved
        exact ⟨tx, hash, mined.mono grows⟩
      · -- the row was past the approve hash already
        have between : current.state = .approved ∨ current.state = .txHashed := by
          rw [hashed] at rank
          obtain later | later := moved <;> rw [later] at rises <;> revert rank rises <;>
            cases current.state <;> decide
        obtain ⟨tx, hash, mined⟩ := approval hashed between
        exact ⟨tx, hash, mined.mono grows⟩

theorem Holds.mono (holds : Holds before row tx) : Holds after row tx :=
  ⟨holds.seen.mono grows, holds.hash, holds.state, grows.broadcasts holds.sent⟩

theorem Waits.mono (waits : Waits before row) : Waits after row :=
  ⟨waits.seen.mono grows, waits.state⟩

theorem Stage.Sound.mono {stage : Stage} (sound : stage.Sound before) : stage.Sound after := by
  have hold : ∀ rows : List Command, (∀ row ∈ rows, ∃ tx, Holds before row tx) →
      ∀ row ∈ rows, ∃ tx, Holds after row tx := by
    intro rows all row mem
    obtain ⟨tx, holds⟩ := all row mem
    exact ⟨tx, holds.mono grows⟩
  have waiting : ∀ rows : List Command, (∀ row ∈ rows, Waits before row) →
        ∀ row ∈ rows, Waits after row :=
    fun rows all row mem => (all row mem).mono grows
  cases stage with
  | idle => trivial
  | reconciling rows => exact hold rows sound
  | answered row tx receipt rows | routed row tx receipt current rows =>
    exact ⟨sound.1.mono grows, grows.returned sound.2.1, hold rows sound.2.2⟩
  | submitting rows | failing row error rows => exact waiting rows sound
  | submitted row tx rows => exact ⟨grows.broadcasts sound.1, waiting rows sound.2⟩
  | proceeding row => exact Waits.mono grows sound
  | proceeded row tx => exact grows.broadcasts sound
  | marked commandId tx =>
    obtain ⟨row, holds, own⟩ := sound
    exact ⟨row, holds.mono grows, own⟩
  | settling commandId tx receipt =>
    obtain ⟨⟨row, holds, own⟩, given⟩ := sound
    exact ⟨⟨row, holds.mono grows, own⟩, grows.returned given⟩
end

/-- A wrap is sent for a row that was read as approved. -/
theorem Waits.approved {system : System ι} (waits : Waits system row) {nonce : ℕ}
    (wrap : (row.nextTx nonce).kind = .wrap) : row.state = .approved := by
  refine waits.state.resolve_left fun reqd => ?_
  rw [Command.nextTx, nextKind, if_pos reqd] at wrap
  cases wrap

theorem seen_of_find {system : System ι} (hf : system.commands.find row.commandId = some row) :
    Seen system row := by
  refine ⟨row, hf, .inl rfl, fun hashed moved => ?_⟩
  rw [hashed] at moved
  obtain moved | moved := moved <;> cases moved

theorem Holds.eq_of_state {system : System ι} {current : Command} (holds : Holds system row tx)
    (hf : system.commands.find row.commandId = some current) (state : current.state = row.state) :
    current = row := by
  obtain ⟨now, hs, older, -⟩ := holds.seen
  cases hs.symm.trans hf
  obtain same | rank := older
  · exact same
  · rw [state] at rank
    exact absurd rank (lt_irrefl _)
end

section
variable {ι : Type} {system : System ι} {worker : ι} {commandId : String} {transition : Transition}
  {current : Command}

/-- A worker is about to move a row that admits it. -/
structure System.Writes (system : System ι) (worker : ι) (commandId : String)
    (transition : Transition) (current : Command) : Prop where
  write : (system.stage worker).write = some (commandId, transition)
  found : system.commands.find commandId = some current
  admitted : transition.target.admits current.state = true

structure Answered (system : System ι) (commandId : String) (row : Command) (tx : Tx)
    (receipt : Receipt) : Prop where
  own : row.commandId = commandId
  holds : Holds system row tx
  given : (tx, receipt) ∈ system.returned

/-- Where a write comes from: a transaction that was sent, a submitter that gave up, or a
receipt. -/
inductive System.Source (system : System ι) (worker : ι) (commandId : String) : Transition → Prop
  | sent {tx : Tx} (sent : (commandId, tx) ∈ system.broadcasts) : Source system worker commandId
    (markHashed tx)
  | gaveUp {row : Command} {error : Refusal} {rows : List Command}
      (stage : system.stage worker = .failing row error rows) (own : row.commandId = commandId)
      (payload : ErrorPayload) : Source system worker commandId (failWrap payload)
  | reverted {row : Command} {tx : Tx} {receipt : Receipt}
      (answered : Answered system commandId row tx receipt) (status : receipt.status = false)
      (payload : ErrorPayload) : Source system worker commandId (failWrap payload)
  | approved {row : Command} {tx : Tx} {receipt : Receipt}
      (answered : Answered system commandId row tx receipt) (status : receipt.status = true) :
      Source system worker commandId markWrapApproved
  | confirmed {row : Command} {tx : Tx} {receipt : Receipt}
      (answered : Answered system commandId row tx receipt) (status : receipt.status = true)
      (hash : tx.kind = .approve →
        ∃ rows, system.stage worker = .routed row tx receipt .txHashed rows) :
      Source system worker commandId (confirmWrap 1 (some receipt.blockNumber))

theorem System.Sound.source (sound : system.Sound)
    (write : (system.stage worker).write = some (commandId, transition)) :
    system.Source worker commandId transition := by
  have own := sound.workers worker
  cases stage : system.stage worker with
  | submitted row tx rows =>
    rw [stage] at write own
    cases write
    exact .sent own.1
  | proceeded row tx =>
    rw [stage] at write own
    cases write
    exact .sent own
  | failing row error rows =>
    rw [stage] at write
    cases write
    exact .gaveUp stage rfl _
  | routed row tx receipt state rows =>
    rw [stage] at write own
    have ans : Answered system row.commandId row tx receipt := ⟨rfl, own.1, own.2.1⟩
    obtain ⟨moved, routed, same⟩ := Option.map_eq_some_iff.mp write
    cases same
    unfold reconcileTransition at routed
    split_ifs at routed with reverted hashed wrapped <;> cases routed
    · exact .reverted ans (by simpa using reverted) _
    · exact .approved ans (by simpa using reverted)
    · exact .confirmed ans (by simpa using reverted) fun _ => ⟨rows, by rw [stage, wrapped]⟩
  | settling hset tx receipt =>
    rw [stage] at write own
    obtain ⟨⟨row, holds, same⟩, given⟩ := own
    cases write
    have ans : Answered system commandId row tx receipt := ⟨same, holds, given⟩
    unfold proceedsTransition
    split_ifs with reverted
    · exact .reverted ans (by simpa using reverted) _
    · cases kind : tx.kind
      · exact .approved ans (by simpa using reverted)
      · exact .confirmed ans (by simpa using reverted) fun approve =>
          absurd (kind.symm.trans approve) nofun
  | _ =>
    rw [stage] at write
    cases write

theorem Answered.eq_of_approve {row : Command} {tx : Tx} {receipt : Receipt}
    (ans : Answered system commandId row tx receipt)
    (hf : system.commands.find commandId = some current)
    (state : current.state = .approveTxHashed) : current = row := by
  obtain ⟨now, hs, older, -⟩ := ans.holds.seen
  rw [ans.own] at hs
  cases hs.symm.trans hf
  obtain same | rank := older
  · exact same
  · rw [state, ans.holds.state] at rank
    exfalso
    cases kind : tx.kind <;> rw [kind] at rank <;> revert rank <;> decide

theorem System.Sound.advances (sound : system.Sound)
    (writes : system.Writes worker commandId transition current) :
    Advances system.mined current (current.moved transition) ∧
    (current.moved transition).Recorded system.broadcasts := by
  have admitted := writes.admitted
  cases sound.source writes.write with
  | @sent tx sent =>
    obtain ⟨tgt, hash, kind⟩ := markHashed_eq tx
    have moves : (markHashed tx).target ≠ .requested := by
      rw [tgt]
      cases tx.kind <;> decide
    refine ⟨⟨rank_lt_of_admits admitted moves, fun hashed _ => ?_⟩, fun _ => ⟨tx, ?_, tgt, ?_, ?_⟩⟩
    · -- neither hash is recorded over the approve hash
      rw [hashed, tgt] at admitted
      cases kind : tx.kind <;> rw [kind] at admitted <;> cases admitted
    · exact congrArg (Option.or · current.txHash) hash
    · exact congrArg (Option.or · current.txKind) kind
    · rw [Command.moved_key, (KeyedTable.find_some writes.found).2]
      exact sent
  | gaveUp | reverted =>
    refine ⟨⟨@rank_lt_of_admits .failed _ admitted (by decide), fun _ moved => ?_⟩,
      fun moved => ?_⟩ <;>
      obtain moved | moved := moved <;> cases moved
  | @approved row tx receipt ans ok =>
    refine ⟨⟨@rank_lt_of_admits .approved _ admitted (by decide), fun hashed _ => ?_⟩,
      fun moved => ?_⟩
    · cases ans.eq_of_approve writes.found hashed
      exact ⟨tx, ans.holds.hash, receipt, sound.truthful tx receipt ans.given, ok⟩
    · obtain moved | moved := moved <;> cases moved
  | confirmed =>
    refine ⟨⟨@rank_lt_of_admits .confirmed _ admitted (by decide), fun _ moved => ?_⟩,
      fun moved => ?_⟩ <;>
      obtain moved | moved := moved <;> cases moved

def System.moved (system : System ι) (commandId : String) (transition : Transition) : System ι :=
  { system with
    commands :=
      system.commands.modify commandId (Command.moved transition) (Command.moved_key transition) }

theorem System.find_moved (system : System ι) (commandId : String) (transition : Transition)
    (key : String) :
    (system.moved commandId transition).commands.find key =
      if key = commandId then (system.commands.find key).map (Command.moved transition)
      else system.commands.find key :=
  KeyedTable.find_modify system.commands commandId (Command.moved transition)
    (Command.moved_key transition) key

theorem System.Writes.stored (writes : system.Writes worker commandId transition current) :
    (system.moved commandId transition).commands.find commandId =
      some (current.moved transition) := by
  rw [System.find_moved, if_pos rfl, writes.found]
  rfl

theorem System.Sound.grows_moved (sound : system.Sound)
    (writes : system.Writes worker commandId transition current) :
    Grows system (system.moved commandId transition) := by
  refine ⟨fun key row at_ => ?_, fun _ _ mined => mined, .refl _, .refl _⟩
  by_cases same : key = commandId
  · subst same
    cases writes.found.symm.trans at_
    exact ⟨_, writes.stored, .inr (sound.advances writes).1⟩
  · exact ⟨row, (system.find_moved commandId transition key).trans ((if_neg same).trans at_),
      .inl rfl⟩

theorem System.Sound.moved (sound : system.Sound)
    (writes : system.Writes worker commandId transition current) :
    (system.moved commandId transition).Sound := by
  have grows := sound.grows_moved writes
  refine ⟨sound.truthful, fun row mem => ?_, fun key tx sent wrap => ?_,
    fun other => (sound.workers other).mono grows⟩
  · have at_ := KeyedTable.find_of_mem mem
    by_cases same : row.commandId = commandId
    · rw [same] at at_
      cases writes.stored.symm.trans at_
      exact (sound.advances writes).2
    · rw [System.find_moved, if_neg same] at at_
      exact sound.recorded row (KeyedTable.find_some at_).1
  · obtain ⟨row, at_, rank⟩ := sound.sent key tx sent wrap
    obtain ⟨later, now, rfl | rises⟩ := grows.rows key row at_
    · exact ⟨later, now, rank⟩
    · exact ⟨later, now, rank.trans rises.rises.le⟩

theorem grows_send (row : Command) (nonce : ℕ) : Grows system (system.send row nonce) :=
  .of_commands_eq rfl (fun _ _ mined => mined) (.refl _) (List.subset_append_left _ _)

theorem waits_of_actionable {row : Command} (mem : row ∈ actionable system.commands) :
    Waits system row := by
  obtain ⟨pend, state⟩ := List.mem_filter.mp mem
  have hs := (List.mem_filter.mp ((List.mem_insertionSort _).mp pend)).1
  refine ⟨seen_of_find (KeyedTable.find_of_mem hs), ?_⟩
  simpa using state

namespace System.Sound

theorem holds_of_reconcilable (sound : system.Sound) {row : Command}
    (mem : row ∈ reconcilable system.commands) : ∃ tx, Holds system row tx := by
  obtain ⟨hs, state⟩ := List.mem_filter.mp ((List.mem_insertionSort _).mp mem)
  obtain ⟨tx, hash, hashed, -, sent⟩ := sound.recorded row hs (by simpa using state)
  exact ⟨tx, seen_of_find (KeyedTable.find_of_mem hs), hash, hashed, sent⟩

theorem start : (System.start : System ι).Sound :=
  ⟨fun _ _ ret => absurd ret List.not_mem_nil, fun _ mem => absurd mem List.not_mem_nil,
    fun _ _ sent => absurd sent List.not_mem_nil, fun _ => trivial⟩

theorem refused (sound : system.Sound) (worker : ι) {stage : Stage}
    (moved : stage = (system.stage worker).skipped ∨
      ∃ error, stage = (system.stage worker).refused error) : stage.Sound system := by
  have own := sound.workers worker
  cases before : system.stage worker with
  | routed row tx receipt state rows =>
    rw [before] at own moved
    obtain rfl | ⟨error, rfl⟩ := moved
    · exact own.2.2
    · cases error with
      | rejected tgt obs => exact own.2.2
      | _ => trivial
  | submitted row tx rows =>
    rw [before] at own moved
    obtain rfl | ⟨error, rfl⟩ := moved
    · exact own
    · exact own.2
  | failing row error rows =>
    rw [before] at own moved
    obtain rfl | ⟨error, rfl⟩ := moved <;> exact own
  | _ =>
    rw [before] at own moved
    obtain rfl | ⟨error, rfl⟩ := moved
    · exact own
    · trivial

theorem insert {row : Command} {commands : Commands} (sound : system.Sound)
    (ins : system.commands.tryInsert row = some commands) (new : row.state = .requested) :
    ({ system with commands } : System ι).Sound ∧ Grows system { system with commands } := by
  have kept : ∀ commandId old, system.commands.find commandId = some old →
        commands.find commandId = some old := by
    intro commandId old hf
    rw [KeyedTable.find_tryInsert ins, if_neg, hf]
    rintro rfl
    obtain ⟨fresh, -⟩ := KeyedTable.tryInsert_eq_some_iff.mp ins
    cases fresh.symm.trans hf
  have grows : Grows system { system with commands } :=
    ⟨fun commandId old hf => ⟨old, kept commandId old hf, .inl rfl⟩, fun _ _ mined => mined,
      .refl _, .refl _⟩
  refine ⟨⟨sound.truthful, fun old mem => ?_, fun commandId tx sent wrap => ?_,
    fun other => (sound.workers other).mono grows⟩, grows⟩
  · have hf := KeyedTable.find_of_mem mem
    rw [KeyedTable.find_tryInsert ins] at hf
    split_ifs at hf
    · cases hf
      intro hashed
      rw [new] at hashed
      obtain hashed | hashed := hashed <;> cases hashed
    · exact sound.recorded old (KeyedTable.find_some hf).1
  · obtain ⟨old, hf, rank⟩ := sound.sent commandId tx sent wrap
    exact ⟨old, kept commandId old hf, rank⟩

theorem mine (sound : system.Sound) {tx : Tx} (receipt : Receipt) (pend : system.mined tx = none) :
    ({ system with mined := Function.update system.mined tx (some receipt) } : System ι).Sound := by
  have kept : ∀ other given, system.mined other = some given →
      Function.update system.mined tx (some receipt) other = some given := by
    intro other given mined
    rw [Function.update_of_ne, mined]
    rintro rfl
    cases pend.symm.trans mined
  have grows : Grows system
      { system with mined := Function.update system.mined tx (some receipt) } :=
    .of_commands_eq rfl kept (.refl _) (.refl _)
  exact ⟨fun other given ret => kept other given (sound.truthful other given ret), sound.recorded,
    sound.sent, fun other => (sound.workers other).mono grows⟩

theorem send (sound : system.Sound) {row : Command} (waits : Waits system row) (nonce : ℕ) :
    (system.send row nonce).Sound := by
  refine ⟨sound.truthful, fun old mem hashed => ?_, fun commandId tx sent wrap => ?_,
    fun other => (sound.workers other).mono (grows_send row nonce)⟩
  · obtain ⟨tx, hash, state, kind, sent⟩ := sound.recorded old mem hashed
    exact ⟨tx, hash, state, kind, (grows_send row nonce).broadcasts sent⟩
  obtain sent | sent := List.mem_append.mp sent
  · exact sound.sent commandId tx sent wrap
  · cases List.mem_singleton.mp sent
    obtain ⟨current, hf, older, -⟩ := waits.seen
    have approved := waits.approved wrap
    refine ⟨current, hf, ?_⟩
    obtain rfl | rank := older
    · rw [approved]
    · rw [approved] at rank
      exact rank.le

theorem give (sound : system.Sound) {tx : Tx} {receipt : Receipt}
    (mined : system.mined tx = some receipt) :
    (system.give tx receipt).Sound ∧ Grows system (system.give tx receipt) := by
  have grows : Grows system (system.give tx receipt) :=
    .of_commands_eq rfl (fun _ _ mined => mined) (List.subset_append_left _ _) (.refl _)
  refine ⟨⟨fun other given ret => ?_, sound.recorded, sound.sent,
    fun other => (sound.workers other).mono grows⟩, grows⟩
  obtain ret | ret := List.mem_append.mp ret
  · exact sound.truthful other given ret
  · cases List.mem_singleton.mp ret
    exact mined

end System.Sound
end

section
variable {ι : Type} [DecidableEq ι] {system : System ι} {worker : ι}

theorem System.step_write_of_writes {commandId : String} {transition : Transition}
    {current : Command} (writes : system.Writes worker commandId transition current) :
    system.step (.write worker false) =
      (system.moved commandId transition).become worker (system.stage worker).applied := by
  simp [System.step.eq_def, System.moved, writes.write, Commands.transition, writes.found,
    writes.admitted]

theorem System.step_write_of_not {locked : Bool}
    (refused : locked = true ∨
      ∀ commandId transition current, ¬ system.Writes worker commandId transition current) :
    ∃ stage, system.step (.write worker locked) = system.become worker stage ∧
      (stage = (system.stage worker).skipped ∨
        ∃ error, stage = (system.stage worker).refused error) := by
  cases write : (system.stage worker).write with
  | none => exact ⟨_, by simp [System.step.eq_def, write], .inl rfl⟩
  | some hw =>
    obtain ⟨commandId, transition⟩ := hw
    cases locked with
    | true => exact ⟨_, by simp [System.step.eq_def, write], .inr ⟨.locked, rfl⟩⟩
    | false =>
      cases moved : system.commands.transition commandId transition with
      | error error => exact ⟨_, by simp [System.step.eq_def, write, moved], .inr ⟨error, rfl⟩⟩
      | ok cmds =>
        exfalso
        unfold Commands.transition at moved
        cases hf : system.commands.find commandId with
        | none => simp [hf] at moved
        | some current =>
          simp only [hf] at moved
          split_ifs at moved with admitted
          obtain locked | hnone := refused
          · exact Bool.false_ne_true locked
          · exact hnone commandId transition current ⟨write, hf, admitted⟩

namespace System.Sound

theorem become (sound : system.Sound) {stage : Stage} (own : stage.Sound system) :
    (system.become worker stage).Sound := by
  have grows : Grows system (system.become worker stage) :=
    .of_commands_eq rfl (fun _ _ mined => mined) (.refl _) (.refl _)
  refine ⟨sound.truthful, sound.recorded, sound.sent, fun other => ?_⟩
  change Stage.Sound _ (Function.update system.stage worker stage other)
  by_cases same : other = worker
  · rw [same, Function.update_self]
    exact own.mono grows
  · rw [Function.update_of_ne same]
    exact (sound.workers other).mono grows

theorem write {commandId : String} {transition : Transition} {current : Command}
    (sound : system.Sound) (writes : system.Writes worker commandId transition current) :
    (system.step (.write worker false)).Sound := by
  rw [System.step_write_of_writes writes]
  refine (sound.moved writes).become ?_
  have worker' := (sound.workers worker).mono (sound.grows_moved writes)
  cases stage : system.stage worker with
  | routed row tx receipt state rows =>
    rw [stage] at worker'
    exact worker'.2.2
  | submitted row tx rows =>
    rw [stage] at worker'
    exact worker'.2
  | failing row error rows =>
    rw [stage] at worker'
    exact worker'
  | proceeded row tx =>
    have write := writes.write
    rw [stage] at write
    cases write
    obtain ⟨tgt, hash, -⟩ := markHashed_eq tx
    have own := (KeyedTable.find_some writes.found).2
    rw [stage] at worker'
    refine ⟨current.moved (markHashed tx), ⟨seen_of_find ?_, ?_, tgt, ?_⟩, own⟩
    · rw [Command.moved_key, own]
      exact writes.stored
    · exact congrArg (Option.or · current.txHash) hash
    · rw [Command.moved_key, own]
      exact worker'
  | _ => trivial

theorem broadcast (sound : system.Sound) (worker : ι) (reply : Except String ℕ) :
    (system.step (.broadcast worker reply)).Sound := by
  have own := sound.workers worker
  cases stage : system.stage worker with
  | submitting rows =>
    rw [stage] at own
    cases rows with
    | nil =>
      simp only [System.step.eq_def, stage]
      exact sound.become trivial
    | cons row rows =>
      have waits := own row List.mem_cons_self
      have rest : ∀ other ∈ rows, Waits system other :=
        fun other mem => own other (List.mem_cons_of_mem _ mem)
      cases reply with
      | error message =>
        simp only [System.step.eq_def, stage]
        exact sound.become rest
      | ok nonce =>
        simp only [System.step.eq_def, stage]
        refine (sound.send waits nonce).become
          ⟨List.mem_append_right _ (List.mem_singleton_self _), ?_⟩
        exact fun other mem => (rest other mem).mono (grows_send row nonce)
  | proceeding row =>
    rw [stage] at own
    cases reply with
    | error message =>
      simp only [System.step.eq_def, stage]
      exact sound.become trivial
    | ok nonce =>
      simp only [System.step.eq_def, stage]
      exact (sound.send own nonce).become (List.mem_append_right _ (List.mem_singleton_self _))
  | _ => cases reply <;> simpa only [System.step.eq_def, stage] using sound

theorem receipt (sound : system.Sound) (worker : ι) (answers : Bool) :
    (system.step (.receipt worker answers)).Sound := by
  have own := sound.workers worker
  have mined : ∀ {tx receipt}, system.receiptOf tx answers = some receipt →
        system.mined tx = some receipt := by
    intro tx receipt ans
    unfold System.receiptOf at ans
    split_ifs at ans
    exact ans
  cases stage : system.stage worker with
  | reconciling rows =>
    rw [stage] at own
    cases rows with
    | nil =>
      simp only [System.step.eq_def, stage]
      exact sound.become trivial
    | cons row rows =>
      obtain ⟨tx, holds⟩ := own row List.mem_cons_self
      have rest : ∀ other ∈ rows, ∃ tx, Holds system other tx := fun other mem =>
        own other (List.mem_cons_of_mem _ mem)
      cases ans : system.receiptOf tx answers with
      | none =>
        simp only [System.step.eq_def, stage, holds.hash, ans]
        exact sound.become rest
      | some receipt =>
        obtain ⟨given, grows⟩ := sound.give (mined ans)
        simp only [System.step.eq_def, stage, holds.hash, ans]
        refine given.become
          ⟨holds.mono grows, List.mem_append_right _ (List.mem_singleton_self _), ?_⟩
        intro other mem
        obtain ⟨tx, holds⟩ := rest other mem
        exact ⟨tx, holds.mono grows⟩
  | marked commandId tx =>
    rw [stage] at own
    obtain ⟨row, holds, same⟩ := own
    cases ans : system.receiptOf tx answers with
    | none =>
      simp only [System.step.eq_def, stage, ans]
      exact sound.become trivial
    | some receipt =>
      obtain ⟨given, grows⟩ := sound.give (mined ans)
      simp only [System.step.eq_def, stage, ans]
      exact given.become
        ⟨⟨row, holds.mono grows, same⟩, List.mem_append_right _ (List.mem_singleton_self _)⟩
  | _ => simpa only [System.step.eq_def, stage] using sound

theorem reread (sound : system.Sound) (worker : ι) : (system.step (.reread worker)).Sound := by
  have own := sound.workers worker
  cases stage : system.stage worker with
  | answered row tx receipt rows =>
    rw [stage] at own
    cases hf : system.commands.find row.commandId with
    | none =>
      simp only [System.step.eq_def, stage, hf]
      exact sound.become own.2.2
    | some current =>
      simp only [System.step.eq_def, stage, hf]
      exact sound.become own
  | _ => simpa only [System.step.eq_def, stage] using sound

theorem step (sound : system.Sound) (op : Op ι) : (system.step op).Sound := by
  cases op with
  | enqueue commandId amountMicro requestedAt =>
    cases ins : system.commands.tryInsert { commandId, amountMicro, requestedAt } with
    | none => simpa only [System.step.eq_def, ins] using sound
    | some cmds => simpa only [System.step.eq_def, ins] using (sound.insert ins rfl).1
  | mine tx receipt =>
    simp only [System.step.eq_def]
    split_ifs with new
    · exact sound.mine receipt new.1
    · exact sound
  | reconcile worker =>
    cases stage : system.stage worker with
    | idle =>
      simp only [System.step.eq_def, stage]
      exact sound.become fun row mem => sound.holds_of_reconcilable mem
    | _ => simpa only [System.step.eq_def, stage] using sound
  | submit worker =>
    cases stage : system.stage worker with
    | idle =>
      simp only [System.step.eq_def, stage]
      exact sound.become fun row mem => waits_of_actionable mem
    | _ => simpa only [System.step.eq_def, stage] using sound
  | proceed worker =>
    cases stage : system.stage worker <;> cases rows : actionable system.commands with
    | nil => simpa only [System.step.eq_def, stage, rows] using sound
    | cons row rest =>
      first
      | simpa only [System.step.eq_def, stage, rows] using sound
      | simp only [System.step.eq_def, stage, rows]
        exact sound.become
          (waits_of_actionable (rows ▸ List.mem_cons_self : row ∈ actionable system.commands))
  | proceedNew worker commandId amountMicro requestedAt =>
    cases stage : system.stage worker <;>
      cases ins : system.commands.tryInsert { commandId, amountMicro, requestedAt } with
    | none => simpa only [System.step.eq_def, stage, ins] using sound
    | some cmds =>
      first
      | simpa only [System.step.eq_def, stage, ins] using sound
      | simp only [System.step.eq_def, stage, ins]
        refine (sound.insert ins rfl).1.become ⟨seen_of_find ?_, .inl rfl⟩
        rw [KeyedTable.find_tryInsert ins, if_pos rfl]
  | broadcast worker reply => exact sound.broadcast worker reply
  | receipt worker answers => exact sound.receipt worker answers
  | reread worker => exact sound.reread worker
  | write worker locked =>
    by_cases writes : locked = false ∧
    ∃ commandId transition current, system.Writes worker commandId transition current
    · obtain ⟨rfl, commandId, transition, current, writes⟩ := writes
      exact sound.write writes
    · have hnot : locked = true ∨ ∀ commandId transition current,
          ¬ system.Writes worker commandId transition current := by
        cases locked with
        | true => exact .inl rfl
        | false =>
          exact .inr fun commandId transition current yes =>
            writes ⟨rfl, commandId, transition, current, yes⟩
      obtain ⟨stage, stepped, moved⟩ := System.step_write_of_not hnot
      rw [stepped]
      exact sound.become (sound.refused worker moved)

theorem run (ops : List (Op ι)) : (System.run ops).Sound := by
  induction ops using List.reverseRecOn with
  | nil => exact start
  | append_singleton ops op sound =>
    rw [System.run_concat]
    exact sound.step op

end System.Sound
end

section
variable {ι : Type}

/-- A wrap of the command was sent and has not reverted. -/
def System.Live (system : System ι) (commandId : String) : Prop :=
  ∃ tx, (commandId, tx) ∈ system.broadcasts ∧
    tx.kind = .wrap ∧
    ∀ receipt, system.mined tx = some receipt → receipt.status = true

/-- A receipt was returned for the wrap that the row records, and it did not revert. -/
def System.Attested (system : System ι) (row : Command) : Prop :=
  ∃ tx receipt, row.txHash = some tx ∧
    row.txKind = some .wrap ∧
    (tx, receipt) ∈ system.returned ∧
    receipt.status = true

def Becomes (before after : System ι) (row : Command) : Prop :=
  after.commands.find row.commandId = some row ∧
    ∀ old, before.commands.find row.commandId = some old → old.state ≠ row.state

def ConfirmsAttested (before after : System ι) : Prop :=
  ∀ row, Becomes before after row → row.state = .confirmed → before.Attested row

def FailsSettled (before after : System ι) : Prop :=
  ∀ row, Becomes before after row → row.state = .failed → ¬ before.Live row.commandId

/-- The wrap that a worker has sent and not yet recorded. -/
def Stage.sentWrap : Stage → Option (String × Tx)
  | .submitted row tx _ | .proceeded row tx =>
    if tx.kind = .wrap then some (row.commandId, tx) else none
  | _ => none

/-- The row that a worker sends a transaction for next. -/
def Stage.sends : Stage → Option Command
  | .submitting (row :: _) | .proceeding row => some row
  | _ => none

/-- The row of a reconciler's snapshot, and the state that it read again. -/
def Stage.rereads : Stage → Option (Command × WrapState)
  | .routed row _ _ current _ => some (row, current)
  | _ => none

def Stage.givesUp : Stage → Option String
  | .failing row _ _ => some row.commandId
  | _ => none

/-- The row is not past its approval, and no worker is between a wrap of it and the UPDATE. -/
def System.NoWrap (system : System ι) (commandId : String) : Prop :=
  (∀ row ∈ system.commands.find commandId, row.state.rank < WrapState.txHashed.rank) ∧
    ∀ other, ∀ sent ∈ (system.stage other).sentWrap, sent.1 ≠ commandId

/-- A step that no other worker disturbs. A wrap is sent, and a submitter gives up, while no other
worker has a wrap of the command; the UPDATE after a wrap meets no lock and finds the row as it
expects; no wrap hash was recorded between a reconciler's snapshot of an approve and its second
read. -/
def System.Undisturbed (system : System ι) : Op ι → Prop
  | .broadcast worker (.ok _) =>
    ∀ row ∈ (system.stage worker).sends, row.state = .approved → system.NoWrap row.commandId
  | .write worker locked =>
    (∀ read ∈ (system.stage worker).rereads, read.2 = .txHashed → read.1.state = .txHashed) ∧
      (∀ sent ∈ (system.stage worker).sentWrap, locked = false ∧
        (system.commands.find sent.1).any (WrapState.txHashed.admits ·.state) = true) ∧
      ∀ commandId ∈ (system.stage worker).givesUp, locked = false → system.NoWrap commandId
  | _ => True

variable {system : System ι} {worker : ι} {commandId : String} {transition : Transition}
  {current : Command}

theorem Answered.attested (sound : system.Sound) {row : Command} {tx : Tx} {receipt : Receipt}
    (ans : Answered system commandId row tx receipt) (wrap : tx.kind = .wrap)
    (ok : receipt.status = true) (hf : system.commands.find commandId = some current)
    (state : current.state = .txHashed) : system.Attested current := by
  obtain ⟨own, holds, given⟩ := ans
  subst own
  have same : current = row := by
    refine holds.eq_of_state hf ?_
    rw [state, holds.state, wrap]
    rfl
  obtain ⟨hrec, hash, -, kind, -⟩ := sound.recorded current (KeyedTable.find_some hf).1 (.inr state)
  cases hash.symm.trans (same ▸ holds.hash : current.txHash = some tx)
  exact ⟨tx, receipt, hash, kind.trans (congrArg some wrap), given, ok⟩

theorem Answered.not_live (sound : system.Sound) {row : Command} {tx : Tx} {receipt : Receipt}
    (ans : Answered system commandId row tx receipt) (approve : tx.kind = .approve)
    (reverted : receipt.status = false) (hf : system.commands.find commandId = some current)
    (pend : current.state ∉ wrapTerminalStates) : ¬ system.Live commandId := by
  rintro ⟨wrapTx, sent, wrap, -⟩
  obtain ⟨own, holds, given⟩ := ans
  obtain ⟨hs, at_, rank⟩ := sound.sent commandId wrapTx sent wrap
  cases at_.symm.trans hf
  obtain ⟨now, found', older, approval⟩ := holds.seen
  rw [own] at found'
  cases found'.symm.trans hf
  have hashed : row.state = .approveTxHashed := by
    rw [holds.state, approve]
    rfl
  have moved : current.state = .approved ∨ current.state = .txHashed := by
    revert rank pend
    cases current.state <;> decide
  obtain ⟨sentTx, hash, mined, isMined, ok⟩ := approval hashed moved
  cases hash.symm.trans holds.hash
  cases isMined.symm.trans (sound.truthful tx receipt given)
  rw [reverted] at ok
  cases ok

theorem not_becomes_of_commands_eq {after : System ι} (same : after.commands = system.commands)
    (row : Command) : ¬ Becomes system after row := by
  rintro ⟨hf, changes⟩
  rw [same] at hf
  exact changes row hf rfl

theorem requested_of_becomes_insert {after : System ι} {new row : Command}
    (reqd : new.state = .requested) (ins : system.commands.tryInsert new = some after.commands)
    (becomes : Becomes system after row) : row.state = .requested := by
  obtain ⟨hf, changes⟩ := becomes
  rw [KeyedTable.find_tryInsert ins] at hf
  split_ifs at hf
  · cases hf
    exact reqd
  · exact absurd rfl (changes row hf)

theorem agrees_of_quiet {after : System ι}
    (quiet : ∀ row, Becomes system after row → row.state = .requested) :
    ConfirmsAttested system after ∧ FailsSettled system after := by
  constructor <;>
  · intro row becomes state
    rw [quiet row becomes] at state
    cases state

/-- A wrap that was sent is recorded or about to be, and no other was sent for its command. -/
structure System.Orderly (system : System ι) : Prop where
  recorded : ∀ commandId tx, (commandId, tx) ∈ system.broadcasts → tx.kind = .wrap →
    (∃ worker, (system.stage worker).sentWrap = some (commandId, tx)) ∨
      ∃ row, system.commands.find commandId = some row ∧ WrapState.txHashed.rank ≤ row.state.rank
  once : ∀ commandId tx other, (commandId, tx) ∈ system.broadcasts → tx.kind = .wrap →
    (commandId, other) ∈ system.broadcasts → other.kind = .wrap → tx = other

theorem System.Orderly.unsent (orderly : system.Orderly) (free : system.NoWrap commandId) {tx : Tx}
    (sent : (commandId, tx) ∈ system.broadcasts) : tx.kind ≠ .wrap := by
  intro wrap
  obtain ⟨worker, pend⟩ | ⟨row, hf, rank⟩ := orderly.recorded commandId tx sent wrap
  · exact free.2 worker _ pend rfl
  · exact absurd (free.1 row hf) rank.not_gt

theorem System.Sound.waits_of_sends (sound : system.Sound) {row : Command}
    (sends : (system.stage worker).sends = some row) : Waits system row := by
  have own := sound.workers worker
  cases stage : system.stage worker with
  | submitting rows =>
    rw [stage] at own sends
    cases rows with
    | nil => cases sends
    | cons first rest =>
      cases sends
      exact own row List.mem_cons_self
  | proceeding first =>
    rw [stage] at own sends
    cases sends
    exact own
  | _ =>
    rw [stage] at sends
    cases sends

theorem Stage.write_of_sentWrap {stage : Stage} {tx : Tx}
    (pend : stage.sentWrap = some (commandId, tx)) :
    stage.write = some (commandId, markHashed tx) := by
  cases stage with
  | submitted row sent rows | proceeded row sent =>
    simp only [Stage.sentWrap] at pend
    split_ifs at pend
    cases pend
    rfl
  | _ => cases pend

variable [DecidableEq ι]

theorem becomes_iff_of_writes (writes : system.Writes worker commandId transition current)
    (moves : transition.target ≠ current.state) (row : Command) :
    Becomes system (system.step (.write worker false)) row ↔ row = current.moved transition := by
  have own := (KeyedTable.find_some writes.found).2
  have hf : ∀ key, (system.step (.write worker false)).commands.find key =
      if key = commandId then (system.commands.find key).map (Command.moved transition)
      else system.commands.find key := by
    rw [System.step_write_of_writes writes]
    exact system.find_moved commandId transition
  constructor
  · rintro ⟨after, changes⟩
    rw [hf] at after
    split_ifs at after with same
    · rw [same, writes.found] at after
      exact (Option.some.inj after).symm
    · exact absurd rfl (changes row after)
  · rintro rfl
    refine ⟨?_, fun old before => ?_⟩
    · rw [Command.moved_key, hf, own, if_pos rfl, writes.found]
      rfl
    · rw [Command.moved_key, own] at before
      cases writes.found.symm.trans before
      exact Ne.symm moves

theorem System.step_commands (system : System ι) {op : Op ι}
    (still : ∀ worker, op ≠ .write worker false) :
    (system.step op).commands = system.commands ∨
    ∃ row, row.state = .requested ∧
      system.commands.tryInsert row = some (system.step op).commands := by
  cases op with
  | enqueue id amountMicro requestedAt =>
    cases ins : system.commands.tryInsert { commandId := id, amountMicro, requestedAt } with
    | none => exact .inl (by simp only [System.step.eq_def, ins])
    | some cmds =>
      refine .inr ⟨{ commandId := id, amountMicro, requestedAt }, rfl, ?_⟩
      simp only [System.step.eq_def, ins]
  | proceedNew worker id amountMicro requestedAt =>
    cases stage : system.stage worker with
    | idle =>
      cases ins : system.commands.tryInsert { commandId := id, amountMicro, requestedAt } with
      | none => exact .inl (by simp only [System.step.eq_def, stage, ins])
      | some cmds =>
        refine .inr ⟨{ commandId := id, amountMicro, requestedAt }, rfl, ?_⟩
        simp only [System.step.eq_def, stage, ins, System.become]
    | _ => exact .inl (by simp only [System.step.eq_def, stage])
  | write worker locked =>
    cases locked with
    | false => exact absurd rfl (still worker)
    | true =>
      obtain ⟨stage, stepped, -⟩ := @System.step_write_of_not ι _ system worker true (.inl rfl)
      rw [stepped]
      exact .inl rfl
  | _ =>
    left
    simp only [System.step.eq_def]
    repeat' split
    all_goals rfl

theorem System.Sound.step_rows {system : System ι} (sound : system.Sound) (op : Op ι)
    {commandId : String} {row : Command} (hf : system.commands.find commandId = some row) :
    ∃ later, (system.step op).commands.find commandId = some later ∧
      (later = row ∨ Advances system.mined row later) := by
  by_cases write : ∃ worker, op = .write worker false
  · obtain ⟨worker, rfl⟩ := write
    by_cases writing : ∃ id transition current, system.Writes worker id transition current
    · obtain ⟨id, transition, current, writes⟩ := writing
      rw [System.step_write_of_writes writes]
      exact (sound.grows_moved writes).rows commandId row hf
    · push Not at writing
      obtain ⟨stage, stepped, -⟩ := System.step_write_of_not (.inr writing)
      rw [stepped]
      exact ⟨row, hf, .inl rfl⟩
  · push Not at write
    obtain same | ⟨new, reqd, ins⟩ := system.step_commands write
    · exact ⟨row, same ▸ hf, .inl rfl⟩
    · exact (sound.insert ins reqd).2.rows commandId row hf

theorem System.Sound.agrees_of_writes (sound : system.Sound) (orderly : system.Orderly)
    (writes : system.Writes worker commandId transition current)
    (hund : system.Undisturbed (.write worker false)) :
    ConfirmsAttested system (system.step (.write worker false)) ∧
      FailsSettled system (system.step (.write worker false)) := by
  have own := (KeyedTable.find_some writes.found).2
  have becomes := becomes_iff_of_writes writes (sound.advances writes).1.moves
  suffices agrees : (transition.target = .confirmed → system.Attested (current.moved transition)) ∧
      (transition.target = .failed → ¬ system.Live commandId) by
    simp only [ConfirmsAttested, FailsSettled, becomes, forall_eq, Command.moved_key, own]
    exact agrees
  cases sound.source writes.write with
  | @sent tx =>
    rw [(markHashed_eq tx).1]
    constructor <;> intro hterm <;> cases kind : tx.kind <;> rw [kind] at hterm <;> cases hterm
  | gaveUp stage same =>
    refine ⟨nofun, fun _ live => ?_⟩
    obtain ⟨tx, sent, wrap, -⟩ := live
    have free := hund.2.2 _ (by rw [stage]; rfl) rfl
    rw [same] at free
    exact orderly.unsent free sent wrap
  | @reverted row tx receipt ans status =>
    refine ⟨nofun, fun _ => ?_⟩
    cases kind : tx.kind with
    | approve =>
      exact ans.not_live sound kind status writes.found (not_terminal_of_admits writes.admitted)
    | wrap =>
      rintro ⟨other, sent, wrap, lives⟩
      cases orderly.once commandId tx other (ans.own ▸ ans.holds.sent) kind sent wrap
      rw [lives receipt (sound.truthful tx receipt ans.given)] at status
      cases status
  | approved => exact ⟨nofun, nofun⟩
  | @confirmed row tx receipt ans status hash =>
    refine ⟨fun _ => ?_, nofun⟩
    have wrap : tx.kind = .wrap := by
      by_contra other
      have approve : tx.kind = .approve := by
        cases kind : tx.kind
        · rfl
        · exact absurd kind other
      obtain ⟨rows, stage⟩ := hash approve
      -- the snapshot had the approve hash, and the second read found the wrap's
      have read := hund.1 _ (by rw [stage]; rfl) rfl
      rw [ans.holds.state, approve] at read
      cases read
    have attested : system.Attested current :=
      ans.attested sound wrap status writes.found (txHashed_of_admits_confirmed writes.admitted)
    exact attested

theorem System.Sound.agrees (sound : system.Sound) (orderly : system.Orderly) {op : Op ι}
    (hund : system.Undisturbed op) :
    ConfirmsAttested system (system.step op) ∧ FailsSettled system (system.step op) := by
  by_cases write : ∃ worker, op = .write worker false
  · obtain ⟨worker, rfl⟩ := write
    by_cases writing : ∃ commandId transition current,
      system.Writes worker commandId transition current
    · obtain ⟨commandId, transition, current, writes⟩ := writing
      exact sound.agrees_of_writes orderly writes hund
    · push Not at writing
      obtain ⟨stage, stepped, -⟩ := System.step_write_of_not (.inr writing)
      rw [stepped]
      exact agrees_of_quiet fun row becomes => absurd becomes (not_becomes_of_commands_eq rfl row)
  · push Not at write
    refine agrees_of_quiet fun row becomes => ?_
    obtain same | ⟨new, reqd, ins⟩ := system.step_commands write
    · exact absurd becomes (not_becomes_of_commands_eq same row)
    · exact requested_of_becomes_insert reqd ins becomes

def Op.actor : Op ι → Option ι
  | .enqueue .. | .mine .. => none
  | .reconcile worker | .submit worker | .proceed worker | .proceedNew worker ..
  | .broadcast worker _ | .receipt worker _ | .reread worker | .write worker _ => some worker

theorem System.step_stage_other (system : System ι) {op : Op ι} (hne : op.actor ≠ some worker) :
    (system.step op).stage worker = system.stage worker := by
  have kept : ∀ (changed : System ι) (acting : ι) (stage : Stage), changed.stage = system.stage →
      some acting ≠ some worker →
      (changed.become acting stage).stage worker = system.stage worker := by
    intro changed acting stage same dif
    rw [System.become, same]
    exact Function.update_of_ne (fun equal => dif (congrArg some equal.symm)) _ _
  cases op <;> simp only [System.step.eq_def] <;> repeat' split
  all_goals first | rfl | exact kept _ _ _ rfl hne

/-- Between a wrap and its UPDATE a worker does nothing else. -/
theorem System.step_sentWrap (system : System ι) {op : Op ι} {sent : String × Tx}
    (pend : (system.stage worker).sentWrap = some sent)
    (still : ∀ locked, op ≠ .write worker locked) :
    (system.step op).stage worker = system.stage worker := by
  by_cases own : op.actor = some worker
  · cases stage : system.stage worker with
    | submitted row tx rows | proceeded row tx =>
      cases op <;> cases own <;> first
        | exact absurd rfl (still _)
        | simp [System.step.eq_def, stage]
    | _ =>
      rw [stage] at pend
      cases pend
  · exact system.step_stage_other own

theorem System.step_broadcasts (system : System ι) (op : Op ι) :
    (system.step op).broadcasts = system.broadcasts ∨
    ∃ worker nonce row, op = .broadcast worker (.ok nonce) ∧
      (system.stage worker).sends = some row ∧
      (system.step op).broadcasts = system.broadcasts ++ [(row.commandId, row.nextTx nonce)] ∧
      ((row.nextTx nonce).kind = .wrap →
        ((system.step op).stage worker).sentWrap = some (row.commandId, row.nextTx nonce)) := by
  cases op with
  | broadcast worker reply =>
    cases stage : system.stage worker with
    | submitting rows =>
      cases rows with
      | nil => exact .inl (by simp [System.step.eq_def, stage, System.become])
      | cons row rows =>
        cases reply with
        | error message => exact .inl (by simp [System.step.eq_def, stage, System.become])
        | ok nonce =>
          refine .inr ⟨worker, nonce, row, rfl, by simp [stage, Stage.sends], ?_, fun wrap => ?_⟩
          · simp [System.step.eq_def, stage, System.become, System.send]
          · simp [System.step.eq_def, stage, System.become, Stage.sentWrap, wrap]
    | proceeding row =>
      cases reply with
      | error message => exact .inl (by simp [System.step.eq_def, stage, System.become])
      | ok nonce =>
        refine .inr ⟨worker, nonce, row, rfl, by simp [stage, Stage.sends], ?_, fun wrap => ?_⟩
        · simp [System.step.eq_def, stage, System.become, System.send]
        · simp [System.step.eq_def, stage, System.become, Stage.sentWrap, wrap]
    | _ => exact .inl (by simp [System.step.eq_def, stage])
  | _ =>
    left
    simp only [System.step.eq_def]
    repeat' split
    all_goals rfl

/-- A wrap that was sent before the step is recorded after it, or its worker still has it. -/
theorem System.Orderly.recorded_step (orderly : system.Orderly) (sound : system.Sound) {op : Op ι}
    (hund : system.Undisturbed op) {tx : Tx} (sent : (commandId, tx) ∈ system.broadcasts)
    (wrap : tx.kind = .wrap) :
    (∃ worker, ((system.step op).stage worker).sentWrap = some (commandId, tx)) ∨
    ∃ row, (system.step op).commands.find commandId = some row ∧
      WrapState.txHashed.rank ≤ row.state.rank := by
  obtain ⟨worker, pend⟩ | ⟨row, hf, rank⟩ := orderly.recorded commandId tx sent wrap
  · by_cases write : ∃ locked, op = .write worker locked
    · obtain ⟨locked, rfl⟩ := write
      obtain ⟨rfl, admitted⟩ := hund.2.1 _ pend
      obtain ⟨row, hf, admitted⟩ := (Option.any_eq_true _ _).mp admitted
      have tgt : (markHashed tx).target = .txHashed := by rw [(markHashed_eq tx).1, wrap]; rfl
      have writes : system.Writes worker commandId (markHashed tx) row :=
        ⟨Stage.write_of_sentWrap pend, hf, tgt ▸ admitted⟩
      refine .inr ⟨row.moved (markHashed tx), ?_, ?_⟩
      · rw [System.step_write_of_writes writes]
        exact writes.stored
      · change _ ≤ (markHashed tx).target.rank
        rw [tgt]
    · push Not at write
      exact .inl ⟨worker, (congrArg Stage.sentWrap (system.step_sentWrap pend write)).trans pend⟩
  · obtain ⟨later, after, same⟩ := sound.step_rows op hf
    refine .inr ⟨later, after, ?_⟩
    obtain rfl | advances := same
    · exact rank
    · exact rank.trans advances.rises.le

theorem System.Orderly.step (orderly : system.Orderly) (sound : system.Sound) {op : Op ι}
    (hund : system.Undisturbed op) : (system.step op).Orderly := by
  obtain same | ⟨worker, nonce, row, rfl, sends, same, pend⟩ := system.step_broadcasts op
  · constructor <;> rw [same]
    · exact fun commandId tx => orderly.recorded_step sound hund
    · exact orderly.once
  · -- no wrap was sent for the row before this one
    have fresh : ∀ tx, (row.commandId, tx) ∈ system.broadcasts → tx.kind = .wrap →
        (row.nextTx nonce).kind ≠ .wrap := by
      intro tx sent wrap next
      have approved : row.state = .approved := (sound.waits_of_sends sends).approved next
      exact orderly.unsent (hund row sends approved) sent wrap
    constructor
    · intro commandId tx sent wrap
      rw [same] at sent
      obtain sent | sent := List.mem_append.mp sent
      · exact orderly.recorded_step sound hund sent wrap
      · cases List.mem_singleton.mp sent
        exact .inl ⟨worker, pend wrap⟩
    · intro commandId tx other sent wrap sent' wrap'
      rw [same] at sent sent'
      obtain sent | sent :=
        List.mem_append.mp sent <;> obtain sent' | sent' := List.mem_append.mp sent'
      · exact orderly.once commandId tx other sent wrap sent' wrap'
      · cases List.mem_singleton.mp sent'
        exact absurd wrap' (fresh tx sent wrap)
      · cases List.mem_singleton.mp sent
        exact absurd wrap (fresh other sent' wrap')
      · cases List.mem_singleton.mp sent
        cases List.mem_singleton.mp sent'
        rfl

/-- Every step of the run is undisturbed. -/
def System.UndisturbedRun : System ι → List (Op ι) → Prop
  | _, [] => True
  | system, op :: rest => system.Undisturbed op ∧ (system.step op).UndisturbedRun rest

theorem System.Sound.run_agrees (sound : system.Sound) (orderly : system.Orderly)
    {front rest : List (Op ι)} {op : Op ι} (hund : system.UndisturbedRun (front ++ op :: rest)) :
    ConfirmsAttested (front.foldl System.step system) ((front.foldl System.step system).step op) ∧
    FailsSettled (front.foldl System.step system) ((front.foldl System.step system).step op) := by
  induction front generalizing system with
  | nil => exact sound.agrees orderly hund.1
  | cons first front ih => exact ih (sound.step first) (orderly.step sound hund.1) hund.2

/-- Over every undisturbed run of any number of workers: a command is confirmed only after a receipt
of the wrap it records, not reverted, and none fails while a wrap of it was sent and has not
reverted. -/
theorem wrap_outcomes_agree_of_undisturbed (ops : List (Op ι))
    (hund : (System.start : System ι).UndisturbedRun ops) :
    ∀ front op, front ++ [op] <+: ops →
      ConfirmsAttested (System.run front) (System.run (front ++ [op])) ∧
      FailsSettled (System.run front) (System.run (front ++ [op])) := by
  rintro front op ⟨rest, rfl⟩
  rw [List.append_assoc, List.singleton_append] at hund
  rw [System.run_concat]
  exact System.Sound.start.run_agrees ⟨nofun, nofun⟩ hund

instance [Fintype ι] (system : System ι) (commandId : String) :
    Decidable (system.NoWrap commandId) :=
  inferInstanceAs (Decidable (_ ∧ _))

instance [Fintype ι] (system : System ι) : DecidablePred system.Undisturbed
  | .broadcast _ (.ok _) => inferInstanceAs (Decidable (∀ _ ∈ _, _))
  | .write _ _ => inferInstanceAs (Decidable (_ ∧ _))
  | .broadcast _ (.error _) | .enqueue .. | .mine .. | .reconcile _ | .submit _ | .proceed _
  | .proceedNew .. | .receipt .. | .reread _ => .isTrue trivial

instance decidableUndisturbedRun [Fintype ι] :
    (system : System ι) → (ops : List (Op ι)) → Decidable (system.UndisturbedRun ops)
  | _, [] => .isTrue trivial
  | system, op :: rest =>
    have := decidableUndisturbedRun (system.step op) rest
    inferInstanceAs (Decidable (_ ∧ _))

/-- The worker `false` sends the approve as submitter, the reconciler `true` approves, and the first
wraps on the same-tick path. -/
def promptRun : List (Op Bool) :=
  [.enqueue "wrap-1" 250000 0, .submit false, .broadcast false (.ok 7), .write false false,
    .broadcast false (.ok 7), .mine ⟨.approve, 250000, 7⟩ ⟨true, 100⟩,
    .reconcile true, .receipt true true, .reread true, .write true false,
    .proceed false, .broadcast false (.ok 8), .write false false,
    .mine ⟨.wrap, 250000, 8⟩ ⟨true, 101⟩, .receipt false true, .write false false]

theorem promptRun_agrees :
    ((System.run promptRun).commands.find "wrap-1").map Command.state = some .confirmed ∧
      ∀ front op, front ++ [op] <+: promptRun →
        ConfirmsAttested (System.run front) (System.run (front ++ [op])) ∧
        FailsSettled (System.run front) (System.run (front ++ [op])) :=
  ⟨by decide +kernel, wrap_outcomes_agree_of_undisturbed promptRun (by decide +kernel)⟩

/-- Over every run of any number of workers the rank of a command's state never falls, and a row
that is confirmed or failed stays as it is. -/
theorem finished_wraps_stay (ops more : List (Op ι)) {commandId : String} {row : Command}
    (hf : (System.run ops).commands.find commandId = some row) :
    ∃ later, (System.run (ops ++ more)).commands.find commandId = some later ∧
      row.state.rank ≤ later.state.rank ∧
      (row.state ∈ wrapTerminalStates → later = row) := by
  induction more using List.reverseRecOn with
  | nil => exact ⟨row, by rwa [List.append_nil], le_rfl, fun _ => rfl⟩
  | append_singleton more op ih =>
    obtain ⟨mid, now, rank, final⟩ := ih
    obtain ⟨later, after, same | advances⟩ := (System.Sound.run _).step_rows op now <;>
      rw [← List.append_assoc, System.run_concat] <;> refine ⟨later, after, ?_, ?_⟩
    · rwa [same]
    · rwa [same]
    · exact rank.trans advances.rises.le
    · intro hterm
      rw [← final hterm] at hterm
      exact absurd advances.rises (rank_le_of_terminal hterm _).not_gt
end

/-- The same-tick path sends the approve; the reconciler reads the row; the same-tick path sends the
wrap; the receipt of the approve reaches the reconciler after that. -/
def staleReceiptRun : List (Op ℕ) :=
  [.enqueue "wrap-1" 250000 0, .proceed 0, .broadcast 0 (.ok 7), .write 0 false, .reconcile 1,
    .mine ⟨.approve, 250000, 7⟩ ⟨true, 100⟩, .receipt 0 true, .write 0 false,
    .proceed 0, .broadcast 0 (.ok 8), .write 0 false,
    .receipt 1 true, .reread 1, .write 1 false]

/-- The submitter sends the wrap, its UPDATE meets a lock, and it fails the command; the wrap is
mined afterwards. -/
def lockedSubmitRun : List (Op ℕ) :=
  [.enqueue "wrap-1" 250000 0, .submit 0, .broadcast 0 (.ok 7), .write 0 false,
    .broadcast 0 (.ok 7), .mine ⟨.approve, 250000, 7⟩ ⟨true, 100⟩,
    .reconcile 1, .receipt 1 true, .reread 1, .write 1 false,
    .submit 0, .broadcast 0 (.ok 8), .write 0 true, .write 0 false,
    .mine ⟨.wrap, 250000, 8⟩ ⟨true, 101⟩]

theorem wrap_confirmed_unmined_and_failed_mined :
    ((System.run staleReceiptRun).commands.find "wrap-1").map (fun row => (row.state, row.txHash)) =
      some (.confirmed, some ⟨.wrap, 250000, 8⟩) ∧
    (System.run staleReceiptRun).mined ⟨.wrap, 250000, 8⟩ = none ∧
    (System.run staleReceiptRun).returned.map Prod.fst =
      [⟨.approve, 250000, 7⟩, ⟨.approve, 250000, 7⟩] ∧
    ((System.run lockedSubmitRun).commands.find "wrap-1").map Command.state = some .failed ∧
    ("wrap-1", (⟨.wrap, 250000, 8⟩ : Tx)) ∈ (System.run lockedSubmitRun).broadcasts ∧
    (System.run lockedSubmitRun).mined ⟨.wrap, 250000, 8⟩ = some ⟨true, 101⟩ := by
  decide +kernel

theorem staleReceipt_row_stays :
    ∃ row, (System.run staleReceiptRun).commands.find "wrap-1" = some row ∧
      (System.run (staleReceiptRun ++ lockedSubmitRun)).commands.find "wrap-1" = some row := by
  have conf : ((System.run staleReceiptRun).commands.find "wrap-1").map Command.state =
      some .confirmed := by
    decide +kernel
  obtain ⟨row, hf, state⟩ := Option.map_eq_some_iff.mp conf
  obtain ⟨later, after, -, same⟩ := finished_wraps_stay staleReceiptRun lockedSubmitRun hf
  rw [same (state ▸ by decide)] at after
  exact ⟨row, hf, after⟩

end Zeus.WrapCommands
