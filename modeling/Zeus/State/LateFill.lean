import Zeus.State.PusdCommitment

/-! The reservation is restored for the remainder, more fills follow and a terminal state converts
what is left. -/

namespace Zeus.Collateral

/-- The step neither releases, converts nor restores the reservation of `commandId`. -/
def Op.leaves (commandId : String) : Op → Bool
  | .release other _ _ | .convert other _ _ | .restore other _ _ _ => other != commandId
  | _ => true

/-- Kind and amount of the unsettled row, whether or not a snapshot has settled it. -/
def recordedUnsettled (db : Db) (commandId : String) : Option (ReservationKind × ℕ) :=
  (db.unsettledProceeds.find commandId).map fun row => (row.kind, row.amountMicro)

structure Stored (db : Db) (commandId : String) (command : VenueCommand) (row : Reservation)
    (unsettled : Option (ReservationKind × ℕ)) : Prop where
  hasCommand : db.venueCommands.find commandId = some command
  hasRow : db.reservations.find commandId = some row
  hasUnsettled : recordedUnsettled db commandId = unsettled

section
variable {db : Db} {commandId : String} {command : VenueCommand} {row : Reservation}
  {unsettled : Option (ReservationKind × ℕ)}

section
variable (stored : Stored db commandId command row unsettled)

include stored

theorem Stored.of_tables {after : Db}
    (cmds : after.venueCommands.find commandId = db.venueCommands.find commandId)
    (reservations : after.reservations.find commandId = db.reservations.find commandId)
    (proc : recordedUnsettled after commandId = recordedUnsettled db commandId) :
    Stored after commandId command row unsettled :=
  ⟨cmds.trans stored.hasCommand, reservations.trans stored.hasRow, proc.trans stored.hasUnsettled⟩

theorem Stored.insertReservation {other : String} {kind : ReservationKind} {amt : ℤ} {now : Time}
    {after : Db} (hw : insertReservation db other kind amt now = some after) :
    Stored after commandId command row unsettled := by
  obtain ⟨-, table, inserted, rfl⟩ := insertReservation_eq_some hw
  refine stored.of_tables rfl ?_ rfl
  rw [KeyedTable.find_tryInsert inserted]
  split <;> rename_i here
  · obtain ⟨fresh, -⟩ := KeyedTable.tryInsert_eq_some_iff.mp inserted
    rw [here, stored.hasRow] at fresh
    cases fresh
  · rfl

theorem Stored.convert_other {other : String} (hne : commandId ≠ other) (sa : StateLabel)
    (now : Time) :
    Stored (convertReservationOnFill db other sa now).2 commandId command row unsettled := by
  rcases convert_cases db other sa now with ⟨-, unch⟩ | ⟨conv, why, hf, -, changed⟩
  · rw [unch]
    exact stored
  · have sameId := (KeyedTable.find_some hf).2
    rw [changed]
    refine stored.of_tables rfl (by simp [KeyedTable.find_modify, hne]) ?_
    simp only [recordedUnsettled]
    split
    · simp [recordUnsettled, KeyedTable.find_upsert, conversionRow, sameId, hne]
    · rfl

theorem Stored.reopen_other {other : String} (hne : commandId ≠ other) (amt : ℕ) :
    Stored (reopenReservation db other amt) commandId command row unsettled :=
  stored.of_tables rfl (by simp [reopenReservation, KeyedTable.find_modify, hne]) rfl

theorem Stored.clearMatured (capAt : Time) :
    Stored (clearMaturedUnsettledProceeds db capAt) commandId command row unsettled := by
  refine stored.of_tables rfl rfl ?_
  simp only [recordedUnsettled, clearMaturedUnsettledProceeds, KeyedTable.find_modifyWhere,
    Option.map_map]
  congr 1
  funext settled
  simp only [Function.comp_apply]
  split <;> rfl

/-- A step about another command leaves the command's rows alone; a snapshot may settle
the unsettled row but not change its amount. -/
theorem Stored.next (op : Op) (leaves : op.leaves commandId = true) :
    Stored (next db op) commandId command row unsettled := by
  have effect := next_effect db op
  generalize Collateral.next db op = after at effect
  cases effect with
  | refused => exact stored
  | insertedCommand hw =>
    refine stored.of_tables ?_ rfl rfl
    rw [KeyedTable.find_tryInsert hw]
    split <;> rename_i here
    · obtain ⟨fresh, -⟩ := KeyedTable.tryInsert_eq_some_iff.mp hw
      rw [here, stored.hasCommand] at fresh
      cases fresh
    · rfl
  | appendedOrderFact | appendedTradeFact | exposed | recorded => exact stored.of_tables rfl rfl rfl
  | reservedPusd _ _ hw => exact stored.insertReservation hw
  | reservedTokens hw => exact stored.insertReservation hw
  | released other state now =>
    have hne : other ≠ commandId := by simpa [Op.leaves] using leaves
    exact stored.of_tables rfl (by simp [KeyedTable.find_modify, hne.symm]) rfl
  | converted other sa now =>
    have hne : other ≠ commandId := by simpa [Op.leaves] using leaves
    exact stored.convert_other hne.symm sa now
  | @restored other fsize part now _ ok =>
    have hne : other ≠ commandId := by simpa [Op.leaves] using leaves
    obtain ⟨_, _, original, remd, _, _, _, _, rfl⟩ := restore_ok ok
    have converted :=
      (stored.reopen_other hne.symm original).convert_other hne.symm .lateFillCorrection now
    cases part with
    | true => exact converted.reopen_other hne.symm remd
    | false => exact converted
  | matured snap => exact (stored.clearMatured snap.capturedAt).of_tables rfl rfl rfl

theorem Stored.run (ops : List Op) (leaves : ∀ op ∈ ops, op.leaves commandId = true) :
    Stored (run db ops) commandId command row unsettled := by
  induction ops generalizing db with
  | nil => exact stored
  | cons op rest ih =>
    exact ih (stored.next op (leaves op (by simp))) fun later mem => leaves later (by simp [mem])
end

end

section
variable {db : Db} {commandId : String} {command : VenueCommand} {row : Reservation}
  {unsettled : Option (ReservationKind × ℕ)}

theorem Stored.convertedNow_eq (stored : Stored db commandId command row unsettled) :
    convertedNow db row =
      filledReservationAmount row.amount command.size (provenFilledSize db commandId) := by
  have sameId := (KeyedTable.find_some stored.hasRow).2
  simp [convertedNow, sameId, stored.hasCommand]

def mergeUnsettled (kind : ReservationKind) (amount : ℕ) :
    Option (ReservationKind × ℕ) → Option (ReservationKind × ℕ)
  | none => if 0 < amount then some (kind, amount) else none
  | some (old, recorded) => some (old, max recorded amount)

theorem Stored.convert (stored : Stored db commandId command row unsettled)
    (isOpen : row.releasedAt = none) (kind : row.kind = .pusdBuy) (sa : StateLabel) (now : Time) :
    ∃ why, Stored (convertReservationOnFill db commandId sa now).2 commandId command
        (row.convert now why
            (filledReservationAmount row.amount command.size (provenFilledSize db commandId)))
        (mergeUnsettled .pusdBuy
            (filledReservationAmount row.amount command.size (provenFilledSize db commandId))
            unsettled) := by
  have sameId := (KeyedTable.find_some stored.hasRow).2
  rcases convert_cases db commandId sa now with ⟨hcl, -⟩ | ⟨hf, why, hasFound, -, changed⟩
  · exact absurd isOpen (hcl row stored.hasRow)
  · rw [stored.hasRow] at hasFound
    cases hasFound
    rw [← stored.convertedNow_eq, changed]
    refine ⟨why, stored.hasCommand, by simp [KeyedTable.find_modify, stored.hasRow], ?_⟩
    have hrec := stored.hasUnsettled
    by_cases pos : 0 < convertedNow db row
    · simp only [recordedUnsettled, pos, if_true, recordUnsettled, KeyedTable.find_upsert]
      simp only [conversionRow, sameId, if_true, Option.map_some, kind, unsettledAmount]
      cases old : db.unsettledProceeds.find commandId with
      | none =>
        simp only [recordedUnsettled, old, Option.map_none] at hrec
        simp [← hrec, mergeUnsettled, pos]
      | some prev =>
        simp only [recordedUnsettled, old, Option.map_some] at hrec
        simp only [← hrec, mergeUnsettled, Option.elim_some, UnsettledProceeds.raise]
        split <;> rename_i larger
        · rfl
        · rw [max_eq_left (not_lt.mp larger)]
    · simp only [recordedUnsettled, pos, if_false] at hrec ⊢
      rw [hrec]
      cases unsettled with
      | none => simp [mergeUnsettled, pos]
      | some prev => simp [mergeUnsettled, Nat.eq_zero_of_not_pos pos]

theorem Stored.noFill {sa : StateLabel} {now : Time} {op : Op}
    (stored : Stored db commandId command row none) (isOpen : row.releasedAt = none)
    (kind : row.kind = .pusdBuy) (unfilled : provenFilledSize db commandId = 0)
    (dispatch : terminalDispatch commandId sa false now = some op) :
    ∃ hcl : Reservation, Stored (Collateral.next db op) commandId command hcl none ∧
      hcl.kind = .pusdBuy := by
  unfold terminalDispatch at dispatch
  split at dispatch <;> rename_i terminal
  · split at dispatch
    · cases dispatch
      obtain ⟨why, after⟩ := stored.convert isOpen kind sa now
      rw [unfilled] at after
      have hno : filledReservationAmount row.amount command.size 0 = 0 := by
        simp [filledReservationAmount]
      rw [hno] at after
      exact ⟨_, after, kind⟩
    · cases dispatch
      refine ⟨row.release now sa, ?_, ?_⟩
      · change Stored (releaseReservationForCommandState db commandId sa now) commandId command _
          none
        have acc : sa ∈ terminalReservationStates := by
          rcases terminal with mem | never
          · revert mem
            cases sa <;> decide
          · cases never
        rw [releaseReservationForCommandState, if_pos acc]
        exact ⟨stored.hasCommand, by simp [KeyedTable.find_modify, stored.hasRow],
          stored.hasUnsettled⟩
      · simp [Reservation.release, isOpen, kind]
  · cases dispatch

theorem Stored.reopen (stored : Stored db commandId command row unsettled) (amt : ℕ) :
    Stored (reopenReservation db commandId amt) commandId command (row.reopen amt) unsettled :=
  ⟨stored.hasCommand, by simp [reopenReservation, KeyedTable.find_modify, stored.hasRow],
    stored.hasUnsettled⟩

/-- `ceil(size * price * 10^6)` as the restore computes it. -/
def restoredAmount (size price : ℚ) : ℕ :=
  ⌈DecimalContext.mul (DecimalContext.mul size price) microScale⌉.toNat

theorem filledReservationAmount_pos {amt : ℕ} {osize filled : ℚ} {prev : ℕ}
    (size : 0 < osize) (pos : 0 < filled) (adv : (prev : ℤ) <
      ⌊DecimalContext.mul amt (min 1 (DecimalContext.div filled osize))⌋) :
    0 < filledReservationAmount amt osize filled := by
  have nonzero : amt ≠ 0 := by
    rintro rfl
    have zero : DecimalContext.mul ((0 : ℕ) : ℚ) (min 1 (DecimalContext.div filled osize)) = 0 := by
      simp [DecimalContext.mul, DecimalContext.sigRound]
    rw [zero, Int.floor_zero] at adv
    omega
  rw [filledReservationAmount, if_neg (by push Not; exact ⟨size, pos⟩)]
  simp only
  omega

/-- A restore of a released BUY with a proven partial fill records its conversion and
leaves the remainder reserved. -/
theorem Stored.restore {filledSize : ℚ} {now : Time} (stored : Stored db commandId command row none)
    (kind : row.kind = .pusdBuy) (entryBuy : command.intentKind = .entry ∧ command.side = .buy)
    (size : 0 < command.size) (pos : 0 < filledSize)
    (proven : provenFilledSize db commandId = filledSize)
    (succeeds : (step db (.restore commandId filledSize true now)).1 = .ok ()) :
    ∃ live : Reservation,
      Stored (Collateral.next db (.restore commandId filledSize true now)) commandId command live
        (some (.pusdBuy,
            filledReservationAmount (restoredAmount command.size command.price) command.size
              filledSize)) ∧
      live.kind = .pusdBuy ∧
      live.releasedAt = none ∧
      live.amount = restoredAmount (DecimalContext.sub command.size filledSize) command.price := by
  have stepped : step db (.restore commandId filledSize true now) =
    inSavepoint db (restoreReservationForLateFill db commandId filledSize true now) := rfl
  rcases restoreStep_cases db commandId filledSize true now with ⟨_, raised⟩ | ⟨after, ok, done⟩
  · rw [stepped, raised] at succeeds
    cases succeeds
  · rw [Collateral.next, stepped, done]
    obtain ⟨_, _, original, remd, hcmd, hasRow, amounts, adv, rfl⟩ := restore_ok ok
    rw [stored.hasCommand] at hcmd
    cases hcmd
    rw [stored.hasRow] at hasRow
    cases hasRow
    simp only [lateFillAmounts, entryBuy.1, entryBuy.2, kind, Option.some.injEq, Prod.mk.injEq]
      at amounts
    obtain ⟨rfl, rfl⟩ := amounts
    obtain ⟨why, conv⟩ :=
      (stored.reopen (restoredAmount command.size command.price)).convert rfl kind
      .lateFillCorrection now
    have reopened : provenFilledSize (reopenReservation db commandId
        (restoredAmount command.size command.price)) commandId = filledSize := proven
    rw [reopened] at conv
    have progress : 0 <
        filledReservationAmount (restoredAmount command.size command.price) command.size
        filledSize := filledReservationAmount_pos size pos adv
    simp only [Reservation.reopen, mergeUnsettled, progress, if_true] at conv
    exact ⟨_,
      conv.reopen (restoredAmount (DecimalContext.sub command.size filledSize) command.price),
      kind, rfl, rfl⟩
end

/-- A late-fill history of one command, with arbitrary other transactions in between:
reserved, ended without a fill, restored for a proven partial fill, ended with a fill. -/
structure LateFillHistory where
  command : VenueCommand
  before : List Op
  reservedAt : Time
  held : List Op
  noFillState : StateLabel
  noFillAt : Time
  noFill : Op
  released : List Op
  firstFill : ℚ
  restoredAt : Time
  live : List Op
  terminalState : StateLabel
  terminalPartial : Bool
  terminalAt : Time
  after : List Op

namespace LateFillHistory

variable (h : LateFillHistory)

/-- `A = ceil(R * p * 10^6)`. -/
def reservedMicro : ℤ := ⌈h.command.size * h.command.price * 1000000⌉

def atReserve : Db := run Db.empty h.before

def reserve : Op := .reservePusd h.command.commandId h.reservedMicro h.reservedAt

def atNoFill : Db := run (next h.atReserve h.reserve) h.held

def atRestore : Db := run (next h.atNoFill h.noFill) h.released

def restore : Op := .restore h.command.commandId h.firstFill true h.restoredAt

def atTerminal : Db := run (next h.atRestore h.restore) h.live

def terminal : Op := .convert h.command.commandId h.terminalState h.terminalAt

def final : Db := run (next h.atTerminal h.terminal) h.after

def lastFill : ℚ := provenFilledSize h.atTerminal h.command.commandId

/-- The filled part `floor(A * f2 / R)` of the reservation. -/
def filledMicro : ℤ := ⌊h.reservedMicro * h.lastFill / h.command.size⌋

def ops : List Op :=
  h.before ++ [h.reserve] ++ h.held ++ [h.noFill] ++ h.released ++ [h.restore] ++ h.live ++
    [h.terminal] ++ h.after

/-- An entry BUY whose steps go through, with the proven fills; the steps between concern other
commands, venue facts or snapshots. -/
structure Valid : Prop where
  entryBuy : h.command.intentKind = .entry ∧ h.command.side = .buy
  size_pos : 0 < h.command.size
  price_pos : 0 < h.command.price
  stored : h.atReserve.venueCommands.find h.command.commandId = some h.command
  reserves : (step h.atReserve h.reserve).1 = .ok ()
  heldLeaves : ∀ op ∈ h.held, op.leaves h.command.commandId = true
  unfilled : provenFilledSize h.atNoFill h.command.commandId = 0
  ends : terminalDispatch h.command.commandId h.noFillState false h.noFillAt = some h.noFill
  releasedLeaves : ∀ op ∈ h.released, op.leaves h.command.commandId = true
  firstFill_pos : 0 < h.firstFill
  firstFill_lt : h.firstFill < h.command.size
  proven : provenFilledSize h.atRestore h.command.commandId = h.firstFill
  restores : (step h.atRestore h.restore).1 = .ok ()
  liveLeaves : ∀ op ∈ h.live, op.leaves h.command.commandId = true
  lastFill_ge : h.firstFill ≤ h.lastFill
  lastFill_le : h.lastFill ≤ h.command.size
  converts : terminalDispatch h.command.commandId h.terminalState h.terminalPartial h.terminalAt =
    some h.terminal
  afterLeaves : ∀ op ∈ h.after, op.leaves h.command.commandId = true

theorem final_eq_run : h.final = run Db.empty h.ops := by
  simp only [ops, run_append, final, atTerminal, atRestore, atNoFill, atReserve]
  rfl

/-- What the restore records for the first fill. -/
def restoreDeduction : ℕ :=
  filledReservationAmount (restoredAmount h.command.size h.command.price) h.command.size h.firstFill

/-- What the terminal conversion makes of the remainder: its amount at the cumulative ratio. -/
def remainderDeduction : ℕ :=
  filledReservationAmount
    (restoredAmount (DecimalContext.sub h.command.size h.firstFill) h.command.price)
    h.command.size h.lastFill

variable {h}

theorem Valid.stored_reserve (valid : h.Valid) :
    ∃ row : Reservation,
      Stored (next h.atReserve h.reserve) h.command.commandId h.command row none ∧
      row.kind = .pusdBuy ∧
      row.releasedAt = none := by
  have rsv := valid.reserves
  have stepped : step h.atReserve h.reserve =
    casInsertPusdReservation h.atReserve h.command.commandId h.reservedMicro h.reservedAt := rfl
  rcases casInsertPusd_cases h.atReserve h.command.commandId h.reservedMicro h.reservedAt with
    ⟨_, raised⟩ | ⟨_, after, _, _, hw, done⟩
  · rw [stepped, raised] at rsv
    cases rsv
  · rw [next, stepped, done]
    obtain ⟨-, table, inserted, rfl⟩ := insertReservation_eq_some hw
    obtain ⟨fresh, -⟩ := KeyedTable.tryInsert_eq_some_iff.mp inserted
    refine ⟨_, ⟨valid.stored, (KeyedTable.find_tryInsert inserted _).trans (if_pos rfl), ?_⟩, rfl,
      rfl⟩
    change recordedUnsettled h.atReserve h.command.commandId = none
    rw [recordedUnsettled, Option.map_eq_none_iff, Option.eq_none_iff_forall_not_mem]
    intro unsettled mem
    obtain ⟨row, hf, -⟩ := consistent_run h.before h.command.commandId unsettled mem
    rw [← atReserve] at hf
    rw [hf] at fresh
    cases fresh

theorem Valid.recorded (valid : h.Valid) : recordedUnsettled h.final h.command.commandId =
      some (.pusdBuy, max h.restoreDeduction h.remainderDeduction) := by
  obtain ⟨row, resd, kind, isOpen⟩ := valid.stored_reserve
  have held := resd.run h.held valid.heldLeaves
  obtain ⟨hcl, ended, closedKind⟩ := held.noFill isOpen kind valid.unfilled valid.ends
  have rel := ended.run h.released valid.releasedLeaves
  obtain ⟨live, rstd, liveKind, liveOpen, liveAmount⟩ := rel.restore closedKind valid.entryBuy
    valid.size_pos valid.firstFill_pos valid.proven valid.restores
  have filling := rstd.run h.live valid.liveLeaves
  obtain ⟨why, conv⟩ := filling.convert liveOpen liveKind h.terminalState h.terminalAt
  rw [liveAmount] at conv
  exact (conv.run h.after valid.afterLeaves).hasUnsettled

end LateFillHistory

/-- `target` micro fit in the part of `amount` that the fill `filled` is of `orderSize`,
in the ledger's decimal arithmetic. -/
def ShareCovers (amount : ℕ) (orderSize filled : ℚ) (target : ℤ) : Prop :=
  target ≤ amount ∧
  (target : ℚ) ≤ DecimalContext.mul amount (min 1 (DecimalContext.div filled orderSize))

theorem le_filledReservationAmount_iff {amt : ℕ} {osize filled : ℚ} {tgt : ℤ}
    (size : 0 < osize) (pos : 0 < filled) : tgt ≤ (filledReservationAmount amt osize filled : ℤ) ↔
      ShareCovers amt osize filled tgt := by
  have ratio : 0 ≤ min 1 (DecimalContext.div filled osize) :=
    le_min zero_le_one (DecimalContext.div_nonneg_of pos.le size.le)
  have share : 0 ≤ ⌊DecimalContext.mul amt (min 1 (DecimalContext.div filled osize))⌋ :=
    Int.floor_nonneg.mpr (DecimalContext.mul_nonneg_of amt.cast_nonneg ratio)
  rw [filledReservationAmount, if_neg (by push Not; exact ⟨size, pos⟩), ShareCovers, ← Int.le_floor]
  simp only
  omega

/-- In every late-fill history the command keeps one outgoing deduction, and it reaches the filled
part of the reservation exactly when that part fits in the first fill's share of the restored
amount, or in the cumulative fill's share of the remainder's. -/
theorem lateFill_deduction_iff (h : LateFillHistory) (valid : h.Valid) :
    ∃ row, (run Db.empty h.ops).unsettledProceeds.find h.command.commandId = some row ∧
      row.kind = .pusdBuy ∧
      (h.filledMicro ≤ (row.amountMicro : ℤ) ↔
        ShareCovers (restoredAmount h.command.size h.command.price) h.command.size h.firstFill
          h.filledMicro ∨
        ShareCovers (restoredAmount (DecimalContext.sub h.command.size h.firstFill) h.command.price)
          h.command.size h.lastFill h.filledMicro) := by
  have hrec := valid.recorded
  rw [h.final_eq_run] at hrec
  obtain ⟨row, hf, pair⟩ := Option.map_eq_some_iff.mp hrec
  obtain ⟨kind, amt⟩ := Prod.mk.inj pair
  refine ⟨row, hf, kind, ?_⟩
  have lastPositive : 0 < h.lastFill := valid.firstFill_pos.trans_le valid.lastFill_ge
  rw [amt, Nat.cast_max, le_max_iff, LateFillHistory.restoreDeduction,
    LateFillHistory.remainderDeduction,
    le_filledReservationAmount_iff valid.size_pos valid.firstFill_pos,
    le_filledReservationAmount_iff valid.size_pos lastPositive]

/-- Ten shares at one half: expired unfilled, `first` of them proven late and then `last`. -/
def tenAtHalf (first last : ℚ) (ends : StateLabel) : LateFillHistory where
  command := ⟨"buy", .entry, .buy, 10, 1 / 2, "token"⟩
  before :=
    [.insertCommand ⟨"buy", .entry, .buy, 10, 1 / 2, "token"⟩,
     .snapshot ⟨100000000, 100000000, [], [], 0, .chain⟩]
  reservedAt := 1000000
  held := []
  noFillState := .expired
  noFillAt := 2000000
  noFill := .convert "buy" .expired 2000000
  released := [.appendOrderFact ⟨⟨.partiallyMatched, some (10 - first), some first⟩, "buy"⟩]
  firstFill := first
  restoredAt := 3000000
  live := [.appendOrderFact ⟨⟨.matched, some (10 - last), some last⟩, "buy"⟩]
  terminalState := ends
  terminalPartial := false
  terminalAt := 4000000
  after := []

def halfThenAll : LateFillHistory := tenAtHalf 5 10 .filled

/-- Two millionths of a share, then three and one millionth: the remainder's share covers it. -/
def dustThenThree : LateFillHistory := tenAtHalf (2 / 1000000) (3000001 / 1000000) .cancelled

theorem halfThenAll_valid : halfThenAll.Valid := by
  constructor <;> decide +kernel

theorem dustThenThree_valid : dustThenThree.Valid := by
  constructor <;> decide +kernel

theorem dustThenThree_deducted_halfThenAll_not :
    (∃ row, (run Db.empty dustThenThree.ops).unsettledProceeds.find "buy" = some row ∧
      dustThenThree.filledMicro ≤ (row.amountMicro : ℤ)) ∧
    ∃ row, (run Db.empty halfThenAll.ops).unsettledProceeds.find "buy" = some row ∧
      (row.amountMicro : ℤ) < halfThenAll.filledMicro := by
  constructor
  · obtain ⟨row, hf, -, reaches⟩ := lateFill_deduction_iff dustThenThree dustThenThree_valid
    exact ⟨row, hf, reaches.mpr (.inr (by unfold ShareCovers; decide +kernel))⟩
  · obtain ⟨row, hf, -, reaches⟩ := lateFill_deduction_iff halfThenAll halfThenAll_valid
    refine ⟨row, hf, not_le.mp fun cov => ?_⟩
    revert cov
    rw [reaches]
    unfold ShareCovers
    decide +kernel

/-- Five dollars were filled, and the open deduction holds two and a half. -/
theorem halfThenAll_underdeducted :
    halfThenAll.Valid ∧
    halfThenAll.filledMicro = 5000000 ∧
    (run Db.empty halfThenAll.ops).unsettledProceeds.find "buy" =
      some { commandId := "buy", kind := .pusdBuy, amountMicro := 2500000, createdAt := 3000000 } :=
  ⟨halfThenAll_valid, by decide +kernel, by decide +kernel⟩

end Zeus.Collateral
