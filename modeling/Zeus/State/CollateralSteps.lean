import Zeus.State.CollateralLedger

namespace Zeus.Collateral

variable {db : Db} {commandId : String}

variable {now : Time} {stateAfter : StateLabel}

theorem insertReservation_eq_some {kind : ReservationKind} {amount : ℤ} {after : Db}
    (hw : insertReservation db commandId kind amount now = some after) :
    0 ≤ amount ∧
    ∃ table,
      db.reservations.tryInsert
        { commandId := commandId, kind := kind, amount := amount.toNat, createdAt := now } =
        some table ∧
      after = { db with reservations := table } := by
  unfold insertReservation at hw
  split at hw <;> rename_i nn
  · obtain ⟨table, inserted, same⟩ := Option.map_eq_some_iff.mp hw
    exact ⟨nn, table, inserted, same.symm⟩
  · cases hw

theorem casInsertPusd_cases (db : Db) (commandId : String) (amt : ℤ) (now : Time) :
    (∃ error, casInsertPusdReservation db commandId amt now = (.error error, db)) ∨
    ∃ lat after, db.latest = some lat ∧
      pusdGuard lat (committed db) amt now = true ∧
      insertReservation db commandId .pusdBuy amt now = some after ∧
      casInsertPusdReservation db commandId amt now = (.ok (), after) := by
  unfold casInsertPusdReservation
  cases newest : db.latest with
  | none => exact .inl ⟨_, rfl⟩
  | some lat =>
    dsimp only
    by_cases guard : pusdGuard lat (committed db) amt now = true
    · rw [if_pos guard]
      cases hw : insertReservation db commandId .pusdBuy amt now with
      | none => exact .inl ⟨_, rfl⟩
      | some after =>
        dsimp only
        split
        · exact .inl ⟨_, rfl⟩
        · exact .inr ⟨lat, after, rfl, guard, rfl, rfl⟩
    · rw [if_neg guard]
      exact .inl ⟨_, rfl⟩

/-- The compensating delete undoes the insert, so a refused token reservation leaves no trace. -/
theorem casInsertCtf_cases (db : Db) (commandId tid : String) (amt : ℕ) (now : Time) :
    (∃ error, casInsertCtfReservation db commandId tid amt now = (.error error, db)) ∨
      ∃ after, insertReservation db commandId (.ctfSell tid) amt now = some after ∧
      (reservedTokens after tid : ℤ) ≤ latestTokenBalance after tid ∧
      casInsertCtfReservation db commandId tid amt now = (.ok (), after) := by
  unfold casInsertCtfReservation
  cases hw : insertReservation db commandId (.ctfSell tid) amt now with
  | none => exact .inl ⟨_, rfl⟩
  | some after =>
    dsimp only
    split <;> rename_i short
    · obtain ⟨-, table, inserted, rfl⟩ := insertReservation_eq_some hw
      obtain ⟨fresh, rfl⟩ := KeyedTable.tryInsert_eq_some_iff.mp inserted
      refine .inl ⟨_, Prod.ext rfl ?_⟩
      simp only
      exact congrArg (fun table => { db with reservations := table })
        (KeyedTable.erase_insert db.reservations _ fresh)
    · exact .inr ⟨after, rfl, not_lt.mp short, rfl⟩

theorem reserveTokens_cases (db : Db) (commandId tid : String) (size : ℚ) (now : Time) :
    (∃ error, reserveTokensForSellInTransaction db commandId tid size now = (.error error, db)) ∨
    ∃ after,
      insertReservation db commandId (.ctfSell tid) (tokenRequiredUnits size) now = some after ∧
      (reservedTokens after tid : ℤ) ≤ latestTokenBalance after tid ∧
      reserveTokensForSellInTransaction db commandId tid size now = (.ok (), after) := by
  unfold reserveTokensForSellInTransaction
  cases sellPreflightInTransaction db tid size now with
  | error error => exact .inl ⟨error, rfl⟩
  | ok _ => exact casInsertCtf_cases db commandId tid (tokenRequiredUnits size) now

theorem filledReservationAmount_le (amount : ℕ) (osize filled : ℚ) :
    filledReservationAmount amount osize filled ≤ amount := by
  unfold filledReservationAmount
  split
  · exact Nat.zero_le _
  · simp only [Int.toNat_le]
    exact max_le (by positivity) (min_le_left _ _)

/-- The unsettled row a conversion of `row` offers to the upsert. -/
def conversionRow (db : Db) (row : Reservation) (now : Time) : UnsettledProceeds where
  commandId := row.commandId
  kind := row.kind
  amountMicro := unsettledAmount row.kind (convertedNow db row)
    (((db.venueCommands.find row.commandId).map VenueCommand.price).getD 0)
  createdAt := now

theorem convert_cases (db : Db) (commandId : String) (stateAfter : StateLabel) (now : Time) :
    ((∀ row, db.reservations.find commandId = some row → row.releasedAt ≠ none) ∧
        convertReservationOnFill db commandId stateAfter now = (false, db)) ∨
      ∃ row why, db.reservations.find commandId = some row ∧
        row.releasedAt = none ∧
        convertReservationOnFill db commandId stateAfter now = (true, { db with
            reservations := db.reservations.modify commandId
              (Reservation.convert now why (convertedNow db row))
              (Reservation.convert_commandId now why (convertedNow db row))
            unsettledProceeds :=
              if 0 < convertedNow db row then
                recordUnsettled db.unsettledProceeds (conversionRow db row now)
              else db.unsettledProceeds }) := by
  unfold convertReservationOnFill
  cases hf : db.reservations.find commandId with
  | none => exact .inl ⟨by simp, rfl⟩
  | some row =>
    dsimp only
    have same : row.commandId = commandId := (KeyedTable.find_some hf).2
    split <;> rename_i unrel
    · refine .inr ⟨row, if 0 < convertedNow db row then .convertedOnFill else .state stateAfter,
        rfl, unrel, ?_⟩
      rw [conversionRow, same]
    · refine .inl ⟨fun other isRow => ?_, rfl⟩
      cases isRow
      exact unrel

/-- A restore that succeeds reopens the row at the original amount, converts it, and
for a live remainder reopens it once more at the remainder's amount. -/
theorem restore_ok {fsize : ℚ} {part : Bool} {after : Db}
    (ok : restoreReservationForLateFill db commandId fsize part now = (.ok (), after)) :
    ∃ cmd resv original remd, db.venueCommands.find commandId = some cmd ∧
      db.reservations.find commandId = some resv ∧
      lateFillAmounts cmd resv.kind (DecimalContext.sub cmd.size fsize) = some (original, remd) ∧
      (resv.convertedAmount : ℤ) <
        ⌊DecimalContext.mul original (min 1 (DecimalContext.div fsize cmd.size))⌋ ∧
      after = if part then
          reopenReservation (convertReservationOnFill (reopenReservation db commandId original)
              commandId .lateFillCorrection now).2 commandId remd
        else
          (convertReservationOnFill (reopenReservation db commandId original) commandId
              .lateFillCorrection now).2 := by
  unfold restoreReservationForLateFill at ok
  cases hcmd : db.venueCommands.find commandId with
  | none => simp [hcmd] at ok
  | some cmd =>
    cases hasRow : db.reservations.find commandId with
    | none => simp [hcmd, hasRow] at ok
    | some resv =>
      simp only [hcmd, hasRow] at ok
      split at ok
      · simp at ok
      · split at ok
        · simp at ok
        · rename_i original remd amounts
          split at ok
          · simp at ok
          · rename_i adv
            split at ok
            · simp at ok
            · refine ⟨cmd, resv, original, remd, rfl, rfl, amounts, not_le.mp adv, ?_⟩
              split at ok <;> rename_i conv conversion
              · simp at ok
              · rw [conversion]
                cases part with
                | false => simpa using (Prod.ext_iff.mp ok).2.symm
                | true =>
                  simp only [Bool.not_true, Bool.false_eq_true, if_false] at ok
                  split at ok
                  · simpa using (Prod.ext_iff.mp ok).2.symm
                  · simp at ok

theorem restoreStep_cases (db : Db) (commandId : String) (fsize : ℚ) (part : Bool) (now : Time) :
    (∃ error, inSavepoint db (restoreReservationForLateFill db commandId fsize part now) =
          (.error error, db)) ∨
    ∃ after, restoreReservationForLateFill db commandId fsize part now = (.ok (), after) ∧
      inSavepoint db (restoreReservationForLateFill db commandId fsize part now) =
        (.ok (), after) := by
  unfold inSavepoint
  obtain ⟨out, after⟩ := restoreReservationForLateFill db commandId fsize part now
  cases out with
  | error error => exact .inl ⟨error, rfl⟩
  | ok _ => exact .inr ⟨after, rfl, rfl⟩

/-- An operation about one command: the reservations of the others are as they were, and no row
was added or removed. -/
structure ReservationFrame (commandId : String) (before after : KeyedTable Reservation.commandId) :
    Prop where
  other : ∀ k, k ≠ commandId → after.find k = before.find k
  kept : ∀ k, (after.find k).isSome = (before.find k).isSome

theorem ReservationFrame.refl (commandId : String) (table : KeyedTable Reservation.commandId) :
    ReservationFrame commandId table table :=
  ⟨fun _ _ => rfl, fun _ => rfl⟩

theorem ReservationFrame.trans {before middle after : KeyedTable Reservation.commandId}
    (first : ReservationFrame commandId before middle)
    (snd : ReservationFrame commandId middle after) : ReservationFrame commandId before after :=
  ⟨fun k hne => (snd.other k hne).trans (first.other k hne),
    fun k => (snd.kept k).trans (first.kept k)⟩

theorem ReservationFrame.modify (table : KeyedTable Reservation.commandId)
    (f : Reservation → Reservation) (keep : ∀ row, (f row).commandId = row.commandId) :
    ReservationFrame commandId table (table.modify commandId f keep) := by
  constructor
  · intro k hne
    rw [KeyedTable.find_modify, if_neg hne]
  · intro k
    rw [KeyedTable.find_modify]
    split <;> simp

theorem convert_frame (db : Db) (commandId : String) (stateAfter : StateLabel) (now : Time) :
    ReservationFrame commandId db.reservations
      (convertReservationOnFill db commandId stateAfter now).2.reservations := by
  rcases convert_cases db commandId stateAfter now with ⟨-, unch⟩ | ⟨row, why, -, -, changed⟩
  · rw [unch]
    exact .refl _ _
  · rw [changed]
    exact .modify _ _ (Reservation.convert_commandId _ _ _)

theorem reopen_frame (db : Db) (commandId : String) (amt : ℕ) :
    ReservationFrame commandId db.reservations (reopenReservation db commandId amt).reservations :=
  .modify _ _ (Reservation.reopen_commandId amt)

theorem restore_frame {fsize : ℚ} {part : Bool} {after : Db}
    (ok : restoreReservationForLateFill db commandId fsize part now = (.ok (), after)) :
    ReservationFrame commandId db.reservations after.reservations := by
  obtain ⟨-, -, original, remd, -, -, -, -, rfl⟩ := restore_ok ok
  have conv : ReservationFrame commandId db.reservations (convertReservationOnFill
      (reopenReservation db commandId original) commandId .lateFillCorrection now).2.reservations :=
    (reopen_frame db commandId original).trans (convert_frame _ commandId .lateFillCorrection now)
  cases part with
  | false => exact conv
  | true => exact conv.trans (reopen_frame _ commandId remd)

theorem convert_closes {row : Reservation}
    (hf : (convertReservationOnFill db commandId stateAfter now).2.reservations.find commandId =
        some row) : row.releasedAt ≠ none := by
  rcases convert_cases db commandId stateAfter now with ⟨hcl, unch⟩ | ⟨old, why, -, -, changed⟩
  · rw [unch] at hf
    exact hcl row hf
  · rw [changed] at hf
    simp only [KeyedTable.find_modify, if_true] at hf
    obtain ⟨_, -, rfl⟩ := Option.map_eq_some_iff.mp hf
    simp [Reservation.convert]

theorem convert_of_closed
    (hcl : ∀ row, db.reservations.find commandId = some row → row.releasedAt ≠ none) :
    (convertReservationOnFill db commandId stateAfter now).2 = db := by
  rcases convert_cases db commandId stateAfter now with ⟨-, unch⟩ | ⟨row, -, hf, unrel, -⟩
  · rw [unch]
  · exact absurd unrel (hcl row hf)

theorem release_closes {state : StateLabel} {row : Reservation}
    (hterm : state ∈ terminalReservationStates)
    (hf : (releaseReservationForCommandState db commandId state now).reservations.find commandId =
        some row) : row.releasedAt ≠ none := by
  unfold releaseReservationForCommandState at hf
  rw [if_pos hterm] at hf
  simp only [KeyedTable.find_modify, if_true] at hf
  obtain ⟨old, -, rfl⟩ := Option.map_eq_some_iff.mp hf
  unfold Reservation.release
  split
  · simp
  · assumption

theorem terminalDispatch_eq_some {tp : Bool} {op : Op}
    (disp : terminalDispatch commandId stateAfter tp now = some op) :
    op = .convert commandId stateAfter now ∨
    (stateAfter ∈ terminalReservationStates ∧ op = .release commandId stateAfter now) := by
  have cov : terminalStates ⊆ terminalReservationStates := by decide
  unfold terminalDispatch at disp
  split at disp <;> rename_i ends
  · split at disp <;> rename_i converts
    · exact .inl (Option.some.inj disp).symm
    · refine .inr ⟨?_, (Option.some.inj disp).symm⟩
      rcases ends with hterm | part
      · exact cov hterm
      · exact absurd (.inl part) converts
  · cases disp

theorem terminalDispatch_frame {tp : Bool} {op : Op}
    (disp : terminalDispatch commandId stateAfter tp now = some op) (db : Db) :
    ReservationFrame commandId db.reservations (next db op).reservations := by
  rcases terminalDispatch_eq_some disp with rfl | ⟨hterm, rfl⟩
  · exact convert_frame db commandId stateAfter now
  · change ReservationFrame commandId _
      (releaseReservationForCommandState db commandId stateAfter now).reservations
    unfold releaseReservationForCommandState
    rw [if_pos hterm]
    exact .modify _ _ (Reservation.release_commandId now stateAfter)

theorem terminalDispatch_closes {tp : Bool} {op : Op}
    (disp : terminalDispatch commandId stateAfter tp now = some op) {row : Reservation}
    (hf : (next db op).reservations.find commandId = some row) : row.releasedAt ≠ none := by
  rcases terminalDispatch_eq_some disp with rfl | ⟨hterm, rfl⟩
  · exact convert_closes hf
  · exact release_closes hterm hf

inductive Effect (db : Db) : Op → Db → Prop
  | refused (op : Op) : Effect db op db
  | insertedCommand {command : VenueCommand} {table : KeyedTable VenueCommand.commandId}
      (written : db.venueCommands.tryInsert command = some table) :
      Effect db (.insertCommand command) { db with venueCommands := table }
  | appendedOrderFact (fact : VenueOrderFact) (facts : List VenueOrderFact) :
      Effect db (.appendOrderFact fact) { db with venueOrderFacts := facts }
  | appendedTradeFact (fact : FillDedup.TradeFact) (table : FillDedup.VenueTradeFacts) :
      Effect db (.appendTradeFact fact) { db with venueTradeFacts := table }
  | exposed (active : Bool) : Effect db (.setCtfExposure active)
    { db with activeCtfExposure := active }
  | reservedPusd {commandId : String} {amount : ℤ} {now : Time} {latest : CollateralSnapshot}
    {after : Db}
      (newest : db.latest = some latest) (guard : pusdGuard latest (committed db) amount now = true)
      (written : insertReservation db commandId .pusdBuy amount now = some after) :
      Effect db (.reservePusd commandId amount now) after
  | reservedTokens {commandId tokenId : String} {size : ℚ} {now : Time} {after : Db}
      (written : insertReservation db commandId (.ctfSell tokenId) (tokenRequiredUnits size) now =
          some after) :
      Effect db (.reserveTokens commandId tokenId size now) after
  | released (commandId : String) (state : StateLabel) (now : Time) : Effect db
    (.release commandId state now)
        { db with
          reservations := db.reservations.modify commandId (Reservation.release now state)
            (Reservation.release_commandId now state) }
  | converted (commandId : String) (stateAfter : StateLabel) (now : Time) :
      Effect db (.convert commandId stateAfter now)
        (convertReservationOnFill db commandId stateAfter now).2
  | restored {commandId : String} {filledSize : ℚ} {isPartial : Bool} {now : Time} {after : Db}
      (succeeds : restoreReservationForLateFill db commandId filledSize isPartial now =
          (.ok (), after)) :
      Effect db (.restore commandId filledSize isPartial now) after
  | recorded (snapshot : CollateralSnapshot) (snapshots : List CollateralSnapshot) :
      Effect db (.snapshot snapshot) { db with snapshots := snapshots }
  | matured (snapshot : CollateralSnapshot)
    (snapshots : List CollateralSnapshot) : Effect db (.snapshot snapshot)
        { clearMaturedUnsettledProceeds db snapshot.capturedAt with snapshots := snapshots }

theorem next_effect (db : Db) (op : Op) : Effect db op (next db op) := by
  cases op with
  | insertCommand cmd =>
    change Effect db _ (inserted db _).2
    cases hw : db.venueCommands.tryInsert cmd with
    | none => exact .refused _
    | some table => exact .insertedCommand hw
  | appendOrderFact fact => exact .appendedOrderFact fact _
  | appendTradeFact fact =>
    change Effect db _ (inserted db _).2
    cases db.venueTradeFacts.tryAppend fact with
    | none => exact .refused _
    | some table => exact .appendedTradeFact fact table
  | setCtfExposure act => exact .exposed act
  | reservePusd commandId amt now =>
    change Effect db _ (casInsertPusdReservation db commandId amt now).2
    rcases casInsertPusd_cases db commandId amt now with
      ⟨_, raised⟩ | ⟨lat, after, newest, guard, hw, done⟩
    · rw [raised]
      exact .refused _
    · rw [done]
      exact .reservedPusd newest guard hw
  | reserveTokens commandId tid size now =>
    change Effect db _ (reserveTokensForSellInTransaction db commandId tid size now).2
    rcases reserveTokens_cases db commandId tid size now with ⟨_, raised⟩ | ⟨after, hw, _, done⟩
    · rw [raised]
      exact .refused _
    · rw [done]
      exact .reservedTokens hw
  | release commandId state now =>
    change Effect db _ (releaseReservationForCommandState db commandId state now)
    unfold releaseReservationForCommandState
    split
    · exact .released commandId state now
    · exact .refused _
  | convert commandId stateAfter now => exact .converted commandId stateAfter now
  | restore commandId fsize part now =>
    change Effect db _ (inSavepoint db _).2
    rcases restoreStep_cases db commandId fsize part now with ⟨_, raised⟩ | ⟨after, ok, done⟩
    · rw [raised]
      exact .refused _
    · rw [done]
      exact .restored ok
  | snapshot snapshot =>
    change Effect db _ (persistSnapshot db snapshot)
    unfold persistSnapshot
    dsimp only
    split
    · exact .recorded snapshot _
    · exact .matured snapshot _

end Zeus.Collateral
