import Zeus.State.CollateralSteps

namespace Zeus.Collateral

/-- Unsettled rows stand under a reservation of the same kind. -/
def Consistent (db : Db) : Prop :=
  ∀ commandId unsettled, db.unsettledProceeds.find commandId = some unsettled →
    ∃ row, db.reservations.find commandId = some row ∧ row.kind = unsettled.kind

section
variable {db : Db}

theorem Consistent.of_reservations {table : KeyedTable Reservation.commandId}
    (consistent : Consistent db)
    (keeps : ∀ cid row, db.reservations.find cid = some row →
        ∃ row', table.find cid = some row' ∧ row'.kind = row.kind) :
    Consistent { db with reservations := table } := by
  intro cid unset hf
  obtain ⟨row, hasRow, kind⟩ := consistent cid unset hf
  obtain ⟨row', hasRow', kind'⟩ := keeps cid row hasRow
  exact ⟨row', hasRow', kind'.trans kind⟩

theorem Consistent.modify (consistent : Consistent db) (cid : String)
    (f : Reservation → Reservation) (keep : ∀ row, (f row).commandId = row.commandId)
    (kind : ∀ row, (f row).kind = row.kind) :
    Consistent { db with reservations := db.reservations.modify cid f keep } := by
  apply consistent.of_reservations
  intro other row hf
  rw [KeyedTable.find_modify]
  by_cases here : other = cid
  · subst here
    exact ⟨f row, by simp [hf], kind row⟩
  · exact ⟨row, by simp [here, hf], rfl⟩

theorem Consistent.insertReservation {cid : String} {kind : ReservationKind} {amt : ℤ}
    {now : Time} {after : Db} (consistent : Consistent db)
    (hw : insertReservation db cid kind amt now = some after) : Consistent after := by
  obtain ⟨-, table, inserted, rfl⟩ := insertReservation_eq_some hw
  apply consistent.of_reservations
  intro other row hf
  refine ⟨row, ?_, rfl⟩
  rw [KeyedTable.find_tryInsert inserted]
  split <;> rename_i here
  · obtain ⟨fresh, -⟩ := KeyedTable.tryInsert_eq_some_iff.mp inserted
    rw [here, hf] at fresh
    cases fresh
  · exact hf

theorem raise_kind (amt : ℕ) (now : Time) (row : UnsettledProceeds) :
    (row.raise amt now).kind = row.kind := by
  unfold UnsettledProceeds.raise
  split <;> rfl

section
variable (consistent : Consistent db)

include consistent

theorem Consistent.recordUnsettled (offered : UnsettledProceeds)
    (row : Reservation) (hf : db.reservations.find offered.commandId = some row)
    (kind : row.kind = offered.kind) :
    Consistent { db with unsettledProceeds := recordUnsettled db.unsettledProceeds offered } := by
  intro cid unset hp
  change (Collateral.recordUnsettled db.unsettledProceeds offered).find cid = some unset at hp
  rw [Collateral.recordUnsettled, KeyedTable.find_upsert] at hp
  split at hp <;> rename_i here
  · subst here
    refine ⟨row, hf, ?_⟩
    rw [← Option.some.inj hp]
    cases old : db.unsettledProceeds.find offered.commandId with
    | none => exact kind
    | some prev =>
      obtain ⟨row', found', kind'⟩ := consistent offered.commandId prev old
      rw [hf] at found'
      cases found'
      rw [Option.elim_some, raise_kind]
      exact kind'
  · exact consistent cid unset hp

theorem Consistent.convert (cid : String) (sa : StateLabel)
    (now : Time) : Consistent (convertReservationOnFill db cid sa now).2 := by
  rcases convert_cases db cid sa now with ⟨-, unch⟩ | ⟨row, why, hf, -, changed⟩
  · rw [unch]
    exact consistent
  · rw [changed]
    have hcl := consistent.modify cid (Reservation.convert now why (convertedNow db row))
      (Reservation.convert_commandId now why (convertedNow db row)) fun _ => rfl
    by_cases pos : 0 < convertedNow db row
    · have sameId := (KeyedTable.find_some hf).2
      simp only [pos, if_true]
      exact hcl.recordUnsettled (conversionRow db row now)
        (Reservation.convert now why (convertedNow db row) row)
        (by simp [conversionRow, sameId, KeyedTable.find_modify, hf]) rfl
    · simp only [pos, if_false]
      exact hcl

theorem Consistent.reopen (cid : String) (amt : ℕ) : Consistent (reopenReservation db cid amt) :=
  consistent.modify cid (Reservation.reopen amt) (Reservation.reopen_commandId amt) fun _ => rfl

theorem Consistent.restore {cid : String} {fsize : ℚ} {part : Bool} {now : Time} {after : Db}
    (ok : restoreReservationForLateFill db cid fsize part now = (.ok (), after)) :
    Consistent after := by
  obtain ⟨_, _, original, remd, _, _, _, _, rfl⟩ := restore_ok ok
  have conv := (consistent.reopen cid original).convert cid .lateFillCorrection now
  cases part with
  | true => exact conv.reopen cid remd
  | false => exact conv

theorem Consistent.clearMatured (capAt : Time) :
    Consistent (clearMaturedUnsettledProceeds db capAt) := by
  intro cid unset hf
  rw [clearMaturedUnsettledProceeds, KeyedTable.find_modifyWhere] at hf
  obtain ⟨old, hp, same⟩ := Option.map_eq_some_iff.mp hf
  obtain ⟨row, hasRow, kind⟩ := consistent cid old hp
  refine ⟨row, hasRow, kind.trans ?_⟩
  rw [← same]
  split <;> rfl

theorem consistent_next (op : Op) : Consistent (next db op) := by
  have effect := next_effect db op
  generalize next db op = after at effect
  cases effect with
  | refused | insertedCommand | appendedOrderFact | appendedTradeFact | exposed | recorded =>
    exact consistent
  | reservedPusd _ _ hw => exact consistent.insertReservation hw
  | reservedTokens hw => exact consistent.insertReservation hw
  | released cid state now =>
    exact consistent.modify cid (Reservation.release now state)
      (Reservation.release_commandId now state) fun row =>
        by unfold Reservation.release; split <;> rfl
  | converted cid sa now => exact consistent.convert cid sa now
  | restored ok => exact consistent.restore ok
  | matured snap => exact consistent.clearMatured snap.capturedAt
end

theorem consistent_run (ops : List Op) : Consistent (run Db.empty ops) := by
  have start : Consistent Db.empty := fun _ _ hab => by cases hab
  exact List.foldlRecOn ops next start fun _ consistent op _ => consistent_next consistent op
end

section
variable {db : Db}

theorem committed_released_le (db : Db) (cid : String) (state : StateLabel) (now : Time) :
    committed { db with
      reservations := db.reservations.modify cid (Reservation.release now state)
        (Reservation.release_commandId now state) } ≤ committed db := by
  apply Nat.add_le_add_right
  refine KeyedTable.total_modifyWhere_le _ _ _ (Reservation.release_commandId now state) _ ?_
  intro row _
  unfold Reservation.release Reservation.heldPusd
  split <;> simp

theorem committed_release_le (db : Db) (cid : String) (state : StateLabel) (now : Time) :
    committed (releaseReservationForCommandState db cid state now) ≤ committed db := by
  unfold releaseReservationForCommandState
  split
  · exact committed_released_le db cid state now
  · exact le_rfl

theorem openDeduction_recordUnsettled_le (consistent : Consistent db) (offered : UnsettledProceeds)
    (row : Reservation) (hf : db.reservations.find offered.commandId = some row)
    (kind : row.kind = offered.kind) (isOpen : offered.settledAt = none) :
    (recordUnsettled db.unsettledProceeds offered).total UnsettledProceeds.openDeduction ≤
      db.unsettledProceeds.total UnsettledProceeds.openDeduction + offered.openDeduction := by
  rw [recordUnsettled, KeyedTable.total_upsert]
  cases old : db.unsettledProceeds.find offered.commandId with
  | none =>
    rw [KeyedTable.erase_absent old, Option.elim_none]
    exact (Nat.add_comm _ _).le
  | some prev =>
    obtain ⟨row', found', kind'⟩ := consistent offered.commandId prev old
    rw [hf] at found'
    cases found'
    have raised : (prev.raise offered.amountMicro offered.createdAt).openDeduction ≤
        prev.openDeduction + offered.openDeduction := by
      unfold UnsettledProceeds.raise UnsettledProceeds.openDeduction
      rw [← kind', kind, isOpen]
      split_ifs <;> simp_all
      omega
    rw [Option.elim_some, KeyedTable.total_erase _ old UnsettledProceeds.openDeduction]
    omega

theorem committed_convert_le (consistent : Consistent db) (cid : String) (sa : StateLabel)
    (now : Time) : committed (convertReservationOnFill db cid sa now).2 ≤ committed db := by
  rcases convert_cases db cid sa now with ⟨-, unch⟩ | ⟨row, why, hf, isOpen, changed⟩
  · rw [unch]
  · have sameId := (KeyedTable.find_some hf).2
    rw [changed]
    simp only [committed, reservedPusd]
    rw [KeyedTable.total_modify _ hf, KeyedTable.total_erase _ hf Reservation.heldPusd]
    have hcl : (Reservation.convert now why (convertedNow db row) row).heldPusd = 0 := by
      simp [Reservation.convert, Reservation.heldPusd]
    rw [hcl]
    by_cases pos : 0 < convertedNow db row
    · rw [if_pos pos]
      have grown := openDeduction_recordUnsettled_le consistent (conversionRow db row now) row
        (by simpa [conversionRow, sameId] using hf) rfl rfl
      have moved : (conversionRow db row now).openDeduction ≤ row.heldPusd := by
        have atMost : convertedNow db row ≤ row.amount := filledReservationAmount_le _ _ _
        unfold UnsettledProceeds.openDeduction Reservation.heldPusd conversionRow
        cases row.kind <;> simp [isOpen, unsettledAmount, atMost]
      omega
    · rw [if_neg pos]
      omega

theorem committed_insertReservation {cid : String} {kind : ReservationKind} {amt : ℤ}
    {now : Time} {after : Db} (hw : insertReservation db cid kind amt now = some after) :
    committed after = committed db + if kind = .pusdBuy then amt.toNat else 0 := by
  obtain ⟨-, table, inserted, rfl⟩ := insertReservation_eq_some hw
  obtain ⟨fresh, rfl⟩ := KeyedTable.tryInsert_eq_some_iff.mp inserted
  simp only [committed, reservedPusd, KeyedTable.total_insert, Reservation.heldPusd, and_true]
  omega

theorem latest_insertReservation {cid : String} {kind : ReservationKind} {amt : ℤ}
    {now : Time} {after : Db} (hw : insertReservation db cid kind amt now = some after) :
    after.latest = db.latest := by
  obtain ⟨-, table, -, rfl⟩ := insertReservation_eq_some hw
  rfl

/-- Commitments fit both the balance and the allowance of the latest snapshot. -/
def Covered (db : Db) : Prop :=
  ∃ latest, db.latest = some latest ∧
    (committed db : ℤ) ≤ min latest.pusdBalanceMicro latest.pusdAllowanceMicro

theorem Covered.of_le {after : Db} (cov : Covered db) (lat : after.latest = db.latest)
    (less : committed after ≤ committed db) : Covered after := by
  obtain ⟨snap, newest, fits⟩ := cov
  exact ⟨snap, lat.trans newest, le_trans (by exact_mod_cast less) fits⟩

theorem Covered.of_guard {cid : String} {amt : ℤ} {now : Time} {lat : CollateralSnapshot}
    {after : Db} (newest : db.latest = some lat)
    (guard : pusdGuard lat (committed db) amt now = true)
    (hw : insertReservation db cid .pusdBuy amt now = some after) : Covered after := by
  refine ⟨lat, (latest_insertReservation hw).trans newest, ?_⟩
  have nn := (insertReservation_eq_some hw).1
  simp only [pusdGuard, Bool.and_eq_true, decide_eq_true_eq] at guard
  obtain ⟨⟨-, bal⟩, allowance⟩ := guard
  rw [committed_insertReservation hw, if_pos rfl]
  push_cast
  rw [Int.toNat_of_nonneg nn]
  exact le_min (by linarith) (by linarith)

theorem casInsertPusd_covered (db : Db) (cid : String) (amt : ℤ) (now : Time) :
    (∃ error, casInsertPusdReservation db cid amt now = (.error error, db)) ∨
      ((casInsertPusdReservation db cid amt now).1 = .ok () ∧
      Covered (casInsertPusdReservation db cid amt now).2) := by
  rcases casInsertPusd_cases db cid amt now with raised | ⟨lat, after, newest, guard, hw, done⟩
  · exact .inl raised
  · rw [done]
    exact .inr ⟨rfl, Covered.of_guard newest guard hw⟩

def Op.staysWithinBudget : Op → Bool
  | .snapshot _ | .restore .. => false
  | _ => true

theorem covered_next (consistent : Consistent db) (cov : Covered db) (op : Op)
    (hle : op.staysWithinBudget = true) : Covered (next db op) := by
  have effect := next_effect db op
  generalize next db op = after at effect
  cases effect with
  | refused | insertedCommand | appendedOrderFact | appendedTradeFact | exposed => exact cov
  | reservedPusd newest guard hw => exact Covered.of_guard newest guard hw
  | reservedTokens hw =>
    exact cov.of_le (latest_insertReservation hw) (by simp [committed_insertReservation hw])
  | released cid state now => exact cov.of_le rfl (committed_released_le db cid state now)
  | converted cid sa now =>
    refine cov.of_le ?_ (committed_convert_le consistent cid sa now)
    rcases convert_cases db cid sa now with ⟨-, unch⟩ | ⟨_, _, _, _, changed⟩
    · rw [unch]
    · rw [changed]
      rfl
  | restored | recorded | matured => cases hle

theorem covered_run (ops : List Op) (consistent : Consistent db) (cov : Covered db)
    (hle : ∀ op ∈ ops, op.staysWithinBudget = true) : Covered (run db ops) := by
  induction ops generalizing db with
  | nil => exact cov
  | cons op rest ih =>
    exact ih (consistent_next consistent op) (covered_next consistent cov op (hle op (by simp)))
      fun later mem => hle later (by simp [mem])
end

/-- In every state a run reaches: release and convert never increase the commitments; a reserve step
raises and changes nothing or ends covered; and a covered state stays covered without a snapshot or
a restore. -/
theorem pusd_budget_kept (ops : List Op) :
    (∀ cid state now,
        committed (releaseReservationForCommandState (run Db.empty ops) cid state now) ≤
          committed (run Db.empty ops)) ∧
    (∀ cid sa now, committed (convertReservationOnFill (run Db.empty ops) cid sa now).2 ≤
          committed (run Db.empty ops)) ∧
    (∀ cid amt now,
        (∃ error, casInsertPusdReservation (run Db.empty ops) cid amt now =
              (.error error, run Db.empty ops)) ∨
        ((casInsertPusdReservation (run Db.empty ops) cid amt now).1 = .ok () ∧
          Covered (casInsertPusdReservation (run Db.empty ops) cid amt now).2)) ∧
    (Covered (run Db.empty ops) →
      ∀ later : List Op, (∀ op ∈ later, op.staysWithinBudget = true) →
        Covered (run Db.empty (ops ++ later))) := by
  have consistent := consistent_run ops
  refine ⟨committed_release_le _, committed_convert_le consistent, casInsertPusd_covered _, ?_⟩
  intro cov later hle
  rw [run_append]
  exact covered_run later consistent cov hle

end Zeus.Collateral
