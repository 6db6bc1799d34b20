import Zeus.State.PositionLots

/-! Two readers of one append-only table of revisions. The lot rollback acts when a FAILED revision
arrives; the economic view ranks revisions by proof before recency. -/

namespace Zeus.Lots

open CheckedFold Zeus.Collateral Zeus.FillDedup

section
variable {db after : LotDb}

def PositionLots.Precedes (lots : PositionLots) (lot : PositionLot) : Prop :=
  ∀ earlier ∈ lots.rows, earlier.positionId = lot.positionId →
    earlier.localSequence < lot.localSequence

theorem requireNonempty_ok {field text v : String} (acc : requireNonempty field text = .ok v) :
    v = strip text := by
  unfold requireNonempty at acc
  split at acc
  · cases acc
  · exact (Except.ok.inj acc).symm

variable {fact : TradeFact} {draft : LotDraft}

theorem tradeFactWithCommand_some {factId : ℤ} {cmd : VenueCommand}
    (joined : db.tradeFactWithCommand factId = some (fact, cmd)) :
    fact ∈ db.venueTradeFacts.rows ∧
    fact.tradeFactId = factId ∧
    db.venueCommands.find fact.commandId = some cmd := by
  obtain ⟨hs, hf, rest⟩ := Option.bind_eq_some_iff.mp joined
  obtain ⟨known, isKnown, pair⟩ := Option.bind_eq_some_iff.mp rest
  cases Option.some.inj pair
  exact ⟨List.mem_of_find?_eq_some hf, by simpa using List.find?_some hf, isKnown⟩

theorem authorityRefusal_none {allowed : List TradeState} {commandId : String} {cmd : VenueCommand}
    (passed : authorityRefusal draft allowed commandId fact cmd = none) :
    fact.state ∈ allowed ∧ fact.commandId = commandId := by
  unfold authorityRefusal at passed
  split_ifs at passed with isAllowed foreign
  exact ⟨isAllowed, not_not.mp foreign⟩

theorem assertTradeFactAuthority_exposure {srcs : Option String × Option ℤ}
    {allowed : List TradeState} (exposes : exposureTradeStates draft.state = some allowed)
    (auth : assertTradeFactAuthority db draft = .ok srcs) :
    ∃ fact ∈ db.venueTradeFacts.rows, fact.state ∈ allowed ∧
      srcs.2 = some fact.tradeFactId ∧
      srcs.1 = some fact.commandId ∧
      (db.venueCommands.find fact.commandId).isSome = true := by
  unfold assertTradeFactAuthority at auth
  rw [exposes] at auth
  split at auth
  · simp_all
  · cases auth
  · rename_i states factId isAllowed _
    cases isAllowed
    split at auth
    · cases auth
    · split at auth
      · cases auth
      · cases auth
      · rename_i fact cmd _ joined
        split at auth
        · cases auth
        · rename_i passed
          obtain ⟨hs, rfl, known⟩ := tradeFactWithCommand_some joined
          obtain ⟨state, rfl⟩ := authorityRefusal_none passed
          cases auth
          exact ⟨fact, hs, state, rfl, rfl, by rw [known]; rfl⟩

theorem assertTradeFactAuthority_closed (hcl : exposureTradeStates draft.state = none) :
    assertTradeFactAuthority db draft = .ok (draft.sourceCommandId, draft.sourceTradeFactId) := by
  unfold assertTradeFactAuthority
  rw [hcl]

theorem coerceLocalSequence_ok {taken : List ℤ} {reqd : Option ℤ} {sequence : ℤ}
    (acc : coerceLocalSequence taken reqd = .ok sequence) : ∀ prior ∈ taken, prior < sequence := by
  intro prior mem
  have hbd : prior ≤ taken.max?.getD 0 := by
    cases largest : taken.max? with
    | none => simp [List.max?_eq_none_iff.mp largest] at mem
    | some top => exact (List.max?_eq_some_iff.mp largest).2 prior mem
  unfold coerceLocalSequence at acc
  split at acc
  · cases acc
    omega
  · dsimp only at acc
    split_ifs at acc with behind
    cases acc
    omega

theorem appendPositionLot_ok (acc : appendPositionLot db draft = .ok after) :
    ∃ lot srcs, assertTradeFactAuthority db draft = .ok srcs ∧
      after = { db with positionLots := db.positionLots.append lot } ∧
      lot.positionId = draft.positionId ∧
      lot.state = draft.state ∧
      lot.sourceTradeFactId = srcs.2 ∧
      lot.sourceCommandId = srcs.1 ∧
      db.positionLots.Precedes lot := by
  unfold appendPositionLot at acc
  obtain ⟨capAt, -, acc⟩ := bind_eq_ok.mp acc
  obtain ⟨stateChangedAt, -, acc⟩ := bind_eq_ok.mp acc
  obtain ⟨srcs, auth, acc⟩ := bind_eq_ok.mp acc
  obtain ⟨seq, coerced, acc⟩ := bind_eq_ok.mp acc
  refine ⟨_, srcs, auth, (Except.ok.inj acc).symm, rfl, rfl, rfl, rfl, ?_⟩
  intro prior mem same
  exact coerceLocalSequence_ok coerced _ (List.mem_map.mpr ⟨prior, by simpa [mem] using same, rfl⟩)

theorem rollbackOptimisticLot_ok {failedId src : ℤ} {chAt : String}
    (acc : rollbackOptimisticLotForFailedTrade db failedId chAt src = .ok after) :
    ∃ lot, db.optimisticLot src = some lot ∧
      ((after = db ∧
          ∃ row ∈ db.positionLots.rows, row.positionId = lot.positionId ∧
            row.state = .economicallyClosedOptimistic ∧
            row.sourceTradeFactId = some failedId) ∨
        ((∀ row ∈ db.positionLots.rows, row.positionId = lot.positionId →
              row.state = .economicallyClosedOptimistic → row.sourceTradeFactId ≠ some failedId) ∧
          ∃ new, after = { db with positionLots := db.positionLots.append new } ∧
            new.positionId = lot.positionId ∧
            new.state = .economicallyClosedOptimistic ∧
            new.sourceTradeFactId = some failedId ∧
            db.positionLots.Precedes new ∧
            ∃ fact ∈ db.venueTradeFacts.rows, fact.tradeFactId = failedId)) := by
  unfold rollbackOptimisticLotForFailedTrade at acc
  split at acc
  · rename_i lot hf
    refine ⟨lot, hf, ?_⟩
    dsimp only at acc
    split at acc
    · cases acc
    · rename_i hs
      split at acc
      · rename_i existing
        obtain ⟨row, mem, fits⟩ := List.any_eq_true.mp existing
        simp only [Bool.and_eq_true, beq_iff_eq] at fits
        exact .inl ⟨(Except.ok.inj acc).symm, row, mem, fits.1.1, fits.1.2, fits.2⟩
      · rename_i hab
        refine .inr ⟨?_, ?_⟩
        · intro row mem posn hcl src
          exact hab (List.any_eq_true.mpr ⟨row, mem, by simp [posn, hcl, src]⟩)
        · obtain ⟨new, srcs, auth, hw, posn, state, isSrc, -, hfo⟩ :=
            appendPositionLot_ok acc
          rw [assertTradeFactAuthority_closed rfl] at auth
          cases auth
          obtain ⟨fact, mem, isFailed, -⟩ : ∃ fact ∈ db.venueTradeFacts.rows,
              fact.tradeFactId = failedId ∧ fact.state = .failed := by simpa using hs
          exact ⟨new, hw, posn, state, isSrc, hfo, fact, mem, isFailed⟩
  · cases acc

theorem tradeFactRow_ok {draft : TradeFactDraft} (acc : tradeFactRow db draft = .ok fact) :
    fact.tradeId = strip draft.tradeId ∧
    fact.state = draft.state ∧
    fact.tradeFactId = nextTradeFactId db.venueTradeFacts ∧
    (fact.state.isFill = true → 0 < fact.filledSize) := by
  unfold tradeFactRow at acc
  obtain ⟨tradeId, isTrade, acc⟩ := bind_eq_ok.mp acc
  obtain ⟨venueOrderId, -, acc⟩ := bind_eq_ok.mp acc
  obtain ⟨commandId, -, acc⟩ := bind_eq_ok.mp acc
  dsimp only at acc
  split at acc
  · cases acc
  · rename_i econ
    obtain ⟨observedAt, -, acc⟩ := bind_eq_ok.mp acc
    obtain ⟨seq, -, acc⟩ := bind_eq_ok.mp acc
    cases acc
    refine ⟨requireNonempty_ok isTrade, rfl, rfl, ?_⟩
    intro isFill
    change draft.state.isFill = true at isFill
    simp only [isFill, Bool.true_and, Bool.not_eq_true', Bool.not_eq_false] at econ
    simp only [TradeFactDraft.fillEconomics, Bool.and_eq_true, decide_eq_true_eq] at econ
    exact econ.1.1

theorem nextTradeFactId_fresh (facts : VenueTradeFacts) :
    ∀ fact ∈ facts.rows, fact.tradeFactId < nextTradeFactId facts := by
  intro fact mem
  have inIds : fact.tradeFactId ∈ facts.rows.map TradeFact.tradeFactId := List.mem_map_of_mem mem
  unfold nextTradeFactId
  cases largest : (facts.rows.map TradeFact.tradeFactId).max? with
  | none => simp [List.max?_eq_none_iff.mp largest] at inIds
  | some top =>
    have atMost := (List.max?_eq_some_iff.mp largest).2 _ inIds
    simp only [Option.getD_some]
    omega

theorem insertTradeFact_ok (acc : insertTradeFact db fact = .ok after) :
    ∃ facts, facts.rows = db.venueTradeFacts.rows ++ [fact] ∧
      after = { db with venueTradeFacts := facts } := by
  unfold insertTradeFact at acc
  split at acc
  · cases acc
  · split at acc
    · cases acc
    · rename_i facts app
      refine ⟨facts, ?_, (Except.ok.inj acc).symm⟩
      unfold VenueTradeFacts.tryAppend at app
      split at app
      · split at app
        · rw [← Option.some.inj app]
        · cases app
      · cases app

theorem appendTradeFact_ok {draft : TradeFactDraft}
    (acc : appendTradeFact db draft = .ok (fact, after)) :
    tradeFactRow db draft = .ok fact ∧
    ∃ inserted, insertTradeFact db fact = .ok inserted ∧
      (fact.state = .failed →
        rollbackOptimisticLots inserted fact.tradeId fact.tradeFactId fact.observedAt = .ok after) ∧
      (fact.state ≠ .failed → after = inserted) := by
  unfold appendTradeFact at acc
  obtain ⟨row, isRow, acc⟩ := bind_eq_ok.mp acc
  obtain ⟨inserted, isIns, acc⟩ := bind_eq_ok.mp acc
  split at acc
  · rename_i failed
    obtain ⟨rolledBack, isRolled, acc⟩ := bind_eq_ok.mp acc
    cases acc
    exact ⟨isRow, inserted, isIns, fun _ => isRolled, fun other => absurd failed other⟩
  · rename_i other
    cases acc
    exact ⟨isRow, _, isIns, fun failed => absurd failed other, fun _ => rfl⟩
end

section
variable {db after : LotDb} {failedId : ℤ}

/-- What the rollback of the listed facts has done so far: one closing lot, sourced by the failed
fact, at each position that holds the newest optimistic lot of one of them. -/
structure RolledBack (db : LotDb) (failedId : ℤ) (sources : List ℤ) (added : List PositionLot)
    (after : LotDb) : Prop where
  commands : after.venueCommands = db.venueCommands
  facts : after.venueTradeFacts = db.venueTradeFacts
  lots : after.positionLots.rows = db.positionLots.rows ++ added
  closing : ∀ lot ∈ added, lot.state = .economicallyClosedOptimistic ∧
    lot.sourceTradeFactId = some failedId
  oncePerPosition : (added.map PositionLot.positionId).Nodup
  positions : ∀ position, position ∈ added.map PositionLot.positionId ↔
    ∃ source ∈ sources, ∃ lot, db.optimisticLot source = some lot ∧ lot.positionId = position

theorem RolledBack.refl (db : LotDb) (failedId : ℤ) : RolledBack db failedId [] [] db where
  commands := rfl
  facts := rfl
  lots := by simp
  closing := by simp
  oncePerPosition := by simp
  positions := by simp

theorem RolledBack.optimisticLot {srcs : List ℤ} {added : List PositionLot}
    (rolled : RolledBack db failedId srcs added after) (src : ℤ) :
    after.optimisticLot src = db.optimisticLot src := by
  unfold LotDb.optimisticLot
  rw [rolled.lots]
  apply Log.latest_append_of_none
  intro lot mem
  simp [(rolled.closing lot mem).1]

/-- One more rollback. The failed fact is new: no older lot is sourced by it. -/
theorem RolledBack.step {sources : List ℤ} {added : List PositionLot} {current : LotDb} {source : ℤ}
    {changedAt : String}
    (fresh : ∀ lot ∈ db.positionLots.rows, lot.sourceTradeFactId ≠ some failedId)
    (rolled : RolledBack db failedId sources added current)
    (accepted : rollbackOptimisticLotForFailedTrade current failedId changedAt source = .ok after) :
    ∃ added', RolledBack db failedId (sources ++ [source]) added' after := by
  obtain ⟨lot, newest, effect⟩ := rollbackOptimisticLot_ok accepted
  rw [rolled.optimisticLot] at newest
  -- the positions reached by one more source
  have reached : ∀ position, (∃ s ∈ sources ++ [source], ∃ lot, db.optimisticLot s = some lot ∧
      lot.positionId = position) ↔
        position ∈ added.map PositionLot.positionId ∨ position = lot.positionId := by
    intro position
    rw [rolled.positions]
    constructor
    · rintro ⟨s, member, other, found, rfl⟩
      rcases List.mem_append.mp member with early | last
      · exact .inl ⟨s, early, other, found, rfl⟩
      · rw [List.mem_singleton.mp last, newest] at found
        exact .inr (by rw [Option.some.inj found])
    · rintro (⟨s, member, other, found, rfl⟩ | rfl)
      · exact ⟨s, List.mem_append_left _ member, other, found, rfl⟩
      · exact ⟨source, by simp, lot, newest, rfl⟩
  rcases effect with ⟨rfl, row, member, position, closed, isSource⟩ |
    ⟨absent, new, rfl, position, closed, isSource, -⟩
  · -- this failure already closed the position: the row is one of ours
    refine ⟨added, { rolled with positions := ?_ }⟩
    intro other
    rw [reached]
    refine ⟨.inl, ?_⟩
    rintro (known | rfl)
    · exact known
    · rw [rolled.lots] at member
      rcases List.mem_append.mp member with old | ours
      · exact absurd isSource (fresh row old)
      · exact List.mem_map.mpr ⟨row, ours, position⟩
  · refine ⟨added ++ [{ new with lotId := current.positionLots.nextId }], rolled.commands,
      rolled.facts, ?_, ?_, ?_, ?_⟩
    · change current.positionLots.rows ++ _ = _
      rw [rolled.lots, List.append_assoc]
    · intro row member
      rcases List.mem_append.mp member with old | last
      · exact rolled.closing row old
      · rw [List.mem_singleton.mp last]
        exact ⟨closed, isSource⟩
    · rw [List.map_append, List.nodup_append]
      refine ⟨rolled.oncePerPosition, by simp, ?_⟩
      intro known member other last same
      obtain ⟨row, ours, rfl⟩ := List.mem_map.mp member
      simp only [List.map_cons, List.map_nil, List.mem_singleton] at last
      have inCurrent : row ∈ current.positionLots.rows := by
        rw [rolled.lots]
        exact List.mem_append_right _ ours
      exact absent row inCurrent (by rw [same, last, position]) (rolled.closing row ours).1
        (rolled.closing row ours).2
    · intro other
      rw [reached, List.map_append, List.mem_append]
      simp [position]

theorem rolledBack_foldlM {chAt : String} (srcs : List ℤ)
    (fresh : ∀ lot ∈ db.positionLots.rows, lot.sourceTradeFactId ≠ some failedId) (acc : srcs.foldlM
      (fun cur => rollbackOptimisticLotForFailedTrade cur failedId chAt) db = .ok after) :
    ∃ added, RolledBack db failedId srcs added after := by
  induction srcs using List.reverseRecOn generalizing after with
  | nil =>
    cases acc
    exact ⟨[], RolledBack.refl db failedId⟩
  | append_singleton srcs src ih =>
    obtain ⟨cur, earlier, last⟩ := foldlM_concat_eq_ok.mp acc
    obtain ⟨added, rolled⟩ := ih earlier
    exact rolled.step fresh last

theorem mem_optimisticSourceTradeFactIds {tradeId : String} {src : ℤ} :
    src ∈ optimisticSourceTradeFactIds db tradeId ↔
      ∃ lot ∈ db.positionLots.rows, lot.state = .optimisticExposure ∧
        db.sourcedBy tradeId [.matched, .mined] lot = true ∧
        db.reversed tradeId lot.positionId = false ∧
        lot.sourceTradeFactId = some src := by
  simp [optimisticSourceTradeFactIds, and_assoc]
end

/-- Fills are positive; each lot is an optimistic one with its MATCHED or MINED fact, or a
closing one with its FAILED fact. -/
structure Sound (db : LotDb) : Prop where
  positive : ∀ fact ∈ db.venueTradeFacts.rows, fact.state.isFill = true → 0 < fact.filledSize
  sourced : ∀ lot ∈ db.positionLots.rows, ∃ fact ∈ db.venueTradeFacts.rows,
    lot.sourceTradeFactId = some fact.tradeFactId ∧
      (lot.state = .optimisticExposure ∧ fact.state ∈ [TradeState.matched, .mined] ∨
        lot.state = .economicallyClosedOptimistic ∧ fact.state = .failed)

section
variable {db after : LotDb}

theorem Sound.opened (cmds : KeyedTable VenueCommand.commandId) : Sound (.opened cmds) where
  positive := by simp [LotDb.opened, VenueTradeFacts.empty]
  sourced := by simp [LotDb.opened, PositionLots.empty]

variable {fact : TradeFact}

theorem Sound.insert (sound : Sound db) {facts : VenueTradeFacts}
    (rows : facts.rows = db.venueTradeFacts.rows ++ [fact])
    (positive : fact.state.isFill = true → 0 < fact.filledSize) :
    Sound { db with venueTradeFacts := facts } where
  positive := by
    intro other mem
    rw [rows] at mem
    rcases List.mem_append.mp mem with old | last
    · exact sound.positive other old
    · rw [List.mem_singleton.mp last]
      exact positive
  sourced := by
    intro lot mem
    obtain ⟨src, hs, rest⟩ := sound.sourced lot mem
    exact ⟨src, by rw [rows]; exact List.mem_append_left _ hs, rest⟩

theorem Sound.appendLot (sound : Sound db) {lot : PositionLot}
    (hs : fact ∈ db.venueTradeFacts.rows) (isSrc : lot.sourceTradeFactId = some fact.tradeFactId)
    (isOpt : lot.state = .optimisticExposure) (isFill : fact.state ∈ [TradeState.matched, .mined]) :
    Sound { db with positionLots := db.positionLots.append lot } where
  positive := sound.positive
  sourced := by
    intro row mem
    rcases List.mem_append.mp mem with old | last
    · exact sound.sourced row old
    · rw [List.mem_singleton.mp last]
      exact ⟨fact, hs, isSrc, .inl ⟨isOpt, isFill⟩⟩

theorem Sound.fresh (sound : Sound db)
    (isNext : fact.tradeFactId = nextTradeFactId db.venueTradeFacts) :
    ∀ lot ∈ db.positionLots.rows, lot.sourceTradeFactId ≠ some fact.tradeFactId := by
  intro lot mem same
  obtain ⟨src, hs, isSrc, -⟩ := sound.sourced lot mem
  have older := nextTradeFactId_fresh db.venueTradeFacts src hs
  rw [isSrc] at same
  have := Option.some.inj same
  omega

/-- What an accepted FAILED fact does: its row, then one closing lot at each position reached. -/
theorem appendTradeFact_failed (sound : Sound db) {draft : TradeFactDraft}
    (acc : appendTradeFact db draft = .ok (fact, after)) (failed : fact.state = .failed) :
    ∃ facts added, facts.rows = db.venueTradeFacts.rows ++ [fact] ∧
      RolledBack { db with venueTradeFacts := facts } fact.tradeFactId
        (optimisticSourceTradeFactIds { db with venueTradeFacts := facts } fact.tradeId) added
        after := by
  obtain ⟨isRow, inserted, isIns, rollback, -⟩ := appendTradeFact_ok acc
  obtain ⟨facts, rows, rfl⟩ := insertTradeFact_ok isIns
  have fresh : ∀ lot ∈ ({ db with venueTradeFacts := facts } : LotDb).positionLots.rows,
      lot.sourceTradeFactId ≠ some fact.tradeFactId := sound.fresh (tradeFactRow_ok isRow).2.2.1
  obtain ⟨added, rolled⟩ := rolledBack_foldlM _ fresh (rollback failed)
  exact ⟨facts, added, rows, rolled⟩

theorem Sound.appendTradeFact (sound : Sound db) {draft : TradeFactDraft}
    (acc : appendTradeFact db draft = .ok (fact, after)) : Sound after := by
  obtain ⟨isRow, inserted, isIns, -, other⟩ := appendTradeFact_ok acc
  have pos := (tradeFactRow_ok isRow).2.2.2
  by_cases failed : fact.state = .failed
  · obtain ⟨facts, added, rows, rolled⟩ := appendTradeFact_failed sound acc failed
    have grown := sound.insert rows pos
    refine ⟨by rw [rolled.facts]; exact grown.positive, ?_⟩
    intro lot mem
    rw [rolled.lots] at mem
    rw [rolled.facts]
    rcases List.mem_append.mp mem with old | new
    · exact grown.sourced lot old
    · obtain ⟨hcl, isSrc⟩ := rolled.closing lot new
      exact ⟨fact, by rw [rows]; simp, isSrc, .inr ⟨hcl, failed⟩⟩
  · obtain ⟨facts, rows, rfl⟩ := insertTradeFact_ok isIns
    rw [other failed]
    exact sound.insert rows pos

theorem Sound.call (sound : Sound db) (call : LotCall) : Sound (db.call call) := by
  cases call with
  | tradeFact draft =>
    simp only [LotDb.call]
    split
    · rename_i fact after acc
      exact sound.appendTradeFact acc
    · exact sound
  | optimisticLot draft =>
    simp only [LotDb.call]
    split
    · rename_i after acc
      obtain ⟨lot, srcs, auth, rfl, -, state, isSrc, -⟩ := appendPositionLot_ok acc
      obtain ⟨fact, hs, isFill, named, -⟩ := assertTradeFactAuthority_exposure rfl auth
      exact sound.appendLot hs (isSrc.trans named) state isFill
    · exact sound

theorem Sound.calls (cmds : KeyedTable VenueCommand.commandId) (made : List LotCall) :
    Sound ((LotDb.opened cmds).calls made) := by
  induction made using List.reverseRecOn with
  | nil => exact Sound.opened cmds
  | append_singleton made call ih =>
    rw [LotDb.calls_concat]
    exact ih.call call
end

def allTradeStates : List TradeState := [.matched, .mined, .confirmed, .retrying, .failed]

theorem mem_allTradeStates (state : TradeState) : state ∈ allTradeStates := by
  cases state <;> decide

/-- The newest lot of the position whose source belongs to the trade. -/
def LotDb.newestLot (db : LotDb) (tradeId : String) (positionId : ℤ) : Option PositionLot :=
  Log.latest (fun lot => lot.positionId == positionId && db.sourcedBy tradeId allTradeStates lot)
    db.positionLots.rows

/-- The position shows optimistic exposure to the trade. -/
def LotDb.Exposed (db : LotDb) (tradeId : String) (positionId : ℤ) : Prop :=
  ∃ lot, db.newestLot tradeId positionId = some lot ∧ lot.state = .optimisticExposure

/-- A failure of the trade would be reversed at the position: it holds the newest optimistic lot of
some fact, which has an optimistic lot where no earlier failure of the trade was reversed. -/
def LotDb.FailureReaches (db : LotDb) (tradeId : String) (positionId : ℤ) : Prop :=
  ∃ lot ∈ db.positionLots.rows, lot.state = .optimisticExposure ∧
    db.sourcedBy tradeId [.matched, .mined] lot = true ∧
    db.reversed tradeId lot.positionId = false ∧
    ∃ source newest, lot.sourceTradeFactId = some source ∧
      db.optimisticLot source = some newest ∧
      newest.positionId = positionId

structure ClearsTrade (fact : TradeFact) (after : LotDb) : Prop where
  noExposure : ∀ positionId, ¬ after.Exposed fact.tradeId positionId
  oneReversal : ∀ positionId, after.positionLots.rows.countP (fun lot =>
    lot.positionId == positionId && lot.sourceTradeFactId == some fact.tradeFactId) ≤ 1

section
variable {db after : LotDb} {fact : TradeFact} {facts : VenueTradeFacts}

section
variable (rows : facts.rows = db.venueTradeFacts.rows ++ [fact])

include rows

theorem sourcedBy_insert {tradeId : String} {states : List TradeState} {lot : PositionLot}
    (other : lot.sourceTradeFactId ≠ some fact.tradeFactId) :
    ({ db with venueTradeFacts := facts } : LotDb).sourcedBy tradeId states lot =
      db.sourcedBy tradeId states lot := by
  simp [LotDb.sourcedBy, rows, other]

theorem reversed_insert
    (fresh : ∀ lot ∈ db.positionLots.rows, lot.sourceTradeFactId ≠ some fact.tradeFactId)
    (tradeId : String) (pid : ℤ) :
    ({ db with venueTradeFacts := facts } : LotDb).reversed tradeId pid =
      db.reversed tradeId pid := by
  unfold LotDb.reversed
  rw [Bool.eq_iff_iff, List.any_eq_true, List.any_eq_true]
  apply exists_congr
  intro lot
  constructor
  · rintro ⟨mem, holds⟩
    rw [sourcedBy_insert rows (fresh lot mem)] at holds
    exact ⟨mem, holds⟩
  · rintro ⟨mem, holds⟩
    rw [← sourcedBy_insert rows (fresh lot mem)] at holds
    exact ⟨mem, holds⟩

variable {added : List PositionLot}

theorem RolledBack.mem_positions
    (fresh : ∀ lot ∈ db.positionLots.rows, lot.sourceTradeFactId ≠ some fact.tradeFactId)
    (rolled : RolledBack { db with venueTradeFacts := facts } fact.tradeFactId
      (optimisticSourceTradeFactIds { db with venueTradeFacts := facts } fact.tradeId) added after)
    (pid : ℤ) :
    pid ∈ added.map PositionLot.positionId ↔ db.FailureReaches fact.tradeId pid := by
  rw [rolled.positions]
  constructor
  · rintro ⟨src, listed, newest, hf, rfl⟩
    obtain ⟨lot, mem, isOpt, sourced, unrev, isSrc⟩ := mem_optimisticSourceTradeFactIds.mp listed
    rw [sourcedBy_insert rows (fresh lot mem)] at sourced
    rw [reversed_insert rows fresh] at unrev
    exact ⟨lot, mem, isOpt, sourced, unrev, src, newest, isSrc, hf, rfl⟩
  · rintro ⟨lot, mem, isOpt, sourced, unrev, src, newest, isSrc, hf, rfl⟩
    rw [← sourcedBy_insert rows (fresh lot mem)] at sourced
    rw [← reversed_insert rows fresh] at unrev
    exact ⟨src, mem_optimisticSourceTradeFactIds.mpr ⟨lot, mem, isOpt, sourced, unrev, isSrc⟩,
      newest, hf, rfl⟩

/-- Where the rollback closed nothing the newest lot is the old one; elsewhere it is the closing
lot. -/
theorem RolledBack.exposed_iff {srcs : List ℤ}
    (fresh : ∀ lot ∈ db.positionLots.rows, lot.sourceTradeFactId ≠ some fact.tradeFactId)
    (rolled : RolledBack { db with venueTradeFacts := facts } fact.tradeFactId srcs added after)
    (positionId : ℤ) :
    after.Exposed fact.tradeId positionId ↔
      positionId ∉ added.map PositionLot.positionId ∧ db.Exposed fact.tradeId positionId := by
  have afterFacts : after.venueTradeFacts = facts := rolled.facts
  have ours : ∀ lot ∈ added, after.sourcedBy fact.tradeId allTradeStates lot = true := by
    intro lot mem
    have isSrc := (rolled.closing lot mem).2
    simp [LotDb.sourcedBy, afterFacts, rows, revisionOf, isSrc, mem_allTradeStates]
  have old : Log.latest
      (fun lot => lot.positionId == positionId && after.sourcedBy fact.tradeId allTradeStates lot)
      db.positionLots.rows = db.newestLot fact.tradeId positionId := by
    apply Log.latest_congr
    intro lot mem
    have same : after.sourcedBy fact.tradeId allTradeStates lot =
        db.sourcedBy fact.tradeId allTradeStates lot := by
      rw [← sourcedBy_insert rows (fresh lot mem)]
      unfold LotDb.sourcedBy
      rw [afterFacts]
    rw [same]
  unfold LotDb.Exposed
  rw [LotDb.newestLot, rolled.lots, Log.latest_append, old]
  by_cases hcl : positionId ∈ added.map PositionLot.positionId
  · obtain ⟨lot, mem, rfl⟩ := List.mem_map.mp hcl
    have some_added : (Log.latest (fun row => row.positionId == lot.positionId &&
        after.sourcedBy fact.tradeId allTradeStates row) added).isSome = true :=
      Log.latest_isSome.mpr ⟨lot, mem, by simp [ours lot mem]⟩
    obtain ⟨newest, hf⟩ := Option.isSome_iff_exists.mp some_added
    rw [hf]
    have isClosing := (rolled.closing newest (Log.latest_some hf).1).1
    simp [hcl, isClosing]
  · have none_added : Log.latest (fun lot => lot.positionId == positionId &&
        after.sourcedBy fact.tradeId allTradeStates lot) added = none := by
      rw [Log.latest_eq_none]
      intro lot mem
      have other : lot.positionId ≠ positionId :=
        fun same => hcl (List.mem_map.mpr ⟨lot, mem, same⟩)
      simp [other]
    rw [none_added, Option.none_or]
    simp [hcl]
end

theorem RolledBack.oneReversal {srcs : List ℤ}
    (fresh : ∀ lot ∈ db.positionLots.rows, lot.sourceTradeFactId ≠ some fact.tradeFactId)
    (rolled : RolledBack { db with venueTradeFacts := facts } fact.tradeFactId srcs added after)
    (pid : ℤ) :
    after.positionLots.rows.countP (fun lot =>
      lot.positionId == pid && lot.sourceTradeFactId == some fact.tradeFactId) ≤ 1 := by
  rw [rolled.lots, List.countP_append]
  have none_old : db.positionLots.rows.countP (fun lot =>
      lot.positionId == pid && lot.sourceTradeFactId == some fact.tradeFactId) = 0 := by
    rw [List.countP_eq_zero]
    intro lot mem
    simp [fresh lot mem]
  have atPosition : added.countP (fun lot =>
      lot.positionId == pid && lot.sourceTradeFactId == some fact.tradeFactId) ≤
        (added.map PositionLot.positionId).count pid := by
    rw [List.count, List.countP_map]
    apply List.countP_mono_left
    intro lot _ holds
    exact (Bool.and_eq_true_iff.mp holds).1
  have once := List.nodup_iff_count_le_one.mp rolled.oncePerPosition pid
  change List.countP _ db.positionLots.rows + _ ≤ 1
  omega

theorem clearsTrade_iff (sound : Sound db) {draft : TradeFactDraft}
    (acc : appendTradeFact db draft = .ok (fact, after)) (failed : fact.state = .failed) :
    ClearsTrade fact after ↔
      ∀ pid, db.Exposed fact.tradeId pid → db.FailureReaches fact.tradeId pid := by
  obtain ⟨facts, added, rows, rolled⟩ := appendTradeFact_failed sound acc failed
  have fresh := sound.fresh (tradeFactRow_ok (appendTradeFact_ok acc).1).2.2.1
  constructor
  · intro clears pid exposed
    rw [← rolled.mem_positions rows fresh]
    by_contra unreached
    exact clears.noExposure pid ((rolled.exposed_iff rows fresh pid).mpr ⟨unreached, exposed⟩)
  · intro reaches
    refine ⟨fun pid exposed => ?_, rolled.oneReversal fresh⟩
    obtain ⟨unreached, before⟩ := (rolled.exposed_iff rows fresh pid).mp exposed
    exact unreached ((rolled.mem_positions rows fresh pid).mpr (reaches pid before))
end

/-- `holds` of each accepted FAILED fact of the run: the tables before it, the fact, and the
tables after it. -/
def EachFailure (commands : KeyedTable VenueCommand.commandId) (made : List LotCall)
    (holds : LotDb → TradeFact → LotDb → Prop) : Prop :=
  ∀ earlier draft later, made = earlier ++ .tradeFact draft :: later →
    ∀ fact after,
      appendTradeFact ((LotDb.opened commands).calls earlier) draft = .ok (fact, after) →
      fact.state = .failed → holds ((LotDb.opened commands).calls earlier) fact after

/-- Over any run of calls, failures clear their trades exactly when each of them reaches every
position that was exposed to its trade. -/
theorem failures_clear_iff (cmds : KeyedTable VenueCommand.commandId) (made : List LotCall) :
    (EachFailure cmds made fun _ fact after => ClearsTrade fact after) ↔
      EachFailure cmds made fun db fact _ =>
      ∀ pid, db.Exposed fact.tradeId pid → db.FailureReaches fact.tradeId pid := by
  constructor
  · intro clears prior draft later split fact after acc failed
    exact (clearsTrade_iff (Sound.calls cmds prior) acc failed).mp
      (clears prior draft later split fact after acc failed)
  · intro reaches prior draft later split fact after acc failed
    exact (clearsTrade_iff (Sound.calls cmds prior) acc failed).mpr
      (reaches prior draft later split fact after acc failed)

def retriedTrade : List LotCall :=
  let fact := fun (state : TradeState) => LotCall.tradeFact
    { tradeId := "trade-1", venueOrderId := "order-1", commandId := "command-1", state := state,
      filledSize := 10
      fillPrice := 1 / 2, observedAt := "2026-01-01T00:00:00Z" }
  let lot := fun (source : ℤ) => LotCall.optimisticLot
    { positionId := 7, state := .optimisticExposure, shares := 10, entryPriceAvg := 1 / 2
      sourceCommandId := some "command-1", sourceTradeFactId := some source
      capturedAt := "2026-01-01T00:00:00Z", stateChangedAt := "2026-01-01T00:00:00Z" }
  [fact .matched, lot 1, fact .failed, fact .matched, lot 3, fact .failed]

def entryCommand : KeyedTable VenueCommand.commandId where
  rows := [⟨"command-1", .entry, .buy, 10, 1 / 2, "token-1"⟩]
  nodup := by decide

/-- The second failure is taken for one that was reversed already. -/
theorem retriedTrade_stays_exposed :
    ¬ EachFailure entryCommand retriedTrade fun _ fact after => ClearsTrade fact after := by
  intro clears
  let draft : TradeFactDraft :=
    { tradeId := "trade-1", venueOrderId := "order-1", commandId := "command-1", state := .failed
      filledSize := 10, fillPrice := 1 / 2, observedAt := "2026-01-01T00:00:00Z" }
  have evd : ((appendTradeFact ((LotDb.opened entryCommand).calls (retriedTrade.take 5))
          draft).toOption.any
      fun out => out.1.state == .failed &&
        (out.2.newestLot out.1.tradeId 7).any fun lot =>
          lot.state == .optimisticExposure) = true := by
    decide +kernel
  cases hs : appendTradeFact ((LotDb.opened entryCommand).calls (retriedTrade.take 5)) draft with
  | ok out =>
    rw [hs] at evd
    obtain ⟨fact, after⟩ := out
    obtain ⟨failed, exposed⟩ := Bool.and_eq_true_iff.mp evd
    obtain ⟨lot, newest, isOpt⟩ := (Option.any_eq_true _ _).mp exposed
    exact (clears _ _ [] rfl fact after hs (by simpa using failed)).noExposure 7
      ⟨lot, newest, by simpa using isOpt⟩
  | error error =>
    rw [hs] at evd
    cases evd

/-- The newest revision of the trade is FAILED and none is CONFIRMED. -/
def FailedTrade (facts : VenueTradeFacts) (tradeId : String) : Prop :=
  (∃ newest ∈ facts.rows, newest.tradeId = tradeId ∧ newest.state = .failed ∧
      ∀ other ∈ facts.rows, other.tradeId = tradeId → other.localSequence ≤ newest.localSequence) ∧
    ∀ other ∈ facts.rows, other.tradeId = tradeId → other.state ≠ .confirmed

/-- The best proven fill among the trade's revisions for the command. -/
def BestFill (facts : VenueTradeFacts) (commandId tradeId : String) (fact : TradeFact) : Prop :=
  fact ∈ facts.rows ∧
  fact.commandId = commandId ∧
  fact.tradeId = tradeId ∧
  fact.state.isFill = true ∧
    ∀ other ∈ facts.rows, other.commandId = commandId → other.tradeId = tradeId →
      other.state.isFill = true → other.precedes fact = false

/-- A failed trade has no fill in the economic view of any command. -/
def FailuresCarryNothing (facts : VenueTradeFacts) : Prop :=
  ∀ tradeId commandId, FailedTrade facts tradeId →
    ∀ fact ∈ economicTradeFactsForCommand facts commandId,
    fact.tradeId = tradeId → fact.state.isFill = false

section
variable {facts : VenueTradeFacts} {commandId tradeId : String} {fact : TradeFact}

theorem isFill_of_positive (pos : fact.state.isFill = true → 0 < fact.filledSize) :
    fact.isFill = fact.state.isFill := by
  cases isFill : fact.state.isFill with
  | false => simp [TradeFact.isFill, isFill]
  | true => simp [TradeFact.isFill, isFill, pos isFill]

theorem canonical_fill_iff
    (pos : ∀ row ∈ facts.rows, row.state.isFill = true → 0 < row.filledSize) :
    (fact ∈ canonicalTradeFactsForCommand facts commandId ∧
        fact.tradeId = tradeId ∧
        fact.state.isFill = true) ↔
      BestFill facts commandId tradeId fact := by
  unfold canonicalTradeFactsForCommand VenueTradeFacts.forCommand
  rw [mem_canonicalTradeFacts]
  constructor
  · rintro ⟨⟨mem, top⟩, sameTr, isFill⟩
    obtain ⟨hs, sameCmd⟩ := List.mem_filter.mp mem
    have sameCmd : fact.commandId = commandId := by simpa using sameCmd
    refine ⟨hs, sameCmd, sameTr, isFill, ?_⟩
    intro other inOther cmd trade _
    exact top other (List.mem_filter.mpr ⟨inOther, by simp [cmd]⟩)
      (samePartition_iff.mpr ⟨sameCmd.trans cmd.symm, sameTr.trans trade.symm⟩)
  · rintro ⟨hs, sameCmd, sameTr, isFill, top⟩
    refine ⟨⟨List.mem_filter.mpr ⟨hs, by simp [sameCmd]⟩, ?_⟩, sameTr, isFill⟩
    intro other mem same
    obtain ⟨inOther, cmd⟩ := List.mem_filter.mp mem
    have cmd : other.commandId = commandId := by simpa using cmd
    have trade : other.tradeId = tradeId := (samePartition_iff.mp same).2.symm.trans sameTr
    cases otherFill : other.state.isFill with
    | true => exact top other inOther cmd trade otherFill
    | false =>
      -- below rank 400 against a fill of rank at least 400
      have strong : 400 ≤ fact.proofRank :=
        isFill_iff_rank.mp ((isFill_of_positive (pos fact hs)).trans isFill)
      have weak : ¬ 400 ≤ other.proofRank := by
        rw [← isFill_iff_rank, isFill_of_positive (pos other inOther), otherFill]
        simp
      rw [← Bool.not_eq_true, precedes_iff]
      omega

theorem failuresCarryNothing_iff
    (pos : ∀ row ∈ facts.rows, row.state.isFill = true → 0 < row.filledSize) :
    FailuresCarryNothing facts ↔
      ∀ tradeId commandId, FailedTrade facts tradeId →
        ∀ fact, BestFill facts commandId tradeId fact →
          ∃ other, HiddenBehind facts commandId fact other := by
  constructor
  · intro hno tradeId commandId failed fact best
    obtain ⟨canon, sameTr, isFill⟩ := (canonical_fill_iff pos).mpr best
    by_contra visible
    push Not at visible
    have ret := (mem_economic_iff_not_hidden canon).mpr visible
    have none_filled := hno tradeId commandId failed fact ret sameTr
    simp [none_filled] at isFill
  · intro hidden tradeId commandId failed fact ret sameTr
    have canon := (mem_economicTradeFactsForCommand.mp ret).1
    by_contra isFill
    obtain ⟨other, behind⟩ := hidden tradeId commandId failed fact
      ((canonical_fill_iff pos).mp ⟨canon, sameTr, by simpa using isFill⟩)
    exact (mem_economic_iff_not_hidden canon).mp ret other behind
end

/-- After any run of calls, failed trades carry no economics exactly when the best fill of each,
where it has one, is a duplicate that another fill stands for. -/
theorem failures_carry_nothing_iff (cmds : KeyedTable VenueCommand.commandId)
    (made : List LotCall) :
    FailuresCarryNothing ((LotDb.opened cmds).calls made).venueTradeFacts ↔
      ∀ tradeId commandId, FailedTrade ((LotDb.opened cmds).calls made).venueTradeFacts tradeId →
        ∀ fact, BestFill ((LotDb.opened cmds).calls made).venueTradeFacts commandId tradeId fact →
          ∃ other,
            HiddenBehind ((LotDb.opened cmds).calls made).venueTradeFacts commandId fact other :=
  failuresCarryNothing_iff (Sound.calls cmds made).positive

/-- After its failure the first match of the retried trade is still an economic fill. -/
theorem failed_match_stays_economic :
    ¬ FailuresCarryNothing
        ((LotDb.opened entryCommand).calls (retriedTrade.take 3)).venueTradeFacts := by
  intro hno
  let facts := ((LotDb.opened entryCommand).calls (retriedTrade.take 3)).venueTradeFacts
  have failed : FailedTrade facts "trade-1" := by
    unfold FailedTrade
    decide +kernel
  have filled : ∃ fact ∈ economicTradeFactsForCommand facts "command-1",
      fact.tradeId = "trade-1" ∧ fact.state.isFill = true := by decide +kernel
  obtain ⟨fact, ret, sameTr, isFill⟩ := filled
  have none_filled := hno "trade-1" "command-1" failed fact ret sameTr
  simp [none_filled] at isFill

end Zeus.Lots
