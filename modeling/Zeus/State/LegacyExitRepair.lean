import Zeus.Lib.Decimal
import Zeus.Lib.Refusal
import Zeus.State.PartialExitJournal

/-! The repair hands the canonical fills of each order to its legacy events, in order, and refuses
unless every event is met exactly and no fill is left over. Quantities are added in the default
decimal context. Texts have no surrounding blanks; a missing quantity reads as zero. -/

namespace Zeus.PartialExit

open CheckedFold FillDedup

structure PartialExitRow where
  event : PartialExitEvent
  (columnOrderId payloadOrderId : String)
  deriving DecidableEq

namespace PartialExitRow

def orderId (row : PartialExitRow) : String :=
  if row.columnOrderId = "" then row.payloadOrderId else row.columnOrderId

def eventId (row : PartialExitRow) : EventId := row.event.eventId

end PartialExitRow

abbrev OrderJournal := KeyedTable PartialExitRow.eventId

def OrderJournal.events (journal : OrderJournal) : Journal :=
  journal.map PartialExitRow.event fun _ => rfl

structure LegacyPartialExitRepair where
  legacyEventId : EventId
  fill : EconomicExitFill
  deriving DecidableEq

inductive LegacyRepairError
  | debt (error : DebtError)
  | identityOrQuantityMissing (eventId : EventId)
  | cannotProveExactFill (orderId : String) (eventId : EventId) (legacy canonical : ℚ)
  | fillsWithoutLegacyEvent (orderId : String)
  deriving DecidableEq

/-- `ORDER BY execution_ts, command_id, trade_id`. -/
def positionExecutionKey (source : List TradeFact) (fact : TradeFact) :
    Lex (WithBot String × Lex (String × String)) :=
  toLex (fact.executionTs source, toLex (fact.commandId, fact.tradeId))

def exitCommands (commands : KeyedTable ExitOrder.commandId) (positionId venueOrderId : String) :
    List ExitOrder :=
  commands.rows.filter fun command => command.positionId == positionId &&
      command.venueOrderId != "" &&
      (venueOrderId == "" || command.venueOrderId == venueOrderId) && command.commandId != ""

def economicExitFillsForPosition (makerLegUnitPrice : TradeFact → Option { price : ℚ // 0 < price })
    (facts : VenueTradeFacts) (commands : KeyedTable ExitOrder.commandId)
    (positionId venueOrderId : String) : Except DebtError (List EconomicExitFill) :=
  if positionId = "" then .ok []
  else
    let scope := exitCommands commands positionId venueOrderId
    let source :=
      facts.rows.filter fun fact => scope.any fun command => command.commandId == fact.commandId
    let rows := (economicTradeFacts facts.rows (canonicalTradeFacts source)).filter fun fact =>
      fact.isFill && decide (0 < fact.fillPrice) && scope.any fun command =>
        command.commandId == fact.commandId &&
          sqlLower fact.venueOrderId == sqlLower command.venueOrderId
    (rows.insertionSort fun fact other =>
        positionExecutionKey source fact ≤ positionExecutionKey source other).mapM
      (economicExitFill makerLegUnitPrice)

def coveredLegacyEventIds (rows : List PartialExitRow) : List EventId :=
  rows.filterMap fun row => row.event.repairedLegacyEventId

def unrepairedLegacy (rows : List PartialExitRow) : List PartialExitRow :=
  rows.filter fun row => row.event.economicFillIdentity.isNone &&
      !(coveredLegacyEventIds rows).contains row.eventId

/-- A legacy row can be repaired if it names its event and order and has a positive quantity. -/
def PartialExitRow.Repairable (row : PartialExitRow) : Prop :=
  row.eventId ≠ .other "" ∧ row.orderId ≠ "" ∧ 0 < row.event.filledShares

instance (row : PartialExitRow) : Decidable row.Repairable := inferInstanceAs (Decidable (_ ∧ _))

/-- The keys of `legacy_by_order`, in the order of their first event. -/
def legacyOrders (rows : List PartialExitRow) : List String :=
  ((unrepairedLegacy rows).map PartialExitRow.orderId).eraseDups

def legacyOf (rows : List PartialExitRow) (orderId : String) : List PartialExitRow :=
  (unrepairedLegacy rows).filter fun row => row.orderId == orderId

/-- Take fills while the running quantity is below the target: those taken, their
quantity and those left. -/
def selectFills (target selectedQuantity : ℚ) : List EconomicExitFill →
    List EconomicExitFill × ℚ × List EconomicExitFill
  | [] => ([], selectedQuantity, [])
  | fill :: fills =>
    if selectedQuantity < target then
      let next := selectFills target (DecimalContext.add selectedQuantity fill.quantity) fills
      (fill :: next.1, next.2)
    else ([], selectedQuantity, fill :: fills)

def repairsOf (row : PartialExitRow) (selected : List EconomicExitFill) :
    List LegacyPartialExitRepair :=
  selected.map fun fill => ⟨row.eventId, fill⟩

def assignFills (orderId : String) : List PartialExitRow → List EconomicExitFill →
    Except LegacyRepairError (List LegacyPartialExitRepair)
  | [], [] => .ok []
  | [], _ :: _ => .error (.fillsWithoutLegacyEvent orderId)
  | row :: rows, fills =>
    let chosen := selectFills row.event.filledShares 0 fills
    if chosen.1 = [] ∨ chosen.2.1 ≠ row.event.filledShares then
      .error (.cannotProveExactFill orderId row.eventId row.event.filledShares chosen.2.1)
    else do
      let later ← assignFills orderId rows chosen.2.2
      return repairsOf row chosen.1 ++ later

def availableFills (cursors : Cursors) (fills : List EconomicExitFill) : List EconomicExitFill :=
  fills.filter fun fill => (cursors fill.identity).isNone

def repairOrder (fillsOf : String → Except DebtError (List EconomicExitFill))
    (rows : List PartialExitRow)
    (cursors : Cursors) (orderId : String) : Except LegacyRepairError
      (List LegacyPartialExitRepair) :=
  do
  let fills ← (fillsOf orderId).mapError .debt
  assignFills orderId (legacyOf rows orderId) (availableFills cursors fills)

def legacyPartialExitRepairFills (makerLegUnitPrice : TradeFact → Option { price : ℚ // 0 < price })
    (facts : VenueTradeFacts) (commands : KeyedTable ExitOrder.commandId) (positionId : String)
    (journal : OrderJournal) : Except LegacyRepairError (List LegacyPartialExitRepair) :=
  let legacy := unrepairedLegacy journal.rows
  if positionId = "" then .ok []
  else
    match legacy.find? fun row => !decide row.Repairable with
    | some row => .error (.identityOrQuantityMissing row.eventId)
    | none =>
      if legacy = [] then .ok []
      else do
        let cursors ← (recordedPartialExitFillCursors journal.events).mapError .debt
        let repairs ← (legacyOrders journal.rows).mapM
          (repairOrder (economicExitFillsForPosition makerLegUnitPrice facts commands positionId)
              journal.rows cursors)
        return repairs.flatten

def totalQuantity (fills : List EconomicExitFill) : ℚ := (fills.map EconomicExitFill.quantity).sum

/-- The fills are one consecutive block a row, each block of the row's quantity, and the
repairs name them so. -/
def SplitBy (rows : List PartialExitRow) (fills : List EconomicExitFill)
    (repairs : List LegacyPartialExitRepair) : Prop :=
  ∃ blocks : List (List EconomicExitFill), blocks.flatten = fills ∧
    List.Forall₂ (fun row block => totalQuantity block = row.event.filledShares) rows blocks ∧
    repairs = (List.zipWith repairsOf rows blocks).flatten

/-- The quantities add up without rounding. -/
def ExactFills (fills : List EconomicExitFill) : Prop :=
  DecimalContext.Addable (fills.map EconomicExitFill.quantity)

section
@[simp] theorem totalQuantity_cons (fill : EconomicExitFill) (fills : List EconomicExitFill) :
    totalQuantity (fill :: fills) = fill.quantity + totalQuantity fills := by
  simp [totalQuantity]

@[simp] theorem totalQuantity_append (front back : List EconomicExitFill) :
    totalQuantity (front ++ back) = totalQuantity front + totalQuantity back := by
  simp [totalQuantity]

theorem totalQuantity_nonneg (fills : List EconomicExitFill) : 0 ≤ totalQuantity fills := by
  refine List.sum_nonneg fun quantity mem => ?_
  obtain ⟨fill, -, rfl⟩ := List.mem_map.mp mem
  exact fill.quantity_pos.le

theorem ExactFills.sublist {fills kept : List EconomicExitFill} (h : ExactFills fills)
    (part : kept.Sublist fills) : ExactFills kept := DecimalContext.Addable.sublist h (part.map _)

variable {taken fills : List EconomicExitFill} {target : ℚ}

theorem ExactFills.add_next {fill : EconomicExitFill} (h : ExactFills (taken ++ fill :: fills)) :
    DecimalContext.add (totalQuantity taken) fill.quantity = totalQuantity (taken ++ [fill]) := by
  rw [ExactFills, List.map_append, List.map_cons] at h
  rw [totalQuantity, totalQuantity, h.add_next, List.map_append]
  rfl

theorem selectFills_cuts (exactFills : ExactFills (taken ++ fills)) :
    let chosen := selectFills target (totalQuantity taken) fills
    chosen.1 ++ chosen.2.2 = fills ∧ chosen.2.1 = totalQuantity (taken ++ chosen.1) := by
  induction fills generalizing taken with
  | nil => simp [selectFills]
  | cons fill fills ih =>
    unfold selectFills
    split_ifs with below
    · rw [exactFills.add_next]
      obtain ⟨cut, total⟩ := @ih (taken ++ [fill]) (by simpa using exactFills)
      exact ⟨congrArg (fill :: ·) cut, by simpa using total⟩
    · simp

theorem selectFills_of_block {block rest : List EconomicExitFill}
    (exactFills : ExactFills (taken ++ (block ++ rest)))
    (meets : totalQuantity (taken ++ block) = target) :
    selectFills target (totalQuantity taken) (block ++ rest) = (block, target, rest) := by
  induction block generalizing taken with
  | nil =>
    have hr : totalQuantity taken = target := by simpa using meets
    cases rest <;> simp [selectFills, hr]
  | cons fill block ih =>
    have below : totalQuantity taken < target := by
      rw [← meets, totalQuantity_append, totalQuantity_cons]
      linarith [fill.quantity_pos, totalQuantity_nonneg block]
    rw [List.cons_append, selectFills, if_pos below, exactFills.add_next,
      ih (by simpa using exactFills) (by simpa using meets)]
end

theorem assignFills_eq_ok {orderId : String} {rows : List PartialExitRow}
    {fills : List EconomicExitFill} {repairs : List LegacyPartialExitRepair}
    (exactFills : ExactFills fills) (pos : ∀ row ∈ rows, 0 < row.event.filledShares) :
    assignFills orderId rows fills = .ok repairs ↔ SplitBy rows fills repairs := by
  induction rows generalizing fills repairs with
  | nil =>
    cases fills with
    | nil => simp [assignFills, SplitBy, eq_comm]
    | cons fill fills => simp [assignFills, SplitBy]
  | cons row rows ih =>
    have later (kept : List EconomicExitFill) (part : kept.Sublist fills)
      (hf : List LegacyPartialExitRepair) :=
      @ih kept hf (exactFills.sublist part)
        fun other mem => pos other (List.mem_cons_of_mem row mem)
    constructor
    · intro assigned
      have cuts := @selectFills_cuts [] fills row.event.filledShares exactFills
      unfold assignFills at assigned
      dsimp only at assigned cuts
      rw [show totalQuantity [] = 0 from rfl, List.nil_append] at cuts
      obtain ⟨cut, total⟩ := cuts
      split_ifs at assigned with refused
      obtain ⟨hf, rest, ans⟩ := bind_eq_ok.mp assigned
      cases ans
      obtain ⟨-, meets⟩ := not_or.mp refused
      have part := List.sublist_append_right (selectFills row.event.filledShares 0 fills).1
        (selectFills row.event.filledShares 0 fills).2.2
      rw [cut] at part
      obtain ⟨blocks, flat, sums, rfl⟩ := (later _ part hf).mp rest
      refine ⟨_ :: blocks, by rw [List.flatten_cons, flat, cut], .cons ?_ sums, by simp⟩
      rw [← total, not_not.mp meets]
    · rintro ⟨_, rfl, _ | ⟨meets, sums⟩, rfl⟩
      rename_i block blocks
      have chosen : selectFills row.event.filledShares 0 (block ++ blocks.flatten) =
          (block, row.event.filledShares, blocks.flatten) :=
        @selectFills_of_block [] _ _ _ exactFills meets
      have ne : block ≠ [] := by
        rintro rfl
        exact (pos row List.mem_cons_self).ne meets
      have rest :=
        (later blocks.flatten (List.sublist_append_right _ _) _).mpr ⟨blocks, rfl, sums, rfl⟩
      rw [List.flatten_cons, assignFills]
      simp [chosen, ne, rest, pure, Except.pure, bind, Except.bind]

theorem repairOrder_eq_ok {fillsOf : String → Except DebtError (List EconomicExitFill)}
    {rows : List PartialExitRow} {curs : Cursors} {orderId : String}
    {repairs : List LegacyPartialExitRepair}
    (exactFills : ∀ fills, fillsOf orderId = .ok fills → ExactFills fills)
    (repb : ∀ row ∈ unrepairedLegacy rows, row.Repairable) :
    repairOrder fillsOf rows curs orderId = .ok repairs ↔
      ∃ fills, fillsOf orderId = .ok fills ∧
        SplitBy (legacyOf rows orderId) (availableFills curs fills) repairs := by
  have pos (row : PartialExitRow) (mem : row ∈ legacyOf rows orderId) :
      0 < row.event.filledShares :=
    (repb row (List.mem_of_mem_filter mem)).2.2
  simp only [repairOrder, bind_eq_ok, Refusal.mapError_eq_ok]
  constructor
  · rintro ⟨fills, read, assigned⟩
    exact ⟨fills, read,
      (assignFills_eq_ok ((exactFills fills read).sublist List.filter_sublist) pos).mp assigned⟩
  · rintro ⟨fills, read, split⟩
    exact ⟨fills, read,
      (assignFills_eq_ok ((exactFills fills read).sublist List.filter_sublist) pos).mpr split⟩

/-- The repair answers exactly when every legacy row is repairable, the cursors can be read and the
fills of each order split over its legacy events; it then returns those splits. -/
theorem legacy_repair_splits_fills {legPrice : TradeFact → Option { price : ℚ // 0 < price }}
    {facts : VenueTradeFacts} {cmds : KeyedTable ExitOrder.commandId} {pid : String}
    {journal : OrderJournal} {repairs : List LegacyPartialExitRepair} (named : pid ≠ "")
    (pend : unrepairedLegacy journal.rows ≠ [])
    (exactFills : ∀ order ∈ legacyOrders journal.rows, ∀ fills,
        economicExitFillsForPosition legPrice facts cmds pid order = .ok fills → ExactFills fills) :
    legacyPartialExitRepairFills legPrice facts cmds pid journal = .ok repairs ↔
      (∀ row ∈ unrepairedLegacy journal.rows, row.Repairable) ∧
      ∃ curs, recordedPartialExitFillCursors journal.events = .ok curs ∧
        ∃ parts, repairs = parts.flatten ∧
          List.Forall₂ (fun order part => ∃ fills,
                economicExitFillsForPosition legPrice facts cmds pid order = .ok fills ∧
                SplitBy (legacyOf journal.rows order) (availableFills curs fills) part)
            (legacyOrders journal.rows) parts := by
  unfold legacyPartialExitRepairFills
  dsimp only
  rw [if_neg named, if_neg pend]
  cases bad : (unrepairedLegacy journal.rows).find? fun row => !decide row.Repairable with
  | some row =>
    have refused : ¬ row.Repairable := by simpa using List.find?_some bad
    have hbad : ¬ ∀ row ∈ unrepairedLegacy journal.rows, row.Repairable :=
      fun all => refused (all row (List.mem_of_find?_eq_some bad))
    simp [hbad]
  | none =>
    have repb : ∀ row ∈ unrepairedLegacy journal.rows, row.Repairable := by
      simpa using List.find?_eq_none.mp bad
    rw [and_iff_right repb]
    simp only [bind_eq_ok, Refusal.mapError_eq_ok]
    refine exists_congr fun curs => and_congr_right fun _ => exists_congr fun parts => ?_
    rw [mapM_eq_ok_of fun order mem _ => repairOrder_eq_ok (exactFills order mem) repb, and_comm]
    simp [pure, Except.pure, eq_comm]

def exitFact (factId : ℤ) (order tradeId : String) (filledSize : ℚ) : TradeFact where
  tradeFactId := factId
  tradeId := tradeId
  venueOrderId := order
  commandId := order ++ "-exit"
  state := .confirmed
  filledSize := filledSize
  fillPrice := 1 / 2
  txHash := none
  venueTimestamp := some tradeId
  observedAt := tradeId
  localSequence := 1
  sourceTradeFactId := none

def exitRow (eventId order : String) (shares : ℚ) (identity : Option FillIdentity)
    (repaired : Option EventId) : PartialExitRow where
  columnOrderId := order
  payloadOrderId := order
  event :=
    { eventId := .other eventId
      causedBy := if identity.isSome then .partialExitEconomicsRepair else .partialExitFill
      economicFillIdentity := identity
      economicFillCumulativeShares := shares
      economicFillCumulativeNotionalUsd := shares / 2
      filledShares := shares
      filledNotionalUsd := shares / 2
      fillPrice := 1 / 2
      allocatedCostBasisUsd := shares / 4
      realizedPnlDeltaUsd := shares / 4
      cumulativeRealizedPnlUsd := shares / 4
      remainingShares := 40
      remainingCostBasisUsd := 10
      economicCorrectionOnly := false
      repairedLegacyEventId := repaired }

def twoExits : KeyedTable ExitOrder.commandId :=
  ⟨[⟨"position", "a-exit", "a"⟩, ⟨"position", "b-exit", "b"⟩], by decide⟩

def exitFacts : VenueTradeFacts where
  rows := [exitFact 1 "a" "09:00" 6, exitFact 2 "a" "09:01" 1, exitFact 3 "b" "09:02" 5,
    exitFact 4 "a" "09:03" 2, exitFact 5 "a" "09:04" 4]
  idUnique := by decide
  revisionUnique := by decide

def partlyRepaired : OrderJournal where
  rows := [exitRow "first" "a" 6 none none,
    exitRow "repair" "a" 6 (some (.economicFill "a-exit" "a" "09:00")) (some (.other "first")),
    exitRow "second" "a" 3 none none, exitRow "third" "b" 5 none none,
    exitRow "fourth" "a" 4 none none]
  nodup := by decide

theorem exact_of_intCast {fills : List EconomicExitFill} (quantities : List ℤ)
    (whole : fills.map EconomicExitFill.quantity = quantities.map Int.cast)
    (few : totalQuantity fills < 10 ^ 28) : ExactFills fills := by
  refine ⟨0, fun x mem => ⟨?_, ?_⟩, by simpa [DecimalContext.prec, totalQuantity] using few⟩
  · obtain ⟨fill, -, rfl⟩ := List.mem_map.mp mem
    exact fill.quantity_pos.le
  · rw [whole] at mem
    obtain ⟨n, -, rfl⟩ := List.mem_map.mp mem
    exact ⟨n, by simp⟩

def repairedTrades (repairs : List LegacyPartialExitRepair) : List (EventId × String) :=
  repairs.map fun repair => (repair.legacyEventId, repair.fill.tradeId)

theorem partlyRepaired_splits :
    ∃ repairs,
      legacyPartialExitRepairFills (fun _ => none) exitFacts twoExits "position" partlyRepaired =
        .ok repairs ∧
      repairedTrades repairs = [(.other "second", "09:01"), (.other "second", "09:03"),
          (.other "fourth", "09:04"), (.other "third", "09:02")] ∧
      ∃ curs, recordedPartialExitFillCursors partlyRepaired.events = .ok curs ∧
        ∃ parts, repairs = parts.flatten ∧
          List.Forall₂ (fun order part => ∃ fills,
                economicExitFillsForPosition (fun _ => none) exitFacts twoExits "position" order =
                  .ok fills ∧
                SplitBy (legacyOf partlyRepaired.rows order) (availableFills curs fills) part)
            (legacyOrders partlyRepaired.rows) parts := by
  have computed : (legacyPartialExitRepairFills (fun _ => none) exitFacts twoExits "position"
        partlyRepaired).map
      repairedTrades =
        .ok [(.other "second", "09:01"), (.other "second", "09:03"), (.other "fourth", "09:04"),
        (.other "third", "09:02")] := by decide +kernel
  have quantities : ∀ order ∈ legacyOrders partlyRepaired.rows,
      (economicExitFillsForPosition (fun _ => none) exitFacts twoExits "position" order).map
        (fun fills => fills.map EconomicExitFill.quantity) =
          .ok (if order = "a" then [6, 1, 2, 4] else [5]) := by
    decide +kernel
  obtain ⟨repairs, ret, trades⟩ := map_eq_ok.mp computed
  refine ⟨repairs, ret, trades,
    ((legacy_repair_splits_fills (by decide) (by decide +kernel) ?_).mp ret).2⟩
  intro order mem fills read
  have whole := quantities order mem
  rw [read] at whole
  have vs : fills.map EconomicExitFill.quantity = _ := Except.ok.inj whole
  split_ifs at vs
  · exact exact_of_intCast [6, 1, 2, 4] (by simpa using vs) (by rw [totalQuantity, vs]; norm_num)
  · exact exact_of_intCast [5] (by simpa using vs) (by rw [totalQuantity, vs]; norm_num)

def dustFacts : VenueTradeFacts where
  rows := [exitFact 1 "a" "09:00" (1 / 10 ^ 10), exitFact 2 "a" "09:01" (10 ^ 19)]
  idUnique := by decide
  revisionUnique := by decide

def largeExit : OrderJournal where
  rows := [exitRow "first" "a" (10 ^ 19) none none]
  nodup := by decide

/-- The sum of the two fills has thirty digits and rounds to the legacy quantity. -/
theorem dust_fill_accepted :
    ∃ repairs,
      legacyPartialExitRepairFills (fun _ => none) dustFacts twoExits "position" largeExit =
        .ok repairs ∧
      repairs.map LegacyPartialExitRepair.legacyEventId = [.other "first", .other "first"] ∧
      totalQuantity (repairs.map LegacyPartialExitRepair.fill) = 10 ^ 19 + 1 / 10 ^ 10 ∧
      (legacyOf largeExit.rows "a").map (fun row => row.event.filledShares) = [10 ^ 19] := by
  have computed : (legacyPartialExitRepairFills (fun _ => none) dustFacts twoExits "position"
        largeExit).map
      (fun repairs => (repairs.map LegacyPartialExitRepair.legacyEventId,
        totalQuantity (repairs.map LegacyPartialExitRepair.fill))) =
      .ok ([.other "first", .other "first"], 10 ^ 19 + 1 / 10 ^ 10) := by decide +kernel
  obtain ⟨repairs, ret, vs⟩ := map_eq_ok.mp computed
  obtain ⟨evs, total⟩ := Prod.mk.inj vs
  exact ⟨repairs, ret, evs, total, by decide +kernel⟩

end Zeus.PartialExit
