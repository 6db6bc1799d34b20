import Zeus.Execution.PartialExitConservation

/-! One canonical fill grows pass after pass, with no status receipt and every other fill recorded.
The id of a growth event names the position and the fill and not the revision. -/

namespace Zeus.PartialExit

open CheckedFold

structure GrowthPass where
  current : PositionCurrent
  recovered : Option RecoveredBaseline
  before : List EconomicExitFill
  grown : EconomicExitFill
  after : List EconomicExitFill

namespace GrowthPass

def fills (pass : GrowthPass) : List EconomicExitFill := pass.before ++ pass.grown :: pass.after

def pass (growth : GrowthPass) : Pass := ⟨growth.current, growth.recovered, growth.fills⟩

structure Based (order : ExitOrder) (pass : GrowthPass) (basis : BookingBasis) : Prop where
  read : bookingBasis order pass.current pass.recovered = .ok basis
  residual : ¬ basis.mismatches (canonicalTotal pass.fills).1 basis.chainShares
  within : ¬ basis.oversold (canonicalTotal pass.fills).1

end GrowthPass

def StrictlyBelow (earlier later : Economics) : Prop := earlier.1 < later.1 ∧ earlier.2 < later.2

structure GrowthReady (order : ExitOrder) (journal : Journal) (pass : GrowthPass) : Prop where
  noReceipt : cursor journal.rows order.statusIdentity = none
  others : ∀ fill ∈ pass.before ++ pass.after,
    cursor journal.rows fill.identity = some fill.economics
  grows : StrictlyBelow ((cursor journal.rows pass.grown.identity).getD 0) pass.grown.economics
  based : ∃ basis, pass.Based order basis

/-- The fill `identity` grows strictly before every pass. -/
structure Growth (order : ExitOrder) (identity : FillIdentity) (opening : Journal)
    (passes : List GrowthPass) : Prop where
  noReceipt : cursor opening.rows order.statusIdentity = none
  same : ∀ pass ∈ passes, pass.grown.identity = identity
  others : ∀ pass ∈ passes, ∀ fill ∈ pass.before ++ pass.after,
    fill.identity ≠ identity ∧ cursor opening.rows fill.identity = some fill.economics
  grows : ((cursor opening.rows identity).getD 0 ::
      passes.map fun pass => pass.grown.economics).IsChain StrictlyBelow
  based : ∀ pass ∈ passes, ∃ basis, pass.Based order basis

section
variable {cursors : Cursors} {fill : EconomicExitFill}

theorem accounted_nothing {prior : Economics} (nn : 0 ≤ prior.1) :
    accounted prior 0 = some prior := by
  unfold accounted
  split_ifs with more less differ
  · rfl
  · exact absurd less (not_lt.mpr nn)
  · exact absurd (le_antisymm (not_lt.mp more) nn) differ.1
  · rfl

theorem sliceFill_unreceipted (nn : 0 ≤ ((cursors fill.identity).getD 0).1)
    (kept : ¬ (fill.quantity < ((cursors fill.identity).getD 0).1 ∨
      (((cursors fill.identity).getD 0).1 < fill.quantity ∧
        fill.notional ≤ ((cursors fill.identity).getD 0).2))) :
    sliceFill cursors 0 fill = let delta := fill.economics - (cursors fill.identity).getD 0
      if delta.1 = 0 then .ok (0, if delta.2 ≠ 0 then some ⟨fill, delta, true⟩ else none)
      else if delta.2 ≤ 0 then .error (.canonicalFillNonpositiveEconomics fill.identity)
      else .ok (0, some ⟨fill, delta, false⟩) := by
  have cov : min (0 : Economics).1 fill.quantity = 0 := min_eq_left fill.quantity_pos.le
  have hno : ((0 : ℚ), (0 : ℚ)) = (0 : Economics) := rfl
  unfold sliceFill
  dsimp only
  rw [if_neg kept, cov]
  simp only [lt_irrefl, if_false, Prod.snd_zero, false_and, hno, accounted_nothing nn, sub_zero]

theorem sliceFill_recorded (hrec : cursors fill.identity = some fill.economics) :
    sliceFill cursors 0 fill = .ok (0, none) := by
  have own : (cursors fill.identity).getD 0 = (fill.quantity, fill.notional) := by rw [hrec]; rfl
  rw [sliceFill_unreceipted (by rw [own]; exact fill.quantity_pos.le) (by simp [own])]
  simp [hrec]

theorem sliceFill_grown (nn : 0 ≤ ((cursors fill.identity).getD 0).1)
    (grows : StrictlyBelow ((cursors fill.identity).getD 0) fill.economics) :
    sliceFill cursors 0 fill =
      .ok (0, some ⟨fill, fill.economics - (cursors fill.identity).getD 0, false⟩) := by
  obtain ⟨shares, notl⟩ := grows
  have kept : ¬ (fill.quantity < ((cursors fill.identity).getD 0).1 ∨
      (((cursors fill.identity).getD 0).1 < fill.quantity ∧
        fill.notional ≤ ((cursors fill.identity).getD 0).2)) :=
    not_or.mpr ⟨not_lt.mpr shares.le, fun both => absurd notl (not_lt.mpr both.2)⟩
  have some_shares : (fill.economics - (cursors fill.identity).getD 0).1 ≠ 0 :=
    (sub_pos.mpr shares).ne'
  have some_notional : ¬ (fill.economics - (cursors fill.identity).getD 0).2 ≤ 0 :=
    not_le.mpr (sub_pos.mpr notl)
  rw [sliceFill_unreceipted nn kept]
  dsimp only
  rw [if_neg some_shares, if_neg some_notional]

theorem sliceFills_recorded {known rest : List EconomicExitFill}
    (hrec : ∀ fill ∈ known, cursors fill.identity = some fill.economics) :
    sliceFills cursors 0 (known ++ rest) = sliceFills cursors 0 rest := by
  induction known with
  | nil => rfl
  | cons fill known ih =>
    rw [List.cons_append, sliceFills, sliceFill_recorded (hrec fill List.mem_cons_self), ok_bind]
    dsimp only
    rw [ih fun other mem => hrec other (List.mem_cons_of_mem fill mem)]
    cases sliceFills cursors 0 rest <;> rfl

variable {order : ExitOrder} {journal : Journal} {pass : GrowthPass}

def GrowthPass.slice (pass : GrowthPass) (prior : Economics) : Slice :=
  ⟨pass.grown, pass.grown.economics - prior, false⟩

theorem GrowthReady.slices (ready : GrowthReady order journal pass)
    (nn : 0 ≤ ((cursor journal.rows pass.grown.identity).getD 0).1) :
    unrecordedSlices order (cursor journal.rows) pass.fills =
      .ok [pass.slice ((cursor journal.rows pass.grown.identity).getD 0)] := by
  have cut : sliceFills (cursor journal.rows) 0 pass.fills =
      .ok (0, [pass.slice ((cursor journal.rows pass.grown.identity).getD 0)]) := by
    have after := @sliceFills_recorded (cursor journal.rows) pass.after [] fun fill mem =>
      ready.others fill (List.mem_append_right _ mem)
    rw [List.append_nil] at after
    rw [GrowthPass.fills,
      sliceFills_recorded fun fill mem => ready.others fill (List.mem_append_left _ mem),
      sliceFills, sliceFill_grown nn ready.grows, ok_bind]
    dsimp only
    rw [after]
    rfl
  have hcon : ¬ receiptContradicts 0 (canonicalTotal pass.fills) :=
    fun contradicts => contradicts.1 rfl
  have hs : economicNotionalStorageEqual 0 0 := by decide +kernel
  unfold unrecordedSlices
  simp only [ready.noReceipt, Option.getD_none, if_neg hcon, cut, ok_bind]
  simp [hs, pure, Except.pure]
end

section
variable {order : ExitOrder} {journal : Journal} {pass : GrowthPass} {basis : BookingBasis}
  {realized : ℚ}

theorem positiveOrNone_eq_some {v : Option ℚ} {number : ℚ} :
    positiveOrNone v = some number ↔ v = some number ∧ 0 < number := by
  simp [positiveOrNone, Option.filter_eq_some_iff]

theorem residualBasis_ok {cur : PositionCurrent} {hf : ℚ × ℚ × ℚ}
    (read : residualBasis order cur = some hf) : 0 < hf.1 ∧ 0 ≤ hf.2.1 := by
  simp only [residualBasis, Option.bind_eq_bind, Option.bind_eq_some_iff, positiveOrNone_eq_some]
    at read
  obtain ⟨shares, ⟨-, pos⟩, cost, -, chainShares, -, chainCost, -, checked⟩ := read
  split_ifs at checked with refused
  cases checked
  push Not at refused
  exact ⟨pos, refused.2.2.1⟩

theorem provenBaseline_ok {recov : RecoveredBaseline} {hf : ℚ × ℚ}
    (proven : provenBaseline recov = some hf) : 0 < hf.1 ∧ 0 ≤ hf.2 := by
  simp only [provenBaseline, Option.bind_eq_bind, Option.bind_eq_some_iff, positiveOrNone_eq_some]
    at proven
  obtain ⟨shares, ⟨-, pos⟩, cost, -, entry, -, evid, -, exchange, -, matched, -, checked⟩ := proven
  split_ifs at checked with refused
  cases checked
  push Not at refused
  exact ⟨pos, refused.1⟩

theorem unitCost_nonneg {cur : PositionCurrent} {recov : Option RecoveredBaseline}
    (read : bookingBasis order cur recov = .ok basis) : 0 ≤ basis.unitCost := by
  unfold bookingBasis at read
  cases resid : residualBasis order cur with
  | none => simp [resid] at read
  | some hf =>
    obtain ⟨shares, cost⟩ := residualBasis_ok resid
    cases recov with
    | none =>
      simp only [resid] at read
      cases read
      exact div_nonneg cost shares.le
    | some cert =>
      cases proven : provenBaseline cert with
      | none => simp [resid, proven] at read
      | some baseline =>
        simp only [resid, proven] at read
        cases read
        obtain ⟨shares, cost⟩ := provenBaseline_ok proven
        exact div_nonneg cost shares.le

def CoversUnknown (rows : List PartialExitEvent) : Prop :=
  ∃ eventId ∈ rows.filterMap PartialExitEvent.repairedLegacyEventId,
    eventId ∉ (rows.filter fun event =>
      event.causedBy == .partialExitFill &&
        event.economicFillIdentity == none).map PartialExitEvent.eventId

theorem fold_eq_ok :
    partialExitRealizedPnlFold false journal = .ok realized ↔
      ¬ CoversUnknown journal.rows ∧
        ∃ cursors,
          journal.rows.foldlM
            (pnlStep false (journal.rows.filterMap PartialExitEvent.repairedLegacyEventId))
            (0, fun _ => none) = .ok (realized, cursors) := by
  unfold partialExitRealizedPnlFold
  dsimp only
  split
  next unknown => exact iff_of_false (fun ret => nomatch ret) fun both => both.1 unknown
  next known =>
    have cov : ¬ CoversUnknown journal.rows := known
    rw [map_eq_ok, and_iff_right cov]
    constructor
    · rintro ⟨⟨total, cursors⟩, folded, rfl⟩
      exact ⟨cursors, folded⟩
    · rintro ⟨cursors, folded⟩
      exact ⟨(realized, cursors), folded, rfl⟩

theorem fold_ok (folds : partialExitRealizedPnlFold false journal = .ok realized) :
    recordedPartialExitFillCursors journal = .ok (cursor journal.rows) ∧
    journal.rows.foldlM
      (pnlStep false (journal.rows.filterMap PartialExitEvent.repairedLegacyEventId))
      (0, fun _ => none) = .ok (realized, cursor journal.rows) := by
  obtain ⟨-, cursors, folded⟩ := fold_eq_ok.mp folds
  have read : recordedPartialExitFillCursors journal = .ok cursors :=
    foldlM_view Prod.snd (fun _ _ _ step => pnlStep_cursorStep step) folded
  obtain ⟨rfl, -⟩ := recorded_ok read
  exact ⟨read, folded⟩

/-- An event that books the increase of a fill beyond `prior`. -/
structure BooksGrowth (order : ExitOrder) (fill : EconomicExitFill) (prior : Economics)
    (event : PartialExitEvent) : Prop where
  eventId : event.eventId = .repair order.positionId fill.identity
  identity : event.economicFillIdentity = some fill.identity
  cumulative : event.cumulative = fill.economics
  filled : event.filled = fill.economics - prior
  cost : 0 ≤ event.allocatedCostBasisUsd
  profit : event.realizedPnlDeltaUsd = event.filledNotionalUsd - event.allocatedCostBasisUsd
  growth : event.economicCorrectionOnly = false
  repair : event.causedBy = .partialExitEconomicsRepair
  uncovering : event.repairedLegacyEventId = none

theorem repairEvent_booksGrowth (read : bookingBasis order pass.current pass.recovered = .ok basis)
    {prior : Economics} (grows : StrictlyBelow prior pass.grown.economics) (state : BookingState) :
    BooksGrowth order pass.grown prior (repairEvent order basis state (pass.slice prior)).1 where
  eventId := rfl
  identity := rfl
  cumulative := rfl
  filled := rfl
  cost := mul_nonneg (sub_nonneg.mpr grows.1.le) (unitCost_nonneg read)
  profit := rfl
  growth := rfl
  repair := rfl
  uncovering := rfl

section
variable {fill : EconomicExitFill} {event : PartialExitEvent} {prior : Economics}

section
variable (books : BooksGrowth order fill prior event)

include books

theorem BooksGrowth.covers (rows : List PartialExitEvent) :
    (rows ++ [event]).filterMap PartialExitEvent.repairedLegacyEventId =
      rows.filterMap PartialExitEvent.repairedLegacyEventId := by
  rw [List.filterMap_append]
  simp [books.uncovering]

theorem BooksGrowth.coversUnknown (rows : List PartialExitEvent) :
    CoversUnknown (rows ++ [event]) ↔ CoversUnknown rows := by
  unfold CoversUnknown
  rw [books.covers rows, List.filter_append]
  simp [books.repair]

theorem BooksGrowth.amounts :
    (event.filledShares = fill.economics.1 - prior.1 ∧
      event.filledNotionalUsd = fill.economics.2 - prior.2) ∧
    event.economicFillCumulativeShares = fill.economics.1 ∧
    event.economicFillCumulativeNotionalUsd = fill.economics.2 :=
  ⟨Prod.ext_iff.mp books.filled, Prod.ext_iff.mp books.cumulative⟩

theorem BooksGrowth.validAtom (nn : 0 ≤ prior.1 ∧ 0 ≤ prior.2)
    (grows : StrictlyBelow prior fill.economics) : validAtom event := by
  obtain ⟨⟨shares, notl⟩, upToShares, upToNotional⟩ := books.amounts
  rw [PartialExit.validAtom, books.growth, shares, notl, upToShares, upToNotional]
  refine ⟨sub_pos.mpr grows.1, sub_pos.mpr grows.2, books.cost, sub_le_self _ nn.1,
    sub_le_self _ nn.2, ?_⟩
  rw [books.profit, notl]

theorem BooksGrowth.advancesBy (grows : StrictlyBelow prior fill.economics) :
    advancesBy event prior := by
  obtain ⟨⟨shares, notl⟩, upToShares, upToNotional⟩ := books.amounts
  rw [PartialExit.advancesBy, books.growth, shares, notl, upToShares, upToNotional]
  exact ⟨grows.1, grows.2, rfl, rfl⟩
end

theorem fold_append_growth {longer : Journal}
    (folds : partialExitRealizedPnlFold false journal = .ok realized)
    (grows : StrictlyBelow ((cursor journal.rows fill.identity).getD 0) fill.economics)
    (books : BooksGrowth order fill ((cursor journal.rows fill.identity).getD 0) event)
    (app : longer.rows = journal.rows ++ [event]) :
    partialExitRealizedPnlFold false longer =
      .ok (realized + (event.filledNotionalUsd - event.allocatedCostBasisUsd)) := by
  obtain ⟨read, folded⟩ := fold_ok folds
  have nn := cursor_nonneg read fill.identity
  refine fold_eq_ok.mpr ?_
  rw [app, books.coversUnknown, books.covers, foldlM_concat_of_ok folded]
  refine ⟨(fold_eq_ok.mp folds).1,
    Function.update (cursor journal.rows) fill.identity (some event.cumulative), ?_⟩
  have valid : ¬ (event.economicFillCumulativeShares ≤ 0 ∨
        event.economicFillCumulativeNotionalUsd ≤ 0 ∨
      ¬ PartialExit.validAtom event) := by
    have shares : event.economicFillCumulativeShares = fill.quantity :=
      congrArg Prod.fst books.cumulative
    have notl : event.economicFillCumulativeNotionalUsd = fill.quantity * fill.unitPrice :=
      congrArg Prod.snd books.cumulative
    have some_notional := mul_pos fill.quantity_pos fill.unitPrice_pos
    simp [shares, notl, fill.quantity_pos, some_notional, books.validAtom nn grows]
  unfold pnlStep
  rw [books.identity]
  dsimp only
  rw [if_neg valid, ← books.profit]
  have adv := books.advancesBy grows
  cases known : cursor journal.rows fill.identity with
  | none => simp [books.growth]
  | some prior =>
    rw [known, Option.getD_some] at adv
    simp [adv]
end

theorem bookSlices_single {sold : ℚ} {slice : Slice}
    (resid : ¬ basis.mismatches sold basis.chainShares) (hle : ¬ basis.oversold sold) :
    ∃ state proj, bookSlices order basis sold realized [slice] journal =
        appendMany journal [(repairEvent order basis state slice).1] >>=
          fun longer =>
            partialExitRealizedPnlFold false longer >>= fun _ => .ok ⟨longer, 1, some proj⟩ := by
  unfold bookSlices
  rw [if_neg (List.cons_ne_nil _ _), if_neg resid, if_neg hle]
  exact ⟨_, _, rfl⟩

theorem GrowthReady.recover (ready : GrowthReady order journal pass)
    (folds : partialExitRealizedPnlFold false journal = .ok realized) :
    ∃ event, BooksGrowth order pass.grown ((cursor journal.rows pass.grown.identity).getD 0) event ∧
      PartialExit.recover order journal pass.pass =
      (journal.tryInsert event).elim (.error (.duplicateEventId event.eventId)) .ok := by
  obtain ⟨basis, based⟩ := ready.based
  obtain ⟨read, -⟩ := fold_ok folds
  have sliced := ready.slices (cursor_nonneg read pass.grown.identity).1
  obtain ⟨state, proj, single⟩ := @bookSlices_single order journal basis realized _
    (pass.slice ((cursor journal.rows pass.grown.identity).getD 0)) based.residual based.within
  have books := repairEvent_booksGrowth based.read ready.grows state
  refine ⟨_, books, ?_⟩
  unfold PartialExit.recover appendUnrecordedPartialExitEconomics
  simp only [GrowthPass.pass, based.read, read, sliced, folds, single, ok_bind, ne_eq,
    not_true_eq_false, if_false, appendMany]
  cases ins : journal.tryInsert
    (repairEvent order basis state
        (pass.slice ((cursor journal.rows pass.grown.identity).getD 0))).1 with
  | none => rfl
  | some longer =>
    obtain ⟨fresh, rfl⟩ := KeyedTable.tryInsert_eq_some_iff.mp ins
    dsimp only
    rw [ok_bind, fold_append_growth folds ready.grows books rfl]
    rfl
end

section
variable {order : ExitOrder} {identity : FillIdentity} {opening : Journal}
  {passes : List GrowthPass} {realized : ℚ}

/-- The run appends one growth event of the fill a pass, under different ids, and the journal folds
to what it folded to before and the profits of these events. -/
def GrowthsFolded (order : ExitOrder) (identity : FillIdentity) (opening : Journal) (realized : ℚ)
    (passes : List GrowthPass) : Prop :=
  ∃ journal events, recoverAll order opening (passes.map GrowthPass.pass) = .ok journal ∧
    journal.rows = opening.rows ++ events ∧
    events.length = passes.length ∧
    (∀ event ∈ events, event.economicFillIdentity = some identity ∧
        event.economicCorrectionOnly = false) ∧
    (events.map PartialExitEvent.eventId).Nodup ∧
    partialExitRealizedPnlFold false journal =
      .ok (realized +
          (events.map fun event => event.filledNotionalUsd - event.allocatedCostBasisUsd).sum)

variable {pass : GrowthPass}

section
variable (growth : Growth order identity opening (pass :: passes))

include growth

theorem Growth.ready : GrowthReady order opening pass where
  noReceipt := growth.noReceipt
  others := fun fill mem => (growth.others pass List.mem_cons_self fill mem).2
  grows := by
    rw [growth.same pass List.mem_cons_self]
    exact (List.isChain_cons_cons.mp growth.grows).1
  based := growth.based pass List.mem_cons_self

theorem Growth.tail {longer : Journal} {event : PartialExitEvent} {prior : Economics}
    (books : BooksGrowth order pass.grown prior event)
    (app : longer.rows = opening.rows ++ [event]) : Growth order identity longer passes where
  noReceipt := by
    rw [app, cursor_append, PartialExitEvent.books, books.identity]
    simpa [EconomicExitFill.identity, ExitOrder.statusIdentity] using growth.noReceipt
  same := fun later mem => growth.same later (List.mem_cons_of_mem pass mem)
  others := by
    intro later mem fill inFills
    obtain ⟨differs, hrec⟩ := growth.others later (List.mem_cons_of_mem pass mem) fill inFills
    have silent : event.books fill.identity = false := by
      rw [PartialExitEvent.books, books.identity, growth.same pass List.mem_cons_self]
      simpa using Ne.symm differs
    refine ⟨differs, ?_⟩
    rw [app, cursor_append, silent]
    simpa using hrec
  grows := by
    have named : event.books identity = true := by
      rw [PartialExitEvent.books, books.identity, growth.same pass List.mem_cons_self]
      simp
    rw [app, cursor_append, if_pos named, Option.getD_some, books.cumulative]
    exact (List.isChain_cons_cons.mp growth.grows).2
  based := fun later mem => growth.based later (List.mem_cons_of_mem pass mem)

theorem Growth.blocked (folds : partialExitRealizedPnlFold false opening = .ok realized)
    (taken : .repair order.positionId identity ∈ opening.rows.map PartialExitEvent.eventId)
    (journal : Journal) :
    recoverAll order opening ((pass :: passes).map GrowthPass.pass) ≠ .ok journal := by
  intro ret
  obtain ⟨event, books, ans⟩ := growth.ready.recover folds
  rw [← growth.same pass List.mem_cons_self, ← books.eventId] at taken
  rw [KeyedTable.tryInsert_of_taken taken] at ans
  rw [recoverAll, List.map_cons, List.foldlM_cons, ans] at ret
  cases ret

theorem Growth.first (folds : partialExitRealizedPnlFold false opening = .ok realized)
    (fresh : .repair order.positionId identity ∉ opening.rows.map PartialExitEvent.eventId) :
    ∃ event longer,
      BooksGrowth order pass.grown ((cursor opening.rows pass.grown.identity).getD 0) event ∧
      longer.rows = opening.rows ++ [event] ∧
      partialExitRealizedPnlFold false longer =
        .ok (realized + (event.filledNotionalUsd - event.allocatedCostBasisUsd)) ∧
      recoverAll order opening ((pass :: passes).map GrowthPass.pass) =
        recoverAll order longer (passes.map GrowthPass.pass) := by
  obtain ⟨event, books, ans⟩ := growth.ready.recover folds
  rw [← growth.same pass List.mem_cons_self, ← books.eventId] at fresh
  obtain ⟨longer, ins, app⟩ := KeyedTable.tryInsert_of_fresh fresh
  rw [ins] at ans
  refine ⟨event, longer, books, app, fold_append_growth folds growth.ready.grows books app, ?_⟩
  rw [recoverAll, List.map_cons, List.foldlM_cons, ans]
  rfl
end

/-- The growths of a fill are booked, and fold, exactly when there is at most one and its id is
still free. -/
theorem growth_repairs_fold_iff (growth : Growth order identity opening passes)
    (folds : partialExitRealizedPnlFold false opening = .ok realized) :
    GrowthsFolded order identity opening realized passes ↔
      passes = [] ∨
      passes.length = 1 ∧
      .repair order.positionId identity ∉ opening.rows.map PartialExitEvent.eventId := by
  cases passes with
  | nil =>
    exact iff_of_true ⟨opening, [], rfl, by simp, rfl, by simp, by simp, by simpa using folds⟩
      (.inl rfl)
  | cons pass rest =>
    by_cases taken : .repair order.positionId identity ∈ opening.rows.map PartialExitEvent.eventId
    · refine iff_of_false ?_ (by simp [taken])
      rintro ⟨journal, _, ret, -⟩
      exact growth.blocked folds taken journal ret
    · obtain ⟨event, longer, books, app, refolds, goesOn⟩ := growth.first folds taken
      have named := growth.same pass List.mem_cons_self
      cases rest with
      | nil =>
        refine iff_of_true ⟨longer, [event], goesOn, app, rfl, ?_, by simp, by simpa using refolds⟩
          (.inr ⟨rfl, taken⟩)
        intro other mem
        rw [List.mem_singleton.mp mem]
        exact ⟨named ▸ books.identity, books.growth⟩
      | cons next more =>
        -- The event of the first growth holds the id that the second one would write.
        have held : .repair order.positionId identity ∈
            longer.rows.map PartialExitEvent.eventId := by
          rw [app, List.map_append, ← named, ← books.eventId]
          simp
        refine iff_of_false ?_ (by simp)
        rintro ⟨journal, _, ret, -⟩
        exact (growth.tail books app).blocked refolds held journal (goesOn ▸ ret)
end

def grownFill : EconomicExitFill := { earlyFill with quantity := 7, quantity_pos := by norm_num }

def firstGrowth : GrowthPass := ⟨sampleRow, none, [], earlyFill, []⟩

def secondGrowth : GrowthPass := ⟨sampleRow, none, [], grownFill, []⟩

theorem sample_growth {passes : List GrowthPass}
    (known : ∀ pass ∈ passes, pass = firstGrowth ∨ pass = secondGrowth)
    (grows : (0 :: passes.map fun pass => pass.grown.economics).IsChain StrictlyBelow) :
    Growth sampleOrder earlyFill.identity KeyedTable.empty passes where
  noReceipt := rfl
  same := by
    intro pass mem
    obtain rfl | rfl := known pass mem <;> rfl
  others := by
    intro pass mem fill inFills
    obtain rfl | rfl := known pass mem <;> cases inFills
  grows := grows
  based := by
    intro pass mem
    obtain rfl | rfl := known pass mem <;>
      exact ⟨⟨20, 8, 20, none⟩, by decide +kernel, by decide +kernel, by decide +kernel⟩

theorem firstGrowth_folds : Growth sampleOrder earlyFill.identity KeyedTable.empty [firstGrowth] ∧
      GrowthsFolded sampleOrder earlyFill.identity KeyedTable.empty 0 [firstGrowth] := by
  have growth : Growth sampleOrder earlyFill.identity KeyedTable.empty [firstGrowth] :=
    sample_growth (by simp)
      (List.isChain_cons_cons.mpr ⟨⟨by decide +kernel, by decide +kernel⟩, .singleton _⟩)
  exact ⟨growth, (growth_repairs_fold_iff growth rfl).mpr (.inr ⟨rfl, by simp [KeyedTable.empty]⟩)⟩

/-- Five shares are booked, and the two that come next are refused for the id of the five. -/
theorem secondGrowth_refused :
    Growth sampleOrder earlyFill.identity KeyedTable.empty [firstGrowth, secondGrowth] ∧
    ¬ GrowthsFolded sampleOrder earlyFill.identity KeyedTable.empty 0
        [firstGrowth, secondGrowth] := by
  constructor
  · exact sample_growth (by simp)
      (List.isChain_cons_cons.mpr ⟨⟨by decide +kernel, by decide +kernel⟩,
      List.isChain_cons_cons.mpr ⟨⟨by decide +kernel, by decide +kernel⟩, .singleton _⟩⟩)
  · rintro ⟨journal, _, ret, -⟩
    have refused : (recoverAll sampleOrder KeyedTable.empty
          ([firstGrowth, secondGrowth].map GrowthPass.pass)).map
        (fun _ => ()) = .error (.duplicateEventId (.repair "position" earlyFill.identity)) := by
      decide +kernel
    rw [ret] at refused
    cases refused

end Zeus.PartialExit
