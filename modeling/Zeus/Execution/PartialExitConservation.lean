import Zeus.Execution.PartialExitBalance

/-! A run of recovery passes over fills that only grow, in whatever order they come. A fill that
enters before an older one can move it. A pass that raises books nothing. -/

namespace Zeus.PartialExit

open CheckedFold FillDedup

structure Pass where
  current : PositionCurrent
  recovered : Option RecoveredBaseline
  fills : List EconomicExitFill

def recover (order : ExitOrder) (journal : Journal) (pass : Pass) : Except DebtError Journal :=
  (appendUnrecordedPartialExitEconomics order pass.current pass.recovered pass.fills
      (canonicalTotal pass.fills).1
    journal).map Booking.journal

def recoverAll (order : ExitOrder) (opening : Journal) (passes : List Pass) :
    Except DebtError Journal :=
  passes.foldlM (recover order) opening

def Grows (earlier later : List EconomicExitFill) : Prop :=
  ∀ fill ∈ earlier, ∃ grown ∈ later, grown.identity = fill.identity ∧
    fill.quantity ≤ grown.quantity ∧
    fill.notional ≤ grown.notional

structure Visible (order : ExitOrder) (passes : List Pass) : Prop where
  ofOrder : ∀ pass ∈ passes, ∀ fill ∈ pass.fills, fill.identity.ofOrder order = true
  growing : passes.Pairwise fun earlier later => Grows earlier.fills later.fills

/-- Before the first pass: nothing of the order is booked, unless by a status receipt. -/
structure Opening (order : ExitOrder) (rows : List PartialExitEvent) : Prop where
  statusOnly : ∀ event ∈ rows, ∀ identity ∈ event.economicFillIdentity,
    identity.ofOrder order = true → identity = order.statusIdentity
  receipted : booked rows order.statusIdentity = bookedReceipt order rows

section
variable {order : ExitOrder} {opening : Journal}

theorem recover_ok {journal after : Journal} {pass : Pass}
    (ret : recover order journal pass = .ok after) :
    ∃ booking,
      appendUnrecordedPartialExitEconomics order pass.current pass.recovered pass.fills
        (canonicalTotal pass.fills).1 journal = .ok booking ∧
      booking.journal = after := by
  unfold recover at ret
  exact map_eq_ok.mp ret

theorem recover_rows {journal after : Journal} {pass : Pass}
    (ret : recover order journal pass = .ok after) :
    ∃ evs, after.rows = journal.rows ++ evs ∧
      ∀ event ∈ evs, ∃ fill ∈ pass.fills, event.economicFillIdentity = some fill.identity := by
  obtain ⟨booking, called, rfl⟩ := recover_ok ret
  obtain ⟨nn, slices, evs, sliced, isJournal, each⟩ := append_ok called
  obtain ⟨-, -, among⟩ := unrecordedSlices_ok (nn order.statusIdentity) sliced
  refine ⟨evs, isJournal, fun event mem => ?_⟩
  obtain ⟨slice, inSlices, same⟩ := List.mem_map.mp (each ▸ List.mem_map_of_mem mem :
    (event.economicFillIdentity, event.filled) ∈
      slices.map fun slice => (some slice.fill.identity, slice.delta))
  exact ⟨slice.fill, among slice inSlices, (congrArg Prod.fst same).symm⟩

theorem recoverAll_traced {passes : List Pass} {journal : Journal}
    (opens : Opening order opening.rows) (ret : recoverAll order opening passes = .ok journal) :
    (∀ event ∈ journal.rows, ∀ idn ∈ event.economicFillIdentity, idn.ofOrder order = true →
        idn = order.statusIdentity ∨ ∃ pass ∈ passes, ∃ fill ∈ pass.fills, fill.identity = idn) ∧
    booked journal.rows order.statusIdentity = bookedReceipt order journal.rows := by
  induction passes using List.reverseRecOn generalizing journal with
  | nil =>
    cases ret
    exact ⟨fun event mem idn named inOrder => .inl (opens.statusOnly event mem idn named inOrder),
      opens.receipted⟩
  | append_singleton passes pass ih =>
    obtain ⟨before, earlier, last⟩ := foldlM_concat_eq_ok.mp ret
    obtain ⟨known, receipted⟩ := ih earlier
    obtain ⟨evs, isRows, seen⟩ := recover_rows last
    have silent : evs.filter (fun event => event.books order.statusIdentity) = [] := by
      refine List.filter_eq_nil_iff.mpr fun event mem => ?_
      obtain ⟨fill, -, named⟩ := seen event mem
      simp [PartialExitEvent.books, named, EconomicExitFill.identity, ExitOrder.statusIdentity]
    refine ⟨fun event mem idn named inOrder => ?_, ?_⟩
    · rw [isRows] at mem
      rcases List.mem_append.mp mem with old | new
      · rcases known event old idn named inOrder with status | ⟨seenBy, inPasses, fill, visible⟩
        · exact .inl status
        · exact .inr ⟨seenBy, List.mem_append_left _ inPasses, fill, visible⟩
      · obtain ⟨fill, visible, names⟩ := seen event new
        rw [Option.mem_def, names, Option.some_inj] at named
        exact .inr ⟨pass, by simp, fill, visible, named⟩
    · rw [isRows]
      unfold booked bookedReceipt cursor at receipted ⊢
      rw [List.filter_append, silent, List.append_nil]
      exact receipted

theorem Visible.traced {prior later : List Pass} {pass : Pass} {before : Journal}
    (visible : Visible order (prior ++ pass :: later)) (opens : Opening order opening.rows)
    (ret : recoverAll order opening prior = .ok before) : Traced order pass.fills before.rows := by
  obtain ⟨known, receipted⟩ := recoverAll_traced opens ret
  refine ⟨visible.ofOrder pass (by simp), ?_, receipted⟩
  intro event mem idn named inOrder
  rcases known event mem idn named inOrder with status | ⟨seenBy, inEarlier, fill, inFills, rfl⟩
  · exact .inl status
  · have grows :=
      (List.pairwise_append.mp visible.growing).2.2 seenBy inEarlier pass List.mem_cons_self
    obtain ⟨grown, inLater, same, -⟩ := grows fill inFills
    exact .inr ⟨grown, inLater, same⟩
end

/-- After every pass of a run the order is booked exactly once if and only if before every pass the
receipt, laid over the fills in their new order, covers of what is recorded what was left to it. -/
theorem recovery_conserves_iff (order : ExitOrder) {opening journal : Journal} {passes : List Pass}
    (opens : Opening order opening.rows) (visible : Visible order passes)
    (ret : recoverAll order opening passes = .ok journal) :
    (∀ prior pass later after, passes = prior ++ pass :: later →
          recoverAll order opening (prior ++ [pass]) = .ok after →
          Conserved order pass.fills after.rows) ↔
      ∀ prior pass later before, passes = prior ++ pass :: later →
        recoverAll order opening prior = .ok before →
        ReceiptInPlace order before.rows pass.fills := by
  constructor
  · intro conserved prior pass later before isRun hr
    subst isRun
    have toPass : prior ++ pass :: later = (prior ++ [pass]) ++ later := by simp
    rw [toPass, recoverAll, List.foldlM_append] at ret
    obtain ⟨after, upTo, -⟩ := bind_eq_ok.mp ret
    obtain ⟨_, same, last⟩ := foldlM_concat_eq_ok.mp upTo
    cases hr.symm.trans same
    obtain ⟨booking, called, rfl⟩ := recover_ok last
    exact ((visible.traced opens hr).conserved_iff called).mp
      (conserved prior pass later _ rfl upTo)
  · intro inPlace prior pass later after isRun hr
    subst isRun
    obtain ⟨before, upTo, last⟩ := foldlM_concat_eq_ok.mp hr
    obtain ⟨booking, called, rfl⟩ := recover_ok last
    exact ((visible.traced opens upTo).conserved_iff called).mpr
      (inPlace prior pass later before rfl upTo)

def sampleOrder : ExitOrder := ⟨"position", "command", "order"⟩

def sampleRow : PositionCurrent := ⟨.pendingExit, some 20, some 8, some 20, some 8⟩

def sampleOpening : Journal :=
  ⟨[{ eventId := .other "receipt"
      causedBy := .partialExitFill
      economicFillIdentity := some sampleOrder.statusIdentity
      economicFillCumulativeShares := 5
      economicFillCumulativeNotionalUsd := 5 / 2
      filledShares := 5
      filledNotionalUsd := 5 / 2
      fillPrice := 1 / 2
      allocatedCostBasisUsd := 2
      realizedPnlDeltaUsd := 1 / 2
      cumulativeRealizedPnlUsd := 1 / 2
      remainingShares := 20
      remainingCostBasisUsd := 8
      economicCorrectionOnly := false
      repairedLegacyEventId := none }], by decide⟩

def sampleFact (factId : ℤ) (tradeId : String) (filledSize : ℚ) (timestamp : String) :
    TradeFact where
  tradeFactId := factId
  tradeId := tradeId
  venueOrderId := "order"
  commandId := "command"
  state := .confirmed
  filledSize := filledSize
  fillPrice := 1 / 2
  txHash := none
  venueTimestamp := some timestamp
  observedAt := timestamp
  localSequence := 1
  sourceTradeFactId := none

def lateFact : VenueTradeFacts := ⟨[sampleFact 1 "late" 10 "10:05"], by decide, by decide⟩

def earlyFact : VenueTradeFacts :=
  ⟨[sampleFact 1 "late" 10 "10:05", sampleFact 2 "early" 5 "10:01"], by decide, by decide⟩

def lateFill : EconomicExitFill := ⟨"command", "order", "late", 10, 1 / 2, by norm_num, by norm_num⟩

def earlyFill : EconomicExitFill :=
  ⟨"command", "order", "early", 5, 1 / 2, by norm_num, by norm_num⟩

def latePass : Pass := ⟨sampleRow, none, [lateFill]⟩

def earlyPass : Pass := ⟨sampleRow, none, [earlyFill, lateFill]⟩

theorem sampleOpening_opens : Opening sampleOrder sampleOpening.rows := by
  refine ⟨?_, by decide +kernel⟩
  intro event mem idn named _
  simp only [sampleOpening, List.mem_singleton] at mem
  subst mem
  cases named
  rfl

def behindPass : Pass := ⟨sampleRow, none, [lateFill, earlyFill]⟩

theorem sample_visible {snd : Pass}
    (ofOrder : ∀ fill ∈ snd.fills, fill.identity.ofOrder sampleOrder = true)
    (still : lateFill ∈ snd.fills) : Visible sampleOrder [latePass, snd] where
  ofOrder := by simpa using ⟨by decide, ofOrder⟩
  growing := by
    refine List.pairwise_pair.mpr fun fill mem => ?_
    obtain rfl : fill = lateFill := List.mem_singleton.mp mem
    exact ⟨lateFill, still, rfl, le_rfl, le_rfl⟩

/-- The second pass lays the receipt over the early fill, and the five shares of the late fill that
it stood for are booked by nobody. -/
theorem earlyFill_unbooked :
    economicExitFills (fun _ => none) lateFact sampleOrder = .ok latePass.fills ∧
    economicExitFills (fun _ => none) earlyFact sampleOrder = .ok earlyPass.fills ∧
    Opening sampleOrder sampleOpening.rows ∧
    Visible sampleOrder [latePass, earlyPass] ∧
    ∃ journal, recoverAll sampleOrder sampleOpening [latePass, earlyPass] = .ok journal ∧
      ¬ Conserved sampleOrder earlyPass.fills journal.rows := by
  have computed : (recoverAll sampleOrder sampleOpening [latePass, earlyPass]).map
      (fun journal => orderBooked sampleOrder journal.rows) = .ok (10, 5) := by decide +kernel
  obtain ⟨journal, ret, total⟩ := map_eq_ok.mp computed
  refine ⟨by decide +kernel, by decide +kernel, sampleOpening_opens,
    sample_visible (by decide) (by simp [earlyPass]), journal, ret, ?_⟩
  rintro ⟨shares, -⟩
  rw [total] at shares
  exact absurd shares (by decide +kernel)

/-- With the early fill behind the late one, the receipt stays in place and both passes balance. -/
theorem behindPass_conserved :
    ∃ journal, recoverAll sampleOrder sampleOpening [latePass, behindPass] = .ok journal ∧
      Conserved sampleOrder behindPass.fills journal.rows := by
  have finished : (recoverAll sampleOrder sampleOpening [latePass, behindPass]).map (fun _ => ()) =
      .ok () := by
    decide +kernel
  obtain ⟨journal, ret, -⟩ := map_eq_ok.mp finished
  have displaced : ∀ (prior : List Pass) (pass : Pass) (before : Journal),
      (recoverAll sampleOrder sampleOpening prior).map (fun hf =>
        (receiptDisplacement sampleOrder hf.rows pass.fills,
          receiptDrift sampleOrder hf.rows pass.fills)) =
        .ok (0, 0) →
      recoverAll sampleOrder sampleOpening prior = .ok before →
      ReceiptInPlace sampleOrder before.rows pass.fills := by
    intro prior pass before computed hr
    obtain ⟨hf, same, vs⟩ := map_eq_ok.mp computed
    cases hr.symm.trans same
    obtain ⟨displacement, drift⟩ := Prod.mk.inj vs
    exact ⟨by rw [displacement]; rfl, by rw [displacement, drift]; decide +kernel⟩
  refine ⟨journal, ret, (recovery_conserves_iff sampleOrder sampleOpening_opens
    (sample_visible (by decide) (by simp [behindPass])) ret).mpr ?_ [latePass] behindPass [] journal
      rfl ret⟩
  intro prior pass later before isRun hr
  rcases prior with _ | ⟨first, _ | ⟨snd, rest⟩⟩
  · obtain ⟨rfl, -⟩ := List.cons.inj isRun
    exact displaced [] latePass before (by decide +kernel) hr
  · obtain ⟨rfl, isRest⟩ := List.cons.inj isRun
    obtain ⟨rfl, -⟩ := List.cons.inj isRest
    exact displaced [latePass] behindPass before (by decide +kernel) hr
  · simp at isRun

end Zeus.PartialExit
