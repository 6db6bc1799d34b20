import Zeus.Execution.PartialExitRecovery

/-! The status receipt is laid out anew over the current order of the fills. `ReceiptInPlace` says
that it covers as much of the recorded fills as those left to it when they were booked. -/

namespace Zeus.PartialExit

open CheckedFold FillDedup

def EconomicExitFill.part (fill : EconomicExitFill) (quantity : ℚ) : Economics :=
  (quantity, fill.notional * quantity / fill.quantity)

/-- The receipt laid over the fills from `start` on, each fill with the part of it that is
covered. -/
def receiptParts (receipt start : ℚ) (fills : List EconomicExitFill) :
    List (EconomicExitFill × Economics) :=
  List.zipWith (fun fill quantity => (fill, fill.part quantity)) fills
    (PrefixCover.overlaps receipt start (fills.map EconomicExitFill.quantity))

/-- What the receipt covers of the part of a fill that is already recorded. -/
def recordedOverlap (prior covered : Economics) : Economics :=
  if prior.1 < covered.1 then prior else covered

section
variable (order : ExitOrder) (rows : List PartialExitEvent) (fills : List EconomicExitFill)

def bookedReceipt : Economics := (cursor rows order.statusIdentity).getD 0

/-- What the bookings of the fills left to the receipt: their cursors less what they book. -/
def leftToReceipt : Economics :=
  (fills.map fun fill => (cursor rows fill.identity).getD 0).sum -
    ((fills.map EconomicExitFill.identity).dedup.map (booked rows)).sum

/-- What the receipt covers now of everything recorded, less what was left to it when booked. -/
def receiptDisplacement : Economics :=
  ((receiptParts (bookedReceipt order rows).1 0 fills).map fun covered =>
    recordedOverlap ((cursor rows covered.1.identity).getD 0) covered.2).sum -
      leftToReceipt rows fills

/-- What the fills' own prices leave of the receipt's notional. -/
def receiptDrift : ℚ :=
  (bookedReceipt order rows).2 -
    ((receiptParts (bookedReceipt order rows).1 0 fills).map Prod.snd).sum.2

/-- The receipt covers as much of what is recorded as it did when that was booked. -/
structure ReceiptInPlace : Prop where
  shares : (receiptDisplacement order rows fills).1 = 0
  notional : economicNotionalStorageEqual
    (receiptDrift order rows fills + (receiptDisplacement order rows fills).2) 0
end

section
variable {cursors : Cursors} {fill : EconomicExitFill} {remaining left : Economics}

theorem accounted_eq {prior cov known : Economics} (agreed : accounted prior cov = some known) :
    known = prior + cov - recordedOverlap prior cov := by
  unfold accounted at agreed
  unfold recordedOverlap
  split_ifs at agreed ⊢ with more less <;> cases agreed <;>
    first | exact absurd more (lt_asymm less) | simp

theorem sliceFill_ok {slice : Option Slice} (nn : 0 ≤ remaining.1)
    (ret : sliceFill cursors remaining fill = .ok (left, slice)) :
    left = remaining - fill.part (min remaining.1 fill.quantity) ∧
    (slice.toList.map Slice.delta).sum =
      fill.economics -
        ((cursors fill.identity).getD 0 + fill.part (min remaining.1 fill.quantity) -
            recordedOverlap ((cursors fill.identity).getD 0)
              (fill.part (min remaining.1 fill.quantity))) ∧
    ∀ piece ∈ slice, piece.fill = fill := by
  have price : (if 0 < min remaining.1 fill.quantity then
      fill.notional * min remaining.1 fill.quantity / fill.quantity else 0) =
      fill.notional * min remaining.1 fill.quantity / fill.quantity := by
    split_ifs with some_covered
    · rfl
    · have none_covered : min remaining.1 fill.quantity = 0 :=
        le_antisymm (not_lt.mp some_covered) (le_min nn fill.quantity_pos.le)
      rw [none_covered]
      simp
  simp only [sliceFill, price] at ret
  split_ifs at ret
  cases agreed : accounted ((cursors fill.identity).getD 0)
    (fill.part (min remaining.1 fill.quantity)) with
  | none =>
    rw [EconomicExitFill.part] at agreed
    simp [agreed] at ret
  | some known =>
    rw [← accounted_eq agreed]
    rw [EconomicExitFill.part] at agreed ⊢
    simp only [agreed] at ret
    split_ifs at ret with whole revised
    · cases ret
      exact ⟨rfl, by simp, fun piece mem => by cases mem; rfl⟩
    · cases ret
      have same : fill.economics - known = 0 := Prod.ext whole (not_not.mp revised)
      exact ⟨rfl, by simp [same], fun piece mem => by cases mem⟩
    · cases ret
      exact ⟨rfl, by simp, fun piece mem => by cases mem; rfl⟩

theorem receiptParts_cons (rcpt start : ℚ) (fill : EconomicExitFill)
    (rest : List EconomicExitFill) :
    receiptParts rcpt start (fill :: rest) =
      (fill, fill.part (PrefixCover.overlap rcpt start fill.quantity)) ::
        receiptParts rcpt (start + fill.quantity) rest := rfl

theorem sliceFills_ok {rcpt start : ℚ} {fills : List EconomicExitFill} {slices : List Slice}
    (hal : remaining.1 = max 0 (rcpt - start))
    (ret : sliceFills cursors remaining fills = .ok (left, slices)) :
    left = remaining - ((receiptParts rcpt start fills).map Prod.snd).sum ∧
      (slices.map Slice.delta).sum = (fills.map EconomicExitFill.economics).sum -
      ((receiptParts rcpt start fills).map fun cov => (cursors cov.1.identity).getD 0 + cov.2 -
      recordedOverlap ((cursors cov.1.identity).getD 0) cov.2).sum ∧
      ∀ slice ∈ slices, slice.fill ∈ fills := by
  induction fills generalizing remaining start slices with
  | nil =>
    cases ret
    simp [receiptParts, PrefixCover.overlaps]
  | cons fill rest ih =>
    rw [sliceFills] at ret
    obtain ⟨⟨next, slice⟩, first, more⟩ := bind_eq_ok.mp ret
    obtain ⟨⟨final, others⟩, later, last⟩ := bind_eq_ok.mp more
    cases last
    have nn : 0 ≤ remaining.1 := hal ▸ le_max_left _ _
    have width : min remaining.1 fill.quantity = PrefixCover.overlap rcpt start fill.quantity := by
      rw [hal, PrefixCover.overlap_eq_min rcpt start fill.quantity_pos.le]
    obtain ⟨isNext, isDelta, isFill⟩ := sliceFill_ok nn first
    rw [width] at isNext isDelta
    have realigned : next.1 = max 0 (rcpt - (start + fill.quantity)) := by
      rw [isNext, ← PrefixCover.remaining_sub_overlap rcpt start fill.quantity_pos.le, ← hal]
      rfl
    obtain ⟨isFinal, isSum, among⟩ := ih realigned later
    refine ⟨?_, ?_, ?_⟩
    · rw [isFinal, isNext, receiptParts_cons, List.map_cons, List.sum_cons, sub_sub]
    · rw [List.map_append, List.sum_append, isDelta, isSum, receiptParts_cons, List.map_cons,
        List.map_cons, List.sum_cons, List.sum_cons]
      abel
    · intro piece mem
      rcases List.mem_append.mp mem with inFirst | inLater
      · rw [isFill piece (by simpa using inFirst)]
        exact List.mem_cons_self
      · exact List.mem_cons_of_mem fill (among piece inLater)
end

section
variable {order : ExitOrder}

theorem repairEvents_spec (basis : BookingBasis) (state : BookingState) (slices : List Slice) :
    (repairEvents order basis state slices).1.map
      (fun event => (event.economicFillIdentity, event.filled)) =
      slices.map fun slice => (some slice.fill.identity, slice.delta) := by
  induction slices generalizing state with
  | nil => rfl
  | cons slice rest ih =>
    rw [repairEvents, List.map_cons, List.map_cons, ih]
    rfl

theorem appendMany_rows {journal longer : Journal} {events : List PartialExitEvent}
    (app : appendMany journal events = .ok longer) : longer.rows = journal.rows ++ events := by
  induction events generalizing journal with
  | nil =>
    cases app
    simp
  | cons event rest ih =>
    rw [appendMany] at app
    cases ins : journal.tryInsert event with
    | none => simp [ins] at app
    | some next =>
      simp only [ins] at app
      obtain ⟨fresh, rfl⟩ := KeyedTable.tryInsert_eq_some_iff.mp ins
      rw [ih app]
      simp [KeyedTable.insert]

theorem bookSlices_ok {basis : BookingBasis} {sold realized : ℚ} {slices : List Slice}
    {journal : Journal} {booking : Booking}
    (ret : bookSlices order basis sold realized slices journal = .ok booking) :
    ∃ evs, booking.journal.rows = journal.rows ++ evs ∧
      evs.map (fun event => (event.economicFillIdentity, event.filled)) =
        slices.map fun slice => (some slice.fill.identity, slice.delta) := by
  unfold bookSlices at ret
  split at ret
  · rename_i hno
    split at ret
    · cases ret
    · cases ret
      exact ⟨[], by simp, by simp [hno]⟩
  · split at ret
    · cases ret
    · split at ret
      · cases ret
      · obtain ⟨longer, app, afterAppend⟩ := bind_eq_ok.mp ret
        obtain ⟨_, -, last⟩ := bind_eq_ok.mp afterAppend
        cases last
        exact ⟨_, appendMany_rows app, repairEvents_spec basis _ slices⟩

theorem append_ok {cur : PositionCurrent} {recov : Option RecoveredBaseline}
    {fills : List EconomicExitFill} {expd : ℚ} {journal : Journal} {booking : Booking}
    (ret : appendUnrecordedPartialExitEconomics order cur recov fills expd journal = .ok booking) :
    (∀ idn, 0 ≤ ((cursor journal.rows idn).getD 0).1) ∧
    ∃ slices evs, unrecordedSlices order (cursor journal.rows) fills = .ok slices ∧
      booking.journal.rows = journal.rows ++ evs ∧
      evs.map (fun event => (event.economicFillIdentity, event.filled)) =
      slices.map fun slice => (some slice.fill.identity, slice.delta) := by
  obtain ⟨basis, -, afterBasis⟩ := bind_eq_ok.mp ret
  split at afterBasis
  · cases afterBasis
  · obtain ⟨cursors, read, afterRead⟩ := bind_eq_ok.mp afterBasis
    obtain ⟨slices, sliced, afterSlices⟩ := bind_eq_ok.mp afterRead
    obtain ⟨realized, -, last⟩ := bind_eq_ok.mp afterSlices
    obtain ⟨rfl, -⟩ := recorded_ok read
    obtain ⟨evs, isJournal, each⟩ := bookSlices_ok last
    exact ⟨fun idn => (cursor_nonneg read idn).1, slices, evs, sliced, isJournal, each⟩
end

def FillIdentity.ofOrder (order : ExitOrder) : FillIdentity → Bool
  | .statusFill positionId venueOrderId =>
    positionId == order.positionId && venueOrderId == order.venueOrderId
  | .economicFill commandId venueOrderId _ =>
    commandId == order.commandId && venueOrderId == sqlLower order.venueOrderId

def orderBooked (order : ExitOrder) (rows : List PartialExitEvent) : Economics :=
  ((rows.filter fun event =>
        event.economicFillIdentity.any fun identity => identity.ofOrder order).map
    PartialExitEvent.filled).sum

section
variable {order : ExitOrder} {rows : List PartialExitEvent}

theorem orderBooked_eq_sum {identities : List FillIdentity} (nd : identities.Nodup)
    (ofOrder : ∀ idn ∈ identities, idn.ofOrder order = true)
    (known : ∀ event ∈ rows, ∀ idn ∈ event.economicFillIdentity,
      idn.ofOrder order = true → idn ∈ identities) :
    orderBooked order rows = (identities.map (booked rows)).sum := by
  induction rows with
  | nil =>
    have empty : booked [] = fun _ => 0 := rfl
    simp [orderBooked, empty]
  | cons event rest ih =>
    have tail := ih fun other mem => known other (List.mem_cons_of_mem event mem)
    have single : (identities.map fun idn => if event.books idn then event.filled else 0).sum =
        if (event.economicFillIdentity.any fun idn => idn.ofOrder order) then event.filled
        else 0 := by
      cases named : event.economicFillIdentity with
      | none => simp [PartialExitEvent.books, named]
      | some own =>
        have asEq : (fun idn => if event.books idn then event.filled else 0) =
            fun idn => if idn = own then event.filled else 0 := by
          funext idn
          by_cases same : idn = own
          · simp [PartialExitEvent.books, named, same]
          · simp [PartialExitEvent.books, named, same, Ne.symm same]
        rw [asEq, List.sum_map_ite_eq identities (fun _ => event.filled) (fun _ => 0) own]
        by_cases inOrder : own.ofOrder order = true
        · have mem := known event List.mem_cons_self own named inOrder
          simp [inOrder, List.count_eq_one_of_mem nd mem]
        · have hab : own ∉ identities := fun mem => inOrder (ofOrder own mem)
          simp [inOrder, List.count_eq_zero_of_not_mem hab]
    have split : identities.map (booked (event :: rest)) =
        identities.map fun idn =>
          (if event.books idn then event.filled else 0) + booked rest idn := by
      apply List.map_congr_left
      intro idn _
      by_cases names : event.books idn = true <;> simp [booked, names]
    rw [split, List.sum_map_add, single, ← tail]
    unfold orderBooked
    by_cases inOrder : (event.economicFillIdentity.any fun idn => idn.ofOrder order) = true <;>
      simp [inOrder]

theorem orderBooked_append {events : List PartialExitEvent}
    {amounts : List (FillIdentity × Economics)}
    (each : events.map (fun event => (event.economicFillIdentity, event.filled)) =
        amounts.map fun amt => (some amt.1, amt.2))
    (ofOrder : ∀ amt ∈ amounts, amt.1.ofOrder order = true) :
    orderBooked order (rows ++ events) = orderBooked order rows + (amounts.map Prod.snd).sum := by
  have all : events.filter
      (fun event => event.economicFillIdentity.any fun idn => idn.ofOrder order) =
      events := by
    refine List.filter_eq_self.mpr fun event mem => ?_
    obtain ⟨amt, inAmounts, same⟩ := List.mem_map.mp (each ▸ List.mem_map_of_mem mem :
      (event.economicFillIdentity, event.filled) ∈ amounts.map fun amt => (some amt.1, amt.2))
    have named : event.economicFillIdentity = some amt.1 := (congrArg Prod.fst same).symm
    simpa [named] using ofOrder amt inAmounts
  have filled : events.map PartialExitEvent.filled = amounts.map Prod.snd := by
    simpa [List.map_map, Function.comp_def] using congrArg (List.map Prod.snd) each
  rw [orderBooked, List.filter_append, List.map_append, List.sum_append, all, filled]
  rfl
end

section
variable {order : ExitOrder} {rows : List PartialExitEvent} {fills : List EconomicExitFill}

theorem unrecordedSlices_ok {cursors : Cursors} {slices : List Slice}
    (nn : 0 ≤ ((cursors order.statusIdentity).getD 0).1)
    (sliced : unrecordedSlices order cursors fills = .ok slices) :
    let parts := receiptParts ((cursors order.statusIdentity).getD 0).1 0 fills
    ((cursors order.statusIdentity).getD 0 - (parts.map Prod.snd).sum).1 = 0 ∧
      (slices.map Slice.delta).sum = canonicalTotal fills -
        (parts.map fun cov => (cursors cov.1.identity).getD 0 + cov.2 -
          recordedOverlap ((cursors cov.1.identity).getD 0) cov.2).sum ∧
      ∀ slice ∈ slices, slice.fill ∈ fills := by
  unfold unrecordedSlices at sliced
  dsimp only at sliced
  split at sliced
  · cases sliced
  · obtain ⟨⟨left, hf⟩, looped, last⟩ := bind_eq_ok.mp sliced
    dsimp only at last
    split at last
    · cases last
    · rename_i unmatched
      cases last
      push Not at unmatched
      have hal : ((cursors order.statusIdentity).getD 0).1 =
          max 0 (((cursors order.statusIdentity).getD 0).1 - 0) := by
        rw [sub_zero, max_eq_right nn]
      obtain ⟨isLeft, deltas, among⟩ := sliceFills_ok hal looped
      rw [isLeft] at unmatched
      exact ⟨unmatched.1, deltas, among⟩

theorem receiptParts_fst (rcpt start : ℚ) (fills : List EconomicExitFill) :
    (receiptParts rcpt start fills).map Prod.fst = fills := by
  induction fills generalizing start with
  | nil => rfl
  | cons fill rest ih => rw [receiptParts_cons, List.map_cons, ih]

/-- The journal before a call: of this order it books the receipt and fills that are visible. -/
structure Traced (order : ExitOrder) (fills : List EconomicExitFill)
    (rows : List PartialExitEvent) : Prop where
  ofOrder : ∀ fill ∈ fills, fill.identity.ofOrder order = true
  known : ∀ event ∈ rows, ∀ identity ∈ event.economicFillIdentity, identity.ofOrder order = true →
    identity = order.statusIdentity ∨ ∃ fill ∈ fills, fill.identity = identity
  receipted : booked rows order.statusIdentity = bookedReceipt order rows

theorem Traced.orderBooked_eq (traced : Traced order fills rows) :
    orderBooked order rows = bookedReceipt order rows +
        ((fills.map EconomicExitFill.identity).dedup.map (booked rows)).sum := by
  have status : order.statusIdentity ∉ (fills.map EconomicExitFill.identity).dedup := by
    simp [ExitOrder.statusIdentity, EconomicExitFill.identity]
  have total := @orderBooked_eq_sum order rows
    (order.statusIdentity :: (fills.map EconomicExitFill.identity).dedup)
    (List.nodup_cons.mpr ⟨status, List.nodup_dedup _⟩)
    (by simpa [ExitOrder.statusIdentity, FillIdentity.ofOrder] using traced.ofOrder)
    (fun event mem idn named inOrder => by
      rcases traced.known event mem idn named inOrder with rfl | ⟨fill, inFills, rfl⟩
      · exact List.mem_cons_self
      · exact List.mem_cons_of_mem _ (List.mem_dedup.mpr (List.mem_map_of_mem inFills)))
  rw [total, List.map_cons, List.sum_cons, traced.receipted]

theorem booked_add_covered (order : ExitOrder) (rows : List PartialExitEvent)
    (fills : List EconomicExitFill) :
    ((fills.map EconomicExitFill.identity).dedup.map (booked rows)).sum +
      ((receiptParts (bookedReceipt order rows).1 0 fills).map Prod.snd).sum =
      ((receiptParts (bookedReceipt order rows).1 0 fills).map fun cov =>
            (cursor rows cov.1.identity).getD 0 + cov.2 -
              recordedOverlap ((cursor rows cov.1.identity).getD 0) cov.2).sum +
        receiptDisplacement order rows fills := by
  have perFill : (fills.map fun fill => (cursor rows fill.identity).getD 0) =
      (receiptParts (bookedReceipt order rows).1 0 fills).map fun cov =>
        (cursor rows cov.1.identity).getD 0 := by
    conv_lhs => rw [← receiptParts_fst (bookedReceipt order rows).1 0 fills, List.map_map]
    rfl
  rw [receiptDisplacement, leftToReceipt, perFill]
  generalize receiptParts (bookedReceipt order rows).1 0 fills = parts
  have pointwise : (parts.map fun cov => (cursor rows cov.1.identity).getD 0 + cov.2 -
        recordedOverlap ((cursor rows cov.1.identity).getD 0) cov.2).sum +
      (parts.map fun cov => recordedOverlap ((cursor rows cov.1.identity).getD 0) cov.2).sum =
      (parts.map fun cov => (cursor rows cov.1.identity).getD 0).sum +
        (parts.map Prod.snd).sum := by
    rw [← List.sum_map_add, ← List.sum_map_add]
    simp
  linear_combination -pointwise

theorem Traced.balance {cur : PositionCurrent} {recov : Option RecoveredBaseline} {expd : ℚ}
    {journal : Journal} {booking : Booking} (traced : Traced order fills journal.rows)
    (ret : appendUnrecordedPartialExitEconomics order cur recov fills expd journal = .ok booking) :
    orderBooked order booking.journal.rows =
      canonicalTotal fills + (0, receiptDrift order journal.rows fills) +
        receiptDisplacement order journal.rows fills := by
  obtain ⟨nn, slices, evs, sliced, isJournal, each⟩ := append_ok ret
  obtain ⟨used, deltas, among⟩ := unrecordedSlices_ok (nn order.statusIdentity) sliced
  change _ = _ - ((receiptParts (bookedReceipt order journal.rows).1 0 fills).map _).sum at deltas
  have drift : (0, receiptDrift order journal.rows fills) = bookedReceipt order journal.rows -
      ((receiptParts (bookedReceipt order journal.rows).1 0 fills).map Prod.snd).sum :=
    Prod.ext used.symm rfl
  have after := @orderBooked_append order journal.rows evs
    (slices.map fun slice => (slice.fill.identity, slice.delta))
    (by rw [each, List.map_map]; rfl)
    (by
      intro amt mem
      obtain ⟨slice, inSlices, rfl⟩ := List.mem_map.mp mem
      exact traced.ofOrder slice.fill (among slice inSlices))
  rw [List.map_map] at after
  change _ = _ + (slices.map Slice.delta).sum at after
  rw [isJournal, after, deltas, traced.orderBooked_eq, drift]
  linear_combination booked_add_covered order journal.rows fills

/-- The canonical totals are booked, the notional up to storage. -/
def Conserved (order : ExitOrder) (fills : List EconomicExitFill) (rows : List PartialExitEvent) :
    Prop :=
  (orderBooked order rows).1 = (canonicalTotal fills).1 ∧
    economicNotionalStorageEqual (orderBooked order rows).2 (canonicalTotal fills).2

theorem Traced.conserved_iff {cur : PositionCurrent} {recov : Option RecoveredBaseline} {expd : ℚ}
    {journal : Journal} {booking : Booking} (traced : Traced order fills journal.rows)
    (ret : appendUnrecordedPartialExitEconomics order cur recov fills expd journal = .ok booking) :
    Conserved order fills booking.journal.rows ↔ ReceiptInPlace order journal.rows fills := by
  have bal := traced.balance ret
  have shares : (orderBooked order booking.journal.rows).1 =
      (canonicalTotal fills).1 + (receiptDisplacement order journal.rows fills).1 := by
    simp [bal]
  have notl : (orderBooked order booking.journal.rows).2 - (canonicalTotal fills).2 =
      receiptDrift order journal.rows fills + (receiptDisplacement order journal.rows fills).2 -
        0 := by
    rw [bal]
    simp only [Prod.snd_add]
    ring
  unfold Conserved economicNotionalStorageEqual
  rw [notl, shares, add_eq_left]
  exact ⟨fun ⟨same, near⟩ => ⟨same, near⟩, fun ⟨same, near⟩ => ⟨same, near⟩⟩
end

end Zeus.PartialExit
