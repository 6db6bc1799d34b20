import Zeus.Lib.RoundRobin
import Zeus.Lib.Scatter
import Mathlib.Data.String.Basic

/-! `_rank_pending_rows_python` ranks the pending events by a tuple of keys, and
`_fair_decision_lane_interleave` then weaves the ranked records by lane. -/

namespace Zeus.DecisionLanes

inductive EventType where
  | edliRedecisionPending | day0ExtremeUpdated | forecastSnapshotReady | bestBidAskChanged
  | bookSnapshot
  | newMarketDiscovered
  | other (name : String)
  deriving DecidableEq

/-- A fetched row: the event with what its payload and times parse to, and the columns of its
processing. -/
structure PendingRow where
  eventId : String
  eventType : EventType
  /-- `_event_city_key`. -/
  cityKey : String
  /-- The payload says that the coverage is complete and ready for live use. -/
  coverageLive : Bool
  /-- The ordinal of the target date. -/
  targetDate : Option ℤ
  (availableAt receivedAt : Option ℚ)
  (priority attemptCount recaptureEdgeBackoff : ℤ)
  staleProcessingReclaim : Bool
  deriving DecidableEq

/-- A key by which a later time comes first, and a missing one last. -/
abbrev DescKey := ℤ ×ₗ ℚ

/-- `_date_desc_key` and `_datetime_desc_key`. -/
def descKey : Option ℚ → DescKey
  | none => toLex (1, 0)
  | some time => toLex (0, -time)

structure PendingRecord where
  event : PendingRow
  tier : ℤ
  (targetKey availableKey receivedKey : DescKey)
  (retryKey staleProcessingReclaimLane targetLane liveRedecisionRetryLane : ℤ)
  cityRound : ℕ
  deriving DecidableEq

def claimTierForEvent (row : PendingRow) : ℤ :=
  match row.eventType with
  | .edliRedecisionPending | .day0ExtremeUpdated => 0
  | .forecastSnapshotReady => if row.coverageLive then 1 else 2
  | .bestBidAskChanged | .bookSnapshot | .newMarketDiscovered => 3
  | .other _ => 2

def liveRedecisionRetryLane (row : PendingRow) : ℤ :=
  if row.eventType = .edliRedecisionPending ∧ 0 < row.attemptCount then 0 else 1

def PendingRow.record (targeted globalWinnerTargeted : List String) (row : PendingRow) :
    PendingRecord where
  event := row
  tier := claimTierForEvent row
  targetKey := descKey (row.targetDate.map fun ordinal => (ordinal : ℚ))
  availableKey := descKey row.availableAt
  receivedKey := descKey row.receivedAt
  retryKey := if 0 < row.attemptCount then 0 else 1
  staleProcessingReclaimLane := if row.staleProcessingReclaim then 0 else 1
  targetLane :=
    if row.eventId ∈ globalWinnerTargeted then 0 else if row.eventId ∈ targeted then 1 else 2
  liveRedecisionRetryLane := liveRedecisionRetryLane row
  cityRound := 1

inductive Lane where
  | redecision | source | rest
  deriving DecidableEq

def decisionLaneForItem (item : PendingRecord) : Lane :=
  if item.event.eventType = .edliRedecisionPending then .redecision
  else if item.event.eventType = .forecastSnapshotReady ∧ item.tier ≤ 1 then .source
  else .rest

def laneOrder : List Lane := [.redecision, .source, .rest]

def PendingRecord.fixed (item : PendingRecord) : Bool :=
  item.staleProcessingReclaimLane = 0 ∨ item.targetLane < 2

structure Weave where
  out : List PendingRecord
  offsets : Lane → ℕ

def Weave.take (lanes : Lane → List PendingRecord) (weave : Weave) (lane : Lane) : Weave :=
  match (lanes lane)[weave.offsets lane]? with
  | some item => ⟨weave.out ++ [item], Function.update weave.offsets lane (weave.offsets lane + 1)⟩
  | none => weave

/-- The outer loop; none if the fuel runs out before all records are out. -/
def weaveLoop (lanes : Lane → List PendingRecord) (size : ℕ) :
    ℕ → Weave → Option (List PendingRecord)
  | fuel, weave =>
    if weave.out.length < size then
      match fuel with
      | 0 => none
      | fuel + 1 => weaveLoop lanes size fuel (laneOrder.foldl (Weave.take lanes) weave)
    else some weave.out

def fairDecisionLaneInterleave (fuel : ℕ) (records : List PendingRecord) :
    Option (List PendingRecord) :=
  let fixed := records.filter PendingRecord.fixed
  let others :=
    records.filter fun item => item.event.eventId ∉ fixed.map fun item => item.event.eventId
  let lanes := fun lane => others.filter fun item => decisionLaneForItem item = lane
  (weaveLoop lanes others.length fuel ⟨[], fun _ => 0⟩).map fun out => fixed ++ out

def cityRounds : List (PendingRecord × ℕ) → (ℤ × String → ℕ) → List (ℕ × ℕ)
  | [], _ => []
  | (item, idx) :: items, rounds =>
    let key := (item.tier, item.event.cityKey)
    (idx, rounds key + 1) :: cityRounds items (Function.update rounds key (rounds key + 1))

abbrev IntraCityKey := ℤ ×ₗ String ×ₗ DescKey ×ₗ DescKey ×ₗ ℤ ×ₗ DescKey ×ₗ String

def PendingRecord.intraCityKey (item : PendingRecord) : IntraCityKey :=
  toLex (item.tier, toLex (item.event.cityKey, toLex (item.targetKey, toLex (item.availableKey,
    toLex (item.retryKey, toLex (item.receivedKey, item.event.eventId))))))

abbrev RankKey := ℤ ×ₗ ℤ ×ₗ ℤ ×ₗ ℤ ×ₗ ℤ ×ₗ ℕ ×ₗ ℤ ×ₗ DescKey ×ₗ DescKey ×ₗ ℤ ×ₗ DescKey ×ₗ String

def PendingRecord.rankKey (item : PendingRecord) : RankKey :=
  toLex (item.staleProcessingReclaimLane, toLex (item.targetLane, toLex (item.tier,
    toLex (item.liveRedecisionRetryLane,
      toLex (item.event.recaptureEdgeBackoff, toLex (item.cityRound,
      toLex (-item.event.priority, toLex (item.targetKey, toLex (item.availableKey,
        toLex (item.retryKey, toLex (item.receivedKey, item.event.eventId)))))))))))

def withCityRounds (records : List PendingRecord) : List PendingRecord :=
  let intraCity :=
    records.zipIdx.insertionSort fun item other => item.1.intraCityKey ≤ other.1.intraCityKey
  Scatter.writeAll (fun round item => { item with cityRound := round })
    (cityRounds intraCity fun _ => 0) records

def rankedRecords (rows : List PendingRow) (targeted globalWinnerTargeted : List String) :
    List PendingRecord :=
  (withCityRounds (rows.map (PendingRow.record targeted globalWinnerTargeted))).insertionSort
    fun item other =>
    item.rankKey ≤ other.rankKey

def rankPendingRowsPython (fuel : ℕ) (rows : List PendingRow)
    (targeted globalWinnerTargeted : List String) : Option (List (PendingRow × ℤ)) :=
  (fairDecisionLaneInterleave fuel (rankedRecords rows targeted globalWinnerTargeted)).map
    fun ranked =>
    ranked.map fun item => (item.event, item.event.attemptCount)

section
variable {lanes : Lane → List PendingRecord} {weave : Weave}

def Weave.remaining (lanes : Lane → List PendingRecord) (weave : Weave) :
    Lane → List PendingRecord :=
  fun lane => (lanes lane).drop (weave.offsets lane)

theorem take_out (lane : Lane) :
    (weave.take lanes lane).out = weave.out ++ (weave.remaining lanes lane).head?.toList := by
  rw [Weave.remaining, List.head?_drop, Weave.take]
  cases (lanes lane)[weave.offsets lane]? with
  | none => exact (List.append_nil _).symm
  | some item => rfl

theorem take_remaining (lane : Lane) : (weave.take lanes lane).remaining lanes =
      Function.update (weave.remaining lanes) lane (weave.remaining lanes lane).tail := by
  funext other
  by_cases same : other = lane
  · subst same
    rw [Function.update_self, Weave.remaining, Weave.remaining, List.tail_drop, Weave.take]
    cases at_ : (lanes other)[weave.offsets other]? with
    | none =>
      have past := List.getElem?_eq_none_iff.mp at_
      simp only
      rw [List.drop_eq_nil_of_le past, List.drop_eq_nil_of_le (by omega)]
    | some item => simp only [Function.update_self]
  · rw [Function.update_of_ne same, Weave.remaining, Weave.remaining, Weave.take]
    cases (lanes lane)[weave.offsets lane]? with
    | none => rfl
    | some item => simp only [Function.update_of_ne same]

theorem foldl_take (order : List Lane) (nd : order.Nodup) :
    (order.foldl (Weave.take lanes) weave).out =
      weave.out ++ RoundRobin.heads order (weave.remaining lanes) ∧
    ∀ lane, (order.foldl (Weave.take lanes) weave).remaining lanes lane =
        if lane ∈ order then (weave.remaining lanes lane).tail else weave.remaining lanes lane := by
  induction order generalizing weave with
  | nil => exact ⟨(List.append_nil _).symm, fun lane => rfl⟩
  | cons first rest ih =>
    obtain ⟨fresh, ndr⟩ := List.nodup_cons.mp nd
    obtain ⟨out, left⟩ := @ih (weave.take lanes first) ndr
    have unseen : RoundRobin.heads rest ((weave.take lanes first).remaining lanes) =
        RoundRobin.heads rest (weave.remaining lanes) := by
      apply List.filterMap_congr
      intro lane mem
      have other : lane ≠ first := fun same => fresh (same ▸ mem)
      rw [take_remaining, Function.update_of_ne other]
    rw [List.foldl_cons]
    constructor
    · rw [out, unseen, take_out, RoundRobin.heads_cons, List.append_assoc]
    · intro lane
      rw [left, take_remaining]
      by_cases same : lane = first
      · subst same
        simp [fresh]
      · simp [same]

theorem foldl_laneOrder_out :
    (laneOrder.foldl (Weave.take lanes) weave).out =
      weave.out ++ RoundRobin.heads laneOrder (weave.remaining lanes) :=
  (foldl_take laneOrder (by decide)).1

theorem mem_laneOrder (lane : Lane) : lane ∈ laneOrder := by
  cases lane <;> decide

theorem foldl_laneOrder_remaining :
    (laneOrder.foldl (Weave.take lanes) weave).remaining lanes =
      RoundRobin.tails (weave.remaining lanes) := by
  funext lane
  rw [(foldl_take laneOrder (by decide)).2 lane, if_pos (mem_laneOrder lane)]
  rfl

/-- The loop puts out what it has and the weave of what is left, if its fuel lasts as long as
records wait. -/
theorem weaveLoop_eq {size fuel : ℕ}
    (accounted : weave.out.length + RoundRobin.waiting laneOrder (weave.remaining lanes) = size)
    (enough : RoundRobin.waiting laneOrder (weave.remaining lanes) ≤ fuel) :
    weaveLoop lanes size fuel weave =
      some (weave.out ++ RoundRobin.weave laneOrder fuel (weave.remaining lanes)) := by
  induction fuel generalizing weave with
  | zero =>
    have full : ¬ weave.out.length < size := by omega
    rw [weaveLoop, if_neg full, RoundRobin.weave, List.append_nil]
  | succ fuel ih =>
    rw [weaveLoop]
    by_cases more : weave.out.length < size
    · rw [if_pos more]
      have round := @RoundRobin.waiting_eq _ _ laneOrder (weave.remaining lanes)
      have served : 0 < (RoundRobin.heads laneOrder (weave.remaining lanes)).length :=
        RoundRobin.length_heads_pos (by omega)
      refine (ih ?_ ?_).trans ?_
      · rw [foldl_laneOrder_out, foldl_laneOrder_remaining, List.length_append]
        omega
      · rw [foldl_laneOrder_remaining]
        omega
      · rw [foldl_laneOrder_out, foldl_laneOrder_remaining, List.append_assoc, RoundRobin.weave]
    · have none_waits : RoundRobin.waiting laneOrder (weave.remaining lanes) = 0 := by omega
      rw [if_neg more, RoundRobin.weave_of_empty (RoundRobin.waiting_eq_zero_iff.mp none_waits),
        List.append_nil]
end

def fixedRecords (records : List PendingRecord) : List PendingRecord :=
  records.filter PendingRecord.fixed

def laneRecords (records : List PendingRecord) (lane : Lane) : List PendingRecord :=
  records.filter fun item => !item.fixed && decide (decisionLaneForItem item = lane)

section
variable {records : List PendingRecord}

theorem filter_fixedIds (nd : (records.map fun item => item.event.eventId).Nodup) :
    (records.filter fun item => item.event.eventId ∉
          (records.filter PendingRecord.fixed).map fun item => item.event.eventId) =
      records.filter fun item => !item.fixed := by
  apply List.filter_congr
  intro item mem
  have taken : item.event.eventId ∈
      (records.filter PendingRecord.fixed).map (fun item => item.event.eventId) ↔
      item.fixed = true := by
    constructor
    · intro hp
      obtain ⟨other, inFixed, same⟩ := List.mem_map.mp hp
      obtain ⟨hs, isFixed⟩ := List.mem_filter.mp inFixed
      rwa [← List.inj_on_of_nodup_map nd hs mem same]
    · intro isFixed
      exact List.mem_map.mpr ⟨item, List.mem_filter.mpr ⟨mem, isFixed⟩, rfl⟩
  simp [taken]

theorem laneRecords_eq :
    laneRecords records = fun lane => (records.filter fun item => !item.fixed).filter fun item =>
          decisionLaneForItem item = lane := by
  funext lane
  rw [laneRecords, List.filter_filter]
  apply List.filter_congr
  intro item _
  exact Bool.and_comm _ _

theorem flatMap_laneRecords :
    (laneOrder.flatMap (laneRecords records)).Perm (records.filter fun item => !item.fixed) := by
  have cov := @RoundRobin.flatMap_filter_perm _ _ laneOrder decisionLaneForItem _
    (records.filter fun item => !item.fixed) (by decide)
  rw [laneRecords_eq]
  refine cov.trans (List.Perm.of_eq (List.filter_eq_self.mpr fun item _ => ?_))
  exact decide_eq_true (mem_laneOrder _)

theorem waiting_laneRecords :
    RoundRobin.waiting laneOrder (laneRecords records) =
      (records.filter fun item => !item.fixed).length := by
  rw [RoundRobin.waiting_eq_length, flatMap_laneRecords.length_eq]

theorem interleave_eq (nd : (records.map fun item => item.event.eventId).Nodup) {fuel : ℕ}
    (enough : records.length ≤ fuel) : fairDecisionLaneInterleave fuel records =
      some (fixedRecords records ++ RoundRobin.weave laneOrder fuel (laneRecords records)) := by
  have rem : (⟨[], fun _ => 0⟩ : Weave).remaining (laneRecords records) = laneRecords records := rfl
  have short : (records.filter fun item => !item.fixed).length ≤ fuel :=
    List.length_filter_le _ _ |>.trans enough
  simp only [fairDecisionLaneInterleave, filter_fixedIds nd]
  rw [← laneRecords_eq, weaveLoop_eq (by rw [rem, waiting_laneRecords]; exact Nat.zero_add _)
    (by rw [rem, waiting_laneRecords]; exact short), rem]
  rfl

theorem length_laneRecords_le (lane : Lane) : (laneRecords records lane).length ≤ records.length :=
  List.length_filter_le _ _

theorem decisionLane_of_mem {lane : Lane} {item : PendingRecord}
    (mem : item ∈ laneRecords records lane) : decisionLaneForItem item = lane := by
  have kept := (List.mem_filter.mp mem).2
  exact of_decide_eq_true (Bool.and_eq_true_iff.mp kept).2

theorem exists_place (lane : Lane) : ∃ place ≤ 2, laneOrder[place]? = some lane := by
  cases lane with
  | redecision => exact ⟨0, by decide, rfl⟩
  | source => exact ⟨1, by decide, rfl⟩
  | rest => exact ⟨2, by decide, rfl⟩

theorem exists_position {fuel : ℕ} (enough : records.length ≤ fuel) {lane : Lane} {j : ℕ}
    {item : PendingRecord} (inLane : (laneRecords records lane)[j]? = some item) :
    ∃ posn, posn + 1 ≤ (fixedRecords records).length + 3 * (j + 1) ∧
      (fixedRecords records ++ RoundRobin.weave laneOrder fuel (laneRecords records))[posn]? =
        some item := by
  obtain ⟨place, low, here⟩ := exists_place lane
  have hin := (List.getElem?_eq_some_iff.mp inLane).1
  have rounds : j < fuel := (hin.trans_le (length_laneRecords_le lane)).trans_le enough
  obtain ⟨posn, early, at_⟩ := RoundRobin.exists_weave here inLane rounds
  have three : laneOrder.length = 3 := rfl
  rw [three] at early
  refine ⟨(fixedRecords records).length + posn, by omega, ?_⟩
  rw [List.getElem?_append_right (Nat.le_add_right _ _), Nat.add_sub_cancel_left, at_]

theorem interleave_perm {fuel : ℕ} (enough : records.length ≤ fuel) :
    (fixedRecords records ++ RoundRobin.weave laneOrder fuel (laneRecords records)).Perm
      records := by
  have rounds : ∀ lane ∈ laneOrder, (laneRecords records lane).length ≤ fuel :=
    fun lane _ => (length_laneRecords_le lane).trans enough
  refine (((RoundRobin.weave_perm rounds).trans flatMap_laneRecords).append_left _).trans ?_
  exact List.filter_append_perm PendingRecord.fixed records
end

/-- For records with distinct ids the weave ends, with a permutation that begins with the fixed
records and keeps the order of each lane. The j-th record of a lane stands at place 3 j behind the
fixed ones at the latest, so three places behind them hold a record of every lane that has one. -/
theorem lane_weave_is_fair (records : List PendingRecord)
    (nd : (records.map fun item => item.event.eventId).Nodup) (fuel : ℕ)
    (enough : records.length ≤ fuel) :
    ∃ out, fairDecisionLaneInterleave fuel records = some out ∧
      out.Perm records ∧
      out.take (fixedRecords records).length = fixedRecords records ∧
      (∀ lane,
          (out.drop (fixedRecords records).length).filter
            (fun item => decisionLaneForItem item = lane) = laneRecords records lane) ∧
      (∀ lane (j : ℕ) item, (laneRecords records lane)[j]? = some item →
          ∃ posn, posn + 1 ≤ (fixedRecords records).length + 3 * (j + 1) ∧ out[posn]? = some item) ∧
      ∀ lane size, (fixedRecords records).length + 3 ≤ size → laneRecords records lane ≠ [] →
        ∃ item ∈ out.take size, item ∈ laneRecords records lane := by
  refine ⟨_, interleave_eq nd enough, interleave_perm enough, List.take_left, fun lane => ?_,
    fun lane j item => exists_position enough, fun lane size large some_ => ?_⟩
  · rw [List.drop_left]
    exact RoundRobin.filter_weave (fun lane item => decisionLane_of_mem) (by decide)
      (mem_laneOrder lane) ((length_laneRecords_le lane).trans enough)
  · obtain ⟨item, rest, first⟩ := List.exists_cons_of_ne_nil some_
    have inLane : (laneRecords records lane)[0]? = some item := by rw [first]; rfl
    obtain ⟨posn, early, at_⟩ := exists_position enough inLane
    refine ⟨item, List.mem_of_getElem? (i := posn) ?_, List.mem_of_getElem? inLane⟩
    rw [List.getElem?_take_of_lt (by omega), at_]

def sampleRecords : List PendingRecord :=
  [⟨"day0", .day0ExtremeUpdated, "city", false, none, none, none, 0, 0, 0, false⟩,
    ⟨"day0-later", .day0ExtremeUpdated, "city", false, none, none, none, 0, 0, 0, false⟩,
    ⟨"forecast", .forecastSnapshotReady, "city", true, none, none, none, 0, 0, 0, false⟩,
    ⟨"price", .edliRedecisionPending, "city", false, none, none, none, 0, 0, 0, false⟩,
    ⟨"stale", .bookSnapshot, "city", false, none, none, none, 0, 0, 0, true⟩].map
      (PendingRow.record [] [])

example :
    (fairDecisionLaneInterleave 5 sampleRecords).map
      (fun out => out.map fun item => item.event.eventId) =
      some ["stale", "price", "forecast", "day0", "day0-later"] := by
  decide +kernel

theorem sampleRecords_woven :
    (sampleRecords.map fun item => item.event.eventId).Nodup ∧
    ∃ out, fairDecisionLaneInterleave 5 sampleRecords = some out ∧ out.Perm sampleRecords := by
  have nd : (sampleRecords.map fun item => item.event.eventId).Nodup := by decide +kernel
  obtain ⟨out, woven, same, -⟩ := lane_weave_is_fair sampleRecords nd 5 le_rfl
  exact ⟨nd, out, woven, same⟩

section
variable {rows : List PendingRow} {targeted globalWinnerTargeted : List String}

theorem map_withCityRounds (records : List PendingRecord) :
    (withCityRounds records).map PendingRecord.event = records.map PendingRecord.event := by
  have keep : ∀ (round : ℕ) (item : PendingRecord),
        { item with cityRound := round }.event = item.event :=
    fun _ _ => rfl
  exact Scatter.map_writeAll keep

theorem events_rankedRecords :
    ((rankedRecords rows targeted globalWinnerTargeted).map PendingRecord.event).Perm rows := by
  refine ((List.perm_insertionSort _ _).map _).trans (List.Perm.of_eq ?_)
  rw [map_withCityRounds, List.map_map]
  exact List.map_id rows

/-- No pending row is lost or ranked twice: the city rounds, the sort by key and the weave return
each with its attempt count. -/
theorem rankPendingRows_perm (nd : (rows.map PendingRow.eventId).Nodup) {fuel : ℕ}
    (enough : rows.length ≤ fuel) :
    ∃ ranked, rankPendingRowsPython fuel rows targeted globalWinnerTargeted = some ranked ∧
      ranked.Perm (rows.map fun row => (row, row.attemptCount)) := by
  have evs := @events_rankedRecords rows targeted globalWinnerTargeted
  have ids : ((rankedRecords rows targeted globalWinnerTargeted).map fun item =>
        item.event.eventId).Nodup := by
    have same := (evs.map PendingRow.eventId).nodup_iff.mpr nd
    rwa [List.map_map] at same
  have size : (rankedRecords rows targeted globalWinnerTargeted).length ≤ fuel := by
    have len := evs.length_eq
    rw [List.length_map] at len
    omega
  refine ⟨_, congrArg (Option.map _) (interleave_eq ids size), ?_⟩
  refine ((interleave_perm size).map _).trans ?_
  have mapped := evs.map fun row => (row, row.attemptCount)
  rwa [List.map_map] at mapped
end

theorem sampleRows_ranked :
    ∃ ranked, rankPendingRowsPython 5 (sampleRecords.map PendingRecord.event) [] [] = some ranked ∧
      ranked.length = 5 := by
  have nd : ((sampleRecords.map PendingRecord.event).map PendingRow.eventId).Nodup := by
    decide +kernel
  obtain ⟨ranked, done, perm⟩ := rankPendingRows_perm nd (Nat.le_refl 5)
  exact ⟨ranked, done, perm.length_eq⟩

end Zeus.DecisionLanes
