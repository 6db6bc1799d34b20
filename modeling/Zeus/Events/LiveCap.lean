import Zeus.Lib.KeyedTable
import Zeus.Lib.PyFloat

/-! `LiveCapLedger` reserves an event for one live order. Two retired scopes remain readable, and a
live reservation of theirs counts for the current scope as well. -/

namespace Zeus.LiveCap

inductive Status where
  | reserved | released | consumed | rejected
  deriving DecidableEq

/-- A row of `edli_live_cap_usage`. -/
structure UsageRow where
  (usageId eventId decisionTime capScope : String)
  maxNotionalUsd : PyFloat
  maxOrdersPerDay : ℕ
  reservedNotionalUsd : PyFloat
  orderCount : ℕ
  status : Status
  (finalIntentId executionCommandId : Option String)
  createdAt : String
  schemaVersion : ℕ
  deriving DecidableEq

def liveExecutionReservationScope : String := "live_execution_reservation"

def legacyLiveReservationScopes : List String := ["tiny_live_canary", "live_canary"]

namespace UsageRow

variable (row : UsageRow)

def identity : String × String := (row.eventId, row.capScope)

def live : Bool := row.status = .reserved ∨ row.status = .consumed

def current : Bool := row.capScope = liveExecutionReservationScope

def legacy : Bool := row.capScope ∈ legacyLiveReservationScopes

end UsageRow

/-- The table, with its primary key and the unique pair of event and scope. -/
structure Usage where
  table : KeyedTable UsageRow.usageId
  unique : (table.rows.map UsageRow.identity).Nodup

namespace Usage

variable (usage : Usage)

def rows : List UsageRow := usage.table.rows

def update (usageId : String) (f : UsageRow → UsageRow)
    (keepId : ∀ row, (f row).usageId = row.usageId)
    (keep : ∀ row, (f row).identity = row.identity) : Usage where
  table := usage.table.modify usageId f keepId
  unique := by
    have same :
        (usage.table.modify usageId f keepId).rows.map UsageRow.identity =
          usage.rows.map UsageRow.identity := by
      refine List.map_map.trans (List.map_congr_left fun row _ => ?_)
      by_cases here : row.usageId = usageId <;> simp [here, keep]
    rw [same]
    exact usage.unique

/-- INSERT; none if a key is taken, or a notional is not a number, which is stored as NULL. -/
def insert (row : UsageRow) : Option Usage :=
  if fresh : usage.table.find row.usageId = none then
    if free : row.identity ∉ usage.rows.map UsageRow.identity then
      if row.reservedNotionalUsd = .nan ∨ row.maxNotionalUsd = .nan then none
      else some
        { table := usage.table.insert row fresh
          unique := by
            show ((usage.rows ++ [row]).map UsageRow.identity).Nodup
            rw [List.map_append, List.nodup_append]
            refine ⟨usage.unique, List.nodup_singleton _, ?_⟩
            rintro identity taken other last rfl
            exact free (List.mem_singleton.mp last ▸ taken) }
    else none
  else none

def find (eventId capScope : String) : Option UsageRow :=
  usage.rows.find? fun row => row.identity = (eventId, capScope)

def legacyLive (eventId : String) : Option UsageRow :=
  ((usage.rows.filter fun row => row.eventId = eventId ∧ row.legacy ∧ row.live).insertionSort
      fun row other =>
    other.createdAt ≤ row.createdAt).head?

def existing (eventId capScope : String) : Option UsageRow :=
  match usage.find eventId capScope with
  | some row => some row
  | none => if capScope = liveExecutionReservationScope then usage.legacyLive eventId else none

end Usage

/-- A row of `edli_live_cap_day_slots` or `edli_live_cap_rate_window`. -/
structure Slot where
  (capScope period : String)
  slot : ℕ
  (usageId eventId : String)
  deriving DecidableEq

structure Db where
  usage : Usage
  (daySlots rateWindow : List Slot)

structure Reservation where
  (usageId eventId decisionTime capScope : String)
  reservedNotionalUsd : PyFloat
  status : Status
  (finalIntentId executionCommandId : Option String)
  deriving DecidableEq

/-- `_reservation_from_row`. -/
def UsageRow.reservation (row : UsageRow) : Reservation :=
  ⟨row.usageId, row.eventId, row.decisionTime, row.capScope, row.reservedNotionalUsd, row.status,
    row.finalIntentId, row.executionCommandId⟩

inductive Refusal where
  | notionalNotPositive | drift | notFound | consumedCannotBeReleased | consumeRequiresIds
  | onlyReservedConsumed
  | integrity
  deriving DecidableEq

def Refusal.text : Refusal → String
  | .notionalNotPositive => "requested_notional_usd must be positive"
  | .drift => "live cap reservation drift for event/cap_scope"
  | .notFound => "live cap reservation not found"
  | .consumedCannotBeReleased => "consumed live cap reservation cannot be released"
  | .consumeRequiresIds => "consume requires final_intent_id and execution_command_id"
  | .onlyReservedConsumed => "only RESERVED live cap reservations can be consumed"
  | .integrity => "constraint failed"

structure Request where
  (eventId decisionTime capScope : String)
  requestedNotionalUsd : PyFloat
  (finalIntentId executionCommandId : Option String)
  createdAt : String
  deriving DecidableEq

def UsageRow.reopened (request : Request) (row : UsageRow) : UsageRow :=
  { row with
    decisionTime := request.decisionTime
    maxNotionalUsd := request.requestedNotionalUsd
    reservedNotionalUsd := request.requestedNotionalUsd
    status := .reserved
    finalIntentId := request.finalIntentId
    executionCommandId := request.executionCommandId
    createdAt := request.createdAt }

def UsageRow.freed (row : UsageRow) : UsageRow := { row with status := .released }

def UsageRow.spent (finalIntentId executionCommandId : String) (row : UsageRow) : UsageRow :=
  { row with
    status := .consumed
    finalIntentId := some finalIntentId
    executionCommandId := some executionCommandId }

def Request.row (request : Request) (usageId : String) : UsageRow where
  usageId
  eventId := request.eventId
  decisionTime := request.decisionTime
  capScope := request.capScope
  maxNotionalUsd := request.requestedNotionalUsd
  maxOrdersPerDay := 1
  reservedNotionalUsd := request.requestedNotionalUsd
  orderCount := 1
  status := .reserved
  finalIntentId := request.finalIntentId
  executionCommandId := request.executionCommandId
  createdAt := request.createdAt
  schemaVersion := 1

def Request.reservation (request : Request) (usageId : String) : Reservation :=
  ⟨usageId, request.eventId, request.decisionTime, request.capScope, request.requestedNotionalUsd,
    .reserved, request.finalIntentId, request.executionCommandId⟩

/-- A live row was reserved with other values; an id that is not given is not compared. -/
def Request.drifts (request : Request) (row : UsageRow) : Bool :=
  !row.reservedNotionalUsd.same request.requestedNotionalUsd ||
    (request.finalIntentId.isSome && row.finalIntentId ≠ request.finalIntentId) ||
    (request.executionCommandId.isSome && row.executionCommandId ≠ request.executionCommandId)

section
-- `_usage_id`: the hash of an event and a scope
variable (usageIdOf : String → String → String)

def reserve (db : Db) (request : Request) : Db × Except Refusal Reservation :=
  if request.requestedNotionalUsd.le .zero then (db, .error .notionalNotPositive)
  else
    match db.usage.existing request.eventId request.capScope with
    | some row =>
      if row.status = .released then
        -- the NULL that stands for not-a-number is refused
        if request.requestedNotionalUsd = .nan then (db, .error .integrity)
        else
          ({ db with
              usage := db.usage.update row.usageId (.reopened request) (fun _ => rfl)
                fun _ => rfl },
            .ok (request.reservation row.usageId))
      else if request.drifts row then (db, .error .drift)
      else (db, .ok row.reservation)
    | none =>
      match db.usage.insert (request.row (usageIdOf request.eventId request.capScope)) with
      | none => (db, .error .integrity)
      | some usage =>
        ({ db with usage }, .ok (request.reservation (usageIdOf request.eventId request.capScope)))

def release (db : Db) (usageId : String) : Db × Except Refusal Unit :=
  match db.usage.table.find usageId with
  | none => (db, .error .notFound)
  | some row =>
    if row.status = .consumed then (db, .error .consumedCannotBeReleased)
    else
      ({ usage := db.usage.update usageId .freed (fun _ => rfl) fun _ => rfl
         daySlots := db.daySlots.filter fun slot => slot.usageId ≠ usageId
         rateWindow := db.rateWindow.filter fun slot => slot.usageId ≠ usageId }, .ok ())

def consume (db : Db) (usageId finalIntentId executionCommandId : String) :
    Db × Except Refusal Unit :=
  if finalIntentId = "" ∨ executionCommandId = "" then (db, .error .consumeRequiresIds)
  else
    match db.usage.table.find usageId with
    | none => (db, .error .notFound)
    | some row =>
      if row.status ≠ .reserved then (db, .error .onlyReservedConsumed)
      else
        ({ db with
           usage := db.usage.update usageId (.spent finalIntentId executionCommandId) (fun _ => rfl)
             fun _ => rfl },
          .ok ())

inductive Call where
  | reserve (eventId decisionTime : String) (requestedNotionalUsd : PyFloat)
      (finalIntentId executionCommandId : Option String) (createdAt : String)
  | release (usageId : String)
  | consume (usageId finalIntentId executionCommandId : String)
  deriving DecidableEq

def step (db : Db) : Call → Db × Except Refusal (Option Reservation)
  | .reserve eventId decisionTime requested finalIntentId executionCommandId createdAt =>
    let done := LiveCap.reserve usageIdOf db
      ⟨eventId, decisionTime, liveExecutionReservationScope, requested, finalIntentId,
        executionCommandId, createdAt⟩
    (done.1, done.2.map some)
  | .release usageId =>
    let done := LiveCap.release db usageId
    (done.1, done.2.map fun _ => none)
  | .consume usageId finalIntentId executionCommandId =>
    let done := LiveCap.consume db usageId finalIntentId executionCommandId
    (done.1, done.2.map fun _ => none)

def run (db : Db) (calls : List Call) : Db :=
  calls.foldl (fun db call => (step usageIdOf db call).1) db
end

namespace Usage

/-- No event has two live rows, in the current scope and the retired ones. -/
def AtMostOneLive (usage : Usage) : Prop :=
  ∀ row ∈ usage.rows, ∀ other ∈ usage.rows, row.eventId = other.eventId →
    (row.current || row.legacy) = true →
    (other.current || other.legacy) = true → row.live = true → other.live = true → row = other

/-- No row of the current scope, live or not, stands beside a live row of a retired one. -/
def Unshadowed (usage : Usage) : Prop :=
  ∀ row ∈ usage.rows, ∀ other ∈ usage.rows, row.eventId = other.eventId → row.current = true →
    other.legacy = true → other.live = false

/-- What a call may do to the rows: it makes no row of a retired scope live, it adds a row of the
current scope only to an event without a live one, and it keeps what is consumed. -/
structure Follows (before after : Usage) : Prop where
  legacy : ∀ row ∈ after.rows, row.legacy = true → row.live = true →
    ∃ old ∈ before.rows, old.identity = row.identity ∧ old.live = true
  current : ∀ row ∈ after.rows, row.current = true →
    (∃ old ∈ before.rows, old.identity = row.identity) ∨
      ∀ other ∈ before.rows, other.eventId = row.eventId → other.legacy = true → other.live = false
  consumed : ∀ row ∈ before.rows, row.status = .consumed → row ∈ after.rows

variable {usage before after : Usage} {row other : UsageRow}

theorem Follows.refl (usage : Usage) : usage.Follows usage :=
  ⟨fun row mem _ alive => ⟨row, mem, rfl, alive⟩, fun row mem _ => .inl ⟨row, mem, rfl⟩,
    fun _ mem _ => mem⟩

theorem eq_of_identity (mem : row ∈ usage.rows) (snd : other ∈ usage.rows)
    (same : row.identity = other.identity) : row = other :=
  List.inj_on_of_nodup_map usage.unique mem snd same

theorem legacy_of_identity (same : row.identity = other.identity) : row.legacy = other.legacy := by
  have scope : row.capScope = other.capScope := congrArg Prod.snd same
  simp only [UsageRow.legacy, scope]

theorem not_legacy_of_current (here : row.current = true) : row.legacy = false := by
  have scope : row.capScope = liveExecutionReservationScope := of_decide_eq_true here
  simp only [UsageRow.legacy, scope]
  decide

theorem Follows.unshadowed (hfo : before.Follows after) (clear : before.Unshadowed) :
    after.Unshadowed := by
  intro row mem other snd event here retired
  by_contra alive
  obtain ⟨old, hs, same, wasAlive⟩ := hfo.legacy other snd retired (by simpa using alive)
  have oldEvent : old.eventId = other.eventId := congrArg Prod.fst same
  have oldRetired : old.legacy = true := (legacy_of_identity same).trans retired
  rcases hfo.current row mem here with ⟨beside, hp, sameBeside⟩ | free
  · have besideEvent : beside.eventId = row.eventId := congrArg Prod.fst sameBeside
    have besideScope : beside.capScope = row.capScope := congrArg Prod.snd sameBeside
    have besideHere : beside.current = true := by
      simpa only [UsageRow.current, besideScope] using here
    have dead :=
      clear beside hp old hs (besideEvent.trans (event.trans oldEvent.symm)) besideHere oldRetired
    exact absurd wasAlive (by simp [dead])
  · exact absurd wasAlive (by simp [free old hs (oldEvent.trans event.symm) oldRetired])

/-- Two live rows of one event are both of the current scope, hence the same row, or both of retired
scopes. -/
theorem Follows.atMostOneLive (hfo : before.Follows after) (clear : before.Unshadowed)
    (one : before.AtMostOneLive) : after.AtMostOneLive := by
  have clearAfter := hfo.unshadowed clear
  intro row mem other snd event scopes scopesOther alive aliveOther
  by_cases here : row.current = true
  · by_cases hereOther : other.current = true
    · apply eq_of_identity mem snd
      exact Prod.ext event ((of_decide_eq_true here).trans (of_decide_eq_true hereOther).symm)
    · have retired : other.legacy = true := by simpa [hereOther] using scopesOther
      exact absurd aliveOther (by simp [clearAfter row mem other snd event here retired])
  · have retired : row.legacy = true := by simpa [here] using scopes
    by_cases hereOther : other.current = true
    · exact absurd alive (by simp [clearAfter other snd row mem event.symm hereOther retired])
    · have retiredOther : other.legacy = true := by simpa [hereOther] using scopesOther
      obtain ⟨old, hs, same, wasAlive⟩ := hfo.legacy row mem retired alive
      obtain ⟨oldOther, hsO, sameOther, wasAliveOther⟩ :=
        hfo.legacy other snd retiredOther aliveOther
      have oldEvent : old.eventId = oldOther.eventId :=
        (congrArg Prod.fst same).trans (event.trans (congrArg Prod.fst sameOther).symm)
      have olds : old = oldOther := by
        apply one old hs oldOther hsO oldEvent _ _ wasAlive wasAliveOther
        · simp [legacy_of_identity same, retired]
        · simp [legacy_of_identity sameOther, retiredOther]
      apply eq_of_identity mem snd
      rw [← same, ← sameOther, olds]

variable {f : UsageRow → UsageRow}

theorem mem_update {usageId : String} {keepId : ∀ row, (f row).usageId = row.usageId}
    {keep : ∀ row, (f row).identity = row.identity} :
    row ∈ (usage.update usageId f keepId keep).rows ↔
      ∃ old ∈ usage.rows, (if old.usageId = usageId then f old else old) = row := by
  simp [rows, update, KeyedTable.modify, KeyedTable.modifyWhere]

theorem mem_update_self {keepId : ∀ row, (f row).usageId = row.usageId}
    {keep : ∀ row, (f row).identity = row.identity} (mem : row ∈ usage.rows) :
    f row ∈ (usage.update row.usageId f keepId keep).rows :=
  mem_update.mpr ⟨row, mem, if_pos rfl⟩

theorem mem_update_other {usageId : String} {keepId : ∀ row, (f row).usageId = row.usageId}
    {keep : ∀ row, (f row).identity = row.identity} (mem : row ∈ usage.rows)
    (other : row.usageId ≠ usageId) : row ∈ (usage.update usageId f keepId keep).rows :=
  mem_update.mpr ⟨row, mem, if_neg other⟩

theorem follows_update (f : UsageRow → UsageRow) (keepId : ∀ row, (f row).usageId = row.usageId)
    (keep : ∀ row, (f row).identity = row.identity) (mem : row ∈ usage.rows)
    (open_ : row.status ≠ .consumed)
    (revives : row.legacy = true → (f row).live = true → row.live = true) :
    usage.Follows (usage.update row.usageId f keepId keep) := by
  have only : ∀ old ∈ usage.rows, old.usageId = row.usageId → old = row := fun old hs same =>
    List.inj_on_of_nodup_map usage.table.nodup hs mem same
  refine ⟨fun new hp retired alive => ?_, fun new hp _ => ?_, fun old hs done => ?_⟩
  · obtain ⟨old, hs, rfl⟩ := mem_update.mp hp
    by_cases here : old.usageId = row.usageId
    · rw [if_pos here] at retired alive ⊢
      cases only old hs here
      exact ⟨row, mem, (keep row).symm,
        revives ((legacy_of_identity (keep row)).symm.trans retired) alive⟩
    · rw [if_neg here] at alive ⊢
      exact ⟨old, hs, rfl, alive⟩
  · obtain ⟨old, hs, rfl⟩ := mem_update.mp hp
    refine .inl ⟨old, hs, ?_⟩
    split
    · exact (keep old).symm
    · rfl
  · apply mem_update_other hs
    intro here
    exact open_ (only old hs here ▸ done)

theorem rows_insert (ins : before.insert row = some after) : after.rows = before.rows ++ [row] := by
  unfold insert at ins
  split at ins
  · split at ins
    · split at ins
      · cases ins
      · cases ins
        rfl
    · cases ins
  · cases ins

theorem follows_insert (ins : before.insert row = some after) (here : row.current = true)
    (free : ∀ other ∈ before.rows, other.eventId = row.eventId → other.legacy = true →
        other.live = false) : before.Follows after := by
  refine ⟨fun new hp retired alive => ?_, fun new hp _ => ?_, fun old hs _ => ?_⟩
  · rw [rows_insert ins, List.mem_append, List.mem_singleton] at hp
    rcases hp with hs | rfl
    · exact ⟨new, hs, rfl, alive⟩
    · exact absurd retired (by simp [not_legacy_of_current here])
  · rw [rows_insert ins, List.mem_append, List.mem_singleton] at hp
    rcases hp with hs | rfl
    · exact .inl ⟨new, hs, rfl⟩
    · exact .inr free
  · rw [rows_insert ins]
    exact List.mem_append_left _ hs

theorem mem_of_find {eid capScope : String} (hf : usage.find eid capScope = some row) :
    row ∈ usage.rows ∧ row.identity = (eid, capScope) :=
  ⟨List.mem_of_find?_eq_some hf, by simpa using List.find?_some hf⟩

theorem find_of_mem (mem : row ∈ usage.rows) : usage.find row.eventId row.capScope = some row := by
  cases hf : usage.find row.eventId row.capScope with
  | none =>
    have missed : ¬ row.identity = (row.eventId, row.capScope) := by
      simpa using List.find?_eq_none.mp hf row mem
    exact absurd rfl missed
  | some other =>
    obtain ⟨hs, same⟩ := mem_of_find hf
    exact congrArg some (eq_of_identity hs mem same)

theorem mem_of_legacyLive {eid : String} (hf : usage.legacyLive eid = some row) :
    row ∈ usage.rows ∧ row.live = true := by
  have kept := List.mem_filter.mp ((List.mem_insertionSort _).mp (List.mem_of_mem_head? hf))
  exact ⟨kept.1, (of_decide_eq_true kept.2).2.2⟩

theorem existing_some {eid capScope : String} (hf : usage.existing eid capScope = some row) :
    row ∈ usage.rows ∧ (row.identity = (eid, capScope) ∨ row.live = true) := by
  unfold existing at hf
  split at hf
  · rename_i own ownFound
    cases hf
    obtain ⟨mem, same⟩ := mem_of_find ownFound
    exact ⟨mem, .inl same⟩
  · split at hf
    · obtain ⟨mem, alive⟩ := mem_of_legacyLive hf
      exact ⟨mem, .inr alive⟩
    · cases hf

theorem existing_none {eid : String}
    (hab : usage.existing eid liveExecutionReservationScope = none) :
    ∀ other ∈ usage.rows, other.eventId = eid → other.legacy = true → other.live = false := by
  intro other mem event retired
  unfold existing at hab
  split at hab
  · cases hab
  · rw [if_pos rfl] at hab
    have empty := List.head?_eq_none_iff.mp hab
    by_contra alive
    have kept : other ∈ usage.rows.filter fun row => row.eventId = eid ∧ row.legacy ∧ row.live :=
      List.mem_filter.mpr ⟨mem, decide_eq_true ⟨event, retired, by simpa using alive⟩⟩
    have sorted :=
      (List.mem_insertionSort fun row other : UsageRow => other.createdAt ≤ row.createdAt).mpr kept
    rw [empty] at sorted
    cases sorted

end Usage

section
variable (usageIdOf : String → String → String) (db : Db)

theorem reserve_follows (req : Request) (scope : req.capScope = liveExecutionReservationScope) :
    db.usage.Follows (reserve usageIdOf db req).1.usage := by
  unfold reserve
  split
  · exact .refl _
  · split
    · rename_i row hf
      obtain ⟨mem, known⟩ := Usage.existing_some hf
      split
      · rename_i freed
        split
        · exact .refl _
        · refine Usage.follows_update (.reopened req) (fun _ => rfl) (fun _ => rfl) mem
            (by simp [freed]) ?_
          intro retired _
          -- a released row is not live, so it is the row of the current scope
          rcases known with own | alive
          · have here : row.current = true := decide_eq_true ((congrArg Prod.snd own).trans scope)
            exact absurd retired (by simp [Usage.not_legacy_of_current here])
          · exact alive
      · split
        · exact .refl _
        · exact .refl _
    · rename_i hab
      rw [scope] at hab
      split
      · exact .refl _
      · rename_i usage ins
        exact Usage.follows_insert ins (decide_eq_true scope) (Usage.existing_none hab)

theorem release_follows (usageId : String) : db.usage.Follows (release db usageId).1.usage := by
  unfold release
  split
  · exact .refl _
  · rename_i row hf
    obtain ⟨mem, rfl⟩ := KeyedTable.find_some hf
    split
    · exact .refl _
    · rename_i open_
      refine Usage.follows_update .freed (fun _ => rfl) (fun _ => rfl) mem open_ ?_
      intro _ alive
      cases alive

theorem consume_follows (usageId fid xid : String) :
    db.usage.Follows (consume db usageId fid xid).1.usage := by
  unfold consume
  split
  · exact .refl _
  · split
    · exact .refl _
    · rename_i row hf
      obtain ⟨mem, rfl⟩ := KeyedTable.find_some hf
      split
      · exact .refl _
      · rename_i resd
        have status : row.status = .reserved := not_not.mp resd
        refine Usage.follows_update (.spent fid xid) (fun _ => rfl) (fun _ => rfl) mem
          (by simp [status]) ?_
        intro _ _
        simp [UsageRow.live, status]

theorem step_follows (call : Call) : db.usage.Follows (step usageIdOf db call).1.usage := by
  cases call with
  | reserve eid dtime reqd fid xid createdAt =>
    exact reserve_follows usageIdOf db _ rfl
  | release usageId => exact release_follows db usageId
  | consume usageId fid xid =>
    exact consume_follows db usageId fid xid

variable {refusal : Refusal}

theorem reserve_of_error {req : Request} :
    (reserve usageIdOf db req).2 = .error refusal → (reserve usageIdOf db req).1 = db := by
  unfold reserve
  split
  · exact fun _ => rfl
  · split
    · split
      · split
        · exact fun _ => rfl
        · intro refused
          cases refused
      · split
        · exact fun _ => rfl
        · exact fun _ => rfl
    · split
      · exact fun _ => rfl
      · intro refused
        cases refused

theorem release_of_error {usageId : String} :
    (release db usageId).2 = .error refusal → (release db usageId).1 = db := by
  unfold release
  split
  · exact fun _ => rfl
  · split
    · exact fun _ => rfl
    · intro refused
      cases refused

theorem consume_of_error {usageId fid xid : String} :
    (consume db usageId fid xid).2 = .error refusal →
      (consume db usageId fid xid).1 = db := by
  unfold consume
  split
  · exact fun _ => rfl
  · split
    · exact fun _ => rfl
    · split
      · exact fun _ => rfl
      · intro refused
        cases refused

theorem eq_error_of_map {α β : Type} {result : Except Refusal α} {f : α → β}
    (mapped : result.map f = .error refusal) : result = .error refusal := by
  cases result with
  | error other => exact congrArg Except.error (Except.error.inj mapped)
  | ok v => cases mapped

theorem step_of_error {call : Call} (refused : (step usageIdOf db call).2 = .error refusal) :
    (step usageIdOf db call).1 = db := by
  cases call with
  | reserve eid dtime reqd fid xid createdAt =>
    exact reserve_of_error usageIdOf db (eq_error_of_map refused)
  | release usageId => exact release_of_error db (eq_error_of_map refused)
  | consume usageId fid xid => exact consume_of_error db (eq_error_of_map refused)

theorem run_atMostOneLive {db : Db} (one : db.usage.AtMostOneLive) (clear : db.usage.Unshadowed)
    (calls : List Call) : (run usageIdOf db calls).usage.AtMostOneLive := by
  induction calls generalizing db with
  | nil => exact one
  | cons call calls ih =>
    have hfo := step_follows usageIdOf db call
    exact ih (hfo.atMostOneLive clear one) (hfo.unshadowed clear)

theorem run_consumed {db : Db} {row : UsageRow} (mem : row ∈ db.usage.rows)
    (done : row.status = .consumed) (calls : List Call) :
    row ∈ (run usageIdOf db calls).usage.rows := by
  induction calls generalizing db with
  | nil => exact mem
  | cons call calls ih => exact ih ((step_follows usageIdOf db call).consumed row mem done)

theorem release_of_open {row : UsageRow} (mem : row ∈ db.usage.rows)
    (open_ : row.status ≠ .consumed) :
    (release db row.usageId).1.usage =
      db.usage.update row.usageId .freed (fun _ => rfl) fun _ => rfl := by
  have hf : db.usage.table.find row.usageId = some row := KeyedTable.find_of_mem mem
  unfold release
  rw [hf]
  simp only [if_neg open_]

theorem reserve_of_released {req : Request} {row : UsageRow} (mem : row ∈ db.usage.rows)
    (same : row.identity = (req.eventId, req.capScope)) (freed : row.status = .released)
    (pos : req.requestedNotionalUsd.le .zero = false) (number : req.requestedNotionalUsd ≠ .nan) :
    (reserve usageIdOf db req).1.usage =
      db.usage.update row.usageId (.reopened req) (fun _ => rfl) fun _ => rfl := by
  have event : row.eventId = req.eventId := congrArg Prod.fst same
  have scope : row.capScope = req.capScope := congrArg Prod.snd same
  have own : db.usage.existing req.eventId req.capScope = some row := by
    rw [Usage.existing, ← event, ← scope, Usage.find_of_mem mem]
  unfold reserve
  rw [own]
  simp only [pos, freed, number, Bool.false_eq_true, if_false, if_true]

theorem exists_two_live {db : Db} (one : db.usage.AtMostOneLive)
    (shadowed : ¬ db.usage.Unshadowed) :
    ∃ calls, ¬ (run usageIdOf db calls).usage.AtMostOneLive := by
  simp only [Usage.Unshadowed, not_forall, Bool.not_eq_false] at shadowed
  obtain ⟨row, mem, other, snd, event, here, retired, alive⟩ := shadowed
  have scope : row.capScope = liveExecutionReservationScope := of_decide_eq_true here
  have hne : row ≠ other := by
    rintro rfl
    exact absurd retired (by simp [Usage.not_legacy_of_current here])
  have open_ : row.status ≠ .consumed := by
    intro done
    have both : row.live = true := by simp [UsageRow.live, done]
    exact hne (one row mem other snd event (by simp [here]) (by simp [retired]) both alive)
  have ids : other.usageId ≠ row.usageId := fun same =>
    hne (List.inj_on_of_nodup_map db.usage.table.nodup mem snd same.symm)
  let request : Request :=
    ⟨row.eventId, row.decisionTime, liveExecutionReservationScope, .finite 1, none, none,
      row.createdAt⟩
  refine ⟨[.release row.usageId,
      .reserve row.eventId row.decisionTime (.finite 1) none none row.createdAt], ?_⟩
  have rel : (release db row.usageId).1.usage =
      db.usage.update row.usageId .freed (fun _ => rfl) fun _ => rfl :=
    release_of_open db mem open_
  have freedMember : row.freed ∈ (release db row.usageId).1.usage.rows :=
    rel ▸ Usage.mem_update_self mem
  have otherMember : other ∈ (release db row.usageId).1.usage.rows :=
    rel ▸ Usage.mem_update_other snd ids
  have reopened :=
    @reserve_of_released usageIdOf (release db row.usageId).1 request row.freed freedMember
    (Prod.ext rfl scope) rfl rfl (by simp [request])
  intro after
  have rowMember : row.freed.reopened request ∈
      (reserve usageIdOf (release db row.usageId).1 request).1.usage.rows :=
    reopened ▸ Usage.mem_update_self freedMember
  have keptMember : other ∈ (reserve usageIdOf (release db row.usageId).1 request).1.usage.rows :=
    reopened ▸ Usage.mem_update_other otherMember ids
  have current : (row.freed.reopened request).current = true := here
  exact ids (congrArg UsageRow.usageId
    (after _ rowMember other keptMember event (by simp [current]) (by simp [retired]) rfl
        alive)).symm
end

/-- From a table with at most one live row an event, every sequence of calls keeps it so just when
no row of the current scope stands beside a live row of a retired one. From any table, a consumed
row stays, and a refused call changes nothing. -/
theorem one_live_reservation (usageIdOf : String → String → String) (db : Db) :
    (db.usage.AtMostOneLive →
      ((∀ calls, (run usageIdOf db calls).usage.AtMostOneLive) ↔ db.usage.Unshadowed)) ∧
    (∀ calls, ∀ row ∈ db.usage.rows, row.status = .consumed →
        row ∈ (run usageIdOf db calls).usage.rows) ∧
    ∀ calls call refusal, (step usageIdOf (run usageIdOf db calls) call).2 = .error refusal →
      (step usageIdOf (run usageIdOf db calls) call).1 = run usageIdOf db calls := by
  refine ⟨fun one => ⟨fun always => ?_, run_atMostOneLive usageIdOf one⟩,
    fun calls row mem done => run_consumed usageIdOf mem done calls,
    fun calls call refusal refused => step_of_error usageIdOf (run usageIdOf db calls) refused⟩
  by_contra shadowed
  obtain ⟨calls, two⟩ := exists_two_live usageIdOf one shadowed
  exact two (always calls)

def sampleRow (usageId capScope : String) (status : Status) : UsageRow where
  usageId
  eventId := "event"
  decisionTime := "2026-06-08T00:00:00+00:00"
  capScope
  maxNotionalUsd := .finite 5
  maxOrdersPerDay := 1
  reservedNotionalUsd := .finite 5
  orderCount := 1
  status
  finalIntentId := none
  executionCommandId := none
  createdAt := "2026-06-08T00:00:00+00:00"
  schemaVersion := 1

def sampleDb : Db where
  usage :=
    { table := ⟨[sampleRow "old" "live_canary" .consumed,
          sampleRow "new" "live_execution_reservation" .released],
        by decide⟩
      unique := by decide }
  daySlots := []
  rateWindow := []

theorem reopened_beside_legacy : sampleDb.usage.AtMostOneLive ∧
      ¬ (run (fun eid capScope => eid ++ capScope) sampleDb
      [.reserve "event" "2026-06-09" (.finite 7) none none "2026-06-09"]).usage.AtMostOneLive := by
  constructor
  · unfold Usage.AtMostOneLive
    decide +kernel
  · unfold Usage.AtMostOneLive
    decide +kernel

end Zeus.LiveCap
