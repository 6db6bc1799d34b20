import Zeus.Events.LiveOrderAggregate
import Zeus.Lib.Journal

namespace Zeus.LiveOrder

open Refusal

variable {ext : Externals} {db next : Db} {call : Call}

theorem Db.withProjection_find (db : Db) (row : ProjectionRow) (aggregateId : String) :
    (db.withProjection row).projections.find aggregateId =
      if aggregateId = row.aggregateId then some row else db.projections.find aggregateId := by
  simp only [Db.withProjection]
  rw [KeyedTable.find_upsert]
  split <;> rename_i here
  · subst here
    cases hf : db.projections.find row.aggregateId with
    | none => rfl
    | some old =>
      have same := (KeyedTable.find_some hf).2
      simp [same]
  · rfl

@[simp] theorem Db.readied_events (db : Db) (projection : Option ProjectionRow) :
    (db.readied projection).events = db.events := by
  cases projection <;> rfl

theorem Db.rowFor_readied (db : Db) (projection : Option ProjectionRow) (hs : Payload) :
    (db.readied projection).rowFor ext call hs = db.rowFor ext call hs := by
  cases projection <;> rfl

variable {aggregateId : String} {projection : Option ProjectionRow} {state : ProjectionState}
  {rows : List EventRow}

theorem projectionRowForAppend_key {row : ProjectionRow}
    (read : projectionRowForAppend ext db aggregateId = .ok (some row)) :
    row.aggregateId = aggregateId := by
  unfold projectionRowForAppend at read
  split at read
  · split at read <;> cases read
  · split at read <;> rename_i cur
    · cases read
      exact (KeyedTable.find_some (Option.filter_eq_some_iff.mp cur).1).2
    · split at read <;> rename_i rebuilt
      · cases read
      · split at read
        · cases read
          unfold rebuildRow at rebuilt
          split at rebuilt
          · cases rebuilt
          · split at rebuilt <;> cases rebuilt
            rfl
        · cases read

theorem Db.readied_find_other {other : String}
    (read : projectionRowForAppend ext db aggregateId = .ok projection)
    (hne : other ≠ aggregateId) :
    (db.readied projection).projections.find other = db.projections.find other := by
  cases projection with
  | none => rfl
  | some row =>
    rw [Db.readied, Db.withProjection_find, projectionRowForAppend_key read, if_neg hne]

structure Appended (ext : Externals) (db : Db) (call : Call) (next : Db)
    (projection : Option ProjectionRow) (stored : Payload) (state : ProjectionState) : Prop where
  admitted : callRefusal db call = none
  read : projectionRowForAppend ext db call.aggregateId = .ok projection
  valid : appendRefusal ext (db.readied projection) call = none
  encoded : call.stored = some stored
  unique : db.admits (db.rowFor ext call stored) = true
  advanced : advanceProjectionState ext (projection.map ProjectionRow.state) call.eventType
    call.payload = .ok state
  events : next.events.rows = db.events.rows ++ [db.rowFor ext call stored]
  projected : next.projections.find call.aggregateId =
    some (projectionRow ext call.aggregateId state (db.events.nextSequence call.aggregateId)
        call.eventType
      (db.rowFor ext call stored).eventHash)
  others : ∀ other, other ≠ call.aggregateId →
    next.projections.find other = db.projections.find other

theorem projectAppendedEvent_ok {pl : Payload} {row : EventRow}
    (ok : projectAppendedEvent ext db projection pl row = .ok next) :
    ∃ state,
      advanceProjectionState ext (projection.map ProjectionRow.state) row.eventType pl = .ok state ∧
      next = db.withProjection (projectionRow ext row.aggregateId state row.eventSequence
            row.eventType row.eventHash) := by
  unfold projectAppendedEvent at ok
  split at ok <;> rename_i advd
  · cases ok
  · rename_i state
    refine ⟨state, advd, ?_⟩
    dsimp only at ok
    split at ok
    · split at ok
      · cases ok
      · exact (Except.ok.inj ok).symm
    · split at ok
      · exact (Except.ok.inj ok).symm
      · cases ok

theorem appendEvent_ok (acc : appendEvent ext db call = .ok next) :
    ∃ projection hs state, Appended ext db call next projection hs state := by
  unfold appendEvent at acc
  simp only [CheckedFold.bind_eq_ok, guardBy_eq_ok, require_eq_none] at acc
  obtain ⟨-, admitted, projection, read, -, valid, -, -, hs, encoded, dedup, -, -, unique,
    projected, ok, -, -, same⟩ := acc
  obtain rfl : projected = next := Except.ok.inj same
  have isStored : call.stored = some hs := by
    cases hf : call.stored with
    | none => simp [hf] at encoded
    | some pl => simpa [hf] using encoded
  obtain ⟨state, advd, rfl⟩ := projectAppendedEvent_ok ok
  rw [Db.rowFor_readied] at unique
  refine ⟨projection, hs, state, admitted, read, valid, isStored, ?_, advd, ?_, ?_, ?_⟩
  · simpa [Db.admits] using unique
  · simp [Db.withProjection, Db.insertEvent, LiveOrderEvents.append, Db.rowFor_readied]
  · rw [Db.withProjection_find, Db.rowFor_readied]
    exact if_pos rfl
  · intro other hne
    rw [Db.withProjection_find]
    exact (if_neg hne).trans (Db.readied_find_other read hne)

theorem Appended.eventsOf {hs : Payload} (app : Appended ext db call next projection hs state)
    (aggregateId : String) :
    next.eventsOf aggregateId =
      db.eventsOf aggregateId ++
        (if call.aggregateId = aggregateId then [db.rowFor ext call hs] else []) := by
  simp only [Db.eventsOf, LiveOrderEvents.ofAggregate, app.events, List.filter_append]
  congr 1
  have own : (db.rowFor ext call hs).aggregateId = call.aggregateId := rfl
  by_cases here : call.aggregateId = aggregateId <;> simp [own, here]

theorem foldState_concat (rows : List EventRow) (row : EventRow) (state : Option ProjectionState)
    (folded : foldState ext rows = .ok state) : foldState ext (rows ++ [row]) =
      (advanceProjectionState ext state row.eventType row.payload).map some :=
  CheckedFold.foldlM_concat_of_ok folded row

def FoldedTo (ext : Externals) (aggregateId : String) (rows : List EventRow)
    (projection : Option ProjectionRow) : Prop :=
  match projection with
  | none => rows = []
  | some row => rebuildRow ext aggregateId rows = .ok row

theorem rebuildRow_ok {row : ProjectionRow} (rebuilt : rebuildRow ext aggregateId rows = .ok row) :
    foldState ext rows = .ok (some row.state) := by
  unfold rebuildRow at rebuilt
  split at rebuilt
  · cases rebuilt
  · split at rebuilt <;> rename_i folded
    · cases rebuilt
    · cases rebuilt
    · cases rebuilt
      exact folded

theorem FoldedTo.foldState (folded : FoldedTo ext aggregateId rows projection) :
    foldState ext rows = .ok (projection.map ProjectionRow.state) := by
  cases projection with
  | none =>
    have empty : rows = [] := folded
    rw [empty]
    rfl
  | some row => exact rebuildRow_ok folded

theorem FoldedTo.concat (folded : FoldedTo ext aggregateId rows projection) {row : EventRow}
    (advd : advanceProjectionState ext (projection.map ProjectionRow.state) row.eventType
        row.payload = .ok state) :
    rebuildRow ext aggregateId (rows ++ [row]) =
      .ok (projectionRow ext aggregateId state row.eventSequence row.eventType row.eventHash) := by
  unfold rebuildRow
  rw [List.getLast?_concat, foldState_concat rows row _ folded.foldState, advd]
  rfl

/-- The stored projection row is the one `rebuild_projection` computes. -/
def Faithful (ext : Externals) (db : Db) (aggregateId : String) : Prop :=
  ∃ row, db.projections.find aggregateId = some row ∧
    rebuildRow ext aggregateId (db.eventsOf aggregateId) = .ok row

instance (ext : Externals) (db : Db) (aggregateId : String) :
    Decidable (Faithful ext db aggregateId) :=
  match stored : db.projections.find aggregateId,
  rebuilt : rebuildRow ext aggregateId (db.eventsOf aggregateId) with
  | none, _ => isFalse fun ⟨_, found, _⟩ => by simp [stored] at found
  | _, .error _ => isFalse fun ⟨_, _, ok⟩ => by simp [rebuilt] at ok
  | some row, .ok other =>
    if same : row = other then isTrue ⟨row, stored, same ▸ rebuilt⟩
    else isFalse fun ⟨_, found, ok⟩ => same <|
      (Option.some.inj (stored.symm.trans found)).trans (Except.ok.inj (rebuilt.symm.trans ok)).symm

def guardPasses (ext : Externals) (db : Db) (aggregateId : String) : Bool :=
  match db.latestRow aggregateId, db.projections.find aggregateId with
  | some latest, some row => projectionCurrent ext latest row
  | _, _ => false

/-- The projection row passes the ledger's guard and is not what the events fold to. -/
def Forged (ext : Externals) (db : Db) (aggregateId : String) : Prop :=
  guardPasses ext db aggregateId = true ∧ ¬ Faithful ext db aggregateId

instance (ext : Externals) (db : Db) (aggregateId : String) :
    Decidable (Forged ext db aggregateId) :=
  inferInstanceAs (Decidable (_ ∧ _))

theorem eventsOf_eq_nil (none_latest : db.latestRow aggregateId = none) :
    db.eventsOf aggregateId = [] := by
  rw [Db.latestRow, LiveOrderEvents.latest_eq, Log.latest_eq_none] at none_latest
  exact List.eq_nil_iff_forall_not_mem.mpr fun row mem => by simpa using none_latest row mem

theorem projectionRowForAppend_folded
    (read : projectionRowForAppend ext db aggregateId = .ok projection)
    (honest : ¬ Forged ext db aggregateId) :
    FoldedTo ext aggregateId (db.eventsOf aggregateId) projection := by
  unfold projectionRowForAppend at read
  split at read <;> rename_i latestRow
  · split at read
    · cases read
    · cases read
      exact eventsOf_eq_nil latestRow
  · rename_i lat
    split at read <;> rename_i cur
    · cases read
      obtain ⟨hf, passes⟩ := Option.filter_eq_some_iff.mp cur
      by_contra differs
      refine honest ⟨by rw [guardPasses, latestRow, hf]; exact passes, ?_⟩
      rintro ⟨row, found', rebuilt⟩
      obtain rfl := Option.some.inj (found'.symm.trans hf)
      exact differs rebuilt
    · split at read <;> rename_i rebuilt
      · cases read
      · split at read
        · cases read
          exact rebuilt
        · cases read

theorem appendEvent_faithful (acc : appendEvent ext db call = .ok next) (json : call.IsJson)
    (honest : ¬ Forged ext db call.aggregateId) : Faithful ext next call.aggregateId := by
  obtain ⟨projection, stored, state, app⟩ := appendEvent_ok acc
  obtain rfl : call.payload = stored := Option.some.inj (json.symm.trans app.encoded)
  have folded := projectionRowForAppend_folded app.read honest
  refine ⟨_, app.projected, ?_⟩
  rw [app.eventsOf, if_pos rfl]
  exact folded.concat app.advanced

theorem Faithful.append (faithful : Faithful ext db aggregateId)
    (acc : appendEvent ext db call = .ok next) (json : call.IsJson) :
    Faithful ext next aggregateId := by
  by_cases own : aggregateId = call.aggregateId
  · subst own
    exact appendEvent_faithful acc json fun forged => forged.2 faithful
  · obtain ⟨projection, hs, state, app⟩ := appendEvent_ok acc
    obtain ⟨row, hf, rebuilt⟩ := faithful
    refine ⟨row, (app.others aggregateId own).trans hf, ?_⟩
    rw [app.eventsOf, if_neg (Ne.symm own), List.append_nil]
    exact rebuilt

def Chained : Option String → List EventRow → Prop
  | _, [] => True
  | parent, row :: rest => row.parentEventHash = parent ∧ Chained (some row.eventHash) rest

theorem Chained.concat {par : Option String} (chained : Chained par rows)
    {row : EventRow} (names : row.parentEventHash = (rows.getLast?.map EventRow.eventHash).or par) :
    Chained par (rows ++ [row]) := by
  induction rows generalizing par with
  | nil => exact ⟨by simpa using names, trivial⟩
  | cons first rest step =>
    refine ⟨chained.1, step chained.2 ?_⟩
    rw [names, List.getLast?_cons]
    cases rest.getLast? <;> rfl

structure Numbered (db : Db) (aggregateId : String) : Prop where
  numbered : (db.eventsOf aggregateId).map (fun row => row.eventSequence) =
    List.range' 1 (db.eventsOf aggregateId).length
  chained : Chained none (db.eventsOf aggregateId)

theorem latestRow_eq_getLast (db : Db) (aggregateId : String) :
    db.latestRow aggregateId = (db.eventsOf aggregateId).getLast? := by
  rw [Db.latestRow, LiveOrderEvents.latest_eq, Log.latest]
  simp [Db.eventsOf]

theorem Numbered.nextSequence (sound : Numbered db aggregateId) :
    db.events.nextSequence aggregateId = (db.eventsOf aggregateId).length + 1 := by
  have lat := latestRow_eq_getLast db aggregateId
  unfold Db.latestRow at lat
  unfold LiveOrderEvents.nextSequence
  rw [lat]
  cases last : (db.eventsOf aggregateId).getLast? with
  | none =>
    rw [List.getLast?_eq_none_iff.mp last]
    rfl
  | some row =>
    have isLast : row.eventSequence = (db.eventsOf aggregateId).length :=
      Journal.number_getLast sound.numbered last
    simp only [isLast]

theorem Numbered.append (sound : Numbered db aggregateId) {hs : Payload}
    (app : Appended ext db call next projection hs state) : Numbered next aggregateId := by
  have rows := app.eventsOf aggregateId
  by_cases here : call.aggregateId = aggregateId
  · subst here
    rw [if_pos rfl] at rows
    constructor
    · rw [rows]
      have seq : (db.rowFor ext call hs).eventSequence = db.events.nextSequence call.aggregateId :=
        rfl
      exact Journal.map_number_concat sound.numbered (seq.trans sound.nextSequence)
    · rw [rows]
      apply sound.chained.concat
      rw [← latestRow_eq_getLast, Option.or_none]
      rfl
  · rw [if_neg here, List.append_nil] at rows
    exact ⟨by rw [rows]; exact sound.numbered, by rw [rows]; exact sound.chained⟩

theorem tampered_eventsOf (db : Db) (aggregateId other : String) (row : Option ProjectionRow) :
    (db.tampered aggregateId row).eventsOf other = db.eventsOf other := by
  cases row <;> rfl

theorem Numbered.step (sound : Numbered db aggregateId) (step : Step) :
    Numbered (db.step ext step) aggregateId := by
  cases step with
  | append call =>
    simp only [Db.step]
    split <;> rename_i out
    · obtain ⟨projection, hs, state, app⟩ := appendEvent_ok out
      exact sound.append app
    · exact sound
  | tamper other row =>
    have same := tampered_eventsOf db other aggregateId row
    exact ⟨by rw [Db.step, same]; exact sound.numbered, by rw [Db.step, same]; exact sound.chained⟩

theorem Db.run_numbered (ext : Externals) (steps : List Step) (aggregateId : String) :
    Numbered (Db.empty.run ext steps) aggregateId := by
  induction steps using List.reverseRecOn with
  | nil => exact ⟨rfl, trivial⟩
  | append_singleton steps step sound =>
    rw [Db.run_concat]
    exact sound.step step

/-- After any history of calls and damage to projection rows, one more call: the events stay
numbered and chained, a faithful row stays faithful, an accepted call makes its row faithful unless
it found a forged one, and a refused call changes nothing. -/
theorem projection_is_fold_of_events (ext : Externals) (steps : List Step) (call : Call) :
    (∀ aggregateId, Numbered (Db.empty.run ext (steps ++ [.append call])) aggregateId) ∧
    (call.IsJson → ∀ aggregateId, Faithful ext (Db.empty.run ext steps) aggregateId →
      Faithful ext (Db.empty.run ext (steps ++ [.append call])) aggregateId) ∧
    match appendEvent ext (Db.empty.run ext steps) call with
    | .ok _ => call.IsJson → ¬ Forged ext (Db.empty.run ext steps) call.aggregateId →
        Faithful ext (Db.empty.run ext (steps ++ [.append call])) call.aggregateId
    | .error _ => Db.empty.run ext (steps ++ [.append call]) = Db.empty.run ext steps := by
  refine ⟨Db.run_numbered ext _, ?_⟩
  rw [Db.run_concat]
  simp only [Db.step]
  cases out : appendEvent ext (Db.empty.run ext steps) call with
  | ok next =>
    exact ⟨fun json aggregateId faithful => faithful.append out json,
      fun json honest => appendEvent_faithful out json honest⟩
  | error error => exact ⟨fun _ _ faithful => faithful, rfl⟩

def sampleExternals : Externals where
  payloadHash := fun _ => "payload"
  eventHash := fun identity => identity.aggregateId ++ "#" ++ toString identity.eventSequence
  stateHash :=
    fun state => state.eventId ++ "|" ++ state.currentState ++ "|" ++ state.venueOrderId.getD ""
  parseInt := fun _ => none
  preSubmitValid := fun payload _ => payload.rest == "revalidation of intent-1"
  profitAuditPasses := fun _ => true

def sampleAggregate : String := "event-1:intent-1"

def sampleCall (eventType : LiveOrderEventType) (payload : Payload) : Call where
  aggregateId := sampleAggregate
  eventType
  payload
  stored := some payload
  occurredAt := "2026-05-25T18:00:00+00:00"
  sourceAuthority := .engineAdapter

def decisionCall : Call := sampleCall .decisionProofAccepted { eventId := .str "event-1" }

def planCall : Call := sampleCall .submitPlanBuilt { eventId := .str "event-1" }

/-- A row at the latest event whose hash fits its own wrong state. -/
def forgedRow : ProjectionRow :=
  projectionRow sampleExternals sampleAggregate
    { eventId := "event-1", currentState := "DECISION_PROOF_ACCEPTED",
      venueOrderId := some "wrong-order" }
    1 .decisionProofAccepted "event-1:intent-1#1"

def damagedRow : ProjectionRow := { forgedRow with projectionStateHash := none }

theorem projection_is_fold_of_events_sample :
    ¬ Faithful sampleExternals (Db.empty.run sampleExternals
          [.append decisionCall, .tamper sampleAggregate (some damagedRow)]) sampleAggregate ∧
      Faithful sampleExternals (Db.empty.run sampleExternals
          ([.append decisionCall, .tamper sampleAggregate (some damagedRow)] ++ [.append planCall]))
        sampleAggregate := by
  refine ⟨by decide +kernel, ?_⟩
  have fold := (projection_is_fold_of_events sampleExternals
    [.append decisionCall, .tamper sampleAggregate (some damagedRow)] planCall).2.2
  cases out : appendEvent sampleExternals (Db.empty.run sampleExternals
      [.append decisionCall, .tamper sampleAggregate (some damagedRow)]) planCall with
  | ok next =>
    rw [out] at fold
    exact fold rfl (by decide +kernel)
  | error error =>
    have acc : (appendEvent sampleExternals (Db.empty.run sampleExternals
      [.append decisionCall, .tamper sampleAggregate (some damagedRow)]) planCall).isOk = true := by
      decide +kernel
    rw [out] at acc
    cases acc

/-- The payload's event id is a value whose text changes when it is stored. -/
def rawIdCall : Call :=
  { decisionCall with
    payload := { eventId := .object "decimal" true "1.0" }
    stored := some { eventId := .str "1" } }

/-- A row with the hash of its own wrong state passes the guard and survives an append, and a
payload that JSON rewrites is projected as given, not as stored. -/
theorem unfaithful_projections :
    ¬ ((appendEvent sampleExternals (Db.empty.run sampleExternals
              [.append decisionCall, .tamper sampleAggregate (some forgedRow)]) planCall).isOk =
          true →
        Faithful sampleExternals (Db.empty.run sampleExternals ([.append decisionCall,
                .tamper sampleAggregate (some forgedRow)] ++ [.append planCall])) sampleAggregate) ∧
      ¬ ((appendEvent sampleExternals Db.empty rawIdCall).isOk = true →
          Faithful sampleExternals (Db.empty.run sampleExternals [.append rawIdCall])
            sampleAggregate) := by
  constructor
  · decide +kernel
  · decide +kernel

end Zeus.LiveOrder
