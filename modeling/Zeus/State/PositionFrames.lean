import Zeus.Lib.Run
import Zeus.State.PositionCurrent

/-! The merges of `upsert_position_current` run one after the other, each on what the previous one
left, and the write then replaces every column. -/

namespace Zeus.PositionCurrent

/-- The chain columns without the state, which a monitor refresh may set to `synced`. -/
def ChainObservation.facts (chain : ChainObservation) : ChainObservation :=
  { chain with chainState := none }

def Projection.replays (projection : Projection) : Prop :=
  (projection.phase.any fun phase => phase ∈ openPhases) ∧
    blank projection.chain.chainSeenAt ∧
    blank projection.chain.chainAbsenceAt

def Columns.money (columns : Columns) : EntryRecord × ChainObservation × Option ℚ :=
  (columns.entry, columns.chain, columns.realizedPnlUsd)

section
variable {current : Row} {eventType : Option PositionEventType} {projection : Projection}

theorem monitorRefresh_kept :
    (preserveExistingMonitorRefreshAuthority current (some .monitorRefreshed) projection).entry =
      current.entry ∧
    (preserveExistingMonitorRefreshAuthority current (some .monitorRefreshed)
        projection).chain.facts = current.chain.facts := by
  unfold preserveExistingMonitorRefreshAuthority
  by_cases held : current.exitProtected
  · simp only [held, if_true]
    split_ifs <;> exact ⟨rfl, rfl⟩
  · simp only [held, if_true, if_false]
    split_ifs <;> exact ⟨rfl, rfl⟩

theorem monitorRefresh_realizedPnlUsd (given : projection.realizedPnlUsd.isSome) :
    (preserveExistingMonitorRefreshAuthority current eventType
        projection).realizedPnlUsd.isSome := by
  unfold preserveExistingMonitorRefreshAuthority
  by_cases held : current.exitProtected
  · simp only [held, if_true]
    split_ifs <;> simp [preservePendingExitColumns, given]
  · simp only [held, if_false]
    split_ifs <;> simp [given]

theorem chainAuthority_kept :
    (preserveExistingChainAuthorityWithoutNewObservation current projection).entry =
      projection.entry ∧
    (preserveExistingChainAuthorityWithoutNewObservation current projection).realizedPnlUsd =
      projection.realizedPnlUsd := by
  unfold preserveExistingChainAuthorityWithoutNewObservation
  split_ifs <;> exact ⟨rfl, rfl⟩

theorem chainAuthority_facts_of_kept (kept : projection.chain.facts = current.chain.facts) :
    (preserveExistingChainAuthorityWithoutNewObservation current projection).chain.facts =
      current.chain.facts := by
  unfold preserveExistingChainAuthorityWithoutNewObservation
  split_ifs
  · rfl
  · exact kept

theorem chainAuthority_of_replays (replays : projection.replays) (pos : current.chain.positive) :
    (preserveExistingChainAuthorityWithoutNewObservation current projection).chain =
      current.chain := by
  obtain ⟨isOpen, unseen, hp⟩ := replays
  rw [preserveExistingChainAuthorityWithoutNewObservation, if_pos ⟨isOpen, unseen, hp, pos⟩]

theorem mergeExisting_money : (mergeExisting current eventType projection).money =
      (preserveExistingChainAuthorityWithoutNewObservation current
      (preserveExistingMonitorRefreshAuthority current eventType
      (preserveExistingPartialExitRealizedPnl current projection))).money := by
  unfold mergeExisting preserveExistingMonitorSnapshotForChainProjection
    preserveExistingPendingExitAuthority
  split_ifs <;> rfl

theorem mergeExisting_of_refresh :
    (mergeExisting current (some .monitorRefreshed) projection).entry = current.entry ∧
    (mergeExisting current (some .monitorRefreshed) projection).chain.facts =
      current.chain.facts := by
  obtain ⟨entry, rest⟩ :=
    Prod.mk.inj (@mergeExisting_money current (some .monitorRefreshed) projection)
  refine ⟨entry.trans (chainAuthority_kept.1.trans monitorRefresh_kept.1), ?_⟩
  rw [(Prod.mk.inj rest).1]
  exact chainAuthority_facts_of_kept monitorRefresh_kept.2

theorem mergeExisting_facts_of_replays (replays : projection.replays)
    (pos : current.chain.positive) :
    (mergeExisting current eventType projection).chain.facts = current.chain.facts := by
  by_cases refr : eventType = some .monitorRefreshed
  · rw [refr, mergeExisting_of_refresh.2]
  · have money := congrArg (·.2.1) (@mergeExisting_money current eventType projection)
    rw [preserveExistingMonitorRefreshAuthority, if_neg refr] at money
    exact congrArg ChainObservation.facts (money.trans (chainAuthority_of_replays replays pos))

theorem mergeExisting_realizedPnlUsd (booked : current.realizedPnlUsd.isSome) :
    (mergeExisting current eventType projection).realizedPnlUsd.isSome := by
  have first : (preserveExistingPartialExitRealizedPnl current
        projection).realizedPnlUsd.isSome := by
    simp [preserveExistingPartialExitRealizedPnl, booked]
  have money := congrArg (·.2.2) (@mergeExisting_money current eventType projection)
  have kept := @monitorRefresh_realizedPnlUsd current eventType _ first
  rw [← (@chainAuthority_kept current _).2] at kept
  exact (congrArg Option.isSome money).trans kept
end

/-- A booked result stays booked, and the two stamps stay as they are. -/
structure KeepsStamps (old new : Row) : Prop where
  realizedPnlUsd : old.realizedPnlUsd.isSome → new.realizedPnlUsd.isSome
  decisionLawId : old.decisionLawId.isSome → new.decisionLawId = old.decisionLawId
  positionOrigin : old.positionOrigin.isSome → new.positionOrigin = old.positionOrigin

/-- What a write of `call` keeps of the row it meets. -/
structure KeepsMoney (call : Upsert) (old new : Row) : Prop extends KeepsStamps old new where
  refreshed : call.eventType = some .monitorRefreshed →
  new.entry = old.entry ∧ new.chain.facts = old.chain.facts
  replayed : call.projection.replays → old.chain.positive → new.chain.facts = old.chain.facts

theorem KeepsStamps.refl (row : Row) : KeepsStamps row row := ⟨id, fun _ => rfl, fun _ => rfl⟩

theorem KeepsStamps.trans {first snd third : Row} (prior : KeepsStamps first snd)
    (later : KeepsStamps snd third) : KeepsStamps first third where
  realizedPnlUsd booked := later.realizedPnlUsd (prior.realizedPnlUsd booked)
  decisionLawId stamped := by
    have same := prior.decisionLawId stamped
    exact (later.decisionLawId (same ▸ stamped)).trans same
  positionOrigin stamped := by
    have same := prior.positionOrigin stamped
    exact (later.positionOrigin (same ▸ stamped)).trans same

theorem keepsMoney_overwrite (call : Upsert) (old : Row) (phase : LifecyclePhase) :
    KeepsMoney call old
      (Row.overwrite { mergeExisting old call.eventType call.projection with phase } old) where
  realizedPnlUsd := mergeExisting_realizedPnlUsd
  decisionLawId := Option.or_of_isSome
  positionOrigin := Option.or_of_isSome
  refreshed is := by
    rw [is]
    exact mergeExisting_of_refresh
  replayed := mergeExisting_facts_of_replays

variable {table : Table} {call : Upsert} {position : String} {old : Row}

theorem Upsert.apply_keepsMoney (named : position ≠ "")
    (own : call.projection.positionId = position) (hf : table.find position = some old) :
    ∃ new, (call.apply table).find position = some new ∧ KeepsMoney call old new := by
  subst own
  unfold Upsert.apply
  cases ans : upsertPositionCurrent table call.eventType call.projection with
  | error error =>
    exact ⟨old, hf, ⟨KeepsStamps.refl old, fun _ => ⟨rfl, rfl⟩, fun _ _ => rfl⟩⟩
  | ok after =>
    obtain ⟨-, phase, -, -, find⟩ := upsert_inv ans
    refine ⟨_, ?_, keepsMoney_overwrite call old phase⟩
    rw [Except.toOption, Option.getD_some, find, if_pos rfl, hf, merged_of_found named hf]
    rfl

def RowKeepsStamps (position : String) (table after : Table) : Prop :=
  ∀ old, table.find position = some old →
    ∃ new, after.find position = some new ∧ KeepsStamps old new

theorem RowKeepsStamps.trans {first snd third : Table} (prior : RowKeepsStamps position first snd)
    (later : RowKeepsStamps position snd third) : RowKeepsStamps position first third := by
  intro old hf
  obtain ⟨middle, isMiddle, kept⟩ := prior old hf
  obtain ⟨new, isNew, keptLater⟩ := later middle isMiddle
  exact ⟨new, isNew, kept.trans keptLater⟩

/-- Whatever is written for a position, in any order, its booked result and its stamps stay, and
each write keeps the money facts it brings nothing new about. -/
theorem money_facts_survive_writes (position : String) (named : position ≠ "") (table : Table)
    (calls : List Upsert) (own : ∀ call ∈ calls, call.projection.positionId = position) :
    (∀ prior later, prior ++ later <+: calls →
        RowKeepsStamps position (runUpserts table prior) (runUpserts table (prior ++ later))) ∧
    ∀ prior call, prior ++ [call] <+: calls →
      ∀ old, (runUpserts table prior).find position = some old →
        ∃ new, (runUpserts table (prior ++ [call])).find position = some new ∧
          KeepsMoney call old new := by
  have step (prior : List Upsert) (call : Upsert) (taken : prior ++ [call] <+: calls) (old : Row)
      (hf : (runUpserts table prior).find position = some old) :
      ∃ new, (call.apply (runUpserts table prior)).find position = some new ∧
        KeepsMoney call old new := by
    have asked : call ∈ calls := taken.subset (by simp)
    exact Upsert.apply_keepsMoney named (own call asked) hf
  constructor
  · refine (@Run.related_iff_steps _ _ Upsert.apply (RowKeepsStamps position)
      (fun _ old hf => ⟨old, hf, .refl old⟩) RowKeepsStamps.trans table calls).mpr ?_
    intro prior call taken old hf
    obtain ⟨new, isNew, kept⟩ := step prior call taken old hf
    exact ⟨new, isNew, kept.toKeepsStamps⟩
  · intro prior call taken old hf
    have next : runUpserts table (prior ++ [call]) = call.apply (runUpserts table prior) := by
      rw [runUpserts, List.foldl_append]
      rfl
    rw [next]
    exact step prior call taken old hf

def bookedFill (position : String) : Upsert where
  eventType := some .entryOrderFilled
  projection := {
    positionId := position
    strategyKey := "opening_inertia"
    entry := { conditionId := some "cond-1", shares := some 10, costBasisUsd := some 4 }
    chain := { chainShares := some 10, chainSeenAt := some "2026-05-17T00:00:00Z" }
    realizedPnlUsd := some 2
    decisionLawId := some "law-1"
    phase := some .active }

def bareRefresh (position : String) : Upsert where
  eventType := some .monitorRefreshed
  projection := {
    positionId := position
    strategyKey := "opening_inertia"
    entry := { conditionId := some "cond-1" }
    phase := some .active }

theorem money_facts_survive_sample :
    ((runUpserts .empty [bookedFill "pos-1", bareRefresh "pos-1"]).find "pos-1").map
      (·.realizedPnlUsd) = some (some 2) ∧
    RowKeepsStamps "pos-1" (runUpserts .empty [bookedFill "pos-1"])
      (runUpserts .empty [bookedFill "pos-1", bareRefresh "pos-1"]) :=
  ⟨by decide +kernel,
    (money_facts_survive_writes "pos-1" (by decide) .empty [bookedFill "pos-1", bareRefresh "pos-1"]
      (by decide +kernel)).1 [bookedFill "pos-1"] [bareRefresh "pos-1"] List.prefix_rfl⟩

/-- Under the empty position id nothing is merged, and a refresh erases the booked result and the
shares. -/
theorem anonymous_refresh_erases_money :
    ((runUpserts .empty [bookedFill ""]).find "").map
      (fun row => (row.realizedPnlUsd, row.entry.shares)) = some (some 2, some 10) ∧
    (upsertPositionCurrent (runUpserts .empty [bookedFill ""]) (bareRefresh "").eventType
        (bareRefresh "").projection).isOk ∧
    ((runUpserts .empty [bookedFill "", bareRefresh ""]).find "").map
      (fun row => (row.realizedPnlUsd, row.entry.shares)) = some (none, none) := by
  decide +kernel

end Zeus.PositionCurrent
