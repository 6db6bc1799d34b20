import Zeus.State.PositionCurrent

/-! Sequences of `upsert_position_current` calls, accepted or rejected. The guard on closed rows
looks at projections that leave the absorbing phases only. -/

namespace Zeus.PositionCurrent

variable {table after : Table} {call : Upsert} {calls : List Upsert}

/-- A REVIEW_REQUIRED projection to active or pending exit with shares of its own. -/
def Upsert.RestoresExposure (call : Upsert) : Prop :=
  allowsTerminalRestoreExposure call.eventType call.projection

instance (call : Upsert) : Decidable call.RestoresExposure := inferInstanceAs (Decidable (_ ∧ _))

/-- The call leaves every terminal phase, unless it restores exposure. -/
def KeepsTerminal (table : Table) (call : Upsert) : Prop :=
  ∀ position row, table.find position = some row → row.phase ∈ terminalStates →
    (∃ kept, (call.apply table).find position = some kept ∧ kept.phase = row.phase) ∨
      (call.projection.positionId = position ∧ call.RestoresExposure)

def Upsert.Admissible (table : Table) (call : Upsert) (row : Row) (phase : LifecyclePhase) : Prop :=
  call.projection.phase = some phase ∧
    phase ≠ .unknown ∧
    settlementPriceValid (some phase) call.projection.settlementPrice ∧
    (phase ∈ absorbingPositionPhases ∨
      ¬ blank call.projection.entry.conditionId ∧
        (call.projection.positionId = "" ∨
          -- the stored chain observation may supply the shares
          allowsTerminalRestoreExposure call.eventType
              (preserveExistingChainAuthorityWithoutNewObservation row call.projection) ∧
            duplicateRefusal table call.projection = none))

/-- The call replaces a terminal phase without restoring exposure of its own. -/
def Upsert.Replaces (table : Table) (call : Upsert) : Prop :=
  ∃ row phase, table.find call.projection.positionId = some row ∧
    row.phase ∈ terminalStates ∧
    phase ≠ row.phase ∧
    call.Admissible table row phase ∧
    ¬ call.RestoresExposure

variable {row : Row} {token : String}

theorem not_exitProtected_of_terminal (terminal : row.phase ∈ terminalStates) :
    ¬ row.exitProtected := by
  rintro ⟨pend, -⟩
  rw [pend] at terminal
  exact absurd terminal (by decide)

theorem merged_phase_of_terminal (found : table.find call.projection.positionId = some row)
    (terminal : row.phase ∈ terminalStates) :
    (merged table call.eventType call.projection).phase = call.projection.phase := by
  by_cases anon : call.projection.positionId = ""
  · rw [merged_of_blank anon]
  · rw [merged_of_found anon found, mergeExisting_phase, if_neg]
    exact fun pres => not_exitProtected_of_terminal terminal pres.2

theorem mergeExisting_review {proj : Projection} : mergeExisting row (some .reviewRequired) proj =
      preserveExistingChainAuthorityWithoutNewObservation row
      (preserveExistingPartialExitRealizedPnl row proj) := by
  simp [mergeExisting, preserveExistingMonitorSnapshotForChainProjection,
    preserveExistingPendingExitAuthority,
    preserveExistingMonitorRefreshAuthority, chainProjectionEventTypes,
    pendingExitAuthorityPreservingEventTypes]

theorem merged_review (named : call.projection.positionId ≠ "")
    (found : table.find call.projection.positionId = some row)
    (review : call.eventType = some .reviewRequired) :
    (allowsTerminalRestoreExposure call.eventType (merged table call.eventType call.projection) ↔
        allowsTerminalRestoreExposure call.eventType
          (preserveExistingChainAuthorityWithoutNewObservation row call.projection)) ∧
    (merged table call.eventType call.projection).entry = call.projection.entry ∧
    duplicateRefusal table (merged table call.eventType call.projection) =
      duplicateRefusal table call.projection := by
  rw [merged_of_found named found, review, mergeExisting_review]
  unfold preserveExistingChainAuthorityWithoutNewObservation preserveExistingPartialExitRealizedPnl
  split_ifs <;> exact ⟨Iff.rfl, rfl, rfl⟩

section
variable {row : Row} (found : table.find call.projection.positionId = some row)
  (terminal : row.phase ∈ terminalStates)

include found terminal

theorem admissible_of_accepted
    (acc : upsertPositionCurrent table call.eventType call.projection = .ok after) :
    ∃ phase, call.Admissible table row phase := by
  have sameId := merged_positionId table call.eventType call.projection
  have absd := absorbing_of_terminal terminal
  obtain ⟨passes, hs, hw⟩ := upsert_ok acc
  refine ⟨hs.phase, (merged_phase_of_terminal found terminal).symm.trans hw.phase, hw.known, ?_, ?_⟩
  · have setl := passes.settlement
    rwa [hw.phase, merged_settlementPrice] at setl
  · by_cases hcl : hs.phase ∈ absorbingPositionPhases
    · exact .inl hcl
    · have cond := passes.condition
      simp only [conditionIdRefusal, hw.phase, conditionIdRequiredPhases, Option.any_some,
        decide_eq_true_eq, Refusal.require_eq_none, mem_openPhases_iff, hcl, not_false_eq_true,
        forall_const] at cond
      by_cases anon : call.projection.positionId = ""
      · rw [merged_of_blank anon] at cond
        exact .inr ⟨cond, .inl anon⟩
      · have reopen := passes.reopen
        simp only [reopenRefusal, sameId, anon, hw.phase, Option.any_some, decide_eq_true_eq, hcl,
          ne_eq, not_false_eq_true, and_self, if_true, found, Option.bind_some,
          Refusal.require_eq_none, absd, forall_const] at reopen
        obtain ⟨restores, sameEntry, sameDup⟩ := merged_review anon found reopen.2.1
        rw [sameEntry] at cond
        exact .inr ⟨cond, .inr ⟨restores.mp reopen, sameDup ▸ passes.duplicate⟩⟩

theorem accepted_of_admissible {phase : LifecyclePhase} (adm : call.Admissible table row phase) :
    ∃ after, upsertPositionCurrent table call.eventType call.projection = .ok after := by
  have sameId := merged_positionId table call.eventType call.projection
  have absd := absorbing_of_terminal terminal
  obtain ⟨isPhase, known, setl, rest⟩ := adm
  have isCand := (merged_phase_of_terminal found terminal).trans isPhase
  have checks : reopenRefusal table call.eventType (merged table call.eventType call.projection) =
      none ∧
      conditionIdRefusal (merged table call.eventType call.projection) = none ∧
      duplicateRefusal table (merged table call.eventType call.projection) = none := by
    rcases rest with hcl | ⟨cond, restores⟩
    · have shut : phase ∉ openPhases := fun opened => mem_openPhases_iff.mp opened hcl
      simp [reopenRefusal, conditionIdRefusal, duplicateRefusal, conditionIdRequiredPhases, isCand,
        hcl, shut]
    · by_cases anon : call.projection.positionId = ""
      · rw [merged_of_blank anon]
        simp [reopenRefusal, conditionIdRefusal, duplicateRefusal, anon, cond]
      · obtain ⟨restores, duplicate⟩ := restores.resolve_left anon
        obtain ⟨allowed, sameEntry, sameDup⟩ := merged_review anon found restores.2.1
        refine ⟨?_, ?_, sameDup.trans duplicate⟩
        · simp [reopenRefusal, sameId, found, allowed.mpr restores]
        · simp [conditionIdRefusal, sameEntry, cond]
  refine upsert_accepts ⟨?_, checks.1, checks.2.1, ?_, checks.2.2⟩ isCand known
  · rwa [isCand, merged_settlementPrice]
  · simp [realizedPnlRefusal, sameId, found, absd]
end

theorem Written.phase_of_terminal {hs : Row}
    (found : table.find call.projection.positionId = some row)
    (terminal : row.phase ∈ terminalStates)
    (hw : Written table (merged table call.eventType call.projection) hs after) :
    after.find call.projection.positionId = some hs ∧ call.projection.phase = some hs.phase := by
  refine ⟨?_, (merged_phase_of_terminal found terminal).symm.trans hw.phase⟩
  rw [hw.find, merged_positionId, if_pos rfl]

theorem keepsTerminal_iff : KeepsTerminal table call ↔ ¬ call.Replaces table := by
  constructor
  · rintro keeps ⟨row, phase, found, terminal, other, adm, own⟩
    obtain ⟨after, acc⟩ := accepted_of_admissible found terminal adm
    obtain ⟨-, hs, hw⟩ := upsert_ok acc
    obtain ⟨isStored, asked⟩ := hw.phase_of_terminal found terminal
    rcases keeps _ row found terminal with ⟨kept, isKept, same⟩ | ⟨-, restores⟩
    · rw [Upsert.apply, acc] at isKept
      obtain rfl := Option.some.inj (isStored.symm.trans isKept)
      rw [adm.1] at asked
      exact other ((Option.some.inj asked).trans same)
    · exact own restores
  · intro keeps posn row found terminal
    by_cases own : call.projection.positionId = posn
    · subst own
      by_cases restores : call.RestoresExposure
      · exact .inr ⟨rfl, restores⟩
      · refine .inl ?_
        rcases call.apply_cases table with kept | ⟨hs, acc, -, hw⟩
        · exact ⟨row, by rw [kept, found], rfl⟩
        · obtain ⟨phase, adm⟩ := admissible_of_accepted found terminal acc
          obtain ⟨isStored, asked⟩ := hw.phase_of_terminal found terminal
          rw [adm.1] at asked
          cases asked
          refine ⟨hs, isStored, ?_⟩
          by_contra other
          exact keeps ⟨row, hs.phase, found, terminal, other, adm, restores⟩
    · exact .inl ⟨row, by rw [Upsert.apply_find_other own, found], rfl⟩

/-- Over a run of calls, accepted or rejected, the terminal phases are absorbing exactly when no
call replaces one in the table it meets. -/
theorem terminal_phases_absorbing_iff (table : Table) (calls : List Upsert) :
    (∀ prior call, prior ++ [call] <+: calls → KeepsTerminal (runUpserts table prior) call) ↔
      ∀ prior call, prior ++ [call] <+: calls → ¬ call.Replaces (runUpserts table prior) := by
  simp only [keepsTerminal_iff]

def sampleProjection (phase : LifecyclePhase) : Projection where
  positionId := "pos-1"
  strategyKey := "opening_inertia"
  direction := some .buyYes
  entry := { tokenId := some "tok-1", conditionId := some "cond-1", shares := some 10 }
  phase := some phase

def opened : Upsert := ⟨some .positionOpenIntent, sampleProjection .active⟩

def voidedAfter : Upsert := ⟨some .adminVoided, sampleProjection .voided⟩

def settledAfter : Upsert :=
  ⟨some .settled, { sampleProjection .settled with settlementPrice := some 1 }⟩

theorem voided_row_settled :
    ((runUpserts .empty [opened, voidedAfter]).find "pos-1").map Row.phase = some .voided ∧
    ((runUpserts .empty [opened, voidedAfter, settledAfter]).find "pos-1").map Row.phase =
      some .settled ∧
    ¬ settledAfter.RestoresExposure := by
  decide +kernel

theorem mem_nonBlank {text : Option String} :
    token ∈ nonBlank text ↔ text = some token ∧ token ≠ "" := by
  simp [nonBlank, Option.filter_eq_some_iff]

theorem Row.mem_heldTokens (given : token ≠ "") :
    token ∈ row.heldTokens ↔
      (row.direction = some .buyYes ∧ row.entry.tokenId = some token) ∨
      (row.direction = some .buyNo ∧ row.entry.noTokenId = some token) ∨
      (row.direction ≠ some .buyYes ∧
        row.direction ≠ some .buyNo ∧
        (row.entry.tokenId = some token ∨ row.entry.noTokenId = some token)) := by
  unfold Columns.heldTokens
  split <;> simp_all [mem_nonBlank]

theorem ne_empty_of_mem_heldTokens {columns : Columns} (held : token ∈ columns.heldTokens) :
    token ≠ "" := by
  unfold Columns.heldTokens at held
  split at held
  · exact (mem_nonBlank.mp held).2
  · exact (mem_nonBlank.mp held).2
  · rcases List.mem_append.mp (List.mem_dedup.mp held) with yes | no
    · exact (mem_nonBlank.mp yes).2
    · exact (mem_nonBlank.mp no).2

theorem Row.occupies_iff {excluded : String} (given : token ≠ "") :
    row.occupies token excluded ↔
      token ∈ row.heldTokens ∧ row.positionId ≠ excluded ∧ row.phase ∈ openPhases := by
  rw [Row.mem_heldTokens given]
  rfl

def OneOpenRow (table : Table) : Prop :=
  ∀ first ∈ table.rows, ∀ second ∈ table.rows, first.phase ∈ openPhases →
    second.phase ∈ openPhases →
    ∀ token, token ∈ first.heldTokens → token ∈ second.heldTokens → first = second

theorem Passes.token_free {etype : Option PositionEventType} {cand : Projection}
    {phase : LifecyclePhase} (passes : Passes table etype cand) (named : cand.positionId ≠ "")
    (isPhase : cand.phase = some phase) (isOpen : phase ∈ openPhases)
    (held : token ∈ cand.heldTokens) {other : Row} (hs : other ∈ table.rows)
    (hne : other.positionId ≠ cand.positionId) (otherOpen : other.phase ∈ openPhases) :
    token ∉ other.heldTokens := by
  intro alsoHeld
  have free := passes.duplicate
  simp only [duplicateRefusal, isPhase, Option.any_some, isOpen, decide_true, named, ne_eq,
    not_false_eq_true,
    and_self, if_true, List.findSome?_eq_none_iff, Option.map_eq_none_iff, findExistingOpenRow,
    List.find?_eq_none, decide_eq_true_eq] at free
  exact free token held other hs
    ((Row.occupies_iff (ne_empty_of_mem_heldTokens held)).mpr ⟨alsoHeld, hne, otherOpen⟩)

theorem Written.mem_rows {cand : Projection} {hs : Row} (hw : Written table cand row after)
    (mem : hs ∈ after.rows) : hs = row ∨ (hs ∈ table.rows ∧ hs.positionId ≠ cand.positionId) := by
  have found := KeyedTable.find_of_mem mem
  rw [hw.find] at found
  split_ifs at found with own
  · exact .inl (Option.some.inj found).symm
  · exact .inr ⟨(KeyedTable.find_some found).1, own⟩

theorem OneOpenRow.apply (one : OneOpenRow table) (named : call.projection.positionId ≠ "") :
    OneOpenRow (call.apply table) := by
  rcases call.apply_cases table with kept | ⟨row, -, passes, hw⟩
  · rwa [kept]
  · rw [← merged_positionId table call.eventType] at named
    intro first inFirst snd inSecond firstOpen secondOpen token heldFirst heldSecond
    rcases hw.mem_rows inFirst with rfl | ⟨oldFirst, apartFirst⟩ <;>
      rcases hw.mem_rows inSecond with rfl | ⟨oldSecond, apartSecond⟩
    · rfl
    · rw [hw.held] at heldFirst
      exact absurd heldSecond
        (passes.token_free named hw.phase firstOpen heldFirst oldSecond apartSecond secondOpen)
    · rw [hw.held] at heldSecond
      exact absurd heldFirst
        (passes.token_free named hw.phase secondOpen heldSecond oldFirst apartFirst firstOpen)
    · exact one first oldFirst snd oldSecond firstOpen secondOpen token heldFirst heldSecond

theorem OneOpenRow.run (one : OneOpenRow table)
    (named : ∀ call ∈ calls, call.projection.positionId ≠ "") :
    OneOpenRow (runUpserts table calls) := by
  induction calls generalizing table with
  | nil => exact one
  | cons call calls ih =>
    exact ih (one.apply (named call List.mem_cons_self))
      fun later mem => named later (List.mem_cons_of_mem _ mem)

/-- However a table is written from nothing, a token is held by at most one open row. -/
theorem one_open_row_per_token (named : ∀ call ∈ calls, call.projection.positionId ≠ "")
    (token : String) :
    ∀ first ∈ (runUpserts .empty calls).rows, ∀ second ∈ (runUpserts .empty calls).rows,
      first.phase ∈ openPhases → second.phase ∈ openPhases → token ∈ first.heldTokens →
      token ∈ second.heldTokens → first = second := by
  have one : OneOpenRow (runUpserts .empty calls) :=
    OneOpenRow.run (fun _ h0 => absurd h0 List.not_mem_nil) named
  exact fun first inFirst second inSecond firstOpen secondOpen =>
    one first inFirst second inSecond firstOpen secondOpen token

def rival : Upsert where
  eventType := some .positionOpenIntent
  projection := {
    sampleProjection .active with
    positionId := "pos-2"
    direction := none
    entry := { tokenId := some "tok-2", noTokenId := some "tok-1", conditionId := some "cond-1" } }

theorem one_open_row_per_token_sample :
    (runUpserts .empty [opened, rival]).rows.map Row.key = ["pos-1"] ∧
    ∀ first ∈ (runUpserts .empty [opened, rival]).rows, ∀ second ∈
        (runUpserts .empty [opened, rival]).rows, first.phase ∈ openPhases →
        second.phase ∈ openPhases → "tok-1" ∈ first.heldTokens → "tok-1" ∈ second.heldTokens →
        first = second :=
  ⟨by decide +kernel, one_open_row_per_token (by decide +kernel) "tok-1"⟩

end Zeus.PositionCurrent
