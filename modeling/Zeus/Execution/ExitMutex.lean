import Zeus.Lib.Run
import Zeus.State.CollateralLedger

/-! Each SQL statement of `ExitMutex.acquire` is one atomic step of the process that executes it,
and between two statements of one call any other process may move. -/

namespace Zeus.ExitMutex

open Zeus.Collateral (strip)

/-- A row of `exit_mutex_holdings`; times are texts. -/
structure Holding where
  (mutexKey commandId acquiredAt : String)
  releasedAt : Option String := none
  releaseReason : Option String := none
  deriving DecidableEq

abbrev Holdings := KeyedTable Holding.mutexKey

inductive MutexError where
  | positionIdRequired | tokenIdRequired | commandIdRequired | integrityError
  deriving DecidableEq

def mutexKey (positionId tokenId : String) : Except MutexError String :=
  let position := strip positionId
  let token := strip tokenId
  if position = "" then .error .positionIdRequired
  else if token = "" then .error .tokenIdRequired
  else .ok (position ++ ":" ++ token)

structure Acquire where
  (key command now : String)
  deriving DecidableEq

def beginAcquire (positionId tokenId commandId now : String) : Except MutexError Acquire := do
  let key ← mutexKey positionId tokenId
  if strip commandId = "" then .error .commandIdRequired
  else .ok ⟨key, strip commandId, now⟩

inductive Point where
  | select | insert | selectAfterConflict
  | compareAndSwap (existingCommand releasedAt : String)
  | selectAfterSwap
  deriving DecidableEq

inductive Outcome where
  | continues (point : Point)
  | returned (granted : Bool)
  | raised (error : MutexError)
  deriving DecidableEq

/-- What `acquire` does with a row it read: an active row answers, a released one is contended
for. -/
def examine (call : Acquire) (row : Holding) : Outcome :=
  match row.releasedAt with
  | none => .returned (row.commandId == call.command)
  | some releasedAt => .continues (.compareAndSwap row.commandId releasedAt)

def Acquire.row (call : Acquire) : Holding where
  mutexKey := call.key
  commandId := call.command
  acquiredAt := call.now

def Acquire.takeOver (call : Acquire) (row : Holding) : Holding :=
  { row with
    commandId := call.command, acquiredAt := call.now, releasedAt := none, releaseReason := none }

theorem Acquire.takeOver_mutexKey (call : Acquire) (row : Holding) :
    (call.takeOver row).mutexKey = row.mutexKey := rfl

/-- One statement of `acquire` and what the call does with its result. -/
def execute (call : Acquire) (holdings : Holdings) : Point → Holdings × Outcome
  | .select =>
    (holdings, (holdings.find call.key).elim (.continues .insert) (examine call))
  | .insert =>
    (holdings.tryInsert call.row).elim (holdings, .continues .selectAfterConflict) fun inserted =>
      (inserted, .returned true)
  | .selectAfterConflict =>
    (holdings, (holdings.find call.key).elim (.raised .integrityError) (examine call))
  | .compareAndSwap existingCommand releasedAt =>
    if (holdings.find call.key).any fun row =>
        row.commandId == existingCommand && row.releasedAt == some releasedAt then
      (holdings.modify call.key call.takeOver call.takeOver_mutexKey, .returned true)
    else (holdings, .continues .selectAfterSwap)
  | .selectAfterSwap =>
    (holdings, .returned ((holdings.find call.key).any fun row =>
      row.releasedAt.isNone && row.commandId == call.command))

def Holding.release (now reason : String) (row : Holding) : Holding :=
  { row with releasedAt := row.releasedAt.or (some now), releaseReason := some reason }

theorem Holding.release_mutexKey (now why : String) (row : Holding) :
    (row.release now why).mutexKey = row.mutexKey := rfl

def Holding.activeFor (commandId : String) (row : Holding) : Bool :=
  row.commandId == commandId && row.releasedAt.isNone

def release (holdings : Holdings) (key commandId now reason : String) : Holdings :=
  holdings.modifyWhere (fun row => row.mutexKey == key && row.activeFor commandId)
    (Holding.release now reason) (Holding.release_mutexKey now reason)

def abandonUnpersisted (holdings : Holdings) (commandId : String) : Holdings :=
  holdings.eraseWhere (Holding.activeFor commandId)

structure System (ι : Type) where
  holdings : Holdings
  calls : ι → Option (Acquire × Point)

inductive Step (ι : Type) where
  | acquire (process : ι) (positionId tokenId commandId now : String)
  | statement (process : ι)
  | release (positionId tokenId commandId now reason : String)
  | abandonUnpersisted (commandId : String)

section
variable {ι : Type} [DecidableEq ι]

def Outcome.point : Outcome → Option Point
  | .continues point => some point
  | _ => none

def System.step (system : System ι) : Step ι → System ι
  | .acquire process positionId tokenId commandId now =>
    match system.calls process, beginAcquire positionId tokenId commandId now with
    | none, .ok call =>
      { system with calls := Function.update system.calls process (some (call, .select)) }
    | _, _ => system
  | .statement process =>
    (system.calls process).elim system fun (call, point) =>
      let (holdings, outcome) := execute call system.holdings point
      { holdings,
        calls := Function.update system.calls process (outcome.point.map fun next => (call, next)) }
  | .release positionId tokenId commandId now reason =>
    match mutexKey positionId tokenId with
    | .ok key => { system with holdings := release system.holdings key commandId now reason }
    | .error _ => system
  | .abandonUnpersisted commandId =>
    { system with holdings := abandonUnpersisted system.holdings commandId }

def System.run (system : System ι) (steps : List (Step ι)) : System ι :=
  steps.foldl System.step system

def Active (holdings : Holdings) (key commandId : String) : Prop :=
  ∃ row, holdings.find key = some row ∧ row.activeFor commandId = true

/-- The step is the last statement of an `acquire` that returns True to the command. -/
def Grants (system : System ι) (step : Step ι) (key commandId : String) : Prop :=
  ∃ process call point, step = .statement process ∧
    system.calls process = some (call, point) ∧
    (execute call system.holdings point).2 = .returned true ∧
    call.key = key ∧
    call.command = commandId

/-- The step releases or abandons the command's active row of the key. -/
def Frees (system : System ι) (step : Step ι) (key commandId : String) : Prop :=
  Active system.holdings key commandId ∧
    ((∃ positionId tokenId now reason, step = .release positionId tokenId commandId now reason ∧
        mutexKey positionId tokenId = .ok key) ∨
      step = .abandonUnpersisted commandId)
end

section
variable {call : Acquire} {holdings : Holdings} {key commandId : String} {point : Point}

theorem Active.holder_unique {other : String} (act : Active holdings key commandId)
    (also : Active holdings key other) : commandId = other := by
  obtain ⟨row, hf, holds⟩ := act
  obtain ⟨same, isSame, alsoHolds⟩ := also
  obtain rfl : row = same := Option.some.inj (hf.symm.trans isSame)
  simp only [Holding.activeFor, Bool.and_eq_true, beq_iff_eq] at holds alsoHolds
  exact holds.1.symm.trans alsoHolds.1

theorem examine_granted {row : Holding} (hgr : examine call row = .returned true) :
    row.activeFor call.command = true := by
  unfold examine at hgr
  split at hgr
  · rename_i isActive
    simpa [Holding.activeFor, isActive] using hgr
  · cases hgr

theorem execute_granted (hgr : (execute call holdings point).2 = .returned true) :
    Active (execute call holdings point).1 call.key call.command := by
  have read : ∀ {hab : Outcome}, hab ≠ .returned true →
      (holdings.find call.key).elim hab (examine call) = .returned true →
      Active holdings call.key call.command := by
    intro hab notGranted ans
    cases hf : holdings.find call.key with
    | none =>
      rw [hf] at ans
      exact absurd ans notGranted
    | some row =>
      rw [hf] at ans
      exact ⟨row, hf, examine_granted ans⟩
  cases point with
  | select => exact read (by simp) hgr
  | insert =>
    simp only [execute] at hgr ⊢
    cases ins : holdings.tryInsert call.row with
    | none =>
      rw [ins] at hgr
      cases hgr
    | some table =>
      refine ⟨call.row, ?_, by simp [Holding.activeFor, Acquire.row]⟩
      exact (KeyedTable.find_tryInsert ins call.key).trans (if_pos rfl)
  | selectAfterConflict => exact read (by simp) hgr
  | compareAndSwap existingCommand releasedAt =>
    simp only [execute] at hgr ⊢
    split at hgr
    · rename_i swap
      rw [if_pos swap]
      obtain ⟨row, hf, -⟩ := (Option.any_eq_true _ _).mp swap
      refine ⟨call.takeOver row, ?_, by simp [Holding.activeFor, Acquire.takeOver]⟩
      rw [KeyedTable.find_modify, if_pos rfl, hf, Option.map_some]
    · cases hgr
  | selectAfterSwap =>
    simp only [execute, Outcome.returned.injEq] at hgr
    obtain ⟨row, hf, holds⟩ := (Option.any_eq_true _ _).mp hgr
    exact ⟨row, hf, by simpa [Holding.activeFor, and_comm] using holds⟩

/-- No statement of `acquire` touches an active row: the insert needs a free key, the swap a
released row. -/
theorem execute_active (act : Active holdings key commandId) :
    Active (execute call holdings point).1 key commandId := by
  obtain ⟨row, hf, holds⟩ := act
  cases point with
  | select | selectAfterConflict | selectAfterSwap => exact ⟨row, hf, holds⟩
  | insert =>
    simp only [execute]
    cases ins : holdings.tryInsert call.row with
    | none => exact ⟨row, hf, holds⟩
    | some table =>
      refine ⟨row, ?_, holds⟩
      obtain ⟨fresh, -⟩ := KeyedTable.tryInsert_eq_some_iff.mp ins
      change table.find key = some row
      rw [KeyedTable.find_tryInsert ins, if_neg]
      · exact hf
      · rintro rfl
        rw [fresh] at hf
        cases hf
  | compareAndSwap existingCommand releasedAt =>
    simp only [execute]
    split
    · rename_i swap
      refine ⟨row, ?_, holds⟩
      rw [KeyedTable.find_modify, if_neg]
      · exact hf
      · rintro rfl
        rw [hf, Option.any_some] at swap
        simp only [Holding.activeFor, Bool.and_eq_true, Option.isNone_iff_eq_none] at holds
        simp [holds.2] at swap
    · exact ⟨row, hf, holds⟩

theorem release_active {now why tgt other : String} (act : Active holdings key commandId)
    (elsewhere : ¬ (tgt = key ∧ other = commandId)) :
    Active (release holdings tgt other now why) key commandId := by
  obtain ⟨row, hf, holds⟩ := act
  have same : row.mutexKey = key := (KeyedTable.find_some hf).2
  refine ⟨row, ?_, holds⟩
  rw [release, KeyedTable.find_modifyWhere, hf, Option.map_some, if_neg]
  simp only [Holding.activeFor, Bool.and_eq_true, beq_iff_eq] at holds ⊢
  rintro ⟨isTarget, isOther, -⟩
  exact elsewhere ⟨isTarget.symm.trans same, isOther.symm.trans holds.1⟩

theorem abandonUnpersisted_active {other : String} (act : Active holdings key commandId)
    (elsewhere : other ≠ commandId) : Active (abandonUnpersisted holdings other) key commandId := by
  obtain ⟨row, hf, holds⟩ := act
  refine ⟨row, ?_, holds⟩
  simp only [Holding.activeFor, Bool.and_eq_true, beq_iff_eq] at holds
  rw [abandonUnpersisted, KeyedTable.find_eraseWhere, hf, Option.filter_some, if_pos]
  simp [Holding.activeFor, holds.1, Ne.symm elsewhere]

theorem release_not_active {now why : String} (inactive : ¬ Active holdings key commandId) :
    release holdings key commandId now why = holdings := by
  refine KeyedTable.modifyWhere_of_none ?_
  intro row mem
  by_contra holds
  rw [Bool.not_eq_false, Bool.and_eq_true, beq_iff_eq] at holds
  obtain ⟨rfl, act⟩ := holds
  exact inactive ⟨row, KeyedTable.find_of_mem mem, act⟩
end

section
variable {ι : Type} {system : System ι} {taken : Step ι} {key commandId : String}

theorem Grants.not_frees {first : String} (grants : Grants system taken key commandId) :
    ¬ Frees system taken key first := by
  obtain ⟨process, _, _, rfl, -⟩ := grants
  rintro ⟨-, ⟨_, _, _, _, dif, -⟩ | dif⟩ <;> cases dif

variable [DecidableEq ι]

theorem Grants.active (grants : Grants system taken key commandId) :
    Active (system.step taken).holdings key commandId := by
  obtain ⟨process, call, point, rfl, inCall, hgr, rfl, rfl⟩ := grants
  simp only [System.step, inCall, Option.elim_some]
  exact execute_granted hgr

theorem Active.step_cases (act : Active system.holdings key commandId) (step : Step ι) :
    Active (system.step step).holdings key commandId ∨ Frees system step key commandId := by
  cases step with
  | acquire process pid tid other now =>
    refine .inl ?_
    simp only [System.step]
    split <;> exact act
  | statement process =>
    refine .inl ?_
    simp only [System.step]
    cases system.calls process with
    | none => exact act
    | some frame => exact execute_active act
  | release pid tid other now why =>
    simp only [System.step]
    cases isKey : mutexKey pid tid with
    | error => exact .inl act
    | ok tgt =>
      by_cases here : tgt = key ∧ other = commandId
      · obtain ⟨rfl, rfl⟩ := here
        exact .inr ⟨act, .inl ⟨pid, tid, now, why, rfl, isKey⟩⟩
      · exact .inl (release_active act here)
  | abandonUnpersisted other =>
    by_cases same : other = commandId
    · subst same
      exact .inr ⟨act, .inr rfl⟩
    · exact .inl (abandonUnpersisted_active act same)

/-- Between two grants of one key to different commands the first holder was freed, and a release by
a command that does not hold the key changes nothing. -/
theorem exit_mutual_exclusion (system : System ι) :
    (∀ prior between one two key first snd, first ≠ snd → Grants (system.run prior) one key first →
        Grants (system.run (prior ++ one :: between)) two key snd →
        ∃ before freeing after, between = before ++ freeing :: after ∧
          Frees (system.run (prior ++ one :: before)) freeing key first) ∧
    ∀ pid tid commandId now why,
      (∀ key, mutexKey pid tid = .ok key → ¬ Active system.holdings key commandId) →
      system.step (.release pid tid commandId now why) = system := by
  constructor
  · intro prior between one two key first snd dif grantsFirst grantsSecond
    have resumed : ∀ steps,
          system.run (prior ++ one :: steps) = ((system.run prior).step one).run steps := by
      intro steps
      simp [System.run]
    rw [resumed] at grantsSecond
    -- the first holder is gone when the second call executes its last statement
    have gone : ¬ Active (((system.run prior).step one).run between).holdings key first := by
      intro still
      have afterwards := (still.step_cases two).resolve_right grantsSecond.not_frees
      exact dif (afterwards.holder_unique grantsSecond.active)
    obtain ⟨before, freeing, after, split, held, broken⟩ :=
      Run.exists_breaking_action (P := fun state : System ι => Active state.holdings key first)
        grantsFirst.active gone
    refine ⟨before, freeing, after, split, ?_⟩
    rw [resumed]
    exact (held.step_cases freeing).resolve_left broken
  · intro pid tid commandId now why inactive
    simp only [System.step]
    cases isKey : mutexKey pid tid with
    | error => rfl
    | ok key =>
      simp only [release_not_active (inactive key isKey)]

/-- The first process acquires by inserting, is released, and the second acquires by the swap. -/
def acquireThenRelease : List (Step Bool) :=
  [.acquire true "7" "tok-1" "cmd-2" "12:01", .release "7" "tok-1" "cmd-1" "12:02" "done",
    .statement true]

theorem exit_mutual_exclusion_sample : let idle : System Bool := ⟨.empty, fun _ => none⟩
    let entered := [Step.acquire false "7" "tok-1" "cmd-1" "12:00", .statement false]
    ∃ before freeing after, acquireThenRelease = before ++ freeing :: after ∧
      Frees (idle.run (entered ++ .statement false :: before)) freeing "7:tok-1" "cmd-1" := by
  intro idle entered
  refine (exit_mutual_exclusion idle).1 entered acquireThenRelease (.statement false)
    (.statement true) "7:tok-1" "cmd-1" "cmd-2" (by decide) ?_ ?_
  · exact ⟨false, ⟨"7:tok-1", "cmd-1", "12:00"⟩, .insert, rfl, by decide +kernel, by decide +kernel,
      rfl, rfl⟩
  · exact ⟨true, ⟨"7:tok-1", "cmd-2", "12:01"⟩, .compareAndSwap "cmd-1" "12:02", rfl,
      by decide +kernel, by decide +kernel, rfl, rfl⟩
end

end Zeus.ExitMutex
