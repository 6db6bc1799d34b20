import Zeus.Events.LiveOrderProjection

/-! Some checks of an append look only at the rows after the current command, others at the whole
aggregate. -/

namespace Zeus.LiveOrder

open Refusal

variable {ext : Externals} {db next : Db} {call : Call} {aggregateId : String}

def Db.sinceCommand (db : Db) (aggregateId : String) : List EventRow :=
  match db.latestRowOfType aggregateId .executionCommandCreated with
  | none => []
  | some command =>
    (db.eventsOf aggregateId).filter fun row => command.eventSequence < row.eventSequence

def Occurs (rows : List EventRow) (eventType : LiveOrderEventType) : Prop :=
  ∃ row ∈ rows, row.eventType = eventType

instance (rows : List EventRow) (eventType : LiveOrderEventType) :
    Decidable (Occurs rows eventType) :=
  inferInstanceAs (Decidable (∃ row ∈ rows, row.eventType = eventType))

def IsCurrent (db : Db) (aggregateId : String) (found : Option EventRow) : Prop :=
  ∃ row, found = some row ∧ row ∈ db.sinceCommand aggregateId

/-- The row a lookup found, if any, does not belong to an earlier command. -/
def NotStale (db : Db) (aggregateId : String) (found : Option EventRow) : Prop :=
  ∀ row, found = some row → row ∈ db.sinceCommand aggregateId

theorem latestRowOfType_eq (db : Db) (aggregateId : String) (eventType : LiveOrderEventType) :
    db.latestRowOfType aggregateId eventType =
      Log.latest (fun row => decide (row.eventType = eventType)) (db.eventsOf aggregateId) :=
  LiveOrderEvents.latest_eq _ _ _

variable {row command : EventRow} {eventType kind : LiveOrderEventType} {hashOf : Payload → Value}

theorem latestRowOfType_some (hf : db.latestRowOfType aggregateId eventType = some row) :
    row ∈ db.eventsOf aggregateId ∧ row.eventType = eventType := by
  rw [latestRowOfType_eq] at hf
  obtain ⟨mem, holds⟩ := Log.latest_some hf
  exact ⟨mem, by simpa using holds⟩

theorem latestRowOfType_isSome :
    (db.latestRowOfType aggregateId eventType).isSome = true ↔
      Occurs (db.eventsOf aggregateId) eventType := by
  rw [latestRowOfType_eq, Log.latest_isSome]
  simp [Occurs]

theorem latestRowOfType_max {other : EventRow}
    (hf : db.latestRowOfType aggregateId eventType = some row)
    (mem : other ∈ db.eventsOf aggregateId) (sameType : other.eventType = eventType) :
    other.eventSequence ≤ row.eventSequence := by
  rw [latestRowOfType_eq] at hf
  exact Log.rank_le_latest (db.events.ofAggregate_ascending aggregateId) hf mem
    (by simpa using sameType)

section
variable (current : db.latestRowOfType aggregateId .executionCommandCreated = some command)

include current

theorem sinceCommand_eq : db.sinceCommand aggregateId =
      (db.eventsOf aggregateId).filter fun row => command.eventSequence < row.eventSequence := by
  rw [Db.sinceCommand, current]

theorem mem_sinceCommand :
    row ∈ db.sinceCommand aggregateId ↔
      row ∈ db.eventsOf aggregateId ∧ command.eventSequence < row.eventSequence := by
  rw [sinceCommand_eq current, List.mem_filter, decide_eq_true_eq]

theorem latest_sinceCommand (eventType : LiveOrderEventType) :
    Log.latest (fun row => decide (row.eventType = eventType)) (db.sinceCommand aggregateId) =
      (db.latestRowOfType aggregateId eventType).filter fun row =>
        command.eventSequence < row.eventSequence := by
  rw [sinceCommand_eq current, latestRowOfType_eq]
  exact Log.latest_filter_rank (db.events.ofAggregate_ascending aggregateId) command.eventSequence

theorem latestRowOfTypeAfter_isSome :
    (db.latestRowOfTypeAfter aggregateId eventType command.eventSequence).isSome = true ↔
      Occurs (db.sinceCommand aggregateId) eventType := by
  rw [Db.latestRowOfTypeAfter, LiveOrderEvents.latest_eq, Log.latest_isSome]
  simp only [Occurs, mem_sinceCommand current, decide_eq_true_eq, Db.eventsOf]
  constructor
  · rintro ⟨row, mem, sameType, later⟩
    exact ⟨row, ⟨mem, later⟩, sameType⟩
  · rintro ⟨row, ⟨mem, later⟩, sameType⟩
    exact ⟨row, mem, sameType, later⟩

theorem isCurrent_iff_occurs : IsCurrent db aggregateId (db.latestRowOfType aggregateId eventType) ↔
      Occurs (db.sinceCommand aggregateId) eventType := by
  constructor
  · rintro ⟨row, hf, later⟩
    exact ⟨row, later, (latestRowOfType_some hf).2⟩
  · rintro ⟨row, later, sameType⟩
    obtain ⟨mem, above⟩ := (mem_sinceCommand current).mp later
    have his : (db.latestRowOfType aggregateId eventType).isSome = true :=
      latestRowOfType_isSome.mpr ⟨row, mem, sameType⟩
    obtain ⟨lat, hf⟩ := Option.isSome_iff_exists.mp his
    have greater := latestRowOfType_max hf mem sameType
    exact ⟨lat, hf, (mem_sinceCommand current).mpr
      ⟨(latestRowOfType_some hf).1, by omega⟩⟩

theorem notStale_iff_occurs (hpos : (db.latestRowOfType aggregateId eventType).isSome = true) :
    NotStale db aggregateId (db.latestRowOfType aggregateId eventType) ↔
      Occurs (db.sinceCommand aggregateId) eventType := by
  rw [← isCurrent_iff_occurs current]
  obtain ⟨row, hf⟩ := Option.isSome_iff_exists.mp hpos
  constructor
  · exact fun notStale => ⟨row, hf, notStale row hf⟩
  · rintro ⟨other, found', later⟩ row' found''
    rwa [← Option.some.inj (found'.symm.trans found'')]
end

@[simp] theorem readied_latestRowOfType (projection : Option ProjectionRow)
    (eventType : LiveOrderEventType) :
    (db.readied projection).latestRowOfType aggregateId eventType =
      db.latestRowOfType aggregateId eventType := by
  simp [Db.latestRowOfType]

@[simp] theorem readied_latestRowOfTypeAfter (projection : Option ProjectionRow)
    (eventType : LiveOrderEventType) (seq : ℕ) :
    (db.readied projection).latestRowOfTypeAfter aggregateId eventType seq =
      db.latestRowOfTypeAfter aggregateId eventType seq := by
  simp [Db.latestRowOfTypeAfter]

theorem latestRowOfType_of_latest (lat : db.latestRow aggregateId = some row) :
    db.latestRowOfType aggregateId row.eventType = some row := by
  rw [latestRow_eq_getLast] at lat
  rw [latestRowOfType_eq]
  exact Log.latest_of_getLast lat (by simp)

theorem commandRefusal_none {pl : Payload} (valid : commandRefusal ext db aggregateId pl = none) :
    ∃ reval liveCap, db.latestRowOfType aggregateId .preSubmitRevalidated = some reval ∧
      db.latestRowOfType aggregateId .liveCapReserved = some liveCap ∧
      pl.preSubmitEventHash.same (.str reval.eventHash) ∧
      pl.liveCapReservedEventHash.same (.str liveCap.eventHash) := by
  have authorised : ∀ reval, authorisationRefusal ext db aggregateId pl reval = none →
      pl.preSubmitEventHash.same (.str reval.eventHash) ∧
        ∃ liveCap, db.latestRowOfType aggregateId .liveCapReserved = some liveCap ∧
          pl.liveCapReservedEventHash.same (.str liveCap.eventHash) := by
    intro reval passes
    simp only [authorisationRefusal, first_cons, require_eq_none] at passes
    obtain ⟨-, -, -, named, resd, -⟩ := passes
    split at resd <;> rename_i hf
    · cases resd
    · simp only [reservationRefusal, first_cons, require_eq_none] at resd
      exact ⟨named, _, hf, resd.2.2.1⟩
  unfold commandRefusal at valid
  split at valid <;> rename_i lat
  · cases valid
  · split at valid <;> rename_i kind
    · obtain ⟨named, liveCap, hf, resd⟩ := authorised _ valid
      exact ⟨_, liveCap, kind ▸ latestRowOfType_of_latest lat, hf, named, resd⟩
    · split at valid <;> rename_i reval
      · cases valid
      · obtain ⟨named, liveCap, hf, resd⟩ := authorised _ valid
        exact ⟨_, liveCap, reval, hf, named, resd⟩
    · cases valid

/-- Every command names, by the hash it carries, the latest row of the kind before it. -/
def Consumes (rows : List EventRow) (kind : LiveOrderEventType) (hashOf : Payload → Value) : Prop :=
  ∀ command ∈ rows, command.eventType = .executionCommandCreated →
    ∃ row ∈ rows, row.eventType = kind ∧
      row.eventSequence < command.eventSequence ∧
      (hashOf command.payload).same (.str row.eventHash) ∧
      ∀ other ∈ rows, other.eventType = kind → other.eventSequence < command.eventSequence →
        other.eventSequence ≤ row.eventSequence

theorem Consumes.nil (kind : LiveOrderEventType) (hashOf : Payload → Value) :
    Consumes [] kind hashOf := by
  intro command mem
  cases mem

theorem Consumes.concat {rows : List EventRow} (consumes : Consumes rows kind hashOf)
    {new : EventRow} (last : ∀ row ∈ rows, row.eventSequence < new.eventSequence)
    (names : new.eventType = .executionCommandCreated →
      ∃ row ∈ rows, row.eventType = kind ∧
        (hashOf new.payload).same (.str row.eventHash) ∧
        ∀ other ∈ rows, other.eventType = kind → other.eventSequence ≤ row.eventSequence) :
    Consumes (rows ++ [new]) kind hashOf := by
  intro command mem icmd
  rcases List.mem_append.mp mem with old | isNew
  · obtain ⟨row, hin, isKind, before, named, lat⟩ := consumes command old icmd
    refine ⟨row, List.mem_append_left _ hin, isKind, before, named, ?_⟩
    intro other memO otherKind otherBefore
    rcases List.mem_append.mp memO with early | isNew
    · exact lat other early otherKind otherBefore
    · obtain rfl := List.mem_singleton.mp isNew
      have after := last command old
      omega
  · obtain rfl := List.mem_singleton.mp isNew
    obtain ⟨row, hin, isKind, named, lat⟩ := names icmd
    refine ⟨row, List.mem_append_left _ hin, isKind, last row hin, named, ?_⟩
    intro other memO otherKind otherBefore
    rcases List.mem_append.mp memO with early | isNew
    · exact lat other early otherKind
    · obtain rfl := List.mem_singleton.mp isNew
      omega

structure LogSound (db : Db) : Prop where
  unique : (db.events.rows.map EventRow.eventHash).Nodup
  revalidated : ∀ aggregateId,
    Consumes (db.eventsOf aggregateId) .preSubmitRevalidated Payload.preSubmitEventHash
  reserved : ∀ aggregateId,
    Consumes (db.eventsOf aggregateId) .liveCapReserved Payload.liveCapReservedEventHash
  acknowledged : ∀ row ∈ db.events.rows, row.eventType = .venueSubmitAcknowledged →
    row.payload.venueOrderId.truthy = true

theorem mem_eventsOf :
    row ∈ db.eventsOf aggregateId ↔ row ∈ db.events.rows ∧ row.aggregateId = aggregateId := by
  simp [Db.eventsOf, LiveOrderEvents.ofAggregate]

theorem LogSound.hash_inj (sound : LogSound db) {other : EventRow}
    (mem : row ∈ db.eventsOf aggregateId) (memO : other ∈ db.eventsOf aggregateId)
    (same : row.eventHash = other.eventHash) : row = other :=
  List.inj_on_of_nodup_map sound.unique (mem_eventsOf.mp mem).1 (mem_eventsOf.mp memO).1 same

theorem eventsOf_sequence_inj {other : EventRow} (mem : row ∈ db.eventsOf aggregateId)
    (memO : other ∈ db.eventsOf aggregateId) (same : row.eventSequence = other.eventSequence) :
    row = other := by
  have nd : ((db.eventsOf aggregateId).map fun row => row.eventSequence).Nodup :=
    List.pairwise_map.mpr ((db.events.ofAggregate_ascending aggregateId).imp fun less => less.ne)
  exact List.inj_on_of_nodup_map nd mem memO same

theorem strip_orEmpty_ne {v : Value} (names : Collateral.strip v.orEmpty ≠ "") :
    v.truthy = true := by
  by_contra falsy
  apply names
  rw [Value.orEmpty, if_neg falsy]
  decide

theorem consumed_latest {v : Value} (hf : db.latestRowOfType aggregateId kind = some row)
    (named : v.same (.str row.eventHash)) :
    ∃ row ∈ db.eventsOf aggregateId, row.eventType = kind ∧
      v.same (.str row.eventHash) ∧
      ∀ other ∈ db.eventsOf aggregateId, other.eventType = kind →
        other.eventSequence ≤ row.eventSequence :=
  ⟨row, (latestRowOfType_some hf).1, (latestRowOfType_some hf).2, named,
    fun _ mem sameKind => latestRowOfType_max hf mem sameKind⟩

section
variable {projection : Option ProjectionRow} {stored : Payload} {state : ProjectionState}

section
variable (appended : Appended ext db call next projection stored state)

include appended

theorem Appended.command_names (icmd : call.eventType = .executionCommandCreated) : ∃ reval liveCap,
      db.latestRowOfType call.aggregateId .preSubmitRevalidated = some reval ∧
      db.latestRowOfType call.aggregateId .liveCapReserved = some liveCap ∧
      call.payload.preSubmitEventHash.same (.str reval.eventHash) ∧
      call.payload.liveCapReservedEventHash.same (.str liveCap.eventHash) := by
  have valid := appended.valid
  simp only [appendRefusal, icmd] at valid
  simpa using commandRefusal_none valid

theorem Appended.acknowledgement_names (isAck : call.eventType = .venueSubmitAcknowledged) :
    call.payload.venueOrderId.truthy = true := by
  have valid := appended.valid
  simp only [appendRefusal, isAck] at valid
  split at valid
  · cases valid
  · simp only [commandedRefusal, isAck, first_cons, require_eq_none] at valid
    exact strip_orEmpty_ne valid.2.2.1

theorem Appended.consumes {kind : LiveOrderEventType} {hashOf : Payload → Value}
    (before : ∀ aggregateId, Consumes (db.eventsOf aggregateId) kind hashOf)
    (names : call.eventType = .executionCommandCreated →
      ∃ row ∈ db.eventsOf call.aggregateId, row.eventType = kind ∧
        (hashOf stored).same (.str row.eventHash) ∧
        ∀ other ∈ db.eventsOf call.aggregateId, other.eventType = kind →
          other.eventSequence ≤ row.eventSequence) (aggregateId : String) :
    Consumes (next.eventsOf aggregateId) kind hashOf := by
  have last : ∀ row ∈ db.eventsOf call.aggregateId,
      row.eventSequence < (db.rowFor ext call stored).eventSequence := fun row mem =>
    db.events.lt_nextSequence (mem_eventsOf.mp mem).1 (mem_eventsOf.mp mem).2
  rw [appended.eventsOf]
  split <;> rename_i own
  · subst own
    exact (before call.aggregateId).concat last names
  · simpa using before aggregateId
end

theorem LogSound.append (sound : LogSound db) (json : call.IsJson)
    (appended : Appended ext db call next projection stored state) : LogSound next := by
  obtain rfl : call.payload = stored := Option.some.inj (json.symm.trans appended.encoded)
  refine ⟨?_, appended.consumes sound.revalidated fun icmd => ?_,
    appended.consumes sound.reserved fun icmd => ?_, fun row mem isAck => ?_⟩
  · rw [appended.events, List.map_append, List.nodup_append]
    refine ⟨sound.unique, by simp, ?_⟩
    intro hash old new isNew same
    obtain ⟨row, mem, rfl⟩ := List.mem_map.mp old
    have unique := List.all_eq_true.mp appended.unique row mem
    simp only [decide_eq_true_eq] at unique
    exact unique.1 (same.trans (by simpa using isNew))
  · obtain ⟨reval, liveCap, hf, -, names, -⟩ := appended.command_names icmd
    exact consumed_latest hf names
  · obtain ⟨reval, liveCap, -, hf, -, names⟩ := appended.command_names icmd
    exact consumed_latest hf names
  · rw [appended.events] at mem
    rcases List.mem_append.mp mem with old | isNew
    · exact sound.acknowledged row old isAck
    · obtain rfl := List.mem_singleton.mp isNew
      exact appended.acknowledgement_names isAck
end

def Step.IsJson : Step → Prop
  | .append call => call.IsJson
  | .tamper _ _ => True

theorem LogSound.step (sound : LogSound db) {step : Step} (json : step.IsJson) :
    LogSound (db.step ext step) := by
  cases step with
  | append call =>
    simp only [Db.step]
    split <;> rename_i out
    · obtain ⟨projection, stored, state, appended⟩ := appendEvent_ok out
      exact sound.append json appended
    · exact sound
  | tamper other row =>
    have sameEvents : (db.tampered other row).events = db.events := by cases row <;> rfl
    have sameOf := fun aggregateId => tampered_eventsOf db other aggregateId row
    simp only [Db.step]
    refine ⟨by rw [sameEvents]; exact sound.unique, ?_, ?_,
      by rw [sameEvents]; exact sound.acknowledged⟩
    · exact fun aggregateId => by rw [sameOf]; exact sound.revalidated aggregateId
    · exact fun aggregateId => by rw [sameOf]; exact sound.reserved aggregateId

theorem Db.run_logSound {steps : List Step} (json : ∀ step ∈ steps, step.IsJson) :
    LogSound (Db.empty.run ext steps) := by
  induction steps using List.reverseRecOn with
  | nil =>
    refine ⟨List.nodup_nil, fun _ => Consumes.nil _ _, fun _ => Consumes.nil _ _, ?_⟩
    intro row mem
    cases mem
  | append_singleton steps step sound =>
    rw [Db.run_concat]
    exact (sound fun step mem => json step (List.mem_append_left _ mem)).step (json step (by simp))

/-- The property holds, in the state before it, of every append of the history that was accepted. -/
def EveryAccepted (ext : Externals) (steps : List Step) (holds : Db → Call → Prop) : Prop :=
  ∀ front call, front ++ [.append call] <+: steps →
    (appendEvent ext (Db.empty.run ext front) call).isOk = true →
    holds (Db.empty.run ext front) call

theorem everyAccepted_concat {steps : List Step} {step : Step} {holds : Db → Call → Prop} :
    EveryAccepted ext (steps ++ [step]) holds ↔ EveryAccepted ext steps holds ∧
      ∀ call, step = .append call → (appendEvent ext (Db.empty.run ext steps) call).isOk = true →
      holds (Db.empty.run ext steps) call := by
  constructor
  · intro every
    refine ⟨fun front call before => every front call (before.trans (List.prefix_append _ _)), ?_⟩
    rintro call rfl
    exact every steps call List.prefix_rfl
  · rintro ⟨before, last⟩ front call cut acc
    rcases List.prefix_concat_iff.mp cut with whole | hin
    · obtain ⟨rfl, same⟩ := List.append_inj' whole rfl
      exact last call (by simpa using same.symm) acc
    · exact before front call hin acc

def DistinctHashes (rows : List EventRow) (hashOf : Payload → Value) : Prop :=
  rows.Pairwise fun command later =>
    command.eventType = .executionCommandCreated → later.eventType = .executionCommandCreated →
      ¬ (hashOf command.payload).same (hashOf later.payload)

theorem distinctHashes_concat {rows : List EventRow} {new : EventRow} :
    DistinctHashes (rows ++ [new]) hashOf ↔
      DistinctHashes rows hashOf ∧
      (new.eventType = .executionCommandCreated →
        ∀ command ∈ rows, command.eventType = .executionCommandCreated →
          ¬ (hashOf command.payload).same (hashOf new.payload)) := by
  unfold DistinctHashes
  rw [List.pairwise_append]
  constructor
  · rintro ⟨old, -, hne⟩
    exact ⟨old, fun isNew command mem icmd =>
      hne command mem new (List.mem_singleton_self new) icmd isNew⟩
  · rintro ⟨old, hne⟩
    refine ⟨old, List.pairwise_singleton _ _, ?_⟩
    intro command mem later isLater icmd isNew
    obtain rfl := List.mem_singleton.mp isLater
    exact hne isNew command mem icmd

def FreshSinceCommand (db : Db) (aggregateId : String) (kind : LiveOrderEventType) : Prop :=
  (db.latestRowOfType aggregateId .executionCommandCreated).isSome = true →
  Occurs (db.sinceCommand aggregateId) kind

theorem names_new_iff (sound : LogSound db) (notCommand : kind ≠ .executionCommandCreated)
    (consumes : Consumes (db.eventsOf aggregateId) kind hashOf) {lat : EventRow}
    (hf : db.latestRowOfType aggregateId kind = some lat) {pl : Payload}
    (names : (hashOf pl).same (.str lat.eventHash)) :
    (∀ command ∈ db.eventsOf aggregateId, command.eventType = .executionCommandCreated →
          ¬ (hashOf command.payload).same (hashOf pl)) ↔
      FreshSinceCommand db aggregateId kind := by
  obtain ⟨hin, isKind⟩ := latestRowOfType_some hf
  constructor
  · intro hne his
    obtain ⟨command, current⟩ := Option.isSome_iff_exists.mp his
    obtain ⟨mem, icmd⟩ := latestRowOfType_some current
    obtain ⟨row, rowInside, rowKind, before, named, maximal⟩ := consumes command mem icmd
    refine (isCurrent_iff_occurs current).mp ⟨lat, hf, (mem_sinceCommand current).mpr ⟨hin, ?_⟩⟩
    by_contra notAfter
    -- otherwise the command already consumed the latest row of the kind
    have dif : lat.eventSequence ≠ command.eventSequence := by
      intro same
      rw [eventsOf_sequence_inj hin mem same, icmd] at isKind
      exact notCommand isKind.symm
    have atMost := maximal lat hin isKind (by omega)
    have atLeast := latestRowOfType_max hf rowInside rowKind
    obtain rfl := eventsOf_sequence_inj rowInside hin (by omega)
    exact hne command mem icmd (named.trans names.symm)
  · intro fresh command mem icmd same
    have his : (db.latestRowOfType aggregateId .executionCommandCreated).isSome = true :=
      latestRowOfType_isSome.mpr ⟨command, mem, icmd⟩
    obtain ⟨current, isCurrent⟩ := Option.isSome_iff_exists.mp his
    obtain ⟨row, rowInside, rowKind, before, named, -⟩ := consumes command mem icmd
    obtain ⟨newer, later, newerKind⟩ := fresh his
    obtain ⟨newerInside, after⟩ := (mem_sinceCommand isCurrent).mp later
    have notAfterCurrent := latestRowOfType_max isCurrent mem icmd
    have notAfterLatest := latestRowOfType_max hf newerInside newerKind
    have sameHash : row.eventHash = lat.eventHash := by
      have classes : EqClass.text row.eventHash = EqClass.text lat.eventHash :=
        named.symm.trans (same.trans names)
      exact EqClass.text.inj classes
    obtain rfl := sound.hash_inj rowInside hin sameHash
    omega

def FreshAuthorisation (aggregateId : String) (db : Db) (call : Call) : Prop :=
  call.aggregateId = aggregateId → call.eventType = .executionCommandCreated →
    FreshSinceCommand db aggregateId .preSubmitRevalidated ∧
    FreshSinceCommand db aggregateId .liveCapReserved

/-- No two commands share their revalidation, and no two share their reservation. -/
def OwnAuthorisations (rows : List EventRow) : Prop :=
  DistinctHashes rows Payload.preSubmitEventHash ∧
  DistinctHashes rows Payload.liveCapReservedEventHash

theorem ownAuthorisations_append (sound : LogSound db) (json : call.IsJson)
    (acc : appendEvent ext db call = .ok next) :
    OwnAuthorisations (next.eventsOf aggregateId) ↔
      OwnAuthorisations (db.eventsOf aggregateId) ∧ FreshAuthorisation aggregateId db call := by
  obtain ⟨projection, stored, state, appended⟩ := appendEvent_ok acc
  obtain rfl : call.payload = stored := Option.some.inj (json.symm.trans appended.encoded)
  rw [appended.eventsOf]
  by_cases own : call.aggregateId = aggregateId
  · subst own
    rw [if_pos rfl]
    simp only [OwnAuthorisations, distinctHashes_concat, FreshAuthorisation, true_implies]
    have sameType : (db.rowFor ext call call.payload).eventType = call.eventType := rfl
    have samePayload : (db.rowFor ext call call.payload).payload = call.payload := rfl
    rw [sameType, samePayload]
    by_cases icmd : call.eventType = .executionCommandCreated
    · have valid := appended.valid
      simp only [appendRefusal, icmd] at valid
      obtain ⟨reval, liveCap, hreval, foundCap, namesRevalidation, namesCap⟩ :=
        commandRefusal_none valid
      rw [readied_latestRowOfType] at hreval foundCap
      have fresh := names_new_iff sound (by decide) (sound.revalidated _) hreval namesRevalidation
      have freshCap := names_new_iff sound (by decide) (sound.reserved _) foundCap namesCap
      simp only [icmd, true_implies, fresh, freshCap]
      tauto
    · simp [icmd]
  · simp [own, FreshAuthorisation]

/-- Over every history, the commands of an aggregate each consume their own revalidation and their
own reservation exactly when every accepted command found both made since the command before it. -/
theorem one_authorisation_one_command_iff (ext : Externals) (steps : List Step)
    (json : ∀ step ∈ steps, step.IsJson) (aggregateId : String) :
    OwnAuthorisations ((Db.empty.run ext steps).eventsOf aggregateId) ↔
      EveryAccepted ext steps (FreshAuthorisation aggregateId) := by
  induction steps using List.reverseRecOn with
  | nil =>
    constructor
    · rintro - front call cut
      simp at cut
    · exact fun _ => ⟨List.Pairwise.nil, List.Pairwise.nil⟩
  | append_singleton steps step induct =>
    have jsonBefore : ∀ step ∈ steps, step.IsJson :=
      fun step mem => json step (List.mem_append_left _ mem)
    have sound : LogSound (Db.empty.run ext steps) := Db.run_logSound jsonBefore
    rw [everyAccepted_concat, ← induct jsonBefore, Db.run_concat]
    cases step with
    | tamper other row =>
      rw [Db.step, tampered_eventsOf]
      simp
    | append call =>
      simp only [Db.step]
      cases out : appendEvent ext (Db.empty.run ext steps) call with
      | ok next =>
        rw [ownAuthorisations_append sound (json (.append call) (by simp)) out]
        simp [out, Except.isOk, Except.toBool]
      | error error => simp [out, Except.isOk, Except.toBool]

def samplePayload : Payload := { eventId := .str "event-1", finalIntentId := .str "intent-1" }

def revalidationCall : Call :=
  sampleCall .preSubmitRevalidated { samplePayload with rest := "revalidation of intent-1" }

def reservationCall : Call := sampleCall .liveCapReserved samplePayload

def commandCall (revalidation reservation : ℕ) : Call :=
  sampleCall .executionCommandCreated
    { samplePayload with
      preSubmitEventHash := .str (sampleAggregate ++ "#" ++ toString revalidation)
      liveCapReservedEventHash := .str (sampleAggregate ++ "#" ++ toString reservation) }

def freshSteps : List Step :=
  [.append revalidationCall, .append reservationCall, .append (commandCall 1 2),
    .append revalidationCall, .append reservationCall, .append (commandCall 4 5)]

theorem one_authorisation_one_command_sample :
    ((Db.empty.run sampleExternals freshSteps).eventsOf sampleAggregate).length = 6 ∧
      EveryAccepted sampleExternals freshSteps (FreshAuthorisation sampleAggregate) := by
  have json : ∀ step ∈ freshSteps, step.IsJson := by
    intro step mem
    fin_cases mem <;> rfl
  refine ⟨by decide +kernel,
    (one_authorisation_one_command_iff _ freshSteps json sampleAggregate).mp ?_⟩
  unfold OwnAuthorisations DistinctHashes
  decide +kernel

/-- A second revalidation, and a second command on the first reservation. -/
def reusedReservation : List Step :=
  [.append revalidationCall, .append reservationCall, .append (commandCall 1 2),
    .append revalidationCall, .append (commandCall 4 2)]

theorem reservation_authorises_two_commands :
    ¬ (((Db.empty.run sampleExternals reusedReservation).eventsOf sampleAggregate).length = 5 →
        OwnAuthorisations
          ((Db.empty.run sampleExternals reusedReservation).eventsOf sampleAggregate)) := by
  unfold OwnAuthorisations DistinctHashes
  decide +kernel

def readProjection (ext : Externals) (db : Db) (aggregateId : String) : Option ProjectionRow :=
  match projectionRowForAppend ext db aggregateId with
  | .ok projection => projection
  | .error _ => none

/-- The order id that the acknowledgement of the current command, or failing that its unknown,
names. -/
def currentOrderId (db : Db) (aggregateId : String) : Value :=
  boundOrderId
    (Log.latest (fun row => decide (row.eventType = .venueSubmitAcknowledged))
        (db.sinceCommand aggregateId))
    (Log.latest (fun row => decide (row.eventType = .submitUnknown)) (db.sinceCommand aggregateId))

/-- What the rows since the current command have to show for the event of the call. -/
def EvidenceOfCommand (ext : Externals) (db : Db) (call : Call) : Prop :=
  let since := db.sinceCommand call.aggregateId
  match call.eventType with
  | .venueSubmitAttempted => ¬ Occurs since .venueSubmitAttempted
  | .venueSubmitAcknowledged | .submitUnknown => Occurs since .venueSubmitAttempted
  | .submitRejected =>
    isPreSubmitRejection call.payload = false → Occurs since .venueSubmitAttempted
  | .capTransitioned => call.payload.toStatus.orEmpty = "RELEASED" →
      Occurs since .submitRejected ∨ Occurs since .reconciled
  | .reconciled =>
    Occurs since .submitUnknown ∨ pendingReconcile (readProjection ext db call.aggregateId) = true
  | .userOrderObserved | .userTradeObserved => (∃ submit ∈ submitTypes, Occurs since submit) ∧
      ((currentOrderId db call.aggregateId).truthy = true →
        userChannelOrderId call.payload = (currentOrderId db call.aggregateId).text)
  | _ => True

/-- The lookups over the whole aggregate found no row of an earlier command, and an acknowledgement
of an earlier command does not contradict the current unknown. -/
def LookupsCurrent (ext : Externals) (db : Db) (call : Call) : Prop :=
  let aggregateId := call.aggregateId
  match call.eventType with
  | .capTransitioned => call.payload.toStatus.orEmpty = "RELEASED" →
      ¬ Occurs (db.sinceCommand aggregateId) .submitRejected →
        NotStale db aggregateId (db.latestRowOfType aggregateId .reconciled)
  | .reconciled => pendingReconcile (readProjection ext db aggregateId) = false →
      NotStale db aggregateId (db.latestRowOfType aggregateId .submitUnknown)
  | .userOrderObserved | .userTradeObserved =>
    (∃ submit ∈ submitTypes, IsCurrent db aggregateId (db.latestRowOfType aggregateId submit)) ∧
    ∀ ack unknown, db.latestRowOfType aggregateId .venueSubmitAcknowledged = some ack →
      ack ∉ db.sinceCommand aggregateId →
      db.latestRowOfType aggregateId .submitUnknown = some unknown →
      unknown ∈ db.sinceCommand aggregateId → unknown.payload.venueOrderId.truthy = true →
      ack.payload.venueOrderId.text = unknown.payload.venueOrderId.text
  | _ => True

theorem readied_find_own {projection : Option ProjectionRow}
    (read : projectionRowForAppend ext db aggregateId = .ok projection) :
    (db.readied projection).projections.find aggregateId = projection := by
  cases projection with
  | none =>
    unfold projectionRowForAppend at read
    split at read
    · split at read <;> rename_i stored
      · cases read
      · simpa [Db.readied] using stored
    · split at read
      · cases read
      · split at read
        · cases read
        · split at read <;> cases read
  | some row =>
    rw [Db.readied, Db.withProjection_find, projectionRowForAppend_key read, if_pos rfl]

theorem current_lookup
    (current : db.latestRowOfType aggregateId .executionCommandCreated = some command)
    (eventType : LiveOrderEventType) :
    Log.latest (fun row => decide (row.eventType = eventType)) (db.sinceCommand aggregateId) =
      db.latestRowOfType aggregateId eventType ∨
    Log.latest (fun row => decide (row.eventType = eventType)) (db.sinceCommand aggregateId) =
      none ∧
    ∃ row, db.latestRowOfType aggregateId eventType = some row ∧
      row ∉ db.sinceCommand aggregateId := by
  rw [latest_sinceCommand current]
  cases hf : db.latestRowOfType aggregateId eventType with
  | none => exact Or.inl rfl
  | some row =>
    by_cases after : command.eventSequence < row.eventSequence
    · exact Or.inl (by simp [Option.filter, after])
    · exact Or.inr ⟨by simp [Option.filter, after], row, rfl, fun later =>
        after ((mem_sinceCommand current).mp later).2⟩

/-- The user channel: the order id the ledger checks is that of the current command, unless an
acknowledgement of an earlier command stands before the current unknown. -/
theorem userChannel_evidence_iff (sound : LogSound db)
    (current : db.latestRowOfType aggregateId .executionCommandCreated = some command)
    {orderId : String}
    (checked : (boundOrderId (db.latestRowOfType aggregateId .venueSubmitAcknowledged)
          (db.latestRowOfType aggregateId .submitUnknown)).truthy = true →
      orderId = (boundOrderId (db.latestRowOfType aggregateId .venueSubmitAcknowledged)
          (db.latestRowOfType aggregateId .submitUnknown)).text) :
    ((currentOrderId db aggregateId).truthy = true →
        orderId = (currentOrderId db aggregateId).text) ↔
      ∀ ack unknown, db.latestRowOfType aggregateId .venueSubmitAcknowledged = some ack →
        ack ∉ db.sinceCommand aggregateId →
        db.latestRowOfType aggregateId .submitUnknown = some unknown →
        unknown ∈ db.sinceCommand aggregateId → unknown.payload.venueOrderId.truthy = true →
        ack.payload.venueOrderId.text = unknown.payload.venueOrderId.text := by
  unfold currentOrderId
  rcases current_lookup current .venueSubmitAcknowledged with ackCurrent |
    ⟨noAck, ack, hack, staleAck⟩
  · -- the acknowledgement is that of the current command, or there is none at all
    rw [ackCurrent]
    cases hack : db.latestRowOfType aggregateId .venueSubmitAcknowledged with
    | some ack =>
      rw [hack] at checked ackCurrent
      have hin : ack ∈ db.sinceCommand aggregateId := (Log.latest_some ackCurrent).1
      refine ⟨fun _ other unknown same stale => ?_, fun _ => checked⟩
      cases same
      exact absurd hin stale
    | none =>
      rw [hack] at checked
      refine ⟨fun _ _ _ same => (nomatch same), fun _ => ?_⟩
      rcases current_lookup current .submitUnknown with unkCur | ⟨noUnknown, -⟩
      · rw [unkCur]
        exact checked
      · rw [noUnknown]
        simp [boundOrderId, Value.truthy]
  · -- an acknowledgement of an earlier command decides what the ledger checks
    rw [noAck]
    have named : ack.payload.venueOrderId.truthy = true :=
      sound.acknowledged ack (mem_eventsOf.mp (latestRowOfType_some hack).1).1
        (latestRowOfType_some hack).2
    rw [hack] at checked
    have carries : orderId = ack.payload.venueOrderId.text := checked named
    rcases current_lookup current .submitUnknown with unkCur |
      ⟨noUnknown, stale, foundUnknown, outside⟩
    · rw [unkCur]
      cases foundUnknown : db.latestRowOfType aggregateId .submitUnknown with
      | none => simp [boundOrderId, Value.truthy]
      | some unknown =>
        rw [foundUnknown] at unkCur
        have hin : unknown ∈ db.sinceCommand aggregateId := (Log.latest_some unkCur).1
        constructor
        · intro holds other unknown' sameAck _ sameUnknown _ truthy
          obtain rfl : ack = other := Option.some.inj (hack.symm.trans sameAck)
          cases sameUnknown
          exact carries.symm.trans (holds truthy)
        · intro agrees truthy
          exact carries.trans (agrees ack unknown hack staleAck rfl hin truthy)
    · rw [noUnknown]
      refine ⟨fun _ other unknown _ _ hf hin => ?_, fun _ truthy => nomatch truthy⟩
      rw [foundUnknown] at hf
      cases hf
      exact absurd hin outside

def precedesCommand : LiveOrderEventType → Bool
  | .decisionProofAccepted | .submitPlanBuilt | .liveCapReserved | .preSubmitRevalidated
  | .executionCommandCreated => true
  | _ => false

theorem appendRefusal_commanded (valid : appendRefusal ext db call = none)
    (needs : precedesCommand call.eventType = false) :
    ∃ command, db.latestRowOfType call.aggregateId .executionCommandCreated = some command ∧
      commandedRefusal db call command = none := by
  unfold appendRefusal at valid
  split at valid
  all_goals try (rename_i kind; simp [kind, precedesCommand] at needs)
  split at valid <;> rename_i hf
  · cases valid
  · exact ⟨_, hf, valid⟩

/-- In the state before an accepted append, the rows since the current command show what its event
needs exactly when the lookups it was accepted on are current. -/
theorem evidence_iff (sound : LogSound db) (acc : appendEvent ext db call = .ok next) :
    EvidenceOfCommand ext db call ↔ LookupsCurrent ext db call := by
  obtain ⟨projection, stored, state, appended⟩ := appendEvent_ok acc
  have isRead : readProjection ext db call.aggregateId = projection := by
    rw [readProjection, appended.read]
  by_cases early : precedesCommand call.eventType = true
  · -- nothing is asked of the events that come before a command
    unfold EvidenceOfCommand LookupsCurrent
    cases kind : call.eventType <;> simp_all [precedesCommand]
  obtain ⟨command, hf, checks⟩ := appendRefusal_commanded appended.valid (by simpa using early)
  rw [readied_latestRowOfType] at hf
  have attempt : (db.latestRowOfTypeAfter call.aggregateId .venueSubmitAttempted
        command.eventSequence).isSome =
      true ↔ Occurs (db.sinceCommand call.aggregateId) .venueSubmitAttempted :=
    latestRowOfTypeAfter_isSome hf
  simp only [EvidenceOfCommand, LookupsCurrent]
  cases kind : call.eventType with
  | decisionProofAccepted | submitPlanBuilt | preSubmitRevalidated | liveCapReserved
  | executionCommandCreated => simp [kind, precedesCommand] at early
  | orderLifecycleProjected => simp
  | venueSubmitAttempted =>
    simp only [commandedRefusal, kind, first_cons, require_eq_none, readied_latestRowOfTypeAfter]
      at checks
    simp [← attempt, checks.2.1]
  | venueSubmitAcknowledged | submitUnknown =>
    simp only [commandedRefusal, kind, first_cons, attemptRefusal, require_eq_none,
      readied_latestRowOfTypeAfter] at checks
    simp [← attempt, checks.1]
  | submitRejected =>
    simp only [commandedRefusal, kind, first_cons, attemptRefusal, readied_latestRowOfTypeAfter]
      at checks
    refine ⟨fun _ => trivial, fun _ venueSide => attempt.mp ?_⟩
    simpa [venueSide] using checks.1
  | capTransitioned =>
    simp only [commandedRefusal, kind, capTransitionRefusal, first_cons, require_eq_none,
      readied_latestRowOfTypeAfter, readied_latestRowOfType,
      latestRowOfTypeAfter_isSome hf] at checks
    refine forall_congr' fun rel => ?_
    rw [Decidable.or_iff_not_imp_left]
    refine forall_congr' fun notRejected => ?_
    exact (notStale_iff_occurs hf ((checks.2.2.2.2.1 rel).resolve_left notRejected)).symm
  | reconciled =>
    simp only [commandedRefusal, kind, require_eq_none, readied_latestRowOfType,
      readied_find_own appended.read] at checks
    rw [isRead]
    cases pend : pendingReconcile projection with
    | true => simp
    | false =>
      have hpos := checks.resolve_right (by simp [pend])
      simp [notStale_iff_occurs hf hpos]
  | userOrderObserved | userTradeObserved =>
    simp only [commandedRefusal, kind, userChannelRefusal, first_cons, require_eq_none,
      readied_latestRowOfType] at checks
    simp only [isCurrent_iff_occurs hf]
    rw [userChannel_evidence_iff sound hf checks.2.2.2.2.2.1]

/-- Over every history, each accepted event rests on evidence of the current command exactly when
the lookups over the whole aggregate that let it through found nothing older. -/
theorem evidence_belongs_to_command_iff (ext : Externals) (steps : List Step)
    (json : ∀ step ∈ steps, step.IsJson) :
    EveryAccepted ext steps (EvidenceOfCommand ext) ↔
      EveryAccepted ext steps (LookupsCurrent ext) := by
  refine forall_congr' fun front => forall_congr' fun call => forall_congr' fun cut =>
    forall_congr' fun acc => ?_
  have jsonFront : ∀ step ∈ front, step.IsJson := fun step mem =>
    json step (cut.subset (List.mem_append_left _ mem))
  cases out : appendEvent ext (Db.empty.run ext front) call with
  | ok next => exact evidence_iff (Db.run_logSound jsonFront) out
  | error error => simp [out, Except.isOk, Except.toBool] at acc

/-- An unknown submit of the first command is reconciled, then a second command is created. -/
def secondCommand : List Step :=
  [.append revalidationCall, .append reservationCall, .append (commandCall 1 2),
    .append (sampleCall .venueSubmitAttempted samplePayload),
    .append (sampleCall .submitUnknown samplePayload),
    .append (sampleCall .reconciled samplePayload),
    .append revalidationCall, .append reservationCall, .append (commandCall 7 8)]

theorem evidence_belongs_to_command_sample :
    ((Db.empty.run sampleExternals secondCommand).eventsOf sampleAggregate).length = 9 ∧
      (EveryAccepted sampleExternals secondCommand (EvidenceOfCommand sampleExternals) ↔
      EveryAccepted sampleExternals secondCommand (LookupsCurrent sampleExternals)) := by
  refine ⟨by decide +kernel, evidence_belongs_to_command_iff sampleExternals secondCommand ?_⟩
  intro step mem
  fin_cases mem <;> rfl

/-- The second command's reservation is released on nothing of its own. -/
def releaseCall : Call :=
  sampleCall .capTransitioned
    { samplePayload with toStatus := .str "RELEASED", executionReceiptHash := .str "receipt-2" }

theorem earlier_reconcile_releases_cap :
    ¬ EveryAccepted sampleExternals (secondCommand ++ [.append releaseCall])
        (EvidenceOfCommand sampleExternals) := by
  intro every
  have evid := every secondCommand releaseCall List.prefix_rfl (by decide +kernel)
  have hno : ¬ (Occurs ((Db.empty.run sampleExternals secondCommand).sinceCommand sampleAggregate)
        .submitRejected ∨
      Occurs ((Db.empty.run sampleExternals secondCommand).sinceCommand sampleAggregate)
        .reconciled) := by
    decide +kernel
  exact hno (evid rfl)

end Zeus.LiveOrder
