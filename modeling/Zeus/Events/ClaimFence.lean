import Zeus.Events.EventStore

/-! A row is in processing only through `claim`, and only `claim` counts attempts. So over every
history a processing row carries the generation of the latest claim granted on it. -/

namespace Zeus.EventStore

/-- Attempts are kept, and a row in processing already was, under the same generation. -/
structure Carried (old new : Option ProcessingRow) : Prop where
  attempts : ∀ row, old = some row → ∃ row', new = some row' ∧ row'.attemptCount = row.attemptCount
  held : ∀ row', new = some row' → row'.processingStatus = .processing →
    ∃ row, old = some row ∧ row.processingStatus = .processing ∧ row'.claimedAt = row.claimedAt

theorem Carried.refl (old : Option ProcessingRow) : Carried old old :=
  ⟨fun row hf => ⟨row, hf, rfl⟩, fun row hf busy => ⟨row, hf, busy, rfl⟩⟩

theorem Carried.trans {old mid new : Option ProcessingRow} (first : Carried old mid)
    (snd : Carried mid new) : Carried old new where
  attempts := by
    intro row hf
    obtain ⟨row', found', same⟩ := first.attempts row hf
    obtain ⟨row'', found'', same'⟩ := snd.attempts row' found'
    exact ⟨row'', found'', same'.trans same⟩
  held := by
    intro row'' found'' busy
    obtain ⟨row', found', busy', same'⟩ := snd.held row'' found'' busy
    obtain ⟨row, hf, busy, same⟩ := first.held row' found' busy'
    exact ⟨row, hf, busy, same'.trans same⟩

/-- An update that leaves a row out of processing, or leaves its claim alone. -/
structure Quiet (update : ProcessingRow → ProcessingRow) : Prop where
  key : ∀ row, (update row).eventId = row.eventId
  attempts : ∀ row, (update row).attemptCount = row.attemptCount
  held : ∀ row, (update row).processingStatus = .processing →
    row.processingStatus = .processing ∧ (update row).claimedAt = row.claimedAt

section
variable {update : ProcessingRow → ProcessingRow}

theorem Quiet.modifyWhere (quiet : Quiet update) (table : ProcessingTable)
    (p : ProcessingRow → Bool) (eventId : String) :
    Carried (table.find eventId) ((table.modifyWhere p update quiet.key).find eventId) := by
  rw [KeyedTable.find_modifyWhere]
  constructor
  · intro row hf
    rw [hf]
    refine ⟨_, rfl, ?_⟩
    dsimp only
    split
    · exact quiet.attempts row
    · rfl
  · intro row' found' busy
    obtain ⟨row, hf, rfl⟩ := Option.map_eq_some_iff.mp found'
    refine ⟨row, hf, ?_⟩
    split at busy <;> rename_i here
    · rw [if_pos here]
      exact quiet.held row busy
    · rw [if_neg here]
      exact ⟨busy, rfl⟩

theorem Quiet.modify (quiet : Quiet update) (table : ProcessingTable) (key eventId : String) :
    Carried (table.find eventId) ((table.modify key update quiet.key).find eventId) :=
  quiet.modifyWhere table _ eventId

theorem Quiet.of_status (status : ProcessingStatus) (idle : status ≠ .processing)
    (puts : ∀ row, (update row).processingStatus = status)
    (key : ∀ row, (update row).eventId = row.eventId)
    (atts : ∀ row, (update row).attemptCount = row.attemptCount) : Quiet update :=
  ⟨key, atts, fun row busy => absurd ((puts row).symm.trans busy) idle⟩
end

namespace ProcessingRow

theorem superseded_quiet : Quiet superseded :=
  .of_status .expired (by decide) (fun _ => rfl) superseded_eventId fun _ => rfl

theorem terminalized_quiet : Quiet terminalized :=
  .of_status .expired (by decide) (fun _ => rfl) terminalized_eventId fun _ => rfl

theorem released_quiet : Quiet released :=
  .of_status .pending (by decide) (fun _ => rfl) released_eventId fun _ => rfl

theorem requeued_quiet (nbf lerr : Option String) : Quiet (requeued nbf lerr) :=
  .of_status .pending (by decide) (fun _ => rfl) (requeued_eventId _ _) fun _ => rfl

theorem marked_quiet {status : ProcessingStatus} (idle : status ≠ .processing)
    (error : Option String) : Quiet (marked status error) :=
  .of_status status idle (fun _ => rfl) (marked_eventId _ _) fun _ => rfl

theorem fenced_quiet : Quiet fenced :=
  ⟨fenced_eventId, fun _ => rfl, fun _ busy => ⟨busy, rfl⟩⟩

end ProcessingRow

/-- The operation grants no claim, and leaves the stored events and the order log alone. -/
structure Keeps (old new : Store) : Prop where
  rows : ∀ eventId, Carried (old.main.find eventId) (new.main.find eventId)
  events : new.opportunityEvents = old.opportunityEvents
  orders : new.liveOrderEvents = old.liveOrderEvents

theorem Keeps.refl (store : Store) : Keeps store store := ⟨fun _ => Carried.refl _, rfl, rfl⟩

theorem Keeps.trans {old mid new : Store} (first : Keeps old mid) (snd : Keeps mid new) :
    Keeps old new :=
  ⟨fun eventId => (first.rows eventId).trans (snd.rows eventId), snd.events.trans first.events,
    snd.orders.trans first.orders⟩

theorem bindWinnerPointer_keeps (store : Store) (tgt : String) (preserve : List String) :
    Keeps store (bindWinnerPointer store tgt preserve) :=
  ⟨ProcessingRow.terminalized_quiet.modifyWhere _ _, rfl, rfl⟩

theorem expireLosers_keeps (store : Store) (losers : List String) :
    Keeps store (expireLosers store losers) :=
  ⟨ProcessingRow.superseded_quiet.modifyWhere _ _, rfl, rfl⟩

variable {store : Store} {eventId : String} {event : OpportunityEvent} {history : History}

theorem bootstrap_keeps {booted : Store} (ok : bootstrapLegacyWinnerPointer store = .ok booted) :
    Keeps store booted := by
  unfold bootstrapLegacyWinnerPointer at ok
  split at ok
  · cases ok
    exact Keeps.refl _
  · dsimp only at ok
    split at ok
    · cases ok
      exact ⟨fun _ => Carried.refl _, rfl, rfl⟩
    · split at ok
      · cases ok
      · cases ok
        exact (expireLosers_keeps store _).trans (bindWinnerPointer_keeps _ _ _)

theorem reconcile_keeps {booted : Store} (ok : reconcileBootWinnerPointer store = .ok booted) :
    Keeps store booted := by
  unfold reconcileBootWinnerPointer at ok
  dsimp only at ok
  split at ok
  · exact bootstrap_keeps ok
  · cases ok
    exact (expireLosers_keeps store _).trans (bindWinnerPointer_keeps _ _ _)

theorem requeueProcessingBeforeBoot_keeps {booted : Store} {boundary : String}
    (ok : requeueProcessingBeforeBoot store boundary = .ok booted) : Keeps store booted := by
  have released : Keeps store { store with main := releaseBefore store.main boundary } :=
    ⟨ProcessingRow.released_quiet.modifyWhere _ _, rfl, rfl⟩
  exact released.trans (reconcile_keeps ok)

theorem requeueClaimIfCurrent_keeps (store : Store) (claim : Claim) (nbf lerr : Option String) :
    Keeps store (requeueClaimIfCurrent store claim nbf lerr).1 := by
  unfold requeueClaimIfCurrent
  split
  · exact Keeps.refl _
  · split
    · dsimp only
      split
      · exact ⟨ProcessingRow.terminalized_quiet.modify _ _, rfl, rfl⟩
      · exact ⟨(ProcessingRow.requeued_quiet _ _).modify _ _, rfl, rfl⟩
    · exact Keeps.refl _

theorem requeuePending_keeps (store : Store) (eventId : String) (nbf lerr : Option String) :
    Keeps store (requeuePending store eventId nbf lerr) := by
  have requeued : Keeps store { store with
      main := store.main.modify eventId (ProcessingRow.requeued nbf lerr)
        (ProcessingRow.requeued_eventId nbf lerr) } :=
    ⟨(ProcessingRow.requeued_quiet _ _).modify _ _, rfl, rfl⟩
  unfold requeuePending
  dsimp only
  split
  · exact requeued.trans (bindWinnerPointer_keeps _ _ _)
  · exact requeued

theorem markTerminal_keeps (store : Store) (eventId : String) {status : ProcessingStatus}
    (idle : status ≠ .processing) (error : Option String) :
    Keeps store (markTerminal store eventId status error) :=
  ⟨(ProcessingRow.marked_quiet idle error).modify _ _, rfl, rfl⟩

theorem dispose_keeps (store : Store) (claim : Claim) (how : Disposition) :
    Keeps store (dispose store claim how) := by
  cases how with
  | requeuePending nbf lerr => exact requeuePending_keeps store _ nbf lerr
  | requeueClaimIfCurrent nbf lerr =>
    exact requeueClaimIfCurrent_keeps store claim nbf lerr
  | markProcessed => exact markTerminal_keeps store _ (by decide) none
  | markFailed error => exact markTerminal_keeps store _ (by decide) (some error)
  | markDeadLetter errorMessage => exact markTerminal_keeps store _ (by decide) (some errorMessage)

theorem insertOrIgnore_carried (store : Store) (event : OpportunityEvent) (eventId : String) :
    Carried (store.main.find eventId) ((insertOrIgnore store event).main.find eventId) := by
  simp only [insertOrIgnore]
  cases ins : store.main.tryInsert ⟨event.eventId, .pending, 0, none, none⟩ with
  | none => exact Carried.refl _
  | some main =>
    rw [Option.getD_some, KeyedTable.find_tryInsert ins]
    obtain ⟨fresh, -⟩ := KeyedTable.tryInsert_eq_some_iff.mp ins
    split <;> rename_i here
    · -- the row is new and pending
      subst here
      rw [fresh]
      constructor
      · intro row hf
        cases hf
      · intro row hf busy
        cases hf
        cases busy
    · exact Carried.refl _

theorem insertOrIgnore_events {hs : OpportunityEvent}
    (hf : store.opportunityEvents.find eventId = some hs) (event : OpportunityEvent) :
    (insertOrIgnore store event).opportunityEvents.find eventId = some hs := by
  simp only [insertOrIgnore]
  split
  · exact hf
  · cases ins : store.opportunityEvents.tryInsert event with
    | none => exact hf
    | some evs =>
      rw [Option.getD_some, KeyedTable.find_tryInsert ins]
      obtain ⟨fresh, -⟩ := KeyedTable.tryInsert_eq_some_iff.mp ins
      split <;> rename_i here
      · rw [here, hf] at fresh
        cases fresh
      · exact hf

structure FenceSaw (store : Store) (claim : Claim) (row : ProcessingRow) : Prop where
  found : store.main.find claim.eventId = some row
  processing : row.processingStatus = .processing
  attempts : row.attemptCount = claim.attemptCount
  noCommand : durableCommand store.liveOrderEvents claim.eventId = false

theorem fence_ok {fenced : Store} {claim : Claim}
    (ok : fenceGlobalTargetClaimBeforeCommand store event (some claim.claimedAt)
        (some claim.attemptCount) = .ok fenced) (same : event.eventId = claim.eventId) :
    Keeps store fenced ∧ (isGlobalTarget event = true → ∃ row, FenceSaw store claim row) := by
  unfold fenceGlobalTargetClaimBeforeCommand at ok
  split at ok <;> rename_i tgt
  · dsimp only at ok
    split at ok
    · cases ok
    split at ok <;> rename_i holds
    · cases ok
      refine ⟨⟨ProcessingRow.fenced_quiet.modify _ _, rfl, rfl⟩, fun _ => ?_⟩
      rw [same] at holds
      unfold fenceHolds at holds
      split at holds
      · rename_i row pointer hf _
        simp only [Bool.and_eq_true, decide_eq_true_eq, Bool.not_eq_true'] at holds
        obtain ⟨⟨busy, -, atts, -⟩, noCommand⟩ := holds
        exact ⟨row, hf, busy, atts, noCommand⟩
      · cases holds
    · cases ok
  · cases ok
    exact ⟨Keeps.refl _, fun isTarget => absurd isTarget tgt⟩

structure Committed (store : Store) (claim : Claim) (finalIntentId : String) (new : Store)
    (event : OpportunityEvent) : Prop where
  stored : store.opportunityEvents.find claim.eventId = some event
  rows : ∀ eventId, Carried (store.main.find eventId) (new.main.find eventId)
  events : new.opportunityEvents = store.opportunityEvents
  orders : new.liveOrderEvents =
    store.liveOrderEvents ++ liveOrderStateEvents claim.eventId finalIntentId
  fenced : isGlobalTarget event = true → ∃ row, FenceSaw store claim row

theorem submit_committed {new : Store} {claim : Claim} {fid : String}
    (comt : submit store claim fid = some new) :
    ∃ event, Committed store claim fid new event := by
  unfold submit at comt
  split at comt <;> rename_i hs
  · cases comt
  · rename_i event
    have same := (KeyedTable.find_some hs).2
    unfold appendLiveOrderState at comt
    split at comt <;> rename_i fence
    · cases comt
    · cases comt
      obtain ⟨keeps, saw⟩ := fence_ok fence same
      exact ⟨event, hs, keeps.rows, keeps.events, by rw [keeps.orders, same], saw⟩

inductive Effect (history : History) : History → Prop
  | other (store : Store)
      (rows : ∀ eventId, Carried (history.store.main.find eventId) (store.main.find eventId))
      (events : ∀ eventId event, history.store.opportunityEvents.find eventId = some event →
        store.opportunityEvents.find eventId = some event)
      (orders : history.store.liveOrderEvents <+: store.liveOrderEvents) :
      Effect history { history with store }
  | granted (eventId claimedAt : String) (row : ProcessingRow)
      (found : history.store.main.find eventId = some row) :
      Effect history
        { history with
          store := { history.store with
            main := history.store.main.modify eventId (ProcessingRow.claimed claimedAt)
              (ProcessingRow.claimed_eventId claimedAt) }
          claims := history.claims ++ [⟨eventId, claimedAt, row.attemptCount + 1⟩] }
  | committed (claim : Claim) (finalIntentId : String) (store : Store) (event : OpportunityEvent)
      (commit : Committed history.store claim finalIntentId store event) :
      Effect history { history with store, commits := history.commits ++ [claim] }

theorem Effect.of_keeps (keeps : Keeps history.store store) :
    Effect history { history with store } :=
  .other store keeps.rows (fun _ _ hf => by rw [keeps.events]; exact hf) (by rw [keeps.orders])

theorem History.step_effect (history : History) (step : Step) :
    Effect history (history.step step) := by
  cases step with
  | insertOrIgnore event =>
    exact .other _ (insertOrIgnore_carried history.store event)
      (fun _ _ hf => insertOrIgnore_events hf event) List.prefix_rfl
  | claim eventId cat leaseCutoff =>
    simp only [History.step, EventStore.claim]
    cases hf : history.store.main.find eventId with
    | none => exact .of_keeps (Keeps.refl _)
    | some row =>
      dsimp only
      by_cases free : claimable history.store.liveOrderEvents leaseCutoff row = true
      · rw [if_pos free]
        have counted : attemptCount { history.store with
            main := history.store.main.modify eventId (ProcessingRow.claimed cat)
              (ProcessingRow.claimed_eventId cat) } eventId = row.attemptCount + 1 := by
          rw [attemptCount, KeyedTable.find_modify, if_pos rfl, hf]
          rfl
        dsimp only
        rw [counted]
        exact .granted eventId cat row hf
      · rw [if_neg free]
        exact .of_keeps (Keeps.refl _)
  | dispose claim how => exact .of_keeps (dispose_keeps history.store claim how)
  | requeueProcessingBeforeBoot bnd =>
    simp only [History.step]
    split <;> rename_i booted
    · exact .of_keeps (Keeps.refl _)
    · exact .of_keeps (requeueProcessingBeforeBoot_keeps booted)
  | changePointer pointer => exact .of_keeps ⟨fun _ => Carried.refl _, rfl, rfl⟩
  | appendLiveOrderEvent order =>
    exact .other _ (fun _ => Carried.refl _) (fun _ _ hf => hf) (List.prefix_append _ _)
  | submit claim fid =>
    simp only [History.step]
    split <;> rename_i out
    · exact .of_keeps (Keeps.refl _)
    · obtain ⟨event, commit⟩ := submit_committed out
      exact .committed claim fid _ event commit

def latestClaim (claims : List Claim) (eventId : String) : Option Claim :=
  Log.latest (fun claim => decide (claim.eventId = eventId)) claims

/-- Attempt counts of the granted claims grow with the row's, and a row in processing carries
the generation of the last one. -/
structure Generations (history : History) : Prop where
  counted : ∀ claim ∈ history.claims, ∃ row,
    history.store.main.find claim.eventId = some row ∧ claim.attemptCount ≤ row.attemptCount
  ordered : history.claims.Pairwise fun claim later =>
    claim.eventId = later.eventId → claim.attemptCount < later.attemptCount
  current : ∀ claim eventId row, latestClaim history.claims eventId = some claim →
    history.store.main.find eventId = some row → row.processingStatus = .processing →
    row.claimedAt = some claim.claimedAt ∧ row.attemptCount = claim.attemptCount

theorem Generations.carry (sound : Generations history) (commits : List Claim)
    (rows : ∀ eventId, Carried (history.store.main.find eventId) (store.main.find eventId)) :
    Generations { history with store, commits } where
  counted := by
    intro claim hgr
    obtain ⟨row, hf, le⟩ := sound.counted claim hgr
    obtain ⟨row', found', same⟩ := (rows claim.eventId).attempts row hf
    exact ⟨row', found', same ▸ le⟩
  ordered := sound.ordered
  current := by
    intro claim eventId row' last found' busy'
    obtain ⟨row, hf, busy, sameGeneration⟩ := (rows eventId).held row' found' busy'
    obtain ⟨other, isOther, sameAtt⟩ := (rows eventId).attempts row hf
    obtain rfl : row' = other := Option.some.inj (found'.symm.trans isOther)
    obtain ⟨gen, atts⟩ := sound.current claim eventId row last hf busy
    exact ⟨sameGeneration.trans gen, sameAtt.trans atts⟩

theorem Generations.grant (sound : Generations history)
    {row : ProcessingRow} (hf : history.store.main.find eventId = some row) (cat : String) :
    Generations { history with
      store := { history.store with
        main := history.store.main.modify eventId (ProcessingRow.claimed cat)
          (ProcessingRow.claimed_eventId cat) }
      claims := history.claims ++ [⟨eventId, cat, row.attemptCount + 1⟩] } where
  counted := by
    intro claim hgr
    dsimp only at hgr ⊢
    rw [KeyedTable.find_modify]
    rcases List.mem_append.mp hgr with old | new
    · obtain ⟨before, foundBefore, le⟩ := sound.counted claim old
      rw [foundBefore]
      split
      · exact ⟨_, rfl, Nat.le_succ_of_le le⟩
      · exact ⟨before, rfl, le⟩
    · obtain rfl := List.mem_singleton.mp new
      rw [if_pos rfl, hf]
      exact ⟨_, rfl, le_refl _⟩
  ordered := by
    refine List.pairwise_append.mpr ⟨sound.ordered, List.pairwise_singleton _ _, ?_⟩
    intro claim old new isNew sameEv
    obtain rfl := List.mem_singleton.mp isNew
    obtain ⟨before, foundBefore, le⟩ := sound.counted claim old
    rw [sameEv, hf] at foundBefore
    cases foundBefore
    exact Nat.lt_succ_of_le le
  current := by
    intro claim key row' last found' busy'
    dsimp only at found'
    rw [KeyedTable.find_modify] at found'
    rw [latestClaim, Log.latest_concat] at last
    by_cases here : key = eventId
    · subst here
      rw [if_pos rfl, hf] at found'
      rw [if_pos (by simp)] at last
      cases found'
      cases last
      exact ⟨rfl, rfl⟩
    · rw [if_neg here] at found'
      rw [if_neg (by simpa using Ne.symm here)] at last
      exact sound.current claim key row' last found' busy'

theorem Generations.step {next : History} (sound : Generations history)
    (effect : Effect history next) : Generations next := by
  cases effect with
  | other store rows evs orders => exact sound.carry history.commits rows
  | granted eventId cat row hf => exact sound.grant hf cat
  | committed claim fid store event commit => exact sound.carry _ commit.rows

theorem History.run_generations (store : Store) (steps : List Step) :
    Generations ((History.start store).run steps) := by
  induction steps using List.reverseRecOn with
  | nil => exact ⟨nofun, List.Pairwise.nil, nofun⟩
  | append_singleton steps step sound =>
    rw [History.run_concat]
    exact sound.step (History.step_effect _ step)

/-- Over every history the attempt count fences the claims on an event: each grant has a greater one
than the grants before it, and a row in processing carries the stamp and the count of the latest. -/
theorem attempts_fence_claims (store : Store) (steps : List Step) :
    ((History.start store).run steps).claims.Pairwise
      (fun claim later => claim.eventId = later.eventId → claim.attemptCount < later.attemptCount) ∧
    ∀ claim eventId row, latestClaim ((History.start store).run steps).claims eventId = some claim →
      ((History.start store).run steps).store.main.find eventId = some row →
      row.processingStatus = .processing →
      row.claimedAt = some claim.claimedAt ∧ row.attemptCount = claim.attemptCount := by
  have sound := History.run_generations store steps
  exact ⟨sound.ordered, sound.current⟩

theorem Generations.claim_ext (sound : Generations history) {claim other : Claim}
    (hgr : claim ∈ history.claims) (granted' : other ∈ history.claims)
    (sameEv : claim.eventId = other.eventId) (sameAtt : claim.attemptCount = other.attemptCount) :
    claim = other := by
  by_contra different
  have hne : ∀ c ∈ history.claims, ∀ d ∈ history.claims, c ≠ d →
      c.eventId = d.eventId → c.attemptCount ≠ d.attemptCount := by
    apply List.Pairwise.forall_of_forall_of_flip
    · exact fun c _ nd => absurd rfl nd
    · exact sound.ordered.imp fun less _ sameEv => (less sameEv).ne
    · exact sound.ordered.imp fun less _ sameEv => (less sameEv.symm).ne'
  exact hne claim hgr other granted' different sameEv sameAtt

/-- The event id holds no `GLOB` wildcard. -/
def PlainId (eventId : String) : Prop := ∀ c ∈ eventId.toList, Glob.isWildcard c = false

instance (eventId : String) : Decidable (PlainId eventId) := List.decidableBAll _ _

theorem ofCarrier_own (plain : PlainId eventId) (fid : String) :
    ofCarrier eventId (liveOrderAggregateId eventId fid) = true := by
  unfold ofCarrier
  rw [Glob.glob_star]
  · simp [liveOrderAggregateId, String.toList_append]
  · intro c mem
    rcases List.mem_append.mp mem with inId | colon
    · exact plain c inId
    · obtain rfl := List.mem_singleton.mp colon
      decide

theorem durableCommand_append (orders later : List LiveOrderEvent) (eventId : String) :
    durableCommand (orders ++ later) eventId =
      (durableCommand orders eventId || durableCommand later eventId) := by
  simp [durableCommand]

theorem durableCommand_liveOrderState (plain : PlainId eventId) (fid : String) :
    durableCommand (liveOrderStateEvents eventId fid) eventId = true := by
  simp [durableCommand, liveOrderStateEvents, ofCarrier_own plain]

def commitsOf (history : History) (eventId : String) : List Claim :=
  history.commits.filter fun claim => claim.eventId = eventId

/-- Stored under a global-winner source, if stored at all. -/
def OnlyGlobalTarget (store : Store) (eventId : String) : Prop :=
  ∀ event, store.opportunityEvents.find eventId = some event → isGlobalTarget event = true

/-- At most one commit, and its command is on record. -/
structure CommittedOnce (history : History) (eventId : String) : Prop where
  once : (commitsOf history eventId).length ≤ 1
  recorded : commitsOf history eventId ≠ [] →
  durableCommand history.store.liveOrderEvents eventId = true

theorem CommittedOnce.step {next : History} (plain : PlainId eventId)
    (tgt : OnlyGlobalTarget history.store eventId) (sound : CommittedOnce history eventId)
    (effect : Effect history next) : CommittedOnce next eventId := by
  cases effect with
  | other store rows evs orders =>
    refine ⟨sound.once, fun hpos => ?_⟩
    obtain ⟨later, app⟩ := orders
    dsimp only
    rw [← app, durableCommand_append, sound.recorded hpos, Bool.true_or]
  | granted key cat row hf => exact ⟨sound.once, sound.recorded⟩
  | committed claim fid store event commit =>
    have records : store.liveOrderEvents =
      history.store.liveOrderEvents ++ liveOrderStateEvents claim.eventId fid := commit.orders
    by_cases own : claim.eventId = eventId
    · -- the fence saw no command, so this is the first commit
      subst own
      obtain ⟨row, saw⟩ := commit.fenced (tgt event commit.stored)
      have first : commitsOf history claim.eventId = [] := by
        by_contra hpos
        exact absurd (sound.recorded hpos) (by simp [saw.noCommand])
      constructor
      · simp only [commitsOf, List.filter_append, List.length_append] at first ⊢
        simp [first]
      · intro _
        dsimp only
        rw [records, durableCommand_append, durableCommand_liveOrderState plain, Bool.or_true]
    · have same : commitsOf { history with store, commits := history.commits ++ [claim] } eventId =
          commitsOf history eventId := by
        simp [commitsOf, List.filter_append, own]
      refine ⟨same ▸ sound.once, fun hpos => ?_⟩
      dsimp only
      rw [records, durableCommand_append, sound.recorded (same ▸ hpos), Bool.true_or]

theorem Effect.events {next : History} (effect : Effect history next)
    (hs : history.store.opportunityEvents.find eventId = some event) :
    next.store.opportunityEvents.find eventId = some event := by
  cases effect with
  | other store rows evs orders => exact evs eventId event hs
  | granted key cat row hf => exact hs
  | committed claim fid store subm commit =>
    dsimp only
    rw [commit.events]
    exact hs

theorem History.run_events (hs : history.store.opportunityEvents.find eventId = some event)
    (steps : List Step) :
    (history.run steps).store.opportunityEvents.find eventId = some event := by
  induction steps using List.reverseRecOn with
  | nil => exact hs
  | append_singleton steps step kept =>
    rw [History.run_concat]
    exact (History.step_effect _ step).events kept

theorem OnlyGlobalTarget.before {steps : List Step}
    (tgt : OnlyGlobalTarget (history.run steps).store eventId) :
    OnlyGlobalTarget history.store eventId :=
  fun event hs => tgt event (History.run_events hs steps)

theorem History.run_append (history : History) (front back : List Step) :
    history.run (front ++ back) = (history.run front).run back := List.foldl_append

theorem History.run_committedOnce (store : Store) (steps : List Step) (plain : PlainId eventId)
    (tgt : OnlyGlobalTarget ((History.start store).run steps).store eventId) :
    CommittedOnce ((History.start store).run steps) eventId := by
  induction steps using List.reverseRecOn with
  | nil => exact ⟨Nat.zero_le 1, fun hpos => absurd rfl hpos⟩
  | append_singleton steps step sound =>
    rw [History.run_append] at tgt
    rw [History.run_concat]
    exact (sound tgt.before).step plain tgt.before (History.step_effect _ step)

theorem submit_latest (sound : Generations history) {claim : Claim}
    (hgr : claim ∈ history.claims) (tgt : OnlyGlobalTarget history.store claim.eventId)
    {fid : String} (commits : (submit history.store claim fid).isSome = true) :
    latestClaim history.claims claim.eventId = some claim := by
  obtain ⟨new, comt⟩ := Option.isSome_iff_exists.mp commits
  obtain ⟨event, commit⟩ := submit_committed comt
  obtain ⟨row, saw⟩ := commit.fenced (tgt event commit.stored)
  have his : (latestClaim history.claims claim.eventId).isSome = true :=
    Log.latest_isSome.mpr ⟨claim, hgr, by simp⟩
  obtain ⟨lat, isLat⟩ := Option.isSome_iff_exists.mp his
  obtain ⟨mem, sameEv⟩ := Log.latest_some isLat
  have atts := (sound.current lat _ row isLat saw.found saw.processing).2
  rw [isLat, sound.claim_ext hgr mem (by simpa using (of_decide_eq_true sameEv).symm)
    (saw.attempts.symm.trans atts)]

/-- Over every history at most one submit transaction of a global target commits, and the claim
it commits under is the last one granted on the target. -/
theorem global_target_commits_once (store : Store) (steps : List Step) (event : OpportunityEvent)
    (hs : ((History.start store).run steps).store.opportunityEvents.find event.eventId = some event)
    (tgt : isGlobalTarget event = true) (plain : PlainId event.eventId) :
    (commitsOf ((History.start store).run steps) event.eventId).length ≤ 1 ∧
      ∀ (front : List Step) (claim : Claim) (fid : String),
      front ++ [.submit claim fid] <+: steps → claim.eventId = event.eventId →
      claim ∈ ((History.start store).run front).claims →
      (submit ((History.start store).run front).store claim fid).isSome = true →
      latestClaim ((History.start store).run front).claims event.eventId = some claim := by
  have only : OnlyGlobalTarget ((History.start store).run steps).store event.eventId := by
    intro other hf
    rwa [← Option.some.inj (hs.symm.trans hf)]
  refine ⟨(History.run_committedOnce store steps plain only).once, ?_⟩
  rintro front claim fid ⟨back, rfl⟩ own hgr commits
  rw [List.append_assoc, History.run_append] at only
  rw [← own] at only ⊢
  exact submit_latest (History.run_generations store front) hgr only.before commits

def sampleCarrier : OpportunityEvent :=
  ⟨"event-1", "key-1", "global_auction_winner_target:family-1", "2026-06-01T00:00:00+00:00"⟩

def sampleClaim : Claim := ⟨"event-1", "2026-06-01T00:00:30+00:00", 1⟩

/-- The carrier is made the winner, claimed and submitted; a second submit finds the command. -/
def sampleSteps : List Step :=
  [.insertOrIgnore sampleCarrier,
    .dispose sampleClaim (.requeuePending none (some globalWinnerTargetedClaim)),
    .claim "event-1" "2026-06-01T00:00:30+00:00" "2026-05-31T23:55:30+00:00",
    .submit sampleClaim "intent-1",
    .submit sampleClaim "intent-2"]

theorem global_target_commits_once_sample :
    commitsOf ((History.start ⟨.empty, .empty, .empty, []⟩).run sampleSteps) "event-1" =
      [sampleClaim] ∧
    (commitsOf ((History.start ⟨.empty, .empty, .empty, []⟩).run sampleSteps) "event-1").length ≤
      1 :=
  ⟨by decide +kernel,
    (global_target_commits_once ⟨.empty, .empty, .empty, []⟩ sampleSteps sampleCarrier
    (by decide +kernel) (by decide +kernel) (by decide +kernel)).1⟩

def Reclaimed (history : History) (stale : Claim) : Prop :=
  ∃ newer, newer.eventId = stale.eventId ∧ List.Sublist [stale, newer] history.claims

/-- What a disposition writes to the row of a claim that is no longer current. -/
def Disposition.writes : Disposition → ProcessingRow → ProcessingRow
  | .requeuePending notBefore lastError, row => row.requeued notBefore lastError
  | .requeueClaimIfCurrent _ _, row => row
  | .markProcessed, row => row.marked .processed none
  | .markFailed error, row => row.marked .failed (some error)
  | .markDeadLetter errorMessage, row => row.marked .deadLetter (some errorMessage)

theorem Generations.reclaimed (sound : Generations history) {stale : Claim}
    (recl : Reclaimed history stale) {row : ProcessingRow}
    (hf : history.store.main.find stale.eventId = some row) : ownedBy stale row = false := by
  obtain ⟨newer, sameEv, later⟩ := recl
  have less : stale.attemptCount < newer.attemptCount :=
    List.rel_of_pairwise_cons (sound.ordered.sublist later) List.mem_cons_self sameEv.symm
  obtain ⟨other, found', le⟩ := sound.counted newer (later.subset (by simp))
  rw [sameEv, hf] at found'
  cases found'
  simp only [ownedBy, decide_eq_false_iff_not]
  rintro ⟨-, -, atts⟩
  omega

theorem bindWinnerPointer_find_own (store : Store) (eventId : String) (preserve : List String) :
    (bindWinnerPointer store eventId preserve).main.find eventId = store.main.find eventId := by
  simp only [bindWinnerPointer, terminalizeSuperseded]
  rw [KeyedTable.find_modifyWhere]
  cases hf : store.main.find eventId with
  | none => rfl
  | some row =>
    have own := (KeyedTable.find_some hf).2
    have unnamed : row.eventId ∉ supersededTargetIds store eventId := by
      rw [own]
      simp only [supersededTargetIds, List.mem_map, List.mem_filter, decide_eq_true_eq]
      rintro ⟨pointer, ⟨-, -, other, -⟩, same⟩
      exact other same
    rw [Option.map_some, if_neg (by simp [unnamed])]

theorem markTerminal_find_own (store : Store) (eventId : String) (status : ProcessingStatus)
    (error : Option String) : (markTerminal store eventId status error).main.find eventId =
      (store.main.find eventId).map (ProcessingRow.marked status error) := by
  simp only [markTerminal]
  rw [KeyedTable.find_modify, if_pos rfl]

theorem dispose_find (sound : Generations history) {stale : Claim}
    (recl : Reclaimed history stale) (how : Disposition) :
    (dispose history.store stale how).main.find stale.eventId =
      (history.store.main.find stale.eventId).map how.writes := by
  cases how with
  | requeuePending nbf lerr =>
    simp only [dispose, requeuePending]
    split
    · rw [bindWinnerPointer_find_own, KeyedTable.find_modify, if_pos rfl]
      rfl
    · rw [KeyedTable.find_modify, if_pos rfl]
      rfl
  | requeueClaimIfCurrent nbf lerr =>
    simp only [dispose, requeueClaimIfCurrent]
    cases hf : history.store.main.find stale.eventId with
    | none => simpa using hf
    | some row =>
      dsimp only
      rw [sound.reclaimed recl hf]
      exact hf
  | markProcessed => exact markTerminal_find_own _ _ _ _
  | markFailed error => exact markTerminal_find_own _ _ _ _
  | markDeadLetter errorMessage => exact markTerminal_find_own _ _ _ _

/-- The row stands as the disposition would leave it. Only `requeue_claim_if_current` asks nothing
of the row, since it sees that the claim is no longer current. -/
def Disposition.Repeats : Disposition → ProcessingRow → Prop
  | .requeuePending notBefore lastError, row =>
    row.processingStatus = .pending ∧ row.claimedAt = notBefore ∧ row.lastError = lastError
  | .requeueClaimIfCurrent _ _, _ => True
  | .markProcessed, row => row.processingStatus = .processed ∧ row.lastError = none
  | .markFailed error, row => row.processingStatus = .failed ∧ row.lastError = some error
  | .markDeadLetter errorMessage, row =>
    row.processingStatus = .deadLetter ∧ row.lastError = some errorMessage

theorem Disposition.writes_eq_iff (how : Disposition) (row : ProcessingRow) :
    how.writes row = row ↔ how.Repeats row := by
  cases row with
  | mk eventId status atts cat lerr =>
    cases how <;>
      simp [writes, Repeats, ProcessingRow.requeued, ProcessingRow.marked, eq_comm]

theorem Disposition.repeats_processing_iff (how : Disposition) {row : ProcessingRow}
    (h : row.processingStatus = .processing) :
    how.Repeats row ↔ ∃ nbf lerr, how = .requeueClaimIfCurrent nbf lerr := by
  cases how <;> simp [Repeats, h]

/-- A disposition on behalf of a claim that was granted anew leaves the row as it is exactly when
the row stands as it would leave it. While the newer claim is in processing, that is
`requeue_claim_if_current` and no other. -/
theorem stale_disposition_unchanged_iff (store : Store) (steps : List Step) (stale : Claim)
    (how : Disposition) (recl : Reclaimed ((History.start store).run steps) stale) :
    ((dispose ((History.start store).run steps).store stale how).main.find stale.eventId =
          ((History.start store).run steps).store.main.find stale.eventId ↔
        ∀ row, ((History.start store).run steps).store.main.find stale.eventId = some row →
          how.Repeats row) ∧
    ∀ row, ((History.start store).run steps).store.main.find stale.eventId = some row →
      row.processingStatus = .processing →
      ((dispose ((History.start store).run steps).store stale how).main.find stale.eventId =
            some row ↔
          ∃ nbf lerr, how = .requeueClaimIfCurrent nbf lerr) := by
  rw [dispose_find (History.run_generations store steps) recl]
  constructor
  · cases ((History.start store).run steps).store.main.find stale.eventId with
    | none => simp
    | some row => simp [how.writes_eq_iff]
  · intro row hf processing
    rw [hf, Option.map_some, Option.some_inj, how.writes_eq_iff,
      how.repeats_processing_iff processing]

/-- One worker claims, its lease of 300 seconds runs out, another worker claims again. -/
def leaseSteps : List Step :=
  [.insertOrIgnore sampleCarrier,
    .claim "event-1" "2026-06-01T00:00:30+00:00" "2026-05-31T23:55:30+00:00",
    .claim "event-1" "2026-06-01T00:06:30+00:00" "2026-06-01T00:01:30+00:00"]

def leaseHistory : History := (History.start ⟨.empty, .empty, .empty, []⟩).run leaseSteps

theorem leaseHistory_claims :
    leaseHistory.claims = [sampleClaim, ⟨"event-1", "2026-06-01T00:06:30+00:00", 2⟩] := by
  decide +kernel

theorem leaseHistory_row :
    leaseHistory.store.main.find "event-1" =
      some ⟨"event-1", .processing, 2, some "2026-06-01T00:06:30+00:00", none⟩ := by
  decide +kernel

theorem leaseHistory_reclaimed : Reclaimed leaseHistory sampleClaim :=
  ⟨⟨"event-1", "2026-06-01T00:06:30+00:00", 2⟩, rfl, by rw [leaseHistory_claims]⟩

theorem stale_disposition_unchanged_sample :
    Reclaimed leaseHistory sampleClaim ∧
    (dispose leaseHistory.store sampleClaim (.requeueClaimIfCurrent none none)).main.find
      "event-1" = leaseHistory.store.main.find "event-1" ∧
    (dispose leaseHistory.store sampleClaim (.markFailed "late")).main.find "event-1" ≠
      leaseHistory.store.main.find "event-1" := by
  refine ⟨leaseHistory_reclaimed, ?_, ?_⟩
  · exact (stale_disposition_unchanged_iff _ leaseSteps sampleClaim
      (.requeueClaimIfCurrent none none) leaseHistory_reclaimed).1.mpr fun _ _ => trivial
  · intro unch
    rw [leaseHistory_row] at unch
    obtain ⟨_, _, other⟩ := ((stale_disposition_unchanged_iff _ leaseSteps sampleClaim
      (.markFailed "late") leaseHistory_reclaimed).2 _ leaseHistory_row rfl).mp unch
    cases other

/-- The first worker's late `mark_processed` ends the second worker's claim. -/
theorem stale_markProcessed_ends_newer_claim :
    ¬ (Reclaimed leaseHistory sampleClaim →
      (dispose leaseHistory.store sampleClaim .markProcessed).main.find "event-1" =
        leaseHistory.store.main.find "event-1") := by
  intro unch
  have same := unch leaseHistory_reclaimed
  revert same
  decide +kernel

end Zeus.EventStore
