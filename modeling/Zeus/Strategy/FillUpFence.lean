import Zeus.Lib.Run
import Zeus.Strategy.FamilyRebalance

namespace Zeus.FamilyRebalance

open Zeus.Collateral (Time)

inductive Stage where
  | idle
  | planned (payload : FillUpLeasePayload)
  | cleared (payload : FillUpLeasePayload)
  | submitted (payload : FillUpLeasePayload)

def Stage.payload : Stage → Option FillUpLeasePayload
  | .idle => none
  | .planned payload | .cleared payload | .submitted payload => some payload

theorem Stage.payload_of_unsent {stage : Stage} {payload : FillUpLeasePayload}
    (unsent : stage = .planned payload ∨ stage = .cleared payload) :
    stage.payload = some payload := by
  obtain rfl | rfl := unsent <;> rfl

structure FamilyScope where
  (city targetDate metric : String)

/-- An order that went out, and the lease that was active for the family of its own lease then. -/
structure Order where
  intentId : String
  activeLease : Option String

structure System (ι : Type) where
  leases : Leases
  stage : ι → Stage
  orders : List Order

/-- One step of a worker. A worker that plans again has given up what it was doing. -/
inductive Op (ι : Type) where
  | plan (worker : ι) (call : PlanCall) (scope : FamilyScope)
  | reread (worker : ι) (truth : PositionTruth) (now : Time)
  | submit (worker : ι)
  | advance (worker : ι) (result : SubmitResult) (now : Time)

def Leases.activeLease (leases : Leases) (familyKey : String) : Option String :=
  (leases.table.rows.find? fun lease => lease.Active ∧ lease.familyKey = familyKey).map
    Lease.intentId

def Leases.activeBeside (leases : Leases) (intentId : String) : Option String :=
  (leases.find intentId).bind fun lease => leases.activeLease lease.familyKey

def FillUpPlan.stage (call : PlanCall) (scope : FamilyScope) : FillUpPlan → Stage
  | .apply _ intentId => .planned {
      intentId, ownedPositionId := (call.owned.map HeldSameTokenExposure.positionId).getD ""
      ownedTokenId := call.selected.tokenId, city := scope.city, targetDate := scope.targetDate
      metric := scope.metric }
  | _ => .idle

section
variable {ι : Type} [DecidableEq ι]

def System.step (system : System ι) : Op ι → System ι
  | .plan worker call scope =>
    let planned := planFillUp call system.leases
    { system with
      leases := planned.2
      stage := Function.update system.stage worker (planned.1.stage call scope) }
  | .reread worker truth now =>
    match system.stage worker with
    | .planned payload =>
      match presubmitRereadAborts truth payload with
      | none => { system with stage := Function.update system.stage worker (.cleared payload) }
      | some abort => { system with
          leases := advanceRebalanceLease system.leases payload.intentId .aborted now
            (some (.presubmitReread abort)) none
          stage := Function.update system.stage worker .idle }
    | _ => system
  | .submit worker =>
    match system.stage worker with
    | .cleared payload => { system with
        stage := Function.update system.stage worker (.submitted payload)
        orders :=
          system.orders ++ [⟨payload.intentId, system.leases.activeBeside payload.intentId⟩] }
    | _ => system
  | .advance worker result now =>
    match system.stage worker with
    | .submitted payload => { system with
        leases := advanceAfterSubmit system.leases payload.intentId result now
        stage := Function.update system.stage worker .idle }
    | _ => system

def System.start (leases : Leases) : System ι := ⟨leases, fun _ => .idle, []⟩

def System.run (leases : Leases) (ops : List (Op ι)) : System ι :=
  ops.foldl System.step (.start leases)

theorem System.run_concat (leases : Leases) (ops : List (Op ι)) (op : Op ι) :
    System.run leases (ops ++ [op]) = (System.run leases ops).step op := by
  simp [System.run]
end

section
variable {leases : Leases} {intentId other : String} {lease : Lease}

variable {f : Lease → Lease} {table : KeyedTable Lease.intentId} {now : Time}
  {reason : Option AbortReason}
  {command : Option String}

theorem oneActive_map {rows : List Lease} (one : OneActive rows)
    (ends : ∀ row ∈ rows, (f row).Active → f row = row) : OneActive (rows.map f) := by
  intro first inFirst snd inSecond act1 act2 family
  obtain ⟨first, inRows, rfl⟩ := List.mem_map.mp inFirst
  obtain ⟨snd, alsoIn, rfl⟩ := List.mem_map.mp inSecond
  have same := ends first inRows act1
  have also := ends snd alsoIn act2
  rw [same] at act1 family ⊢
  rw [also] at act2 family ⊢
  exact one first inRows snd alsoIn act1 act2 family

theorem checked_eq_some {after : Leases} (hw : Leases.checked table = some after) :
    after.table = table := by
  unfold Leases.checked at hw
  split_ifs at hw
  cases hw
  rfl

theorem checked_of_oneActive (one : OneActive table.rows) :
    Leases.checked table = some ⟨table, one⟩ := dif_pos one

theorem checked_modify_other {keep : ∀ lease, (f lease).intentId = lease.intentId}
    (hne : other ≠ intentId) :
    ((Leases.checked (leases.table.modify intentId f keep)).getD leases).find other =
      leases.find other := by
  unfold Leases.checked
  split_ifs
  · rw [Option.getD_some, Leases.find, KeyedTable.find_modify, if_neg hne]
    rfl
  · rfl

theorem checked_modify_own (keep : ∀ lease, (f lease).intentId = lease.intentId)
    (found : leases.find intentId = some lease) :
    ((Leases.checked (leases.table.modify intentId f keep)).getD leases).find intentId =
      some (f lease) ∨
    ((Leases.checked (leases.table.modify intentId f keep)).getD leases).find intentId =
      some lease := by
  unfold Leases.checked
  split_ifs
  · left
    rw [Option.getD_some, Leases.find, KeyedTable.find_modify, if_pos rfl]
    exact congrArg (Option.map f) found
  · exact .inr found

theorem advance_find_other {status : LeaseStatus} (hne : other ≠ intentId) :
    (advanceRebalanceLease leases intentId status now reason command).find other =
      leases.find other :=
  checked_modify_other hne

theorem advance_terminal {status : LeaseStatus}
    (hterm : status ∈ terminalLeaseStatuses) (found : leases.find intentId = some lease) :
    (advanceRebalanceLease leases intentId status now reason command).find intentId =
      some (lease.advance status now reason command) := by
  have one : OneActive (leases.table.modify intentId (Lease.advance status now reason command)
      (Lease.advance_key status now reason command)).rows := by
    refine oneActive_map leases.oneActive fun row _ act => ?_
    split_ifs at act ⊢ with own
    · exact absurd hterm act
    · rfl
  rw [advanceRebalanceLease, checked_of_oneActive one, Option.getD_some, Leases.find,
    KeyedTable.find_modify, if_pos rfl]
  exact congrArg _ found

theorem releaseStale_find (fkey : String) (now : Time) :
    (releaseStalePlannedFillUp fkey now leases).find intentId =
      (leases.find intentId).map fun lease =>
        if lease.StalePlanned fkey now then lease.release now else lease := by
  have one : OneActive
      (leases.table.modifyWhere (fun lease => lease.StalePlanned fkey now) (Lease.release now)
      (Lease.release_key now)).rows := by
    refine oneActive_map leases.oneActive fun row _ act => ?_
    split_ifs at act ⊢ with stale
    · exact absurd (by decide : LeaseStatus.aborted ∈ terminalLeaseStatuses) act
    · rfl
  rw [releaseStalePlannedFillUp, checked_of_oneActive one, Option.getD_some, Leases.find,
    KeyedTable.find_modifyWhere]
  simp only [decide_eq_true_eq]
  rfl

theorem insertLease_ok {after : Leases} (ins : insertLease leases lease = some after) :
    leases.find lease.intentId = none ∧
      ∀ key, after.find key = if lease.intentId = key then some lease else leases.find key := by
  obtain ⟨table, placed, hw⟩ := Option.bind_eq_some_iff.mp ins
  refine ⟨(KeyedTable.tryInsert_eq_some_iff.mp placed).1, fun key => ?_⟩
  rw [Leases.find, checked_eq_some hw]
  exact KeyedTable.find_tryInsert placed key

def KeepsEnded (before after : Leases) : Prop :=
  ∀ intentId lease, before.find intentId = some lease → ¬ lease.Active →
    ∃ kept, after.find intentId = some kept ∧ ¬ kept.Active

theorem KeepsEnded.refl (leases : Leases) : KeepsEnded leases leases := fun _ lease found ended =>
  ⟨lease, found, ended⟩

theorem KeepsEnded.trans {before middle after : Leases} (first : KeepsEnded before middle)
    (snd : KeepsEnded middle after) : KeepsEnded before after := by
  intro intentId lease found ended
  obtain ⟨kept, isKept, still⟩ := first intentId lease found ended
  exact snd intentId kept isKept still

theorem keepsEnded_advance {status : LeaseStatus} (hterm : status ∈ terminalLeaseStatuses) :
    KeepsEnded leases (advanceRebalanceLease leases intentId status now reason command) := by
  intro key lease found ended
  by_cases own : key = intentId
  · subst own
    exact ⟨_, advance_terminal hterm found, fun act => act hterm⟩
  · exact ⟨lease, (advance_find_other own).trans found, ended⟩

theorem releaseShift_find {cmdEx : Option String → Option Bool} {fkey : String}
    (found : leases.find intentId = some lease) (fillUp : lease.operation = .fillUp) :
    (releaseShiftUnknown cmdEx fkey now leases).find intentId = some lease := by
  have other : ∀ ids : List String, intentId ∉ ids →
      ∀ cur : Leases, cur.find intentId = some lease →
      (ids.foldl (fun leases id => advanceRebalanceLease leases id .aborted now
        (some .shiftBinExitUnknownNoDurableCommand) none) cur).find intentId = some lease := by
    intro ids
    induction ids with
    | nil => exact fun _ cur kept => kept
    | cons id ids ih =>
      intro hne cur kept
      rw [List.mem_cons, not_or] at hne
      exact ih hne.2 _ ((advance_find_other hne.1).trans kept)
  refine other _ ?_ leases found
  intro rel
  obtain ⟨row, mem, isRow⟩ := List.mem_map.mp rel
  have sel := List.mem_filter.mp (List.mem_of_mem_filter mem)
  have hs :=
    (KeyedTable.find_of_mem sel.1).symm.trans ((congrArg leases.table.find isRow).trans found)
  cases hs
  have shift : lease.operation = .shiftBin := (of_decide_eq_true sel.2).2.1
  rw [fillUp] at shift
  cases shift

theorem keepsEnded_releaseShift {cmdEx : Option String → Option Bool} {fkey : String} :
    KeepsEnded leases (releaseShiftUnknown cmdEx fkey now leases) := by
  have all : ∀ (ids : List String) (cur : Leases), KeepsEnded cur
      (ids.foldl (fun leases id => advanceRebalanceLease leases id .aborted now
        (some .shiftBinExitUnknownNoDurableCommand) none) cur) := by
    intro ids
    induction ids with
    | nil => exact fun cur => .refl cur
    | cons id ids ih => exact fun cur => (keepsEnded_advance (by decide)).trans (ih _)
  exact all _ leases
end

section
variable {call : PlanCall} {leases : Leases} {intentId : String} {lease : Lease}

theorem released_find (found : leases.find intentId = some lease)
    (fillUp : lease.operation = .fillUp) :
    (call.released leases).find intentId =
      some (if lease.StalePlanned call.familyKey call.now then lease.release call.now
        else lease) := by
  refine releaseShift_find ?_ ?_
  · rw [releaseStale_find, found]
    rfl
  · split_ifs <;> exact fillUp

theorem keepsEnded_released : KeepsEnded leases (call.released leases) := by
  refine KeepsEnded.trans (fun intentId lease found ended => ?_) keepsEnded_releaseShift
  refine ⟨lease, ?_, ended⟩
  rw [releaseStale_find, found, Option.map_some, if_neg]
  rintro ⟨-, -, hpl, -⟩
  rw [Lease.Active, hpl] at ended
  exact ended (by decide)

theorem planFillUp_cases (call : PlanCall) (leases : Leases) :
    (call.owned = none ∧ planFillUp call leases = (.noop, leases)) ∨
    (call.owned.isSome ∧ planFillUp call leases = (.abort none none, call.released leases)) ∨
    ∃ held acq, call.owned = some held ∧
      acquireRebalanceLease call held leases = some acq ∧
      ((planFillUp call leases = (.abort (some call.intentId) (some (call.decision held).reason),
              advanceRebalanceLease acq call.intentId .aborted call.now
                (some (.denied (call.decision held).reason)) none)) ∨
        planFillUp call leases = (.apply (call.decision held).deltaEntryUsd call.intentId,
            bindResidual (advanceRebalanceLease acq call.intentId .planned call.now none none)
              call.intentId (call.decision held).deltaEntryUsd call.now)) := by
  unfold planFillUp
  cases owned : call.owned with
  | none => exact .inl ⟨rfl, rfl⟩
  | some held =>
    cases acquire : acquireRebalanceLease call held leases with
    | none =>
      simp only [acquire]
      exact .inr (.inl ⟨rfl, trivial⟩)
    | some acq =>
      refine .inr (.inr ⟨held, acq, rfl, acquire, ?_⟩)
      simp only [acquire]
      split_ifs
      · exact .inr rfl
      · exact .inl rfl

theorem planFillUp_find (owned : call.owned.isSome)
    (kept : (call.released leases).find intentId = some lease) :
    (planFillUp call leases).2.find intentId = some lease := by
  obtain ⟨h0, -⟩ | ⟨-, plan⟩ | ⟨held, acq, -, acquire, plan⟩ := planFillUp_cases call leases
  · rw [h0] at owned
    cases owned
  · rw [plan]
    exact kept
  · obtain ⟨fresh, found⟩ := insertLease_ok acquire
    have hne : intentId ≠ call.intentId := by
      rintro rfl
      cases fresh.symm.trans kept
    have hs : acq.find intentId = some lease :=
      ((found intentId).trans (if_neg (Ne.symm hne))).trans kept
    obtain plan | plan := plan <;> rw [plan]
    · exact (advance_find_other hne).trans hs
    · exact (checked_modify_other hne).trans ((advance_find_other hne).trans hs)

theorem keepsEnded_plan : KeepsEnded leases (planFillUp call leases).2 := by
  cases owned : call.owned with
  | none =>
    rw [planFillUp, owned]
    exact .refl leases
  | some held =>
    intro intentId lease found ended
    have rel : KeepsEnded leases (call.released leases) := keepsEnded_released
    obtain ⟨kept, hs, still⟩ := rel intentId lease found ended
    exact ⟨kept, planFillUp_find (by rw [owned]; rfl) hs, still⟩

/-- A fill-up lease of a plan: ended once it was overtaken, else as the plan wrote it. -/
structure Follows (own : PlanCall) (overtaken : Bool) (lease : Lease) : Prop where
  fillUp : lease.operation = .fillUp
  family : lease.familyKey = own.familyKey
  ended : overtaken = true → lease.status = .aborted
  planned : overtaken = false →
  lease.status = .planned ∧ lease.newEntryCommandId = none ∧ lease.updatedAt = own.now

theorem planFillUp_apply {resid : ℚ}
    (applied : (planFillUp call leases).1 = .apply resid intentId) :
    intentId = call.intentId ∧
    (call.released leases).find intentId = none ∧
    ∃ lease, (planFillUp call leases).2.find intentId = some lease ∧ Follows call false lease := by
  obtain ⟨-, plan⟩ | ⟨-, plan⟩ | ⟨held, acq, -, acquire, plan | plan⟩ :=
    planFillUp_cases call leases
  all_goals rw [plan] at applied ⊢
  all_goals cases applied
  obtain ⟨fresh, found⟩ := insertLease_ok acquire
  refine ⟨rfl, fresh, ?_⟩
  have ins : acq.find call.intentId = some (call.lease held) := (found _).trans (if_pos rfl)
  have pristine : ∀ status : LeaseStatus, status = .planned → ∀ delta, Follows call false
      { call.lease held with status := status, deltaEntryUsd := delta } := by
    rintro status rfl delta
    exact ⟨rfl, rfl, nofun, fun _ => ⟨rfl, rfl, rfl⟩⟩
  obtain advd | advd := checked_modify_own (f := Lease.advance .planned call.now none none)
    (Lease.advance_key .planned call.now none none) ins <;>
  obtain bound | bound :=
    checked_modify_own (f := Lease.bind (call.decision held).deltaEntryUsd call.now)
    (Lease.bind_key (call.decision held).deltaEntryUsd call.now) advd <;>
  exact ⟨_, bound, pristine _ rfl _⟩

variable {scope : FamilyScope} {payload : FillUpLeasePayload}

theorem planFillUp_stage
    (carries : ((planFillUp call leases).1.stage call scope).payload = some payload) :
    ∃ resid, (planFillUp call leases).1 = .apply resid payload.intentId := by
  cases decided : (planFillUp call leases).1 with
  | apply resid intentId =>
    rw [decided] at carries
    cases carries
    exact ⟨resid, rfl⟩
  | _ =>
    rw [decided] at carries
    cases carries

theorem planFillUp_stage_new
    (carries : ((planFillUp call leases).1.stage call scope).payload = some payload)
    (found : leases.find intentId = some lease) (fillUp : lease.operation = .fillUp) :
    intentId ≠ payload.intentId := by
  rintro rfl
  obtain ⟨resid, applied⟩ := planFillUp_stage carries
  cases (planFillUp_apply applied).2.1.symm.trans (released_find found fillUp)
end

/-- A later plan of the same family finds the lease stale. -/
def PlanCall.overtakes (later own : PlanCall) : Bool :=
  later.owned.isSome && later.familyKey == own.familyKey && decide (Stale own.now later.now)

def PlanCall.leaves (call : PlanCall) (lease : Lease) : Lease :=
  if call.owned.isSome ∧ lease.StalePlanned call.familyKey call.now then lease.release call.now
  else lease

theorem planFillUp_find_fillUp {call : PlanCall} {leases : Leases} {intentId : String}
    {lease : Lease} (found : leases.find intentId = some lease)
    (fillUp : lease.operation = .fillUp) :
    (planFillUp call leases).2.find intentId = some (call.leaves lease) := by
  cases owned : call.owned with
  | none => simpa [planFillUp, PlanCall.leaves, owned] using found
  | some held =>
    have kept := planFillUp_find (by rw [owned]; rfl) (released_find found fillUp)
    simpa [PlanCall.leaves, owned] using kept

theorem Follows.leaves {own call : PlanCall} {overtaken : Bool} {lease : Lease}
    (follows : Follows own overtaken lease) :
    Follows own (overtaken || call.overtakes own) (call.leaves lease) := by
  unfold PlanCall.leaves
  cases overtaken with
  | true =>
    have aborted := follows.ended rfl
    rw [if_neg fun stale => by simpa [aborted] using stale.2.2.2.1]
    exact ⟨follows.fillUp, follows.family, fun _ => aborted, nofun⟩
  | false =>
    obtain ⟨planned, noCommand, updated⟩ := follows.planned rfl
    have stale : (call.owned.isSome ∧ lease.StalePlanned call.familyKey call.now) ↔
        call.overtakes own = true := by
      simp [Lease.StalePlanned, PlanCall.overtakes, follows.fillUp, follows.family, planned,
        noCommand, updated, eq_comm (a := call.familyKey), and_assoc]
    split_ifs with released
    · rw [stale] at released
      refine ⟨follows.fillUp, follows.family, fun _ => rfl, ?_⟩
      rw [released]
      nofun
    · rw [stale, Bool.not_eq_true] at released
      rw [released]
      exact follows

theorem advanceAfterSubmit_eq (leases : Leases) (intentId : String) (result : SubmitResult)
    (now : Time) :
    ∃ status reason command,
      advanceAfterSubmit leases intentId result now =
        advanceRebalanceLease leases intentId status now reason command ∧
      status = if result.leavesUnknown then .entryUnknown
        else if result.knownSubmitted then .complete else .aborted := by
  unfold advanceAfterSubmit SubmitResult.leavesUnknown
  by_cases known : result.knownSubmitted <;> by_cases given : result.entryCommandId = "" <;>
    by_cases reconcile : result.requiresReconcile <;> simp only [known, given, reconcile] <;>
    exact ⟨_, _, _, rfl, by simp [given]⟩

section
variable {ι : Type} [DecidableEq ι]

/-- The last plan of a worker, and whether another worker's plan has overtaken it since. -/
def tracked (worker : ι) (ops : List (Op ι)) : Option (PlanCall × Bool) :=
  ops.foldl (fun last op => match op with
    | .plan planner call _ =>
      if planner = worker then some (call, false)
      else last.map fun own => (own.1, own.2 || call.overtakes own.1)
    | _ => last) none

def Overtaken (worker : ι) (ops : List (Op ι)) : Prop :=
  ((tracked worker ops).map Prod.snd).getD false = true

instance (worker : ι) (ops : List (Op ι)) : Decidable (Overtaken worker ops) :=
  inferInstanceAs (Decidable (_ = _))

theorem tracked_concat_plan (worker planner : ι) (ops : List (Op ι)) (call : PlanCall)
    (scope : FamilyScope) :
    tracked worker (ops ++ [.plan planner call scope]) =
      if planner = worker then some (call, false)
      else (tracked worker ops).map fun own => (own.1, own.2 || call.overtakes own.1) := by
  rw [tracked, List.foldl_concat]
  rfl

structure Tracks (ops : List (Op ι)) (system : System ι) : Prop where
  live : ∀ worker payload, (system.stage worker).payload = some payload →
    ∃ own overtaken lease, tracked worker ops = some (own, overtaken) ∧
      system.leases.find payload.intentId = some lease ∧
      Follows own overtaken lease
  apart : ∀ first second one two, (system.stage first).payload = some one →
    (system.stage second).payload = some two → one.intentId = two.intentId → first = second
  ordered : ∀ order ∈ system.orders, ∃ lease, system.leases.find order.intentId = some lease ∧
    lease.operation = .fillUp
  unsent : ∀ worker payload, system.stage worker = .planned payload ∨
    system.stage worker = .cleared payload →
    ∀ order ∈ system.orders, order.intentId ≠ payload.intentId
  once : (system.orders.map Order.intentId).Nodup

namespace Tracks

variable {ops : List (Op ι)} {system : System ι} {worker : ι} {payload : FillUpLeasePayload}

theorem row (tracks : Tracks ops system) (carries : (system.stage worker).payload = some payload) :
    ∃ lease, system.leases.find payload.intentId = some lease ∧
      lease.operation = .fillUp ∧
      (lease.Active ↔ ¬ Overtaken worker ops) := by
  obtain ⟨own, overtaken, lease, last, found, follows⟩ := tracks.live worker payload carries
  refine ⟨lease, found, follows.fillUp, ?_⟩
  rw [Overtaken, last, Lease.Active]
  cases overtaken with
  | true => simp [follows.ended rfl, terminalLeaseStatuses]
  | false => simp [(follows.planned rfl).1, terminalLeaseStatuses]

theorem plan (tracks : Tracks ops system) (worker : ι) (call : PlanCall) (scope : FamilyScope) :
    Tracks (ops ++ [.plan worker call scope]) (system.step (.plan worker call scope)) := by
  -- a worker that was not planning keeps its stage
  have others : ∀ other, other ≠ worker →
      (system.step (.plan worker call scope)).stage other = system.stage other := fun other apart =>
    Function.update_of_ne apart _ _
  have own : (system.step (.plan worker call scope)).stage worker =
      (planFillUp call system.leases).1.stage call scope := Function.update_self _ _ _
  refine ⟨fun other payload carries => ?_,
    fun first second one two carriesOne carriesTwo same => ?_,
    fun order sent => ?_, fun other payload unsent order sent => ?_, tracks.once⟩
  · rw [tracked_concat_plan]
    by_cases apart : other = worker
    · subst apart
      rw [own] at carries
      obtain ⟨residual, applied⟩ := planFillUp_stage carries
      obtain ⟨-, -, lease, found, follows⟩ := planFillUp_apply applied
      exact ⟨call, false, lease, if_pos rfl, found, follows⟩
    · rw [others other apart] at carries
      obtain ⟨own, overtaken, lease, last, found, follows⟩ := tracks.live other payload carries
      rw [if_neg (Ne.symm apart), last]
      exact ⟨own, _, _, rfl, planFillUp_find_fillUp found follows.fillUp, follows.leaves⟩
  · by_cases firstOwn : first = worker <;> by_cases secondOwn : second = worker
    · rw [firstOwn, secondOwn]
    · rw [firstOwn, own] at carriesOne
      rw [others second secondOwn] at carriesTwo
      obtain ⟨lease, found, fillUp, -⟩ := tracks.row carriesTwo
      exact absurd same.symm (planFillUp_stage_new carriesOne found fillUp)
    · rw [others first firstOwn] at carriesOne
      rw [secondOwn, own] at carriesTwo
      obtain ⟨lease, found, fillUp, -⟩ := tracks.row carriesOne
      exact absurd same (planFillUp_stage_new carriesTwo found fillUp)
    · rw [others first firstOwn] at carriesOne
      rw [others second secondOwn] at carriesTwo
      exact tracks.apart first second one two carriesOne carriesTwo same
  · obtain ⟨lease, found, fillUp⟩ := tracks.ordered order sent
    refine ⟨_, planFillUp_find_fillUp found fillUp, ?_⟩
    unfold PlanCall.leaves
    split_ifs <;> exact fillUp
  · by_cases apart : other = worker
    · subst apart
      rw [own] at unsent
      obtain ⟨lease, found, fillUp⟩ := tracks.ordered order sent
      exact planFillUp_stage_new (Stage.payload_of_unsent unsent) found fillUp
    · rw [others other apart] at unsent
      exact tracks.unsent other payload unsent order sent

theorem finish (tracks : Tracks ops system) (carries : (system.stage worker).payload = some payload)
    (status : LeaseStatus) (now : Time) (reason : Option AbortReason) (command : Option String) :
    Tracks ops { system with
      leases := advanceRebalanceLease system.leases payload.intentId status now reason command
      stage := Function.update system.stage worker .idle } := by
  have others : ∀ other carried,
      (Function.update system.stage worker .idle other).payload = some carried →
      other ≠ worker ∧ (system.stage other).payload = some carried := by
    intro other carried still
    by_cases own : other = worker
    · rw [own, Function.update_self] at still
      cases still
    · rw [Function.update_of_ne own] at still
      exact ⟨own, still⟩
  refine ⟨fun other carried still => ?_, fun first second one two carriesOne carriesTwo => ?_,
    fun order sent => ?_, fun other carried unsent => ?_, tracks.once⟩
  · obtain ⟨apart, still⟩ := others other carried still
    obtain ⟨own, overtaken, lease, last, found, follows⟩ := tracks.live other carried still
    refine ⟨own, overtaken, lease, last, (advance_find_other fun same => ?_).trans found, follows⟩
    exact apart (tracks.apart other worker carried payload still carries same)
  · exact tracks.apart first second one two (others first one carriesOne).2
      (others second two carriesTwo).2
  · obtain ⟨lease, found, fillUp⟩ := tracks.ordered order sent
    by_cases own : order.intentId = payload.intentId
    · rw [own] at found ⊢
      obtain moved | kept := checked_modify_own (f := Lease.advance status now reason command)
        (Lease.advance_key status now reason command) found
      · exact ⟨_, moved, fillUp⟩
      · exact ⟨_, kept, fillUp⟩
    · exact ⟨lease, (advance_find_other own).trans found, fillUp⟩
  · have apart : other ≠ worker := (others other carried (Stage.payload_of_unsent unsent)).1
    simp only [Function.update_of_ne apart] at unsent
    exact tracks.unsent other carried unsent

theorem payload_update {stage : Stage} (carries : (system.stage worker).payload = stage.payload)
    (other : ι) :
    (Function.update system.stage worker stage other).payload = (system.stage other).payload := by
  by_cases own : other = worker
  · rw [own, Function.update_self, carries]
  · rw [Function.update_of_ne own]

theorem clear (tracks : Tracks ops system) (hpl : system.stage worker = .planned payload) :
    Tracks ops { system with stage := Function.update system.stage worker (.cleared payload) } := by
  have carries : (system.stage worker).payload = (Stage.cleared payload).payload := by
    rw [hpl]
    rfl
  refine ⟨fun other carried still => ?_, fun first snd one two carr1 carr2 => ?_, tracks.ordered,
    fun other carried unsent => ?_, tracks.once⟩
  · exact tracks.live other carried ((payload_update carries other).symm.trans still)
  · exact tracks.apart first snd one two ((payload_update carries first).symm.trans carr1)
      ((payload_update carries snd).symm.trans carr2)
  · by_cases own : other = worker
    · subst own
      refine tracks.unsent other carried (.inl ?_)
      simp only [Function.update_self] at unsent
      obtain stage | stage := unsent <;> cases stage
      exact hpl
    · simp only [Function.update_of_ne own] at unsent
      exact tracks.unsent other carried unsent

theorem send (tracks : Tracks ops system) (cleared : system.stage worker = .cleared payload)
    (act : Option String) : Tracks ops { system with
      stage := Function.update system.stage worker (.submitted payload)
      orders := system.orders ++ [⟨payload.intentId, act⟩] } := by
  have carries : (system.stage worker).payload = (Stage.submitted payload).payload := by
    rw [cleared]
    rfl
  have new := tracks.unsent worker payload (.inr cleared)
  refine ⟨fun other carried still => ?_, fun first snd one two carr1 carr2 => ?_,
    fun order sent => ?_, fun other carried unsent order sent => ?_, ?_⟩
  · exact tracks.live other carried ((payload_update carries other).symm.trans still)
  · exact tracks.apart first snd one two ((payload_update carries first).symm.trans carr1)
      ((payload_update carries snd).symm.trans carr2)
  · obtain sent | sent := List.mem_append.mp sent
    · exact tracks.ordered order sent
    · cases List.mem_singleton.mp sent
      obtain ⟨lease, found, fillUp, -⟩ := tracks.row (congrArg Stage.payload cleared)
      exact ⟨lease, found, fillUp⟩
  · by_cases own : other = worker
    · subst own
      simp only [Function.update_self] at unsent
      obtain stage | stage := unsent <;> cases stage
    · simp only [Function.update_of_ne own] at unsent
      obtain sent | sent := List.mem_append.mp sent
      · exact tracks.unsent other carried unsent order sent
      · cases List.mem_singleton.mp sent
        intro same
        exact own (tracks.apart other worker carried payload (Stage.payload_of_unsent unsent)
          (congrArg Stage.payload cleared) same.symm)
  · rw [List.map_append, List.nodup_append']
    refine ⟨tracks.once, List.nodup_singleton _, fun id sent own => ?_⟩
    obtain ⟨order, mem, rfl⟩ := List.mem_map.mp sent
    exact new order mem (List.mem_singleton.mp own)

theorem of_tracked {later : List (Op ι)} (tracks : Tracks ops system)
    (same : ∀ worker, tracked worker later = tracked worker ops) : Tracks later system := by
  refine ⟨fun worker payload carries => ?_, tracks.apart, tracks.ordered, tracks.unsent,
    tracks.once⟩
  rw [same]
  exact tracks.live worker payload carries

theorem step (tracks : Tracks ops system) (op : Op ι) : Tracks (ops ++ [op]) (system.step op) := by
  cases op with
  | plan worker call scope => exact tracks.plan worker call scope
  | reread worker truth now =>
    refine of_tracked ?_ fun worker => List.foldl_concat ..
    cases stage : system.stage worker with
    | planned payload =>
      cases abort : presubmitRereadAborts truth payload with
      | none => simpa only [System.step, stage, abort] using tracks.clear stage
      | some abort =>
        have carries := congrArg Stage.payload stage
        simpa only [System.step, stage, abort] using tracks.finish carries _ _ _ _
    | _ => simpa only [System.step, stage] using tracks
  | submit worker =>
    refine of_tracked ?_ fun worker => List.foldl_concat ..
    cases stage : system.stage worker with
    | cleared payload => simpa only [System.step, stage] using tracks.send stage _
    | _ => simpa only [System.step, stage] using tracks
  | advance worker result now =>
    refine of_tracked ?_ fun worker => List.foldl_concat ..
    cases stage : system.stage worker with
    | submitted payload =>
      obtain ⟨status, reason, command, advd, -⟩ :=
        advanceAfterSubmit_eq system.leases payload.intentId result now
      have carries := congrArg Stage.payload stage
      simpa only [System.step, stage, advd] using tracks.finish carries _ _ _ _
    | _ => simpa only [System.step, stage] using tracks

theorem run (leases : Leases) (ops : List (Op ι)) : Tracks ops (.run leases ops) := by
  induction ops using List.reverseRecOn with
  | nil => exact ⟨nofun, nofun, nofun, fun _ _ _ => nofun, List.nodup_nil⟩
  | append_singleton ops op tracks =>
    rw [System.run_concat]
    exact tracks.step op

end Tracks
end

section
variable {leases : Leases} {intentId : String} {lease : Lease}

variable (found : leases.find intentId = some lease)

include found

theorem eq_of_mem_of_find {row : Lease} (mem : row ∈ leases.table.rows)
    (own : row.intentId = intentId) : row = lease := by
  have hs := KeyedTable.find_of_mem mem
  rw [own] at hs
  exact Option.some.inj (hs.symm.trans found)

theorem activeBeside_isSome_iff :
    (leases.activeBeside intentId).isSome ↔
      ∃ row ∈ leases.table.rows, row.Active ∧ row.familyKey = lease.familyKey := by
  simp [Leases.activeBeside, Leases.activeLease, found]

theorem activeBeside_self_iff : leases.activeBeside intentId = some intentId ↔ lease.Active := by
  rw [Leases.activeBeside, found, Option.bind_some, Leases.activeLease, Option.map_eq_some_iff]
  obtain ⟨mem, own⟩ := KeyedTable.find_some found
  constructor
  · rintro ⟨row, first, same⟩
    have chosen := List.find?_some first
    have act := of_decide_eq_true chosen
    rw [← eq_of_mem_of_find found (List.mem_of_find?_eq_some first) same]
    exact act.1
  · intro act
    cases first : leases.table.rows.find? fun row => row.Active ∧
      row.familyKey = lease.familyKey with
    | none =>
      have no := List.find?_eq_none.mp first lease mem
      exact absurd (decide_eq_true ⟨act, rfl⟩) no
    | some row =>
      have chosen := List.find?_some first
      obtain ⟨rowActive, family⟩ := of_decide_eq_true chosen
      have same :=
        leases.oneActive row (List.mem_of_find?_eq_some first) lease mem rowActive act family
      exact ⟨row, rfl, same ▸ own⟩

theorem keepsEnded_of_active (act : lease.Active) {status : LeaseStatus}
    {now : Time} {reason : Option AbortReason} {command : Option String} :
    KeepsEnded leases (advanceRebalanceLease leases intentId status now reason command) := by
  intro key row hs ended
  refine ⟨row, (advance_find_other ?_).trans hs, ended⟩
  rintro rfl
  cases found.symm.trans hs
  exact ended act

theorem oneActive_modify_iff (ended : ¬ lease.Active) {f : Lease → Lease}
    (keep : ∀ row, (f row).intentId = row.intentId) (revived : (f lease).Active)
    (inFamily : (f lease).familyKey = lease.familyKey) :
    OneActive (leases.table.modify intentId f keep).rows ↔
      ∀ row ∈ leases.table.rows, row.Active → row.familyKey ≠ lease.familyKey := by
  obtain ⟨mem, own⟩ := KeyedTable.find_some found
  constructor
  · intro one row inRows act family
    have hne : row.intentId ≠ intentId := by
      intro same
      rw [eq_of_mem_of_find found inRows same] at act
      exact ended act
    have inLease := List.mem_map_of_mem
      (f := fun row : Lease => if decide (row.intentId = intentId) then f row else row) mem
    have inRow := List.mem_map_of_mem
      (f := fun row : Lease => if decide (row.intentId = intentId) then f row else row) inRows
    simp only [own, hne, decide_true, decide_false, if_true, Bool.false_eq_true, if_false]
      at inLease inRow
    have same := one _ inLease _ inRow revived act (inFamily.trans family.symm)
    exact hne (same ▸ (keep lease).trans own)
  · intro none first inFirst snd inSecond act1 act2 family
    obtain ⟨first, inRows, rfl⟩ := List.mem_map.mp inFirst
    obtain ⟨snd, alsoIn, rfl⟩ := List.mem_map.mp inSecond
    simp only [decide_eq_true_eq] at act1 act2 family ⊢
    by_cases own1 : first.intentId = intentId <;> by_cases own2 : snd.intentId = intentId <;>
      simp only [own1, own2, if_true, if_false] at act1 act2 family ⊢
    · rw [eq_of_mem_of_find found inRows own1, eq_of_mem_of_find found alsoIn own2]
    · cases eq_of_mem_of_find found inRows own1
      exact absurd (family.symm.trans inFamily) (none snd alsoIn act2)
    · cases eq_of_mem_of_find found alsoIn own2
      exact absurd (family.trans inFamily) (none first inRows act1)
    · exact leases.oneActive first inRows snd alsoIn act1 act2 family

theorem keepsEnded_unknown_iff (ended : ¬ lease.Active) (now : Time)
    (reason : Option AbortReason) (command : Option String) :
    KeepsEnded leases (advanceRebalanceLease leases intentId .entryUnknown now reason command) ↔
      (leases.activeBeside intentId).isSome := by
  have revived : (lease.advance .entryUnknown now reason command).Active :=
    (by decide : LeaseStatus.entryUnknown ∉ terminalLeaseStatuses)
  have admitted := oneActive_modify_iff found ended
    (Lease.advance_key .entryUnknown now reason command) revived rfl
  rw [activeBeside_isSome_iff found]
  constructor
  · intro keeps
    by_contra none
    push Not at none
    obtain ⟨kept, hs, still⟩ := keeps intentId lease found ended
    rw [advanceRebalanceLease, checked_of_oneActive (admitted.mpr none), Option.getD_some,
      Leases.find, KeyedTable.find_modify, if_pos rfl] at hs
    cases (congrArg _ found).symm.trans hs
    exact still revived
  · rintro ⟨row, inRows, act, family⟩
    have broken := fun one => admitted.mp one row inRows act family
    rw [advanceRebalanceLease, Leases.checked, dif_neg broken]
    exact .refl leases
end

section
variable {ι : Type} [DecidableEq ι]

theorem System.mem_step_orders {system : System ι} {op : Op ι} {order : Order} :
    order ∈ (system.step op).orders ↔
      order ∈ system.orders ∨
      ∃ worker payload, op = .submit worker ∧
        system.stage worker = .cleared payload ∧
        order = ⟨payload.intentId, system.leases.activeBeside payload.intentId⟩ := by
  cases op with
  | submit worker =>
    cases stage : system.stage worker <;> simp [System.step, stage]
  | plan worker call scope => simp [System.step]
  | reread worker truth now =>
    cases stage : system.stage worker with
    | planned payload =>
      cases abort : presubmitRereadAborts truth payload <;> simp [System.step, stage, abort]
    | _ => simp [System.step, stage]
  | advance worker result now => cases stage : system.stage worker <;> simp [System.step, stage]

variable {ops : List (Op ι)}

theorem System.mem_run_orders {leases : Leases} {order : Order} :
    order ∈ (System.run leases ops).orders ↔
      ∃ front worker payload, front ++ [.submit worker] <+: ops ∧
        (System.run leases front).stage worker = .cleared payload ∧
        order = ⟨payload.intentId,
          (System.run leases front).leases.activeBeside payload.intentId⟩ := by
  induction ops using List.reverseRecOn with
  | nil => simp [System.run, System.start]
  | append_singleton ops op ih =>
    rw [System.run_concat, System.mem_step_orders, ih]
    simp only [List.prefix_concat_iff]
    constructor
    · rintro (⟨front, worker, payload, taken, sent⟩ | ⟨worker, payload, rfl, sent⟩)
      · exact ⟨front, worker, payload, .inr taken, sent⟩
      · exact ⟨ops, worker, payload, .inl rfl, sent⟩
    · rintro ⟨front, worker, payload, last | taken, sent⟩
      · obtain ⟨rfl, same⟩ := List.append_inj' last rfl
        exact .inr ⟨worker, payload, (List.singleton_injective same).symm, sent⟩
      · exact .inl ⟨front, worker, payload, taken, sent⟩

/-- A worker that was overtaken does not submit, and does not learn that its submit is unknown while
its family has no active lease. -/
def System.Fences (system : System ι) (ops : List (Op ι)) : Op ι → Prop
  | .submit worker => ∀ payload, system.stage worker = .cleared payload → ¬ Overtaken worker ops
  | .advance worker result _ =>
    ∀ payload, system.stage worker = .submitted payload → result.leavesUnknown →
      Overtaken worker ops → (system.leases.activeBeside payload.intentId).isSome
  | _ => True

theorem Tracks.activeBeside_iff {system : System ι} {worker : ι} {payload : FillUpLeasePayload}
    (tracks : Tracks ops system) (carries : (system.stage worker).payload = some payload) :
    system.leases.activeBeside payload.intentId = some payload.intentId ↔
      ¬ Overtaken worker ops := by
  obtain ⟨lease, found, -, act⟩ := tracks.row carries
  rw [activeBeside_self_iff found, act]

theorem Tracks.keepsEnded_step_iff {system : System ι} (tracks : Tracks ops system) (op : Op ι) :
    KeepsEnded system.leases (system.step op).leases ↔
      ∀ worker result now, op = .advance worker result now → system.Fences ops op := by
  cases op with
  | plan worker call scope => exact iff_of_true keepsEnded_plan nofun
  | submit worker =>
    refine iff_of_true ?_ nofun
    cases stage : system.stage worker <;> simpa only [System.step, stage] using KeepsEnded.refl _
  | reread worker truth now =>
    refine iff_of_true ?_ nofun
    cases stage : system.stage worker with
    | planned payload =>
      cases abort : presubmitRereadAborts truth payload with
      | none => simpa only [System.step, stage, abort] using KeepsEnded.refl _
      | some abort => simpa only [System.step, stage, abort] using keepsEnded_advance (by decide)
    | _ => simpa only [System.step, stage] using KeepsEnded.refl _
  | advance worker result now =>
    cases stage : system.stage worker with
    | submitted payload =>
      obtain ⟨status, reason, command, advanced, moved⟩ :=
        advanceAfterSubmit_eq system.leases payload.intentId result now
      obtain ⟨lease, found, -, active⟩ := tracks.row (congrArg Stage.payload stage)
      have fences : (∀ other outcome time,
            Op.advance worker result now = .advance other outcome time →
          system.Fences ops (.advance worker result now)) ↔
          (result.leavesUnknown → Overtaken worker ops →
            (system.leases.activeBeside payload.intentId).isSome) := by
        simp [System.Fences, stage]
      rw [fences]
      simp only [System.step, stage, advanced]
      by_cases unknown : result.leavesUnknown
      · rw [if_pos unknown] at moved
        subst moved
        by_cases overtaken : Overtaken worker ops
        · have ended : ¬ lease.Active := fun still => active.mp still overtaken
          rw [keepsEnded_unknown_iff found ended]
          exact ⟨fun beside _ _ => beside, fun beside => beside unknown overtaken⟩
        · exact iff_of_true (keepsEnded_of_active found (active.mpr overtaken)) fun _ yes =>
            absurd yes overtaken
      · rw [if_neg unknown] at moved
        refine iff_of_true (keepsEnded_advance ?_) fun yes => absurd yes unknown
        rw [moved]
        split_ifs <;> decide
    | _ => simpa [System.step, System.Fences, stage] using KeepsEnded.refl _

/-- Over every run from every table of leases: each order goes out under the active lease of its own
redecision, no two under one lease, and no ended lease becomes active again, exactly when every step
is at the fence. -/
theorem fill_up_lease_fences_iff (leases : Leases) (ops : List (Op ι)) :
    ((∀ order ∈ (System.run leases ops).orders, order.activeLease = some order.intentId) ∧
        ((System.run leases ops).orders.map Order.activeLease).Nodup ∧
        ∀ front middle, front ++ middle <+: ops →
          KeepsEnded (System.run leases front).leases
            (System.run leases (front ++ middle)).leases) ↔
      ∀ front op, front ++ [op] <+: ops → (System.run leases front).Fences front op := by
  have ended : (∀ front middle, front ++ middle <+: ops →
      KeepsEnded (System.run leases front).leases (System.run leases (front ++ middle)).leases) ↔
      ∀ front op, front ++ [op] <+: ops →
        KeepsEnded (System.run leases front).leases ((System.run leases front).step op).leases :=
    Run.related_iff_steps
      (R := fun before after : System ι => KeepsEnded before.leases after.leases)
      (fun system => .refl system.leases) KeepsEnded.trans (.start leases) ops
  have sent : (∀ order ∈ (System.run leases ops).orders, order.activeLease = some order.intentId) ↔
      ∀ front worker payload, front ++ [.submit worker] <+: ops →
        (System.run leases front).stage worker = .cleared payload → ¬ Overtaken worker front := by
    simp only [System.mem_run_orders]
    constructor
    · intro all front worker payload taken stage
      rw [← (Tracks.run leases front).activeBeside_iff (congrArg Stage.payload stage)]
      exact all _ ⟨front, worker, payload, taken, stage, rfl⟩
    · rintro all order ⟨front, worker, payload, taken, stage, rfl⟩
      exact ((Tracks.run leases front).activeBeside_iff (congrArg Stage.payload stage)).mpr
        (all front worker payload taken stage)
  rw [ended]
  constructor
  · rintro ⟨fenced, -, keeps⟩ front op taken
    cases op with
    | submit worker => exact fun payload stage => sent.mp fenced front worker payload taken stage
    | advance worker result now =>
      exact ((Tracks.run leases front).keepsEnded_step_iff _).mp (keeps front _ taken) worker result
        now rfl
    | _ => trivial
  · intro fences
    have fenced :=
      sent.mpr fun front worker payload taken stage => fences front _ taken payload stage
    refine ⟨fenced, ?_, fun front op taken => ?_⟩
    · have same : (System.run leases ops).orders.map Order.activeLease =
          ((System.run leases ops).orders.map Order.intentId).map some := by
        rw [List.map_map]
        exact List.map_congr_left fenced
      rw [same]
      exact (Tracks.run leases ops).once.map (Option.some_injective _)
    · exact ((Tracks.run leases front).keepsEnded_step_iff op).mpr fun _ _ _ _ =>
        fences front op taken
end

def samplePlan (intentId : String) (seconds : ℤ) : PlanCall where
  familyKey := "Chicago|2026-01-15|high"
  selected := ⟨"tok-1", "40-41", "buy_yes"⟩
  held := some ⟨"pos-1", some (1 / 2), 5⟩
  qCurrentLcb := some (3 / 5)
  targetTotalExposureUsd := 10
  now := seconds * 1000000
  intentId := intentId

def sampleScope : FamilyScope := ⟨"Chicago", "2026-01-15", "high"⟩

def sampleLeases : Leases := ⟨.empty, by decide⟩

/-- The first worker plans and is delayed; the second plans twenty minutes later. Both reread and
submit; the second completes and the first learns nothing of its order. -/
def overtakenRun : List (Op ℕ) :=
  [.plan 0 (samplePlan "intent-a" 0) sampleScope, .plan 1 (samplePlan "intent-b" 1200) sampleScope,
    .reread 0 (.rows []) 1201000000, .submit 0, .reread 1 (.rows []) 1202000000, .submit 1,
    .advance 1 { status := .submitted, venueAckReceived := true, entryCommandId := "cmd-b" }
      1203000000,
    .advance 0 { status := .timeoutUnknown, sideEffectKnown := false } 1204000000]

theorem overtaken_worker_submits :
    (System.run sampleLeases overtakenRun).orders.map
      (fun order => (order.intentId, order.activeLease)) =
      [("intent-a", some "intent-b"), ("intent-b", some "intent-b")] ∧
    (((System.run sampleLeases (overtakenRun.take 7)).leases.find "intent-a").map Lease.status =
        some .aborted ∧
      ((System.run sampleLeases overtakenRun).leases.find "intent-a").map Lease.status =
        some .entryUnknown) := by
  decide +kernel

end Zeus.FamilyRebalance
