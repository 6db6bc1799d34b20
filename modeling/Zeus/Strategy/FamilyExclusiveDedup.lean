import Mathlib.Data.List.Sigma
import Zeus.Lib.BestPick
import Zeus.Lib.CheckedFold
import Zeus.Lib.PyFloat
import Zeus.State.CollateralLedger

/-! `dedup_mutually_exclusive_families` drops what conflicts with an open exposure, then keeps the
legs of a portfolio or the best single entry. -/

namespace Zeus.FamilyDedup

open Zeus.Collateral (strip)

structure WeatherFamilyKey where
  (city targetDate temperatureMetric : String)
  marketFamilyId : String := ""
  deriving DecidableEq

/-- Named fields of an object or mapping; a value may be `None`. -/
abbrev Fields := List (String × Option String)

/-- `_field`: the default stands only for a missing field. -/
def field (fields : Fields) (name : String) (default : Option String) : Option String :=
  (fields.lookup name).getD default

/-- `str(value)`. -/
def str (value : Option String) : String := value.getD "None"

/-- `str(value or "")`. -/
def text (value : Option String) : String := value.getD ""

inductive KeyField where
  | familyKey (key : WeatherFamilyKey)
  | mapping (fields : Fields)
  | other

structure Exposure where
  key : KeyField
  fields : Fields

def orElse (value other : Option String) : Option String := if text value = "" then other else value

/-- `_exposure_key`. -/
def Exposure.familyKey (exposure : Exposure) : WeatherFamilyKey :=
  match exposure.key with
  | .familyKey key => key
  | .mapping key =>
    let get name := field key name none
    { city := str (field key "city" (some ""))
      targetDate := str (field key "target_date" (some ""))
      temperatureMetric := str (field key "temperature_metric" (some ""))
      marketFamilyId := text (orElse (get "market_family_id")
        (orElse (get "event_slug") (orElse (get "market_slug") (get "condition_id")))) }
  | .other =>
    let get := field exposure.fields
    { city := str (get "city" (some ""))
      targetDate := str (get "target_date" (some ""))
      temperatureMetric := str (get "temperature_metric" (some ""))
      marketFamilyId := text (get "market_family_id"
        (get "event_slug" (get "market_slug" (get "condition_id" (some ""))))) }

/-- `_family_keys_conflict`: the market id does not narrow the family. -/
def WeatherFamilyKey.conflicts (left right : WeatherFamilyKey) : Bool :=
  left.city = right.city && left.targetDate = right.targetDate &&
    left.temperatureMetric = right.temperatureMetric

/-- `_exposure_bin_label`. -/
def Exposure.binLabel (exposure : Exposure) : String :=
  text (field exposure.fields "bin_label"
    (field exposure.fields "range_label" (field exposure.fields "outcome_label" (some ""))))

def Exposure.phase (exposure : Exposure) : String :=
  PyText.onString PyText.lower
    (text (field exposure.fields "phase" (field exposure.fields "state" (some ""))))

def Exposure.positionId (exposure : Exposure) : String :=
  text (field exposure.fields "position_id" (some ""))

def blockingExposurePhases : List String :=
  ["", "open", "pending", "active", "pending_entry", "pending_tracked", "entered", "holding",
    "day0_window",
    "pending_exit", "acked", "live", "partial", "partially_matched", "partially_filled", "matched",
    "filled", "submit_unknown_side_effect", "unknown", "review_required", "submitted", "submitting"]

def blockingExposuresForKey (exposures : Option (List Exposure)) (key : WeatherFamilyKey) :
    List Exposure :=
  (exposures.getD []).filter fun exposure =>
    exposure.familyKey.conflicts key && decide (exposure.phase ∈ blockingExposurePhases)

structure BinEdge where
  bin : Option String
  (forwardEdge entryPrice pMarket : PyFloat)

inductive NoTradeReason where
  | mutuallyExclusiveFamilyDedup
  | other (name : String)

inductive RejectionDetail where
  | existingExposure (family : WeatherFamilyKey) (droppedBin existingBin existingPosition : String)
  | portfolioLegsOnly (family : WeatherFamilyKey) (droppedBin : String)
  | noPortfolioIntent (family : WeatherFamilyKey) (droppedBin keptBin : String)
    (keptSize keptScore : PyFloat)

structure EdgeDecision where
  shouldTrade : Bool
  edge : Option BinEdge
  sizeUsd : PyFloat
  decisionId : String
  rejectionStage : String := ""
  rejectionReasons : List String := []
  rejectionReasonEnum : Option NoTradeReason := none
  rejectionReasonDetail : Option RejectionDetail := none
  appliedValidations : List String := []
  familyRankedCandidateCount : ℤ := 0
  familyPortfolioLegRole : String := ""

namespace EdgeDecision

/-- `_decision_bin_label`. -/
def binLabel (decision : EdgeDecision) : String := (decision.edge.bind BinEdge.bin).getD ""

def forwardEdge (decision : EdgeDecision) : PyFloat :=
  (decision.edge.map BinEdge.forwardEdge).getD .zero

/-- `_decision_family_selection_score`: the forward edge at the submitted notional. -/
def familySelectionScore (decision : EdgeDecision) : PyFloat :=
  match decision.edge with
  | none => .zero
  | some edge =>
    let cost := if edge.entryPrice = .zero then edge.pMarket else edge.entryPrice
    let gain := if PyFloat.zero.lt edge.forwardEdge then edge.forwardEdge else .zero
    if cost.le .zero || decision.sizeUsd.le .zero then gain
    else gain.mul (decision.sizeUsd.div cost)

def reject (detail : RejectionDetail) (decision : EdgeDecision) : EdgeDecision :=
  { decision with
    shouldTrade := false
    rejectionStage := "ANTI_CHURN"
    rejectionReasons := ["mutually_exclusive_family_dedup"]
    rejectionReasonEnum := some .mutuallyExclusiveFamilyDedup
    rejectionReasonDetail := some detail }

def isPortfolioSelected (decision : EdgeDecision) : Bool :=
  decide (1 < decision.familyRankedCandidateCount) &&
    decision.familyPortfolioLegRole = "portfolio_selected"

def markRanked (decision : EdgeDecision) : EdgeDecision :=
  if "family_ranked_executable_alternative" ∈ decision.appliedValidations then decision
  else { decision with
    appliedValidations := decision.appliedValidations ++ ["family_ranked_executable_alternative"] }

def negId (decision : EdgeDecision) : List ℤ :=
  decision.decisionId.toList.map fun c => -(c.toNat : ℤ)

/-- The tuple comparison of two composites: the first components that differ decide. -/
def compositeLt (decision other : EdgeDecision) : Bool :=
  if decision.familySelectionScore.same other.familySelectionScore then
    if decision.forwardEdge.same other.forwardEdge then decide (decision.negId < other.negId)
    else decision.forwardEdge.lt other.forwardEdge
  else decision.familySelectionScore.lt other.familySelectionScore

end EdgeDecision

def tradable (decisions : List EdgeDecision) : List (EdgeDecision × ℕ) :=
  decisions.zipIdx.filter fun entry => entry.1.shouldTrade

/-- `_pick_best_index`: the first of the greatest. -/
def pickBestIndex : List (EdgeDecision × ℕ) → Option (EdgeDecision × ℕ)
  | [] => none
  | first :: rest =>
    some (rest.foldl (fun best entry => if best.1.compositeLt entry.1 then entry else best) first)

structure Request where
  (city targetDate temperatureMetric : String)
  marketFamilyId : String := ""
  existingExposures : Option (List Exposure) := none
  familyPortfolioAllowedExposureIds : List String := []
  familyPortfolioIntent : Bool := false

namespace Request

variable (request : Request)

def key : WeatherFamilyKey :=
  ⟨request.city, request.targetDate, request.temperatureMetric, request.marketFamilyId⟩

def allowedExposureIds : List String :=
  (request.familyPortfolioAllowedExposureIds.map strip).filter (· ≠ "")

def blockingExposures : List Exposure :=
  (blockingExposuresForKey request.existingExposures request.key).filter fun exposure =>
    strip exposure.positionId ∉ request.allowedExposureIds

/-- `_has_conflicting_existing_exposure`: the first exposure whose label is not the decision's. -/
def conflictingExposure (decision : EdgeDecision) (exposures : List Exposure) : Option Exposure :=
  exposures.find? fun exposure =>
    exposure.binLabel = "" || decision.binLabel = "" || exposure.binLabel ≠ decision.binLabel

def dropConflict (decision : EdgeDecision) : EdgeDecision :=
  if decision.shouldTrade then
    match conflictingExposure decision request.blockingExposures with
    | some exposure =>
      decision.reject (.existingExposure request.key decision.binLabel exposure.binLabel
          exposure.positionId)
    | none => decision
  else decision

def keepSelected (decision : EdgeDecision) : EdgeDecision :=
  if decision.shouldTrade then
    if decision.isPortfolioSelected then decision.markRanked
    else decision.reject (.portfolioLegsOnly request.key decision.binLabel)
  else decision

def keepEntry (best entry : EdgeDecision × ℕ) : EdgeDecision :=
  if entry.1.shouldTrade && entry.2 != best.2 then
    entry.1.reject (.noPortfolioIntent request.key entry.1.binLabel best.1.binLabel best.1.sizeUsd
      best.1.familySelectionScore)
  else entry.1

/-- `dedup_mutually_exclusive_families`: one call has one family key, so one group. -/
def dedup (decisions : List EdgeDecision) : List EdgeDecision :=
  let decisions := decisions.map request.dropConflict
  let entries := tradable decisions
  if entries.length < 2 then decisions
  else if request.familyPortfolioIntent && entries.any (·.1.isPortfolioSelected) then
    decisions.map request.keepSelected
  else (pickBestIndex entries).elim decisions fun best =>
    decisions.zipIdx.map (request.keepEntry best)

end Request

namespace EdgeDecision

variable {decision other : EdgeDecision}

/-- Neither number of the composite is not-a-number. -/
def RealScores (decision : EdgeDecision) : Prop :=
  decision.familySelectionScore ≠ .nan ∧ decision.forwardEdge ≠ .nan

def composite (decision : EdgeDecision) :
    Lex (WithBot (WithTop ℚ) × Lex (WithBot (WithTop ℚ) × List ℤ)) :=
  toLex (decision.familySelectionScore.place, toLex (decision.forwardEdge.place, decision.negId))

theorem compositeLt_iff (real : decision.RealScores) (otherReal : other.RealScores) :
    decision.compositeLt other = true ↔ decision.composite < other.composite := by
  unfold compositeLt composite
  rw [Prod.Lex.toLex_lt_toLex, Prod.Lex.toLex_lt_toLex]
  by_cases scores : decision.familySelectionScore.same other.familySelectionScore = true
  · have equal := (PyFloat.same_iff_place real.1 otherReal.1).mp scores
    by_cases edges : decision.forwardEdge.same other.forwardEdge = true
    · have alike := (PyFloat.same_iff_place real.2 otherReal.2).mp edges
      simp [scores, edges, equal, alike]
    · have differ := mt (PyFloat.same_iff_place real.2 otherReal.2).mpr edges
      simp [scores, edges, equal, differ, PyFloat.lt_iff_place real.2 otherReal.2]
  · have differ := mt (PyFloat.same_iff_place real.1 otherReal.1).mpr scores
    simp [scores, differ, PyFloat.lt_iff_place real.1 otherReal.1]

theorem decisionId_of_composite (same : decision.composite = other.composite) :
    decision.decisionId = other.decisionId := by
  have ids : decision.negId = other.negId := congrArg (fun key => (ofLex (ofLex key).2).2) same
  refine String.toList_injective (List.map_injective_iff.mpr (fun c d equal => ?_) ids)
  exact Char.toNat_inj.mp (by simpa using equal)

end EdgeDecision

section
variable {entries : List (EdgeDecision × ℕ)} {best : EdgeDecision × ℕ}

theorem pickBestIndex_mem (picked : pickBestIndex entries = some best) : best ∈ entries := by
  cases entries with
  | nil => cases picked
  | cons first rest =>
    obtain rfl := Option.some.inj picked
    refine BestPick.foldl_mem_of_choice (fun best entry => ?_) rest first
    split_ifs
    · exact .inr rfl
    · exact .inl rfl

theorem foldl_compositeLt {rest : List (EdgeDecision × ℕ)} {first : EdgeDecision × ℕ}
    (real : ∀ entry ∈ first :: rest, entry.1.RealScores) :
    rest.foldl (fun best entry => if best.1.compositeLt entry.1 then entry else best) first =
      rest.foldl (BestPick.keepBetter fun entry => entry.1.composite) first := by
  induction rest generalizing first with
  | nil => rfl
  | cons entry rest ih =>
    obtain ⟨realFirst, realEntry, realRest⟩ :=
      List.forall_mem_cons.mp real |>.imp_right List.forall_mem_cons.mp
    have step : (if first.1.compositeLt entry.1 then entry else first) =
        BestPick.keepBetter (fun entry => entry.1.composite) first entry := by
      simp only [BestPick.keepBetter, EdgeDecision.compositeLt_iff realFirst realEntry]
    rw [List.foldl_cons, List.foldl_cons, ← step]
    refine ih (List.forall_mem_cons.mpr ⟨?_, realRest⟩)
    split_ifs
    · exact realEntry
    · exact realFirst

theorem pickBestIndex_greatest (real : ∀ entry ∈ entries, entry.1.RealScores)
    (picked : pickBestIndex entries = some best) :
    ∀ entry ∈ entries, entry.1.composite ≤ best.1.composite := by
  cases entries with
  | nil => cases picked
  | cons first rest =>
    obtain rfl := Option.some.inj picked
    rw [foldl_compositeLt real]
    exact (BestPick.foldl_keepBetter (fun entry => entry.1.composite) rest first).2

theorem pickBestIndex_eq_none : pickBestIndex entries = none ↔ entries = [] := by
  cases entries <;> simp [pickBestIndex]

theorem tradable_map_fst (decisions : List EdgeDecision) :
    (tradable decisions).map Prod.fst = decisions.filter EdgeDecision.shouldTrade := by
  calc (tradable decisions).map Prod.fst
      = (decisions.zipIdx.map Prod.fst).filter EdgeDecision.shouldTrade := List.filter_map.symm
    _ = decisions.filter EdgeDecision.shouldTrade := by rw [List.zipIdx_map_fst]
end

namespace Request

variable {request : Request} {decisions others : List EdgeDecision}

theorem survivors_keepEntry {best : EdgeDecision × ℕ} (among : best ∈ tradable decisions) :
    (decisions.zipIdx.map (request.keepEntry best)).filter EdgeDecision.shouldTrade = [best.1] := by
  have trades : ∀ entry : EdgeDecision × ℕ, (request.keepEntry best entry).shouldTrade =
      (decide (entry.2 = best.2) && entry.1.shouldTrade) := by
    intro entry
    unfold keepEntry
    by_cases own : entry.2 = best.2
    · simp [own]
    · cases trading : entry.1.shouldTrade
      · simp [trading]
      · simp [own, EdgeDecision.reject]
  have posns : ((tradable decisions).map Prod.snd).Nodup :=
    (List.nodup_zipIdx_map_snd decisions).sublist (List.filter_sublist.map Prod.snd)
  have only : decisions.zipIdx.filter (fun entry => (request.keepEntry best entry).shouldTrade) =
      [best] := by
    simp only [trades]
    rw [← List.filter_filter]
    exact KeyedTable.filter_key_eq_singleton posns among
  calc (decisions.zipIdx.map (request.keepEntry best)).filter EdgeDecision.shouldTrade
      = (decisions.zipIdx.filter fun entry => (request.keepEntry best entry).shouldTrade).map
        (request.keepEntry best) :=
        List.filter_map
    _ = [best.1] := by
        rw [only]
        simp [keepEntry]

theorem survivors (scalar : request.familyPortfolioIntent = false) :
    (request.dedup decisions).filter EdgeDecision.shouldTrade =
      ((pickBestIndex (tradable (decisions.map request.dropConflict))).map Prod.fst).toList := by
  have left := tradable_map_fst (decisions.map request.dropConflict)
  unfold dedup
  rw [scalar]
  simp only [Bool.false_and, Bool.false_eq_true, if_false]
  cases picked : pickBestIndex (tradable (decisions.map request.dropConflict)) with
  | none =>
    rw [pickBestIndex_eq_none.mp picked] at left ⊢
    simp [← left]
  | some best =>
    split_ifs with single
    · have among := pickBestIndex_mem picked
      obtain ⟨only, isOnly⟩ : ∃ only, tradable (decisions.map request.dropConflict) = [only] :=
        List.length_eq_one_iff.mp (by have := List.length_pos_of_mem among; omega)
      rw [isOnly] at among left
      rw [← left, List.mem_singleton.mp among]
      rfl
    · exact survivors_keepEntry (pickBestIndex_mem picked)

structure Narrows (before after : EdgeDecision) : Prop where
  trades : after.shouldTrade = true → before.shouldTrade = true
  label : after.binLabel = before.binLabel

theorem Narrows.refl (decision : EdgeDecision) : Narrows decision decision := ⟨id, rfl⟩

theorem Narrows.reject (decision : EdgeDecision) (detail : RejectionDetail) :
    Narrows decision (decision.reject detail) :=
  ⟨fun trades => absurd trades Bool.false_ne_true, rfl⟩

theorem dropConflict_trades {decision : EdgeDecision}
    (trades : (request.dropConflict decision).shouldTrade = true) :
    request.dropConflict decision = decision ∧
    conflictingExposure decision request.blockingExposures = none := by
  unfold dropConflict at trades ⊢
  split_ifs at trades ⊢ with before
  · cases conflict : conflictingExposure decision request.blockingExposures with
    | none => exact ⟨rfl, rfl⟩
    | some expo =>
      rw [conflict] at trades
      cases trades
  · exact absurd trades before

theorem dropConflict_narrows (decision : EdgeDecision) :
    Narrows decision (request.dropConflict decision) := by
  unfold dropConflict
  split_ifs
  · split
    · exact .reject decision _
    · exact .refl decision
  · exact .refl decision

theorem keepSelected_narrows (decision : EdgeDecision) :
    Narrows decision (request.keepSelected decision) := by
  unfold keepSelected EdgeDecision.markRanked
  split_ifs
  · exact .refl decision
  · exact ⟨id, rfl⟩
  · exact .reject decision _
  · exact .refl decision

theorem keepEntry_narrows (best entry : EdgeDecision × ℕ) :
    Narrows entry.1 (request.keepEntry best entry) := by
  unfold keepEntry
  split_ifs
  · exact .reject entry.1 _
  · exact .refl entry.1

theorem dedup_narrows :
    List.Forall₂ Narrows (decisions.map request.dropConflict) (request.dedup decisions) := by
  have same : ∀ kept : List EdgeDecision, List.Forall₂ Narrows kept kept := fun kept =>
    List.forall₂_same.mpr fun decision _ => .refl decision
  unfold dedup
  dsimp only
  split_ifs
  · exact same _
  · rw [List.forall₂_map_right_iff]
    exact List.forall₂_same.mpr fun decision _ => keepSelected_narrows decision
  · cases pickBestIndex (tradable (decisions.map request.dropConflict)) with
    | none => exact same _
    | some best =>
      have posns : List.Forall₂ Narrows ((decisions.map request.dropConflict).zipIdx.map Prod.fst)
          ((decisions.map request.dropConflict).zipIdx.map (request.keepEntry best)) := by
        rw [List.forall₂_map_left_iff, List.forall₂_map_right_iff]
        exact List.forall₂_same.mpr fun entry _ => keepEntry_narrows best entry
      rwa [List.zipIdx_map_fst] at posns

theorem mem_tradable_map {entry : EdgeDecision × ℕ}
    (mem : entry ∈ tradable (decisions.map request.dropConflict)) :
    entry.1 ∈ decisions ∧ entry.1.shouldTrade = true := by
  have among : entry.1 ∈ (decisions.map request.dropConflict).filter EdgeDecision.shouldTrade :=
    tradable_map_fst (decisions.map request.dropConflict) ▸ List.mem_map_of_mem mem
  obtain ⟨mapped, trades⟩ := List.mem_filter.mp among
  obtain ⟨decision, hp, same⟩ := List.mem_map.mp mapped
  have unch := (dropConflict_trades (same ▸ trades)).1
  exact ⟨(unch.symm.trans same) ▸ hp, trades⟩

/-- Permuted decisions with distinct ids and real scores leave the same survivor. -/
theorem survivor_of_perm (scalar : request.familyPortfolioIntent = false)
    (nd : (decisions.map EdgeDecision.decisionId).Nodup)
    (real : ∀ decision ∈ decisions, decision.shouldTrade = true → decision.RealScores)
    (perm : others.Perm decisions) :
    (request.dedup others).filter EdgeDecision.shouldTrade =
      (request.dedup decisions).filter EdgeDecision.shouldTrade := by
  rw [survivors scalar, survivors scalar]
  have trading : ((tradable (others.map request.dropConflict)).map Prod.fst).Perm
      ((tradable (decisions.map request.dropConflict)).map Prod.fst) := by
    rw [tradable_map_fst, tradable_map_fst]
    exact (perm.map _).filter _
  have allReal : ∀ entry ∈ tradable (decisions.map request.dropConflict), entry.1.RealScores :=
    fun entry mem =>
    real entry.1 (mem_tradable_map mem).1 (mem_tradable_map mem).2
  have othersReal : ∀ entry ∈ tradable (others.map request.dropConflict), entry.1.RealScores :=
    fun entry mem =>
    real entry.1 (perm.mem_iff.mp (mem_tradable_map mem).1) (mem_tradable_map mem).2
  cases picked : pickBestIndex (tradable (decisions.map request.dropConflict)) with
  | none =>
    rw [pickBestIndex_eq_none.mp picked, List.map_nil, List.perm_nil, List.map_eq_nil_iff]
      at trading
    rw [trading]
    rfl
  | some best =>
    cases othPick : pickBestIndex (tradable (others.map request.dropConflict)) with
    | none =>
      rw [pickBestIndex_eq_none.mp othPick, List.map_nil, List.nil_perm, List.map_eq_nil_iff]
        at trading
      rw [trading] at picked
      cases picked
    | some other =>
      have among := pickBestIndex_mem picked
      have otherAmong := pickBestIndex_mem othPick
      -- each is in the other's list, so neither composite is the greater
      have below : other.1.composite ≤ best.1.composite := by
        obtain ⟨entry, mem, same⟩ :=
          List.mem_map.mp (trading.mem_iff.mp (List.mem_map_of_mem otherAmong))
        exact same ▸ pickBestIndex_greatest allReal picked entry mem
      have above : best.1.composite ≤ other.1.composite := by
        obtain ⟨entry, mem, same⟩ :=
          List.mem_map.mp (trading.mem_iff.mpr (List.mem_map_of_mem among))
        exact same ▸ pickBestIndex_greatest othersReal othPick entry mem
      have ids := EdgeDecision.decisionId_of_composite (le_antisymm below above)
      have same : other.1 = best.1 := List.inj_on_of_nodup_map nd
        (perm.mem_iff.mp (mem_tradable_map otherAmong).1) (mem_tradable_map among).1 ids
      rw [Option.map_some, Option.map_some, same]

/-- The gate only drops entries; without portfolio legs at most one is left, the same in every
order; and none is left whose label is not that of every blocking exposure. -/
theorem gate_leaves_no_conflict (request : Request) (decisions : List EdgeDecision) :
    List.Forall₂ (fun before after => after.shouldTrade = true → before.shouldTrade = true)
      decisions (request.dedup decisions) ∧
    (request.familyPortfolioIntent = false →
      ((request.dedup decisions).filter EdgeDecision.shouldTrade).length ≤ 1 ∧
      ((decisions.map EdgeDecision.decisionId).Nodup →
        (∀ decision ∈ decisions, decision.shouldTrade = true → decision.RealScores) →
        ∀ others, others.Perm decisions →
          (request.dedup others).filter EdgeDecision.shouldTrade =
            (request.dedup decisions).filter EdgeDecision.shouldTrade)) ∧
    ∀ decision ∈ request.dedup decisions, decision.shouldTrade = true →
      ∀ expo ∈ request.existingExposures.getD [], expo.familyKey.conflicts request.key = true →
        expo.phase ∈ blockingExposurePhases → strip expo.positionId ∉ request.allowedExposureIds →
        expo.binLabel ≠ "" ∧ decision.binLabel ≠ "" ∧ expo.binLabel = decision.binLabel := by
  refine ⟨?_, fun scalar => ⟨?_, fun nd real others => survivor_of_perm scalar nd real⟩, ?_⟩
  · have passes := List.forall₂_map_left_iff.mp (@dedup_narrows request decisions)
    refine passes.imp ?_
    intro before after narrows trades
    exact (dropConflict_narrows before).trades (narrows.trades trades)
  · rw [survivors scalar]
    cases pickBestIndex (tradable (decisions.map request.dropConflict)) <;> simp
  · intro decision mem trades expo hp family blocking notAllowed
    obtain ⟨left, kept, narrows⟩ :=
      (CheckedFold.mem_of_forall₂ (@dedup_narrows request decisions)).2 decision mem
    obtain ⟨before, -, rfl⟩ := List.mem_map.mp kept
    have unch := dropConflict_trades (narrows.trades trades)
    have isBlocking : expo ∈ request.blockingExposures := by
      refine List.mem_filter.mpr ⟨List.mem_filter.mpr ⟨hp, ?_⟩, decide_eq_true notAllowed⟩
      rw [family, Bool.true_and]
      exact decide_eq_true blocking
    have agrees := List.find?_eq_none.mp unch.2 expo isBlocking
    have label : decision.binLabel = before.binLabel := by rw [narrows.label, unch.1]
    simpa [label, and_assoc] using agrees

end Request

end Zeus.FamilyDedup
