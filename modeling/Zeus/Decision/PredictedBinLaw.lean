import Mathlib.Tactic
import Zeus.Lib.BestPick

/-! `exit_decision` compares holding with selling at the points of a proceeds curve. The scan keeps
a point only for a strictly better value, so it ends at a best one or stays at the hold. -/

namespace Zeus.PredictedBin

variable {α : Type*} [Field α] [LinearOrder α]

inductive LockState where
  | none | impossible | guaranteed
  deriving DecidableEq

inductive ExitAction where
  | hold | sellReversal | evidenceUnavailable | redForceExit
  deriving DecidableEq

structure NativeBounds (α : Type*) where
  (qLcb q qUcb : α)

structure ExitDecision (α : Type*) where
  action : ExitAction
  (sharesToSell valueKept valueSold : α)

/-- A locked outcome is certain, so the three bounds are one. -/
def applyLock (bounds : NativeBounds α) : LockState → NativeBounds α
  | .impossible => ⟨0, 0, 0⟩
  | .guaranteed => ⟨1, 1, 1⟩
  | .none => bounds

def lockedQMean (qMean : α) (lock : LockState) : α := (applyLock ⟨qMean, qMean, qMean⟩ lock).q

def deepestBreakpoint (bidBreakpoints : List (α × α)) : α × α :=
  bidBreakpoints.foldl (fun deepest point => if deepest.1 < point.1 then point else deepest) (0, 0)

def candidate (held q margin : α) (point : α × α) : α :=
  (held - point.1) * q + point.2 - margin * point.1

structure BestSale (α : Type*) where
  (x proceeds value : α)

def BestSale.offer (held q margin : α) (best : BestSale α) (point : α × α) : BestSale α :=
  if best.value < candidate held q margin point then
    ⟨point.1, point.2, candidate held q margin point⟩
  else best

def bestSale (held q margin : α) (bidBreakpoints : List (α × α)) : BestSale α :=
  (bidBreakpoints.insertionSort fun point other => point.1 ≤ other.1).foldl
    (BestSale.offer held q margin) ⟨0, 0, held * q⟩

def exitDecision (heldShares qMean : α) (bidBreakpoints : List (α × α)) (exitMarginPerShare : α)
    (lock : LockState) (evidenceOk riskguardRed : Bool) : ExitDecision α :=
  let q := lockedQMean qMean lock
  let holdValue := heldShares * q
  if riskguardRed then ⟨.redForceExit, heldShares, 0, (deepestBreakpoint bidBreakpoints).2⟩
  else if evidenceOk = false ∧ lock = .none then ⟨.evidenceUnavailable, 0, holdValue, 0⟩
  else
    let best := bestSale heldShares q exitMarginPerShare bidBreakpoints
    if 0 < best.x then ⟨.sellReversal, best.x, (heldShares - best.x) * q, best.proceeds⟩
    else ⟨.hold, 0, holdValue, 0⟩

variable {held q margin : α} {points : List (α × α)}

def BestSale.at (held q margin : α) (point : α × α) : BestSale α :=
  ⟨point.1, point.2, candidate held q margin point⟩

theorem bestSale_cases :
    (bestSale held q margin points = ⟨0, 0, held * q⟩ ∨
      held * q < (bestSale held q margin points).value ∧
      ∃ point ∈ points, bestSale held q margin points = .at held q margin point) ∧
    ∀ point ∈ points, candidate held q margin point ≤ (bestSale held q margin points).value := by
  have scans : bestSale held q margin points =
      ((points.insertionSort fun point other => point.1 ≤ other.1).map
          (BestSale.at held q margin)).foldl
        (BestPick.keepBetter BestSale.value) ⟨0, 0, held * q⟩ := by
    rw [List.foldl_map]
    rfl
  have members : ∀ {sale : BestSale α},
      sale ∈ (points.insertionSort fun point other => point.1 ≤ other.1).map
          (BestSale.at held q margin) ↔
        ∃ point ∈ points, BestSale.at held q margin point = sale := by
    intro sale
    simp only [List.mem_map, List.mem_insertionSort]
  obtain ⟨ends, covers⟩ := BestPick.foldl_keepBetter BestSale.value
    ((points.insertionSort fun point other => point.1 ≤ other.1).map (BestSale.at held q margin))
      ⟨0, 0, held * q⟩
  rw [← scans] at ends covers
  constructor
  · rcases ends with stays | ⟨isPoint, better⟩
    · exact .inl stays
    · obtain ⟨point, mem, same⟩ := members.mp isPoint
      exact .inr ⟨better, point, mem, same.symm⟩
  · intro point mem
    exact covers _ (List.mem_cons_of_mem _ (members.mpr ⟨point, mem, rfl⟩))

theorem exitDecision_free :
    exitDecision held q points margin .none true false =
      if 0 < (bestSale held q margin points).x then
        ⟨.sellReversal, (bestSale held q margin points).x,
          (held - (bestSale held q margin points).x) * q, (bestSale held q margin points).proceeds⟩
      else ⟨.hold, 0, held * q, 0⟩ := rfl

/-- With evidence and without a lock, the law sells at a best point where that beats the hold, and
holds where no point does. -/
theorem exitDecision_cases (held q margin : α) (pos : ∀ point ∈ points, 0 ≤ point.1)
    (hno : ∀ point ∈ points, point.1 = 0 → point.2 = 0) :
    ((exitDecision held q points margin .none true false).action = .sellReversal ∧
      ∃ point ∈ points, 0 < point.1 ∧
        (exitDecision held q points margin .none true false).sharesToSell = point.1 ∧
        held * q < candidate held q margin point ∧
        ∀ other ∈ points, candidate held q margin other ≤ candidate held q margin point) ∨
    (exitDecision held q points margin .none true false).action = .hold ∧
    (exitDecision held q points margin .none true false).sharesToSell = 0 ∧
    ∀ point ∈ points, candidate held q margin point ≤ held * q := by
  obtain ⟨ends, covers⟩ := @bestSale_cases _ _ _ held q margin points
  rcases ends with stays | ⟨better, point, mem, same⟩
  · rw [stays] at covers
    rw [exitDecision_free, if_neg (by rw [stays]; exact lt_irrefl 0)]
    exact .inr ⟨rfl, rfl, covers⟩
  · rw [same] at better covers
    have sells : 0 < point.1 := by
      refine (pos point mem).lt_of_ne fun h0 => better.ne' ?_
      -- a point without shares has no proceeds and is worth the hold
      simp [BestSale.at, candidate, ← h0, hno point mem h0.symm]
    rw [exitDecision_free, if_pos (by rwa [same])]
    exact .inl ⟨rfl, point, mem, sells, congrArg BestSale.x same, better, covers⟩

/-- The points are on the curve up to the limit, and no part of it rises above all of them against
any slope. -/
structure Traces (proceeds : α → α) (limit : α) (points : List (α × α)) : Prop where
  nonneg : 0 ≤ limit
  zero : proceeds 0 = 0
  onCurve : ∀ point ∈ points, 0 ≤ point.1 ∧ point.1 ≤ limit ∧ point.2 = proceeds point.1
  corners : ∀ slope x, 0 ≤ x → x ≤ limit → proceeds x - slope * x ≤ 0 ∨
    ∃ point ∈ points, proceeds x - slope * x ≤ point.2 - slope * point.1

def saleValue (held q margin : α) (proceeds : α → α) (x : α) : α :=
  (held - x) * q + proceeds x - margin * x

structure Optimal (held q margin : α) (proceeds : α → α) (limit : α) (decision : ExitDecision α) :
    Prop where
  sells_iff : decision.action = .sellReversal ↔
    ∃ x, 0 < x ∧ x ≤ limit ∧ held * q < saleValue held q margin proceeds x
  nonneg : 0 ≤ decision.sharesToSell
  within : decision.sharesToSell ≤ limit
  best : ∀ x, 0 ≤ x → x ≤ limit →
    saleValue held q margin proceeds x ≤ saleValue held q margin proceeds decision.sharesToSell

variable [IsStrictOrderedRing α]

/-- The law applied to the corners of a curve decides over the whole curve. -/
theorem Traces.optimal {proc : α → α} {limit : α} (traces : Traces proc limit points)
    (held q margin : α) :
    Optimal held q margin proc limit (exitDecision held q points margin .none true false) := by
  have atPoint : ∀ point ∈ points,
        candidate held q margin point = saleValue held q margin proc point.1 := by
    intro point mem
    rw [candidate, saleValue, (traces.onCurve point mem).2.2]
  have atHold : saleValue held q margin proc 0 = held * q := by simp [saleValue, traces.zero]
  have corner : ∀ x, 0 ≤ x → x ≤ limit → saleValue held q margin proc x ≤ held * q ∨
      ∃ point ∈ points, saleValue held q margin proc x ≤ candidate held q margin point := by
    intro x from0 toLimit
    rcases traces.corners (q + margin) x from0 toLimit with low | ⟨point, mem, low⟩
    · left
      unfold saleValue
      linarith
    · refine .inr ⟨point, mem, ?_⟩
      unfold saleValue candidate
      linarith
  rcases exitDecision_cases held q margin (fun point mem => (traces.onCurve point mem).1)
      (fun point mem h0 => by rw [(traces.onCurve point mem).2.2, h0, traces.zero]) with
    ⟨sells, point, mem, pos, sold, better, best⟩ | ⟨holds, sold, best⟩
  · obtain ⟨from0, toLimit, -⟩ := traces.onCurve point mem
    refine ⟨⟨fun _ => ⟨point.1, pos, toLimit, atPoint point mem ▸ better⟩, fun _ => sells⟩, ?_, ?_,
      ?_⟩
    · rwa [sold]
    · rwa [sold]
    · intro x above below
      rw [sold, ← atPoint point mem]
      rcases corner x above below with low | ⟨other, isPoint, low⟩
      · exact low.trans better.le
      · exact low.trans (best other isPoint)
  · have below : ∀ x, 0 ≤ x → x ≤ limit → saleValue held q margin proc x ≤ held * q := by
      intro x above below
      rcases corner x above below with low | ⟨point, mem, low⟩
      · exact low
      · exact low.trans (best point mem)
    refine ⟨⟨fun sells => ?_, fun ⟨x, pos, toLimit, better⟩ => ?_⟩, ?_, ?_, ?_⟩
    · rw [holds] at sells
      cases sells
    · exact absurd better (not_lt.mpr (below x pos.le toLimit))
    · rw [sold]
    · rw [sold]
      exact traces.nonneg
    · intro x above toLimit
      rw [sold, atHold]
      exact below x above toLimit

end Zeus.PredictedBin
