import Zeus.State.LegacyExitRepair
import Zeus.Execution.PartialExitGrowth
import Zeus.State.TokenInventory
import Zeus.State.LateFill
import Zeus.Contracts.FillableStake
import Zeus.Solve.BuyPrefix
import Zeus.Solve.SellPrefix
import Zeus.Solve.TailMixture
import Zeus.Solve.FreshBuy
import Zeus.Solve.LegalNeighbor
import Zeus.Decision.SizingEngine
import Zeus.Decision.IsotonicCalibration
import Zeus.Data.ExecutionLease
import Zeus.State.ExitBreakpoints
import Zeus.Forecast.Day0Conditioner
import Zeus.Forecast.BayesPrecisionFusion
import Zeus.Forecast.Day0TerminalExact
import Zeus.Events.LiveCap
import Zeus.Events.DecisionLanes
import Zeus.Events.LiveOrderEvidence
import Zeus.Events.ClaimFence
import Zeus.State.OrderFacts
import Zeus.State.PositionRuns
import Zeus.State.PositionFrames
import Zeus.State.PositionLedger
import Zeus.State.DuplicateShares
import Zeus.State.FillCashAttribution
import Zeus.Strategy.FillUpFence
import Zeus.Strategy.FamilyExclusiveDedup
import Zeus.Strategy.SelectionFamily
import Zeus.Strategy.CorrelationShrinkage
import Zeus.Execution.ExitMutex
import Zeus.Execution.ScreenCancelLease
import Zeus.Execution.WrapOutcomes
import Zeus.Execution.RoutePayoffs
import Zeus.Execution.RedeemReconcile
import Zeus.DecisionKernel.Ledger
import Zeus.RiskAllocator.CapRuns
import Zeus.RiskAllocator.PositionExposure
