import Zeus.DecisionKernel.Certificate

/-! Verification reads the payload for one flag only, and the parents for their hash and type
only. -/

namespace Zeus.DecisionKernel

open CheckedFold Refusal

variable {ext : Externals} {cert : DecisionCertificate} {parents : List DecisionCertificate}
  {decisionTime : Option Instant}

structure Checks (header : CertificateHeader) (payload : Payload)
    (parents : List DecisionCertificate) (decisionTime : Option Instant) : Prop where
  mode : header.mode ∈ allowedModes
  time : header.decisionTime = decisionTime.getD header.decisionTime
  edges : parentEdgesRefusal parents [] header.parentEdges = none
  filtration : timeFiltrationRefusal header = none
  generated : generatedSemanticsRefusal header.certificateType payload = none

theorem verifyCertificate_ok_iff : verifyCertificate ext cert parents decisionTime = .ok () ↔
    ext.certificateHashFor cert.header = cert.header.certificateHash ∧
      Checks cert.header cert.payload parents decisionTime := by
  simp only [verifyCertificate, guardBy_eq_ok, first_cons, require_eq_none]
  constructor
  · rintro ⟨mode, time, edges, hash, filtration, generated, -⟩
    exact ⟨hash, mode, time, edges, filtration, generated⟩
  · rintro ⟨hash, checks⟩
    exact ⟨checks.mode, checks.time, checks.edges, hash, checks.filtration, checks.generated, rfl⟩

theorem timeFiltration_maxParent {header : CertificateHeader}
    (passed : timeFiltrationRefusal header = none) {clock : Clock} {time : Instant}
    (hrec : header.maxParent.time clock = some time) : time ≤ header.decisionTime := by
  simp only [timeFiltrationRefusal, notAfter, first_cons, require_eq_none] at passed
  obtain ⟨-, -, -, src, agent, persisted, -⟩ := passed
  cases clock with
  | sourceAvailableAt => exact src time hrec
  | agentReceivedAt => exact agent time hrec
  | persistedAt => exact persisted time hrec

theorem buildCertificate_ok {args : BuildArgs} (built : buildCertificate ext args = .ok cert) :
    cert.header.payloadHash = ext.stableHash args.payload ∧
      ext.certificateHashFor cert.header = cert.header.certificateHash ∧
      maxParentTimes ext args.parentCertificates args.payload = .ok cert.header.maxParent := by
  unfold buildCertificate at built
  obtain ⟨maxParent, isMax, built⟩ := bind_eq_ok.mp built
  obtain ⟨_, -, built⟩ := bind_eq_ok.mp built
  obtain ⟨_, -, built⟩ := bind_eq_ok.mp built
  obtain ⟨_, -, built⟩ := bind_eq_ok.mp built
  cases built
  exact ⟨rfl, rfl, isMax⟩

/-- A built certificate shown with some payload: if it is accepted, its header carries that
payload's hash exactly when the payload is still the one it was built from. -/
theorem verification_binds_payload_iff (collFree : ext.CollisionFree) {args : BuildArgs}
    (built : buildCertificate ext args = .ok cert) (payload : Payload)
    (parents : List DecisionCertificate) (decisionTime : Option Instant) :
    (verifyCertificate ext { cert with payload } parents decisionTime = .ok () →
        cert.header.payloadHash = ext.stableHash payload) ↔
      ext.payloadJson payload = ext.payloadJson args.payload ∨
      ¬ Checks cert.header payload parents decisionTime := by
  obtain ⟨payloadHash, certificateHash, -⟩ := buildCertificate_ok built
  have bound : cert.header.payloadHash = ext.stableHash payload ↔
      ext.payloadJson payload = ext.payloadJson args.payload := by
    rw [payloadHash]
    exact ⟨fun same => (collFree same).symm, fun same => congrArg ext.sha256 same.symm⟩
  rw [verifyCertificate_ok_iff, bound]
  constructor
  · intro binds
    by_cases passes : Checks cert.header payload parents decisionTime
    · exact .inl (binds ⟨certificateHash, passes⟩)
    · exact .inr passes
  · rintro (same | fails) ⟨-, passes⟩
    · exact same
    · exact absurd passes fails

def sampleExternals : Externals where
  payloadJson payload := payload.rest
  hashInputJson input := input.certificateType ++ input.payloadHash
  sha256 text := text
  fromIsoformat _ := none

def sampleArgs : BuildArgs where
  certificateType := "QuoteFeasibilityCertificate"
  semanticKey := "quote-1"
  claimType := "QUOTE"
  decisionTime := 100
  payload := { rest := "limit 0.40" }
  authorityId := "zeus"
  authorityVersion := "1"
  algorithmId := "quote"
  algorithmVersion := "1"
  sourceAvailableAt := .instant 90
  agentReceivedAt := .instant 91
  persistedAt := .instant 92

theorem verification_binds_payload_sample :
    ∃ cert, buildCertificate sampleExternals sampleArgs = .ok cert ∧
      verifyCertificate sampleExternals cert [] none = .ok () ∧
      cert.header.payloadHash = sampleExternals.stableHash cert.payload := by
  have collFree : sampleExternals.CollisionFree := fun _ _ same => same
  refine ⟨_, rfl, by decide +kernel, ?_⟩
  exact (verification_binds_payload_iff collFree rfl sampleArgs.payload [] none).mpr (.inl rfl)
    (by decide +kernel)

/-- The limit price is raised after the header was computed. -/
def raisedLimit : Payload := { rest := "limit 0.90" }

theorem changed_payload_accepted :
    (buildCertificate sampleExternals sampleArgs).toOption.any (fun cert =>
        decide (verifyCertificate sampleExternals { cert with payload := raisedLimit } [] none =
              .ok ()) &&
          decide (cert.header.payloadHash ≠ sampleExternals.stableHash raisedLimit)) = true := by
  decide +kernel

/-- Every parent that an edge names was available, received and persisted by the decision. -/
def PastParents (cert : DecisionCertificate) (parents : List DecisionCertificate) : Prop :=
  ∀ edge ∈ cert.header.parentEdges, ∀ parent ∈ parents,
    parent.header.certificateHash = edge.certificateHash →
    ∀ clock time, parent.header.time clock = some time → time ≤ cert.header.decisionTime

def Recorded (cert : DecisionCertificate) (clock : Clock) (time : Instant) : Prop :=
  ∃ recorded, cert.header.maxParent.time clock = some recorded ∧ time ≤ recorded

theorem le_maxDt {vs : List (Option Instant)} {time : Instant} (mem : some time ∈ vs) :
    ∃ most, maxDt vs = some most ∧ time ≤ most := by
  have hp : time ∈ vs.filterMap id := List.mem_filterMap.mpr ⟨some time, mem, rfl⟩
  obtain ⟨most, isMost⟩ := Option.isSome_iff_exists.mp (List.isSome_max?_of_mem hp)
  exact ⟨most, isMost, (List.max?_le_iff isMost).mp le_rfl time hp⟩

theorem recorded_of_parentCertificates {args : BuildArgs}
    (built : buildCertificate ext args = .ok cert) {par : DecisionCertificate}
    (given : par ∈ args.parentCertificates) {clock : Clock} {time : Instant}
    (hp : par.header.time clock = some time) : Recorded cert clock time := by
  obtain ⟨-, -, isMax⟩ := buildCertificate_ok built
  rw [maxParentTimes, if_pos (List.ne_nil_of_mem given)] at isMax
  unfold Recorded
  rw [← Except.ok.inj isMax]
  cases clock with
  | sourceAvailableAt => exact le_maxDt (List.mem_map.mpr ⟨par, given, hp⟩)
  | agentReceivedAt => exact le_maxDt (List.mem_map.mpr ⟨par, given, hp⟩)
  | persistedAt => exact le_maxDt (List.mem_map.mpr ⟨par, given, hp⟩)

theorem pastParents_iff_unrecorded
    (acc : verifyCertificate ext cert parents decisionTime = .ok ()) :
    PastParents cert parents ↔
      ∀ edge ∈ cert.header.parentEdges, ∀ par ∈ parents,
        par.header.certificateHash = edge.certificateHash →
        ∀ clock time, par.header.time clock = some time → ¬ Recorded cert clock time →
          time ≤ cert.header.decisionTime := by
  obtain ⟨-, checks⟩ := verifyCertificate_ok_iff.mp acc
  constructor
  · intro past edge isEdge par isParent named clock time hp _
    exact past edge isEdge par isParent named clock time hp
  · intro unrec edge isEdge par isParent named clock time hp
    by_cases hrec : Recorded cert clock time
    · obtain ⟨most, isMost, below⟩ := hrec
      exact below.trans (timeFiltration_maxParent checks.filtration isMost)
    · exact unrec edge isEdge par isParent named clock time hp hrec

/-- A built certificate whose named parents were all given to the builder uses nothing from its
future. -/
theorem pastParents_of_parentCertificates {args : BuildArgs}
    (built : buildCertificate ext args = .ok cert)
    (acc : verifyCertificate ext cert parents decisionTime = .ok ())
    (given : ∀ edge ∈ cert.header.parentEdges, ∀ par ∈ parents,
        par.header.certificateHash = edge.certificateHash → par ∈ args.parentCertificates) :
    PastParents cert parents := by
  refine (pastParents_iff_unrecorded acc).mpr ?_
  intro edge isEdge par isParent named clock time hp missing
  exact absurd (recorded_of_parentCertificates built (given edge isEdge par isParent named) hp)
    missing

/-- An accepted certificate uses nothing from its future exactly when no named parent has a later
time that the recorded maxima leave out. Of a built one only the parents count that the builder was
not given. -/
theorem parents_precede_decision_iff
    (acc : verifyCertificate ext cert parents decisionTime = .ok ()) :
    (PastParents cert parents ↔
        ∀ edge ∈ cert.header.parentEdges, ∀ par ∈ parents,
          par.header.certificateHash = edge.certificateHash →
          ∀ clock time, par.header.time clock = some time → ¬ Recorded cert clock time →
            time ≤ cert.header.decisionTime) ∧
    ∀ args, buildCertificate ext args = .ok cert →
      (PastParents cert parents ↔
          ∀ edge ∈ cert.header.parentEdges, ∀ par ∈ parents,
            par.header.certificateHash = edge.certificateHash → par ∉ args.parentCertificates →
            ∀ clock time, par.header.time clock = some time → ¬ Recorded cert clock time →
              time ≤ cert.header.decisionTime) := by
  have unrec := pastParents_iff_unrecorded acc
  refine ⟨unrec, fun args built => unrec.trans ⟨?_, ?_⟩⟩
  · intro all edge isEdge par isParent named _
    exact all edge isEdge par isParent named
  · intro strangers edge isEdge par isParent named clock time hp missing
    by_cases given : par ∈ args.parentCertificates
    · exact absurd (recorded_of_parentCertificates built given hp) missing
    · exact strangers edge isEdge par isParent named given clock time hp missing

def lateQuote : BuildArgs :=
  { sampleArgs with decisionTime := 300, persistedAt := .instant 200 }

def belief (parent : DecisionCertificate) (parentCertificates : List DecisionCertificate) :
    BuildArgs :=
  { sampleArgs with
    certificateType := "BeliefCertificate"
    parentEdges := [{
      role := "quote"
      certificateHash := parent.header.certificateHash
      certificateType := parent.header.certificateType }]
    parentCertificates }

theorem parents_precede_decision_sample :
    ∃ par cert, buildCertificate sampleExternals sampleArgs = .ok par ∧
      buildCertificate sampleExternals (belief par [par]) = .ok cert ∧
      PastParents cert [par] := by
  refine ⟨_, _, rfl, rfl, ?_⟩
  refine ((parents_precede_decision_iff
    (by decide +kernel : verifyCertificate sampleExternals _ _ none = .ok ())).2 (belief _ [_])
      rfl).mpr ?_
  intro edge _ par isParent _ stranger
  exact absurd isParent stranger

theorem given_parent_is_past :
    ∃ par cert, buildCertificate sampleExternals sampleArgs = .ok par ∧
      buildCertificate sampleExternals (belief par [par]) = .ok cert ∧
      PastParents cert [par] := by
  refine ⟨_, _, rfl, rfl,
    @pastParents_of_parentCertificates sampleExternals _ _ none (belief _ [_]) rfl ?_ ?_⟩
  · decide +kernel
  · intro edge _ par isParent _
    exact isParent

/-- The builder is not given the parent, so no maximum is recorded. -/
theorem future_parent_accepted :
    ∃ par cert, buildCertificate sampleExternals lateQuote = .ok par ∧
      buildCertificate sampleExternals (belief par []) = .ok cert ∧
      verifyCertificate sampleExternals cert [par] none = .ok () ∧
      ¬ PastParents cert [par] := by
  refine ⟨_, _, rfl, rfl, by decide +kernel, ?_⟩
  intro past
  have notLater :=
    past _ (List.mem_singleton.mpr rfl) _ (List.mem_singleton.mpr rfl) rfl .persistedAt 200 rfl
  exact absurd notLater (by decide)

end Zeus.DecisionKernel
