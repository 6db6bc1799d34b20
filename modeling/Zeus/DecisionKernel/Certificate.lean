import Zeus.Lib.CheckedFold
import Zeus.Lib.Latest
import Zeus.Lib.Refusal

/-! The certificate hash covers the payload hash written in the header, and not the payload nor the
maxima of the parents' times. Times are instants (naive datetimes count as UTC). Canonical JSON,
SHA-256 and ISO parsing are parameters. -/

namespace Zeus.DecisionKernel

open Refusal

abbrev Instant := ℤ

structure ParentEdge where
  (role certificateHash certificateType : String)
  required : Bool := true
  deriving DecidableEq

inductive Clock where
  | sourceAvailableAt | agentReceivedAt | persistedAt
  deriving DecidableEq

structure Filtration where
  sourceAvailableAt : Option Instant := none
  agentReceivedAt : Option Instant := none
  persistedAt : Option Instant := none
  deriving DecidableEq

def Filtration.time (filtration : Filtration) : Clock → Option Instant
  | .sourceAvailableAt => filtration.sourceAvailableAt
  | .agentReceivedAt => filtration.agentReceivedAt
  | .persistedAt => filtration.persistedAt

inductive VerifierStatus where
  | verified | rejected | superseded | reviewRequired
  deriving DecidableEq

structure HashInput extends Filtration where
  certificateType : String
  schemaVersion : ℤ
  (canonicalizationVersion semanticKey claimType mode : String)
  decisionTime : Instant
  parentEdges : List ParentEdge
  (authorityId authorityVersion algorithmId algorithmVersion : String)
  (configHash modelVersionHash : Option String)
  payloadHash : String
  deriving DecidableEq

structure CertificateHeader extends HashInput where
  certificateId : String
  maxParent : Filtration
  certificateHash : String
  verifierStatus : VerifierStatus
  deriving DecidableEq

inductive TimeValue where
  | missing
  | instant (time : Instant)
  | text (text : String)
  deriving DecidableEq

structure ParentTimes where
  sourceAvailableAt : TimeValue := .missing
  agentReceivedAt : TimeValue := .missing
  persistedAt : TimeValue := .missing
  deriving DecidableEq

/-- A payload; `rest` stands for the members nothing here reads. -/
structure Payload where
  /-- `generated_at_decision_time` is True. -/
  generatedAtDecisionTime : Bool := false
  /-- `_parent_times` where it is a dict. -/
  parentTimes : Option ParentTimes := none
  rest : String := ""
  deriving DecidableEq

structure DecisionCertificate where
  header : CertificateHeader
  payload : Payload
  deriving DecidableEq

structure Externals where
  payloadJson : Payload → String
  hashInputJson : HashInput → String
  sha256 : String → String
  /-- `datetime.fromisoformat`; `none` where it raises. -/
  fromIsoformat : String → Option Instant

namespace Externals

variable (ext : Externals)

/-- `stable_hash` of a payload. -/
def stableHash (payload : Payload) : String := ext.sha256 (ext.payloadJson payload)

def certificateHashFor (header : CertificateHeader) : String :=
  ext.sha256 (ext.hashInputJson header.toHashInput)

/-- Different canonical texts have different hashes. -/
def CollisionFree : Prop := Function.Injective ext.sha256

end Externals

inductive BuildError where
  | invalidIsoformat (text : String)
  deriving DecidableEq

def utcOrNone (ext : Externals) : TimeValue → Except BuildError (Option Instant)
  | .missing => .ok none
  | .instant time => .ok (some time)
  | .text text =>
    if text = "" then .ok none
    else (ext.fromIsoformat text).elim (.error (.invalidIsoformat text)) fun time => .ok (some time)

def maxDt (values : List (Option Instant)) : Option Instant := (values.filterMap id).max?

def maxOf (certificates : List DecisionCertificate) : Filtration where
  sourceAvailableAt := maxDt (certificates.map fun parent => parent.header.sourceAvailableAt)
  agentReceivedAt := maxDt (certificates.map fun parent => parent.header.agentReceivedAt)
  persistedAt := maxDt (certificates.map fun parent => parent.header.persistedAt)

def maxParentTimes (ext : Externals) (parentCertificates : List DecisionCertificate)
    (payload : Payload) : Except BuildError Filtration :=
  if parentCertificates ≠ [] then .ok (maxOf parentCertificates)
  else
    match payload.parentTimes with
    | none => .ok {}
    | some times => do
        let sourceAvailableAt ← utcOrNone ext times.sourceAvailableAt
        let agentReceivedAt ← utcOrNone ext times.agentReceivedAt
        let persistedAt ← utcOrNone ext times.persistedAt
        .ok { sourceAvailableAt, agentReceivedAt, persistedAt }

structure BuildArgs where
  (certificateType semanticKey claimType : String)
  mode : String := "LIVE"
  decisionTime : Instant
  payload : Payload
  (authorityId authorityVersion algorithmId algorithmVersion : String)
  parentEdges : List ParentEdge := []
  parentCertificates : List DecisionCertificate := []
  sourceAvailableAt : TimeValue := .missing
  agentReceivedAt : TimeValue := .missing
  persistedAt : TimeValue := .missing
  configHash : Option String := none
  modelVersionHash : Option String := none
  schemaVersion : ℤ := 1
  verifierStatus : VerifierStatus := .verified

def canonicalizationVersion : String := "decision-kernel-json-v1"

def buildCertificate (ext : Externals) (args : BuildArgs) :
    Except BuildError DecisionCertificate := do
  let maxParent ← maxParentTimes ext args.parentCertificates args.payload
  let sourceAvailableAt ← utcOrNone ext args.sourceAvailableAt
  let agentReceivedAt ← utcOrNone ext args.agentReceivedAt
  let persistedAt ← utcOrNone ext args.persistedAt
  let withoutHash : CertificateHeader := {
    certificateType := args.certificateType
    schemaVersion := args.schemaVersion
    canonicalizationVersion := canonicalizationVersion
    semanticKey := args.semanticKey
    claimType := args.claimType
    mode := args.mode
    decisionTime := args.decisionTime
    sourceAvailableAt, agentReceivedAt, persistedAt
    parentEdges := args.parentEdges
    authorityId := args.authorityId
    authorityVersion := args.authorityVersion
    algorithmId := args.algorithmId
    algorithmVersion := args.algorithmVersion
    configHash := args.configHash
    modelVersionHash := args.modelVersionHash
    payloadHash := ext.stableHash args.payload
    certificateId := ""
    maxParent
    certificateHash := ""
    verifierStatus := args.verifierStatus }
  let certificateHash := ext.certificateHashFor withoutHash
  .ok {
    header := { withoutHash with
      certificateId := args.certificateType ++ ":" ++ String.ofList (certificateHash.toList.take 24)
      certificateHash }
    payload := args.payload }

inductive FiltrationField where
  | own (clock : Clock)
  | maxParent (clock : Clock)
  deriving DecidableEq

inductive VerificationError where
  | invalidMode (mode : String)
  | decisionTimeMismatch
  | duplicateRequiredParentRole (role : String)
  | missingParent (role : String)
  | parentTypeMismatch (role : String)
  | certificateHashMismatch
  | afterDecisionTime (field : FiltrationField)
  | missingFiltrationTimestamp | generatedAtDecisionTimeNotAllowed
  deriving DecidableEq

def allowedModes : List String := ["LIVE"]

/-- `parent_by_hash.get`: the last parent with the hash. -/
def parentByHash (parents : List DecisionCertificate) (certificateHash : String) :
    Option DecisionCertificate :=
  Log.latest (fun parent => parent.header.certificateHash == certificateHash) parents

/-- `_verify_parent_edges`, after the roles in `seen`. -/
def parentEdgesRefusal (parents : List DecisionCertificate) (seen : List String) :
    List ParentEdge → Option VerificationError
  | [] => none
  | edge :: edges => first [
      require (¬ (edge.role ∈ seen ∧ edge.required = true))
        (.duplicateRequiredParentRole edge.role),
      match parentByHash parents edge.certificateHash with
      | none => some (.missingParent edge.role)
      | some parent =>
        require (parent.header.certificateType = edge.certificateType)
          (.parentTypeMismatch edge.role),
      parentEdgesRefusal parents (edge.role :: seen) edges]

def notAfter (decisionTime : Instant) (field : FiltrationField) (value : Option Instant) :
    Option VerificationError :=
  require (∀ time, value = some time → time ≤ decisionTime) (.afterDecisionTime field)

/-- `_verify_time_filtration`. -/
def timeFiltrationRefusal (header : CertificateHeader) : Option VerificationError :=
  first [
    notAfter header.decisionTime (.own .sourceAvailableAt) header.sourceAvailableAt,
    notAfter header.decisionTime (.own .agentReceivedAt) header.agentReceivedAt,
    notAfter header.decisionTime (.own .persistedAt) header.persistedAt,
    notAfter header.decisionTime (.maxParent .sourceAvailableAt) header.maxParent.sourceAvailableAt,
    notAfter header.decisionTime (.maxParent .agentReceivedAt) header.maxParent.agentReceivedAt,
    notAfter header.decisionTime (.maxParent .persistedAt) header.maxParent.persistedAt,
    require (header.sourceAvailableAt.isSome ∧
      header.agentReceivedAt.isSome ∧
      header.persistedAt.isSome) .missingFiltrationTimestamp]

def preSubmitDecision : String := "PreSubmitDecisionCertificate"

/-- `_verify_generated_certificate_semantics`. -/
def generatedSemanticsRefusal (certificateType : String) (payload : Payload) :
    Option VerificationError :=
  require (payload.generatedAtDecisionTime = true → certificateType = preSubmitDecision)
    .generatedAtDecisionTimeNotAllowed

def verifyCertificate (ext : Externals) (cert : DecisionCertificate)
    (parents : List DecisionCertificate) (decisionTime : Option Instant) :
    Except VerificationError Unit :=
  guardBy (first [
    require (cert.header.mode ∈ allowedModes) (.invalidMode cert.header.mode),
    require (cert.header.decisionTime = decisionTime.getD cert.header.decisionTime)
      .decisionTimeMismatch,
    parentEdgesRefusal parents [] cert.header.parentEdges,
    require (ext.certificateHashFor cert.header = cert.header.certificateHash)
      .certificateHashMismatch,
    timeFiltrationRefusal cert.header,
    generatedSemanticsRefusal cert.header.certificateType cert.payload])

end Zeus.DecisionKernel
