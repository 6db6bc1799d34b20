import Zeus.Lib.CheckedFold
import Zeus.Lib.Decimal
import Zeus.Lib.Refusal
import Zeus.Venue.FillCashProof

/-! `read_command_fill_cash` joins the local fills of a command to the proofs stored for their
transactions before a cutoff. Instants are microseconds; a stamp that does not parse has none. The
hashes are functions of what is hashed. -/

namespace Zeus.FillCashReader

open Zeus.FillCashProof
open PyText (lower strip)
open Refusal

def text (value : Option Text) : Option Text := (value.map strip).filter fun text => text ≠ []

/-- The parsed `proof_json` of a row; `decoded` is shaped when it has the fields of the decoder's
answer. -/
structure Proof where
  (chainId rpcChainId txHash wallet : Scalar)
  receipt : Shape Receipt
  (header finalizedHeader : Shape Header)
  collateralByExchange : CollateralByExchange
  headerAfter : Shape Header
  decoded : Shape Decoded
  hasObservedAt : Bool := false
  others : Text := []
  deriving DecidableEq

def Proof.evidence (proof : Proof) : Evidence where
  chainId := proof.chainId
  txHash := proof.txHash
  wallet := proof.wallet
  receipt := proof.receipt
  header := proof.header
  finalizedHeader := proof.finalizedHeader
  collateralByExchange := proof.collateralByExchange
  headerAfter := proof.headerAfter

structure Stamp where
  text : Text
  utc : Option ℤ
  deriving DecidableEq

/-- A row of `venue_fill_cash_facts`. -/
structure Fact where
  id : ℕ
  chainId : ℤ := 137
  (wallet txHash : Text)
  observedAt : Stamp
  proofJson : Option Proof
  (proofHash status reason : Text)
  deriving DecidableEq

/-- A row of `venue_submission_envelopes`. -/
structure Envelope where
  envelopeId : Text
  capturedAt : Option ℤ
  (canonicalPreSignPayloadHash rawRequestHash : Option Text)
  chainId : ℤ := 137
  funderAddress : Option Text
  (selectedOutcomeTokenId side : Text)
  signedOrderBlob : Option Text := none
  signedOrderHash : Option Text := none
  orderId : Option Text := none
  deriving DecidableEq

/-- A row of `venue_commands`. -/
structure CommandRow where
  commandId : Text
  venueOrderId : Option Text

structure Db where
  facts : Option (List Fact)
  envelopes : Option (List Envelope)
  commands : Option (List CommandRow)

structure Hashes where
  sha256 : Text → Text
  proof : Proof → Text

structure Command where
  (commandId venueOrderId tokenId envelopeId : Option Text)
  orderSide : Option Text := none
  side : Option Text := none

structure Fill where
  (venueOrderId txHash : Option Text)
  filledSize : Option ℚ

inductive UnknownReason where
  | chainCashTableMissing | commandIdentityMissing | commandSideInvalid | envelopeTableMissing
  | commandTableMissing
  | preSignEnvelopeUnbound | commandOrderIdCollision | preSignEnvelopePitUnbound
  | preSignHashesUnbound
  | preSignIdentityMismatch | signedEnvelopeInvalid | signedEnvelopeHashMismatch
  | signedEnvelopeIdentityMismatch
  | signedEnvelopeMissing | signedEnvelopeConflict | localFillChildrenMissing
  | localFillIdentityMismatch
  | localFillTxMissing | localFillAtomsInvalid | chainCashProofUnavailable | chainCashConflict
  | chainCashEventsMissing | chainCashEventDuplicate | chainCashEventIdentityMismatch
  | chainCashCollateralDeltaInvalid | chainCashCollateralConservationMismatch
  | chainCashTargetEventMissing
  | chainCashShareConservationMismatch | chainCashDecimalsUnsupported | chainCashCollateralMissing
  | chainCashCollateralConflict
  deriving DecidableEq

def Side.ofText (text : Text) : Option Side :=
  if text = ['B', 'U', 'Y'] then some .buy
  else if text = ['S', 'E', 'L', 'L'] then some .sell else none

/-- `order_side or side`. -/
def Command.sideText (command : Command) : Option Text :=
  (command.orderSide.filter fun side => side ≠ []).or command.side

def Command.sideOf (command : Command) : Option Side := command.sideText.bind Side.ofText

/-- One row found by `order_id`: not signed or too late, wrong, or the signed order. -/
def signedEnvelope (hashes : Hashes) (cutoff : ℤ) (pre row : Envelope) :
    Except UnknownReason (Option Envelope) :=
  let blob := row.signedOrderBlob.getD []
  let signedHash := text row.signedOrderHash
  if ¬ (row.capturedAt.any fun captured => captured < cutoff) then .ok none
  else if blob = [] ∧ signedHash = none then .ok none
  else if blob = [] ∨ signedHash = none then .error .signedEnvelopeInvalid
  else if some (hashes.sha256 blob) ≠ signedHash.map lower then .error .signedEnvelopeHashMismatch
  else if row.chainId ≠ 137 ∨ row.funderAddress ≠ pre.funderAddress ∨
      row.selectedOutcomeTokenId ≠ pre.selectedOutcomeTokenId ∨ row.side ≠ pre.side ∨
      row.canonicalPreSignPayloadHash ≠ pre.canonicalPreSignPayloadHash ∨
      row.rawRequestHash ≠ pre.rawRequestHash then
    .error .signedEnvelopeIdentityMismatch
  else .ok (some row)

/-- The one envelope that the command names. -/
def preSignEnvelope (envelopes : List Envelope) (command : Command) :
    Except UnknownReason Envelope :=
  match envelopes.filter fun row => some row.envelopeId = command.envelopeId with
  | [pre] => .ok pre
  | _ => .error .preSignEnvelopeUnbound

/-- `_envelope_identity`: the envelope that was signed for the command. -/
def envelopeIdentity (hashes : Hashes) (db : Db) (command : Command) (cutoff : ℤ) :
    Except UnknownReason Envelope := do
  guardBy (require (∀ field ∈
        [command.commandId, command.venueOrderId, command.tokenId, command.envelopeId],
    (text field).isSome) .commandIdentityMissing)
  let _ ← command.sideOf.elim (.error .commandSideInvalid) .ok
  let envelopes ← db.envelopes.elim (.error .envelopeTableMissing) .ok
  let commands ← db.commands.elim (.error .commandTableMissing) .ok
  let pre ← preSignEnvelope envelopes command
  guardBy (require ((commands.filter fun row => row.venueOrderId = command.venueOrderId).map
    (fun row => some row.commandId) = [command.commandId]) .commandOrderIdCollision)
  guardBy (require (pre.capturedAt.any fun captured => captured < cutoff)
      .preSignEnvelopePitUnbound)
  guardBy (require ((text pre.canonicalPreSignPayloadHash).isSome ∧
      (text pre.rawRequestHash).isSome)
    .preSignHashesUnbound)
  guardBy (require (pre.chainId = 137 ∧
      pre.funderAddress.isSome ∧
      some pre.selectedOutcomeTokenId = command.tokenId ∧
    some pre.side = command.sideText) .preSignIdentityMismatch)
  let valid ← ((envelopes.filter fun row => row.orderId = command.venueOrderId).mapM
    (signedEnvelope hashes cutoff pre)).map List.reduceOption
  guardBy (require (valid ≠ []) .signedEnvelopeMissing)
  guardBy (require ((valid.map fun row => row.signedOrderHash.map lower).dedup.length = 1)
      .signedEnvelopeConflict)
  return pre

structure Candidate where
  row : Fact
  proof : Proof
  decoded : Decoded
  observed : ℤ

def proofRowValid (hashes : Hashes) (wallet tx : Text) (cutoff : ℤ) (row : Fact) :
    Option Candidate := do
  let observed ← row.observedAt.utc
  if cutoff ≤ observed then none
  else
    let proof ← row.proofJson
    let recomputed := decodeFillCashProof proof.evidence
    if proof.hasObservedAt ∨ hashes.proof proof ≠ lower row.proofHash then none
    else if proof.chainId ≠ .int row.chainId ∨ proof.rpcChainId ≠ .int 137 then none
    else if lower proof.txHash.str ≠ tx ∨ lower proof.wallet.str ≠ wallet then none
    else if proof.decoded ≠ .shaped recomputed then none
    else if recomputed.status.text ≠ row.status ∨ recomputed.reason ≠ row.reason then none
    else if recomputed.status ≠ .proven then none
    else some ⟨row, proof, recomputed, observed⟩

structure Identity where
  header : Shape Header
  receipt : Shape Receipt
  collateralByExchange : CollateralByExchange
  decoded : Decoded
  deriving DecidableEq

def Candidate.identity (candidate : Candidate) : Identity where
  header := candidate.proof.header
  receipt := candidate.proof.receipt
  collateralByExchange := candidate.proof.collateralByExchange
  decoded := candidate.decoded

def earliest : List Candidate → Option Candidate
  | [] => none
  | candidate :: candidates => some (candidates.foldl (fun best next =>
    if next.observed < best.observed ∨
        next.observed = best.observed ∧ next.row.id < best.row.id then
      next
    else best) candidate)

/-- The order of a query by `observed_at` and `id`. -/
def Fact.before (first second : Fact) : Prop :=
  first.observedAt.text < second.observedAt.text ∨
    first.observedAt.text = second.observedAt.text ∧ first.id ≤ second.id

instance : DecidableRel Fact.before := fun _ _ => inferInstanceAs (Decidable (_ ∨ _))

structure Economics where
  (sharesAtoms principalAtoms feeAtoms : ℕ)
  collateralDeltaAtoms : ℤ

structure Target where
  (orderId tokenId : Text)
  side : Side
  wallet : Text

/-- The loop of `_event_economics`: no log twice, and the events of the order are the command's. -/
def checkEvents (target : Target) : List ℕ → List Event → Except UnknownReason Unit
  | _, [] => .ok ()
  | seen, event :: events => do
      guardBy (require (event.logIndex ∉ seen) .chainCashEventDuplicate)
      guardBy (require (event.orderHash = target.orderId →
        event.tokenId = target.tokenId ∧
        event.side = target.side ∧
        lower event.maker = target.wallet) .chainCashEventIdentityMismatch)
      checkEvents target (event.logIndex :: seen) events

def ofOrder (orderId : Text) (events : List Event) : List Event :=
  events.filter fun event => event.orderHash = orderId

def eventEconomics (decoded : Decoded) (target : Target) : Except UnknownReason Economics := do
  guardBy (require (decoded.events ≠ []) .chainCashEventsMissing)
  checkEvents target [] decoded.events
  let delta ← decoded.collateralDeltaAtoms.elim (.error .chainCashCollateralDeltaInvalid) .ok
  guardBy (require (delta = (decoded.events.map Event.delta).sum)
      .chainCashCollateralConservationMismatch)
  let own := ofOrder target.orderId decoded.events
  guardBy (require (own ≠ []) .chainCashTargetEventMissing)
  let principal := (own.map Event.principalAtoms).sum
  let fee := (own.map Event.feeAtoms).sum
  return {
    sharesAtoms := (own.map Event.sharesAtoms).sum, principalAtoms := principal, feeAtoms := fee
    collateralDeltaAtoms := cashDelta target.side principal fee }

def atoms (size : Option ℚ) : Option ℕ :=
  size.bind fun size => let scaled := DecimalContext.mul size 1000000
    if 0 < size ∧ scaled.den = 1 then some scaled.num.toNat else none

def fillPart (command : Command) (fill : Fill) : Except UnknownReason (Text × ℕ) := do
  guardBy (require (fill.venueOrderId = command.venueOrderId) .localFillIdentityMismatch)
  let tx ← (text fill.txHash).elim (.error .localFillTxMissing) .ok
  let shares ← (atoms fill.filledSize).elim (.error .localFillAtomsInvalid) .ok
  return (lower tx, shares)

def keys (parts : List Text) : List Text := parts.reverse.dedup.reverse

def childAtoms (parts : List (Text × ℕ)) (tx : Text) : ℕ :=
  ((parts.filter fun part => part.1 = tx).map Prod.snd).sum

def checkedFacts (hashes : Hashes) (facts : List Fact) (wallet : Text) (cutoff : ℤ)
    (txs : List Text) : List (Text × Candidate) :=
  ((facts.filter fun row => row.chainId = 137 ∧
        row.wallet = wallet ∧
        row.txHash ∈ txs).insertionSort
    Fact.before).filterMap fun row => if lower row.txHash ∈ txs then
        (proofRowValid hashes wallet (lower row.txHash) cutoff row).map fun candidate =>
          (lower row.txHash, candidate)
      else none

structure Tally where
  sharesAtoms : ℕ := 0
  principalAtoms : ℕ := 0
  feeAtoms : ℕ := 0
  collateralDeltaAtoms : ℤ := 0
  collateral : Option Text := none
  proofHashes : List Text := []
  availableAt : Option ℤ := none
  deriving DecidableEq

def tallyTx (target : Target) (parts : List (Text × ℕ)) (checked : List (Text × Candidate))
    (tally : Tally) (tx : Text) : Except UnknownReason Tally := do
  let candidates := (checked.filter fun entry => entry.1 = tx).map Prod.snd
  guardBy (require ((candidates.map Candidate.identity).dedup.length = 1) .chainCashConflict)
  let chosen ← (earliest candidates).elim (.error .chainCashConflict) .ok
  let economics ← eventEconomics chosen.decoded target
  guardBy (require (economics.sharesAtoms = childAtoms parts tx)
      .chainCashShareConservationMismatch)
  guardBy (require (chosen.decoded.decimals = some 6) .chainCashDecimalsUnsupported)
  let collateral ← (text chosen.decoded.collateral).elim (.error .chainCashCollateralMissing) .ok
  guardBy (require (∀ known ∈ tally.collateral, known = collateral) .chainCashCollateralConflict)
  return {
    sharesAtoms := tally.sharesAtoms + economics.sharesAtoms
    principalAtoms := tally.principalAtoms + economics.principalAtoms
    feeAtoms := tally.feeAtoms + economics.feeAtoms
    collateralDeltaAtoms := tally.collateralDeltaAtoms + economics.collateralDeltaAtoms
    collateral := some collateral
    proofHashes := tally.proofHashes ++ [chosen.row.proofHash]
    availableAt :=
      some (tally.availableAt.elim chosen.observed fun known => max known chosen.observed) }

/-- The UNKNOWN answer, with the hashes of the proofs that held. -/
structure Unknown where
  reason : UnknownReason
  proofHashes : List Text := []
  deriving DecidableEq

/-- `read_command_fill_cash`; the tally of a PROVEN answer. -/
def readCommandFillCash (hashes : Hashes) (db : Db) (command : Command) (fills : List Fill)
    (cutoff : ℤ) : Except Unknown Tally := do
  let facts ← db.facts.elim (.error ⟨.chainCashTableMissing, []⟩) .ok
  let pre ← (envelopeIdentity hashes db command cutoff).mapError fun reason => ⟨reason, []⟩
  let wallet := lower (pre.funderAddress.getD [])
  guardBy (require (fills ≠ []) ⟨.localFillChildrenMissing, []⟩)
  let parts ← (fills.mapM (fillPart command)).mapError fun reason => ⟨reason, []⟩
  let txs := keys (parts.map Prod.fst)
  let checked := checkedFacts hashes facts wallet cutoff txs
  let held := checked.map fun entry => entry.2.row.proofHash
  guardBy (require (∀ tx ∈ txs, tx ∈ checked.map Prod.fst) ⟨.chainCashProofUnavailable, held⟩)
  let side ← command.sideOf.elim (.error ⟨.commandSideInvalid, []⟩) .ok
  let target : Target := ⟨command.venueOrderId.getD [], command.tokenId.getD [], side, wallet⟩
  ((keys (checked.map Prod.fst)).foldlM (tallyTx target parts checked) {}).mapError fun reason =>
    ⟨reason, held⟩

end Zeus.FillCashReader
