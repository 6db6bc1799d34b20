import Zeus.Venue.FillCashProof
import Zeus.Lib.FirstMatch
import Zeus.Lib.Binary64

/-! Both scans, of the neg-risk adapter's logs and of the conditional token contract's, stop at one
log and judge by it alone. -/

namespace Zeus.Redeem

open PyText (lower)
open FillCashProof (Text isHexDigit hexValue hexOf)

inductive HexField where
  | bytes (value : List UInt8)
  | text (value : Text)
  deriving DecidableEq

def toHexStr : HexField → Text
  | .bytes value =>
    '0' :: 'x' :: value.flatMap fun byte => (Nat.toDigits 16 byte.toNat).leftpad 2 '0'
  | .text value => lower value

def readHex : Option HexField → Text
  | none | some (.bytes []) => []
  | some field => toHexStr field

structure Log where
  address : Option HexField
  topics : List HexField
  data : Option HexField
  deriving DecidableEq

/-- The values of `status` that are told apart. -/
inductive ReceiptStatus where
  | success | failed | unknown
  deriving DecidableEq

structure Receipt where
  status : ReceiptStatus
  blockNumber : Option ℤ
  logs : List Log
  deriving DecidableEq

/-- `POLYGON_CTF_ADDRESS`, in lower case. -/
def ctfAddress : Text := hexOf 20 0x4D97DCd97eC945f40cF65F87097ACe5EA0476045

/-- `POLYGON_NEGRISK_ADAPTER_ADDRESS`, in lower case. -/
def negRiskAdapterAddress : Text := hexOf 20 0xd91E80cF2E7be2e162c6513ceD06f1dD0dA35296

def payoutRedemptionTopic : Text :=
  hexOf 32 0x2682012a4a4f1973119f1c9b90745d1bd91fa2bab387344f044cb3586864d18d

def negRiskRedemptionTopic : Text :=
  hexOf 32 0x9140a6a270ef945260c03894b3c6b3b2695e9d5101feef0ff24fec960cfd3224

namespace Log

def emitter (log : Log) : Text := readHex log.address

def signature (log : Log) : Option Text := log.topics.head?.map toHexStr

def dataHex (log : Log) : Text :=
  match readHex log.data with
  | '0' :: 'x' :: body => body
  | body => body

def isAdapterRedemption (log : Log) : Bool :=
  log.emitter = negRiskAdapterAddress ∧ log.signature = some negRiskRedemptionTopic

def isStandardRedemption (log : Log) : Bool :=
  log.emitter = ctfAddress ∧ log.signature = some payoutRedemptionTopic

end Log

/-- `int(word, 16)` of hexadecimal digits, as in the data of a log. A sign, a prefix, underscores
and blanks, which Python takes too, are refused here. -/
def intBase16 (word : Text) : Option ℕ :=
  if word ≠ [] ∧ word.all isHexDigit then some (hexValue word) else none

/-- `routed_to_neg_risk_adapter`: the adapter emitted a log. -/
def routedToNegRiskAdapter (logs : List Log) : Bool :=
  logs.any fun log => log.emitter = negRiskAdapterAddress

/-- `adapter_addrs` of a receipt without a log of the adapter. -/
def payoutRedemptionEmitters (logs : List Log) : List Text :=
  ((logs.filter fun log => log.signature = some payoutRedemptionTopic ∧ log.emitter ≠ []).map
      Log.emitter).dedup

inductive ErrorCode where
  | negRiskMisrouted
  | negRiskReviewRequired | negRiskWrongCondition | negRiskZeroPayout | negRiskAmountMismatch
  | standardReviewRequired | standardWrongCondition | standardZeroPayout | standardAmountMissing
  | standardAmountMismatch
  deriving DecidableEq

/-- The value of `errorCode`. -/
def ErrorCode.text : ErrorCode → String
  | .negRiskMisrouted => "REDEEM_NEGRISK_MISROUTED"
  | .negRiskReviewRequired => "REDEEM_NEGRISK_REVIEW_REQUIRED"
  | .negRiskWrongCondition => "REDEEM_NEGRISK_WRONG_CONDITION"
  | .negRiskZeroPayout => "REDEEM_NEGRISK_ZERO_PAYOUT"
  | .negRiskAmountMismatch => "REDEEM_NEGRISK_AMOUNT_MISMATCH"
  | .standardReviewRequired => "REDEEM_STANDARD_CTF_REVIEW_REQUIRED"
  | .standardWrongCondition => "REDEEM_STANDARD_CTF_WRONG_CONDITION"
  | .standardZeroPayout => "REDEEM_STANDARD_CTF_ZERO_PAYOUT"
  | .standardAmountMissing => "REDEEM_STANDARD_CTF_AMOUNT_MISSING"
  | .standardAmountMismatch => "REDEEM_STANDARD_CTF_AMOUNT_MISMATCH"

structure Proof where
  errorCode : Option ErrorCode
  payout : Option ℕ
  deriving DecidableEq

/-- `max(1, int(amount * 0.001))`, the product of floats. -/
def amountTolerance (amount : ℤ) : ℤ :=
  max 1 ⌊Binary64.mul (Binary64.round amount) (Binary64.round (1 / 1000))⌋

def withinTolerance (amount : ℤ) (payout : ℕ) : Prop :=
  |(payout : ℤ) - amount| ≤ amountTolerance amount

instance (amount : ℤ) (payout : ℕ) : Decidable (withinTolerance amount payout) :=
  inferInstanceAs (Decidable (_ ≤ _))

/-- `quantize(Decimal("1"), rounding=ROUND_HALF_UP)`: ties go away from zero, and a result that the
context cannot hold is refused. -/
def quantizeUnit (x : ℚ) : Option ℤ :=
  let rounded : ℤ := if 0 ≤ x then ⌊x + 1 / 2⌋ else -⌊-x + 1 / 2⌋
  if |rounded| < 10 ^ DecimalContext.prec then some rounded else none

/-- `_reconcile_amount_per_slot`: the amount of a token map with one entry, in millionths; none
where the map or the entry cannot be read. -/
def reconcileAmountPerSlot (tokenAmounts : Option (List (String × Option ℚ))) : Option ℤ :=
  match tokenAmounts with
  | some [(_, some amount)] => quantizeUnit (DecimalContext.mul amount 1000000)
  | _ => none

def adapterPayout (log : Log) : Option ℕ :=
  if log.dataHex.length < 128 then none else intBase16 ((log.dataHex.drop 64).take 64)

def adapterPayoutError (amountPerSlot : Option ℤ) (payout : ℕ) : Option ErrorCode :=
  if payout = 0 then some .negRiskZeroPayout
  else
    match amountPerSlot with
    | none => none
    | some amount =>
      if 0 < amount ∧ ¬ withinTolerance amount payout then some .negRiskAmountMismatch else none

def checkAdapterRedemption (conditionId : Text) (amountPerSlot : Option ℤ) (log : Log) : Proof :=
  match log.topics with
  | _ :: _ :: condition :: _ =>
    if toHexStr condition ≠ conditionId then ⟨some .negRiskWrongCondition, none⟩
    else
      match adapterPayout log with
      | none => ⟨some .negRiskReviewRequired, none⟩
      | some payout => ⟨adapterPayoutError amountPerSlot payout, some payout⟩
  | _ => ⟨some .negRiskReviewRequired, none⟩

def negRiskProof (conditionId : Text) (amountPerSlot : Option ℤ) : List Log → Proof
  | [] => ⟨some .negRiskReviewRequired, none⟩
  | log :: logs =>
    if log.isAdapterRedemption then checkAdapterRedemption conditionId amountPerSlot log
    else negRiskProof conditionId amountPerSlot logs

def dataWords (data : Text) : List Text :=
  (List.range (data.length / 64)).map fun i => (data.drop (64 * i)).take 64

def namesCondition (conditionId : Text) (log : Log) : Bool :=
  conditionId ∈ log.topics.tail.map toHexStr ∨ (match dataWords log.dataHex with
      | first :: _ => '0' :: 'x' :: lower first
      | [] => []) = conditionId

def standardPayoutError (pusdAmountMicro : Option ℤ) (payout : ℕ) : Option ErrorCode :=
  if payout = 0 then some .standardZeroPayout
  else
    match pusdAmountMicro with
    | none => some .standardAmountMissing
    | some expected =>
      if expected ≤ 0 then some .standardAmountMissing
      else if ¬ withinTolerance expected payout then some .standardAmountMismatch
      else none

def checkStandardRedemption (pusdAmountMicro : Option ℤ) (log : Log) : Proof :=
  match dataWords log.dataHex with
  | _ :: _ :: word :: _ =>
    match intBase16 word with
    | none => ⟨some .standardReviewRequired, none⟩
    | some payout => ⟨standardPayoutError pusdAmountMicro payout, some payout⟩
  | _ => ⟨some .standardReviewRequired, none⟩

/-- The standard loop: it stops at the first redemption that names the condition; `topicSeen` says
that it passed one of another condition. -/
def standardProof (conditionId : Text) (pusdAmountMicro : Option ℤ) : Bool → List Log → Proof
  | topicSeen, [] =>
    ⟨some (if topicSeen then .standardWrongCondition else .standardReviewRequired), none⟩
  | topicSeen, log :: logs =>
    if log.isStandardRedemption then
      if namesCondition conditionId log then checkStandardRedemption pusdAmountMicro log
      else standardProof conditionId pusdAmountMicro true logs
    else standardProof conditionId pusdAmountMicro topicSeen logs

section
variable {conditionId : Text} {amountPerSlot pusdAmountMicro : Option ℤ}

theorem negRiskProof_eq (logs : List Log) : negRiskProof conditionId amountPerSlot logs =
      (logs.find? Log.isAdapterRedemption).elim ⟨some .negRiskReviewRequired, none⟩
      (checkAdapterRedemption conditionId amountPerSlot) := by
  induction logs with
  | nil => rfl
  | cons log logs ih =>
    by_cases stop : log.isAdapterRedemption = true
    · rw [List.find?_cons_of_pos stop]
      exact if_pos stop
    · rw [List.find?_cons_of_neg stop, ← ih]
      exact if_neg stop

def Log.decidesStandard (conditionId : Text) (log : Log) : Bool :=
  log.isStandardRedemption && namesCondition conditionId log

theorem standardProof_eq (topicSeen : Bool) (logs : List Log) :
    match logs.find? (Log.decidesStandard conditionId) with
    | none => (standardProof conditionId pusdAmountMicro topicSeen logs).errorCode.isSome
    | some log =>
      standardProof conditionId pusdAmountMicro topicSeen logs =
        checkStandardRedemption pusdAmountMicro log := by
  induction logs generalizing topicSeen with
  | nil => rfl
  | cons first logs ih =>
    unfold standardProof
    by_cases stop : first.decidesStandard conditionId = true
    · obtain ⟨rdm, names⟩ := Bool.and_eq_true_iff.mp stop
      rw [List.find?_cons_of_pos stop, if_pos rdm, if_pos names]
    · rw [List.find?_cons_of_neg stop]
      by_cases rdm : first.isStandardRedemption = true
      · have other : ¬ namesCondition conditionId first = true := by
          simpa [Log.decidesStandard, rdm] using stop
        rw [if_pos rdm, if_neg other]
        exact ih true
      · rw [if_neg rdm]
        exact ih topicSeen
end

def Log.carries (conditionId : Text) (log : Log) : Bool :=
  (log.topics[2]?).map toHexStr = some conditionId

structure Log.Pays (amountPerSlot : Option ℤ) (log : Log) (payout : ℕ) : Prop where
  decoded : adapterPayout log = some payout
  positive : 0 < payout
  near : ∀ amount, amountPerSlot = some amount → 0 < amount → withinTolerance amount payout

theorem adapterPayoutError_eq_none_iff {amountPerSlot : Option ℤ} {payout : ℕ} :
    adapterPayoutError amountPerSlot payout = none ↔
      0 < payout ∧ ∀ amt, amountPerSlot = some amt → 0 < amt → withinTolerance amt payout := by
  unfold adapterPayoutError
  rcases Nat.eq_zero_or_pos payout with rfl | pos
  · simp
  · rw [if_neg pos.ne']
    cases amountPerSlot with
    | none => simp [pos]
    | some amt => simp [pos]

theorem checkAdapterRedemption_stands_iff {conditionId : Text} {amountPerSlot : Option ℤ}
    {log : Log} :
    (checkAdapterRedemption conditionId amountPerSlot log).errorCode = none ↔
      log.carries conditionId = true ∧ ∃ payout, log.Pays amountPerSlot payout := by
  rcases topics : log.topics with _ | ⟨first, _ | ⟨snd, _ | ⟨cond, rest⟩⟩⟩
  iterate 3 simp [checkAdapterRedemption, Log.carries, topics]
  have carried : log.carries conditionId = true ↔ toHexStr cond = conditionId := by
    simp [Log.carries, topics]
  rw [carried]
  simp only [checkAdapterRedemption, topics]
  by_cases own : toHexStr cond = conditionId
  · rw [if_neg (not_not.mpr own)]
    cases decoded : adapterPayout log with
    | none =>
      constructor
      · intro stands
        cases stands
      · rintro ⟨-, payout, pays⟩
        cases decoded.symm.trans pays.decoded
    | some payout =>
      rw [adapterPayoutError_eq_none_iff]
      constructor
      · rintro ⟨pos, near⟩
        exact ⟨own, payout, decoded, pos, near⟩
      · rintro ⟨-, other, pays⟩
        cases decoded.symm.trans pays.decoded
        exact ⟨pays.positive, pays.near⟩
  · rw [if_pos own]
    simp [own]

end Zeus.Redeem
