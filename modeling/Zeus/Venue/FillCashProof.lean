import Mathlib
import Zeus.Lib.PyText

/-! `decode_fill_cash_proof` reads one receipt as evidence of the cash that the fills of a wallet
moved; a proof stands only without reasons against it. Texts are lists of characters; a mapping or a
list is given by its fields, with the JSON of the fields that are not read beside them. -/

namespace Zeus.FillCashProof

open PyText (lower)

abbrev Text := List Char

instance lawfulBEqText : LawfulBEq Text := inferInstance

@[simp] theorem lower_lower (text : Text) : lower (lower text) = lower text := by
  simp [lower]

inductive Scalar where
  | null
  | bool (value : Bool)
  | int (value : ℤ)
  | text (value : Text)
  | other (json : Text)
  deriving DecidableEq

def Scalar.str : Scalar → Text
  | .null => ['N', 'o', 'n', 'e']
  | .bool true => ['T', 'r', 'u', 'e']
  | .bool false => ['F', 'a', 'l', 's', 'e']
  | .int value =>
    if 0 ≤ value then Nat.toDigits 10 value.toNat else '-' :: Nat.toDigits 10 (-value).toNat
  | .text value => value
  | .other json => json

/-- A part of a document that has the shape it is read with, or has not. -/
inductive Shape (α : Type) where
  | shaped (value : α)
  | other (json : Text)
  deriving DecidableEq

def isHexDigit (c : Char) : Bool :=
  ('0' ≤ c ∧ c ≤ '9') ∨ ('a' ≤ c ∧ c ≤ 'f') ∨ ('A' ≤ c ∧ c ≤ 'F')

def hexDigit (c : Char) : ℕ :=
  if c ≤ '9' then c.toNat - '0'.toNat else c.toLower.toNat - 'a'.toNat + 10

def hexValue (body : Text) : ℕ := body.foldl (fun value c => 16 * value + hexDigit c) 0

def hexOf (width value : ℕ) : Text := '0' :: 'x' :: (Nat.toDigits 16 value).leftpad (width * 2) '0'

def hex (width : ℕ) : Scalar → Option Text
  | .text ('0' :: 'x' :: body) =>
    if body.length = width * 2 ∧ body.all isHexDigit then some ('0' :: 'x' :: lower body) else none
  | _ => none

def word : Scalar → Option Text := hex 32

def address : Scalar → Option Text := hex 20

/-- `_address_word`: an address padded to a word. -/
def addressWord (value : Scalar) : Option Text := do
  let word ← word value
  if (word.drop 2).take 24 = List.replicate 24 '0' then some ('0' :: 'x' :: word.drop 26) else none

def quantity : Scalar → Option ℕ
  | .int value => if 0 ≤ value then some value.toNat else none
  | .text ('0' :: 'x' :: body) =>
    if body = [] ∨ ¬ body.all isHexDigit then none
    else if 1 < body.length ∧ body.head? = some '0' then none
    else some (hexValue body)
  | _ => none

def uintWord (value : Scalar) : Option ℕ := (word value).map fun word => hexValue (word.drop 2)

def dataWords (count : ℕ) (data : Scalar) : Option (List Text) :=
  (hex (count * 32) data).map fun raw =>
    (List.range count).map fun i => '0' :: 'x' :: (((raw.drop 2).drop (64 * i)).take 64)

structure Log where
  (logIndex removed transactionHash blockHash blockNumber address : Scalar)
  topics : Shape (List Scalar)
  data : Scalar
  others : Text := []
  deriving DecidableEq

structure Receipt where
  (transactionHash blockHash blockNumber status : Scalar)
  logs : Shape (List (Shape Log))
  others : Text := []
  deriving DecidableEq

structure Header where
  (hash number : Scalar)
  others : Text := []
  deriving DecidableEq

structure CollateralEntry where
  (address decimals : Scalar)
  others : Text := []
  deriving DecidableEq

abbrev CollateralByExchange := Shape (List (Text × Shape CollateralEntry))

structure Evidence where
  (chainId txHash wallet : Scalar)
  receipt : Shape Receipt
  (header finalizedHeader : Shape Header)
  collateralByExchange : CollateralByExchange
  headerAfter : Shape Header
  deriving DecidableEq

inductive Side where
  | buy | sell
  deriving DecidableEq

structure Event where
  logIndex : ℕ
  (exchange orderHash maker tokenId : Text)
  side : Side
  (sharesAtoms principalAtoms feeAtoms : ℕ)
  deriving DecidableEq

inductive Reason where
  | wrongChain | txHashInvalid | walletInvalid | receiptInvalid | receiptTxIdentityMismatch
  | receiptBlockIdentityInvalid | receiptStatusNot1 | receiptBlockIdentityMissing
  | canonicalHeaderMismatch
  | canonicalHeaderAfterMismatch | finalizedHeaderInvalid | receiptNotFinalized
  | finalizedHeaderHashMismatchSameHeight | receiptLogsInvalid | logInvalid | logIdentityInvalid
  | duplicateLogIndex | logTopicsInvalid | collateralMappingInvalid | orderfilledAbiInvalid
  | orderfilledAddressPaddingInvalid | orderfilledSideInvalid | orderfilledUintInvalid
  | orderfilledTokenIdInvalid
  | orderfilledZeroShares | orderfilledZeroPrincipal | negativeSellNet
  | walletOrderfilledForeignExchange
  | historicalCollateralMissing | unsupportedCollateralDecimals | feechargedAbiInvalid
  | transferAbiInvalid
  | feechargedMissing | feeConservationMismatch | feeReceiverTransferMismatch
  | walletEventsMultipleExchange
  | walletEventsMultipleCollateral | walletOrderfilledMissing | walletCashConservationMismatch
  deriving DecidableEq

def Reason.text : Reason → String
  | .wrongChain => "wrong_chain"
  | .txHashInvalid => "tx_hash_invalid"
  | .walletInvalid => "wallet_invalid"
  | .receiptInvalid => "receipt_invalid"
  | .receiptTxIdentityMismatch => "receipt_tx_identity_mismatch"
  | .receiptBlockIdentityInvalid => "receipt_block_identity_invalid"
  | .receiptStatusNot1 => "receipt_status_not_1"
  | .receiptBlockIdentityMissing => "receipt_block_identity_missing"
  | .canonicalHeaderMismatch => "canonical_header_mismatch"
  | .canonicalHeaderAfterMismatch => "canonical_header_after_mismatch"
  | .finalizedHeaderInvalid => "finalized_header_invalid"
  | .receiptNotFinalized => "receipt_not_finalized"
  | .finalizedHeaderHashMismatchSameHeight => "finalized_header_hash_mismatch_same_height"
  | .receiptLogsInvalid => "receipt_logs_invalid"
  | .logInvalid => "log_invalid"
  | .logIdentityInvalid => "log_identity_invalid"
  | .duplicateLogIndex => "duplicate_log_index"
  | .logTopicsInvalid => "log_topics_invalid"
  | .collateralMappingInvalid => "collateral_mapping_invalid"
  | .orderfilledAbiInvalid => "orderfilled_abi_invalid"
  | .orderfilledAddressPaddingInvalid => "orderfilled_address_padding_invalid"
  | .orderfilledSideInvalid => "orderfilled_side_invalid"
  | .orderfilledUintInvalid => "orderfilled_uint_invalid"
  | .orderfilledTokenIdInvalid => "orderfilled_token_id_invalid"
  | .orderfilledZeroShares => "orderfilled_zero_shares"
  | .orderfilledZeroPrincipal => "orderfilled_zero_principal"
  | .negativeSellNet => "negative_sell_net"
  | .walletOrderfilledForeignExchange => "wallet_orderfilled_foreign_exchange"
  | .historicalCollateralMissing => "historical_collateral_missing"
  | .unsupportedCollateralDecimals => "unsupported_collateral_decimals"
  | .feechargedAbiInvalid => "feecharged_abi_invalid"
  | .transferAbiInvalid => "transfer_abi_invalid"
  | .feechargedMissing => "feecharged_missing"
  | .feeConservationMismatch => "fee_conservation_mismatch"
  | .feeReceiverTransferMismatch => "fee_receiver_transfer_mismatch"
  | .walletEventsMultipleExchange => "wallet_events_multiple_exchange"
  | .walletEventsMultipleCollateral => "wallet_events_multiple_collateral"
  | .walletOrderfilledMissing => "wallet_orderfilled_missing"
  | .walletCashConservationMismatch => "wallet_cash_conservation_mismatch"

inductive Status where
  | proven | unknown
  deriving DecidableEq

def Status.text : Status → Text
  | .proven => ['P', 'R', 'O', 'V', 'E', 'N']
  | .unknown => ['U', 'N', 'K', 'N', 'O', 'W', 'N']

structure Decoded where
  status : Status
  reasons : List Reason
  events : List Event
  collateralDeltaAtoms : Option ℤ
  collateral : Option Text
  decimals : Option ℕ
  deriving DecidableEq

def Decoded.reason (decoded : Decoded) : Text :=
  match decoded.reasons with
  | [] => ['o', 'k']
  | reasons => List.intercalate [';'] (reasons.map fun reason => reason.text.toList)

/-- `_unknown`: each reason once, in the order it came up. -/
def unknown (reasons : List Reason) (events : List Event) : Decoded where
  status := .unknown
  reasons := reasons.eraseDups
  events
  collateralDeltaAtoms := none
  collateral := none
  decimals := none

def exchanges : List Text :=
  [hexOf 20 0xE111180000d2663C0091e4f400237545B87B996B,
    hexOf 20 0xe2222d279d744050d28e00520010520000310F59]

def orderFilledSignature : Text :=
  hexOf 32 0xd543adfd945773f1a62f74f0ee55a5e3b9b1a28262980ba90b1a89f2ea84d8ee

def feeChargedSignature : Text :=
  hexOf 32 0x55bb3cade9d43b798a4fe5ffdd05024b2d7870df53920673bfc7e68047cd0ab1

def transferSignature : Text :=
  hexOf 32 0xddf252ad1be2c89b69c2b068fc378daa952ba7f163c4a11628f55a4df523b3ef

structure Block where
  (tx hash : Text)
  number : ℕ

/-- `_event_base`: the index and the emitter of a log that belongs to the receipt. -/
def eventBase (log : Log) (block : Block) : Option (ℕ × Text) := do
  let index ← quantity log.logIndex
  if log.removed ≠ .bool false then none
  else if hex 32 log.transactionHash ≠ some block.tx ∨ hex 32 log.blockHash ≠ some block.hash ∨
      quantity log.blockNumber ≠ some block.number then none
  else
    let emitter ← FillCashProof.address log.address
    match log.topics with
    | .shaped topics =>
      if topics = [] ∨ topics.any (fun topic => (word topic).isNone) then none
      else some (index, emitter)
    | .other _ => none

def topicSignature : Shape (List Scalar) → Option Text
  | .shaped (topic :: _) => word topic
  | _ => none

structure LogRow where
  index : ℕ
  emitter : Text
  topics : List Scalar
  data : Scalar
  signature : Text

/-- The rows of the logs, and what is wrong with the others; `seen` are the indexes so far. -/
def readLogs (block : Block) : List ℕ → List (Shape Log) → List LogRow × List Reason
  | _, [] => ([], [])
  | seen, .other _ :: logs =>
    let rest := readLogs block seen logs
    (rest.1, .logInvalid :: rest.2)
  | seen, .shaped log :: logs =>
    match eventBase log block with
    | none =>
      let rest := readLogs block seen logs
      (rest.1, .logIdentityInvalid :: rest.2)
    | some (index, emitter) =>
      let rest := readLogs block (index :: seen) logs
      let replayed := if index ∈ seen then [Reason.duplicateLogIndex] else []
      match log.topics, topicSignature log.topics with
      | .shaped topics, some signature =>
        (⟨index, emitter, topics, log.data, signature⟩ :: rest.1, replayed ++ rest.2)
      | _, _ => (rest.1, replayed ++ .logTopicsInvalid :: rest.2)

structure OrderFilled where
  (exchange orderHash maker : Text)
  side : Side
  (tokenId makerAmount takerAmount fee : ℕ)

structure FeeCharged where
  (exchange receiver : Text)
  amount : ℕ

structure Transfer where
  (collateral sender receiver : Text)
  amount : ℕ

def OrderFilled.shares (order : OrderFilled) : ℕ :=
  match order.side with
  | .buy => order.takerAmount
  | .sell => order.makerAmount

def OrderFilled.principal (order : OrderFilled) : ℕ :=
  match order.side with
  | .buy => order.makerAmount
  | .sell => order.takerAmount

/-- The exchange as `collateral_by_exchange` has it: a key that comes again keeps its place. -/
def assign (entries : List (Text × Text × ℤ)) (key : Text) (value : Text × ℤ) :
    List (Text × Text × ℤ) :=
  if entries.any (fun entry => entry.1 = key) then
    entries.map fun entry => if entry.1 = key then (key, value) else entry
  else entries ++ [(key, value)]

def normalized : CollateralByExchange → List (Text × Text × ℤ)
  | .other _ => []
  | .shaped entries =>
    entries.foldl (fun known entry => match FillCashProof.address (.text entry.1), entry.2 with
      | some exchange, .shaped value =>
        match FillCashProof.address value.address, value.decimals with
        | some collateral, .int decimals => assign known exchange (collateral, decimals)
        | _, _ => known
      | _, _ => known) []

def collateralOf (known : List (Text × Text × ℤ)) (exchange : Text) : Option (Text × ℤ) :=
  (known.find? fun entry => entry.1 = exchange).map Prod.snd

structure Reading where
  orders : List OrderFilled := []
  fees : List FeeCharged := []
  transfers : List Transfer := []
  events : List Event := []
  reasons : List Reason := []

def when (condition : Prop) [Decidable condition] (reason : Reason) : List Reason :=
  if condition then [reason] else []

def orderFilled (row : LogRow) : Except Reason OrderFilled :=
  match row.topics, dataWords 7 row.data with
  | [_, orderTopic, makerTopic, takerTopic], some (sideWord :: words) =>
    match word orderTopic, addressWord makerTopic, addressWord takerTopic with
    | some orderHash, some maker, some _ =>
      match uintWord (.text sideWord), (words.take 4).map fun word => uintWord (.text word) with
      | some sideValue, amounts =>
        if (sideWord.drop 2).take 62 ≠ List.replicate 62 '0' ∨ 1 < sideValue then
          .error .orderfilledSideInvalid
        else
          match amounts with
          | [some tokenId, some makerAmount, some takerAmount, some fee] => .ok {
              exchange := row.emitter, orderHash, maker,
              side := if sideValue = 0 then .buy else .sell
              tokenId, makerAmount, takerAmount, fee }
          | _ => .error .orderfilledUintInvalid
      | none, _ => .error .orderfilledSideInvalid
    | _, _, _ => .error .orderfilledAddressPaddingInvalid
  | _, _ => .error .orderfilledAbiInvalid

def OrderFilled.event (index : ℕ) (order : OrderFilled) : Event where
  logIndex := index
  exchange := order.exchange
  orderHash := order.orderHash
  maker := order.maker
  tokenId := Nat.toDigits 10 order.tokenId
  side := order.side
  sharesAtoms := order.shares
  principalAtoms := order.principal
  feeAtoms := order.fee

def readOrder (wallet : Option Text) (known : List (Text × Text × ℤ)) (row : LogRow) : Reading :=
  match orderFilled row with
  | .error reason => { reasons := [reason] }
  | .ok order =>
    let amiss := when (order.tokenId = 0) .orderfilledTokenIdInvalid ++
      when (order.shares = 0) .orderfilledZeroShares ++
        when (order.principal = 0) .orderfilledZeroPrincipal ++
      when (order.side = .sell ∧ order.takerAmount < order.fee) .negativeSellNet
    if row.emitter ∉ exchanges then
      { reasons := amiss ++ when (wallet = some order.maker) .walletOrderfilledForeignExchange }
    else if wallet ≠ some order.maker then { orders := [order], reasons := amiss }
    else
      { orders := [order]
        events := [order.event row.index]
        reasons := amiss ++ match collateralOf known row.emitter with
          | none => [.historicalCollateralMissing]
          | some (_, decimals) => when (decimals ≠ 6) .unsupportedCollateralDecimals }

def readFee (row : LogRow) : Reading :=
  if row.emitter ∉ exchanges then {}
  else
    match row.topics, dataWords 1 row.data with
    | [_, receiverTopic], some [amountWord] =>
      match addressWord receiverTopic, uintWord (.text amountWord) with
      | some receiver, some amount => { fees := [⟨row.emitter, receiver, amount⟩] }
      | _, _ => { reasons := [.feechargedAbiInvalid] }
    | _, _ => { reasons := [.feechargedAbiInvalid] }

def transferOf (row : LogRow) : Option Transfer :=
  match row.topics with
  | [_, senderTopic, receiverTopic] => do
      let words ← dataWords 1 row.data
      let amountWord ← words.head?
      let sender ← addressWord senderTopic
      let receiver ← addressWord receiverTopic
      let amount ← uintWord (.text amountWord)
      some ⟨row.emitter, sender, receiver, amount⟩
  | _ => none

def readTransfer (wallet : Option Text) (known : List (Text × Text × ℤ)) (row : LogRow) : Reading :=
  let isCollateral := known.any fun entry => entry.2.1 = row.emitter
  if row.topics.length ≠ 3 then
    { reasons := when (row.topics.tail.any (fun topic => addressWord topic = wallet) ∨ isCollateral)
        .transferAbiInvalid }
  else
    match transferOf row with
    | none => { reasons := [.transferAbiInvalid] }
    | some transfer => { transfers := if isCollateral then [transfer] else [] }

def readRow (wallet : Option Text) (known : List (Text × Text × ℤ)) (row : LogRow) : Reading :=
  if row.signature = orderFilledSignature then readOrder wallet known row
  else if row.signature = feeChargedSignature then readFee row
  else if row.signature = transferSignature then readTransfer wallet known row
  else {}

def cashDelta (side : Side) (principal fee : ℤ) : ℤ :=
  match side with
  | .buy => -(principal + fee)
  | .sell => principal - fee

def Event.delta (event : Event) : ℤ := cashDelta event.side event.principalAtoms event.feeAtoms

def Transfer.delta (wallet : Text) (transfer : Transfer) : ℤ :=
  (if transfer.receiver = wallet then (transfer.amount : ℤ) else 0) -
    if transfer.sender = wallet then (transfer.amount : ℤ) else 0

def exchangeReasons (known : List (Text × Text × ℤ)) (orders : List OrderFilled)
    (fees : List FeeCharged) (transfers : List Transfer) (exchange : Text) : List Reason :=
  match collateralOf known exchange with
  | none => [.historicalCollateralMissing]
  | some (collateral, decimals) =>
    let orderFees :=
      ((orders.filter fun order => order.exchange = exchange).map OrderFilled.fee).sum
    let charged := fees.filter fun fee => fee.exchange = exchange
    let receivers := (charged.map FeeCharged.receiver).dedup
    when (decimals ≠ 6) .unsupportedCollateralDecimals ++
      (if charged = [] then when (orderFees ≠ 0) .feechargedMissing
      else when ((charged.map FeeCharged.amount).sum ≠ orderFees) .feeConservationMismatch) ++
      receivers.flatMap fun receiver =>
        let expected :=
          ((charged.filter fun fee => fee.receiver = receiver).map FeeCharged.amount).sum
        let incoming := ((transfers.filter fun transfer =>
          transfer.collateral = collateral ∧ transfer.receiver = receiver).map Transfer.amount).sum
        when (incoming ≠ expected) .feeReceiverTransferMismatch

def headerIdentity : Shape Header → Option Text × Option ℕ
  | .shaped header => (hex 32 header.hash, quantity header.number)
  | .other _ => (none, none)

def headerReasons (evidence : Evidence) (hash : Option Text) (number : Option ℕ) : List Reason :=
  let finalized := headerIdentity evidence.finalizedHeader
  (match hash, number with
    | some hash, some number =>
      when (headerIdentity evidence.header ≠ (some hash, some number)) .canonicalHeaderMismatch ++
        when (headerIdentity evidence.headerAfter ≠ (some hash, some number))
          .canonicalHeaderAfterMismatch ++
        match finalized with
        | (some finalHash, some finalNumber) =>
          if finalNumber < number then [.receiptNotFinalized]
          else when (finalNumber = number ∧ finalHash ≠ hash) .finalizedHeaderHashMismatchSameHeight
        | _ => [.finalizedHeaderInvalid]
    | _, _ => [.receiptBlockIdentityMissing]) ++
  when (finalized.1 = none ∨ finalized.2 = none) .finalizedHeaderInvalid

def identityReasons (evidence : Evidence) : List Reason :=
  when (evidence.chainId ≠ .int 137) .wrongChain ++
    when (hex 32 evidence.txHash = none) .txHashInvalid ++
    when (address evidence.wallet = none) .walletInvalid

def receiptReasons (evidence : Evidence) (receipt : Receipt) : List Reason :=
  let hash := hex 32 receipt.blockHash
  let number := quantity receipt.blockNumber
  when (hex 32 evidence.txHash = none ∨ hex 32 receipt.transactionHash ≠ hex 32 evidence.txHash)
      .receiptTxIdentityMismatch ++
    when (hash = none ∨ number = none) .receiptBlockIdentityInvalid ++
    when (receipt.status ≠ .int 1 ∧ receipt.status ≠ .text ['0', 'x', '1']) .receiptStatusNot1 ++
    headerReasons evidence hash number

def receiptRows (evidence : Evidence) (receipt : Receipt) (logs : List (Shape Log)) :
    List LogRow × List Reason :=
  match hex 32 evidence.txHash, hex 32 receipt.blockHash, quantity receipt.blockNumber with
  | some tx, some hash, some number => readLogs ⟨tx, hash, number⟩ [] logs
  | _, _, _ => ([], [])

def eventCollaterals (known : List (Text × Text × ℤ)) (events : List Event) : List Text :=
  (events.filterMap fun event => (collateralOf known event.exchange).map Prod.fst).dedup

def cashReasons (known : List (Text × Text × ℤ)) (events : List Event) (transferDelta : ℤ) :
    List Reason :=
  when (1 < (events.map Event.exchange).dedup.length) .walletEventsMultipleExchange ++
    when (1 < (eventCollaterals known events).length) .walletEventsMultipleCollateral ++
    when (events = []) .walletOrderfilledMissing ++
    when (transferDelta ≠ (events.map Event.delta).sum) .walletCashConservationMismatch

def cashCollateral (known : List (Text × Text × ℤ)) (events : List Event) : Option Text :=
  match eventCollaterals known events with
  | [collateral] => some collateral
  | _ => none

def transferDelta (wallet : Option Text) (collateral : Option Text) (transfers : List Transfer) :
    ℤ :=
  match wallet with
  | none => 0
  | some wallet =>
    ((transfers.filter fun transfer => some transfer.collateral = collateral).map
        (Transfer.delta wallet)).sum

def decodeFillCashProof (evidence : Evidence) : Decoded :=
  match evidence.receipt with
  | .other _ => unknown (identityReasons evidence ++ [.receiptInvalid]) []
  | .shaped receipt =>
    let before := identityReasons evidence ++ receiptReasons evidence receipt
    match receipt.logs with
    | .other _ => unknown (before ++ [.receiptLogsInvalid]) []
    | .shaped logs =>
      let wallet := address evidence.wallet
      let known := normalized evidence.collateralByExchange
      let mapping := match evidence.collateralByExchange with
        | .shaped _ => []
        | .other _ => [Reason.collateralMappingInvalid]
      let rows := receiptRows evidence receipt logs
      let readings := rows.1.map (readRow wallet known)
      let orders := readings.flatMap Reading.orders
      let fees := readings.flatMap Reading.fees
      let transfers := readings.flatMap Reading.transfers
      let events := readings.flatMap Reading.events
      let relevant := (orders.map OrderFilled.exchange ++ fees.map FeeCharged.exchange).dedup
      let collateral := cashCollateral known events
      let delta := transferDelta wallet collateral transfers
      let reasons := before ++ rows.2 ++ mapping ++ readings.flatMap Reading.reasons ++
        relevant.flatMap (exchangeReasons known orders fees transfers) ++
          cashReasons known events delta
      if reasons = [] then
        { status := .proven, reasons := [], events, collateralDeltaAtoms := some delta, collateral
          decimals := collateral.map fun _ => 6 }
      else unknown reasons events

def logTransfer : Shape Log → Option Transfer
  | .shaped log =>
    match address log.address, log.topics, topicSignature log.topics with
    | some emitter, .shaped topics, some signature =>
      if signature = transferSignature then transferOf ⟨0, emitter, topics, log.data, signature⟩
      else none
    | _, _, _ => none
  | .other _ => none

def transfersOf : Shape Receipt → List Transfer
  | .shaped receipt =>
    match receipt.logs with
    | .shaped logs => logs.filterMap logTransfer
    | .other _ => []
  | .other _ => []

def netTransfer (wallet collateral : Text) (receipt : Shape Receipt) : ℤ :=
  (((transfersOf receipt).filter fun transfer => transfer.collateral = collateral).map
      (Transfer.delta wallet)).sum

theorem when_eq_nil {condition : Prop} [Decidable condition] {why : Reason} :
    when condition why = [] ↔ ¬ condition := by
  unfold when
  split <;> simp [*]

theorem hex_eq_some {width : ℕ} {v : Scalar} {text : Text} (read : hex width v = some text) :
    text = lower v.str := by
  unfold hex at read
  split at read
  · split_ifs at read
    cases read
    rfl
  · cases read

inductive RowOf : Shape Log → LogRow → Prop where
  | mk {log : Log} {row : LogRow} (emitter : address log.address = some row.emitter)
      (topics : log.topics = .shaped row.topics) (data : log.data = row.data)
      (signature : topicSignature log.topics = some row.signature) : RowOf (.shaped log) row

theorem eventBase_emitter {log : Log} {block : Block} {index : ℕ} {emitter : Text}
    (base : eventBase log block = some (index, emitter)) : address log.address = some emitter := by
  unfold eventBase at base
  obtain ⟨_, -, base⟩ := Option.bind_eq_some_iff.mp base
  split_ifs at base
  obtain ⟨given, hf, base⟩ := Option.bind_eq_some_iff.mp base
  cases topics : log.topics with
  | other json => simp [topics] at base
  | shaped topics' =>
    simp only [topics] at base
    split_ifs at base
    cases base
    exact hf

variable {logs : List (Shape Log)} {collateral : Text} {known : List (Text × Text × ℤ)}

theorem readLogs_forall₂ {block : Block} {seen : List ℕ}
    (clean : (readLogs block seen logs).2 = []) :
    List.Forall₂ RowOf logs (readLogs block seen logs).1 := by
  induction logs generalizing seen with
  | nil => exact .nil
  | cons shape logs ih =>
    cases shape with
    | other json => simp [readLogs] at clean
    | shaped log =>
      rw [readLogs] at clean ⊢
      cases base : eventBase log block with
      | none => simp [base] at clean
      | some pair =>
        obtain ⟨index, emitter⟩ := pair
        cases topics : log.topics with
        | other json => simp [base, topics] at clean
        | shaped given =>
          cases signature : topicSignature log.topics with
          | none => simp [base, topics, topics ▸ signature] at clean
          | some hf =>
            simp only [base, topics, topics ▸ signature, List.append_eq_nil_iff] at clean ⊢
            exact .cons (.mk (eventBase_emitter base) topics rfl signature) (ih clean.2)

theorem transferOf_collateral {row : LogRow} {trf : Transfer} (read : transferOf row = some trf) :
    trf.collateral = row.emitter := by
  unfold transferOf at read
  split at read
  · simp only [Option.bind_eq_bind, Option.bind_eq_some_iff, Option.some.injEq] at read
    obtain ⟨_, -, _, -, _, -, _, -, _, -, rfl⟩ := read
    rfl
  · cases read

theorem RowOf.logTransfer_eq {log : Shape Log} {row : LogRow} (read : RowOf log row) :
    logTransfer log = if row.signature = transferSignature then transferOf row else none := by
  obtain ⟨emitter, topics, data, signature⟩ := read
  simp only [logTransfer, emitter, topics, data, topics ▸ signature]
  rfl

theorem readOrder_transfers (wallet : Option Text) (known : List (Text × Text × ℤ)) (row : LogRow) :
    (readOrder wallet known row).transfers = [] := by
  unfold readOrder
  split
  · rfl
  · dsimp only
    split_ifs <;> rfl

theorem readFee_transfers (row : LogRow) : (readFee row).transfers = [] := by
  unfold readFee
  split
  · rfl
  · split
    · split <;> rfl
    · rfl

theorem readTransfer_transfers {wallet : Option Text} {row : LogRow}
    (clean : (readTransfer wallet known row).reasons = [])
    (isKnown : known.any fun entry => entry.2.1 = collateral) :
    (readTransfer wallet known row).transfers.filter (fun trf => trf.collateral = collateral) =
      (transferOf row).toList.filter fun trf => trf.collateral = collateral := by
  unfold readTransfer at clean ⊢
  dsimp only at clean ⊢
  by_cases indexed : row.topics.length = 3
  · rw [if_neg (not_not_intro indexed)] at clean ⊢
    cases read : transferOf row with
    | none => simp [read] at clean
    | some trf =>
      by_cases isColl : known.any fun entry => entry.2.1 = row.emitter
      · simp [isColl]
      · have hne : trf.collateral ≠ collateral := by
          rintro rfl
          exact isColl (transferOf_collateral read ▸ isKnown)
        simp [isColl, hne]
  · -- a Transfer with other topics is no Transfer of the ABI
    have h0 : transferOf row = none := by
      unfold transferOf
      split
      · rename_i topics
        exact absurd (congrArg List.length topics) indexed
      · rfl
    rw [if_pos indexed, h0]
    rfl

theorem readRow_transfers {wallet : Option Text} {row : LogRow}
    (clean : (readRow wallet known row).reasons = [])
    (isKnown : known.any fun entry => entry.2.1 = collateral) :
    (readRow wallet known row).transfers.filter (fun trf => trf.collateral = collateral) =
      (if row.signature = transferSignature then transferOf row else none).toList.filter fun trf =>
        trf.collateral = collateral := by
  unfold readRow at clean ⊢
  by_cases order : row.signature = orderFilledSignature
  · rw [if_pos order, readOrder_transfers, if_neg (order ▸ by decide +kernel)]
    rfl
  rw [if_neg order] at clean ⊢
  by_cases fee : row.signature = feeChargedSignature
  · rw [if_pos fee, readFee_transfers, if_neg (fee ▸ by decide +kernel)]
    rfl
  rw [if_neg fee] at clean ⊢
  by_cases trf : row.signature = transferSignature
  · rw [if_pos trf] at clean ⊢
    rw [if_pos trf]
    exact readTransfer_transfers clean isKnown
  · rw [if_neg trf, if_neg trf]
    rfl

theorem readRow_transfers_flatMap {wallet : Option Text}
    (isKnown : known.any fun entry => entry.2.1 = collateral) {rows : List LogRow}
    (read : List.Forall₂ RowOf logs rows)
    (clean : ∀ row ∈ rows, (readRow wallet known row).reasons = []) :
    ((rows.map (readRow wallet known)).flatMap Reading.transfers).filter
      (fun trf => trf.collateral = collateral) =
      (logs.filterMap logTransfer).filter fun trf => trf.collateral = collateral := by
  induction read with
  | nil => rfl
  | @cons log row logs rows first rest ih =>
    rw [List.map_cons, List.flatMap_cons, List.filter_append,
      ih fun row mem => clean row (.tail _ mem),
      readRow_transfers (clean row List.mem_cons_self) isKnown, ← first.logTransfer_eq,
      List.filterMap_cons]
    cases logTransfer log with
    | none => rfl
    | some trf => exact (List.filter_append [trf] _).symm

theorem receiptRows_forall₂ {evid : Evidence} {rcpt : Receipt}
    (idn : receiptReasons evid rcpt = []) (clean : (receiptRows evid rcpt logs).2 = []) :
    List.Forall₂ RowOf logs (receiptRows evid rcpt logs).1 := by
  simp only [receiptReasons, List.append_eq_nil_iff, when_eq_nil, not_or] at idn
  obtain ⟨⟨⟨⟨hasTx, -⟩, hasHash, hasNumber⟩, -⟩, -⟩ := idn
  obtain ⟨tx, hasTx⟩ := Option.ne_none_iff_exists'.mp hasTx
  obtain ⟨hash, hasHash⟩ := Option.ne_none_iff_exists'.mp hasHash
  obtain ⟨number, hasNumber⟩ := Option.ne_none_iff_exists'.mp hasNumber
  simp only [receiptRows, hasTx, hasHash, hasNumber] at clean ⊢
  exact readLogs_forall₂ clean

theorem any_of_cashCollateral {evs : List Event} (hf : cashCollateral known evs = some collateral) :
    known.any fun entry => entry.2.1 = collateral := by
  have mem : collateral ∈ eventCollaterals known evs := by
    unfold cashCollateral at hf
    split at hf
    · rename_i only
      cases hf
      rw [only]
      exact List.mem_cons_self
    · cases hf
  obtain ⟨event, -, known'⟩ := List.mem_filterMap.mp (List.mem_dedup.mp mem)
  obtain ⟨entry, isEntry, rfl⟩ := Option.map_eq_some_iff.mp known'
  obtain ⟨row, isRow, rfl⟩ := Option.map_eq_some_iff.mp isEntry
  exact List.any_eq_true.mpr ⟨row, List.mem_of_find?_eq_some isRow, by simp⟩

/-- A proof that stands gives what the transfers of its collateral in the receipt add to the
wallet. -/
theorem decode_collateralDelta {evid : Evidence}
    (proven : (decodeFillCashProof evid).status = .proven)
    (hf : (decodeFillCashProof evid).collateral = some collateral) :
    (decodeFillCashProof evid).collateralDeltaAtoms =
      some (netTransfer (lower evid.wallet.str) collateral evid.receipt) := by
  unfold decodeFillCashProof at proven hf ⊢
  cases shape : evid.receipt with
  | other json => simp [shape, unknown] at proven
  | shaped rcpt =>
    cases logged : rcpt.logs with
    | other json => simp [shape, logged, unknown] at proven
    | shaped logs =>
      simp only [shape, logged] at proven hf ⊢
      split_ifs at proven hf ⊢ with clean
      · simp only [List.append_eq_nil_iff, List.flatMap_eq_nil_iff, List.mem_map,
          forall_exists_index, and_imp,
          forall_apply_eq_imp_iff₂, identityReasons, when_eq_nil] at clean
        obtain ⟨⟨⟨⟨⟨⟨⟨-, hasWallet⟩, idn⟩, rows⟩, -⟩, readings⟩, -⟩, -⟩ := clean
        obtain ⟨wallet, isWallet⟩ := Option.ne_none_iff_exists'.mp hasWallet
        have kept := readRow_transfers_flatMap (any_of_cashCollateral hf)
          (receiptRows_forall₂ idn rows) readings
        dsimp only at hf ⊢
        rw [hf]
        simp only [isWallet, transferDelta, netTransfer, transfersOf, logged, Option.some.injEq,
          ← hex_eq_some isWallet]
        rw [isWallet] at kept
        rw [kept]
      · simp [unknown] at proven

end Zeus.FillCashProof
