import Mathlib.Data.Char
import Zeus.Lib.Attribution
import Zeus.State.FillCashReader

/-! Each transaction of a wallet has one proof, whoever asks, so commands with orders of their own
share the events of a receipt without overlap. -/

namespace Zeus.FillCashReader

open CheckedFold Zeus.FillCashProof
open PyText (lower)
open Refusal

instance : IsTrans Fact Fact.before where
  trans first second third before after := by
    obtain before | ⟨same, before⟩ := before <;> obtain after | ⟨same', after⟩ := after
    · exact .inl (before.trans after)
    · exact .inl (same' ▸ before)
    · exact .inl (same ▸ after)
    · exact .inr ⟨same.trans same', before.trans after⟩

instance : Std.Total Fact.before where
  total first second := by
    obtain before | same | after := lt_trichotomy first.observedAt.text second.observedAt.text
    · exact .inl (.inl before)
    · obtain before | after := le_total first.id second.id
      · exact .inl (.inr ⟨same, before⟩)
      · exact .inr (.inr ⟨same.symm, after⟩)
    · exact .inr (.inl after)

section
variable (hashes : Hashes) (db : Db) (wallet : Text) (cutoff : ℤ)

def finalized (facts : List Fact) (tx : Text) : List Candidate :=
  ((facts.filter fun row => row.chainId = 137 ∧ row.wallet = wallet ∧ row.txHash = tx).insertionSort
    Fact.before).filterMap (proofRowValid hashes wallet tx cutoff)

def proofAt (tx : Text) : Option Candidate :=
  earliest (finalized hashes wallet cutoff (db.facts.getD []) tx)

def walletEvents (tx : Text) : List Event :=
  (proofAt hashes db wallet cutoff tx).elim [] fun proof => proof.decoded.events

/-- What the transfers of the collateral in the receipt of a transaction add to the wallet. -/
def netCollateral (tx : Text) : ℤ :=
  (proofAt hashes db wallet cutoff tx).elim 0 fun proof =>
    netTransfer wallet (proof.decoded.collateral.getD []) proof.proof.receipt
end

def walletOf (db : Db) (command : Command) : Option Text :=
  (preSignEnvelope (db.envelopes.getD []) command).toOption.bind fun pre =>
    pre.funderAddress.map lower

def Command.orderId (command : Command) : Text := command.venueOrderId.getD []

def Fill.tx (fill : Fill) : Option Text := (text fill.txHash).map lower

def fillTxs (fills : List Fill) : Finset Text := (fills.filterMap Fill.tx).toFinset

def localAtoms (fills : List Fill) (tx : Text) : ℕ :=
  ((fills.filter fun fill => fill.tx = some tx).map fun fill => (atoms fill.filledSize).getD 0).sum

section
variable {hashes : Hashes} {tx wallet : Text} {cutoff : ℤ} {parts : List (Text × ℕ)}
  {command : Command}
  {fills : List Fill}

theorem proofRowValid_eq_some {row : Fact} {cand : Candidate}
    (valid : proofRowValid hashes wallet tx cutoff row = some cand) :
    cand.decoded = decodeFillCashProof cand.proof.evidence ∧
    cand.decoded.status = .proven ∧
    lower cand.proof.wallet.str = wallet := by
  unfold proofRowValid at valid
  obtain ⟨obs, -, valid⟩ := Option.bind_eq_some_iff.mp valid
  split_ifs at valid
  obtain ⟨proof, -, valid⟩ := Option.bind_eq_some_iff.mp valid
  dsimp only at valid
  split_ifs at valid with _ _ idn _ _ proven
  cases valid
  exact ⟨rfl, not_not.mp proven, not_not.mp (not_or.mp idn).2⟩

theorem earliest_mem {candidates : List Candidate} {chosen : Candidate}
    (hf : earliest candidates = some chosen) : chosen ∈ candidates := by
  cases candidates with
  | nil => cases hf
  | cons cand candidates =>
    cases hf
    refine List.foldlRecOn candidates _ List.mem_cons_self fun best kept next mem => ?_
    split_ifs
    · exact .tail _ mem
    · exact kept

theorem proofAt_net {db : Db} {collateral : Text} {delta : ℤ} {proof : Candidate}
    (hf : proofAt hashes db wallet cutoff tx = some proof)
    (isColl : proof.decoded.collateral = some collateral)
    (isDelta : proof.decoded.collateralDeltaAtoms = some delta) :
    delta = netCollateral hashes db wallet cutoff tx := by
  obtain ⟨row, -, valid⟩ := List.mem_filterMap.mp (earliest_mem hf)
  obtain ⟨decoded, proven, isWallet⟩ := proofRowValid_eq_some valid
  have net := decode_collateralDelta (decoded ▸ proven) (decoded ▸ isColl)
  rw [← decoded, isDelta, Option.some.injEq] at net
  rw [net, netCollateral, hf, Option.elim_some, isColl, Option.getD_some, ← isWallet]
  rfl

theorem checkedFacts_at {facts : List Fact} {txs : List Text}
    (lowered : ∀ tx ∈ txs, lower tx = tx) (mem : tx ∈ txs) :
    ((checkedFacts hashes facts wallet cutoff txs).filter fun entry => entry.1 = tx).map Prod.snd =
      finalized hashes wallet cutoff facts tx := by
  have narrowed : (facts.filter fun row => row.chainId = 137 ∧
        row.wallet = wallet ∧
        row.txHash = tx) =
      (facts.filter fun row => row.chainId = 137 ∧ row.wallet = wallet ∧ row.txHash ∈ txs).filter
        fun row => row.txHash = tx := by
    rw [List.filter_filter]
    refine List.filter_congr fun row _ => ?_
    by_cases same : row.txHash = tx
    · simp [same, mem]
    · simp [same]
  rw [finalized, narrowed, ← Attribution.filter_insertionSort, List.filterMap_filter, checkedFacts,
    List.filter_filterMap, List.map_filterMap]
  refine List.filterMap_congr fun row read => ?_
  have inTxs : row.txHash ∈ txs := by
    have kept := (List.mem_filter.mp ((List.mem_insertionSort _).mp read)).2
    exact (of_decide_eq_true kept).2.2
  rw [lowered _ inTxs, if_pos inTxs]
  by_cases same : row.txHash = tx
  · rw [same]
    cases proofRowValid hashes wallet tx cutoff row <;> simp
  · cases proofRowValid hashes wallet row.txHash cutoff row <;> simp [same]

theorem checkedFacts_fst {facts : List Fact} {txs : List Text}
    (mem : tx ∈ (checkedFacts hashes facts wallet cutoff txs).map Prod.fst) : tx ∈ txs := by
  obtain ⟨entry, checked, rfl⟩ := List.mem_map.mp mem
  obtain ⟨row, -, read⟩ := List.mem_filterMap.mp checked
  split_ifs at read with inTxs
  obtain ⟨cand, -, rfl⟩ := Option.map_eq_some_iff.mp read
  exact inTxs

theorem checkEvents_eq_ok {target : Target} {seen : List ℕ} {evs : List Event} {u : Unit}
    (checked : checkEvents target seen evs = .ok u) :
    (evs.map Event.logIndex).Nodup ∧
    (∀ event ∈ evs, event.logIndex ∉ seen) ∧
    ∀ event ∈ ofOrder target.orderId evs, event.side = target.side := by
  induction evs generalizing seen with
  | nil => exact ⟨List.nodup_nil, by simp, by simp [ofOrder]⟩
  | cons event evs ih =>
    simp only [checkEvents, bind_eq_ok, guardBy_eq_ok, require_eq_none] at checked
    obtain ⟨_, fresh, _, own, checked⟩ := checked
    obtain ⟨nd, unseen, sides⟩ := ih checked
    refine ⟨?_, ?_, ?_⟩
    · rw [List.map_cons, List.nodup_cons]
      refine ⟨fun again => ?_, nd⟩
      obtain ⟨other, mem, same⟩ := List.mem_map.mp again
      exact unseen other mem (same ▸ List.mem_cons_self)
    · intro other mem
      obtain rfl | mem := List.mem_cons.mp mem
      · exact fresh
      · exact fun isSeen => unseen other mem (.tail _ isSeen)
    · intro other mem
      obtain ⟨mem, ofTarget⟩ := List.mem_filter.mp mem
      obtain rfl | mem := List.mem_cons.mp mem
      · exact (own (of_decide_eq_true ofTarget)).2.1
      · exact sides other (List.mem_filter.mpr ⟨mem, ofTarget⟩)

theorem cashDelta_add (side : Side) (prin fee principal' fee' : ℤ) :
    cashDelta side (prin + principal') (fee + fee') =
      cashDelta side prin fee + cashDelta side principal' fee' := by
  cases side <;> simp only [cashDelta] <;> ring

theorem sum_delta {side : Side} {evs : List Event} (sides : ∀ event ∈ evs, event.side = side) :
    (evs.map Event.delta).sum =
      cashDelta side (evs.map Event.principalAtoms).sum (evs.map Event.feeAtoms).sum := by
  induction evs with
  | nil => cases side <;> rfl
  | cons event evs ih =>
    simp only [List.map_cons, List.sum_cons, Nat.cast_add]
    rw [cashDelta_add, ih fun event mem => sides event (.tail _ mem), Event.delta,
      sides event List.mem_cons_self]

structure EconomicsOf (decoded : Decoded) (target : Target) (economics : Economics) : Prop where
  distinct : (decoded.events.map Event.logIndex).Nodup
  conserved : decoded.collateralDeltaAtoms = some (decoded.events.map Event.delta).sum
  shares : economics.sharesAtoms =
    ((ofOrder target.orderId decoded.events).map Event.sharesAtoms).sum
  principal : economics.principalAtoms =
    ((ofOrder target.orderId decoded.events).map Event.principalAtoms).sum
  fee : economics.feeAtoms = ((ofOrder target.orderId decoded.events).map Event.feeAtoms).sum
  delta : economics.collateralDeltaAtoms =
    cashDelta target.side economics.principalAtoms economics.feeAtoms
  events : economics.collateralDeltaAtoms =
    ((ofOrder target.orderId decoded.events).map Event.delta).sum

theorem eventEconomics_eq_ok {decoded : Decoded} {target : Target} {economics : Economics}
    (read : eventEconomics decoded target = .ok economics) :
    EconomicsOf decoded target economics := by
  simp only [eventEconomics, bind_eq_ok, guardBy_eq_ok, require_eq_none, elim_eq_ok] at read
  obtain ⟨_, -, _, checked, delta, isDelta, _, conserved, _, -, answer⟩ := read
  obtain ⟨distinct, -, sides⟩ := checkEvents_eq_ok checked
  cases answer
  exact {
    distinct
    conserved := conserved ▸ isDelta
    shares := rfl
    principal := rfl
    fee := rfl
    delta := rfl
    events := (sum_delta sides).symm }

structure Attributed (hashes : Hashes) (db : Db) (wallet : Text) (cutoff : ℤ) (orderId : Text)
    (side : Side) (localShares : Text → ℕ) (txs : Finset Text) (tally : Tally) : Prop where
  distinct : ∀ tx ∈ txs, ((walletEvents hashes db wallet cutoff tx).map Event.logIndex).Nodup
  conserved : ∀ tx ∈ txs,
    ((walletEvents hashes db wallet cutoff tx).map Event.delta).sum =
      netCollateral hashes db wallet cutoff tx
  matched : ∀ tx ∈ txs,
    ((ofOrder orderId (walletEvents hashes db wallet cutoff tx)).map Event.sharesAtoms).sum =
      localShares tx
  shares : tally.sharesAtoms =
    ∑ tx ∈ txs, ((ofOrder orderId (walletEvents hashes db wallet cutoff tx)).map
        Event.sharesAtoms).sum
  principal : tally.principalAtoms =
    ∑ tx ∈ txs, ((ofOrder orderId (walletEvents hashes db wallet cutoff tx)).map
        Event.principalAtoms).sum
  fee : tally.feeAtoms =
    ∑ tx ∈ txs, ((ofOrder orderId (walletEvents hashes db wallet cutoff tx)).map Event.feeAtoms).sum
  delta : tally.collateralDeltaAtoms = cashDelta side tally.principalAtoms tally.feeAtoms
  events : tally.collateralDeltaAtoms =
    ∑ tx ∈ txs, ((ofOrder orderId (walletEvents hashes db wallet cutoff tx)).map Event.delta).sum

theorem text_eq_some {v : Option Text} {read : Text} (hf : text v = some read) :
    ∃ given, v = some given := by
  cases v with
  | none => cases hf
  | some given => exact ⟨given, rfl⟩

theorem tallyTx_eq_ok {target : Target} {checked : List (Text × Candidate)} {tally tally' : Tally}
    (step : tallyTx target parts checked tally tx = .ok tally') :
    ∃ chosen econ collateral,
      earliest ((checked.filter fun entry => entry.1 = tx).map Prod.snd) = some chosen ∧
      EconomicsOf chosen.decoded target econ ∧
      econ.sharesAtoms = childAtoms parts tx ∧
      chosen.decoded.collateral = some collateral ∧
      tally'.sharesAtoms = tally.sharesAtoms + econ.sharesAtoms ∧
      tally'.principalAtoms = tally.principalAtoms + econ.principalAtoms ∧
      tally'.feeAtoms = tally.feeAtoms + econ.feeAtoms ∧
      tally'.collateralDeltaAtoms = tally.collateralDeltaAtoms + econ.collateralDeltaAtoms := by
  simp only [tallyTx, bind_eq_ok, guardBy_eq_ok, require_eq_none, elim_eq_ok] at step
  obtain ⟨_, -, chosen, hf, econ, read, _, matched, _, -, _, isColl, _, -, ans⟩ := step
  obtain ⟨collateral, isColl⟩ := text_eq_some isColl
  cases ans
  exact ⟨chosen, econ, collateral, hf, eventEconomics_eq_ok read, matched, isColl, rfl, rfl, rfl,
    rfl⟩

section
variable {db : Db} {target : Target} {checked : List (Text × Candidate)}

theorem Attributed.empty :
    Attributed hashes db wallet cutoff target.orderId target.side (childAtoms parts) ∅ {} where
  distinct := by simp
  conserved := by simp
  matched := by simp
  shares := rfl
  principal := rfl
  fee := rfl
  delta := by cases target.side <;> rfl
  events := rfl

theorem Attributed.insert {txs : Finset Text} {tally tally' : Tally} {tx : Text}
    (before : Attributed hashes db wallet cutoff target.orderId target.side (childAtoms parts) txs
        tally) (new : tx ∉ txs) (step : tallyTx target parts checked tally tx = .ok tally')
    (agrees : earliest ((checked.filter fun entry => entry.1 = tx).map Prod.snd) =
        proofAt hashes db wallet cutoff tx) :
    Attributed hashes db wallet cutoff target.orderId target.side (childAtoms parts)
      (Insert.insert tx txs) tally' := by
  obtain ⟨chosen, econ, collateral, hf, of, matched, isColl, shares, prin, fee, delta⟩ :=
    tallyTx_eq_ok step
  have proof : proofAt hashes db wallet cutoff tx = some chosen := agrees.symm.trans hf
  have evs : walletEvents hashes db wallet cutoff tx = chosen.decoded.events := by
    rw [walletEvents, proof]
    rfl
  constructor
  · rw [Finset.forall_mem_insert]
    exact ⟨evs ▸ of.distinct, before.distinct⟩
  · rw [Finset.forall_mem_insert]
    exact ⟨evs ▸ proofAt_net proof isColl of.conserved, before.conserved⟩
  · rw [Finset.forall_mem_insert]
    exact ⟨evs ▸ of.shares.symm.trans matched, before.matched⟩
  · rw [Finset.sum_insert new, shares, before.shares, of.shares, evs, add_comm]
  · rw [Finset.sum_insert new, prin, before.principal, of.principal, evs, add_comm]
  · rw [Finset.sum_insert new, fee, before.fee, of.fee, evs, add_comm]
  · rw [delta, before.delta, of.delta, prin, fee, Nat.cast_add, Nat.cast_add, cashDelta_add]
  · rw [Finset.sum_insert new, delta, before.events, of.events, evs, add_comm]

theorem foldlM_tallyTx {order : List Text} {tally : Tally} (nd : order.Nodup)
    (agrees : ∀ tx ∈ order, earliest ((checked.filter fun entry => entry.1 = tx).map Prod.snd) =
          proofAt hashes db wallet cutoff tx)
    (folded : order.foldlM (tallyTx target parts checked) {} = .ok tally) :
    Attributed hashes db wallet cutoff target.orderId target.side (childAtoms parts) order.toFinset
      tally := by
  induction order using List.reverseRecOn generalizing tally with
  | nil =>
    cases folded
    exact .empty
  | append_singleton order tx ih =>
    obtain ⟨earlier, folded, step⟩ := foldlM_concat_eq_ok.mp folded
    obtain ⟨nd, -, hne⟩ := List.nodup_append.mp nd
    have before := ih nd (fun tx mem => agrees tx (List.mem_append_left _ mem)) folded
    have new : tx ∉ order.toFinset :=
      fun again => hne tx (List.mem_toFinset.mp again) tx List.mem_cons_self rfl
    have grown : (order ++ [tx]).toFinset = Insert.insert tx order.toFinset := by
      ext other
      simp
    rw [grown]
    exact before.insert new step (agrees tx List.mem_concat_self)
end

theorem mem_keys {parts : List Text} : tx ∈ keys parts ↔ tx ∈ parts := by
  simp [keys]

theorem nodup_keys (parts : List Text) : (keys parts).Nodup :=
  List.nodup_reverse.mpr (List.nodup_dedup _)

theorem fillPart_eq_ok {fill : Fill} {part : Text × ℕ} (read : fillPart command fill = .ok part) :
    fill.tx = some part.1 ∧ atoms fill.filledSize = some part.2 := by
  simp only [fillPart, bind_eq_ok, guardBy_eq_ok, require_eq_none, elim_eq_ok] at read
  obtain ⟨_, -, tx, isTx, shares, isShares, ans⟩ := read
  cases ans
  exact ⟨by rw [Fill.tx, isTx]; rfl, isShares⟩

theorem parts_fst
    (read : List.Forall₂ (fun fill part => fillPart command fill = .ok part) fills parts) :
    fills.filterMap Fill.tx = parts.map Prod.fst := by
  induction read with
  | nil => rfl
  | cons first rest ih => rw [List.filterMap_cons_some (fillPart_eq_ok first).1, ih, List.map_cons]

theorem parts_atoms
    (read : List.Forall₂ (fun fill part => fillPart command fill = .ok part) fills parts) :
    childAtoms parts = localAtoms fills := by
  funext tx
  unfold childAtoms localAtoms
  induction read with
  | nil => rfl
  | cons first rest ih =>
    obtain ⟨isTx, isAtoms⟩ := fillPart_eq_ok first
    simp only [List.filter_cons, isTx, Option.some.injEq]
    split_ifs
    · simp only [List.map_cons, List.sum_cons, isAtoms, Option.getD_some, ih]
    · exact ih

theorem lower_of_fill_tx (mem : tx ∈ fills.filterMap Fill.tx) : lower tx = tx := by
  obtain ⟨fill, -, isTx⟩ := List.mem_filterMap.mp mem
  obtain ⟨given, -, rfl⟩ := Option.map_eq_some_iff.mp isTx
  exact lower_lower given

theorem envelopeIdentity_eq_ok {db : Db} {pre : Envelope}
    (read : envelopeIdentity hashes db command cutoff = .ok pre) :
    command.venueOrderId = some command.orderId ∧
    walletOf db command = some (lower (pre.funderAddress.getD [])) := by
  simp only [envelopeIdentity, bind_eq_ok, guardBy_eq_ok, require_eq_none, elim_eq_ok] at read
  obtain ⟨_, fields, _, -, envs, isEnvelopes, _, -, hf, one, _, -, _, -, _, -, _, idn, valid, -,
    read⟩ := read
  obtain ⟨_, -, _, -, ans⟩ := read
  cases ans
  obtain ⟨orderId, isOrderId⟩ := text_eq_some
    (Option.eq_some_of_isSome (fields command.venueOrderId (.tail _ List.mem_cons_self)))
  obtain ⟨funder, isFunder⟩ := Option.isSome_iff_exists.mp idn.2.1
  constructor
  · rw [Command.orderId, isOrderId]
    rfl
  · rw [walletOf, isEnvelopes, Option.getD_some, one, isFunder]
    simp [Except.toOption, isFunder]

theorem read_attributed {db : Db} {tally : Tally}
    (read : readCommandFillCash hashes db command fills cutoff = .ok tally) :
    ∃ wallet side, walletOf db command = some wallet ∧
      command.sideOf = some side ∧
      command.venueOrderId = some command.orderId ∧
      Attributed hashes db wallet cutoff command.orderId side (localAtoms fills) (fillTxs fills)
        tally := by
  simp only [readCommandFillCash, bind_eq_ok, guardBy_eq_ok, require_eq_none, elim_eq_ok,
    mapError_eq_ok] at read
  obtain ⟨facts, isFacts, pre, envelope, _, -, parts, split, _, available, side, isSide, folded⟩ :=
    read
  obtain ⟨orderId, isWallet⟩ := envelopeIdentity_eq_ok envelope
  have read := mapM_eq_ok.mp split
  generalize lower (pre.funderAddress.getD []) = wallet at isWallet available folded
  have inTxs : ∀ tx, tx ∈ keys (parts.map Prod.fst) ↔ tx ∈ fills.filterMap Fill.tx := by
    intro tx
    rw [mem_keys, parts_fst read]
  generalize keys (parts.map Prod.fst) = txs at inTxs available folded
  have lowered : ∀ tx ∈ txs, lower tx = tx := fun tx mem => lower_of_fill_tx ((inTxs tx).mp mem)
  -- the transactions with a proof are those of the fills
  have covers : ∀ tx, tx ∈ keys ((checkedFacts hashes facts wallet cutoff txs).map Prod.fst) ↔
          tx ∈ txs := by
    intro tx
    rw [mem_keys]
    exact ⟨checkedFacts_fst, available tx⟩
  have agrees : ∀ tx ∈ keys ((checkedFacts hashes facts wallet cutoff txs).map Prod.fst),
      earliest (((checkedFacts hashes facts wallet cutoff txs).filter fun entry => entry.1 = tx).map
          Prod.snd) =
        proofAt hashes db wallet cutoff tx := by
    intro tx mem
    rw [checkedFacts_at lowered ((covers tx).mp mem), proofAt, isFacts, Option.getD_some]
  have all : (keys ((checkedFacts hashes facts wallet cutoff txs).map Prod.fst)).toFinset =
      fillTxs fills := by
    ext tx
    rw [fillTxs, List.mem_toFinset, List.mem_toFinset, covers, inTxs]
  have tallied := foldlM_tallyTx (nodup_keys _) agrees folded
  rw [all, parts_atoms read] at tallied
  exact ⟨wallet, side, isWallet, isSide, orderId, tallied⟩

/-- Commands of one wallet and orders of their own that are all PROVEN. -/
structure AllProven (hashes : Hashes) (db : Db) (wallet : Text) (cutoff : ℤ) {κ : Type*}
    (requests : Finset κ)
    (command : κ → Command) (fills : κ → List Fill) (tally : κ → Tally) : Prop where
  wallets : ∀ k ∈ requests, walletOf db (command k) = some wallet
  orders : Set.InjOn (fun k => (command k).venueOrderId) requests
  proven : ∀ k ∈ requests,
    readCommandFillCash hashes db (command k) (fills k) cutoff = .ok (tally k)

def Counts (hashes : Hashes) (db : Db) (wallet : Text) (cutoff : ℤ) (command : Command)
    (fills : List Fill) (tx : Text) (index : ℕ) : Prop :=
  tx ∈ fillTxs fills ∧
  ∃ event ∈ walletEvents hashes db wallet cutoff tx,
    event.logIndex = index ∧ command.venueOrderId = some event.orderHash

/-- Every event of the transactions is of an order whose fills have the transaction. -/
def Covered (hashes : Hashes) (db : Db) (wallet : Text) (cutoff : ℤ) {κ : Type*}
    (requests : Finset κ) (command : κ → Command) (fills : κ → List Fill) : Prop :=
  ∀ tx ∈ requests.biUnion fun k => fillTxs (fills k),
    ∀ event ∈ walletEvents hashes db wallet cutoff tx,
    ∃ k ∈ requests, tx ∈ fillTxs (fills k) ∧ (command k).venueOrderId = some event.orderHash

section
variable {db : Db} {κ : Type*} {requests : Finset κ} {command : κ → Command} {fills : κ → List Fill}
  {tally : κ → Tally}

variable (all : AllProven hashes db wallet cutoff requests command fills tally)

include all

theorem AllProven.attributed {k : κ} (mem : k ∈ requests) :
    (command k).venueOrderId = some (command k).orderId ∧
    ∃ side, Attributed hashes db wallet cutoff (command k).orderId side (localAtoms (fills k))
        (fillTxs (fills k)) (tally k) := by
  obtain ⟨hf, side, isWallet, -, orderId, attr⟩ := read_attributed (all.proven k mem)
  cases (all.wallets k mem).symm.trans isWallet
  exact ⟨orderId, side, attr⟩

theorem AllProven.counted_once {tx : Text} {index : ℕ} {j k : κ} (first : j ∈ requests)
    (snd : k ∈ requests) (counts : Counts hashes db wallet cutoff (command j) (fills j) tx index)
    (counts' : Counts hashes db wallet cutoff (command k) (fills k) tx index) : j = k := by
  obtain ⟨inTxs, event, mem, isIndex, isOrder⟩ := counts
  obtain ⟨-, event', member', isIndex', isOrder'⟩ := counts'
  obtain ⟨-, side, attr⟩ := all.attributed first
  have same : event = event' :=
    List.inj_on_of_nodup_map (attr.distinct tx inTxs) mem member' (isIndex.trans isIndex'.symm)
  refine all.orders first snd ?_
  change (command j).venueOrderId = (command k).venueOrderId
  rw [isOrder, isOrder', same]

theorem AllProven.sum_delta (covered : Covered hashes db wallet cutoff requests command fills) :
    ∑ k ∈ requests, (tally k).collateralDeltaAtoms =
      ∑ tx ∈ requests.biUnion fun k => fillTxs (fills k),
      netCollateral hashes db wallet cutoff tx := by
  calc ∑ k ∈ requests, (tally k).collateralDeltaAtoms
      = ∑ k ∈ requests, ∑ tx ∈ fillTxs (fills k),
          ((ofOrder (command k).orderId (walletEvents hashes db wallet cutoff tx)).map
              Event.delta).sum := by
        refine Finset.sum_congr rfl fun k mem => ?_
        obtain ⟨-, side, attr⟩ := all.attributed mem
        exact attr.events
    _ = ∑ tx ∈ requests.biUnion fun k => fillTxs (fills k),
      ((walletEvents hashes db wallet cutoff tx).map Event.delta).sum := by
        refine Attribution.sum_attributed Event.delta fun tx mem event isEvent => ?_
        obtain ⟨k, inReqs, inTxs, isOrder⟩ := covered tx mem event isEvent
        refine ⟨k, inReqs, inTxs, ?_, fun other inOthers owns => ?_⟩
        · rw [(all.attributed inReqs).1, Option.some.injEq] at isOrder
          exact decide_eq_true isOrder.symm
        · refine all.orders inOthers inReqs ?_
          change (command other).venueOrderId = (command k).venueOrderId
          rw [isOrder, (all.attributed inOthers).1, of_decide_eq_true owns]
    _ = ∑ tx ∈ requests.biUnion fun k => fillTxs (fills k),
      netCollateral hashes db wallet cutoff tx := by
        refine Finset.sum_congr rfl fun tx mem => ?_
        obtain ⟨k, inReqs, inTxs⟩ := Finset.mem_biUnion.mp mem
        obtain ⟨-, side, attr⟩ := all.attributed inReqs
        exact attr.conserved tx inTxs
end

def Fact.isLate (cutoff : ℤ) (row : Fact) : Bool :=
  row.observedAt.utc.any fun observed => cutoff ≤ observed

def Envelope.isLate (cutoff : ℤ) (row : Envelope) : Bool :=
  row.capturedAt.any fun captured => cutoff ≤ captured

/-- The database without its late proofs, and without the late envelopes that the command does not
name. -/
def Db.before (cutoff : ℤ) (command : Command) (db : Db) : Db where
  facts := db.facts.map (List.filter fun row => ¬ row.isLate cutoff)
  envelopes := db.envelopes.map
    (List.filter fun row => ¬ (row.isLate cutoff ∧ some row.envelopeId ≠ command.envelopeId))
  commands := db.commands

theorem proofRowValid_late {row : Fact} (late : row.isLate cutoff) :
    proofRowValid hashes wallet tx cutoff row = none := by
  obtain ⟨obs, isObserved, after⟩ := (Option.any_eq_true _ _).mp late
  rw [proofRowValid, isObserved]
  exact if_pos (of_decide_eq_true after)

theorem signedEnvelope_late {pre row : Envelope} (late : row.isLate cutoff) :
    signedEnvelope hashes cutoff pre row = .ok none := by
  obtain ⟨captured, isCaptured, after⟩ := (Option.any_eq_true _ _).mp late
  have := of_decide_eq_true after
  refine if_pos ?_
  rw [isCaptured, Option.any_some, decide_eq_true_eq]
  omega

theorem checkedFacts_filter (hashes : Hashes) (facts : List Fact) (wallet : Text) (cutoff : ℤ)
    (txs : List Text) :
    checkedFacts hashes (facts.filter fun row => ¬ row.isLate cutoff) wallet cutoff txs =
      checkedFacts hashes facts wallet cutoff txs := by
  rw [checkedFacts, List.filter_comm, ← Attribution.filter_insertionSort, checkedFacts]
  refine Attribution.filterMap_filter_of_none (fun row late => ?_) _
  rw [proofRowValid_late (not_not.mp (of_decide_eq_false late))]
  simp

theorem preSignEnvelope_filter (cutoff : ℤ) (envs : List Envelope) (command : Command) :
    preSignEnvelope (envs.filter fun row =>
        ¬ (row.isLate cutoff ∧ some row.envelopeId ≠ command.envelopeId)) command =
      preSignEnvelope envs command := by
  have same : (envs.filter fun row =>
        ¬ (row.isLate cutoff ∧ some row.envelopeId ≠ command.envelopeId)).filter
      (fun row => some row.envelopeId = command.envelopeId) =
      envs.filter fun row => some row.envelopeId = command.envelopeId := by
    rw [List.filter_filter]
    refine List.filter_congr fun row _ => ?_
    by_cases named : some row.envelopeId = command.envelopeId <;> simp [named]
  rw [preSignEnvelope, same, preSignEnvelope]

theorem signedEnvelope_filter (hashes : Hashes) (cutoff : ℤ) (pre : Envelope) (envs : List Envelope)
    (command : Command) :
    (((envs.filter fun row =>
            ¬ (row.isLate cutoff ∧ some row.envelopeId ≠ command.envelopeId)).filter fun row =>
          row.orderId = command.venueOrderId).mapM (signedEnvelope hashes cutoff pre)).map
      List.reduceOption =
      ((envs.filter fun row => row.orderId = command.venueOrderId).mapM
          (signedEnvelope hashes cutoff pre)).map List.reduceOption := by
  rw [List.filter_comm]
  refine mapM_filter_reduceOption (fun row late => ?_) _
  exact signedEnvelope_late (not_not.mp (of_decide_eq_false late)).1

theorem envelopeIdentity_before (hashes : Hashes) (db : Db) (command : Command) (cutoff : ℤ) :
    envelopeIdentity hashes (db.before cutoff command) command cutoff =
      envelopeIdentity hashes db command cutoff := by
  unfold envelopeIdentity Db.before
  cases db.envelopes with
  | none => rfl
  | some envs =>
    simp only [Option.map_some, Option.elim_some, ok_bind, preSignEnvelope_filter,
      signedEnvelope_filter]

theorem read_before (hashes : Hashes) (db : Db) (command : Command) (fills : List Fill)
    (cutoff : ℤ) :
    readCommandFillCash hashes (db.before cutoff command) command fills cutoff =
      readCommandFillCash hashes db command fills cutoff := by
  unfold readCommandFillCash
  rw [envelopeIdentity_before]
  cases isFacts : db.facts with
  | none => rw [Db.before, isFacts]; rfl
  | some facts =>
    simp only [Db.before, isFacts, Option.map_some, Option.elim_some, ok_bind, checkedFacts_filter]

/-- A PROVEN answer is the tally of its order over the transactions of its fills; commands of one
wallet with orders of their own share no event, and where they leave none out their cash is what the
receipts moved; no answer depends on a row after the cutoff. -/
theorem fill_cash_attributed_once {κ : Type*} (hashes : Hashes) (db : Db) (cutoff : ℤ) :
    (∀ command fills tally, readCommandFillCash hashes db command fills cutoff = .ok tally →
        ∃ wallet side, walletOf db command = some wallet ∧
          command.sideOf = some side ∧
          command.venueOrderId = some command.orderId ∧
          Attributed hashes db wallet cutoff command.orderId side (localAtoms fills) (fillTxs fills)
            tally) ∧
    (∀ (wallet : Text) (requests : Finset κ) (command : κ → Command) (fills : κ → List Fill)
        (tally : κ → Tally), AllProven hashes db wallet cutoff requests command fills tally →
        (∀ tx index, ∀ j ∈ requests, ∀ k ∈ requests,
            Counts hashes db wallet cutoff (command j) (fills j) tx index →
            Counts hashes db wallet cutoff (command k) (fills k) tx index → j = k) ∧
        (Covered hashes db wallet cutoff requests command fills →
          ∑ k ∈ requests, (tally k).collateralDeltaAtoms =
            ∑ tx ∈ requests.biUnion fun k => fillTxs (fills k),
            netCollateral hashes db wallet cutoff tx)) ∧
    (∀ db' command fills, db'.before cutoff command = db.before cutoff command →
        readCommandFillCash hashes db' command fills cutoff =
          readCommandFillCash hashes db command fills cutoff) := by
  refine ⟨fun command fills tally => read_attributed,
    fun wallet requests command fills tally all => ⟨?_, all.sum_delta⟩,
    fun db' command fills same => ?_⟩
  · intro tx index j first k snd
    exact all.counted_once first snd
  · rw [← read_before, same, read_before]
end

namespace Sample

def wallet : Text := hexOf 20 0xA11CE

def exchange : Text := hexOf 20 0xE111180000d2663C0091e4f400237545B87B996B

def collateral : Text := hexOf 20 0xC0117

abbrev Filled := ℕ × ℕ × ℕ

def words (values : List ℕ) : Scalar :=
  .text ('0' :: 'x' :: values.flatMap fun value => (hexOf 32 value).drop 2)

def fillLogs (tx : ℕ) (index : ℕ) (filled : Filled) : List (Shape Log) :=
  let log (index : ℕ) (address : Text) (topics : List Scalar) (data : Scalar) : Shape Log :=
    .shaped {
    logIndex := .int index, removed := .bool false, transactionHash := .text (hexOf 32 tx)
    blockHash := .text (hexOf 32 0xB10C), blockNumber := .int 7, address := .text address,
    topics := .shaped topics, data }
  [log index exchange
      [.text orderFilledSignature, .text (hexOf 32 filled.1), .text (hexOf 32 0xA11CE),
      .text (hexOf 32 0xB0B)] (words [0, 77, filled.2.2, filled.2.1, 0, 0, 0]),
    log (index + 1) collateral
      [.text transferSignature, .text (hexOf 32 0xA11CE), .text (hexOf 32 0xB0B)]
      (words [filled.2.2])]

def receipt (tx : ℕ) (fills : List Filled) : Receipt where
  transactionHash := .text (hexOf 32 tx)
  blockHash := .text (hexOf 32 0xB10C)
  blockNumber := .int 7
  status := .int 1
  logs := .shaped (fills.zipIdx.flatMap fun filled => fillLogs tx (2 * filled.2) filled.1)

def proof (tx : ℕ) (fills : List Filled) : Proof :=
  let header : Shape Header := .shaped { hash := .text (hexOf 32 0xB10C), number := .int 7 }
  let bare : Proof := {
    chainId := .int 137, rpcChainId := .int 137, txHash := .text (hexOf 32 tx),
    wallet := .text wallet
    receipt := .shaped (receipt tx fills), header, finalizedHeader := header
    collateralByExchange :=
      .shaped [(exchange, .shaped { address := .text collateral, decimals := .int 6 })]
    headerAfter := header, decoded := .other [] }
  { bare with decoded := .shaped (decodeFillCashProof bare.evidence) }

def hashes : Hashes where
  sha256 blob := blob
  proof proof := proof.txHash.str

def fact (id tx : ℕ) (fills : List Filled) : Fact where
  id
  wallet
  txHash := hexOf 32 tx
  observedAt := ⟨['1'], some 10⟩
  proofJson := some (proof tx fills)
  proofHash := hexOf 32 tx
  status := Status.text .proven
  reason := ['o', 'k']

def envelope (order : ℕ) : Envelope where
  envelopeId := 'e' :: Nat.toDigits 10 order
  capturedAt := some 5
  canonicalPreSignPayloadHash := some ['p']
  rawRequestHash := some ['r']
  funderAddress := some wallet
  selectedOutcomeTokenId := ['7', '7']
  side := ['B', 'U', 'Y']
  signedOrderBlob := some ['s']
  signedOrderHash := some ['s']
  orderId := some (hexOf 32 order)

def db : Db where
  facts := some [fact 1 101 [(1, 10000000, 5000000)],
    fact 2 102 [(1, 4000000, 2000000), (2, 6000000, 3000000)]]
  envelopes := some [envelope 1, envelope 2]
  commands := some [⟨['c', '1'], some (hexOf 32 1)⟩, ⟨['c', '2'], some (hexOf 32 2)⟩]

def command (second : Bool) : Command where
  commandId := some (if second then ['c', '2'] else ['c', '1'])
  venueOrderId := some (hexOf 32 (if second then 2 else 1))
  tokenId := some ['7', '7']
  envelopeId := some (if second then ['e', '2'] else ['e', '1'])
  orderSide := some ['B', 'U', 'Y']

def fill (order tx : ℕ) (size : ℚ) : Fill := ⟨some (hexOf 32 order), some (hexOf 32 tx), some size⟩

def fills (second : Bool) : List Fill :=
  if second then [fill 2 102 6] else [fill 1 101 10, fill 1 102 4]

def tally (second : Bool) : Tally :=
  if second then {
    sharesAtoms := 6000000, principalAtoms := 3000000, collateralDeltaAtoms := -3000000
    collateral := some collateral, proofHashes := [hexOf 32 102], availableAt := some 10 }
  else {
    sharesAtoms := 14000000, principalAtoms := 7000000, collateralDeltaAtoms := -7000000
    collateral := some collateral, proofHashes := [hexOf 32 101, hexOf 32 102],
    availableAt := some 10 }

theorem orders_distinct (requests : Finset Bool) :
    Set.InjOn (fun k => (command k).venueOrderId) requests := by
  have nd : ∀ j k, (command j).venueOrderId = (command k).venueOrderId → j = k := by decide +kernel
  exact fun j _ k _ same => nd j k same

theorem allProven : AllProven hashes db wallet 20 Finset.univ command fills tally where
  wallets := by decide +kernel
  orders := orders_distinct _
  proven := by decide +kernel

theorem covered : Covered hashes db wallet 20 Finset.univ command fills := by
  unfold Covered
  decide +kernel

/-- With another signed envelope for the first order, captured at the cutoff. -/
def lateDb : Db :=
  { db with
    envelopes := some
      [envelope 1, envelope 2, { envelope 1 with envelopeId := ['l'], capturedAt := some 20 }] }

/-- Fills in which the first order does not list its second transaction. -/
def listed (second : Bool) : List Fill := if second then [fill 2 102 6] else [fill 1 101 10]

def listedTally (second : Bool) : Tally :=
  if second then tally true
  else {
    sharesAtoms := 10000000, principalAtoms := 5000000, collateralDeltaAtoms := -5000000
    collateral := some collateral, proofHashes := [hexOf 32 101], availableAt := some 10 }

end Sample

theorem two_orders_share_a_receipt :
    AllProven Sample.hashes Sample.db Sample.wallet 20 Finset.univ Sample.command Sample.fills
      Sample.tally ∧
    Covered Sample.hashes Sample.db Sample.wallet 20 Finset.univ Sample.command Sample.fills ∧
    ∑ k, (Sample.tally k).collateralDeltaAtoms =
      ∑ tx ∈ Finset.univ.biUnion fun k => fillTxs (Sample.fills k),
      netCollateral Sample.hashes Sample.db Sample.wallet 20 tx ∧
      readCommandFillCash Sample.hashes Sample.lateDb (Sample.command false) (Sample.fills false)
        20 =
        readCommandFillCash Sample.hashes Sample.db (Sample.command false) (Sample.fills false)
          20 :=
  have attr := @fill_cash_attributed_once Bool Sample.hashes Sample.db 20
  ⟨Sample.allProven, Sample.covered, (attr.2.1 _ _ _ _ _ Sample.allProven).2 Sample.covered,
    attr.2.2 _ _ _ rfl⟩

/-- A command whose fills leave out a transaction of its order is PROVEN, and its cash there is
counted for no one; a late envelope under the awaited name changes why a command is unknown. -/
theorem unlisted_transaction_cash_uncounted :
    AllProven Sample.hashes Sample.db Sample.wallet 20 Finset.univ Sample.command Sample.listed
      Sample.listedTally ∧
    (∀ tx ∈ Finset.univ.biUnion fun k => fillTxs (Sample.listed k), ∀ event ∈ walletEvents
          Sample.hashes Sample.db Sample.wallet 20 tx,
          ∃ k, (Sample.command k).venueOrderId = some event.orderHash) ∧
    ∑ k, (Sample.listedTally k).collateralDeltaAtoms = -8000000 ∧
    ∑ tx ∈ Finset.univ.biUnion fun k => fillTxs (Sample.listed k),
    netCollateral Sample.hashes Sample.db Sample.wallet 20 tx = -10000000 ∧
    readCommandFillCash Sample.hashes { Sample.db with envelopes := some [Sample.envelope 2] }
      (Sample.command false) (Sample.fills false) 20 = .error ⟨.preSignEnvelopeUnbound, []⟩ ∧
    readCommandFillCash Sample.hashes { Sample.db with
      envelopes := some [Sample.envelope 2, { Sample.envelope 1 with capturedAt := some 20 }] }
      (Sample.command false) (Sample.fills false) 20 = .error ⟨.preSignEnvelopePitUnbound, []⟩ :=
  ⟨⟨by decide +kernel, Sample.orders_distinct _, by decide +kernel⟩, by decide +kernel,
    by decide +kernel, by decide +kernel, by decide +kernel, by decide +kernel⟩

end Zeus.FillCashReader
