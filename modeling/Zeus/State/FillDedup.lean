import Mathlib.Data.String.Basic
import Zeus.Lib.Sink

/-! `venue_trade_facts` is append-only: a trade has many revisions, and a fill may also be stored as
a tx-hash aggregate or as an alias of another row. Decimal text is carried by its value, the JSON
payload only by the integer that the alias rule extracts. -/

namespace Zeus.FillDedup

open Relation

inductive TradeState
  | matched | mined | confirmed | retrying | failed
  deriving DecidableEq

def TradeState.isFill : TradeState → Bool
  | .matched | .mined | .confirmed => true
  | .retrying | .failed => false

/-- A row of `venue_trade_facts`. `sourceTradeFactId` is the integer at
`$.raw_fill_payload.source_trade_fact_id` of its payload, when there is one. -/
structure TradeFact where
  tradeFactId : ℤ
  (tradeId venueOrderId commandId : String)
  state : TradeState
  (filledSize fillPrice : ℚ)
  (txHash venueTimestamp : Option String)
  observedAt : String
  localSequence : ℤ
  sourceTradeFactId : Option ℤ
  deriving DecidableEq

structure VenueTradeFacts where
  rows : List TradeFact
  idUnique : (rows.map TradeFact.tradeFactId).Nodup
  revisionUnique : (rows.map fun fact => (fact.tradeId, fact.localSequence)).Nodup

def VenueTradeFacts.empty : VenueTradeFacts := ⟨[], List.nodup_nil, List.nodup_nil⟩

def VenueTradeFacts.tryAppend (facts : VenueTradeFacts) (fact : TradeFact) :
    Option VenueTradeFacts :=
  if ids : ((facts.rows ++ [fact]).map TradeFact.tradeFactId).Nodup then
    if revisions : ((facts.rows ++ [fact]).map fun row =>
        (row.tradeId, row.localSequence)).Nodup then
      some ⟨facts.rows ++ [fact], ids, revisions⟩
    else none
  else none

/-- SQLite `TRIM` with one argument removes spaces only. -/
def sqlTrim (text : String) : String :=
  String.ofList ((text.toList.dropWhile (· == ' ')).reverse.dropWhile (· == ' ')).reverse

/-- SQLite `LOWER` folds ASCII letters only, as does `Char.toLower`. -/
def sqlLower (text : String) : String := String.ofList (text.toList.map Char.toLower)

def normalized (text : String) : String := sqlLower (sqlTrim text)

namespace TradeFact

/-- The positive fill test both exclusion rules share. -/
def isFill (fact : TradeFact) : Bool := fact.state.isFill && decide (0 < fact.filledSize)

def normalizedTx (fact : TradeFact) : String := normalized (fact.txHash.getD "")

def normalizedTrade (fact : TradeFact) : String := normalized fact.tradeId

/-- A tx-hash rollup: it has a tx hash, and its trade id is that hash. -/
def isTxAggregate (fact : TradeFact) : Bool :=
  sqlTrim (fact.txHash.getD "") != "" && fact.normalizedTrade == fact.normalizedTx

def proofRank (fact : TradeFact) : ℕ :=
  if 0 < fact.filledSize then
    match fact.state with
    | .confirmed => 500
    | .mined => 450
    | .matched => 400
    | .retrying | .failed => 300
  else 100

/-- `PARTITION BY command_id, trade_id`. -/
def samePartition (fact other : TradeFact) : Bool :=
  fact.commandId == other.commandId && fact.tradeId == other.tradeId

/-- `ORDER BY proof_rank DESC, local_sequence DESC`. -/
def precedes (fact other : TradeFact) : Bool :=
  decide (other.proofRank < fact.proofRank ∨
    (fact.proofRank = other.proofRank ∧ other.localSequence < fact.localSequence))

/-- Position of a row in its window partition; the revision constraint leaves no ties. -/
def canonicalRank (source : List TradeFact) (fact : TradeFact) : ℕ :=
  1 + source.countP fun other => samePartition fact other && precedes other fact

/-- `COALESCE(MIN(venue_timestamp), MIN(observed_at))` over the partition. -/
def executionTs (source : List TradeFact) (fact : TradeFact) : Option String :=
  let revisions := source.filter fact.samePartition
  match (revisions.filterMap TradeFact.venueTimestamp).min? with
  | some timestamp => some timestamp
  | none => (revisions.map TradeFact.observedAt).min?

end TradeFact

/-- `canonical_trade_fact_cte` over the rows its source clause selects. -/
def canonicalTradeFacts (source : List TradeFact) : List TradeFact :=
  source.filter fun fact => fact.canonicalRank source == 1

/-- Whether `child` is an exact trade behind the aggregate `fact`. -/
def exactChild (fact child : TradeFact) : Bool :=
  child.commandId == fact.commandId && child.normalizedTx == fact.normalizedTx &&
    child.normalizedTrade != fact.normalizedTrade && child.isFill

def aggregateHidden (canonical : List TradeFact) (fact : TradeFact) : Bool :=
  fact.isTxAggregate && canonical.any (exactChild fact)

/-- Whether `source` is the stored row that the alias `fact` was derived from. -/
def aliasSource (fact source : TradeFact) : Bool :=
  fact.sourceTradeFactId == some source.tradeFactId && source.commandId == fact.commandId &&
    source.venueOrderId == fact.venueOrderId && source.isFill

def aliasHidden (stored : List TradeFact) (fact : TradeFact) : Bool := stored.any (aliasSource fact)

/-- `economic_trade_fact_cte`: aliases are looked up in the stored rows, not in the canonical
ones. -/
def economicTradeFacts (stored canonical : List TradeFact) : List TradeFact :=
  canonical.filter fun fact => !aggregateHidden canonical fact && !aliasHidden stored fact

def VenueTradeFacts.forCommand (facts : VenueTradeFacts) (commandId : String) : List TradeFact :=
  facts.rows.filter fun fact => fact.commandId == commandId

def canonicalTradeFactsForCommand (facts : VenueTradeFacts) (commandId : String) : List TradeFact :=
  canonicalTradeFacts (facts.forCommand commandId)

def economicTradeFactsForCommand (facts : VenueTradeFacts) (commandId : String) : List TradeFact :=
  (economicTradeFacts facts.rows (canonicalTradeFactsForCommand facts commandId)).insertionSort
    fun fact other => fact.tradeId ≤ other.tradeId

section
variable {source : List TradeFact} {fact other : TradeFact}

theorem mem_canonicalTradeFacts :
    fact ∈ canonicalTradeFacts source ↔
      fact ∈ source ∧
      ∀ other ∈ source, fact.samePartition other = true → other.precedes fact = false := by
  simp only [canonicalTradeFacts, List.mem_filter, TradeFact.canonicalRank, beq_iff_eq,
    Nat.add_eq_left, List.countP_eq_zero, Bool.and_eq_true, not_and, Bool.not_eq_true]

theorem samePartition_iff :
    fact.samePartition other = true ↔
      fact.commandId = other.commandId ∧ fact.tradeId = other.tradeId := by
  simp [TradeFact.samePartition]

theorem precedes_iff :
    fact.precedes other = true ↔
      other.proofRank < fact.proofRank ∨
      (fact.proofRank = other.proofRank ∧ other.localSequence < fact.localSequence) := by
  simp [TradeFact.precedes]

theorem not_precedes_iff : other.precedes fact = false ↔
    toLex (other.proofRank, other.localSequence) ≤ toLex (fact.proofRank, fact.localSequence) := by
  rw [← Bool.not_eq_true, precedes_iff, Prod.Lex.toLex_le_toLex]
  omega

theorem isFill_iff_rank : fact.isFill = true ↔ 400 ≤ fact.proofRank := by
  simp only [TradeFact.isFill, TradeFact.proofRank, Bool.and_eq_true, decide_eq_true_eq]
  cases fact.state <;> by_cases pos : 0 < fact.filledSize <;>
    simp [pos, TradeState.isFill]

theorem exists_canonical (member : fact ∈ source) :
    ∃ chosen ∈ canonicalTradeFacts source, fact.samePartition chosen = true ∧
      fact.proofRank ≤ chosen.proofRank := by
  let revisions := source.filter fact.samePartition
  have inRevisions : fact ∈ revisions :=
    List.mem_filter.mpr ⟨member, samePartition_iff.mpr ⟨rfl, rfl⟩⟩
  obtain ⟨chosen, inChosen, largest⟩ := revisions.toFinset.exists_max_image
    (fun row => toLex (row.proofRank, row.localSequence)) ⟨fact, List.mem_toFinset.mpr inRevisions⟩
  obtain ⟨hs, same⟩ := List.mem_filter.mp (List.mem_toFinset.mp inChosen)
  refine ⟨chosen, mem_canonicalTradeFacts.mpr ⟨hs, fun row inRow alike => ?_⟩, same, ?_⟩
  · rw [not_precedes_iff]
    rw [samePartition_iff] at same alike
    exact largest row (List.mem_toFinset.mpr (List.mem_filter.mpr
      ⟨inRow, samePartition_iff.mpr ⟨same.1.trans alike.1, same.2.trans alike.2⟩⟩))
  · have atMost := largest fact (List.mem_toFinset.mpr inRevisions)
    rw [Prod.Lex.toLex_le_toLex] at atMost
    rcases atMost with less | ⟨equal, -⟩
    · exact less.le
    · exact equal.le
end

section
variable (facts : VenueTradeFacts) (commandId : String)

/-- `fact` is left out because of the canonical fill `other`: `other` is an exact child
of the aggregate `fact`, or carries the trade that the alias `fact` was derived from. -/
def HiddenBehind (fact other : TradeFact) : Prop :=
  other ∈ canonicalTradeFactsForCommand facts commandId ∧
    other.isFill = true ∧
    ((fact.isTxAggregate = true ∧ exactChild fact other = true) ∨
      ∃ source ∈ facts.rows, aliasSource fact source = true ∧ source.tradeId = other.tradeId)

def fills : Set TradeFact :=
  {fact | fact ∈ canonicalTradeFactsForCommand facts commandId ∧ fact.isFill = true}

variable {facts commandId}

variable {fact : TradeFact}

theorem mem_economicTradeFactsForCommand : fact ∈ economicTradeFactsForCommand facts commandId ↔
      fact ∈ canonicalTradeFactsForCommand facts commandId ∧
      aggregateHidden (canonicalTradeFactsForCommand facts commandId) fact = false ∧
      aliasHidden facts.rows fact = false := by
  simp [economicTradeFactsForCommand, economicTradeFacts]

section
variable (member : fact ∈ canonicalTradeFactsForCommand facts commandId)

include member

theorem commandId_of_canonical : fact.commandId = commandId := by
  have hs := (mem_canonicalTradeFacts.mp member).1
  simpa using (List.mem_filter.mp hs).2

theorem exists_hiddenBehind_of_alias (hidden : aliasHidden facts.rows fact = true) :
    ∃ other, HiddenBehind facts commandId fact other := by
  obtain ⟨source, hs, names⟩ := List.any_eq_true.mp hidden
  have parts := names
  simp only [aliasSource, Bool.and_eq_true, beq_iff_eq] at parts
  obtain ⟨⟨⟨-, sameCmd⟩, -⟩, pos⟩ := parts
  have inCommand : source ∈ facts.forCommand commandId :=
    List.mem_filter.mpr ⟨hs, by simp [sameCmd, commandId_of_canonical member]⟩
  obtain ⟨chosen, inChosen, same, stronger⟩ := exists_canonical inCommand
  refine ⟨chosen, inChosen, ?_, .inr ⟨source, hs, names, (samePartition_iff.mp same).2⟩⟩
  exact isFill_iff_rank.mpr ((isFill_iff_rank.mp pos).trans stronger)

theorem mem_economic_iff_not_hidden : fact ∈ economicTradeFactsForCommand facts commandId ↔
      ∀ other, ¬ HiddenBehind facts commandId fact other := by
  rw [mem_economicTradeFactsForCommand]
  constructor
  · rintro ⟨-, noChild, noSource⟩ other ⟨inOther, -, ⟨agg, child⟩ | ⟨source, hs, names, -⟩⟩
    · simp only [aggregateHidden, agg, Bool.true_and] at noChild
      exact absurd child (by simpa using List.any_eq_false.mp noChild other inOther)
    · exact absurd names (by simpa using List.any_eq_false.mp noSource source hs)
  · intro visible
    refine ⟨member, Bool.eq_false_iff.mpr fun hidden => ?_, Bool.eq_false_iff.mpr fun hidden => ?_⟩
    · obtain ⟨agg, children⟩ := Bool.and_eq_true_iff.mp hidden
      obtain ⟨child, inChild, isChild⟩ := List.any_eq_true.mp children
      have pos : child.isFill = true := (Bool.and_eq_true_iff.mp isChild).2
      exact visible child ⟨inChild, pos, .inl ⟨agg, isChild⟩⟩
    · obtain ⟨other, behind⟩ := exists_hiddenBehind_of_alias member hidden
      exact visible other behind
end

theorem economic_fill_exists_iff :
    (∃ fact ∈ economicTradeFactsForCommand facts commandId, fact.isFill = true) ↔
      ∃ fact ∈ fills facts commandId, Sink.AcyclicFrom (HiddenBehind facts commandId) fact := by
  have finite : (fills facts commandId).Finite :=
    (canonicalTradeFactsForCommand facts commandId).finite_toSet.subset fun fact member => member.1
  rw [← Sink.exists_iff finite fun fact other behind => ⟨behind.1, behind.2.1⟩]
  constructor
  · rintro ⟨fact, member, pos⟩
    have canon := (mem_economicTradeFactsForCommand.mp member).1
    exact ⟨fact, ⟨canon, pos⟩, (mem_economic_iff_not_hidden canon).mp member⟩
  · rintro ⟨fact, ⟨canon, pos⟩, visible⟩
    exact ⟨fact, (mem_economic_iff_not_hidden canon).mpr visible, pos⟩

theorem economic_not_both {agg child : TradeFact}
    (first : agg ∈ economicTradeFactsForCommand facts commandId)
    (snd : child ∈ economicTradeFactsForCommand facts commandId) :
    ¬ (agg.isTxAggregate = true ∧ exactChild agg child = true) := by
  rintro ⟨isAggregate, isChild⟩
  have canon := (mem_economicTradeFactsForCommand.mp snd).1
  have pos : child.isFill = true := (Bool.and_eq_true_iff.mp isChild).2
  exact (mem_economic_iff_not_hidden (mem_economicTradeFactsForCommand.mp first).1).mp first child
    ⟨canon, pos, .inl ⟨isAggregate, isChild⟩⟩
end

/-- What deduplication owes a command: a recorded fill keeps a representative, and no
fill is returned both as an aggregate and as its exact child. -/
def KeepsFillsOnce (facts : VenueTradeFacts) (commandId : String) : Prop :=
  ((∃ fact ∈ canonicalTradeFactsForCommand facts commandId, fact.isFill = true) →
      ∃ fact ∈ economicTradeFactsForCommand facts commandId, fact.isFill = true) ∧
    ∀ aggregate ∈ economicTradeFactsForCommand facts commandId,
      ∀ child ∈ economicTradeFactsForCommand facts commandId,
        ¬ (aggregate.isTxAggregate = true ∧ exactChild aggregate child = true)

/-- The second half always holds; the first holds exactly when the recorded fills, if
any, include one from which hiding never runs into a cycle. -/
theorem keepsFillsOnce_iff (facts : VenueTradeFacts) (commandId : String) :
    KeepsFillsOnce facts commandId ↔
      ((fills facts commandId).Nonempty →
        ∃ fact ∈ fills facts commandId, Sink.AcyclicFrom (HiddenBehind facts commandId) fact) := by
  rw [← economic_fill_exists_iff]
  constructor
  · rintro ⟨kept, -⟩ ⟨fact, canon, pos⟩
    exact kept ⟨fact, canon, pos⟩
  · intro kept
    refine ⟨fun ⟨fact, canon, pos⟩ => kept ⟨fact, canon, pos⟩, ?_⟩
    intro agg first child snd
    exact economic_not_both first snd

/-- An EDLI fact and a later revision of it that names the first as its source: the
canonical row is the second, and it hides behind its own older revision. -/
def selfAliased : VenueTradeFacts where
  rows :=
    [⟨1, "edli:t1", "order-1", "command-1", .confirmed, 10, 1 / 2, none, none,
        "2026-01-01T00:00:00Z", 1, none⟩,
     ⟨2, "edli:t1", "order-1", "command-1", .confirmed, 10, 1 / 2, none, none,
       "2026-01-01T00:05:00Z", 2, some 1⟩]
  idUnique := by decide
  revisionUnique := by decide

theorem selfAliased_fill_vanishes : ¬ KeepsFillsOnce selfAliased "command-1" := by
  rintro ⟨kept, -⟩
  have none_left : economicTradeFactsForCommand selfAliased "command-1" = [] := by decide +kernel
  obtain ⟨fact, member, -⟩ := kept (by decide +kernel)
  simp [none_left] at member

inductive AliasRole
  | aliasedAggregate | standalone | childExact
  deriving DecidableEq

def aliasRole (canonical : List TradeFact) (fact : TradeFact) : AliasRole :=
  if fact.isTxAggregate && canonical.any (exactChild fact) then .aliasedAggregate
  else if fact.isTxAggregate then .standalone
  else .childExact

/-- `alias_edge_cte`: a tag for each canonical row. Payloads are not read here. -/
def aliasEdges (canonical : List TradeFact) : List (TradeFact × AliasRole) :=
  canonical.map fun fact => (fact, aliasRole canonical fact)

/-- `SELECT * FROM trade_fact_alias_edge WHERE alias_role != 'ALIASED_AGGREGATE'`. -/
def unaliasedTradeFacts (canonical : List TradeFact) : List TradeFact :=
  ((aliasEdges canonical).filter fun edge => edge.2 ≠ .aliasedAggregate).map Prod.fst

theorem aliasRole_eq_aliasedAggregate {canon : List TradeFact} {fact : TradeFact} :
    aliasRole canon fact = .aliasedAggregate ↔ aggregateHidden canon fact = true := by
  unfold aliasRole aggregateHidden
  split_ifs with hidden agg
  · exact iff_of_true rfl hidden
  · exact iff_of_false (by decide) hidden
  · exact iff_of_false (by decide) hidden

theorem unaliasedTradeFacts_eq (canon : List TradeFact) :
    unaliasedTradeFacts canon = canon.filter fun fact => !aggregateHidden canon fact := by
  unfold unaliasedTradeFacts aliasEdges
  rw [List.filter_map, List.map_map]
  have untagged : (Prod.fst ∘ fun fact => (fact, aliasRole canon fact)) = id := rfl
  rw [untagged, List.map_id]
  refine List.filter_congr fun fact _ => ?_
  rw [Function.comp_apply, Bool.eq_iff_iff]
  simp [aliasRole_eq_aliasedAggregate]

/-- The graph and the filter give the same rows exactly when every canonical row with a stored
source is a tx-hash rollup with an exact child of its own. -/
theorem alias_graph_agrees_iff (facts : VenueTradeFacts) (commandId : String) :
    economicTradeFacts facts.rows (canonicalTradeFactsForCommand facts commandId) =
      unaliasedTradeFacts (canonicalTradeFactsForCommand facts commandId) ↔
      ∀ fact ∈ canonicalTradeFactsForCommand facts commandId, ∀ source ∈ facts.rows,
      aliasSource fact source = true → fact.isTxAggregate = true ∧
      ∃ child ∈ canonicalTradeFactsForCommand facts commandId, exactChild fact child = true := by
  rw [unaliasedTradeFacts_eq, economicTradeFacts]
  constructor
  · intro same fact member source hs names
    have kept : fact ∉ (canonicalTradeFactsForCommand facts commandId).filter fun row =>
        !aggregateHidden (canonicalTradeFactsForCommand facts commandId) row := by
      rw [← same, List.mem_filter]
      rintro ⟨-, visible⟩
      have hidden : aliasHidden facts.rows fact = true := List.any_eq_true.mpr ⟨source, hs, names⟩
      simp [hidden] at visible
    have hidden : aggregateHidden (canonicalTradeFactsForCommand facts commandId) fact = true := by
      by_contra visible
      exact kept (List.mem_filter.mpr ⟨member, by simpa using visible⟩)
    obtain ⟨agg, children⟩ := Bool.and_eq_true_iff.mp hidden
    exact ⟨agg, List.any_eq_true.mp children⟩
  · intro rollups
    refine List.filter_congr fun fact member => ?_
    cases hidden : aliasHidden facts.rows fact with
    | false => simp
    | true =>
      obtain ⟨source, hs, names⟩ := List.any_eq_true.mp hidden
      obtain ⟨agg, child⟩ := rollups fact member source hs names
      have behind : aggregateHidden (canonicalTradeFactsForCommand facts commandId) fact = true :=
        Bool.and_eq_true_iff.mpr ⟨agg, List.any_eq_true.mpr child⟩
      simp [behind]

def derivedAlias : VenueTradeFacts where
  rows :=
    [⟨1, "t1", "order-1", "command-1", .confirmed, 10, 1 / 2, none, none, "2026-01-01T00:00:00Z", 1,
        none⟩,
     ⟨2, "edli:t1", "order-1", "command-1", .confirmed, 10, 1 / 2, none, none,
       "2026-01-01T00:05:00Z", 1, some 1⟩]
  idUnique := by decide
  revisionUnique := by decide

/-- Both rows are exact children in the graph, and the filter drops the second. -/
theorem derivedAlias_graph_disagrees :
    economicTradeFacts derivedAlias.rows (canonicalTradeFactsForCommand derivedAlias "command-1") ≠
      unaliasedTradeFacts (canonicalTradeFactsForCommand derivedAlias "command-1") := by
  decide +kernel

end Zeus.FillDedup
