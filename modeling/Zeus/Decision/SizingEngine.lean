import Zeus.Decision.ThinBook
import Zeus.Lib.Grouping
import Zeus.Strategy.UtilityRanker

/-! `_PreparedSizing` as matrix code: growth vectors written by groups of equal wealth, one column
for each stake, masks for what the curve cannot fill and for what ruins. -/

namespace Zeus.PayoffVector

open CheckedFold Quantile Refusal

section
variable {α : Type} [Field α] [LinearOrder α] {width : ℕ}

def drawEntry (draw : Draw α width) (omega : List String) (outcome : String) :
    Except PayoffError α :=
  match binIndex omega outcome with
  | none => .error (.matrixBinNotInOmega outcome)
  | some column => (draw.masses[column]?).elim (.error .columnOutOfRange) .ok

def drawToPi (draw : Draw α width) (omega : List String) (matrix : FamilyPayoffMatrix) :
    Except PayoffError (OutcomePi α) := do
  let masses ← matrix.bins.mapM (drawEntry draw omega)
  return matrix.bins.zip masses ++ [(outsideOutcome, max 0 (1 - masses.sum))]

/-- The entries of `_candidate_guarded_pi`: the candidate's own bin, then the others with what is
left. -/
def guardedEntries (candidate : NativeSideCandidate α) (matrix : FamilyPayoffMatrix)
    (basePi : OutcomePi α) (guarded : α) : OutcomePi α :=
  let others := matrix.outcomes.filter (· ≠ candidate.binId)
  let ownMass := if candidate.side = .yes then guarded else 1 - guarded
  let otherMass := if candidate.side = .yes then 1 - guarded else guarded
  let otherTotal := (others.map basePi.get).sum
  (candidate.binId, ownMass) ::
    if otherTotal ≤ 0 then OutcomePi.over others fun _ => otherMass / others.length
    else OutcomePi.over others fun outcome => otherMass * basePi.get outcome / otherTotal

def candidateGuardedPi (candidate : NativeSideCandidate α) (matrix : FamilyPayoffMatrix)
    (basePi : OutcomePi α) (guarded : α) : Except PayoffError (OutcomePi α) := do
  guardBy (require (0 ≤ guarded ∧ guarded ≤ 1) .degenerateGuard)
  guardBy (require (candidate.binId ∈ matrix.outcomes) .candidateBinNotOutcome)
  guardBy (require (matrix.outcomes.filter (· ≠ candidate.binId) ≠ []) .noOtherOutcome)
  let eff := guardedEntries candidate matrix basePi guarded
  let total := (eff.map Prod.snd).sum
  guardBy (require (0 < total) .guardedPiDegenerate)
  let eff :=
    if (piTolerance : α) < |total - 1| then eff.map fun entry => (entry.1, entry.2 / total) else eff
  return .over matrix.outcomes (OutcomePi.get eff)

def scalarPi (candidate : NativeSideCandidate α) (omega : List String)
    (matrix : FamilyPayoffMatrix) (guarded : Option α)
      (draw : Draw α width) : Except PayoffError (OutcomePi α) :=
  do
  let pi ← drawToPi draw omega matrix
  match guarded with
  | none => effectiveOutcomePi candidate matrix pi
  | some q => candidateGuardedPi candidate matrix pi q
end

section
variable {α : Type} [Field α] [LinearOrder α]

/-- `_wealth_groups`: for each wealth the positions of the outcomes that win and of those that
lose. -/
def PreparedSizing.wealthGroups (prepared : PreparedSizing α) :
    List (Set.Ioi (0 : α) × List ℕ × List ℕ) :=
  (Grouping.group (fun item => item.1.2) prepared.holdings.zipIdx).map fun group =>
    (group.1, (group.2.filter fun item => candidateWins prepared.candidate item.1.1).map Prod.snd,
      (group.2.filter fun item => !candidateWins prepared.candidate item.1.1).map Prod.snd)

/-- Wealth, payoff and positions of every turn of the double loop of `_growth_at`. -/
def PreparedSizing.payoffBlocks (prepared : PreparedSizing α) (terms : α × α) :
    List (Set.Ioi (0 : α) × α × List ℕ) :=
  prepared.wealthGroups.flatMap fun group =>
    [(group.1, terms.1, group.2.1), (group.1, terms.2, group.2.2)]
end

def setAll {β : Type*} (values : List β) (positions : List ℕ) (value : β) : List β :=
  positions.foldl (fun values position => values.set position value) values

noncomputable section

def writeGrowth (state : List ℝ × List Bool) (block : Set.Ioi (0 : ℝ) × ℝ × List ℕ) :
    List ℝ × List Bool :=
  if block.2.2 = [] then state
  else if block.1 + block.2.1 ≤ 0 then (state.1, setAll state.2 block.2.2 true)
  else (setAll state.1 block.2.2 (Real.log (block.1 + block.2.1) - Real.log (block.1 : ℝ)), state.2)

def PreparedSizing.blank (prepared : PreparedSizing ℝ) : List ℝ × List Bool :=
  (List.replicate prepared.holdings.length 0, List.replicate prepared.holdings.length false)

/-- `_growth_at`: growth and ruin by outcome, nothing where the stake has no price. -/
def PreparedSizing.growthAt (prepared : PreparedSizing ℝ) (stakeUsd : ℝ) :
    Option (List ℝ × List Bool) :=
  match payoffTerms prepared.candidate stakeUsd with
  | .error _ => none
  | .ok terms => some ((prepared.payoffBlocks terms).foldl writeGrowth prepared.blank)

/-- `_Pi`: a row for each draw, a column for each outcome. -/
def PreparedSizing.piRows (prepared : PreparedSizing ℝ) : List (List ℝ) :=
  prepared.laws.map fun law => prepared.holdings.map fun holding => law.mass holding.1

def contract (row growth : List ℝ) : ℝ := (List.zipWith (· * ·) row growth).sum

def givesRuin (ruin : List Bool) (row : List ℝ) : Bool :=
  (ruin.zip row).any fun entry => entry.1 && decide (0 < entry.2)

/-- `np.where(bad, -np.inf, du)`. -/
def maskRuined (bad : List Bool) (du : List (WithBot ℝ)) : List (WithBot ℝ) :=
  List.zipWith (fun lost value => if lost then ⊥ else value) bad du

section
variable {V : Type*} (q : List (WithBot ℝ) → V) (unpriced : V)

/-- `robust_at` over any quantile `q`, with the answer for a stake that has no price. -/
def PreparedSizing.robustAtBy (prepared : PreparedSizing ℝ) (stakeUsd : ℝ) : V :=
  match prepared.growthAt stakeUsd with
  | none => unpriced
  | some (growth, ruin) =>
    let du := prepared.piRows.map fun row => ((contract row growth : ℝ) : WithBot ℝ)
    if ruin.any id then
      let bad := prepared.piRows.map (givesRuin ruin)
      if bad.any id then q (maskRuined bad du) else q du
    else q du

structure StakeColumn where
  invalid : Bool
  ruin : List Bool
  du : List (WithBot ℝ)

def PreparedSizing.stakeColumn (prepared : PreparedSizing ℝ) (stakeUsd : ℝ) : StakeColumn :=
  match prepared.growthAt stakeUsd with
  | none => ⟨true, prepared.blank.2, prepared.piRows.map fun _ => ⊥⟩
  | some (growth, ruin) =>
    ⟨false, ruin, prepared.piRows.map fun row => ((contract row growth : ℝ) : WithBot ℝ)⟩

namespace StakeColumn

variable (rows : List (List ℝ)) (column : StakeColumn)

def bad : List Bool := rows.map (givesRuin column.ruin)

def affected : Bool := column.ruin.any id && !column.invalid && (column.bad rows).any id

def allRuin : Bool := column.affected rows && (column.bad rows).all id

/-- The writes to `values` for this column, the last one first. -/
def value : V :=
  if column.affected rows && !column.allRuin rows then q (maskRuined (column.bad rows) column.du)
  else if !(column.invalid || column.affected rows) then q column.du
  else if column.allRuin rows then q (List.replicate rows.length ⊥)
  else unpriced

end StakeColumn

/-- `robust_many` over any quantile `q`. -/
def PreparedSizing.robustManyBy (prepared : PreparedSizing ℝ) (stakesUsd : List ℝ) : List V :=
  let columns := stakesUsd.map prepared.stakeColumn
  if !columns.any StakeColumn.invalid && !columns.any fun column => column.ruin.any id then
    columns.map fun column => q column.du
  else columns.map (StakeColumn.value q unpriced prepared.piRows)
end

def PreparedSizing.robustAtRows (prepared : PreparedSizing ℝ) (stakeUsd : ℝ) : WithBot ℝ :=
  prepared.robustAtBy (fun values => quantile values prepared.alpha) ⊥ stakeUsd

def PreparedSizing.robustMany (prepared : PreparedSizing ℝ) (stakesUsd : List ℝ) :
    List (WithBot ℝ) :=
  prepared.robustManyBy (fun values => quantile values prepared.alpha) ⊥ stakesUsd
end

section
theorem getElem?_setAll {β : Type*} {vs : List β} {posns : List ℕ} {value : β} (j : ℕ) :
    (setAll vs posns value)[j]? = if j ∈ posns then vs[j]?.map fun _ => value else vs[j]? := by
  induction posns generalizing vs with
  | nil => rfl
  | cons position posns ih =>
    rw [setAll, List.foldl_cons]
    change (setAll (vs.set position value) posns value)[j]? = _
    rw [ih, List.getElem?_set]
    grind

theorem length_setAll {β : Type*} {vs : List β} {posns : List ℕ} {value : β} :
    (setAll vs posns value).length = vs.length := by
  induction posns generalizing vs with
  | nil => rfl
  | cons position posns ih =>
    have tail := @ih (vs.set position value)
    rwa [List.length_set] at tail

theorem length_foldl_writeGrowth (blocks : List (Set.Ioi (0 : ℝ) × ℝ × List ℕ))
    (state : List ℝ × List Bool) :
    (blocks.foldl writeGrowth state).1.length = state.1.length ∧
    (blocks.foldl writeGrowth state).2.length = state.2.length := by
  induction blocks generalizing state with
  | nil => exact ⟨rfl, rfl⟩
  | cons block blocks ih =>
    rw [List.foldl_cons, (ih _).1, (ih _).2]
    unfold writeGrowth
    split_ifs <;> simp [length_setAll]

def valuesAt (j : ℕ) (state : List ℝ × List Bool) : Option ℝ × Option Bool :=
  (state.1[j]?, state.2[j]?)

noncomputable def written (wealth settledWealth : ℝ) : Option ℝ × Option Bool :=
  if settledWealth ≤ 0 then (some 0, some true)
  else (some (Real.log settledWealth - Real.log wealth), some false)

variable {j : ℕ} {wealth settledWealth : ℝ} {state : List ℝ × List Bool}

theorem valuesAt_writeGrowth {block : Set.Ioi (0 : ℝ) × ℝ × List ℕ}
    (ready : valuesAt j state = (some 0, some false) ∨
      valuesAt j state = written wealth settledWealth)
    (agree : j ∈ block.2.2 → (block.1 : ℝ) = wealth ∧ block.1 + block.2.1 = settledWealth) :
    valuesAt j (writeGrowth state block) =
      if j ∈ block.2.2 then written wealth settledWealth else valuesAt j state := by
  by_cases named : j ∈ block.2.2
  · obtain ⟨isWealth, isSettled⟩ := agree named
    have some_position : block.2.2 ≠ [] := List.ne_nil_of_mem named
    rw [if_pos named]
    unfold writeGrowth
    rw [if_neg some_position, isSettled, isWealth]
    by_cases ruined : settledWealth ≤ 0
    · simp only [valuesAt, written, ruined, if_true, getElem?_setAll, named, Prod.mk.injEq]
        at ready ⊢
      rcases ready with ⟨growth, ruin⟩ | ⟨growth, ruin⟩ <;> simp [growth, ruin]
    · simp only [valuesAt, written, ruined, if_false, if_true, getElem?_setAll, named,
        Prod.mk.injEq] at ready ⊢
      rcases ready with ⟨growth, ruin⟩ | ⟨growth, ruin⟩ <;> simp [growth, ruin]
  · rw [if_neg named]
    unfold writeGrowth
    split_ifs <;> simp [valuesAt, getElem?_setAll, named]

/-- The blocks that name a position agree on it, so one write is as good as many. -/
theorem valuesAt_foldl_writeGrowth {blocks : List (Set.Ioi (0 : ℝ) × ℝ × List ℕ)}
    (ready : valuesAt j state = (some 0, some false) ∨
      valuesAt j state = written wealth settledWealth)
    (agree : ∀ block ∈ blocks, j ∈ block.2.2 →
        (block.1 : ℝ) = wealth ∧ block.1 + block.2.1 = settledWealth)
    (hr : (∃ block ∈ blocks, j ∈ block.2.2) ∨ valuesAt j state = written wealth settledWealth) :
    valuesAt j (blocks.foldl writeGrowth state) = written wealth settledWealth := by
  induction blocks generalizing state with
  | nil => simpa using hr
  | cons block blocks ih =>
    have step := valuesAt_writeGrowth ready (agree block List.mem_cons_self)
    have later (other : Set.Ioi (0 : ℝ) × ℝ × List ℕ) (mem : other ∈ blocks) :=
      agree other (List.mem_cons_of_mem block mem)
    by_cases named : j ∈ block.2.2
    · rw [if_pos named] at step
      exact ih (.inr step) later (.inr step)
    · rw [if_neg named] at step
      refine ih (step ▸ ready) later ?_
      rw [step]
      refine hr.imp_left ?_
      rintro ⟨other, mem, names⟩
      rcases List.mem_cons.mp mem with rfl | inRest
      · exact absurd names named
      · exact ⟨other, inRest, names⟩

variable {prepared : PreparedSizing ℝ} {terms : ℝ × ℝ} {holding : String × Set.Ioi (0 : ℝ)}

theorem mem_payoffBlocks (hf : prepared.holdings[j]? = some holding)
    {block : Set.Ioi (0 : ℝ) × ℝ × List ℕ} (mem : block ∈ prepared.payoffBlocks terms)
    (named : j ∈ block.2.2) :
    block.1 = holding.2 ∧
    block.2.1 = if candidateWins prepared.candidate holding.1 then terms.1 else terms.2 := by
  obtain ⟨group, inGroups, inBlocks⟩ := List.mem_flatMap.mp mem
  obtain ⟨src, inSource, rfl⟩ := List.mem_map.mp inGroups
  have own (item : (String × Set.Ioi (0 : ℝ)) × ℕ) (inItems : item ∈ src.2) (isItem : item.2 = j) :
      item.1 = holding ∧ src.1 = holding.2 := by
    obtain ⟨inHoldings, isWealth⟩ := Grouping.holds_group.mp ⟨src.2, inSource, inItems⟩
    have at_j := List.mem_zipIdx_iff_getElem?.mp inHoldings
    rw [isItem, hf, Option.some_inj] at at_j
    exact ⟨at_j.symm, by rw [← isWealth, ← at_j]⟩
  rw [List.mem_pair] at inBlocks
  obtain rfl | rfl := inBlocks
  · obtain ⟨item, kept, isItem⟩ := List.mem_map.mp named
    obtain ⟨inItems, wins⟩ := List.mem_filter.mp kept
    obtain ⟨rfl, isWealth⟩ := own item inItems isItem
    exact ⟨isWealth, by rw [if_pos wins]⟩
  · obtain ⟨item, kept, isItem⟩ := List.mem_map.mp named
    obtain ⟨inItems, loses⟩ := List.mem_filter.mp kept
    obtain ⟨rfl, isWealth⟩ := own item inItems isItem
    exact ⟨isWealth, by rw [if_neg (by simpa using loses)]⟩

theorem exists_payoffBlock (hf : prepared.holdings[j]? = some holding) :
    ∃ block ∈ prepared.payoffBlocks terms, j ∈ block.2.2 := by
  have inHoldings : (holding, j) ∈ prepared.holdings.zipIdx := List.mem_zipIdx_iff_getElem?.mpr hf
  obtain ⟨items, inGroups, inItems⟩ :
      Grouping.Holds (Grouping.group (fun item => item.1.2) prepared.holdings.zipIdx) holding.2
        (holding, j) :=
    Grouping.holds_group.mpr ⟨inHoldings, rfl⟩
  by_cases wins : candidateWins prepared.candidate holding.1 = true
  · refine ⟨_, List.mem_flatMap.mpr ⟨_, List.mem_map_of_mem inGroups, List.mem_cons_self⟩, ?_⟩
    exact List.mem_map.mpr ⟨_, List.mem_filter.mpr ⟨inItems, wins⟩, rfl⟩
  · refine ⟨_,
      List.mem_flatMap.mpr
        ⟨_, List.mem_map_of_mem inGroups, List.mem_cons_of_mem _ List.mem_cons_self⟩, ?_⟩
    exact List.mem_map.mpr ⟨_, List.mem_filter.mpr ⟨inItems, by simpa using wins⟩, rfl⟩

theorem written_eq (candidate : NativeSideCandidate ℝ) :
    written holding.2 (settled candidate terms holding) =
      (some (outcomeGrowth candidate terms holding),
        some (decide (settled candidate terms holding ≤ 0))) := by
  unfold written outcomeGrowth
  split_ifs with ruined <;> simp [ruined]

theorem valuesAt_payoffBlocks (hf : prepared.holdings[j]? = some holding) :
    valuesAt j ((prepared.payoffBlocks terms).foldl writeGrowth prepared.blank) =
      (some (outcomeGrowth prepared.candidate terms holding),
      some (decide (settled prepared.candidate terms holding ≤ 0))) := by
  have hin : j < prepared.holdings.length := (List.getElem?_eq_some_iff.mp hf).1
  have start : valuesAt j prepared.blank = (some 0, some false) := by
    simp [valuesAt, PreparedSizing.blank, hin]
  rw [← written_eq]
  refine valuesAt_foldl_writeGrowth (.inl start) ?_ (.inl (exists_payoffBlock hf))
  intro block mem named
  obtain ⟨isWealth, isPayoff⟩ := mem_payoffBlocks hf mem named
  rw [isWealth, isPayoff]
  exact ⟨rfl, rfl⟩

theorem growthAt_eq (prepared : PreparedSizing ℝ) (stake : ℝ) :
    prepared.growthAt stake =
      (payoffTerms prepared.candidate stake).toOption.map fun terms => (prepared.holdings.map
            (outcomeGrowth prepared.candidate terms),
          prepared.holdings.map fun holding =>
            decide (settled prepared.candidate terms holding ≤ 0)) := by
  unfold PreparedSizing.growthAt
  cases payoffTerms prepared.candidate stake with
  | error error => rfl
  | ok terms =>
    obtain ⟨growthLength, ruinLength⟩ :=
      length_foldl_writeGrowth (prepared.payoffBlocks terms) prepared.blank
    rw [PreparedSizing.blank, List.length_replicate] at growthLength ruinLength
    refine congrArg some (Prod.ext (List.ext_getElem? fun j => ?_) (List.ext_getElem? fun j => ?_))
    · rw [List.getElem?_map]
      cases hf : prepared.holdings[j]? with
      | none =>
        exact List.getElem?_eq_none (growthLength.trans_le (List.getElem?_eq_none_iff.mp hf))
      | some holding => exact congrArg Prod.fst (valuesAt_payoffBlocks hf)
    · rw [List.getElem?_map]
      cases hf : prepared.holdings[j]? with
      | none => exact List.getElem?_eq_none (ruinLength.trans_le (List.getElem?_eq_none_iff.mp hf))
      | some holding => exact congrArg Prod.snd (valuesAt_payoffBlocks hf)
end

section
variable {growth : List ℝ} {ruin : List Bool} {rows : List (List ℝ)}

noncomputable def rowValue (growth : List ℝ) (ruin : List Bool) (row : List ℝ) : WithBot ℝ :=
  if givesRuin ruin row then ⊥ else (contract row growth : ℝ)

theorem maskRuined_eq :
    maskRuined (rows.map (givesRuin ruin))
      (rows.map fun row => ((contract row growth : ℝ) : WithBot ℝ)) =
      rows.map (rowValue growth ruin) := by
  rw [maskRuined, List.zipWith_map, List.zipWith_self]
  rfl

theorem rowValue_of_safe (safe : ¬ (rows.map (givesRuin ruin)).any id = true) :
    (rows.map fun row => ((contract row growth : ℝ) : WithBot ℝ)) =
      rows.map (rowValue growth ruin) := by
  refine List.map_congr_left fun row mem => (if_neg ?_).symm
  intro ruins
  exact safe (List.any_eq_true.mpr ⟨true, List.mem_map.mpr ⟨row, mem, ruins⟩, rfl⟩)

theorem safe_of_no_ruin (none_lost : ¬ ruin.any id = true) :
    ¬ (rows.map (givesRuin ruin)).any id = true := by
  intro ruined
  obtain ⟨_, mem, ruins⟩ := List.any_eq_true.mp ruined
  obtain ⟨row, -, rfl⟩ := List.mem_map.mp mem
  obtain ⟨entry, inRow, both⟩ := List.any_eq_true.mp ruins
  exact none_lost (List.any_eq_true.mpr
      ⟨entry.1, (List.of_mem_zip inRow).1, (Bool.and_eq_true_iff.mp both).1⟩)

theorem rowValue_of_all (all : (rows.map (givesRuin ruin)).all id = true) :
    rows.map (rowValue growth ruin) = List.replicate rows.length ⊥ := by
  refine List.eq_replicate_iff.mpr ⟨List.length_map _, fun value mem => ?_⟩
  obtain ⟨row, inRows, rfl⟩ := List.mem_map.mp mem
  exact if_pos (List.all_eq_true.mp all _ (List.mem_map_of_mem inRows))
end

section
variable {V : Type*} {q : List (WithBot ℝ) → V} {unpriced : V} {prepared : PreparedSizing ℝ}
  {stake : ℝ}

theorem robustAtBy_eq :
    prepared.robustAtBy q unpriced stake =
      (prepared.growthAt stake).elim unpriced fun hf =>
        q (prepared.piRows.map (rowValue hf.1 hf.2)) := by
  unfold PreparedSizing.robustAtBy
  cases prepared.growthAt stake with
  | none => rfl
  | some hf =>
    dsimp only
    split_ifs with lost ruined
    · rw [maskRuined_eq]
      rfl
    · rw [rowValue_of_safe ruined]
      rfl
    · rw [rowValue_of_safe (safe_of_no_ruin lost)]
      rfl

theorem stakeColumn_value :
    (prepared.stakeColumn stake).value q unpriced prepared.piRows =
      prepared.robustAtBy q unpriced stake := by
  rw [robustAtBy_eq]
  unfold PreparedSizing.stakeColumn
  cases prepared.growthAt stake with
  | none => simp [StakeColumn.value, StakeColumn.affected, StakeColumn.allRuin]
  | some hf =>
    obtain ⟨growth, ruin⟩ := hf
    dsimp only [Option.elim_some]
    by_cases affected : (StakeColumn.mk false ruin
        (prepared.piRows.map fun row => ((contract row growth : ℝ) : WithBot ℝ))).affected
          prepared.piRows = true
    · by_cases all : (prepared.piRows.map (givesRuin ruin)).all id = true
      · rw [rowValue_of_all all]
        simp [StakeColumn.value, StakeColumn.allRuin, StakeColumn.bad, affected, all]
      · rw [← maskRuined_eq]
        simp [StakeColumn.value, StakeColumn.allRuin, StakeColumn.bad, affected, all]
    · have safe : ¬ (prepared.piRows.map (givesRuin ruin)).any id = true := by
        intro ruined
        have lost : ruin.any id = true :=
          not_not.mp fun none_lost => safe_of_no_ruin none_lost ruined
        exact affected (by simp [StakeColumn.affected, StakeColumn.bad, lost, ruined])
      rw [← rowValue_of_safe safe]
      simp [StakeColumn.value, StakeColumn.allRuin, affected]

theorem StakeColumn.value_of_plain {column : StakeColumn} {rows : List (List ℝ)}
    (valid : column.invalid = false) (whole : column.ruin.any id = false) :
    column.value q unpriced rows = q column.du := by
  simp [StakeColumn.value, StakeColumn.allRuin, StakeColumn.affected, valid, whole]

theorem robustManyBy_eq (stakes : List ℝ) :
    prepared.robustManyBy q unpriced stakes = stakes.map (prepared.robustAtBy q unpriced) := by
  unfold PreparedSizing.robustManyBy
  dsimp only
  rw [List.map_map, List.map_map]
  split_ifs with plain
  · refine List.map_congr_left fun stake mem => ?_
    have inColumns : prepared.stakeColumn stake ∈ stakes.map prepared.stakeColumn :=
      List.mem_map_of_mem mem
    obtain ⟨valid, whole⟩ := Bool.and_eq_true_iff.mp plain
    rw [Bool.not_eq_true', List.any_eq_false] at valid whole
    rw [← stakeColumn_value,
      StakeColumn.value_of_plain (Bool.eq_false_of_not_eq_true (valid _ inColumns))
      (Bool.eq_false_of_not_eq_true (whole _ inColumns))]
    rfl
  · exact List.map_congr_left fun stake _ => stakeColumn_value

theorem rowValue_law (terms : ℝ × ℝ) (law : Law ℝ) :
    rowValue (prepared.holdings.map (outcomeGrowth prepared.candidate terms))
      (prepared.holdings.map fun holding => decide (settled prepared.candidate terms holding ≤ 0))
      (prepared.holdings.map fun holding => law.mass holding.1) =
      prepared.drawGrowth terms law := by
  have ruins : givesRuin
      (prepared.holdings.map fun holding => decide (settled prepared.candidate terms holding ≤ 0))
      (prepared.holdings.map fun holding => law.mass holding.1) = true ↔
      ∃ holding ∈ prepared.holdings, settled prepared.candidate terms holding ≤ 0 ∧
        0 < law.mass holding.1 := by
    simp [givesRuin, List.zip_map', List.any_map]
  have product : contract (prepared.holdings.map fun holding => law.mass holding.1)
      (prepared.holdings.map (outcomeGrowth prepared.candidate terms)) =
      (prepared.holdings.map fun holding =>
        law.mass holding.1 * outcomeGrowth prepared.candidate terms holding).sum := by
    rw [contract, List.zipWith_map, List.zipWith_self]
  unfold rowValue PreparedSizing.drawGrowth
  rw [product]
  simp only [ruins]

/-- The matrix code answers as the model of `robust_at` that takes the outcomes one by one. -/
theorem robustAtBy_quantile :
    prepared.robustAtBy (fun vs => quantile vs prepared.alpha) ⊥ stake =
      prepared.robustAt stake := by
  rw [robustAtBy_eq, growthAt_eq]
  unfold PreparedSizing.robustAt
  cases payoffTerms prepared.candidate stake with
  | error error => rfl
  | ok terms =>
    simp only [Except.toOption, Option.map_some, Option.elim_some, PreparedSizing.piRows,
      List.map_map]
    refine congrArg (fun vs => quantile vs (prepared.alpha : ℝ))
      (List.map_congr_left fun law _ => ?_)
    exact rowValue_law terms law
end

section
variable {candidate : NativeSideCandidate ℝ} {exposure : PortfolioExposureVector ℝ}
  {matrix : FamilyPayoffMatrix}
  {pi : OutcomePi ℝ} {law : Law ℝ} {terms : ℝ × ℝ}

def Agrees (pi : OutcomePi ℝ) (law : Law ℝ) (outcomes : List String) : Prop :=
  ∀ outcome ∈ outcomes, pi.get outcome = law.mass outcome

open Classical in
theorem deltaULoop_eq {outcomes : List String} {wealth : List (Set.Ioi (0 : ℝ))}
    (known : outcomes.mapM exposure.a = .ok wealth) (agrees : Agrees pi law outcomes) (total : ℝ) :
    deltaULoop candidate terms pi exposure total outcomes =
      if ∃ holding ∈ outcomes.zip wealth,
          settled candidate terms holding ≤ 0 ∧ 0 < law.mass holding.1 then ⊥
      else ((total + ((outcomes.zip wealth).map fun holding =>
        law.mass holding.1 * outcomeGrowth candidate terms holding).sum : ℝ) : WithBot ℝ) := by
  induction outcomes generalizing wealth total with
  | nil => simp [deltaULoop]
  | cons out outcomes ih =>
    rw [List.mapM_cons, bind_eq_ok] at known
    obtain ⟨own, isOwn, known⟩ := known
    obtain ⟨others, rest, known⟩ := bind_eq_ok.mp known
    cases known
    have tail := @ih others rest fun other mem => agrees other (List.mem_cons_of_mem out mem)
    have mass := agrees out List.mem_cons_self
    rw [deltaULoop, mass]
    by_cases wless : law.mass out ≤ 0
    · have zero : law.mass out = 0 := le_antisymm wless (law.nonneg out)
      rw [if_pos wless, tail]
      simp [zero]
    · have weighty := not_le.mp wless
      rw [if_neg wless, isOwn]
      dsimp only
      by_cases ruined : settled candidate terms (out, own) ≤ 0
      · exact (if_pos ruined).trans (if_pos ⟨(out, own), List.mem_cons_self, ruined, weighty⟩).symm
      · have growth : outcomeGrowth candidate terms (out, own) =
            Real.log (settled candidate terms (out, own)) - Real.log (own : ℝ) := if_neg ruined
        refine (if_neg ruined).trans ?_
        rw [tail]
        simp only [List.zip_cons_cons, List.exists_mem_cons_iff, ruined, false_and, false_or,
          List.map_cons, List.sum_cons, growth, add_assoc]
        rfl

theorem deltaUAtStake_eq {prepared : PreparedSizing ℝ} {wealth : List (Set.Ioi (0 : ℝ))}
    (known : matrix.outcomes.mapM exposure.a = .ok wealth)
    (isHoldings : prepared.holdings = matrix.outcomes.zip wealth)
    (agrees : Agrees pi law matrix.outcomes) (stake : ℝ) :
    deltaUAtStake prepared.candidate matrix pi exposure stake =
      (payoffTerms prepared.candidate stake).toOption.elim ⊥ fun terms =>
        prepared.drawGrowth terms law := by
  unfold deltaUAtStake
  cases payoffTerms prepared.candidate stake with
  | error error => rfl
  | ok terms =>
    refine (deltaULoop_eq known agrees 0).trans ?_
    rw [zero_add, ← isHoldings]
    rfl
end

section
variable {candidate : NativeSideCandidate ℝ} {omega : List String} {matrix : FamilyPayoffMatrix}
  {width : ℕ}
  {draw : Draw ℝ width} {pi : OutcomePi ℝ} {law : Law ℝ}

noncomputable def anchoredLaw (candidate : NativeSideCandidate ℝ) (matrix : FamilyPayoffMatrix)
    (winMass : Set.Icc (0 : ℝ) 1) (law : Law ℝ) : Law ℝ :=
  law.reanchor candidate.binId (matrix.outcomes.filter (· ≠ candidate.binId))
    (if candidate.side = .yes then winMass else complement winMass)
    (if candidate.side = .yes then complement winMass else winMass)

theorem anchoredLaw_own (q : Set.Icc (0 : ℝ) 1) (law : Law ℝ) :
    (anchoredLaw candidate matrix q law).mass candidate.binId =
      if candidate.side = .yes then (q : ℝ) else 1 - q := by
  simp [anchoredLaw, Law.reanchor, complement, apply_ite Subtype.val]

theorem anchoredLaw_other (q : Set.Icc (0 : ℝ) 1) (law : Law ℝ) {out : String}
    (differs : out ≠ candidate.binId) :
    (anchoredLaw candidate matrix q law).mass out =
      if ((matrix.outcomes.filter (· ≠ candidate.binId)).map law.mass).sum ≤ 0 then
        (if candidate.side = .yes then 1 - (q : ℝ) else q) /
          (matrix.outcomes.filter (· ≠ candidate.binId)).length
      else
        (if candidate.side = .yes then 1 - (q : ℝ) else q) * law.mass out /
          ((matrix.outcomes.filter (· ≠ candidate.binId)).map law.mass).sum := by
  simp only [anchoredLaw, Law.reanchor, complement, apply_ite Subtype.val, if_neg differs]
  by_cases hno : ((matrix.outcomes.filter (· ≠ candidate.binId)).map law.mass).sum ≤ 0
  · rw [if_neg hno.not_gt, if_pos hno]
  · rw [if_pos (not_le.mp hno), if_neg hno]
    ring

/-- What `_candidate_pi_matrix` makes of one row. -/
noncomputable def candidateLaw (candidate : NativeSideCandidate ℝ) (matrix : FamilyPayoffMatrix)
    (qLcb : Set.Icc (0 : ℝ) 1) : Option (Set.Icc (0 : ℝ) 1) → Law ℝ → Law ℝ
  | none, law => if candidate.side = .yes then law else anchoredLaw candidate matrix qLcb law
  | some q, law => (anchoredLaw candidate matrix q law).renormalize matrix.outcomes

structure LawChecks (candidate : NativeSideCandidate ℝ) (band : JointQBand ℝ) (omega : List String)
    (matrix : FamilyPayoffMatrix) (qLcb : Set.Icc (0 : ℝ) 1)
      (guard : Option (Set.Icc (0 : ℝ) 1)) : Prop where
  bound : candidate.qLcb = some qLcb
  tradeable : candidate.isTradeable = true
  ownBin : candidate.binId ∈ matrix.outcomes
  inOmega : ∀ outcome ∈ matrix.bins, ∃ column, binIndex omega outcome = some column ∧
    column < band.width
  others : ¬ (candidate.side = .yes ∧ guard = none) →
    matrix.outcomes.filter (· ≠ candidate.binId) ≠ []
  massive : ∀ q ∈ guard, ∀ draw ∈ band.samples,
    0 < (anchoredLaw candidate matrix q (draw.law omega matrix)).total matrix.outcomes

theorem validateGuardedPayoffQLcb_ok {grd : Option ℝ} {guard : Option (Set.Icc (0 : ℝ) 1)}
    (valid : validateGuardedPayoffQLcb grd = .ok guard) : grd = guard.map Subtype.val := by
  unfold validateGuardedPayoffQLcb at valid
  cases grd with
  | none =>
    cases valid
    rfl
  | some q =>
    simp only at valid
    split_ifs at valid
    cases valid
    rfl

theorem candidatePiMatrix_ok {band : JointQBand ℝ} {grd : Option ℝ} {laws : List (Law ℝ)}
    (made : candidatePiMatrix candidate band omega matrix grd = .ok laws) :
    ∃ qLcb guard, LawChecks candidate band omega matrix qLcb guard ∧
      grd = guard.map Subtype.val ∧
      laws = band.samples.map fun draw =>
          candidateLaw candidate matrix qLcb guard (draw.law omega matrix) := by
  simp only [candidatePiMatrix, bind_eq_ok, guardBy_eq_ok, elim_eq_ok, require_eq_none,
    Option.filter_eq_some_iff] at made
  obtain ⟨qLcb, ⟨bound, trad⟩, -, ownBin, -, hf, -, columns, guard, valid, rest⟩ := made
  have inOmega : ∀ out ∈ matrix.bins, ∃ column, binIndex omega out = some column ∧
        column < band.width := by
    intro out mem
    have hp := List.find?_eq_none.mp (Option.map_eq_none_iff.mp hf) out mem
    rw [Option.isNone_iff_eq_none] at hp
    obtain ⟨column, isColumn⟩ := Option.ne_none_iff_exists'.mp hp
    exact ⟨column, isColumn, columns out mem column isColumn⟩
  refine ⟨qLcb, guard, ?_⟩
  rw [validateGuardedPayoffQLcb_ok valid]
  cases guard with
  | none =>
    by_cases yes : candidate.side = .yes
    · rw [if_pos ⟨yes, rfl⟩] at rest
      cases rest
      refine ⟨⟨bound, trad, ownBin, inOmega, fun hab => absurd ⟨yes, rfl⟩ hab, by simp⟩, rfl, ?_⟩
      simp [candidateLaw, yes]
    · rw [if_neg (fun both => yes both.1)] at rest
      obtain ⟨_, others, rest⟩ := bind_eq_ok.mp rest
      rw [guardBy_eq_ok, require_eq_none] at others
      cases rest
      refine ⟨⟨bound, trad, ownBin, inOmega, fun _ => others, by simp⟩, rfl, ?_⟩
      simp [candidateLaw, anchoredLaw, yes, Function.comp_def]
  | some q =>
    rw [if_neg (fun both => Option.some_ne_none q both.2)] at rest
    obtain ⟨_, others, rest⟩ := bind_eq_ok.mp rest
    rw [if_neg (Option.some_ne_none q)] at rest
    obtain ⟨_, massive, rest⟩ := bind_eq_ok.mp rest
    rw [guardBy_eq_ok, require_eq_none] at others massive
    cases rest
    refine ⟨⟨bound, trad, ownBin, inOmega, fun _ => others, ?_⟩, rfl, ?_⟩
    · intro own isOwn draw mem
      cases isOwn
      exact massive _ (List.mem_map_of_mem (List.mem_map_of_mem mem))
    · rw [List.map_map, List.map_map]
      rfl

theorem drawToPi_ok
    (inOmega : ∀ out ∈ matrix.bins, ∃ column, binIndex omega out = some column ∧ column < width) :
    ∃ pi, drawToPi draw omega matrix = .ok pi ∧
      Agrees pi (draw.law omega matrix) matrix.outcomes := by
  have masses : matrix.bins.mapM (drawEntry draw omega) =
      .ok (matrix.bins.map (draw.binMass omega)) := by
    refine mapM_eq_ok.mpr (List.forall₂_map_right_iff.mpr (List.forall₂_same.mpr fun out mem => ?_))
    obtain ⟨column, isColumn, hin⟩ := inOmega out mem
    have hs : column < draw.masses.length := hin.trans_eq draw.length_eq.symm
    simp [drawEntry, Draw.binMass, isColumn, hs]
  have listed : matrix.bins.zip (matrix.bins.map (draw.binMass omega)) =
      OutcomePi.over matrix.bins (draw.binMass omega) := List.map_prod_left_eq_zip.symm
  refine ⟨OutcomePi.over matrix.bins (draw.binMass omega) ++
    [(outsideOutcome, max 0 (1 - (matrix.bins.map (draw.binMass omega)).sum))], ?_,
    fun out mem => ?_⟩
  · rw [drawToPi, masses, ok_bind, listed]
    rfl
  · rw [OutcomePi.get_over_append]
    by_cases outside : out = outsideOutcome
    · simp [FamilyPayoffMatrix.bins, Draw.law, OutcomePi.get, outside]
    · simp [FamilyPayoffMatrix.bins, Draw.law, outside, mem]

section
variable (agrees : Agrees pi law matrix.outcomes)
include agrees

theorem Agrees.others_sum (own : String) :
    ((matrix.outcomes.filter (· ≠ own)).map pi.get).sum =
      ((matrix.outcomes.filter (· ≠ own)).map law.mass).sum :=
  congrArg List.sum (List.map_congr_left fun out mem => agrees out (List.mem_of_mem_filter mem))

theorem effectiveOutcomePi_ok {qLcb : Set.Icc (0 : ℝ) 1} (bound : candidate.qLcb = some qLcb)
    (trad : candidate.isTradeable = true) (ownBin : candidate.binId ∈ matrix.outcomes)
    (others : candidate.side ≠ .yes → matrix.outcomes.filter (· ≠ candidate.binId) ≠ []) :
    ∃ eff, effectiveOutcomePi candidate matrix pi = .ok eff ∧
      Agrees eff (candidateLaw candidate matrix qLcb none law) matrix.outcomes := by
  have known : (candidate.qLcb.filter fun _ => candidate.isTradeable) = some qLcb := by
    simp [bound, trad]
  have own : guardBy
      (require (candidate.binId ∈ matrix.outcomes) PayoffError.candidateBinNotOutcome) = .ok () :=
    guardBy_eq_ok.mpr (require_eq_none.mpr ownBin)
  unfold effectiveOutcomePi
  rw [known, Option.elim_some, ok_bind, own, ok_bind]
  by_cases yes : candidate.side = .yes
  · rw [if_pos yes]
    refine ⟨_, rfl, fun out mem => ?_⟩
    rw [OutcomePi.get_over mem, agrees out mem, candidateLaw, if_pos yes]
  · rw [if_neg yes]
    dsimp only
    rw [agrees.others_sum]
    by_cases hno : ((matrix.outcomes.filter (· ≠ candidate.binId)).map law.mass).sum ≤ 0
    · rw [if_pos hno]
      refine ⟨_, rfl, fun out mem => ?_⟩
      rw [OutcomePi.get_over mem, if_pos (others yes)]
      simp only [candidateLaw, anchoredLaw, Law.reanchor, complement, yes, if_false, hno.not_gt]
    · rw [if_neg hno]
      refine ⟨_, rfl, fun out mem => ?_⟩
      rw [OutcomePi.get_over mem, agrees out mem]
      simp only [candidateLaw, anchoredLaw, Law.reanchor, complement, yes, if_false, not_le.mp hno,
        if_true]
      split_ifs
      · rfl
      · ring

theorem guardedEntries_eq (q : Set.Icc (0 : ℝ) 1) : guardedEntries candidate matrix pi q =
      OutcomePi.over (candidate.binId :: matrix.outcomes.filter (· ≠ candidate.binId))
      (anchoredLaw candidate matrix q law).mass := by
  have others : ∀ out ∈ matrix.outcomes.filter (· ≠ candidate.binId),
      pi.get out = law.mass out ∧ out ≠ candidate.binId := fun out mem =>
    ⟨agrees out (List.mem_of_mem_filter mem), by simpa using (List.mem_filter.mp mem).2⟩
  unfold guardedEntries
  dsimp only
  rw [agrees.others_sum, ← anchoredLaw_own q law]
  refine congrArg ((candidate.binId, (anchoredLaw candidate matrix q law).mass candidate.binId) ::
      ·) ?_
  by_cases hno : ((matrix.outcomes.filter (· ≠ candidate.binId)).map law.mass).sum ≤ 0
  · rw [if_pos hno]
    refine List.map_congr_left fun out mem => ?_
    rw [anchoredLaw_other q law (others out mem).2, if_pos hno]
  · rw [if_neg hno]
    refine List.map_congr_left fun out mem => ?_
    rw [anchoredLaw_other q law (others out mem).2, if_neg hno, ← (others out mem).1]

theorem candidateGuardedPi_ok {q qLcb : Set.Icc (0 : ℝ) 1}
    (ownBin : candidate.binId ∈ matrix.outcomes)
    (others : matrix.outcomes.filter (· ≠ candidate.binId) ≠ [])
    (massive : 0 < (anchoredLaw candidate matrix q law).total matrix.outcomes) :
    ∃ eff, candidateGuardedPi candidate matrix pi q = .ok eff ∧
      Agrees eff (candidateLaw candidate matrix qLcb (some q) law) matrix.outcomes := by
  have unit : guardBy (require (0 ≤ (q : ℝ) ∧ (q : ℝ) ≤ 1) PayoffError.degenerateGuard) = .ok () :=
    guardBy_eq_ok.mpr (require_eq_none.mpr q.2)
  have own : guardBy
      (require (candidate.binId ∈ matrix.outcomes) PayoffError.candidateBinNotOutcome) = .ok () :=
    guardBy_eq_ok.mpr (require_eq_none.mpr ownBin)
  have some_other : guardBy
      (require (matrix.outcomes.filter (· ≠ candidate.binId) ≠ []) PayoffError.noOtherOutcome) =
      .ok () := guardBy_eq_ok.mpr (require_eq_none.mpr others)
  unfold candidateGuardedPi
  rw [unit, ok_bind, own, ok_bind, some_other, ok_bind]
  dsimp only
  rw [guardedEntries_eq agrees]
  have reordered : (candidate.binId :: matrix.outcomes.filter (· ≠ candidate.binId)).Perm
      matrix.outcomes := by
    have same : matrix.outcomes.filter (· != candidate.binId) =
        matrix.outcomes.filter (· ≠ candidate.binId) :=
      List.filter_congr fun out _ => Bool.eq_iff_iff.mpr (by simp)
    rw [← same, ← matrix.nodup.erase_eq_filter]
    exact (List.perm_cons_erase ownBin).symm
  have total : ((OutcomePi.over (candidate.binId :: matrix.outcomes.filter (· ≠ candidate.binId))
      (anchoredLaw candidate matrix q law).mass).map Prod.snd).sum =
      (anchoredLaw candidate matrix q law).total matrix.outcomes := by
    rw [OutcomePi.over, List.map_map, Law.total]
    exact (reordered.map _).sum_eq
  have mass : guardBy (require (0 < (anchoredLaw candidate matrix q law).total matrix.outcomes)
      PayoffError.guardedPiDegenerate) = .ok () := guardBy_eq_ok.mpr (require_eq_none.mpr massive)
  rw [total, mass, ok_bind]
  refine ⟨_, rfl, fun out mem => ?_⟩
  have listed : out ∈ candidate.binId :: matrix.outcomes.filter (· ≠ candidate.binId) :=
    reordered.mem_iff.mpr mem
  rw [OutcomePi.get_over mem]
  simp only [candidateLaw, Law.renormalize]
  split_ifs
  · rw [OutcomePi.over, List.map_map]
    exact @OutcomePi.get_over _ _ _ (fun other => (anchoredLaw candidate matrix q law).mass other /
      (anchoredLaw candidate matrix q law).total matrix.outcomes) out listed
  · exact OutcomePi.get_over listed
end

theorem scalarPi_ok {band : JointQBand ℝ} {qLcb : Set.Icc (0 : ℝ) 1}
    {guard : Option (Set.Icc (0 : ℝ) 1)} (checks : LawChecks candidate band omega matrix qLcb guard)
    {draw : Draw ℝ band.width} (mem : draw ∈ band.samples) :
    ∃ pi, scalarPi candidate omega matrix (guard.map Subtype.val) draw = .ok pi ∧
      Agrees pi (candidateLaw candidate matrix qLcb guard (draw.law omega matrix))
        matrix.outcomes := by
  obtain ⟨base, read, agrees⟩ := @drawToPi_ok omega matrix band.width draw checks.inOmega
  unfold scalarPi
  rw [read, ok_bind]
  cases guard with
  | none =>
    exact effectiveOutcomePi_ok agrees checks.bound checks.tradeable checks.ownBin fun no =>
      checks.others fun both => no both.1
  | some q =>
    exact candidateGuardedPi_ok agrees checks.ownBin
      (checks.others fun both => Option.some_ne_none q both.2) (checks.massive q rfl draw mem)
end

theorem robustAt_eq_quantile {prepared : PreparedSizing ℝ} {stake : ℝ} :
    prepared.robustAt stake =
      quantile (prepared.laws.map fun law => (payoffTerms prepared.candidate stake).toOption.elim ⊥
            fun terms => prepared.drawGrowth terms law) prepared.alpha := by
  unfold PreparedSizing.robustAt
  cases payoffTerms prepared.candidate stake with
  | error error => exact (quantile_of_forall_bot (by simp [Except.toOption])).symm
  | ok terms => rfl

/-- The grid is `robust_at` at every stake, and that is the quantile of the scalar objective over
the draws. -/
theorem robustMany_refines_scalar {candidate : NativeSideCandidate ℝ} {band : JointQBand ℝ}
    {omega : List String} {matrix : FamilyPayoffMatrix} {exposure : PortfolioExposureVector ℝ}
    {level : Set.Ioo (0 : ℝ) 1} {grd : Option ℝ} {prepared : PreparedSizing ℝ}
    (ready : prepareSizing candidate band omega matrix exposure level grd = .ok prepared) :
    (∀ stakes, prepared.robustMany stakes = stakes.map prepared.robustAtRows) ∧
    ∃ pis, band.samples.mapM (scalarPi candidate omega matrix grd) = .ok pis ∧
      ∀ stake, prepared.robustAtRows stake =
          quantile (pis.map fun pi => deltaUAtStake candidate matrix pi exposure stake) level := by
  refine ⟨fun stakes => robustManyBy_eq stakes, ?_⟩
  obtain ⟨rfl, rfl, made, wealth, known, isHoldings⟩ := prepareSizing_ok ready
  obtain ⟨qLcb, guard, checks, rfl, isLaws⟩ := candidatePiMatrix_ok made
  obtain ⟨pis, mapped, agree⟩ := exists_mapM_eq_ok fun draw => @scalarPi_ok _ _ _ _ _ _ checks draw
  refine ⟨pis, mapped, fun stake => ?_⟩
  have pointwise :=
    agree.imp fun draw pi agrees => (deltaUAtStake_eq known isHoldings agrees stake).symm
  rw [PreparedSizing.robustAtRows, robustAtBy_quantile, robustAt_eq_quantile, isLaws, List.map_map]
  refine congrArg (fun vs => quantile vs (prepared.alpha : ℝ)) ?_
  rw [← List.forall₂_eq_eq_eq, List.forall₂_map_left_iff, List.forall₂_map_right_iff]
  exact pointwise

theorem sample_refines_scalar :
    (samplePrepared ⟨2, by norm_num⟩).robustMany [22 / 25, 0] =
      [(samplePrepared ⟨2, by norm_num⟩).robustAtRows (22 / 25),
        (samplePrepared ⟨2, by norm_num⟩).robustAtRows 0] ∧
    ∃ pis,
      sampleBand.samples.mapM
        (scalarPi (sampleCandidate ⟨2, by norm_num⟩) ["20C"] sampleMatrix none) = .ok pis ∧
      (samplePrepared ⟨2, by norm_num⟩).robustAtRows (22 / 25) =
        quantile (pis.map fun pi => deltaUAtStake (sampleCandidate ⟨2, by norm_num⟩) sampleMatrix pi
              sampleExposure (22 / 25)) sampleLevel := by
  obtain ⟨grid, pis, mapped, scalar⟩ := robustMany_refines_scalar (sample_prepared ⟨2, by norm_num⟩)
  exact ⟨grid _, pis, mapped, scalar _⟩

end Zeus.PayoffVector
