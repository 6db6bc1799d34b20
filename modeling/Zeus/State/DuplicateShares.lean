import Zeus.State.DuplicateConsolidator

/-! What one pass does to the open rows of every token. Voiding an exact prefix lands on the
balance; a merge keeps the shares of one row only. -/

namespace Zeus.DuplicateConsolidator

open Zeus.Collateral (strip)
open CheckedFold Zeus.PositionCurrent

variable {store after : Store} {token now : String}

def openShares (table : Table) (token : String) : ℚ :=
  ((openRows table token).map fun row => row.entry.shares.getD 0).sum

theorem openRows_void (table : Table) (positionId : String) :
    openRows (table.modify positionId (Row.void now) (Row.void_key now)) token =
      (openRows table token).filter fun row => row.positionId ≠ positionId := by
  change List.filter _
    (table.rows.map fun row => if decide (row.key = positionId) then Row.void now row else row) =
    (table.rows.filter _).filter _
  induction table.rows with
  | nil => rfl
  | cons row rows ih =>
    by_cases own : row.key = positionId
    · have shut : LifecyclePhase.voided ∉ openPhases := by decide
      rw [List.map_cons, if_pos (decide_eq_true own),
        List.filter_cons_of_neg (by simp [Row.void, shut]), ih, List.filter_cons]
      split_ifs
      · rw [List.filter_cons_of_neg (by simpa [Row.key] using own)]
      · rfl
    · rw [List.map_cons, if_neg (by simpa using own), List.filter_cons, List.filter_cons]
      split_ifs
      · rw [List.filter_cons_of_pos (by simpa [Row.key] using own), ih]
      · exact ih

/-- What was done to the tables by voiding `ids` and writing about the positions in `touched`. -/
structure Voids (store after : Store) (ids touched : List String) : Prop where
  rows : ∀ token,
    openRows after.table token = (openRows store.table token).filter fun row => row.positionId ∉ ids
  events : ∃ new, after.events = store.events ++ new ∧ ∀ event ∈ new, event.positionId ∈ touched

theorem Voids.refl (store : Store) : Voids store store [] [] where
  rows token := by simp
  events := ⟨[], (List.append_nil _).symm, by simp⟩

theorem voidRow_ok {why : VoidReason} {pid : String}
    (voided : voidRow now why store pid = .ok after) : Voids store after [pid] [pid] := by
  unfold voidRow at voided
  split at voided
  · cases voided
  · cases voided
    refine ⟨fun token => ?_, _, rfl, by simp⟩
    rw [openRows_void]
    simp

theorem Voids.trans {middle : Store} {ids more touched further : List String}
    (first : Voids store middle ids touched) (snd : Voids middle after more further) :
    Voids store after (ids ++ more) (touched ++ further) := by
  obtain ⟨new, isNew, own⟩ := first.events
  obtain ⟨newer, isNewer, ownNewer⟩ := snd.events
  refine ⟨fun token => ?_, new ++ newer, ?_, ?_⟩
  · rw [snd.rows, first.rows, List.filter_filter]
    refine List.filter_congr fun row _ => ?_
    simp [Bool.and_comm]
  · rw [isNewer, isNew, List.append_assoc]
  · intro event mem
    rcases List.mem_append.mp mem with old | late
    · exact List.mem_append_left _ (own event old)
    · exact List.mem_append_right _ (ownNewer event late)

theorem voidRows_ok {why : VoidReason} {ids : List String}
    (voided : ids.foldlM (voidRow now why) store = .ok after) : Voids store after ids ids := by
  induction ids generalizing store with
  | nil =>
    cases voided
    exact .refl _
  | cons id ids ih =>
    rw [List.foldlM_cons, bind_eq_ok] at voided
    obtain ⟨middle, one, rest⟩ := voided
    exact (voidRow_ok one).trans (ih rest)

def Verdict.touched : Verdict → List String
  | .divergent => []
  | .merged keeper absorbed => (absorbed.map fun entry => strip entry.id) ++ [strip keeper.id]
  | .overbook voided => voided.map Entry.id

theorem settle_ok {vd : Verdict} (hset : vd.settle now store = .ok after) :
    Voids store after vd.voided vd.touched := by
  cases vd with
  | divergent =>
    cases hset
    exact .refl _
  | overbook voided => exact voidRows_ok hset
  | merged keeper absd =>
    obtain ⟨middle, voided, hrec⟩ := bind_eq_ok.mp hset
    cases hrec
    have hw : Voids middle
        (recordSuperseded now keeper (absd.map fun entry => strip entry.id) middle) []
        [strip keeper.id] := by
      unfold recordSuperseded
      split_ifs
      · exact ⟨fun token => by simp, _, rfl, by simp⟩
      · exact ⟨fun token => by simp, [], (List.append_nil _).symm, by simp⟩
    simpa [Verdict.voided, Verdict.touched] using (voidRows_ok voided).trans hw

section
variable {balance : ℚ} {rows front back : List Entry}

theorem total_append (front back : List Entry) :
    total (front ++ back) = total front + total back := by
  simp [total]

theorem total_perm (same : rows.Perm back) : total rows = total back :=
  (same.map Entry.shares).sum_eq

theorem byAge_perm (rows : List Entry) : (byAge rows).Perm rows := List.perm_insertionSort _ rows

theorem byPosition_perm (rows : List Entry) : (byPosition rows).Perm rows :=
  List.perm_insertionSort _ rows

theorem mergePlan_some {keeper : Entry} {absd : List Entry}
    (hpl : mergePlan balance rows = some (keeper, absd)) :
    Mergeable balance rows ∧ rows.Perm (absd ++ [keeper]) := by
  unfold mergePlan at hpl
  split_ifs at hpl with hmer
  obtain ⟨last, isLast, same⟩ := Option.map_eq_some_iff.mp hpl
  cases same
  refine ⟨hmer, (byPosition_perm rows).symm.trans (List.Perm.of_eq ?_)⟩
  exact (List.dropLast_append_getLast? _ isLast).symm

theorem mergePlan_eq_none : mergePlan balance rows = none ↔ ¬ Mergeable balance rows := by
  unfold mergePlan
  split_ifs with hmer
  · have sorted : byPosition rows ≠ [] := by
      intro none
      have same := (byPosition_perm rows).length_eq
      rw [none] at same
      exact absurd hmer.1 (by rw [← same]; decide)
    simp [hmer, sorted]
  · simp [hmer]

theorem Mergeable.perm (same : rows.Perm back) :
    Mergeable balance rows ↔ Mergeable balance back := by
  unfold Mergeable
  rw [same.length_eq, (same.map mergeIdentityKey).dedup.length_eq,
    (same.map mergeIdentityKey).mem_iff, total_perm same]
  simp only [same.mem_iff]

theorem cleanPrefixLen_some {excess cum : ℚ} {index len : ℕ}
    (hf : cleanPrefixLen excess cum index rows = some len) :
    ∃ taken, len = index + taken ∧
      0 < taken ∧
      taken ≤ rows.length ∧
      |cum + total (rows.take taken) - excess| ≤ tolerance := by
  induction rows generalizing cum index with
  | nil => cases hf
  | cons entry rest ih =>
    unfold cleanPrefixLen at hf
    split_ifs at hf with clean hbe
    · refine ⟨1, (Option.some.inj hf).symm, Nat.one_pos, by simp, ?_⟩
      simpa [total] using clean
    · obtain ⟨taken, isLength, -, hle, close⟩ := ih hf
      refine ⟨taken + 1, by omega, Nat.succ_pos _, by simpa using hle, ?_⟩
      rw [List.take_succ_cons]
      simpa [total, add_assoc] using close

theorem total_drop_of_clean {len : ℕ}
    (hf : cleanPrefixLen (total rows - balance) 0 0 (byAge rows) = some len) :
    0 < len ∧ len ≤ rows.length ∧ |total ((byAge rows).drop len) - balance| ≤ tolerance := by
  obtain ⟨taken, isLength, hpos, hle, close⟩ := cleanPrefixLen_some hf
  have age := byAge_perm rows
  rw [zero_add] at isLength
  subst isLength
  have parts : total rows = total ((byAge rows).take len) + total ((byAge rows).drop len) := by
    rw [← total_append, List.take_append_drop]
    exact (total_perm age).symm
  refine ⟨hpos, hle.trans_eq age.length_eq, ?_⟩
  rw [parts, zero_add, abs_sub_comm] at close
  have same : total ((byAge rows).take len) + total ((byAge rows).drop len) - balance -
      total ((byAge rows).take len) = total ((byAge rows).drop len) - balance := by ring
  rwa [same] at close

theorem judge_cases (balance : ℚ) (rows : List Entry) :
    judge (some balance) rows rows = .divergent ∨
    (∃ keeper absd, mergePlan balance rows = some (keeper, absd) ∧
        judge (some balance) rows rows = .merged keeper absd) ∨
    ∃ len, balance + tolerance < total rows ∧
      cleanPrefixLen (total rows - balance) 0 0 (byAge rows) = some len ∧
      judge (some balance) rows rows = .overbook ((byAge rows).take len) := by
  unfold judge
  simp only
  split_ifs with hle
  · cases hpl : mergePlan balance rows with
    | none => exact .inl rfl
    | some plan => exact .inr (.inl ⟨plan.1, plan.2, rfl, rfl⟩)
  · cases hf : cleanPrefixLen (total rows - balance) 0 0 (byAge rows) with
    | none => exact .inl rfl
    | some len => exact .inr (.inr ⟨len, not_le.mp hle, rfl, rfl⟩)
end

variable {snapshot : ChainSnapshot} {tokens : List String} {pass : Pass}

/-- The verdict on a token whose rows no other round has touched. -/
def verdictOn (snapshot : ChainSnapshot) (store : Store) (token : String) : Verdict :=
  judge (snapshot.shares token) (entries store token) (entries store token)

theorem Verdict.mem_touched_of_voided {vd : Verdict} {id : String} (voided : id ∈ vd.voided) :
    id ∈ vd.touched := by
  cases vd with
  | divergent => exact voided
  | merged keeper absd => exact List.mem_append_left _ voided
  | overbook rows => exact voided

theorem mem_entries {entry : Entry} (mem : entry ∈ entries store token) :
    entry.row ∈ openRows store.table token ∧ strip entry.id = entry.id := by
  obtain ⟨row, isOpen, rfl⟩ := List.mem_map.mp mem
  exact ⟨isOpen, store.trimmed row (List.mem_of_mem_filter isOpen)⟩

theorem touched_owned {id : String} (touched : id ∈ (verdictOn snapshot store token).touched) :
    ∃ row ∈ openRows store.table token, row.positionId = id := by
  have owned : ∀ entry ∈ entries store token, ∃ row ∈ openRows store.table token,
        row.positionId = entry.id :=
    fun entry mem => ⟨entry.row, (mem_entries mem).1, rfl⟩
  unfold verdictOn at touched
  cases measured : snapshot.shares token with
  | none =>
    rw [measured] at touched
    cases touched
  | some balance =>
    rw [measured] at touched
    rcases judge_cases balance (entries store token) with
      dvg | ⟨keeper, absd, hpl, merged⟩ | ⟨len, -, -, overbook⟩
    · rw [dvg] at touched
      cases touched
    · rw [merged] at touched
      have all : id ∈ (absd ++ [keeper]).map fun entry => strip entry.id := by
        simpa [Verdict.touched] using touched
      obtain ⟨entry, mem, rfl⟩ := List.mem_map.mp all
      have hs := (mergePlan_some hpl).2.mem_iff.mpr mem
      rw [(mem_entries hs).2]
      exact owned entry hs
    · rw [overbook] at touched
      obtain ⟨entry, mem, rfl⟩ := List.mem_map.mp touched
      exact owned entry ((byAge_perm _).mem_iff.mp (List.mem_of_mem_take mem))

theorem token_unique {other : String} {row same : Row} (own : row ∈ openRows store.table token)
    (also : same ∈ openRows store.table other) (id : row.positionId = same.positionId) :
    token = other := by
  simp only [openRows, List.mem_filter, decide_eq_true_eq] at own also
  have equal : row = same := List.inj_on_of_nodup_map store.table.nodup own.1 also.1 id
  subst equal
  exact Option.some.inj (own.2.2.symm.trans also.2.2)

theorem Voids.firstAt_eq {ids touched : List String} {pid : String}
    (voids : Voids store after ids touched) (hne : pid ∉ touched) :
    firstAt after.events pid = firstAt store.events pid := by
  obtain ⟨new, isNew, own⟩ := voids.events
  have none_own : new.filter (fun event => event.positionId = pid) = [] := by
    refine List.filter_eq_nil_iff.mpr fun event mem same => ?_
    rw [decide_eq_true_eq] at same
    exact hne (same ▸ own event mem)
  unfold firstAt Journal.ofKey
  rw [isNew, List.filter_append, none_own, List.append_nil]

theorem Voids.entries_eq {ids touched : List String} (voids : Voids store after ids touched)
    (hne : ∀ row ∈ openRows store.table token, row.positionId ∉ ids → row.positionId ∉ touched) :
    entries after token = (entries store token).filter fun entry => entry.id ∉ ids := by
  unfold entries
  rw [voids.rows, List.filter_map]
  refine List.map_congr_left fun row mem => ?_
  obtain ⟨hs, kept⟩ := List.mem_filter.mp mem
  rw [voids.firstAt_eq (hne row hs (by simpa using kept))]

/-- What the rounds of `tokens` have done to a store whose rows were all enumerated before. -/
def Rounds (snapshot : ChainSnapshot) (seen : Store) (tokens : List String) (after : Store) :
    Prop :=
  Voids seen after (tokens.flatMap fun token => (verdictOn snapshot seen token).voided)
    (tokens.flatMap fun token => (verdictOn snapshot seen token).touched)

theorem mem_flatMap_iff {seen : Store} {row : Row} {f : Verdict → List String}
    (own : ∀ vd, f vd ⊆ vd.touched) (hs : row ∈ openRows seen.table token) :
    (row.positionId ∈ tokens.flatMap fun other => f (verdictOn snapshot seen other)) ↔
      token ∈ tokens ∧ row.positionId ∈ f (verdictOn snapshot seen token) := by
  rw [List.mem_flatMap]
  constructor
  · rintro ⟨other, mem, hw⟩
    obtain ⟨same, isSame, sameId⟩ := touched_owned (own _ hw)
    obtain rfl := token_unique hs isSame sameId.symm
    exact ⟨mem, hw⟩
  · rintro ⟨mem, hw⟩
    exact ⟨token, mem, hw⟩

theorem Rounds.entries_of_notMem (rounds : Rounds snapshot store tokens after)
    (later : token ∉ tokens) : entries after token = entries store token := by
  have hne : ∀ row ∈ openRows store.table token, ∀ f : Verdict → List String,
      (∀ vd, f vd ⊆ vd.touched) →
      row.positionId ∉ tokens.flatMap fun other => f (verdictOn snapshot store other) :=
    fun row hs f own met => later ((mem_flatMap_iff own hs).mp met).1
  rw [Voids.entries_eq rounds fun row hs _ => hne row hs _ fun _ => List.Subset.refl _]
  refine List.filter_eq_self.mpr fun entry mem => decide_eq_true ?_
  exact hne entry.row (mem_entries mem).1 _ fun _ _ => Verdict.mem_touched_of_voided

theorem Rounds.openRows_of_mem (rounds : Rounds snapshot store tokens after)
    (done : token ∈ tokens) :
    openRows after.table token =
      (openRows store.table token).filter fun row =>
        row.positionId ∉ (verdictOn snapshot store token).voided := by
  rw [Voids.rows rounds]
  refine List.filter_congr fun row hs => ?_
  have met := @mem_flatMap_iff token snapshot tokens store row Verdict.voided
    (fun _ _ => Verdict.mem_touched_of_voided) hs
  exact decide_eq_decide.mpr (not_congr (met.trans (and_iff_right done)))

theorem Rounds.refl (store : Store) : Rounds snapshot store [] store := Voids.refl store

theorem Rounds.step {done : List String} {next : Pass}
    (rounds : Rounds snapshot store done pass.store) (new : token ∉ done)
    (ran : consolidateToken snapshot now store pass token = .ok next) :
    Rounds snapshot store (done ++ [token]) next.store := by
  unfold consolidateToken at ran
  rw [rounds.entries_of_notMem new] at ran
  obtain ⟨hset, isSettled, ran⟩ := bind_eq_ok.mp ran
  cases ran
  have voids := settle_ok isSettled
  unfold Rounds
  rw [List.flatMap_append, List.flatMap_append, List.flatMap_singleton, List.flatMap_singleton]
  exact Voids.trans rounds voids

theorem Rounds.run {done : List String} {next : Pass}
    (rounds : Rounds snapshot store done pass.store) (nd : (done ++ tokens).Nodup)
    (ran : tokens.foldlM (consolidateToken snapshot now store) pass = .ok next) :
    Rounds snapshot store (done ++ tokens) next.store := by
  induction tokens generalizing done pass with
  | nil =>
    cases ran
    rwa [List.append_nil]
  | cons token tokens ih =>
    rw [List.foldlM_cons, bind_eq_ok] at ran
    obtain ⟨middle, one, rest⟩ := ran
    have new : token ∉ done :=
      fun old => (List.nodup_append.mp nd).2.2 _ old _ List.mem_cons_self rfl
    rw [List.append_cons] at nd ⊢
    exact ih (rounds.step new one) nd rest

theorem rounds_of_consolidate (passed : consolidate snapshot now store = .ok pass) :
    Rounds snapshot store (duplicates store) pass.store :=
  (Rounds.refl store).run ((List.nodup_dedup _).filter _) passed

theorem mem_duplicates : token ∈ duplicates store ↔ 1 < (entries store token).length := by
  unfold duplicates
  rw [List.mem_filter, List.mem_dedup, decide_eq_true_eq]
  refine ⟨And.right, fun hsev => ⟨?_, hsev⟩⟩
  obtain ⟨entry, mem⟩ := List.exists_mem_of_length_pos (Nat.zero_lt_of_lt hsev)
  have hs := (mem_entries mem).1
  simp only [openRows, List.mem_filter, decide_eq_true_eq] at hs
  exact List.mem_filterMap.mpr
    ⟨entry.row, hs.1, by simp [Option.filter_eq_some_iff, hs.2.2, hs.2.1]⟩

theorem openShares_eq_total (store : Store) (token : String) :
    openShares store.table token = total (entries store token) := by
  simp [openShares, total, entries, Entry.shares, Function.comp_def]

theorem entries_nodup (store : Store) (token : String) :
    ((entries store token).map Entry.id).Nodup := by
  have same : (entries store token).map Entry.id = (openRows store.table token).map Row.key := by
    simp [entries, Entry.id, Row.key, Function.comp_def]
  rw [same]
  exact store.table.nodup.sublist (List.filter_sublist.map Row.key)

def spared (snapshot : ChainSnapshot) (store : Store) (token : String) : List Entry :=
  (entries store token).filter fun entry => entry.id ∉ (verdictOn snapshot store token).voided

theorem spared_openRows (passed : consolidate snapshot now store = .ok pass)
    (hsev : token ∈ duplicates store) :
    openRows pass.store.table token = (spared snapshot store token).map Entry.row := by
  rw [(rounds_of_consolidate passed).openRows_of_mem hsev, spared, entries, List.filter_map,
    List.map_map]
  exact (List.map_id _).symm

theorem entries_of_spared (passed : consolidate snapshot now store = .ok pass)
    (hsev : token ∈ duplicates store)
    (alike : (verdictOn snapshot store token).touched ⊆ (verdictOn snapshot store token).voided) :
    entries pass.store token = spared snapshot store token := by
  have rounds := rounds_of_consolidate passed
  unfold entries
  rw [spared_openRows passed hsev, List.map_map]
  conv_rhs => rw [← List.map_id (spared snapshot store token)]
  refine List.map_congr_left fun entry mem => ?_
  obtain ⟨hs, kept⟩ := List.mem_filter.mp mem
  obtain ⟨row, isOpen, rfl⟩ := List.mem_map.mp hs
  have hne : row.positionId ∉
      (duplicates store).flatMap fun other => (verdictOn snapshot store other).touched := by
    intro met
    have own := ((@mem_flatMap_iff token snapshot _ store row Verdict.touched
      (fun _ => List.Subset.refl _) isOpen).mp met).2
    exact of_decide_eq_true kept (alike own)
  simp only [Function.comp_apply, id_eq]
  rw [Voids.firstAt_eq rounds hne]

section
variable {balance : ℚ} (passed : consolidate snapshot now store = .ok pass)
  (measured : snapshot.shares token = some balance)

theorem verdictOn_eq (measured : snapshot.shares token = some balance) :
    verdictOn snapshot store token =
      judge (some balance) (entries store token) (entries store token) := by
  rw [verdictOn, measured]

include passed

theorem entries_of_divergent (dvg : verdictOn snapshot store token = .divergent) :
    entries pass.store token = entries store token := by
  by_cases hsev : token ∈ duplicates store
  · rw [entries_of_spared passed hsev (by rw [dvg]; exact List.Subset.refl _), spared, dvg]
    exact List.filter_eq_self.mpr fun entry _ => decide_eq_true List.not_mem_nil
  · exact (rounds_of_consolidate passed).entries_of_notMem hsev

include measured

theorem openRows_of_merged {keeper : Entry} {absd : List Entry}
    (hpl : mergePlan balance (entries store token) = some (keeper, absd)) :
    openRows pass.store.table token = [keeper.row] := by
  obtain ⟨hmer, split⟩ := mergePlan_some hpl
  have hsev : token ∈ duplicates store := mem_duplicates.mpr hmer.1
  have ids : (verdictOn snapshot store token).voided = absd.map Entry.id := by
    rw [verdictOn_eq measured, judge]
    simp only [if_pos hmer.2.2.2.2.2, hpl, Option.elim_some]
    refine List.map_congr_left fun entry mem => ?_
    exact (mem_entries (split.mem_iff.mpr (List.mem_append_left _ mem))).2
  have left := KeyedTable.filter_perm_of_append (entries_nodup store token) split
  rw [← ids] at left
  rw [spared_openRows passed hsev, spared, List.perm_singleton.mp left]
  rfl

theorem entries_of_overbook {len : ℕ} (hsev : token ∈ duplicates store)
    (hbe : balance + tolerance < total (entries store token))
    (hf : cleanPrefixLen (total (entries store token) - balance) 0 0 (byAge (entries store token)) =
      some len) : (entries pass.store token).Perm ((byAge (entries store token)).drop len) := by
  have vd : verdictOn snapshot store token =
      .overbook ((byAge (entries store token)).take len) := by
    rw [verdictOn_eq measured, judge]
    simp only [if_neg (not_le.mpr hbe), hf, Option.elim_some]
  rw [entries_of_spared passed hsev (by rw [vd]; exact List.Subset.refl _), spared, vd]
  refine KeyedTable.filter_perm_of_append (entries_nodup store token) ?_
  rw [List.take_append_drop]
  exact (byAge_perm _).symm
end

/-- The rows that an overbook void leaves within the balance do not have one identity. -/
def VoidSettles (balance : ℚ) (rows : List Entry) : Prop :=
  ∀ length, balance + tolerance < total rows →
    cleanPrefixLen (total rows - balance) 0 0 (byAge rows) = some length →
    ¬ Mergeable balance ((byAge rows).drop length)

theorem tolerance_nonneg : 0 ≤ tolerance := by
  norm_num [tolerance]

theorem openShares_of_unmerged {balance : ℚ} (passed : consolidate snapshot now store = .ok pass)
    (measured : snapshot.shares token = some balance)
    (unmerged : mergePlan balance (entries store token) = none) :
    min (openShares store.table token) balance - tolerance ≤ openShares pass.store.table token := by
  have unch : ∀ shares : ℚ, min shares balance - tolerance ≤ shares := fun shares => by
    have least := min_le_left shares balance
    linarith [tolerance_nonneg]
  by_cases hsev : token ∈ duplicates store
  · rcases judge_cases balance (entries store token) with
      dvg | ⟨keeper, absd, hpl, -⟩ | ⟨len, hbe, hf, -⟩
    · rw [← verdictOn_eq measured] at dvg
      rw [openShares_eq_total pass.store, entries_of_divergent passed dvg, ← openShares_eq_total]
      exact unch _
    · cases unmerged.symm.trans hpl
    · obtain ⟨-, -, close⟩ := total_drop_of_clean hf
      rw [openShares_eq_total pass.store,
        total_perm (entries_of_overbook passed measured hsev hbe hf)]
      have least := min_le_right (openShares store.table token) balance
      linarith [(abs_le.mp close).1]
  · rw [openShares_eq_total pass.store, (rounds_of_consolidate passed).entries_of_notMem hsev,
      ← openShares_eq_total]
    exact unch _

theorem consolidate_of_divergent {later : String}
    (dvg : ∀ token ∈ duplicates store, verdictOn snapshot store token = .divergent) :
    ∃ again, consolidate snapshot later store = .ok again ∧ again.store = store := by
  have run : ∀ (tokens : List String) (report : List (String × Verdict)),
      (∀ token ∈ tokens, verdictOn snapshot store token = .divergent) →
      ∃ again, tokens.foldlM (consolidateToken snapshot later store) ⟨store, report⟩ = .ok again ∧
        again.store = store := by
    intro tokens
    induction tokens with
    | nil => exact fun report _ => ⟨_, rfl, rfl⟩
    | cons token tokens ih =>
      intro report each
      have one : consolidateToken snapshot later store ⟨store, report⟩ token =
          .ok ⟨store, report ++ [(token, .divergent)]⟩ := by
        have vd := each token List.mem_cons_self
        unfold verdictOn at vd
        simp only [consolidateToken, vd]
        rfl
      obtain ⟨again, ran, same⟩ := ih (report ++ [(token, .divergent)])
        fun other mem => each other (List.mem_cons_of_mem _ mem)
      refine ⟨again, ?_, same⟩
      rw [List.foldlM_cons, one]
      exact ran
  exact run (duplicates store) [] dvg

theorem divergent_again {balance : ℚ} (passed : consolidate snapshot now store = .ok pass)
    (measured : snapshot.shares token = some balance)
    (settles : token ∈ duplicates store → VoidSettles balance (entries store token))
    (again : token ∈ duplicates pass.store) : verdictOn snapshot pass.store token = .divergent := by
  have hsev : token ∈ duplicates store := by
    by_contra single
    rw [mem_duplicates, (rounds_of_consolidate passed).entries_of_notMem single, ← mem_duplicates]
      at again
    exact single again
  rcases judge_cases balance (entries store token) with
    dvg | ⟨keeper, absd, hpl, -⟩ | ⟨len, hbe, hf, -⟩
  · rw [← verdictOn_eq measured] at dvg
    rw [verdictOn, entries_of_divergent passed dvg]
    exact dvg
  · rw [mem_duplicates, entries, openRows_of_merged passed measured hpl] at again
    exact absurd again (by simp)
  · have rest := entries_of_overbook passed measured hsev hbe hf
    have unmerged := settles hsev len hbe hf
    rw [← Mergeable.perm rest] at unmerged
    obtain ⟨-, -, close⟩ := total_drop_of_clean hf
    rw [← total_perm rest] at close
    have hle : total (entries pass.store token) ≤ balance + tolerance := by
      linarith [(abs_le.mp close).2]
    rw [verdictOn_eq measured, judge]
    simp only [if_pos hle, mergePlan_eq_none.mpr unmerged, Option.elim_none]

theorem changes_again {balance : ℚ} {later : String} {again : Pass}
    (measured : snapshot.shares token = some balance)
    (hmer : Mergeable balance (entries store token))
    (passed : consolidate snapshot later store = .ok again) : again.store ≠ store := by
  intro same
  obtain ⟨⟨keeper, absd⟩, hpl⟩ := Option.ne_none_iff_exists'.mp
    (fun h0 => mergePlan_eq_none.mp h0 hmer)
  have hsev := hmer.1
  rw [← same, entries, openRows_of_merged passed measured hpl] at hsev
  exact absurd hsev (by simp)

/-- After a pass, a measured token whose rows were merged has its youngest row, with its own shares;
any other keeps the shares that the chain backs. A second pass changes nothing, exactly when no
overbook void has left rows of one identity. -/
theorem consolidation_merges_or_keeps_backed_shares
    (passed : consolidate snapshot now store = .ok pass) (later : String) :
    (∀ token balance, snapshot.shares token = some balance →
        (∀ keeper absd, mergePlan balance (entries store token) = some (keeper, absd) →
            openRows pass.store.table token = [keeper.row]) ∧
        (mergePlan balance (entries store token) = none →
          min (openShares store.table token) balance - tolerance ≤
            openShares pass.store.table token)) ∧
    ((∃ again, consolidate snapshot later pass.store = .ok again ∧ again.store = pass.store) ↔
        ∀ token ∈ duplicates store, ∀ balance, snapshot.shares token = some balance →
          VoidSettles balance (entries store token)) := by
  refine ⟨fun token balance measured => ⟨fun keeper absd hpl => ?_, fun unmerged => ?_⟩, ?_, ?_⟩
  · exact openRows_of_merged passed measured hpl
  · exact openShares_of_unmerged passed measured unmerged
  · rintro ⟨again, ran, same⟩ token hsev balance measured len hbe hf hmer
    rw [← Mergeable.perm (entries_of_overbook passed measured hsev hbe hf)] at hmer
    exact changes_again measured hmer ran same
  · intro settles
    refine consolidate_of_divergent fun token again => ?_
    cases measured : snapshot.shares token with
    | none => rw [verdictOn, measured, judge]
    | some balance =>
      exact divergent_again passed measured (fun hsev => settles token hsev balance measured) again

def sampleRow (positionId : String) (shares : ℚ) (condition : String) : Row where
  positionId := positionId
  strategyKey := "shoulder_sell"
  targetDate := some "2026-09-20"
  direction := some .buyNo
  entry := { noTokenId := some "tok-5", conditionId := some condition, shares := some shares }
  phase := .active

def sampleStore (condition : String) : Store where
  table := {
    rows := [sampleRow "p-1" 3 "cond-5", sampleRow "p-2" 4 "cond-5", sampleRow "p-3" 5 condition]
    nodup := show ["p-1", "p-2", "p-3"].Nodup by decide }
  trimmed := by
    intro row member
    have ids : ∀ id ∈ ["p-1", "p-2", "p-3"], strip id = id := by decide +kernel
    simp only [List.mem_cons, List.not_mem_nil, or_false] at member
    rcases member with rfl | rfl | rfl <;> exact ids _ (by simp [sampleRow])
  events := []

def onChain (micro : ℤ) : ChainSnapshot := [("tok-5", some micro)]

theorem sampleStore_voidSettles : VoidSettles 9 (entries (sampleStore "cond-6") "tok-5") := by
  intro len _ hf
  have one : cleanPrefixLen (total (entries (sampleStore "cond-6") "tok-5") - 9) 0 0
      (byAge (entries (sampleStore "cond-6") "tok-5")) = some 1 := by decide +kernel
  rw [one] at hf
  cases hf
  decide +kernel

/-- Rows of two conditions stay apart once the excess is voided. -/
theorem sampleStore_consolidated_twice :
    ∃ pass,
      consolidate (onChain 9000000) "2026-09-18T12:00:00+00:00" (sampleStore "cond-6") = .ok pass ∧
      min (openShares (sampleStore "cond-6").table "tok-5") 9 - tolerance ≤
        openShares pass.store.table "tok-5" ∧
      ∃ again, consolidate (onChain 9000000) "2026-09-18T12:05:00+00:00" pass.store = .ok again ∧
        again.store = pass.store := by
  have ret : (consolidate (onChain 9000000) "2026-09-18T12:00:00+00:00"
      (sampleStore "cond-6")).toOption.isSome = true := by decide +kernel
  have nine : (onChain 9000000).shares "tok-5" = some 9 := by decide +kernel
  cases passed : consolidate (onChain 9000000) "2026-09-18T12:00:00+00:00"
    (sampleStore "cond-6") with
  | error error =>
    rw [passed] at ret
    cases ret
  | ok pass =>
    obtain ⟨shares, again⟩ :=
      consolidation_merges_or_keeps_backed_shares passed "2026-09-18T12:05:00+00:00"
    refine ⟨pass, rfl, (shares "tok-5" 9 nine).2 (mergePlan_eq_none.mpr (by decide +kernel)),
      again.mpr ?_⟩
    intro token hsev balance measured
    rw [show duplicates (sampleStore "cond-6") = ["tok-5"] by decide +kernel, List.mem_singleton]
      at hsev
    subst hsev
    cases nine.symm.trans measured
    exact sampleStore_voidSettles

/-- Twelve shares in rows of one identity, all backed: the merge leaves the five of the youngest. -/
theorem merge_keeps_youngest_row :
    (consolidate (onChain 60000000) "2026-09-18T12:00:00+00:00" (sampleStore "cond-5")).toOption.map
      (fun pass =>
          (openShares (sampleStore "cond-5").table "tok-5", openShares pass.store.table "tok-5")) =
      some (12, 5) := by
  decide +kernel

end Zeus.DuplicateConsolidator
