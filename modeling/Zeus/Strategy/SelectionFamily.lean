import Zeus.Lib.Ranks
import Zeus.Lib.Grouping
import Zeus.Lib.Scatter
import Mathlib.Data.List.Sigma

/-! `apply_familywise_fdr` runs the step-up procedure on each family of tested hypotheses. -/

namespace Zeus.SelectionFamily

section
variable {K : Type*} [Field K] [LinearOrder K]

/-- `sorted(enumerate(p_values), key=lambda item: item[1])`; an item is a value and its index. -/
def ordered (pValues : List K) : List (K × ℕ) :=
  pValues.zipIdx.insertionSort fun item other => item.1 ≤ other.1

/-- The loop of `benjamini_hochberg_mask`: the index of the last rank that meets its threshold. -/
def thresholdLoop (q : K) (n : ℕ) : List (K × ℕ) → ℕ → Option ℕ → Option ℕ
  | [], _, thresholdIndex => thresholdIndex
  | (pValue, _) :: rest, rank, thresholdIndex =>
    thresholdLoop q n rest (rank + 1)
      (if pValue ≤ q * rank / n then some (rank - 1) else thresholdIndex)

def benjaminiHochbergMask (pValues : List K) (q : K) : List Bool :=
  match thresholdLoop q pValues.length (ordered pValues) 1 none with
  | none => List.replicate pValues.length false
  | some thresholdIndex =>
    pValues.map fun pValue => (ordered pValues)[thresholdIndex]?.any fun cutoff => pValue ≤ cutoff.1

/-- The loop of `_bh_q_values`, from the highest rank down. -/
def qValueLoop (n : ℕ) : List (K × ℕ) → ℕ → K → List K → List K
  | [], _, _, rankedQ => rankedQ
  | (pValue, idx) :: rest, reverseRank, running, rankedQ =>
    qValueLoop n rest (reverseRank + 1) (min running (pValue * n / (n - reverseRank + 1 : ℕ)))
      (rankedQ.set idx (min running (pValue * n / (n - reverseRank + 1 : ℕ))))

def bhQValues (pValues : List K) : List K :=
  qValueLoop pValues.length (ordered pValues).reverse 1 1 (List.replicate pValues.length 0)
end

/-- The columns of a row that are read or set; `tested` is true where it is missing. -/
structure Row (K : Type*) where
  familyId : String
  tested : Bool
  pValue : K
  qValue : Option K
  selectedPostFdr : ℕ
  deriving DecidableEq

section
variable {K : Type*} [Field K] [LinearOrder K]

def Row.untested (row : Row K) : Row K := { row with qValue := none, selectedPostFdr := 0 }

def Row.judged (q : K) (pValues : List K) (localIdx : ℕ) (row : Row K) : Row K :=
  { row with
    qValue := (bhQValues pValues)[localIdx]?
    selectedPostFdr := if (benjaminiHochbergMask pValues q)[localIdx]? = some true then 1 else 0 }

/-- `by_family`: the indices of the tested rows of each family. -/
def byFamily (rows : List (Row K)) : List (String × List (Row K × ℕ)) :=
  Grouping.group (fun item => item.1.familyId) (rows.zipIdx.filter fun item => item.1.tested)

def pValuesAt (out : List (Row K)) (indices : List ℕ) : List K :=
  indices.filterMap fun idx => out[idx]?.map Row.pValue

def judgeFamily (q : K) (out : List (Row K)) (indices : List ℕ) : List (Row K) :=
  Scatter.writeAll (Row.judged q (pValuesAt out indices)) indices.zipIdx out

def applyFamilywiseFdr (rows : List (Row K)) (q : K) : List (Row K) :=
  ((byFamily rows).map fun family => family.2.map Prod.snd).foldl (judgeFamily q)
    (rows.map fun row => if row.tested then row else row.untested)
end

section
variable {K : Type*} [LinearOrder K]

theorem ordered_perm (pValues : List K) : (ordered pValues).Perm pValues.zipIdx :=
  List.perm_insertionSort _ _

theorem values_perm (pValues : List K) : ((ordered pValues).map Prod.fst).Perm pValues := by
  have vs : pValues.zipIdx.map Prod.fst = pValues := List.zipIdx_map_fst 0 pValues
  exact ((ordered_perm pValues).map Prod.fst).trans (List.Perm.of_eq vs)

theorem length_ordered (pValues : List K) : (ordered pValues).length = pValues.length := by
  rw [(ordered_perm pValues).length_eq, List.length_zipIdx]

theorem nodup_indices (pValues : List K) : ((ordered pValues).reverse.map Prod.snd).Nodup := by
  rw [List.map_reverse, List.nodup_reverse, ((ordered_perm pValues).map Prod.snd).nodup_iff]
  exact List.nodup_zipIdx_map_snd pValues

theorem sorted_values (pValues : List K) : ((ordered pValues).map Prod.fst).Pairwise (· ≤ ·) := by
  rw [List.pairwise_map]
  have : Std.Total fun item other : K × ℕ => item.1 ≤ other.1 :=
    ⟨fun item other => le_total item.1 other.1⟩
  have : IsTrans (K × ℕ) fun item other => item.1 ≤ other.1 := ⟨fun _ _ _ => le_trans⟩
  exact List.pairwise_insertionSort _ _

theorem ordered_mono {pValues : List K} {s r : ℕ} {item other : K × ℕ}
    (at_ : (ordered pValues)[s]? = some item) (here : (ordered pValues)[r]? = some other)
    (upTo : s ≤ r) : item.1 ≤ other.1 := by
  obtain ⟨hin, rfl⟩ := List.getElem?_eq_some_iff.mp at_
  obtain ⟨hle, rfl⟩ := List.getElem?_eq_some_iff.mp here
  exact (List.pairwise_map.mp (sorted_values pValues)).rel_get_of_le (by simpa using upTo)

theorem exists_position {pValues : List K} {i : ℕ} {pValue : K} (hp : pValues[i]? = some pValue) :
    ∃ s : ℕ, (ordered pValues)[s]? = some (pValue, i) := by
  have mem : (pValue, i) ∈ ordered pValues := by
    rw [(ordered_perm pValues).mem_iff, List.mem_zipIdx_iff_getElem?]
    exact hp
  exact List.getElem?_of_mem mem

theorem exists_position_iff {pValues : List K} {C : K → ℕ → Prop} {s : ℕ} {item : K × ℕ}
    (at_ : (ordered pValues)[s]? = some item)
    (easier : ∀ v ∈ pValues, ∀ r r', 0 < r → r ≤ r' → C v r → C v r') :
    (∃ r, s ≤ r ∧ ∃ other, (ordered pValues)[r]? = some other ∧ C other.1 (r + 1)) ↔
      ∃ v ∈ pValues, item.1 ≤ v ∧ C v (Ranks.countUpTo pValues v) := by
  obtain ⟨hin, here⟩ := List.getElem?_eq_some_iff.mp at_
  have hle : s < ((ordered pValues).map Prod.fst).length := by rwa [List.length_map]
  have ranked := Ranks.exists_rank_iff (sorted_values pValues) hle (C := C)
    fun v mem => easier v ((values_perm pValues).mem_iff.mp mem)
  simp only [List.getElem_map, List.length_map, here, (values_perm pValues).mem_iff,
    Ranks.countUpTo_perm (values_perm pValues)] at ranked
  rw [← ranked]
  constructor
  · rintro ⟨r, from_, other, hp, meets⟩
    obtain ⟨bound, rfl⟩ := List.getElem?_eq_some_iff.mp hp
    exact ⟨r, bound, from_, meets⟩
  · rintro ⟨r, bound, from_, meets⟩
    exact ⟨r, from_, _, List.getElem?_eq_getElem bound, meets⟩
end

section
variable {K : Type*} [Field K] [LinearOrder K] {q t : K} {n : ℕ}

/-- The item at an index meets the threshold of its rank. -/
def Meets (q : K) (n : ℕ) (items : List (K × ℕ)) (j : ℕ) : Prop :=
  ∃ item, items[j]? = some item ∧ item.1 ≤ q * ((j + 1 : ℕ) : K) / n

theorem thresholdLoop_append {front : List (K × ℕ)} {item : K × ℕ} {rank : ℕ} {found : Option ℕ} :
    thresholdLoop q n (front ++ [item]) (rank + 1) found =
      if item.1 ≤ q * ((rank + front.length + 1 : ℕ) : K) / n then some (rank + front.length)
      else thresholdLoop q n front (rank + 1) found := by
  induction front generalizing rank found with
  | nil => rfl
  | cons first rest ih =>
    have shift : rank + 1 + rest.length = rank + (rest.length + 1) := by omega
    rw [List.cons_append, thresholdLoop, ih, List.length_cons, shift]
    rfl

theorem meets_append {front : List (K × ℕ)} {item : K × ℕ} {j : ℕ} :
    Meets q n (front ++ [item]) j ↔
      Meets q n front j ∨ j = front.length ∧ item.1 ≤ q * ((front.length + 1 : ℕ) : K) / n := by
  rcases lt_trichotomy j front.length with before | rfl | after
  · simp [Meets, List.getElem?_append_left before, before.ne]
  · simp [Meets]
  · have past : (front ++ [item])[j]? = none := List.getElem?_eq_none (by simp; omega)
    have hbe : front[j]? = none := List.getElem?_eq_none after.le
    simp [Meets, past, hbe, after.ne']

theorem thresholdLoop_spec (items : List (K × ℕ)) :
    (∀ k, thresholdLoop q n items 1 none = some k → Meets q n items k) ∧
    ∀ j, Meets q n items j → ∃ k, thresholdLoop q n items 1 none = some k ∧ j ≤ k := by
  induction items using List.reverseRecOn with
  | nil =>
    refine ⟨fun k last => ?_, fun j meets => ?_⟩
    · cases last
    · obtain ⟨item, hab, -⟩ := meets
      cases hab
  | append_singleton front item ih =>
    have unfolded := @thresholdLoop_append K _ _ q n front item 0 none
    simp only [Nat.zero_add] at unfolded
    rw [unfolded]
    by_cases meets : item.1 ≤ q * ((front.length + 1 : ℕ) : K) / n
    · rw [if_pos meets]
      refine ⟨fun k last => ?_, fun j met => ⟨front.length, rfl, ?_⟩⟩
      · cases last
        exact meets_append.mpr (.inr ⟨rfl, meets⟩)
      · obtain ⟨hf, hp, -⟩ := met
        have hin := (List.getElem?_eq_some_iff.mp hp).1
        simp only [List.length_append, List.length_singleton] at hin
        omega
    · rw [if_neg meets]
      refine ⟨fun k last => meets_append.mpr (.inl (ih.1 k last)), fun j met => ?_⟩
      rcases meets_append.mp met with earlier | ⟨-, last⟩
      · exact ih.2 j earlier
      · exact absurd last meets

theorem qValueLoop_other {items : List (K × ℕ)} {revRank : ℕ} {running : K} {rankedQ : List K}
    {idx : ℕ} (hab : idx ∉ items.map Prod.snd) :
    (qValueLoop n items revRank running rankedQ)[idx]? = rankedQ[idx]? := by
  induction items generalizing revRank running rankedQ with
  | nil => rfl
  | cons item rest ih =>
    rw [List.map_cons, List.mem_cons, not_or] at hab
    rw [qValueLoop, ih hab.2, List.getElem?_set_ne (Ne.symm hab.1)]

theorem qValueLoop_le_iff {items : List (K × ℕ)} {revRank : ℕ} {running : K} {rankedQ : List K}
    {k : ℕ} {item : K × ℕ} (nd : (items.map Prod.snd).Nodup) (hp : items[k]? = some item)
    (hin : item.2 < rankedQ.length) :
    ∃ v, (qValueLoop n items revRank running rankedQ)[item.2]? = some v ∧
      ∀ t, v ≤ t ↔
          running ≤ t ∨
          ∃ j ≤ k, ∃ other, items[j]? = some other ∧
            other.1 * n / ((n - (revRank + j) + 1 : ℕ) : K) ≤ t := by
  induction items generalizing revRank running rankedQ k with
  | nil => cases hp
  | cons first rest ih =>
    obtain ⟨fresh, ndr⟩ := List.nodup_cons.mp nd
    rw [qValueLoop]
    cases k with
    | zero =>
      cases hp
      refine ⟨_, (qValueLoop_other fresh).trans (List.getElem?_set_self hin),
        fun t => min_le_iff.trans ?_⟩
      apply or_congr_right
      constructor
      · intro low
        exact ⟨0, le_rfl, item, rfl, low⟩
      · rintro ⟨j, upTo, other, at_, low⟩
        cases Nat.le_zero.mp upTo
        cases at_
        exact low
    | succ k =>
      have room :
          item.2 < (rankedQ.set first.2
                (min running (first.1 * n / ((n - revRank + 1 : ℕ) : K)))).length := by
        rwa [List.length_set]
      obtain ⟨v, hs, least⟩ := @ih (revRank + 1) _ _ k ndr hp room
      refine ⟨v, hs, fun t => (least t).trans ?_⟩
      have shift : ∀ j, revRank + (j + 1) = revRank + 1 + j := fun j => by omega
      rw [min_le_iff, or_assoc]
      apply or_congr_right
      constructor
      · rintro (here | ⟨j, upTo, other, at_, low⟩)
        · exact ⟨0, Nat.zero_le _, first, rfl, here⟩
        · exact ⟨j + 1, Nat.succ_le_succ upTo, other, at_, by rwa [shift]⟩
      · rintro ⟨j, upTo, other, at_, low⟩
        cases j with
        | zero =>
          cases at_
          exact .inl low
        | succ j =>
          exact .inr ⟨j, Nat.le_of_succ_le_succ upTo, other, at_, by rwa [← shift]⟩
end

section
variable {K : Type*} [Field K] [LinearOrder K] [IsStrictOrderedRing K] {pValues : List K}
  {q pValue : K} {i : ℕ}

/-- The threshold of a value at the number of values up to it. -/
def StepsUp (q : K) (pValues : List K) (pValue : K) : Prop :=
  ∃ value ∈ pValues, pValue ≤ value ∧
    value ≤ q * (Ranks.countUpTo pValues value : K) / pValues.length

theorem threshold_easier (nn : 0 ≤ q) (n : ℕ) (v : K) (r r' : ℕ) (higher : r ≤ r')
    (meets : v ≤ q * (r : K) / n) : v ≤ q * (r' : K) / n := by
  refine meets.trans ?_
  gcongr

theorem mask_eq_true_iff (nn : 0 ≤ q) (hp : pValues[i]? = some pValue) :
    (benjaminiHochbergMask pValues q)[i]? = some true ↔ StepsUp q pValues pValue := by
  obtain ⟨s, at_⟩ := exists_position hp
  have ranks := exists_position_iff (C := fun v r => v ≤ q * (r : K) / pValues.length) at_
    fun v _ r r' _ => threshold_easier nn _ v r r'
  rw [StepsUp, ← ranks]
  obtain ⟨last, greatest⟩ := @thresholdLoop_spec K _ _ q pValues.length (ordered pValues)
  unfold benjaminiHochbergMask
  cases hf : thresholdLoop q pValues.length (ordered pValues) 1 none with
  | none =>
    constructor
    · intro marked
      rw [List.getElem?_replicate] at marked
      split at marked <;> cases marked
    · rintro ⟨r, -, other, here, meets⟩
      obtain ⟨k, ends, -⟩ := greatest r ⟨other, here, meets⟩
      cases hf.symm.trans ends
  | some k =>
    obtain ⟨cutoff, atCutoff, meetsCutoff⟩ := last k hf
    have marked :
        (pValues.map fun pValue => (ordered pValues)[k]?.any fun cutoff => pValue ≤ cutoff.1)[i]? =
          some true ↔ pValue ≤ cutoff.1 := by
      simp [hp, atCutoff]
    rw [marked]
    constructor
    · intro below
      by_cases hr : s ≤ k
      · exact ⟨k, hr, cutoff, atCutoff, meetsCutoff⟩
      · -- a tie behind the cutoff meets its own, later threshold
        exact ⟨s, le_rfl, _, at_, threshold_easier nn _ _ _ _ (by omega) (below.trans meetsCutoff)⟩
    · rintro ⟨r, from_, other, here, meets⟩
      obtain ⟨k', ends, upTo⟩ := greatest r ⟨other, here, meets⟩
      cases hf.symm.trans ends
      exact ordered_mono at_ atCutoff (from_.trans upTo)

theorem quotient_easier {n : ℕ} {v t : K} (nn : 0 ≤ v) (r r' : ℕ) (pos : 0 < r) (higher : r ≤ r')
    (meets : v * n / (r : K) ≤ t) : v * n / (r' : K) ≤ t := by
  refine le_trans ?_ meets
  have first : (0 : K) < r := Nat.cast_pos.mpr pos
  gcongr

theorem qValue_le_iff (nn : ∀ v ∈ pValues, 0 ≤ v) (hp : pValues[i]? = some pValue) :
    ∃ v, (bhQValues pValues)[i]? = some v ∧
      ∀ t, v ≤ t ↔
          1 ≤ t ∨
          ∃ other ∈ pValues, pValue ≤ other ∧
            other * pValues.length / (Ranks.countUpTo pValues other : K) ≤ t := by
  obtain ⟨s, at_⟩ := exists_position hp
  have size := length_ordered pValues
  have hin : s < pValues.length := size ▸ (List.getElem?_eq_some_iff.mp at_).1
  have reversed : (ordered pValues).reverse[pValues.length - 1 - s]? = some (pValue, i) := by
    rw [List.getElem?_reverse (by omega), size,
      show pValues.length - 1 - (pValues.length - 1 - s) = s by omega]
    exact at_
  have room : i < (List.replicate pValues.length (0 : K)).length := by
    rw [List.length_replicate]
    exact (List.getElem?_eq_some_iff.mp hp).1
  obtain ⟨v, hs, least⟩ := @qValueLoop_le_iff K _ _ pValues.length _ 1 1 _ _ _
    (nodup_indices pValues) reversed room
  refine ⟨v, hs, fun t => (least t).trans (or_congr_right ?_)⟩
  have ranks := exists_position_iff (C := fun v r => v * pValues.length / (r : K) ≤ t) at_
    fun v mem r r' => quotient_easier (nn v mem) r r'
  rw [← ranks]
  exact Ranks.exists_reverse_iff size hin
    (P := fun other r => other.1 * pValues.length / (r : K) ≤ t)
end

section
variable {K : Type*} {rows : List (Row K)} {row : Row K} {i : ℕ} {familyId : String}

def familyPValues (rows : List (Row K)) (familyId : String) : List K :=
  (rows.filter fun row => row.tested ∧ row.familyId = familyId).map Row.pValue

def familyItems (rows : List (Row K)) (familyId : String) : List (Row K × ℕ) :=
  rows.zipIdx.filter fun item => item.1.tested ∧ item.1.familyId = familyId

theorem mem_byFamily {items : List (Row K × ℕ)} (mem : (familyId, items) ∈ byFamily rows) :
    items = familyItems rows familyId := by
  rw [← Grouping.itemsOf_of_mem Grouping.nodup_group mem, Grouping.itemsOf_group,
    List.filter_filter]
  apply List.filter_congr
  intro item _
  simp [Bool.and_comm]

theorem familyItems_mem (here : rows[i]? = some row) (tested : row.tested = true) :
    (row.familyId, familyItems rows row.familyId) ∈ byFamily rows := by
  have stands : Grouping.Holds (byFamily rows) row.familyId (row, i) :=
    Grouping.holds_group.mpr
      ⟨List.mem_filter.mpr ⟨List.mem_zipIdx_iff_getElem?.mpr here, tested⟩, rfl⟩
  obtain ⟨items, mem, -⟩ := stands
  rwa [← mem_byFamily mem]

theorem mem_familyItems {item : Row K × ℕ} (mem : item ∈ familyItems rows familyId) :
    rows[item.2]? = some item.1 ∧ item.1.tested = true ∧ item.1.familyId = familyId := by
  obtain ⟨indexed, both⟩ := List.mem_filter.mp mem
  exact ⟨List.mem_zipIdx_iff_getElem?.mp indexed, of_decide_eq_true both⟩

theorem nodup_familyIndices : ((familyItems rows familyId).map Prod.snd).Nodup :=
  (List.nodup_zipIdx_map_snd rows).sublist (List.filter_sublist.map _)

theorem disjoint_families :
    ((byFamily rows).map fun family => family.2.map Prod.snd).Pairwise List.Disjoint := by
  rw [List.pairwise_map]
  have nd := @Grouping.nodup_group _ _ _ (rows.zipIdx.filter fun item => item.1.tested) fun item =>
    item.1.familyId
  refine (List.pairwise_map.mp nd).imp_of_mem ?_
  rintro ⟨familyId, items⟩ ⟨other, others⟩ mem snd differ j inItems inOthers
  rw [mem_byFamily mem] at inItems
  rw [mem_byFamily snd] at inOthers
  obtain ⟨⟨first, _⟩, memberFirst, rfl⟩ := List.mem_map.mp inItems
  obtain ⟨⟨last, _⟩, memberLast, same⟩ := List.mem_map.mp inOthers
  obtain ⟨atFirst, -, family⟩ := mem_familyItems memberFirst
  obtain ⟨atLast, -, familyLast⟩ := mem_familyItems memberLast
  simp only at same
  subst same
  cases atFirst.symm.trans atLast
  exact differ (family.symm.trans familyLast)

theorem map_familyItems :
    (familyItems rows familyId).map (fun item => item.1.pValue) = familyPValues rows familyId := by
  have vs : rows.zipIdx.map Prod.fst = rows := List.zipIdx_map_fst 0 rows
  rw [familyPValues, ← vs, List.filter_map, List.map_map, vs]
  rfl

theorem pValuesAt_familyItems {out : List (Row K)}
    (same : ∀ j : ℕ, out[j]?.map Row.pValue = rows[j]?.map Row.pValue) :
    pValuesAt out ((familyItems rows familyId).map Prod.snd) = familyPValues rows familyId := by
  rw [← map_familyItems, pValuesAt, List.filterMap_map, ← List.filterMap_eq_map]
  apply List.filterMap_congr
  intro item mem
  simp [same, (mem_familyItems mem).1]
end

section
variable {K : Type*} [Field K] [LinearOrder K] {q : K} {rows : List (Row K)} {row : Row K} {i : ℕ}

variable {out : List (Row K)} {indices : List ℕ}

theorem getElem?_judgeFamily_other (hab : i ∉ indices) :
    (judgeFamily q out indices)[i]? = out[i]? := by
  apply Scatter.getElem?_writeAll_other
  rwa [List.zipIdx_map_fst]

theorem getElem?_judgeFamily {lix : ℕ} (nd : indices.Nodup) (here : indices[lix]? = some i) :
    (judgeFamily q out indices)[i]? = out[i]?.map (Row.judged q (pValuesAt out indices) lix) := by
  apply Scatter.getElem?_writeAll
  · rwa [List.zipIdx_map_fst]
  · exact List.mem_zipIdx_iff_getElem?.mpr here

theorem pValuesAt_judgeFamily {others : List ℕ} :
    pValuesAt (judgeFamily q out indices) others = pValuesAt out others := by
  apply List.filterMap_congr
  intro j _
  have keep : ∀ lix row, (Row.judged q (pValuesAt out indices) lix row).pValue = row.pValue :=
    fun _ _ => rfl
  exact Scatter.map_getElem?_writeAll keep j

theorem foldl_judgeFamily_other {fams : List (List ℕ)}
    (hab : ∀ indices ∈ fams, i ∉ indices) : (fams.foldl (judgeFamily q) out)[i]? = out[i]? := by
  induction fams generalizing out with
  | nil => rfl
  | cons first rest ih =>
    refine (ih fun indices mem => hab indices (List.mem_cons_of_mem _ mem)).trans ?_
    exact getElem?_judgeFamily_other (hab first List.mem_cons_self)

theorem foldl_judgeFamily {fams : List (List ℕ)} {lix : ℕ} (hne : fams.Pairwise List.Disjoint)
    (nd : indices.Nodup) (mem : indices ∈ fams) (here : indices[lix]? = some i) :
    (fams.foldl (judgeFamily q) out)[i]? =
      out[i]?.map (Row.judged q (pValuesAt out indices) lix) := by
  induction fams generalizing out with
  | nil => cases mem
  | cons first rest ih =>
    obtain ⟨apartFirst, apartRest⟩ := List.pairwise_cons.mp hne
    have hp : i ∈ indices := List.mem_of_getElem? here
    rw [List.foldl_cons]
    rcases List.mem_cons.mp mem with rfl | later
    · rw [foldl_judgeFamily_other fun others inRest taken => apartFirst others inRest hp taken]
      exact getElem?_judgeFamily nd here
    · have hab : i ∉ first := fun taken => apartFirst indices later taken hp
      rw [ih apartRest later, pValuesAt_judgeFamily, getElem?_judgeFamily_other hab]

theorem getElem?_apply_untested (here : rows[i]? = some row) (untested : row.tested = false) :
    (applyFamilywiseFdr rows q)[i]? = some row.untested := by
  refine (foldl_judgeFamily_other fun indices mem taken => ?_).trans (by simp [here, untested])
  obtain ⟨⟨familyId, items⟩, group, rfl⟩ := List.mem_map.mp mem
  rw [mem_byFamily group] at taken
  obtain ⟨item, inItems, rfl⟩ := List.mem_map.mp taken
  obtain ⟨at_, tested, -⟩ := mem_familyItems inItems
  cases here.symm.trans at_
  cases untested.symm.trans tested

theorem getElem?_apply_tested (here : rows[i]? = some row) (tested : row.tested = true) :
    ∃ lix, (familyPValues rows row.familyId)[lix]? = some row.pValue ∧
      (applyFamilywiseFdr rows q)[i]? =
        some (row.judged q (familyPValues rows row.familyId) lix) := by
  have item : (row, i) ∈ familyItems rows row.familyId :=
    List.mem_filter.mpr ⟨List.mem_zipIdx_iff_getElem?.mpr here, decide_eq_true ⟨tested, rfl⟩⟩
  obtain ⟨lix, at_⟩ := List.getElem?_of_mem item
  have read : ∀ j : ℕ,
      (rows.map fun row => if row.tested then row else row.untested)[j]?.map Row.pValue =
      rows[j]?.map Row.pValue := by
    intro j
    rw [List.getElem?_map, Option.map_map]
    congr 1
    funext other
    by_cases isTested : other.tested = true <;> simp [isTested, Row.untested]
  refine ⟨lix, ?_, ?_⟩
  · rw [← map_familyItems, List.getElem?_map, at_]
    rfl
  · have judged :=
      @foldl_judgeFamily K _ _ q i (rows.map fun row => if row.tested then row else row.untested) _
      ((byFamily rows).map fun family => family.2.map Prod.snd) lix disjoint_families
        nodup_familyIndices
      (List.mem_map.mpr ⟨_, familyItems_mem here tested, rfl⟩) (by rw [List.getElem?_map, at_]; rfl)
    rw [pValuesAt_familyItems read] at judged
    refine judged.trans ?_
    simp [here, tested]
end

section
variable {K : Type*} [Field K] [LinearOrder K] [IsStrictOrderedRing K] {pValues : List K}
  {q pValue : K} {i : ℕ}

theorem quotient_le_iff {n r : ℕ} (positiveN : 0 < n) (positiveR : 0 < r) {v : K} :
    v * n / (r : K) ≤ q ↔ v ≤ q * (r : K) / n := by
  have n' : (0 : K) < n := Nat.cast_pos.mpr positiveN
  have r' : (0 : K) < r := Nat.cast_pos.mpr positiveR
  rw [div_le_iff₀ r', le_div_iff₀ n']

theorem stepsUp_of_one_le (upTo : ∀ v ∈ pValues, v ≤ 1) (mem : pValue ∈ pValues) (lv : 1 ≤ q) :
    StepsUp q pValues pValue := by
  obtain ⟨top, hin, greatest⟩ :=
    pValues.toFinset.exists_max_image id ⟨pValue, List.mem_toFinset.mpr mem⟩
  have count : Ranks.countUpTo pValues top = pValues.length :=
    List.countP_eq_length.mpr fun v hp => decide_eq_true (greatest v (List.mem_toFinset.mpr hp))
  have pos : (0 : K) < pValues.length := Nat.cast_pos.mpr (List.length_pos_of_mem mem)
  refine ⟨top, List.mem_toFinset.mp hin, greatest pValue (List.mem_toFinset.mpr mem), ?_⟩
  rw [count, mul_div_cancel_right₀ q pos.ne']
  exact (upTo top (List.mem_toFinset.mp hin)).trans lv

theorem qValue_le_level_iff (unit : ∀ v ∈ pValues, 0 ≤ v ∧ v ≤ 1) (hp : pValues[i]? = some pValue) :
    ∃ v, (bhQValues pValues)[i]? = some v ∧ (v ≤ q ↔ StepsUp q pValues pValue) := by
  obtain ⟨v, hs, least⟩ := qValue_le_iff (fun v mem => (unit v mem).1) hp
  have mem : pValue ∈ pValues := List.mem_of_getElem? hp
  refine ⟨v, hs, (least q).trans ⟨?_, fun steps => .inr ?_⟩⟩
  · rintro (lv | ⟨other, hin, from_, low⟩)
    · exact stepsUp_of_one_le (fun v mem => (unit v mem).2) mem lv
    · refine ⟨other, hin, from_, (quotient_le_iff ?_ ?_).mp low⟩
      · exact List.length_pos_of_mem mem
      · exact List.countP_pos_iff.mpr ⟨other, hin, by simp⟩
  · obtain ⟨other, hin, from_, low⟩ := steps
    refine ⟨other, hin, from_, (quotient_le_iff ?_ ?_).mpr low⟩
    · exact List.length_pos_of_mem mem
    · exact List.countP_pos_iff.mpr ⟨other, hin, by simp⟩

/-- The step-up condition in terms of the ranks of the family, whichever rank a tied value is
given. -/
theorem stepsUp_iff_rank (nn : 0 ≤ q) {rank : ℕ}
    (hin : rank < (pValues.insertionSort (· ≤ ·)).length) :
    StepsUp q pValues (pValues.insertionSort (· ≤ ·))[rank] ↔
      ∃ (r : ℕ) (hle : r < (pValues.insertionSort (· ≤ ·)).length), rank ≤ r ∧
        (pValues.insertionSort (· ≤ ·))[r] ≤ q * ((r + 1 : ℕ) : K) / pValues.length := by
  have same := List.perm_insertionSort (· ≤ ·) pValues
  rw [Ranks.exists_rank_iff (List.pairwise_insertionSort (· ≤ ·) pValues) hin
    (C := fun v r => v ≤ q * (r : K) / pValues.length)
    fun v _ r r' _ => threshold_easier nn _ v r r']
  simp only [StepsUp, same.mem_iff, Ranks.countUpTo_perm same]

omit [IsStrictOrderedRing K] in
theorem stepsUp_perm {others : List K} (same : pValues.Perm others) :
    StepsUp q pValues pValue ↔ StepsUp q others pValue := by
  simp only [StepsUp, same.mem_iff, Ranks.countUpTo_perm same, same.length_eq]

theorem qValue_perm {others : List K} {j : ℕ} (nn : ∀ v ∈ pValues, 0 ≤ v)
    (same : pValues.Perm others) (hp : pValues[i]? = some pValue) (snd : others[j]? = some pValue) :
    (bhQValues pValues)[i]? = (bhQValues others)[j]? := by
  obtain ⟨v, hs, least⟩ := qValue_le_iff nn hp
  obtain ⟨other, hsO, leastOther⟩ :=
    qValue_le_iff (fun v mem => nn v (same.mem_iff.mpr mem)) snd
  have equal : v = other := by
    apply eq_of_forall_ge_iff
    intro t
    rw [least, leastOther]
    simp only [same.mem_iff, Ranks.countUpTo_perm same, same.length_eq]
  rw [hs, hsO, equal]

omit [IsStrictOrderedRing K] in
theorem selected_judged {row : Row K} :
    (row.judged q pValues i).selectedPostFdr = 0 ∨
    (row.judged q pValues i).selectedPostFdr = 1 := by
  unfold Row.judged
  split
  · exact .inr rfl
  · exact .inl rfl

omit [IsStrictOrderedRing K] in
theorem selected_judged_iff {row : Row K} :
    (row.judged q pValues i).selectedPostFdr = 1 ↔
      (benjaminiHochbergMask pValues q)[i]? = some true := by
  unfold Row.judged
  split <;> simp_all

omit [IsStrictOrderedRing K] in
theorem familyPValues_unit {rows : List (Row K)}
    (unit : ∀ row ∈ rows, row.tested = true → 0 ≤ row.pValue ∧ row.pValue ≤ 1) (familyId : String) :
    ∀ v ∈ familyPValues rows familyId, 0 ≤ v ∧ v ≤ 1 := by
  intro v mem
  obtain ⟨row, inFamily, rfl⟩ := List.mem_map.mp mem
  obtain ⟨hin, both⟩ := List.mem_filter.mp inFamily
  exact unit row hin (of_decide_eq_true both).1

/-- The mask selects a tested row just when its q-value is up to the level, that is, when some rank
from the row's on meets its threshold; a row's result depends only on its p-value and its family's
values. -/
theorem mask_agrees_with_q_values (rows : List (Row K)) (q : K) (nn : 0 ≤ q)
    (unit : ∀ row ∈ rows, row.tested = true → 0 ≤ row.pValue ∧ row.pValue ≤ 1) :
    (∀ (i : ℕ) (row : Row K), rows[i]? = some row → row.tested = true →
        ∃ (value : K) (selected : ℕ),
          (applyFamilywiseFdr rows q)[i]? =
            some { row with qValue := some value, selectedPostFdr := selected } ∧
          (selected = 0 ∨ selected = 1) ∧
          (selected = 1 ↔ value ≤ q) ∧
          ∀ (rank : ℕ) (hin : rank < ((familyPValues rows row.familyId).insertionSort
                (· ≤ ·)).length),
            ((familyPValues rows row.familyId).insertionSort (· ≤ ·))[rank] = row.pValue →
            (selected = 1 ↔
                ∃ (r : ℕ) (hle : r < ((familyPValues rows row.familyId).insertionSort
                      (· ≤ ·)).length), rank ≤ r ∧
                  ((familyPValues rows row.familyId).insertionSort (· ≤ ·))[r] ≤
                    q * ((r + 1 : ℕ) : K) / (familyPValues rows row.familyId).length)) ∧
    (∀ (i : ℕ) (row : Row K), rows[i]? = some row → row.tested = false →
        (applyFamilywiseFdr rows q)[i]? = some { row with qValue := none, selectedPostFdr := 0 }) ∧
    ∀ (others : List (Row K)) (i j : ℕ) (row other : Row K), rows[i]? = some row →
      others[j]? = some other → row.tested = true → other.tested = true →
      row.pValue = other.pValue →
      (familyPValues rows row.familyId).Perm (familyPValues others other.familyId) →
      (applyFamilywiseFdr rows q)[i]?.map (fun out => (out.qValue, out.selectedPostFdr)) =
        (applyFamilywiseFdr others q)[j]?.map fun out => (out.qValue, out.selectedPostFdr) := by
  refine ⟨fun i row here tested => ?_,
    fun i row here untested => getElem?_apply_untested here untested,
    fun others i j row other here there tested testedOther equal same => ?_⟩
  · obtain ⟨lix, hp, result⟩ := getElem?_apply_tested (q := q) here tested
    obtain ⟨value, hs, agrees⟩ :=
      qValue_le_level_iff (q := q) (familyPValues_unit unit row.familyId) hp
    have marked := mask_eq_true_iff nn hp
    refine ⟨value, (row.judged q (familyPValues rows row.familyId) lix).selectedPostFdr, ?_, ?_, ?_,
      ?_⟩
    · rw [result, Row.judged, hs]
    · exact selected_judged
    · rw [selected_judged_iff, marked, agrees]
    · intro rank hin own
      rw [selected_judged_iff, marked, ← own, stepsUp_iff_rank nn hin]
  · obtain ⟨lix, hp, result⟩ := getElem?_apply_tested (q := q) here tested
    obtain ⟨otherIdx, hpO, resultOther⟩ := getElem?_apply_tested (q := q) there testedOther
    rw [← equal] at hpO
    have masks : (benjaminiHochbergMask (familyPValues rows row.familyId) q)[lix]? = some true ↔
        (benjaminiHochbergMask (familyPValues others other.familyId) q)[otherIdx]? = some true := by
      rw [mask_eq_true_iff nn hp, mask_eq_true_iff nn hpO, stepsUp_perm same]
    have qValues :=
      qValue_perm (fun value mem => (familyPValues_unit unit row.familyId value mem).1) same hp hpO
    rw [result, resultOther]
    simp only [Option.map_some, Row.judged, qValues, masks]
end

def sampleRows : List (Row ℚ) :=
  [⟨"family", true, 30 / 100, none, 0⟩, ⟨"family", true, 1 / 100, none, 0⟩,
    ⟨"family", false, 0, none, 0⟩, ⟨"family", true, 4 / 100, none, 0⟩]

example :
    (applyFamilywiseFdr sampleRows (1 / 10)).map (fun row => (row.qValue, row.selectedPostFdr)) =
      [(some (3 / 10), 0), (some (3 / 100), 1), (none, 0), (some (6 / 100), 1)] := by
  decide +kernel

theorem sampleRows_agree :
    (∀ row ∈ sampleRows, row.tested = true → 0 ≤ row.pValue ∧ row.pValue ≤ 1) ∧
    ∃ (v : ℚ) (sel : ℕ),
      (applyFamilywiseFdr sampleRows (1 / 10))[3]? = some ⟨"family", true, 4 / 100, some v, sel⟩ ∧
      (sel = 1 ↔ v ≤ 1 / 10) := by
  have unit : ∀ row ∈ sampleRows, row.tested = true → 0 ≤ row.pValue ∧ row.pValue ≤ 1 := by
    decide +kernel
  obtain ⟨v, sel, result, -, agrees, -⟩ :=
    (mask_agrees_with_q_values sampleRows (1 / 10) (by norm_num) unit).1 3
      ⟨"family", true, 4 / 100, none, 0⟩ rfl rfl
  exact ⟨unit, v, sel, result, agrees⟩

end Zeus.SelectionFamily
