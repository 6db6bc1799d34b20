import Zeus.Lib.FractionalFill
import Zeus.Solve.LowerCvar

/-! The lower tail mean is the least mean under a mixture that gives no draw more than its weight's
share of the tail. -/

namespace Zeus.LowerCvar

section
variable {α : Type*} [Field α] [LinearOrder α] [IsStrictOrderedRing α] [FloorRing α] {alpha : α}

/-- The draws before the boundary weigh less than the target, with the boundary draw they reach
it. -/
structure Boundary (ordered : List (α × α)) (target : α) (front : List (α × α)) (last : α × α)
    (back : List (α × α)) : Prop where
  split : ordered = front ++ last :: back
  below : (front.map Prod.snd).sum < target
  reached : target ≤ (front.map Prod.snd).sum + last.2

def tailMean (front : List (α × α)) (last : α × α) (target : α) : α :=
  ((front.map fun draw => draw.2 * draw.1).sum + (target - (front.map Prod.snd).sum) * last.1) /
    target

variable {ordered draws : List (α × α)}

omit [IsStrictOrderedRing α] [FloorRing α] in
theorem findIdx_cumulative {target : α} (positive : 0 < target)
    (atMost : target ≤ (ordered.map Prod.snd).sum) {idx : ℕ}
    (is : ((List.range ordered.length).map fun i =>
          ((ordered.take (i + 1)).map Prod.snd).sum).findIdx (fun weight => target ≤ weight) =
        idx) :
    idx < ordered.length ∧
    ((ordered.take idx).map Prod.snd).sum < target ∧
    target ≤ ((ordered.take (idx + 1)).map Prod.snd).sum := by
  have ne : ordered ≠ [] := by
    rintro rfl
    exact absurd atMost (not_le.mpr positive)
  -- the last cumulative weight is the whole
  have whole : ∃ weight ∈ (List.range ordered.length).map fun i =>
      ((ordered.take (i + 1)).map Prod.snd).sum,
      decide (target ≤ weight) = true := by
    refine ⟨_, List.mem_map.mpr ⟨ordered.length - 1, List.mem_range.mpr ?_, rfl⟩, ?_⟩
    · exact Nat.sub_one_lt (mt List.length_eq_zero_iff.mp ne)
    · rw [Nat.sub_add_cancel (List.length_pos_iff.mpr ne), List.take_length]
      exact decide_eq_true atMost
  have hin := List.findIdx_lt_length.mpr whole
  rw [is] at hin
  obtain ⟨reached, below⟩ := (List.findIdx_eq hin).mp is
  simp only [List.getElem_map, List.getElem_range, decide_eq_true_eq, decide_eq_false_iff_not,
    not_le] at reached below
  refine ⟨by simpa using hin, ?_, reached⟩
  cases idx with
  | zero => simpa using positive
  | succ k => exact below k k.lt_succ_self

omit [FloorRing α] in
theorem weightedTail_boundary (positive : 0 < alpha * (draws.map Prod.snd).sum)
    (atMost : alpha * (draws.map Prod.snd).sum ≤ (draws.map Prod.snd).sum) :
    ∃ front last back,
      Boundary (draws.insertionSort fun left right => left.1 ≤ right.1)
        (alpha * (draws.map Prod.snd).sum) front last back ∧
      weightedTail draws alpha = tailMean front last (alpha * (draws.map Prod.snd).sum) := by
  have sums : ((draws.insertionSort fun left right => left.1 ≤ right.1).map Prod.snd).sum =
      (draws.map Prod.snd).sum := ((List.perm_insertionSort _ _).map _).sum_eq
  simp only [weightedTail, sums]
  generalize alpha * (draws.map Prod.snd).sum = target at positive atMost ⊢
  rw [← sums] at atMost
  generalize draws.insertionSort (fun left right => left.1 ≤ right.1) = ordered at atMost ⊢
  generalize is : ((List.range ordered.length).map fun i =>
      ((ordered.take (i + 1)).map Prod.snd).sum).findIdx
    (fun weight => target ≤ weight) = idx
  obtain ⟨hin, below, reached⟩ := findIdx_cumulative positive atMost is
  rw [← List.take_append_getElem hin, List.map_append, List.sum_append, List.map_singleton,
    List.sum_singleton] at reached
  refine ⟨ordered.take idx, ordered[idx], ordered.drop (idx + 1), ⟨?_, below, reached⟩, ?_⟩
  · rw [List.getElem_cons_drop, List.take_append_drop]
  · rw [if_neg (not_le.mpr positive), min_eq_left (Nat.le_sub_one_of_lt hin),
      if_pos (sub_pos.mpr below), tailMean]
    simp [List.getD_eq_getElem?_getD, hin]

omit [IsStrictOrderedRing α] in
theorem le_boundaryIndex {n : ℕ} {target : α} (positive : 0 < target) (atMost : target ≤ n) :
    target ≤ boundaryIndex n target + 1 := by
  have ceil : (1 : ℤ) ≤ ⌈target⌉ := Int.one_le_ceil_iff.mpr positive
  have hle : ⌈target⌉ ≤ n := Int.ceil_le.mpr (by exact_mod_cast atMost)
  have is : ((boundaryIndex n target : ℕ) : ℤ) + 1 = ⌈target⌉ := by
    unfold boundaryIndex
    omega
  calc target ≤ (⌈target⌉ : α) := Int.le_ceil target
    _ = boundaryIndex n target + 1 := by rw [← is]; push_cast; rfl

theorem uniformTail_boundary (unit : ∀ draw ∈ draws, draw.2 = 1) (ne : draws ≠ [])
    (positive : 0 < alpha) (atMost : alpha ≤ 1) :
    ∃ front last back,
      Boundary (draws.insertionSort fun left right => left.1 ≤ right.1)
        (alpha * (draws.map Prod.snd).sum) front last back ∧
      uniformTail (draws.map Prod.fst) alpha =
        tailMean front last (alpha * (draws.map Prod.snd).sum) := by
  have weights (sample : List (α × α)) (ones : ∀ draw ∈ sample, draw.2 = 1) :
      (sample.map Prod.snd).sum = sample.length := by
    rw [List.map_congr_left ones]
    simp
  have products (sample : List (α × α)) (ones : ∀ draw ∈ sample, draw.2 = 1) :
      (sample.map fun draw => draw.2 * draw.1) = sample.map Prod.fst :=
    List.map_congr_left fun draw mem => by rw [ones draw mem, one_mul]
  have vs : draws.map Prod.fst ≠ [] := by simpa using ne
  have sorts : (draws.map Prod.fst).insertionSort (· ≤ ·) =
      (draws.insertionSort fun left right => left.1 ≤ right.1).map Prod.fst :=
    (List.map_insertionSort (fun left right : α × α => left.1 ≤ right.1) (· ≤ ·) Prod.fst draws
      fun _ _ _ _ => Iff.rfl).symm
  obtain ⟨hin, below⟩ := boundaryIndex_lt vs positive
  have reached := le_boundaryIndex (target_pos vs positive)
    (mul_le_of_le_one_left (Nat.cast_nonneg (draws.map Prod.fst).length) atMost)
  rw [uniformTail_eq vs positive, sorts, weights draws unit]
  rw [List.length_map] at hin below reached ⊢
  generalize boundaryIndex draws.length (alpha * draws.length) = idx at hin below reached ⊢
  have ones : ∀ draw ∈ draws.insertionSort (fun left right => left.1 ≤ right.1), draw.2 = 1 :=
    fun draw mem =>
    unit draw ((List.mem_insertionSort _).mp mem)
  rw [← List.length_insertionSort (fun left right : α × α => left.1 ≤ right.1) draws] at hin
  generalize draws.insertionSort (fun left right => left.1 ≤ right.1) = ordered at hin ones ⊢
  have front : ((ordered.take idx).map Prod.snd).sum = idx := by
    rw [weights _ fun draw mem => ones draw (List.mem_of_mem_take mem),
      List.length_take_of_le hin.le]
  refine ⟨ordered.take idx, ordered[idx], ordered.drop (idx + 1), ⟨?_, front ▸ below, ?_⟩, ?_⟩
  · rw [List.getElem_cons_drop, List.take_append_drop]
  · rw [front, ones _ (List.getElem_mem hin)]
    exact reached
  · rw [tailMean, front, products _ fun draw mem => ones draw (List.mem_of_mem_take mem)]
    simp [List.getD_eq_getElem?_getD, hin]

theorem lowerCvar_boundary (hne : draws.filter (fun draw => 0 < draw.2) ≠ []) (positive : 0 < alpha)
    (atMost : alpha ≤ 1) :
    ∃ front last back,
      Boundary ((draws.filter fun draw => 0 < draw.2).insertionSort fun left right =>
          left.1 ≤ right.1) (alpha * ((draws.filter fun draw => 0 < draw.2).map Prod.snd).sum) front
        last back ∧
      lowerCvar draws alpha = (tailMean front last
            (alpha * ((draws.filter fun draw => 0 < draw.2).map Prod.snd).sum) : α) := by
  have weight : ∀ draw ∈ draws.filter (fun draw => 0 < draw.2), 0 < draw.2 := by simp
  simp only [lowerCvar]
  generalize draws.filter (fun draw => 0 < draw.2) = kept at hne weight ⊢
  have total : 0 < (kept.map Prod.snd).sum :=
    List.sum_pos _ (List.forall_mem_map.mpr weight) (by simpa using hne)
  rw [if_neg hne]
  split_ifs with unit
  · obtain ⟨front, last, back, bnd, is⟩ := uniformTail_boundary unit hne positive atMost
    exact ⟨front, last, back, bnd, congrArg _ is⟩
  · obtain ⟨front, last, back, bnd, is⟩ := weightedTail_boundary (mul_pos positive total)
      (mul_le_of_le_one_left total.le atMost)
    exact ⟨front, last, back, bnd, congrArg _ is⟩

omit [FloorRing α] in
theorem Boundary.length_le {front front' back back' : List (α × α)} {last last' : α × α}
    {target : α} (nonneg : ∀ draw ∈ ordered, 0 ≤ draw.2)
    (bnd : Boundary ordered target front last back)
    (boundary' : Boundary ordered target front' last' back') : front'.length ≤ front.length := by
  by_contra longer
  have taken : front ++ [last] <+: ordered := ⟨back, by rw [bnd.split]; simp⟩
  have taken' : front' <+: ordered := ⟨last' :: back', boundary'.split.symm⟩
  obtain ⟨more, rfl⟩ := List.prefix_of_prefix_length_le taken taken' (by simpa using longer)
  have rest : 0 ≤ (more.map Prod.snd).sum :=
    List.sum_nonneg (List.forall_mem_map.mpr fun draw mem =>
      nonneg draw (taken'.subset (List.mem_append_right _ mem)))
  have below := boundary'.below
  have reached := bnd.reached
  simp only [List.map_append, List.map_singleton, List.sum_append, List.sum_singleton] at below
  linarith

omit [FloorRing α] in
theorem Boundary.unique {front front' back back' : List (α × α)} {last last' : α × α} {target : α}
    (nonneg : ∀ draw ∈ ordered, 0 ≤ draw.2) (bnd : Boundary ordered target front last back)
    (boundary' : Boundary ordered target front' last' back') : front = front' ∧ last = last' := by
  have lengths := le_antisymm (boundary'.length_le nonneg bnd) (bnd.length_le nonneg boundary')
  obtain ⟨fronts, rests⟩ := List.append_inj (bnd.split.symm.trans boundary'.split) lengths
  exact ⟨fronts, (List.cons.inj rests).1⟩

theorem uniformTail_eq_weightedTail {du : List α} (ne : du ≠ []) (positive : 0 < alpha)
    (atMost : alpha ≤ 1) : uniformTail du alpha = weightedTail (unitWeights du) alpha := by
  have unit : ∀ draw ∈ unitWeights du, draw.2 = 1 := by simp [unitWeights]
  have hne : unitWeights du ≠ [] := by simpa [unitWeights] using ne
  have vs : (unitWeights du).map Prod.fst = du := by simp [unitWeights, Function.comp_def]
  have total : 0 < ((unitWeights du).map Prod.snd).sum :=
    List.sum_pos _ (List.forall_mem_map.mpr fun draw mem => unit draw mem ▸ one_pos)
      (by simpa using hne)
  obtain ⟨front, last, back, bnd, isUniform⟩ := uniformTail_boundary unit hne positive atMost
  obtain ⟨front', last', back', boundary', isWeighted⟩ :=
    weightedTail_boundary (mul_pos positive total) (mul_le_of_le_one_left total.le atMost)
  have nonneg : ∀ draw ∈ (unitWeights du).insertionSort (fun left right => left.1 ≤ right.1),
        0 ≤ draw.2 :=
    fun draw mem => (unit draw ((List.mem_insertionSort _).mp mem)).symm ▸ zero_le_one
  obtain ⟨rfl, rfl⟩ := bnd.unique nonneg boundary'
  rw [isWeighted, ← isUniform, vs]
end

section
variable {ι α : Type*} [DecidableEq ι] [Field α] [LinearOrder α] {n : ℕ}

def mixtureTolerance : ℚ := 1 / 10 ^ 15

/-- The loop of `_tail_mixture`. -/
def takeTail (w : ι → α) (target : α) : List ι → α → (ι → α) → ι → α
  | [], _, mixture => mixture
  | idx :: order, remaining, mixture =>
    let take := min (w idx) remaining
    let mixture := if 0 < take then Function.update mixture idx (take / target) else mixture
    let remaining := if 0 < take then remaining - take else remaining
    if remaining ≤ (mixtureTolerance : α) then mixture
    else takeTail w target order remaining mixture

def tailOrder (d w : Fin n → α) : List (Fin n) :=
  ((List.finRange n).filter fun i => 0 < w i).insertionSort fun i j => d i ≤ d j

/-- The weight of the tail, dropped draws apart. -/
def tailTarget (w : Fin n → α) (alpha : α) : α := alpha * ∑ i with 0 < w i, w i

/-- `_tail_mixture`, with nothing for the draws that were dropped. -/
def tailMixture (d w : Fin n → α) (alpha : α) : Fin n → α :=
  takeTail w (tailTarget w alpha) (tailOrder d w) (tailTarget w alpha) fun _ => 0

def sample (d w : Fin n → α) : List (α × α) := List.ofFn fun i => (d i, w i)

/-- The means under mixtures that give no draw more than its share of the tail. -/
def tailMeans (d w : Fin n → α) (alpha : α) : Set α :=
  FractionalFill.costs (fun i => w i / tailTarget w alpha) 1 d

/-- No proper head of the tail leaves a weight within the tolerance. -/
def TailFits (d w : Fin n → α) (alpha : α) : Prop :=
  ∀ head, head ≠ [] → head <+: tailOrder d w → (head.map w).sum < tailTarget w alpha →
    (mixtureTolerance : α) < tailTarget w alpha - (head.map w).sum
end

section
variable {α : Type*} [Field α] [LinearOrder α] {n : ℕ} {d w : Fin n → α} {alpha : α}

theorem nodup_tailOrder : (tailOrder d w).Nodup :=
  (List.perm_insertionSort _ _).nodup_iff.mpr ((List.nodup_finRange n).filter _)

theorem mem_tailOrder {i : Fin n} : i ∈ tailOrder d w ↔ 0 < w i := by
  simp [tailOrder, List.mem_insertionSort]

theorem pairwise_tailOrder : (tailOrder d w).Pairwise fun i j => d i ≤ d j := by
  have total : Std.Total fun i j => d i ≤ d j := ⟨fun i j => le_total (d i) (d j)⟩
  have trans : IsTrans (Fin n) fun i j => d i ≤ d j := ⟨fun _ _ _ => le_trans⟩
  exact List.pairwise_insertionSort _ _

theorem sorted_sample :
    ((sample d w).filter fun draw => 0 < draw.2).insertionSort
      (fun left right => left.1 ≤ right.1) = (tailOrder d w).map fun i => (d i, w i) := by
  rw [tailOrder,
    List.map_insertionSort _ (fun left right : α × α => left.1 ≤ right.1) _ _
      fun _ _ _ _ => Iff.rfl,
    sample, List.ofFn_eq_map, List.filter_map]
  rfl

theorem toFinset_tailOrder : (tailOrder d w).toFinset = Finset.univ.filter fun i => 0 < w i := by
  ext i
  simp [mem_tailOrder]

theorem sum_tailOrder : ((tailOrder d w).map w).sum = ∑ i with 0 < w i, w i := by
  rw [← List.sum_toFinset w nodup_tailOrder, toFinset_tailOrder]
end

section
variable {ι α : Type*} [DecidableEq ι] [Field α] [LinearOrder α] [IsStrictOrderedRing α] {w : ι → α}
  {target : α}

theorem mixtureTolerance_pos : (0 : α) < mixtureTolerance := by
  have positive : 0 < mixtureTolerance := by norm_num [mixtureTolerance]
  exact_mod_cast positive

/-- The loop fills `front`, takes from `last` what it has or what is left, and ends there. -/
structure Stops (w : ι → α) (target : α) (order : List ι) (remaining : α) (mixture result : ι → α)
    (front : List ι) (last : ι) (back : List ι) : Prop where
  split : order = front ++ last :: back
  passed : ∀ head, head ≠ [] → head <+: front →
    (mixtureTolerance : α) < remaining - (head.map w).sum
  below : (front.map w).sum < remaining
  ends : remaining ≤ (front.map w).sum + w last ∨
    remaining - ((front.map w).sum + w last) ≤ (mixtureTolerance : α) ∨ back = []
  result : ∀ i, result i = if i ∈ front then w i / target
    else if i = last then min (w last) (remaining - (front.map w).sum) / target
    else mixture i

variable {order front back : List ι} {idx last : ι} {remaining : α} {mixture result : ι → α}

theorem Stops.here (left : 0 < remaining)
    (ends : remaining ≤ w idx ∨ remaining - w idx ≤ (mixtureTolerance : α) ∨ order = []) :
    Stops w target (idx :: order) remaining mixture
      (Function.update mixture idx (min (w idx) remaining / target)) [] idx order where
  split := rfl
  passed head nonempty taken := absurd (List.prefix_nil.mp taken) nonempty
  below := by simpa using left
  ends := by simpa using ends
  result i := by simp [Function.update_apply]

theorem Stops.later (more : (mixtureTolerance : α) < remaining - w idx) (fresh : idx ∉ order)
    (stops : Stops w target order (remaining - w idx) (Function.update mixture idx (w idx / target))
        result
      front last back) : Stops w target (idx :: order) remaining mixture result (idx :: front) last
        back where
  split := by rw [stops.split, List.cons_append]
  passed head ne taken := by
    rcases List.prefix_cons_iff.mp taken with rfl | ⟨rest, rfl, inner⟩
    · exact absurd rfl ne
    · rw [List.map_cons, List.sum_cons, ← sub_sub]
      rcases eq_or_ne rest [] with rfl | ne
      · simpa using more
      · exact stops.passed rest ne inner
  below := by
    have below := stops.below
    rw [List.map_cons, List.sum_cons]
    linarith
  ends := by
    rw [List.map_cons, List.sum_cons]
    rcases stops.ends with enough | close | done
    · exact .inl (by linarith)
    · exact .inr (.inl (by linarith))
    · exact .inr (.inr done)
  result i := by
    have hab : idx ∉ front ∧ idx ≠ last := by
      rw [stops.split] at fresh
      simp only [List.mem_append, List.mem_cons, not_or] at fresh
      exact ⟨fresh.1, fresh.2.1⟩
    rw [stops.result i, List.map_cons, List.sum_cons, ← sub_sub]
    by_cases same : i = idx
    · subst same
      simp [hab]
    · simp [same]

theorem takeTail_stops (weight : ∀ i ∈ order, 0 < w i) (nd : order.Nodup) (hne : order ≠ [])
    (left : 0 < remaining) :
    ∃ front last back, Stops w target order remaining mixture
        (takeTail w target order remaining mixture) front last back := by
  induction order generalizing remaining mixture with
  | nil => exact absurd rfl hne
  | cons idx order ih =>
    obtain ⟨idxWeight, weights⟩ := List.forall_mem_cons.mp weight
    obtain ⟨fresh, nd⟩ := List.nodup_cons.mp nd
    simp only [takeTail, if_pos (lt_min idxWeight left)]
    split_ifs with close
    · refine ⟨[], idx, order, Stops.here left ?_⟩
      rcases le_total remaining (w idx) with enough | short
      · exact .inl enough
      · rw [min_eq_left short] at close
        exact .inr (.inl close)
    · -- something is left, so the draw is used up
      have used : w idx ≤ remaining := by
        refine le_of_lt (lt_of_not_ge fun enough => close ?_)
        rw [min_eq_right enough, sub_self]
        exact mixtureTolerance_pos.le
      rcases eq_or_ne order [] with rfl | hne
      · exact ⟨[], idx, [], Stops.here left (.inr (.inr rfl))⟩
      · rw [min_eq_left used] at close ⊢
        have more : (mixtureTolerance : α) < remaining - w idx := lt_of_not_ge close
        obtain ⟨front, last, back, stops⟩ := ih weights nd hne (mixtureTolerance_pos.trans more)
        exact ⟨idx :: front, last, back, stops.later more fresh⟩
end

section
variable {α : Type*} [Field α] [LinearOrder α] [IsStrictOrderedRing α] {n : ℕ} {d w : Fin n → α}
  {alpha : α}
  {front back : List (Fin n)} {last : Fin n}

theorem tailTarget_pos (positive : 0 < alpha) (weighted : ∃ i, 0 < w i) :
    0 < tailTarget w alpha := by
  obtain ⟨i, weight⟩ := weighted
  refine mul_pos positive (Finset.sum_pos (fun j mem => (Finset.mem_filter.mp mem).2) ⟨i, ?_⟩)
  exact Finset.mem_filter.mpr ⟨Finset.mem_univ i, weight⟩

omit [IsStrictOrderedRing α] in
theorem cheapest_of_split (nonneg : ∀ i, 0 ≤ w i) (split : tailOrder d w = front ++ last :: back)
    (target : α) :
    front.Nodup ∧
    last ∉ front.toFinset ∧
    FractionalFill.Cheapest (fun i => w i / target) d front.toFinset last := by
  have nd := @nodup_tailOrder α _ _ n d w
  have sorted := @pairwise_tailOrder α _ _ n d w
  have members (i : Fin n) : i ∈ front ++ last :: back ↔ 0 < w i := split ▸ mem_tailOrder
  rw [split] at nd sorted
  obtain ⟨-, sortedBack, across⟩ := List.pairwise_append.mp sorted
  refine ⟨(List.nodup_append.mp nd).1, ?_, ?_, ?_⟩
  · rw [List.mem_toFinset]
    exact fun mem => (List.nodup_append.mp nd).2.2 last mem last List.mem_cons_self rfl
  · intro i mem
    exact across i (List.mem_toFinset.mp mem) last List.mem_cons_self
  · intro i hab
    rcases (nonneg i).eq_or_lt with none | weight
    · exact .inl (by rw [← none, zero_div])
    · refine .inr ?_
      rw [List.mem_toFinset] at hab
      rcases List.mem_cons.mp ((List.mem_append.mp ((members i).mpr weight)).resolve_left hab)
        with rfl | later
      · exact le_rfl
      · exact (List.pairwise_cons.mp sortedBack).1 i later

omit [LinearOrder α] [IsStrictOrderedRing α] in
theorem sum_div_toFinset (nd : front.Nodup) (target : α) (v : Fin n → α) :
    ∑ i ∈ front.toFinset, w i / target * v i = (front.map fun i => w i * v i).sum / target := by
  rw [← List.sum_toFinset _ nd, Finset.sum_div]
  exact Finset.sum_congr rfl fun i _ => div_mul_eq_mul_div _ _ _

omit [LinearOrder α] [IsStrictOrderedRing α] in
theorem sum_weights_div (nd : front.Nodup) (target : α) :
    ∑ i ∈ front.toFinset, w i / target = (front.map w).sum / target := by
  simpa using @sum_div_toFinset α _ n w front nd target fun _ => 1

section
variable (nonneg : ∀ i, 0 ≤ w i) (positive : 0 < tailTarget w alpha)
  (split : tailOrder d w = front ++ last :: back) (below : (front.map w).sum ≤ tailTarget w alpha)
  (reached : tailTarget w alpha ≤ (front.map w).sum + w last)

include nonneg positive split below reached

theorem fill_worst :
    FractionalFill.Allocation (fun i => w i / tailTarget w alpha) 1
      (FractionalFill.fill (fun i => w i / tailTarget w alpha) 1 front.toFinset last) ∧
    IsLeast (tailMeans d w alpha) (∑ i, FractionalFill.fill (fun i => w i / tailTarget w alpha) 1
          front.toFinset last i * d i) := by
  obtain ⟨nd, hne, chp⟩ := cheapest_of_split nonneg split (tailTarget w alpha)
  have shares (i : Fin n) : 0 ≤ w i / tailTarget w alpha := div_nonneg (nonneg i) positive.le
  have below : ∑ i ∈ front.toFinset, w i / tailTarget w alpha ≤ 1 := by
    rw [sum_weights_div nd]
    exact (div_le_one positive).mpr below
  have reached :
      1 ≤ ∑ i ∈ front.toFinset, w i / tailTarget w alpha + w last / tailTarget w alpha := by
    rw [sum_weights_div nd, ← add_div]
    exact (one_le_div positive).mpr reached
  exact ⟨FractionalFill.fill_allocation hne shares below reached,
    chp.isLeast hne shares below reached⟩

theorem isLeast_of_split : IsLeast (tailMeans d w alpha)
      (((front.map fun i => w i * d i).sum + (tailTarget w alpha - (front.map w).sum) * d last) /
      tailTarget w alpha) := by
  obtain ⟨nd, hne, -⟩ := cheapest_of_split nonneg split (tailTarget w alpha)
  have least := (fill_worst nonneg positive split below reached).2
  rw [FractionalFill.sum_fill_mul hne, sum_weights_div nd, sum_div_toFinset nd] at least
  convert least using 1
  field_simp
end

omit [IsStrictOrderedRing α] in
theorem Stops.eq_fill (nd : front.Nodup) {order : List (Fin n)} {target : α} {result : Fin n → α}
    (stops : Stops w target order target (fun _ => 0) result front last back) :
    result = FractionalFill.fill (fun i => w i / target)
        (((front.map w).sum + min (w last) (target - (front.map w).sum)) / target) front.toFinset
        last := by
  funext i
  rw [stops.result i, FractionalFill.fill, sum_weights_div nd, ← sub_div, add_sub_cancel_left]
  simp only [List.mem_toFinset]

theorem tailMixture_stops (weighted : ∃ i, 0 < w i) (positive : 0 < alpha) (atMost : alpha ≤ 1) :
    ∃ front last back,
      Stops w (tailTarget w alpha) (tailOrder d w) (tailTarget w alpha) (fun _ => 0)
        (tailMixture d w alpha) front last back ∧
      (tailTarget w alpha ≤ (front.map w).sum + w last ∨
        tailTarget w alpha - ((front.map w).sum + w last) ≤ (mixtureTolerance : α)) := by
  have ne : tailOrder d w ≠ [] := by
    obtain ⟨i, weight⟩ := weighted
    exact List.ne_nil_of_mem (mem_tailOrder.mpr weight)
  obtain ⟨front, last, back, stops⟩ :=
    @takeTail_stops _ α _ _ _ _ w (tailTarget w alpha) (tailOrder d w)
    (tailTarget w alpha) (fun _ => 0) (fun _ => mem_tailOrder.mp) nodup_tailOrder ne
      (tailTarget_pos positive weighted)
  refine ⟨front, last, back, stops, ?_⟩
  rcases stops.ends with enough | close | done
  · exact .inl enough
  · exact .inr close
  · -- the whole sample reaches the target
    have whole := @sum_tailOrder α _ _ n d w
    rw [stops.split, done, List.map_append, List.sum_append, List.map_singleton, List.sum_singleton]
      at whole
    rw [whole]
    refine .inl (mul_le_of_le_one_left (Finset.sum_nonneg fun i mem => ?_) atMost)
    exact (Finset.mem_filter.mp mem).2.le

theorem reached_iff_tailFits {result : Fin n → α} (weights : ∀ i ∈ tailOrder d w, 0 < w i)
    (stops : Stops w (tailTarget w alpha) (tailOrder d w) (tailTarget w alpha) (fun _ => 0) result
        front last back)
    (ends : tailTarget w alpha ≤ (front.map w).sum + w last ∨
      tailTarget w alpha - ((front.map w).sum + w last) ≤ (mixtureTolerance : α)) :
    tailTarget w alpha ≤ (front.map w).sum + w last ↔ TailFits d w alpha := by
  have taken : front ++ [last] <+: tailOrder d w := ⟨back, by rw [stops.split]; simp⟩
  have sum : ((front ++ [last]).map w).sum = (front.map w).sum + w last := by simp
  constructor
  · intro reached head ne isHead below
    rcases List.prefix_or_prefix_of_prefix isHead taken with short | long
    · rcases List.prefix_concat_iff.mp short with rfl | short
      · rw [sum] at below
        exact absurd reached (not_le.mpr below)
      · exact stops.passed head ne short
    · -- a longer head weighs more
      obtain ⟨more, rfl⟩ := long
      rw [List.map_append, List.sum_append, sum] at below
      have nonneg : 0 ≤ (more.map w).sum := by
        refine List.sum_nonneg (List.forall_mem_map.mpr fun i mem => (weights i ?_).le)
        exact isHead.subset (List.mem_append_right _ mem)
      linarith
  · intro fits
    by_contra short
    have left := fits (front ++ [last]) (by simp) taken (by rw [sum]; exact lt_of_not_ge short)
    rw [sum] at left
    exact absurd (ends.resolve_left short) (not_le.mpr left)

theorem tailMixture_worst_iff (nonneg : ∀ i, 0 ≤ w i) (weighted : ∃ i, 0 < w i)
    (positive : 0 < alpha) (atMost : alpha ≤ 1) {m : α} (least : IsLeast (tailMeans d w alpha) m) :
    FractionalFill.Allocation (fun i => w i / tailTarget w alpha) 1 (tailMixture d w alpha) ∧
      ∑ i, tailMixture d w alpha i * d i = m ↔
      TailFits d w alpha := by
  obtain ⟨front, last, back, stops, ends⟩ :=
    @tailMixture_stops α _ _ _ n d w alpha weighted positive atMost
  obtain ⟨nd, hne, -⟩ := cheapest_of_split nonneg stops.split (tailTarget w alpha)
  have target := tailTarget_pos positive weighted
  have fills := stops.eq_fill nd
  rw [← reached_iff_tailFits (fun _ => mem_tailOrder.mp) stops ends]
  constructor
  · rintro ⟨alloc, -⟩
    have total := alloc.total
    rw [fills, FractionalFill.sum_fill hne, div_eq_one_iff_eq target.ne'] at total
    linarith [min_le_left (w last) (tailTarget w alpha - (front.map w).sum)]
  · intro reached
    rw [min_eq_right (by linarith), add_sub_cancel, div_self target.ne'] at fills
    obtain ⟨alloc, worst⟩ := fill_worst nonneg target stops.split stops.below.le reached
    rw [fills]
    exact ⟨alloc, worst.unique least⟩

variable [FloorRing α]

theorem lowerCvar_isLeast (nonneg : ∀ i, 0 ≤ w i) (weighted : ∃ i, 0 < w i) (positive : 0 < alpha)
    (atMost : alpha ≤ 1) :
    ∃ m, lowerCvar (sample d w) alpha = (m : α) ∧ IsLeast (tailMeans d w alpha) m := by
  have target : alpha * (((sample d w).filter fun draw => 0 < draw.2).map Prod.snd).sum =
      tailTarget w alpha := by
    have sums := ((List.perm_insertionSort (fun left right : α × α => left.1 ≤ right.1)
      ((sample d w).filter fun draw => 0 < draw.2)).map Prod.snd).sum_eq
    rw [sorted_sample, List.map_map] at sums
    rw [← sums, tailTarget, ← @sum_tailOrder α _ _ n d w]
    rfl
  have kept : (sample d w).filter (fun draw => 0 < draw.2) ≠ [] := by
    obtain ⟨i, weight⟩ := weighted
    refine List.ne_nil_of_mem (a := (d i, w i)) (List.mem_filter.mpr ⟨?_, by simpa using weight⟩)
    exact List.mem_ofFn.mpr ⟨i, rfl⟩
  obtain ⟨front, last, back, ⟨split, below, reached⟩, is⟩ := lowerCvar_boundary kept positive atMost
  rw [target] at below reached is
  rw [sorted_sample] at split
  obtain ⟨front, rest, isOrder, rfl, isRest⟩ := List.map_eq_append_iff.mp split
  obtain ⟨last, back, rfl, rfl, rfl⟩ := List.map_eq_cons_iff.mp isRest
  rw [List.map_map] at below reached
  refine ⟨_, is, ?_⟩
  rw [tailMean, List.map_map, List.map_map]
  exact isLeast_of_split nonneg (tailTarget_pos positive weighted) isOrder below.le reached

end

end Zeus.LowerCvar
