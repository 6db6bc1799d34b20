import Mathlib.Tactic

namespace Isotonic

variable {K : Type*} [Field K]

def totalWeight (s : List (K × K)) : K := (s.map Prod.snd).sum

def mean (s : List (K × K)) : K := (s.map fun item => item.2 * item.1).sum / totalWeight s

/-- What the values lie above a level, by weight. -/
def excess (level : K) (s : List (K × K)) : K := (s.map fun item => item.2 * (item.1 - level)).sum

def sse (s : List (K × K)) (fit : List K) : K :=
  (List.zipWith (fun item value => item.2 * (item.1 - value) ^ 2) s fit).sum

def levelled (level : K) (s : List (K × K)) : List (K × K) := s.map fun item => (level, item.2)

def fitted (segments : List (List (K × K))) : List (K × K) :=
  segments.flatMap fun s => levelled (mean s) s

section
variable {s t : List (K × K)} {f g : List K} {level : K}

theorem totalWeight_append : totalWeight (s ++ t) = totalWeight s + totalWeight t := by
  simp [totalWeight]

theorem excess_append : excess level (s ++ t) = excess level s + excess level t := by
  simp [excess]

theorem excess_eq (level other : K) (s : List (K × K)) :
    excess other s = excess level s + totalWeight s * (level - other) := by
  induction s with
  | nil => simp [excess, totalWeight]
  | cons item s ih =>
    simp only [excess, totalWeight, List.map_cons, List.sum_cons] at ih ⊢
    rw [ih]
    ring

theorem excess_mean (weighs : totalWeight s ≠ 0) : excess (mean s) s = 0 := by
  have atZero : excess 0 s = (s.map fun item => item.2 * item.1).sum := by simp [excess]
  rw [excess_eq 0, atZero, mean, zero_sub, mul_neg, mul_div_cancel₀ _ weighs, add_neg_cancel]

theorem sse_append (hal : f.length = s.length) : sse (s ++ t) (f ++ g) = sse s f + sse t g := by
  rw [sse, List.zipWith_append hal.symm, List.sum_append, sse, sse]

theorem sse_eq_add (level : K) (hal : g.length = s.length) :
    sse s g = sse s (s.map fun _ => level) + sse (levelled level s) g +
        2 *
          (level * excess level s -
              (List.zipWith (fun item v => item.2 * (item.1 - level) * v) s g).sum) := by
  induction s generalizing g with
  | nil => simp [sse, levelled, excess]
  | cons item s ih =>
    obtain ⟨v, rest, rfl⟩ := List.exists_cons_of_length_eq_add_one hal
    have tail := ih (Nat.succ.inj hal)
    simp only [sse, levelled, excess, List.map_cons, List.zipWith_cons_cons, List.sum_cons]
      at tail ⊢
    rw [tail]
    ring

theorem length_fitted (segs : List (List (K × K))) :
    (fitted segs).length = segs.flatten.length := by
  simp [fitted, levelled, List.length_flatMap, List.length_flatten]

omit [Field K] in
theorem map_fst_levelled (level : K) (s : List (K × K)) :
    (levelled level s).map Prod.fst = List.replicate s.length level := by
  rw [levelled, List.map_map]
  exact List.map_const'
end

variable [LinearOrder K]

theorem pairwise_fitted {segs : List (List (K × K))} (rises : (segs.map mean).Pairwise (· ≤ ·)) :
    ((fitted segs).map Prod.fst).Pairwise (· ≤ ·) := by
  induction segs with
  | nil => exact List.Pairwise.nil
  | cons s segs ih =>
    obtain ⟨least, rest⟩ := List.pairwise_cons.mp rises
    rw [fitted, List.flatMap_cons, ← fitted, List.map_append, map_fst_levelled,
      List.pairwise_append]
    refine ⟨List.pairwise_replicate.mpr (.inr le_rfl), ih rest, fun a first b snd => ?_⟩
    rw [fitted, List.map_flatMap] at snd
    obtain ⟨t, mem, later⟩ := List.mem_flatMap.mp snd
    rw [map_fst_levelled] at later
    rw [List.eq_of_mem_replicate first, List.eq_of_mem_replicate later]
    exact least _ (List.mem_map_of_mem mem)

variable [IsStrictOrderedRing K] {s t : List (K × K)}

/-- No tail lies above the level. -/
def Sinks (level : K) : List (K × K) → Prop
  | [] => True
  | item :: s => excess level (item :: s) ≤ 0 ∧ Sinks level s

/-- A segment that the pooling may replace by its mean. -/
structure Pooled (s : List (K × K)) : Prop where
  nonempty : s ≠ []
  positive : ∀ item ∈ s, 0 < item.2
  sinks : Sinks (mean s) s

omit [LinearOrder K] [IsStrictOrderedRing K] in
theorem mean_singleton {value weight : K} (weighs : weight ≠ 0) :
    mean [(value, weight)] = value := by
  simp [mean, totalWeight, mul_div_cancel_left₀ value weighs]

theorem totalWeight_nonneg (pos : ∀ item ∈ s, 0 < item.2) : 0 ≤ totalWeight s :=
  List.sum_nonneg (by
    intro weight mem
    obtain ⟨item, hin, rfl⟩ := List.mem_map.mp mem
    exact (pos item hin).le)

theorem Pooled.totalWeight_pos (pooled : Pooled s) : 0 < totalWeight s := by
  obtain ⟨item, rest, rfl⟩ := List.exists_cons_of_ne_nil pooled.nonempty
  have first := pooled.positive item List.mem_cons_self
  have others :=
    totalWeight_nonneg fun other mem => pooled.positive other (List.mem_cons_of_mem _ mem)
  exact add_pos_of_pos_of_nonneg first others

theorem Sinks.raise {level higher : K} (le : level ≤ higher) (pos : ∀ item ∈ s, 0 < item.2)
    (sinks : Sinks level s) : Sinks higher s := by
  induction s with
  | nil => trivial
  | cons item s ih =>
    refine ⟨?_, ih (fun other mem => pos other (List.mem_cons_of_mem _ mem)) sinks.2⟩
    have raised : totalWeight (item :: s) * (level - higher) ≤ 0 :=
      mul_nonpos_of_nonneg_of_nonpos (totalWeight_nonneg pos) (sub_nonpos.mpr le)
    rw [excess_eq level]
    linarith [sinks.1]

theorem Sinks.append {level above : K} (le : level ≤ above) (pos : ∀ item ∈ s, 0 < item.2)
    (front : Sinks above s) (back : Sinks level t)
    (bal : totalWeight s * (above - level) + excess level t ≤ 0) : Sinks level (s ++ t) := by
  induction s with
  | nil => exact back
  | cons item s ih =>
    have rest : ∀ other ∈ s, 0 < other.2 := fun other mem => pos other (List.mem_cons_of_mem _ mem)
    have lighter : totalWeight s * (above - level) ≤ totalWeight (item :: s) * (above - level) := by
      refine mul_le_mul_of_nonneg_right ?_ (sub_nonneg.mpr le)
      exact le_add_of_nonneg_left (pos item List.mem_cons_self).le
    have whole : excess level (item :: s ++ t) ≤ 0 := by
      rw [excess_append, excess_eq above]
      linarith [front.1]
    exact ⟨whole, ih rest front.2 (by linarith)⟩

omit [IsStrictOrderedRing K] in
theorem Pooled.singleton (v : K) {weight : K} (pos : 0 < weight) : Pooled [(v, weight)] := by
  refine ⟨List.cons_ne_nil _ _, ?_, ?_, trivial⟩
  · intro item mem
    cases List.mem_singleton.mp mem
    exact pos
  · simp [mean_singleton pos.ne', excess]

theorem Pooled.mean_append (front : Pooled s) (back : Pooled t) : mean (s ++ t) =
      (mean s * totalWeight s + mean t * totalWeight t) / (totalWeight s + totalWeight t) := by
  rw [mean, totalWeight_append, mean, mean, div_mul_cancel₀ _ front.totalWeight_pos.ne',
    div_mul_cancel₀ _ back.totalWeight_pos.ne', List.map_append, List.sum_append]

theorem Pooled.append (front : Pooled s) (back : Pooled t) (falls : mean t ≤ mean s) :
    Pooled (s ++ t) := by
  have wFront := front.totalWeight_pos
  have wBack := back.totalWeight_pos
  have total : 0 < totalWeight s + totalWeight t := add_pos wFront wBack
  have pooledMean := front.mean_append back
  have below : mean (s ++ t) ≤ mean s := by
    rw [pooledMean, div_le_iff₀ total]
    nlinarith
  have above : mean t ≤ mean (s ++ t) := by
    rw [pooledMean, le_div_iff₀ total]
    nlinarith
  have pos : ∀ item ∈ s ++ t, 0 < item.2 := by
    intro item mem
    exact (List.mem_append.mp mem).elim (front.positive item) (back.positive item)
  refine ⟨List.append_ne_nil_of_left_ne_nil front.nonempty t, pos, ?_⟩
  apply Sinks.append below front.positive front.sinks (back.sinks.raise above back.positive)
  -- the two parts balance at the common mean
  have bal : excess (mean (s ++ t)) (s ++ t) = 0 :=
    excess_mean (by rw [totalWeight_append]; exact total.ne')
  rw [excess_append, excess_eq (mean s), excess_mean wFront.ne', zero_add] at bal
  exact bal.le

/-- Summation by parts: a list that does not fall weighs a sinking segment down. -/
theorem Sinks.sum_mul_le {level least : K} {g : List K} (sinks : Sinks level s)
    (hal : g.length = s.length) (sorted : (least :: g).Pairwise (· ≤ ·)) :
    (List.zipWith (fun item v => item.2 * (item.1 - level) * v) s g).sum ≤
      excess level s * least := by
  induction s generalizing g least with
  | nil => simp [excess]
  | cons item s ih =>
    obtain ⟨v, rest, rfl⟩ := List.exists_cons_of_length_eq_add_one hal
    obtain ⟨lower, sortedRest⟩ := List.pairwise_cons.mp sorted
    have tail := ih sinks.2 (Nat.succ.inj hal) sortedRest
    have falls : excess level (item :: s) * v ≤ excess level (item :: s) * least :=
      mul_le_mul_of_nonpos_left (lower v List.mem_cons_self) sinks.1
    simp only [excess, List.map_cons, List.zipWith_cons_cons, List.sum_cons] at tail falls ⊢
    linarith

theorem Pooled.sse_add_le (pooled : Pooled s) {g : List K} (hal : g.length = s.length)
    (sorted : g.Pairwise (· ≤ ·)) :
    sse s (s.map fun _ => mean s) + sse (levelled (mean s) s) g ≤ sse s g := by
  obtain ⟨item, rest, cons⟩ := List.exists_cons_of_ne_nil pooled.nonempty
  obtain ⟨v, others, rfl⟩ := List.exists_cons_of_length_eq_add_one (cons ▸ hal)
  have fromFirst : (v :: v :: others).Pairwise (· ≤ ·) := by
    refine List.pairwise_cons.mpr ⟨fun other mem => ?_, sorted⟩
    obtain rfl | later := List.mem_cons.mp mem
    · exact le_rfl
    · exact (List.pairwise_cons.mp sorted).1 other later
  have weighed := pooled.sinks.sum_mul_le hal fromFirst
  have level : excess (mean s) s = 0 := excess_mean pooled.totalWeight_pos.ne'
  rw [level, zero_mul] at weighed
  rw [sse_eq_add (mean s) hal, level, mul_zero, zero_sub]
  linarith

/-- Every list that does not fall is farther off than the means of pooled segments, by its distance
to them. -/
theorem sse_fitted_add_le {segs : List (List (K × K))} (pooled : ∀ s ∈ segs, Pooled s) {g : List K}
    (hal : g.length = segs.flatten.length) (sorted : g.Pairwise (· ≤ ·)) :
    sse segs.flatten ((fitted segs).map Prod.fst) + sse (fitted segs) g ≤ sse segs.flatten g := by
  induction segs generalizing g with
  | nil => simp [sse, fitted]
  | cons s segs ih =>
    rw [List.flatten_cons, List.length_append] at hal
    have front : (g.take s.length).length = s.length := List.length_take_of_le (by omega)
    have back : (g.drop s.length).length = segs.flatten.length := by
      rw [List.length_drop]
      omega
    have first :=
      (pooled s List.mem_cons_self).sse_add_le front (sorted.sublist (List.take_sublist _ _))
    have rest := ih (fun t mem => pooled t (List.mem_cons_of_mem _ mem)) back
      (sorted.sublist (List.drop_sublist _ _))
    have levelledMap : (levelled (mean s) s).map Prod.fst = s.map fun _ => mean s :=
      (map_fst_levelled (mean s) s).trans List.map_const'.symm
    have levelledLength : (g.take s.length).length = (levelled (mean s) s).length := by
      simpa [levelled] using front
    rw [← List.take_append_drop s.length g, List.flatten_cons, fitted, List.flatMap_cons,
      List.map_append,
      levelledMap, sse_append (List.length_map _), sse_append levelledLength, sse_append front]
    rw [fitted] at rest
    linarith

theorem sse_nonneg (pos : ∀ item ∈ s, 0 < item.2) (g : List K) : 0 ≤ sse s g := by
  induction s generalizing g with
  | nil => simp [sse]
  | cons item s ih =>
    cases g with
    | nil => simp [sse]
    | cons v rest =>
      have head : 0 ≤ item.2 * (item.1 - v) ^ 2 :=
        mul_nonneg (pos item List.mem_cons_self).le (sq_nonneg _)
      have tail := ih (fun other mem => pos other (List.mem_cons_of_mem _ mem)) rest
      simpa [sse] using add_nonneg head tail

theorem sse_pos {g : List K} (pos : ∀ item ∈ s, 0 < item.2) (hal : g.length = s.length)
    (differs : g ≠ s.map Prod.fst) : 0 < sse s g := by
  induction s generalizing g with
  | nil => exact absurd (List.eq_nil_of_length_eq_zero hal) differs
  | cons item s ih =>
    obtain ⟨v, rest, rfl⟩ := List.exists_cons_of_length_eq_add_one hal
    have weight := pos item List.mem_cons_self
    have others : ∀ other ∈ s, 0 < other.2 :=
      fun other mem => pos other (List.mem_cons_of_mem _ mem)
    have split : sse (item :: s) (v :: rest) = item.2 * (item.1 - v) ^ 2 + sse s rest := by
      simp [sse]
    rw [split]
    by_cases same : v = item.1
    · have restDiffers : rest ≠ s.map Prod.fst := by
        rintro rfl
        exact differs (by rw [same, List.map_cons])
      have tail := ih others (Nat.succ.inj hal) restDiffers
      exact add_pos_of_nonneg_of_pos (mul_nonneg weight.le (sq_nonneg _)) tail
    · have head : 0 < item.2 * (item.1 - v) ^ 2 :=
        mul_pos weight (sq_pos_of_ne_zero (sub_ne_zero.mpr (Ne.symm same)))
      exact add_pos_of_pos_of_nonneg head (sse_nonneg others rest)

end Isotonic
