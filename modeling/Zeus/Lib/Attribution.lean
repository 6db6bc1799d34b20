import Mathlib.Tactic

/-! Places hold lists of entries, and owners claim entries at their places. Where every entry of a
place is claimed by exactly one owner, the sums of the owners add up to the whole. -/

namespace Attribution

section
variable {κ τ ε M : Type*} [AddCommMonoid M]

theorem sum_map_filter (ents : List ε) (p : ε → Bool) (v : ε → M) :
    ((ents.filter p).map v).sum = (ents.map fun entry => if p entry then v entry else 0).sum := by
  induction ents with
  | nil => rfl
  | cons entry ents ih => by_cases kept : p entry <;> simp [kept, ih]

theorem sum_owners_map (owners : Finset κ) (ents : List ε) (v : κ → ε → M) :
    ∑ owner ∈ owners, (ents.map (v owner)).sum =
      (ents.map fun entry => ∑ owner ∈ owners, v owner entry).sum := by
  induction ents with
  | nil => simp
  | cons entry ents ih => simp [Finset.sum_add_distrib, ih]

variable [DecidableEq τ]

theorem sum_attributed {owners : Finset κ} {places : κ → Finset τ} {ents : τ → List ε}
    {own : κ → ε → Bool} (v : ε → M)
    (one : ∀ place ∈ owners.biUnion places, ∀ entry ∈ ents place, ∃ owner ∈ owners,
        place ∈ places owner ∧
        own owner entry = true ∧
        ∀ other ∈ owners, own other entry = true → other = owner) :
    ∑ owner ∈ owners, ∑ place ∈ places owner, (((ents place).filter (own owner)).map v).sum =
      ∑ place ∈ owners.biUnion places, ((ents place).map v).sum := by
  classical
  -- every owner's sum runs over all places
  have spread : ∀ owner ∈ owners,
      ∑ place ∈ places owner, (((ents place).filter (own owner)).map v).sum =
      ∑ place ∈ owners.biUnion places, ((ents place).map fun entry =>
        if place ∈ places owner ∧ own owner entry = true then v entry else 0).sum := by
    intro owner mem
    rw [← Finset.sum_subset (Finset.subset_biUnion_of_mem places mem)]
    · refine Finset.sum_congr rfl fun place at_ => ?_
      rw [sum_map_filter]
      simp only [at_, true_and]
    · intro place _ away
      simp [away]
  rw [Finset.sum_congr rfl spread, Finset.sum_comm]
  refine Finset.sum_congr rfl fun place at_ => ?_
  rw [sum_owners_map]
  refine congrArg List.sum (List.map_congr_left fun entry mem => ?_)
  obtain ⟨owner, inOwners, atOwner, owned, only⟩ := one place at_ entry mem
  rw [Finset.sum_eq_single owner]
  · rw [if_pos ⟨atOwner, owned⟩]
  · intro other inOthers hne
    rw [if_neg]
    exact fun claims => hne (only other inOthers claims.2)
  · exact fun out => absurd inOwners out
end

section
variable {α : Type*} {r : α → α → Prop} [DecidableRel r]

theorem filter_orderedInsert [IsTrans α r] (p : α → Bool) (a : α) {l : List α}
    (sorted : l.Pairwise r) :
    (l.orderedInsert r a).filter p =
      if p a then (l.filter p).orderedInsert r a else l.filter p := by
  induction l with
  | nil => by_cases kept : p a <;> simp [kept]
  | cons b l ih =>
    obtain ⟨first, rest⟩ := List.pairwise_cons.mp sorted
    by_cases before : r a b
    · rw [List.orderedInsert_cons, if_pos before]
      by_cases kept : p a
      · have least : ∀ c ∈ (b :: l).filter p, r a c := by
          intro c mem
          obtain rfl | mem := List.mem_cons.mp (List.mem_filter.mp mem).1
          · exact before
          · exact IsTrans.trans a b c before (first c mem)
        rw [List.filter_cons_of_pos kept, if_pos kept]
        cases kept : (b :: l).filter p with
        | nil => rfl
        | cons c rest => rw [List.orderedInsert_cons, if_pos (least c (kept ▸ List.mem_cons_self))]
      · rw [List.filter_cons_of_neg kept, if_neg kept]
    · rw [List.orderedInsert_cons, if_neg before]
      by_cases kept : p b
      · rw [List.filter_cons_of_pos kept, List.filter_cons_of_pos kept, ih rest,
          List.orderedInsert_cons, if_neg before]
        split <;> rfl
      · rw [List.filter_cons_of_neg kept, List.filter_cons_of_neg kept, ih rest]

theorem filter_insertionSort [IsTrans α r] [Std.Total r] (p : α → Bool) (l : List α) :
    (l.insertionSort r).filter p = (l.filter p).insertionSort r := by
  induction l with
  | nil => rfl
  | cons a l ih =>
    rw [List.insertionSort_cons, filter_orderedInsert p a (List.pairwise_insertionSort r l), ih]
    by_cases kept : p a
    · rw [if_pos kept, List.filter_cons_of_pos kept, List.insertionSort_cons]
    · rw [if_neg kept, List.filter_cons_of_neg kept]

theorem filterMap_filter_of_none {β : Type*} {f : α → Option β} {p : α → Bool}
    (ignored : ∀ a, p a = false → f a = none) (l : List α) :
    (l.filter p).filterMap f = l.filterMap f := by
  rw [List.filterMap_filter]
  refine List.filterMap_congr fun a _ => ?_
  cases kept : p a with
  | true => rfl
  | false => exact (ignored a kept).symm
end

end Attribution
