import Mathlib.Data.List.Induction

/-! A dictionary of lists, filled one item at a time: an item joins the group of its key, or begins
one behind the others. -/

namespace Grouping

variable {κ ι : Type*} [DecidableEq κ]

def insert (key : κ) (item : ι) : List (κ × List ι) → List (κ × List ι)
  | [] => [(key, [item])]
  | (other, items) :: rest =>
    if other = key then (other, items ++ [item]) :: rest else (other, items) :: insert key item rest

def group (key : ι → κ) (items : List ι) : List (κ × List ι) :=
  items.foldl (fun groups item => insert (key item) item groups) []

def Holds (groups : List (κ × List ι)) (key : κ) (item : ι) : Prop :=
  ∃ items, (key, items) ∈ groups ∧ item ∈ items

variable {groups : List (κ × List ι)} {items : List ι}

theorem holds_insert {key other : κ} {item x : ι} :
    Holds (insert key item groups) other x ↔ (other = key ∧ x = item) ∨ Holds groups other x := by
  induction groups with
  | nil => simp [insert, Holds]
  | cons group rest ih =>
    obtain ⟨first, items⟩ := group
    simp only [Holds] at ih
    unfold insert
    split_ifs with same
    · subst same
      simp only [Holds, List.mem_cons, Prod.mk.injEq]
      grind
    · simp only [Holds, List.mem_cons, Prod.mk.injEq]
      grind

theorem holds_group {key : ι → κ} {k : κ} {x : ι} :
    Holds (group key items) k x ↔ x ∈ items ∧ key x = k := by
  induction items using List.reverseRecOn with
  | nil => simp [group, Holds]
  | append_singleton items item ih =>
    rw [group, List.foldl_append]
    change Holds (insert (key item) item (group key items)) k x ↔ _
    rw [holds_insert, ih, List.mem_append, List.mem_singleton]
    grind

def itemsOf (key : κ) : List (κ × List ι) → List ι
  | [] => []
  | (other, items) :: rest => if other = key then items else itemsOf key rest

theorem itemsOf_insert {key other : κ} {item : ι} : itemsOf other (insert key item groups) =
      if key = other then itemsOf other groups ++ [item] else itemsOf other groups := by
  induction groups with
  | nil => rfl
  | cons group rest ih =>
    obtain ⟨first, items⟩ := group
    unfold insert
    by_cases same : first = key
    · subst same
      by_cases here : first = other <;> simp [itemsOf, here]
    · rw [if_neg same]
      by_cases here : first = other
      · subst here
        simp [itemsOf, Ne.symm same]
      · simp only [itemsOf, if_neg here, ih]

theorem itemsOf_group {key : ι → κ} {k : κ} :
    itemsOf k (group key items) = items.filter fun item => key item = k := by
  induction items using List.reverseRecOn with
  | nil => rfl
  | append_singleton items item ih =>
    rw [group, List.foldl_append]
    change itemsOf k (insert (key item) item (group key items)) = _
    rw [itemsOf_insert, ih, List.filter_append]
    by_cases here : key item = k <;> simp [here]

theorem mem_keys_insert {key other : κ} {item : ι}
    (mem : other ∈ (insert key item groups).map Prod.fst) :
    other = key ∨ other ∈ groups.map Prod.fst := by
  induction groups with
  | nil => exact .inl (List.mem_singleton.mp mem)
  | cons group rest ih =>
    obtain ⟨first, items⟩ := group
    unfold insert at mem
    by_cases same : first = key
    · rw [if_pos same] at mem
      exact .inr mem
    · rw [if_neg same] at mem
      rcases List.mem_cons.mp mem with rfl | later
      · exact .inr List.mem_cons_self
      · exact (ih later).imp_right (List.mem_cons_of_mem _)

theorem nodup_insert {key : κ} {item : ι} (nd : (groups.map Prod.fst).Nodup) :
    ((insert key item groups).map Prod.fst).Nodup := by
  induction groups with
  | nil => exact List.pairwise_singleton _ key
  | cons group rest ih =>
    obtain ⟨first, items⟩ := group
    obtain ⟨fresh, ndr⟩ := List.nodup_cons.mp nd
    unfold insert
    by_cases same : first = key
    · rw [if_pos same]
      exact nd
    · rw [if_neg same]
      refine List.nodup_cons.mpr ⟨fun hp => ?_, ih ndr⟩
      rcases mem_keys_insert hp with joined | again
      · exact same joined
      · exact fresh again

theorem nodup_group {key : ι → κ} : ((group key items).map Prod.fst).Nodup := by
  induction items using List.reverseRecOn with
  | nil => exact List.nodup_nil
  | append_singleton items item ih =>
    rw [group, List.foldl_append]
    exact nodup_insert ih

theorem itemsOf_of_mem {key : κ} (nd : (groups.map Prod.fst).Nodup)
    (mem : (key, items) ∈ groups) : itemsOf key groups = items := by
  induction groups with
  | nil => cases mem
  | cons group rest ih =>
    obtain ⟨fresh, ndr⟩ := List.nodup_cons.mp nd
    rcases List.mem_cons.mp mem with rfl | later
    · exact if_pos rfl
    · have differs : group.1 ≠ key := by
        intro same
        exact fresh (same ▸ List.mem_map_of_mem (f := Prod.fst) later)
      exact (if_neg differs).trans (ih ndr later)

end Grouping
