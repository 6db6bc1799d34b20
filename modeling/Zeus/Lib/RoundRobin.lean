import Mathlib.Tactic

/-! Lanes are served in rounds: a round takes the first item of every lane that still has one, in a
fixed order of the lanes. -/

namespace RoundRobin

variable {ι α : Type*}

def heads (order : List ι) (lanes : ι → List α) : List α :=
  order.filterMap fun lane => (lanes lane).head?

def tails (lanes : ι → List α) : ι → List α := fun lane => (lanes lane).tail

def weave (order : List ι) : ℕ → (ι → List α) → List α
  | 0, _ => []
  | rounds + 1, lanes => heads order lanes ++ weave order rounds (tails lanes)

def waiting (order : List ι) (lanes : ι → List α) : ℕ :=
  (order.map fun lane => (lanes lane).length).sum

variable {order : List ι} {lanes : ι → List α} {lane : ι}

theorem waiting_eq_zero_iff : waiting order lanes = 0 ↔ ∀ lane ∈ order, lanes lane = [] := by
  simp [waiting, List.sum_eq_zero_iff]

variable {kind : α → ι}

theorem flatMap_filter_perm [DecidableEq ι] {items : List α} (nd : order.Nodup) :
    (order.flatMap fun lane => items.filter fun item => kind item = lane).Perm
      (items.filter fun item => kind item ∈ order) := by
  induction order with
  | nil => simp
  | cons first rest ih =>
    obtain ⟨fresh, ndr⟩ := List.nodup_cons.mp nd
    have own : (items.filter fun item => kind item ∈ first :: rest).filter
        (fun item => kind item = first) = items.filter fun item => kind item = first := by
      rw [List.filter_filter]
      apply List.filter_congr
      intro item _
      by_cases same : kind item = first <;> simp [same]
    have others :
        (items.filter fun item => kind item ∈ first :: rest).filter
          (fun item => !decide (kind item = first)) =
          items.filter fun item => kind item ∈ rest := by
      rw [List.filter_filter]
      apply List.filter_congr
      intro item _
      by_cases same : kind item = first <;> simp [same, fresh]
    rw [List.flatMap_cons, ← own]
    exact ((ih ndr).append_left _).trans (others ▸ List.filter_append_perm _ _)

theorem heads_cons {first : ι} {rest : List ι} :
    heads (first :: rest) lanes = (lanes first).head?.toList ++ heads rest lanes := by
  rw [heads, List.filterMap_cons]
  cases (lanes first).head? <;> rfl

open List in
theorem heads_perm :
    (heads order lanes ++ order.flatMap (tails lanes)).Perm (order.flatMap lanes) := by
  induction order with
  | nil => exact .refl _
  | cons first rest ih =>
    have served : (lanes first).head?.toList ++ tails lanes first = lanes first := by
      rw [tails]
      cases lanes first <;> rfl
    rw [heads_cons, List.flatMap_cons, List.flatMap_cons]
    calc ((lanes first).head?.toList ++ heads rest lanes) ++
      (tails lanes first ++ rest.flatMap (tails lanes))
      _ = (lanes first).head?.toList ++
          (heads rest lanes ++ tails lanes first ++ rest.flatMap (tails lanes)) := by
          simp only [List.append_assoc]
      _ ~ (lanes first).head?.toList ++
        (tails lanes first ++ heads rest lanes ++ rest.flatMap (tails lanes)) :=
          (List.perm_append_comm.append_right _).append_left _
      _ = ((lanes first).head?.toList ++ tails lanes first) ++
          (heads rest lanes ++ rest.flatMap (tails lanes)) := by
          simp only [List.append_assoc]
      _ = lanes first ++ (heads rest lanes ++ rest.flatMap (tails lanes)) := by rw [served]
      _ ~ lanes first ++ rest.flatMap lanes := ih.append_left _

theorem waiting_eq_length : waiting order lanes = (order.flatMap lanes).length := by
  rw [List.length_flatMap]
  rfl

theorem waiting_eq :
    waiting order lanes = (heads order lanes).length + waiting order (tails lanes) := by
  rw [waiting_eq_length, waiting_eq_length, ← heads_perm.length_eq, List.length_append]

theorem length_heads_pos (waits : waiting order lanes ≠ 0) : 0 < (heads order lanes).length := by
  rw [List.length_pos_iff]
  intro none_served
  refine waits (waiting_eq_zero_iff.mpr fun lane mem => ?_)
  exact List.head?_eq_none_iff.mp (List.filterMap_eq_nil_iff.mp none_served lane mem)

theorem weave_of_empty {rounds : ℕ} (empty : ∀ lane ∈ order, lanes lane = []) :
    weave order rounds lanes = [] := by
  induction rounds generalizing lanes with
  | zero => rfl
  | succ rounds ih =>
    have none_left : heads order lanes = [] :=
      List.filterMap_eq_nil_iff.mpr fun lane mem => by rw [empty lane mem, List.head?_nil]
    rw [weave, none_left, List.nil_append]
    exact ih fun lane mem => by rw [tails, empty lane mem, List.tail_nil]

theorem weave_perm {rounds : ℕ} (enough : ∀ lane ∈ order, (lanes lane).length ≤ rounds) :
    (weave order rounds lanes).Perm (order.flatMap lanes) := by
  induction rounds generalizing lanes with
  | zero =>
    have empty : order.flatMap lanes = [] :=
      List.flatMap_eq_nil_iff.mpr fun lane mem =>
        List.length_eq_zero_iff.mp (Nat.le_zero.mp (enough lane mem))
    rw [empty]
    exact .refl _
  | succ rounds ih =>
    have shorter : ∀ lane ∈ order, (tails lanes lane).length ≤ rounds := by
      intro lane mem
      have bound := enough lane mem
      rw [tails, List.length_tail]
      omega
    exact ((ih shorter).append_left (heads order lanes)).trans heads_perm

section
variable (kinds : ∀ lane, ∀ item ∈ lanes lane, kind item = lane)

include kinds

theorem filter_heads_other [DecidableEq ι]
    (hab : lane ∉ order) : (heads order lanes).filter (fun item => kind item = lane) = [] := by
  refine List.filter_eq_nil_iff.mpr fun item hin same => ?_
  obtain ⟨other, mem, first⟩ := List.mem_filterMap.mp hin
  have ofOther : kind item = other := kinds other item (List.mem_of_mem_head? first)
  exact hab ((of_decide_eq_true same).symm.trans ofOther ▸ mem)

theorem filter_heads [DecidableEq ι] (nd : order.Nodup) (mem : lane ∈ order) :
    (heads order lanes).filter (fun item => kind item = lane) = (lanes lane).head?.toList := by
  induction order with
  | nil => cases mem
  | cons first rest ih =>
    obtain ⟨fresh, ndr⟩ := List.nodup_cons.mp nd
    have kindFirst : ∀ item ∈ (lanes first).head?.toList, kind item = first := fun item hin =>
      kinds first item (List.mem_of_mem_head? (Option.mem_toList.mp hin))
    rw [heads_cons, List.filter_append]
    rcases List.mem_cons.mp mem with rfl | later
    · rw [filter_heads_other kinds fresh, List.append_nil]
      exact List.filter_eq_self.mpr fun item hin => decide_eq_true (kindFirst item hin)
    · have other : (lanes first).head?.toList.filter (fun item => kind item = lane) = [] := by
        refine List.filter_eq_nil_iff.mpr fun item hin same => fresh ?_
        exact (kindFirst item hin).symm.trans (of_decide_eq_true same) ▸ later
      rw [other, List.nil_append]
      exact ih ndr later

theorem filter_weave [DecidableEq ι] {rounds : ℕ}
    (nd : order.Nodup) (mem : lane ∈ order) (enough : (lanes lane).length ≤ rounds) :
    (weave order rounds lanes).filter (fun item => kind item = lane) = lanes lane := by
  induction rounds generalizing lanes with
  | zero => exact (List.length_eq_zero_iff.mp (Nat.le_zero.mp enough)).symm
  | succ rounds ih =>
    have tailKinds : ∀ lane, ∀ item ∈ tails lanes lane, kind item = lane :=
      fun lane item hin => kinds lane item (List.mem_of_mem_tail hin)
    have shorter : (tails lanes lane).length ≤ rounds := by
      rw [tails, List.length_tail]
      omega
    rw [weave, List.filter_append, filter_heads kinds nd mem, ih tailKinds shorter, tails]
    cases lanes lane <;> rfl
end

theorem exists_heads {place : ℕ} {item : α} (here : order[place]? = some lane)
    (first : (lanes lane).head? = some item) :
    ∃ posn ≤ place, (heads order lanes)[posn]? = some item := by
  induction order generalizing place with
  | nil => cases here
  | cons other rest ih =>
    rw [heads_cons]
    cases place with
    | zero =>
      cases here
      exact ⟨0, le_rfl, by rw [first]; rfl⟩
    | succ place =>
      obtain ⟨posn, early, at_⟩ := ih here
      have one : (lanes other).head?.toList.length ≤ 1 := Option.length_toList_le
      refine ⟨(lanes other).head?.toList.length + posn, by omega, ?_⟩
      rw [List.getElem?_append_right (Nat.le_add_right _ _), Nat.add_sub_cancel_left, at_]

theorem exists_weave {rounds place index : ℕ} {item : α} (here : order[place]? = some lane)
    (inLane : (lanes lane)[index]? = some item) (enough : index < rounds) :
    ∃ posn ≤ order.length * index + place, (weave order rounds lanes)[posn]? = some item := by
  induction index generalizing lanes rounds with
  | zero =>
    obtain ⟨rounds, rfl⟩ := Nat.exists_eq_succ_of_ne_zero enough.ne'
    rw [← List.head?_eq_getElem?] at inLane
    obtain ⟨posn, early, at_⟩ := exists_heads here inLane
    have hin := (List.getElem?_eq_some_iff.mp at_).1
    refine ⟨posn, by simpa using early, ?_⟩
    rw [weave, List.getElem?_append_left hin, at_]
  | succ index ih =>
    obtain ⟨rounds, rfl⟩ := Nat.exists_eq_succ_of_ne_zero (Nat.ne_of_gt (Nat.zero_lt_of_lt enough))
    have later : (tails lanes lane)[index]? = some item := by
      rw [tails, List.getElem?_tail]
      exact inLane
    obtain ⟨posn, early, at_⟩ := ih later (Nat.lt_of_succ_lt_succ enough)
    refine ⟨(heads order lanes).length + posn, ?_, ?_⟩
    · have round : (heads order lanes).length ≤ order.length := List.length_filterMap_le _ _
      rw [Nat.mul_succ]
      omega
    · rw [weave, List.getElem?_append_right (Nat.le_add_right _ _), Nat.add_sub_cancel_left, at_]

end RoundRobin
