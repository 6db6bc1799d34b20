import Mathlib.Data.List.Sort

/-! The relation is any preorder, so that one contract serves searches up and down. -/

namespace BestPick

variable {α σ : Type*} {rel : α → α → Prop} {P Q : α → Prop} {pick : Option α}

/-- The answer to a search for the best element with the property `P`. -/
def Best (rel : α → α → Prop) (P : α → Prop) : Option α → Prop
  | none => ∀ x, ¬ P x
  | some x => P x ∧ ∀ y, P y → rel x y

section
variable (best : Best rel P pick)

include best

theorem Best.congr (same : ∀ x, P x ↔ Q x) : Best rel Q pick := by
  rwa [← funext fun x => propext (same x)]

theorem Best.none_iff : pick = none ↔ ∀ x, ¬ P x := by
  cases pick with
  | none => exact ⟨fun _ => best, fun _ => rfl⟩
  | some x => exact ⟨fun no => (Option.some_ne_none x no).elim, fun no => absurd best.1 (no x)⟩

theorem Best.some_iff (antisymm : ∀ {x y}, rel x y → rel y x → x = y) {x : α} :
    pick = some x ↔ P x ∧ ∀ y, P y → rel x y := by
  cases pick with
  | none => exact ⟨fun no => (Option.some_ne_none x no.symm).elim, fun is => absurd is.1 (best x)⟩
  | some z =>
    constructor
    · rintro ⟨⟩
      exact best
    · rintro ⟨has, above⟩
      exact congrArg some (antisymm (best.2 x has) (above z best.1))

theorem Best.of_dominated (trans : ∀ {x y z}, rel x y → rel y z → rel x z) (sub : ∀ x, P x → Q x)
    (dominated : ∀ y, Q y → ∃ x, P x ∧ rel x y) : Best rel Q pick := by
  cases pick with
  | none =>
    intro y has
    obtain ⟨x, cand, -⟩ := dominated y has
    exact best x cand
  | some x =>
    refine ⟨sub x best.1, fun y has => ?_⟩
    obtain ⟨z, cand, above⟩ := dominated y has
    exact trans (best.2 z cand) above

theorem Best.or {fallback : Option α} (sound : ∀ x, fallback = some x → P x) :
    Best rel P (pick.or fallback) := by
  cases pick with
  | none =>
    cases fallback with
    | none => exact best
    | some x => exact absurd (sound x rfl) (best x)
  | some x => exact best

theorem Best.filter {keep : α → Bool} (between : ∀ x y, P x → rel x y → P y → keep y → keep x) :
    Best rel (fun x => P x ∧ keep x) (pick.filter keep) := by
  cases pick with
  | none => exact fun x has => best x has.1
  | some x =>
    rw [Option.filter_some]
    split_ifs with kept
    · exact ⟨⟨best.1, kept⟩, fun y has => best.2 y has.1⟩
    · exact fun y has => kept (between x y best.1 (best.2 y has.1) has.1 has.2)
end

theorem best_find? (refl : ∀ x, rel x x) {cands : List α} (sorted : cands.Pairwise rel)
    (p : α → Bool) : Best rel (fun x => x ∈ cands ∧ p x) (cands.find? p) := by
  induction cands with
  | nil => exact fun _ has => absurd has.1 List.not_mem_nil
  | cons first rest ih =>
    have later := ih sorted.of_cons
    cases hit : p first with
    | true =>
      rw [List.find?_cons_of_pos hit]
      refine ⟨⟨List.mem_cons_self, hit⟩, fun y has => ?_⟩
      rcases List.mem_cons.mp has.1 with rfl | mem
      · exact refl y
      · exact List.rel_of_pairwise_cons sorted mem
    | false =>
      have skip (x : α) : (x ∈ first :: rest ∧ p x) ↔ x ∈ rest ∧ p x := by
        constructor
        · rintro ⟨mem, has⟩
          rcases List.mem_cons.mp mem with rfl | mem
          · exact absurd has (by simp [hit])
          · exact ⟨mem, has⟩
        · rintro ⟨mem, has⟩
          exact ⟨List.mem_cons_of_mem _ mem, has⟩
      rw [List.find?_cons_of_neg (by simp [hit])]
      simpa only [skip] using later

theorem best_findSome? {pieces : List σ} {search : σ → Option α} {R : σ → α → Prop}
    (each : ∀ piece ∈ pieces, Best rel (R piece) (search piece))
    (ord : pieces.Pairwise fun earlier later => ∀ x y, R earlier x → R later y → rel x y) :
    Best rel (fun x => ∃ piece ∈ pieces, R piece x) (pieces.findSome? search) := by
  induction pieces with
  | nil => exact fun _ ⟨_, mem, _⟩ => absurd mem List.not_mem_nil
  | cons piece rest ih =>
    obtain ⟨here, others⟩ := List.forall_mem_cons.mp each
    have later := ih others ord.of_cons
    rw [List.findSome?_cons]
    cases hf : search piece with
    | none =>
      rw [hf] at here
      have hno (x : α) : ¬ R piece x := here x
      simp only [List.mem_cons, exists_eq_or_imp, hno, false_or]
      exact later
    | some x =>
      rw [hf] at here
      refine ⟨⟨piece, List.mem_cons_self, here.1⟩, ?_⟩
      rintro y ⟨other, mem, has⟩
      rcases List.mem_cons.mp mem with rfl | mem
      · exact here.2 y has
      · exact List.rel_of_pairwise_cons ord mem x y here.1 has

theorem foldl_mem_of_choice {choose : α → α → α}
    (choice : ∀ best x, choose best x = best ∨ choose best x = x) (xs : List α) (start : α) :
    xs.foldl choose start ∈ start :: xs := by
  induction xs generalizing start with
  | nil => exact List.mem_singleton_self start
  | cons x rest ih =>
    rcases choice start x with kept | moved
    · rw [List.foldl_cons, kept]
      rcases List.mem_cons.mp (ih start) with isStart | later
      · exact List.mem_cons.mpr (.inl isStart)
      · exact List.mem_cons_of_mem start (List.mem_cons_of_mem x later)
    · rw [List.foldl_cons, moved]
      exact List.mem_cons_of_mem start (ih x)

section
variable {β : Type*} [LinearOrder β] (value : α → β)

/-- The turn of a scan that moves only to something strictly better. -/
def keepBetter (best x : α) : α := if value best < value x then x else best

theorem le_keepBetter (best x : α) :
    value best ≤ value (keepBetter value best x) ∧ value x ≤ value (keepBetter value best x) := by
  unfold keepBetter
  split_ifs with better
  · exact ⟨better.le, le_rfl⟩
  · exact ⟨le_rfl, not_lt.mp better⟩

theorem foldl_keepBetter (xs : List α) (start : α) :
    (xs.foldl (keepBetter value) start = start ∨
      xs.foldl (keepBetter value) start ∈ xs ∧
      value start < value (xs.foldl (keepBetter value) start)) ∧
    ∀ x ∈ start :: xs, value x ≤ value (xs.foldl (keepBetter value) start) := by
  induction xs generalizing start with
  | nil => simp
  | cons first rest ih =>
    obtain ⟨ends, covers⟩ := ih (keepBetter value start first)
    obtain ⟨coversRest, others⟩ := List.forall_mem_cons.mp covers
    obtain ⟨fromStart, fromFirst⟩ := le_keepBetter value start first
    refine ⟨?_, List.forall_mem_cons.mpr ⟨fromStart.trans coversRest,
      List.forall_mem_cons.mpr ⟨fromFirst.trans coversRest, others⟩⟩⟩
    rw [List.foldl_cons]
    rcases ends with stays | ⟨mem, better⟩
    · rw [stays]
      unfold keepBetter
      split_ifs with moves
      · exact .inr ⟨List.mem_cons_self, moves⟩
      · exact .inl rfl
    · exact .inr ⟨List.mem_cons_of_mem first mem, fromStart.trans_lt better⟩
end

end BestPick
