import Mathlib.Tactic

/-! A computation in `Except` that succeeds did so in every step. The lemmas take a successful fold,
or a list of calls, apart at its last step. -/

namespace CheckedFold

universe u

variable {ε ι : Type*} {α β σ : Type u}

variable {f : α → Except ε β} {xs : List α} {ys : List β}

theorem bind_eq_ok {x : Except ε α} {b : β} : x >>= f = .ok b ↔ ∃ a, x = .ok a ∧ f a = .ok b := by
  cases x with
  | error error => simp [bind, Except.bind]
  | ok a => simp [bind, Except.bind]

theorem ok_bind (a : α) (f : α → Except ε β) : Except.ok a >>= f = f a := rfl

theorem map_eq_ok {x : Except ε α} {f : α → β} {b : β} :
    x.map f = .ok b ↔ ∃ a, x = .ok a ∧ f a = b := by
  cases x <;> simp [Except.map]

theorem getD_toOption {P : α → Prop} {ans : Except ε α} {s : α} (kept : P s)
    (hans : ∀ t, ans = .ok t → P t) : P (ans.toOption.getD s) := by
  cases ans with
  | error error => exact kept
  | ok t => exact hans t rfl

theorem foldlM_singleton (f : σ → ι → Except ε σ) (x : ι) (s : σ) : [x].foldlM f s = f s x := by
  rw [List.foldlM_cons]
  cases f s x <;> rfl

theorem foldlM_concat_eq_ok {f : σ → ι → Except ε σ} {xs : List ι} {x : ι} {s t : σ} :
    (xs ++ [x]).foldlM f s = .ok t ↔ ∃ u, xs.foldlM f s = .ok u ∧ f u x = .ok t := by
  rw [List.foldlM_append, bind_eq_ok]
  simp only [foldlM_singleton]

theorem foldlM_concat_of_ok {f : σ → ι → Except ε σ} {xs : List ι} {s t : σ}
    (folded : xs.foldlM f s = .ok t) (x : ι) : (xs ++ [x]).foldlM f s = f t x := by
  rw [List.foldlM_append, folded]
  exact foldlM_singleton f x t

/-- A fold whose steps are steps of another fold, seen through `view`, answers as that one does. -/
theorem foldlM_view {τ : Type u} {f : σ → ι → Except ε σ} {g : τ → ι → Except ε τ} (view : σ → τ)
    (simulates : ∀ s x t, f s x = .ok t → g (view s) x = .ok (view t)) {xs : List ι} {s t : σ}
    (folded : xs.foldlM f s = .ok t) : xs.foldlM g (view s) = .ok (view t) := by
  induction xs generalizing s with
  | nil =>
    cases folded
    rfl
  | cons x xs ih =>
    rw [List.foldlM_cons, bind_eq_ok] at folded ⊢
    obtain ⟨u, step, rest⟩ := folded
    exact ⟨view u, simulates s x u step, ih rest⟩

theorem mapM_eq_ok_of {R : α → β → Prop}
    (spec : ∀ x ∈ xs, ∀ y, f x = .ok y ↔ R x y) : xs.mapM f = .ok ys ↔ List.Forall₂ R xs ys := by
  induction xs generalizing ys with
  | nil => cases ys <;> simp [pure, Except.pure]
  | cons x xs ih =>
    simp only [List.mapM_cons, bind_eq_ok, spec x List.mem_cons_self,
      ih fun z mem => spec z (List.mem_cons_of_mem x mem)]
    constructor
    · rintro ⟨y, ans, rest, answers, mapped⟩
      cases mapped
      exact .cons ans answers
    · rintro (_ | ⟨ans, answers⟩)
      exact ⟨_, ans, _, answers, rfl⟩

theorem mapM_eq_ok : xs.mapM f = .ok ys ↔ List.Forall₂ (fun x y => f x = .ok y) xs ys :=
  mapM_eq_ok_of fun _ _ _ => Iff.rfl

theorem mem_of_forall₂ {R : α → β → Prop} (related : List.Forall₂ R xs ys) :
    (∀ x ∈ xs, ∃ y ∈ ys, R x y) ∧ ∀ y ∈ ys, ∃ x ∈ xs, R x y := by
  induction related with
  | nil => simp
  | cons first rest ih =>
    obtain ⟨partners, origins⟩ := ih
    constructor
    · intro x mem
      obtain rfl | mem := List.mem_cons.mp mem
      · exact ⟨_, List.mem_cons_self, first⟩
      · obtain ⟨y, hp, holds⟩ := partners x mem
        exact ⟨y, List.mem_cons_of_mem _ hp, holds⟩
    · intro y mem
      obtain rfl | mem := List.mem_cons.mp mem
      · exact ⟨_, List.mem_cons_self, first⟩
      · obtain ⟨x, hp, holds⟩ := origins y mem
        exact ⟨x, List.mem_cons_of_mem _ hp, holds⟩

theorem exists_mapM_eq_ok {P : α → β → Prop} (answers : ∀ x ∈ xs, ∃ y, f x = .ok y ∧ P x y) :
    ∃ ys, xs.mapM f = .ok ys ∧ List.Forall₂ P xs ys := by
  induction xs with
  | nil => exact ⟨[], rfl, .nil⟩
  | cons x xs ih =>
    obtain ⟨y, ans, holds⟩ := answers x List.mem_cons_self
    obtain ⟨ys, mapped, all⟩ := ih fun z mem => answers z (List.mem_cons_of_mem x mem)
    exact ⟨y :: ys, by rw [List.mapM_cons, ans, ok_bind, mapped]; rfl, .cons holds all⟩

theorem mapM_cons_reduceOption (f : α → Except ε (Option β)) (x : α) (xs : List α) :
    ((x :: xs).mapM f).map List.reduceOption =
      f x >>= fun y => ((xs.mapM f).map List.reduceOption).map fun ys => y.toList ++ ys := by
  rw [List.mapM_cons]
  cases f x with
  | error error => rfl
  | ok y =>
    cases xs.mapM f with
    | error error => rfl
    | ok ys => cases y <;> rfl

theorem mapM_filter_reduceOption {f : α → Except ε (Option β)} {p : α → Bool}
    (ignored : ∀ x, p x = false → f x = .ok none) (xs : List α) :
    ((xs.filter p).mapM f).map List.reduceOption = (xs.mapM f).map List.reduceOption := by
  induction xs with
  | nil => rfl
  | cons x xs ih =>
    rw [mapM_cons_reduceOption f x xs, ← ih]
    cases kept : p x with
    | true => rw [List.filter_cons_of_pos kept, mapM_cons_reduceOption]
    | false =>
      rw [List.filter_cons_of_neg (ne_true_of_eq_false kept), ignored x kept]
      cases ((xs.filter p).mapM f).map List.reduceOption <;> rfl

theorem getLast_of_mapM_eq_ok {x : α} (mapped : xs.mapM f = .ok ys) (last : xs.getLast? = some x) :
    ∃ y, f x = .ok y ∧ ys.getLast? = some y := by
  obtain ⟨front, rfl⟩ := List.getLast?_eq_some_iff.mp last
  rw [List.mapM_append, bind_eq_ok] at mapped
  obtain ⟨_, -, mapped⟩ := mapped
  obtain ⟨_, single, mapped⟩ := bind_eq_ok.mp mapped
  rw [List.mapM_cons, bind_eq_ok] at single
  obtain ⟨y, ans, single⟩ := single
  cases single
  cases mapped
  exact ⟨y, ans, List.getLast?_concat⟩

end CheckedFold
