import Mathlib.Tactic

/-! A log is a list in the order its entries were written. `latest p log` is the newest entry that
satisfies `p`; the lemmas say what a later entry does to it. -/

namespace Log

variable {α : Type*} {p q : α → Bool} {log later : List α} {entry : α}

/-- The newest entry that satisfies `p`. -/
def latest (p : α → Bool) (log : List α) : Option α := (log.filter p).getLast?

@[simp] theorem latest_nil : latest p [] = none := rfl

theorem latest_append : latest p (log ++ later) = (latest p later).or (latest p log) := by
  simp [latest, List.filter_append, List.getLast?_append]

theorem latest_concat :
    latest p (log ++ [entry]) = if p entry then some entry else latest p log := by
  rw [latest_append]
  by_cases holds : p entry = true <;> simp [latest, holds]

theorem latest_concat_pos (holds : p entry = true) : latest p (log ++ [entry]) = some entry := by
  rw [latest_concat, if_pos holds]

theorem latest_concat_neg (fails : p entry = false) : latest p (log ++ [entry]) = latest p log := by
  rw [latest_concat, if_neg (by simp [fails])]

theorem latest_some (hf : latest p log = some entry) : entry ∈ log ∧ p entry = true :=
  List.mem_filter.mp (List.mem_of_getLast? hf)

theorem latest_eq_none : latest p log = none ↔ ∀ entry ∈ log, p entry = false := by
  simp [latest]

theorem latest_isSome : (latest p log).isSome = true ↔ ∃ entry ∈ log, p entry = true := by
  rw [Option.isSome_iff_ne_none, ne_eq, latest_eq_none]
  push Not
  simp

theorem latest_append_of_none (none_later : ∀ entry ∈ later, p entry = false) :
    latest p (log ++ later) = latest p log := by
  rw [latest_append, latest_eq_none.mpr none_later, Option.none_or]

theorem latest_congr (same : ∀ entry ∈ log, p entry = q entry) : latest p log = latest q log := by
  unfold latest
  rw [List.filter_congr same]

theorem latest_of_getLast (last : log.getLast? = some entry) (holds : p entry = true) :
    latest p log = some entry := by
  rcases List.eq_nil_or_concat log with rfl | ⟨front, newest, rfl⟩
  · cases last
  · rw [List.concat_eq_append] at last ⊢
    rw [List.getLast?_concat] at last
    cases last
    exact latest_concat_pos holds

theorem latest_and (hf : latest p log = some entry) (holds : q entry = true) :
    latest (fun entry => p entry && q entry) log = some entry := by
  have split : log.filter (fun entry => p entry && q entry) = (log.filter p).filter q := by
    rw [List.filter_filter]
    exact List.filter_congr fun entry _ => Bool.and_comm _ _
  rw [latest, split]
  exact latest_of_getLast hf holds

section
variable {κ : Type*} [LinearOrder κ] {rank : α → κ}

theorem rank_le_latest (asc : log.Pairwise fun a b => rank a < rank b)
    (hf : latest p log = some entry) {other : α} (mem : other ∈ log) (holds : p other = true) :
    rank other ≤ rank entry := by
  induction log using List.reverseRecOn with
  | nil => cases mem
  | append_singleton log newest step =>
    obtain ⟨before, -, hne⟩ := List.pairwise_append.mp asc
    by_cases isNew : p newest = true
    · rw [latest_concat_pos isNew] at hf
      rw [← Option.some.inj hf]
      rcases List.mem_append.mp mem with early | same
      · exact (hne other early newest (List.mem_singleton_self newest)).le
      · rw [List.mem_singleton.mp same]
    · rw [latest_concat_neg (by simpa using isNew)] at hf
      rcases List.mem_append.mp mem with early | same
      · exact step before hf early
      · rw [List.mem_singleton.mp same] at holds
        exact absurd holds isNew

theorem latest_filter_rank (asc : log.Pairwise fun a b => rank a < rank b) (bound : κ) :
    latest p (log.filter fun entry => bound < rank entry) =
      (latest p log).filter fun entry => bound < rank entry := by
  induction log using List.reverseRecOn with
  | nil => rfl
  | append_singleton log newest step =>
    obtain ⟨before, -, hne⟩ := List.pairwise_append.mp asc
    rw [List.filter_append]
    by_cases isNew : p newest = true <;> by_cases above : bound < rank newest
    · rw [latest_concat_pos isNew]
      simp only [List.filter_cons, above, decide_true, if_true, List.filter_nil]
      rw [latest_concat_pos isNew]
      simp [Option.filter, above]
    · -- everything before the newest entry is below the bound as well
      have below : log.filter (fun entry => bound < rank entry) = [] := by
        rw [List.filter_eq_nil_iff]
        intro entry mem
        have less := hne entry mem newest (List.mem_singleton_self newest)
        simpa using less.le.trans (not_lt.mp above)
      rw [latest_concat_pos isNew, below]
      simp [Option.filter, above]
    · have fails : p newest = false := by simpa using isNew
      rw [latest_concat_neg fails, ← step before]
      simp only [List.filter_cons, above, decide_true, if_true, List.filter_nil]
      rw [latest_concat_neg fails]
    · have fails : p newest = false := by simpa using isNew
      rw [latest_concat_neg fails, ← step before]
      simp [above]
end

end Log
