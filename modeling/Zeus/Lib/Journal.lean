import Mathlib.Data.List.Fold
import Mathlib.Tactic

namespace Journal

variable {α κ : Type*} [DecidableEq κ] (key : α → κ) (number : α → ℕ)

def ofKey (log : List α) (k : κ) : List α := log.filter fun entry => key entry = k

/-- `COALESCE(MAX(number), 0) + 1` over the entries of a key. -/
def nextNumber (log : List α) (k : κ) : ℕ := ((ofKey key log k).map number).foldl max 0 + 1

/-- The entries of every key are numbered 1, 2, … in the order they were written. -/
def Numbered (log : List α) : Prop :=
  ∀ k, (ofKey key log k).map number = List.range' 1 (ofKey key log k).length

variable {key number} {log : List α} {entry : α} {k : κ}

theorem ofKey_concat :
    ofKey key (log ++ [entry]) k =
      if key entry = k then ofKey key log k ++ [entry] else ofKey key log k := by
  unfold ofKey
  by_cases own : key entry = k <;> simp [own]

theorem number_lt_nextNumber (hs : entry ∈ ofKey key log k) :
    number entry < nextNumber key number log k := by
  rw [nextNumber, List.foldl_eq_foldr]
  exact Nat.lt_succ_of_le (List.le_max_of_le (List.mem_map_of_mem hs) le_rfl)

theorem foldl_max_range' (n : ℕ) : (List.range' 1 n).foldl max 0 = n := by
  induction n with
  | zero => rfl
  | succ n bound =>
    rw [List.range'_1_concat, List.foldl_append, bound]
    simp [Nat.add_comm]

section
variable {rows : List α}

theorem map_number_concat (numd : rows.map number = List.range' 1 rows.length)
    (next : number entry = rows.length + 1) :
    (rows ++ [entry]).map number = List.range' 1 (rows ++ [entry]).length := by
  rw [List.map_append, numd, List.length_append, List.length_singleton, List.range'_1_concat,
    List.map_singleton, next, Nat.add_comm]

theorem number_getLast (numd : rows.map number = List.range' 1 rows.length)
    (last : rows.getLast? = some entry) : number entry = rows.length := by
  obtain ⟨front, rfl⟩ := List.getLast?_eq_some_iff.mp last
  rw [List.map_append, List.length_append, List.length_singleton, List.range'_1_concat] at numd
  have seq := List.append_inj_right' numd rfl
  simp only [List.map_cons, List.map_nil, List.cons.injEq, and_true] at seq
  rw [seq, List.length_append, List.length_singleton, Nat.add_comm]
end

theorem Numbered.nextNumber_eq (numd : Numbered key number log) :
    nextNumber key number log k = (ofKey key log k).length + 1 := by
  unfold nextNumber
  rw [numd k, foldl_max_range']

theorem Numbered.concat (numd : Numbered key number log)
    (next : number entry = nextNumber key number log (key entry)) :
    Numbered key number (log ++ [entry]) := by
  intro k
  rw [ofKey_concat]
  split <;> rename_i own
  · subst own
    exact map_number_concat (numd _) (next.trans numd.nextNumber_eq)
  · exact numd k

theorem isChain_ofKey_concat {linked : α → α → Prop} (chain : (ofKey key log k).IsChain linked)
    (link : ∀ last, (ofKey key log (key entry)).getLast? = some last → linked last entry) :
    (ofKey key (log ++ [entry]) k).IsChain linked := by
  rw [ofKey_concat]
  split <;> rename_i own
  · subst own
    rw [List.isChain_append]
    refine ⟨chain, List.isChain_singleton _, ?_⟩
    intro last isLast newest isNew
    cases isNew
    exact link last isLast
  · exact chain

end Journal
