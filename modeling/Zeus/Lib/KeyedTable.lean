import Mathlib.Tactic

/-! A table is a list of rows with pairwise different keys, in insertion order. Uniqueness is part
of the type, so an operation that would break it cannot be written. -/

@[ext] structure KeyedTable {ρ κ : Type*} (key : ρ → κ) where
  rows : List ρ
  nodup : (rows.map key).Nodup

namespace KeyedTable

variable {ρ κ : Type*} {key : ρ → κ}

def empty : KeyedTable key := ⟨[], List.nodup_nil⟩

def total {M : Type*} [AddCommMonoid M] (t : KeyedTable key) (w : ρ → M) : M := (t.rows.map w).sum

/-- Rewrite the rows that satisfy `p`; the update may not touch the key. -/
def modifyWhere (t : KeyedTable key) (p : ρ → Bool) (f : ρ → ρ) (keep : ∀ r, key (f r) = key r) :
    KeyedTable key where
  rows := t.rows.map fun r => if p r then f r else r
  nodup := by
    have same : (t.rows.map fun r => if p r then f r else r).map key = t.rows.map key := by
      rw [List.map_map]
      apply List.map_congr_left
      intro r _
      by_cases h : p r = true <;> simp [h, keep]
    rw [same]
    exact t.nodup

def map {τ : Type*} {key' : τ → κ} (t : KeyedTable key) (f : ρ → τ)
    (keep : ∀ r, key' (f r) = key r) : KeyedTable key' where
  rows := t.rows.map f
  nodup := by
    have same : (t.rows.map f).map key' = t.rows.map key := by
      rw [List.map_map]
      exact List.map_congr_left fun r _ => keep r
    rw [same]
    exact t.nodup

def eraseWhere (t : KeyedTable key) (p : ρ → Bool) : KeyedTable key where
  rows := t.rows.filter fun r => !p r
  nodup := List.Nodup.sublist (List.Sublist.map key List.filter_sublist) t.nodup

theorem filter_perm_of_append [DecidableEq κ] {rows front back : List ρ} (nd : (rows.map key).Nodup)
    (split : rows.Perm (front ++ back)) :
    (rows.filter fun r => key r ∉ front.map key).Perm back := by
  have hne := ((split.map key).nodup_iff.mp nd)
  rw [List.map_append] at hne
  refine (split.filter _).trans (List.Perm.of_eq ?_)
  rw [List.filter_append, List.filter_eq_nil_iff.mpr, List.nil_append, List.filter_eq_self]
  · intro r mem
    exact decide_eq_true fun taken =>
      (List.nodup_append.mp hne).2.2 _ taken _ (List.mem_map_of_mem mem) rfl
  · intro r mem
    simpa using ⟨r, mem, rfl⟩

theorem filter_key_eq_singleton [DecidableEq κ] {rows : List ρ} {r : ρ} (nd : (rows.map key).Nodup)
    (mem : r ∈ rows) : (rows.filter fun row => key row = key r) = [r] := by
  induction rows with
  | nil => cases mem
  | cons first rest ih =>
    obtain ⟨fresh, ndr⟩ := List.nodup_cons.mp nd
    rcases List.mem_cons.mp mem with rfl | later
    · have others : (rest.filter fun row => key row = key r) = [] :=
        List.filter_eq_nil_iff.mpr fun row hp same =>
          fresh (List.mem_map.mpr ⟨row, hp, of_decide_eq_true same⟩)
      simp [others]
    · have differs : key first ≠ key r := fun same => fresh (List.mem_map.mpr ⟨r, later, same.symm⟩)
      simpa [differs] using ih ndr later

theorem modifyWhere_of_none {t : KeyedTable key} {p : ρ → Bool} {f : ρ → ρ}
    {keep : ∀ r, key (f r) = key r} (none_holds : ∀ r ∈ t.rows, p r = false) :
    t.modifyWhere p f keep = t := by
  apply KeyedTable.ext
  have same : ∀ r ∈ t.rows, (if p r then f r else r) = r := by
    intro r mem
    simp [none_holds r mem]
  exact (List.map_congr_left same).trans (List.map_id _)

section
variable [DecidableEq κ]

def find (t : KeyedTable key) (k : κ) : Option ρ := t.rows.find? fun r => key r = k

def insert (t : KeyedTable key) (r : ρ) (fresh : t.find (key r) = none) : KeyedTable key where
  rows := t.rows ++ [r]
  nodup := by
    rw [List.map_append, List.nodup_append]
    refine ⟨t.nodup, by simp, ?_⟩
    intro k member other last
    obtain ⟨row, inRows, rfl⟩ := List.mem_map.mp member
    have absent := List.find?_eq_none.mp fresh row inRows
    simp only [List.map_cons, List.map_nil, List.mem_singleton] at last
    simpa [last] using absent

def modify (t : KeyedTable key) (k : κ) (f : ρ → ρ) (keep : ∀ r, key (f r) = key r) :
    KeyedTable key := t.modifyWhere (fun r => key r = k) f keep

def tryInsert (t : KeyedTable key) (r : ρ) : Option (KeyedTable key) :=
  if fresh : t.find (key r) = none then some (t.insert r fresh) else none

/-- Insert `r`, or rewrite the row that already has its key. -/
def upsert (t : KeyedTable key) (r : ρ) (f : ρ → ρ) (keep : ∀ r, key (f r) = key r) :
    KeyedTable key :=
  if fresh : t.find (key r) = none then t.insert r fresh else t.modify (key r) f keep

def erase (t : KeyedTable key) (k : κ) : KeyedTable key where
  rows := t.rows.filter fun r => key r ≠ k
  nodup := List.Nodup.sublist (List.Sublist.map key List.filter_sublist) t.nodup

variable {t : KeyedTable key} {r : ρ}

theorem find_some {k : κ} (h : t.find k = some r) : r ∈ t.rows ∧ key r = k :=
  ⟨List.mem_of_find?_eq_some h, by simpa using List.find?_some h⟩

theorem find_none_iff {k : κ} : t.find k = none ↔ ∀ r ∈ t.rows, key r ≠ k := by
  simp [find, List.find?_eq_none]

theorem find_of_mem (mem : r ∈ t.rows) : t.find (key r) = some r := by
  cases hf : t.find (key r) with
  | none => exact absurd rfl (find_none_iff.mp hf r mem)
  | some other =>
    obtain ⟨inRows, same⟩ := find_some hf
    exact congrArg some (List.inj_on_of_nodup_map t.nodup inRows mem same)

theorem find_eq_some_iff {k : κ} : t.find k = some r ↔ r ∈ t.rows ∧ key r = k := by
  constructor
  · exact find_some
  · rintro ⟨mem, rfl⟩
    exact find_of_mem mem

theorem find_insert (t : KeyedTable key) (r : ρ) (fresh : t.find (key r) = none) (k : κ) :
    (t.insert r fresh).find k = if key r = k then some r else t.find k := by
  by_cases here : key r = k
  · subst here
    rw [if_pos rfl]
    exact find_of_mem (by simp [insert])
  · rw [if_neg here]
    simp [find, insert, List.find?_append, here]

theorem find_modifyWhere (t : KeyedTable key) (p : ρ → Bool) (f : ρ → ρ)
    (keep : ∀ r, key (f r) = key r) (k : κ) :
    (t.modifyWhere p f keep).find k = (t.find k).map fun r => if p r then f r else r := by
  cases hf : t.find k with
  | none =>
    rw [find_none_iff] at hf
    rw [Option.map_none, find_none_iff]
    intro r mem
    obtain ⟨old, inRows, rfl⟩ := List.mem_map.mp mem
    by_cases h : p old = true <;> simp [h, keep, hf old inRows]
  | some old =>
    obtain ⟨inRows, same⟩ := find_some hf
    rw [Option.map_some, find_eq_some_iff]
    refine ⟨List.mem_map_of_mem (f := fun r => if p r then f r else r) inRows, ?_⟩
    by_cases h : p old = true <;> simp [h, keep, same]

theorem find_modify (t : KeyedTable key) (k : κ) (f : ρ → ρ) (keep : ∀ r, key (f r) = key r)
    (j : κ) : (t.modify k f keep).find j = if j = k then (t.find j).map f else t.find j := by
  rw [modify, find_modifyWhere]
  cases hf : t.find j with
  | none => simp
  | some old =>
    have same := (find_some hf).2
    by_cases here : j = k <;> simp [same, here]

theorem find_eraseWhere (t : KeyedTable key) (p : ρ → Bool) (k : κ) :
    (t.eraseWhere p).find k = (t.find k).filter fun r => !p r := by
  ext r
  simp only [find_eq_some_iff, eraseWhere, List.mem_filter, Option.filter_eq_some_iff]
  tauto

theorem find_map {τ : Type*} {key' : τ → κ} (t : KeyedTable key) (g : ρ → τ)
    (same : ∀ r, key' (g r) = key r) (k : κ) : (t.map g same).find k = (t.find k).map g := by
  simp only [find, map, List.find?_map]
  congr 2
  funext r
  simp [same]

theorem map_modify {τ : Type*} {key' : τ → κ} (t : KeyedTable key) (k : κ) (f : ρ → ρ)
    (keep : ∀ r, key (f r) = key r) (g : ρ → τ) (same : ∀ r, key' (g r) = key r)
    (hidden : ∀ r, g (f r) = g r) : (t.modify k f keep).map g same = t.map g same := by
  apply KeyedTable.ext
  simp only [map, modify, modifyWhere, List.map_map]
  apply List.map_congr_left
  intro r _
  by_cases here : key r = k <;> simp [here, hidden]

theorem tryInsert_eq_some_iff {t' : KeyedTable key} :
    t.tryInsert r = some t' ↔ ∃ fresh : t.find (key r) = none, t' = t.insert r fresh := by
  unfold tryInsert
  split <;> rename_i fresh
  · simp [fresh, eq_comm]
  · simp [fresh]

theorem tryInsert_of_fresh (fresh : key r ∉ t.rows.map key) :
    ∃ t', t.tryInsert r = some t' ∧ t'.rows = t.rows ++ [r] := by
  have hab : t.find (key r) = none :=
    find_none_iff.mpr fun other mem same => fresh (same ▸ List.mem_map_of_mem mem)
  exact ⟨t.insert r hab, tryInsert_eq_some_iff.mpr ⟨hab, rfl⟩, rfl⟩

theorem tryInsert_of_taken (taken : key r ∈ t.rows.map key) : t.tryInsert r = none := by
  obtain ⟨other, mem, same⟩ := List.mem_map.mp taken
  refine Option.eq_none_iff_forall_not_mem.mpr fun t' ins => ?_
  obtain ⟨hab, -⟩ := tryInsert_eq_some_iff.mp ins
  exact find_none_iff.mp hab other mem same

theorem find_tryInsert {t' : KeyedTable key} (ins : t.tryInsert r = some t') (k : κ) :
    t'.find k = if key r = k then some r else t.find k := by
  obtain ⟨fresh, rfl⟩ := tryInsert_eq_some_iff.mp ins
  exact find_insert t r fresh k

theorem find_upsert (t : KeyedTable key) (r : ρ) (f : ρ → ρ) (keep : ∀ r, key (f r) = key r)
    (k : κ) :
    (t.upsert r f keep).find k = if k = key r then some ((t.find k).elim r f) else t.find k := by
  unfold upsert
  split <;> rename_i fresh
  · rw [find_insert]
    by_cases here : k = key r
    · subst here
      simp [fresh]
    · simp [here, Ne.symm here]
  · obtain ⟨old, hf⟩ := Option.ne_none_iff_exists'.mp fresh
    rw [find_modify]
    by_cases here : k = key r
    · subst here
      simp [hf]
    · simp [here]

theorem erase_absent {k : κ} (hab : t.find k = none) : t.erase k = t :=
  KeyedTable.ext (List.filter_eq_self.mpr fun x mem => by
    simpa using find_none_iff.mp hab x mem)

theorem erase_insert (t : KeyedTable key) (r : ρ) (fresh : t.find (key r) = none) :
    (t.insert r fresh).erase (key r) = t := by
  apply KeyedTable.ext
  have kept : t.rows.filter (fun x => key x ≠ key r) = t.rows :=
    congrArg KeyedTable.rows (erase_absent fresh)
  simp only [erase, insert, List.filter_append, kept]
  simp

section
variable {M : Type*} [AddCommMonoid M]

theorem total_insert (t : KeyedTable key) (r : ρ) (fresh : t.find (key r) = none) (w : ρ → M) :
    (t.insert r fresh).total w = t.total w + w r := by
  simp [total, insert]

theorem total_erase (t : KeyedTable key) {k : κ} {r : ρ} (hf : t.find k = some r) (w : ρ → M) :
    t.total w = w r + (t.erase k).total w := by
  obtain ⟨mem, same⟩ := find_some hf
  obtain ⟨before, after, split⟩ := List.append_of_mem mem
  have nd := t.nodup
  rw [split] at nd
  simp only [List.map_append, List.map_cons] at nd
  have hne := List.nodup_middle.mp nd
  rw [List.nodup_cons] at hne
  have keep : ∀ x ∈ before ++ after, key x ≠ k := by
    intro x hx clash
    apply hne.1
    rw [← List.map_append]
    exact List.mem_map.mpr ⟨x, hx, clash.trans same.symm⟩
  have kept : (before ++ r :: after).filter (fun x => key x ≠ k) = before ++ after := by
    rw [List.filter_append, List.filter_cons]
    simp only [same, ne_eq, not_true_eq_false, decide_false, Bool.false_eq_true, if_false]
    rw [← List.filter_append]
    exact List.filter_eq_self.mpr fun x hx => by simpa using keep x hx
  simp only [total, erase, split, kept, List.map_append, List.map_cons, List.sum_append,
    List.sum_cons]
  exact add_left_comm _ _ _

theorem erase_modify (t : KeyedTable key) (k : κ) (f : ρ → ρ) (keep : ∀ r, key (f r) = key r) :
    (t.modify k f keep).erase k = t.erase k := by
  apply KeyedTable.ext
  simp only [erase, modify, modifyWhere, List.filter_map]
  have same : (fun x => decide (key x ≠ k)) ∘
        (fun r => if decide (key r = k) = true then f r else r) =
      fun x => decide (key x ≠ k) := by
    funext x
    by_cases here : key x = k <;> simp [here, keep]
  rw [same]
  conv_rhs => rw [← List.map_id (t.rows.filter fun x => decide (key x ≠ k))]
  apply List.map_congr_left
  intro x mem
  have hne : key x ≠ k := by simpa using (List.mem_filter.mp mem).2
  simp [hne]

theorem total_modify (t : KeyedTable key) {k : κ} {r : ρ} (hf : t.find k = some r) (f : ρ → ρ)
    (keep : ∀ r, key (f r) = key r) (w : ρ → M) :
    (t.modify k f keep).total w = w (f r) + (t.erase k).total w := by
  have found' : (t.modify k f keep).find k = some (f r) := by
    rw [find_modify, if_pos rfl, hf, Option.map_some]
  rw [total_erase _ found', erase_modify]

theorem total_upsert (t : KeyedTable key) (r : ρ) (f : ρ → ρ) (keep : ∀ r, key (f r) = key r)
    (w : ρ → M) :
    (t.upsert r f keep).total w = w ((t.find (key r)).elim r f) + (t.erase (key r)).total w := by
  have hf : (t.upsert r f keep).find (key r) = some ((t.find (key r)).elim r f) := by
    rw [find_upsert, if_pos rfl]
  rw [total_erase _ hf]
  congr 2
  unfold upsert
  split <;> rename_i fresh
  · rw [erase_insert, erase_absent fresh]
  · exact erase_modify t (key r) f keep
end

end

theorem total_modifyWhere_le (t : KeyedTable key) (p : ρ → Bool) (f : ρ → ρ)
    (keep : ∀ r, key (f r) = key r) (w : ρ → ℕ) (less : ∀ r, p r = true → w (f r) ≤ w r) :
    (t.modifyWhere p f keep).total w ≤ t.total w := by
  simp only [total, modifyWhere, List.map_map]
  apply List.sum_le_sum
  intro r _
  by_cases h : p r = true
  · simpa [h] using less r h
  · simp [h]

end KeyedTable
