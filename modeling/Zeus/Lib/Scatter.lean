import Mathlib.Tactic

/-! A list of places, each with a label, and a function of the label that rewrites the element at
the place. -/

namespace Scatter

variable {α β ι : Type*}

def writeAll (f : ι → α → α) (places : List (ℕ × ι)) (out : List α) : List α :=
  places.foldl (fun written place => written.modify place.1 (f place.2)) out

variable {f : ι → α → α} {places : List (ℕ × ι)} {out : List α} {i : ℕ}

theorem getElem?_writeAll_other (hab : i ∉ places.map Prod.fst) :
    (writeAll f places out)[i]? = out[i]? := by
  induction places generalizing out with
  | nil => rfl
  | cons place rest ih =>
    rw [List.map_cons, List.mem_cons, not_or] at hab
    exact (ih hab.2).trans (List.getElem?_modify_ne _ _ (Ne.symm hab.1))

theorem getElem?_writeAll {label : ι} (nd : (places.map Prod.fst).Nodup)
    (mem : (i, label) ∈ places) : (writeAll f places out)[i]? = out[i]?.map (f label) := by
  induction places generalizing out with
  | nil => cases mem
  | cons place rest ih =>
    obtain ⟨fresh, ndr⟩ := List.nodup_cons.mp nd
    rcases List.mem_cons.mp mem with rfl | later
    · exact (getElem?_writeAll_other fresh).trans (List.getElem?_modify_eq _ _ _)
    · have differs : place.1 ≠ i := by
        intro same
        exact fresh (same ▸ List.mem_map_of_mem (f := Prod.fst) later)
      exact (ih ndr later).trans
        (congrArg (Option.map (f label)) (List.getElem?_modify_ne _ _ differs))

theorem map_getElem?_writeAll {g : α → β} (keep : ∀ label a, g (f label a) = g a) (i : ℕ) :
    (writeAll f places out)[i]?.map g = out[i]?.map g := by
  induction places generalizing out with
  | nil => rfl
  | cons place rest ih =>
    refine ih.trans ?_
    by_cases here : place.1 = i <;> cases at_ : out[i]? <;> simp [at_, here, keep]

theorem map_writeAll {g : α → β} (keep : ∀ label a, g (f label a) = g a) :
    (writeAll f places out).map g = out.map g := by
  apply List.ext_getElem?
  intro i
  rw [List.getElem?_map, List.getElem?_map, map_getElem?_writeAll keep]

end Scatter
