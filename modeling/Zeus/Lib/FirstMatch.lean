import Mathlib.Tactic

/-! A scan that stops at the first item of a kind and gives its verdict on that item alone depends
on the order of the items, unless the items it may stop at all lead to the same verdict. -/

namespace FirstMatch

variable {α β : Type*} {stops : α → Bool} {items : List α} {x : α}

theorem exists_perm_find?_eq (mem : x ∈ items) (stop : stops x = true) :
    ∃ order : List α, order.Perm items ∧ order.find? stops = some x := by
  obtain ⟨front, back, rfl⟩ := List.append_of_mem mem
  exact ⟨x :: (front ++ back), List.perm_middle.symm, List.find?_cons_of_pos stop⟩

theorem find?_eq_none_of_perm {order : List α} (same : order.Perm items)
    (hab : items.find? stops = none) : order.find? stops = none :=
  List.find?_eq_none.mpr fun y mem => List.find?_eq_none.mp hab y (same.subset mem)

theorem verdict_perm_iff (vd : Option α → β) :
    (∀ order : List α, order.Perm items → vd (order.find? stops) = vd (items.find? stops)) ↔
      ∀ x ∈ items, ∀ y ∈ items, stops x = true → stops y = true → vd (some x) = vd (some y) := by
  constructor
  · intro invariant x memberX y memberY stopX stopY
    obtain ⟨first, sameFirst, foundX⟩ := exists_perm_find?_eq memberX stopX
    obtain ⟨snd, sameSecond, foundY⟩ := exists_perm_find?_eq memberY stopY
    calc vd (some x) = vd (items.find? stops) := foundX ▸ invariant first sameFirst
      _ = vd (some y) := (foundY ▸ invariant snd sameSecond).symm
  · intro agree order same
    cases hf : items.find? stops with
    | none => rw [find?_eq_none_of_perm same hf]
    | some x =>
      have memberX := List.mem_of_find?_eq_some hf
      have stopX : stops x = true := List.find?_some hf
      cases later : order.find? stops with
      | none =>
        exact absurd stopX (List.find?_eq_none.mp later x (same.symm.subset memberX))
      | some y =>
        exact agree y (same.subset (List.mem_of_find?_eq_some later)) x memberX
          (List.find?_some later) stopX

end FirstMatch
