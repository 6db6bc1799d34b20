import Mathlib.Tactic

/-! Items with optional lower and upper bounds over a linear order, listed so that each ends before
the next begins. -/

namespace IntervalChain

variable {ι α : Type*} [LinearOrder α] (low high : ι → Option α)

def Contains (item : ι) (value : α) : Prop :=
  (∀ l ∈ low item, l ≤ value) ∧ ∀ h ∈ high item, value ≤ h

instance (item : ι) (value : α) : Decidable (Contains low high item value) :=
  inferInstanceAs (Decidable ((∀ l ∈ low item, l ≤ value) ∧ ∀ h ∈ high item, value ≤ h))

def Before (item other : ι) : Prop := ∃ h ∈ high item, ∃ l ∈ low other, h < l

def Proper (item : ι) : Prop := ∀ l ∈ low item, ∀ h ∈ high item, l ≤ h

/-- No value in `V` falls between the two items. -/
def Meets (V : α → Prop) (item other : ι) : Prop :=
  ∃ h ∈ high item, ∃ l ∈ low other, ∀ value, V value → h < value → l ≤ value

variable {low high}

theorem Before.not_both {item other : ι} (before : Before low high item other) {v : α} :
    ¬ (Contains low high item v ∧ Contains low high other v) := by
  rintro ⟨⟨-, upper⟩, lower, -⟩
  obtain ⟨h, isHigh, l, isLow, hne⟩ := before
  exact absurd ((lower l isLow).trans (upper h isHigh)) (not_le.mpr hne)

theorem Before.trans {a b c : ι} (proper : Proper low high b) (first : Before low high a b)
    (snd : Before low high b c) : Before low high a c := by
  obtain ⟨h, isHigh, l, isLow, hne⟩ := first
  obtain ⟨h', isHigh', l', isLow', apart'⟩ := snd
  exact ⟨h, isHigh, l', isLow', hne.trans_le ((proper l isLow h' isHigh').trans apart'.le)⟩

variable {items : List ι}

theorem chain_pairwise (proper : ∀ item ∈ items, Proper low high item)
    (chain : items.IsChain (Before low high)) : items.Pairwise (Before low high) := by
  induction items with
  | nil => exact List.Pairwise.nil
  | cons item rest ih =>
    cases rest with
    | nil => exact List.pairwise_singleton _ _
    | cons nxt rest =>
      obtain ⟨first, tail⟩ := List.isChain_cons_cons.mp chain
      have later := ih (fun other mem => proper other (List.mem_cons_of_mem item mem)) tail
      refine List.pairwise_cons.mpr ⟨fun other mem => ?_, later⟩
      rcases List.mem_cons.mp mem with rfl | mem
      · exact first
      · exact first.trans (proper nxt (by simp)) ((List.pairwise_cons.mp later).1 other mem)

theorem disjoint_of_chain {ord : List ι} (perm : ord.Perm items)
    (proper : ∀ item ∈ items, Proper low high item) (chain : ord.IsChain (Before low high)) :
    items.Pairwise fun a b => ∀ v, ¬ (Contains low high a v ∧ Contains low high b v) := by
  have pairwise := chain_pairwise (fun item mem => proper item (perm.subset mem)) chain
  exact perm.pairwise (pairwise.imp fun before _ => before.not_both)
    fun hne v both => hne v both.symm

theorem exists_of_chain {V : α → Prop} (chain : items.IsChain (Meets low high V))
    (last : ∀ item ∈ items.getLast?, high item = none) {value : α} (interest : V value)
    (first : ∃ item ∈ items.head?, ∀ l ∈ low item, l ≤ value) :
    ∃ item ∈ items, Contains low high item value := by
  induction items with
  | nil =>
    obtain ⟨_, hab, _⟩ := first
    cases hab
  | cons item rest ih =>
    obtain ⟨_, head, fromLow⟩ := first
    cases head
    by_cases hle : ∀ h ∈ high item, value ≤ h
    · exact ⟨item, by simp, fromLow, hle⟩
    · cases rest with
      | nil =>
        have isOpen : high item = none := last item (by simp)
        exact absurd (by simp [isOpen]) hle
      | cons nxt rest =>
        obtain ⟨⟨h, isHigh, l, isLow, none_between⟩, tail⟩ := List.isChain_cons_cons.mp chain
        have above : h < value := by
          push Not at hle
          obtain ⟨h', isHigh', less⟩ := hle
          cases Option.mem_unique isHigh isHigh'
          exact less
        have reaches : ∀ l' ∈ low nxt, l' ≤ value := by
          intro l' isLow'
          cases Option.mem_unique isLow isLow'
          exact none_between value interest above
        obtain ⟨hf, mem, contains⟩ := ih tail (by simpa using last) ⟨nxt, rfl, reaches⟩
        exact ⟨hf, List.mem_cons_of_mem item mem, contains⟩

theorem eq_or_before_of_chain {ord : List ι} (perm : ord.Perm items)
    (proper : ∀ item ∈ items, Proper low high item) (chain : ord.IsChain (Before low high))
    {a b : ι} (inA : a ∈ items) (inB : b ∈ items) :
    a = b ∨ Before low high a b ∨ Before low high b a := by
  have pairwise := chain_pairwise (fun item mem => proper item (perm.subset mem)) chain
  have cmpb : ord.Pairwise fun a b => a = b ∨ Before low high a b ∨ Before low high b a :=
    pairwise.imp fun before => .inr (.inl before)
  have flipped : ord.Pairwise (flip fun a b => a = b ∨ Before low high a b ∨ Before low high b a) :=
    pairwise.imp fun before => .inr (.inr before)
  exact cmpb.forall_of_forall_of_flip (fun _ _ => .inl rfl) flipped (perm.symm.subset inA)
    (perm.symm.subset inB)

def start (low : ι → Option α) (item : ι) : WithBot α := low item

/-- A value is met when above each upper bound that falls short of it another item begins, at or
below it. -/
theorem exists_of_reaches {value : α} (proper : ∀ item ∈ items, Proper low high item)
    (first : ∃ item ∈ items, ∀ l ∈ low item, l ≤ value)
    (reaches : ∀ item ∈ items, ∀ h ∈ high item, h < value →
        ∃ other ∈ items, ∃ l ∈ low other, h < l ∧ l ≤ value) :
    ∃ item ∈ items, Contains low high item value := by
  -- among the items that begin at or below the value, one that begins last
  have finite : {item | item ∈ items ∧ ∀ l ∈ low item, l ≤ value}.Finite :=
    items.finite_toSet.subset fun item mem => mem.1
  obtain ⟨item, ⟨mem, begins⟩, last⟩ := finite.exists_maximalFor (start low) _ first
  refine ⟨item, mem, begins, fun h isHigh => le_of_not_gt fun short => ?_⟩
  obtain ⟨other, inOther, l, isLow, above, atMost⟩ := reaches item mem h isHigh short
  have before : start low item < start low other := by
    rw [start, start, Option.mem_def.mp isLow]
    cases begin : low item with
    | none => exact WithBot.bot_lt_coe l
    | some l' => exact WithBot.coe_lt_coe.mpr ((proper item mem l' begin h isHigh).trans_lt above)
  refine absurd (last ⟨inOther, fun l' isLow' => ?_⟩ before.le) (not_le.mpr before)
  cases Option.mem_unique isLow isLow'
  exact atMost

section
variable {κ : Type*} {p : κ → Prop} [DecidablePred p] {items : List κ}

theorem sum_of_unique {M : Type*} [AddCommMonoid M] (some_item : ∃ item ∈ items, p item)
    (hne : items.Pairwise fun a b => ¬ (p a ∧ p b)) (x : M) :
    (items.map fun item => if p item then x else 0).sum = x := by
  induction items with
  | nil =>
    obtain ⟨_, hab, _⟩ := some_item
    cases hab
  | cons item rest ih =>
    obtain ⟨alone, tail⟩ := List.pairwise_cons.mp hne
    rw [List.map_cons, List.sum_cons]
    by_cases here : p item
    · have others : rest.map (fun other => if p other then x else 0) = rest.map fun _ => 0 :=
        List.map_congr_left fun other mem => if_neg fun also => alone other mem ⟨here, also⟩
      rw [if_pos here, others]
      simp
    · obtain ⟨hf, mem, holds⟩ := some_item
      have later : hf ∈ rest := by
        rcases List.mem_cons.mp mem with rfl | later
        · exact absurd holds here
        · exact later
      rw [if_neg here, ih ⟨hf, later, holds⟩ tail, zero_add]

theorem countP_of_unique (some_item : ∃ item ∈ items, p item)
    (hne : items.Pairwise fun a b => ¬ (p a ∧ p b)) : items.countP (fun item => p item) = 1 := by
  have ones : items.countP (fun item => p item) =
      (items.map fun item => if p item then 1 else 0).sum := by
    clear some_item hne
    induction items with
    | nil => rfl
    | cons item rest ih => simp [List.countP_cons, ih, add_comm]
  rw [ones, sum_of_unique some_item hne]
end

end IntervalChain
