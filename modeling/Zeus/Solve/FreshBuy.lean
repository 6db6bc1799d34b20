import Zeus.Lib.Decimal

/-! `fresh_buy_target_holding`, which brings a holding up to the fractional Kelly target, or, while
capital is small, by one minimum lot, iterated under any order caps. Sums and differences are
rounded to 28 digits. -/

namespace Zeus.FreshBuy

open DecimalContext

def smallCapitalMinimumLotAdmits (held full fractional lot : ℚ) : Prop :=
  0 ≤ held ∧ 0 < lot ∧ (held < fractional ∧ fractional < lot) ∧ add held lot ≤ full

instance (held full fractional lot : ℚ) :
    Decidable (smallCapitalMinimumLotAdmits held full fractional lot) :=
  inferInstanceAs (Decidable (_ ∧ _))

def freshBuyTargetHolding (prior full fractional lot cap : ℚ) : ℚ :=
  if cap < lot then prior
  else if smallCapitalMinimumLotAdmits prior full fractional lot then add prior lot
  else
    let order := min (sub fractional prior) cap
    if lot ≤ order then add prior order else prior

def holdings (start full fractional lot : ℚ) (caps : ℕ → ℚ) : ℕ → ℚ
  | 0 => start
  | n + 1 =>
    freshBuyTargetHolding (holdings start full fractional lot caps n) full fractional lot (caps n)

/-- The `n`-th order is one small-capital lot. -/
def BuysSmallLot (start full fractional lot : ℚ) (caps : ℕ → ℚ) (n : ℕ) : Prop :=
  lot ≤ caps n ∧
  smallCapitalMinimumLotAdmits (holdings start full fractional lot caps n) full fractional lot

structure FitsDigits (e : ℤ) (start fractional lot : ℚ) (caps : ℕ → ℚ) : Prop where
  start_grid : OnGrid e start
  start_lt : start < 10 ^ prec * 10 ^ e
  fractional_grid : OnGrid e fractional
  fractional_lt : fractional < 10 ^ prec * 10 ^ e
  lot_grid : OnGrid e lot
  lot_lt : lot + lot < 10 ^ prec * 10 ^ e
  caps_grid : ∀ n, OnGrid e (caps n)

inductive Step (full fractional lot cap held : ℚ) : ℚ → Prop where
  | idle : Step full fractional lot cap held held
  | smallLot (capped : lot ≤ cap) (admits : smallCapitalMinimumLotAdmits held full fractional lot)
      (within : held + lot ≤ full) : Step full fractional lot cap held (held + lot)
  | order {target : ℚ} (grows : held + lot ≤ target) (within : target ≤ fractional) :
      Step full fractional lot cap held target

section
variable {e : ℤ} {held full fractional lot cap : ℚ}

theorem add_of_admits (admits : smallCapitalMinimumLotAdmits held full fractional lot)
    (heldGrid : OnGrid e held) (lotGrid : OnGrid e lot) (lotLt : lot + lot < 10 ^ prec * 10 ^ e) :
    add held lot = held + lot := by
  obtain ⟨nonneg, lotPos, ⟨short, small⟩, -⟩ := admits
  refine add_of_grid heldGrid lotGrid ?_
  -- the sum ends below two lots
  rw [abs_of_nonneg (by linarith)]
  linarith

theorem freshBuy_step (nonneg : 0 ≤ held) (heldGrid : OnGrid e held)
    (fracGrid : OnGrid e fractional) (fractionalLt : fractional < 10 ^ prec * 10 ^ e)
    (lotPos : 0 < lot) (lotGrid : OnGrid e lot) (lotLt : lot + lot < 10 ^ prec * 10 ^ e)
    (capGrid : OnGrid e cap) :
    Step full fractional lot cap held (freshBuyTargetHolding held full fractional lot cap) ∧
    OnGrid e (freshBuyTargetHolding held full fractional lot cap) := by
  dsimp only [freshBuyTargetHolding]
  split_ifs with short admits buys
  · exact ⟨.idle, heldGrid⟩
  · have sum : add held lot = held + lot := add_of_admits admits heldGrid lotGrid lotLt
    rw [sum]
    exact ⟨.smallLot (not_lt.mp short) admits (sum ▸ admits.2.2.2), heldGrid.add lotGrid⟩
  · -- an order ends within the fractional target
    have short : held ≤ fractional := by
      by_contra above
      have h0 : sub fractional held ≤ 0 := sigRound_nonpos (by linarith)
      linarith [min_le_left (sub fractional held) cap]
    have diff : sub fractional held = fractional - held := by
      refine sub_of_grid fracGrid heldGrid ?_
      rw [abs_of_nonneg (by linarith)]
      linarith
    rw [diff] at buys ⊢
    have orderGrid : OnGrid e (min (fractional - held) cap) := by
      rcases min_choice (fractional - held) cap with is | is <;> rw [is]
      · exact fracGrid.sub heldGrid
      · exact capGrid
    have hle : held + min (fractional - held) cap ≤ fractional := by
      linarith [min_le_left (fractional - held) cap]
    have sum : add held (min (fractional - held) cap) = held + min (fractional - held) cap := by
      refine add_of_grid heldGrid orderGrid ?_
      rw [abs_of_nonneg (by linarith)]
      linarith
    rw [sum]
    exact ⟨.order (by linarith) hle, heldGrid.add orderGrid⟩
  · exact ⟨.idle, heldGrid⟩

theorem Step.le {target : ℚ} (step : Step full fractional lot cap held target) (lotPos : 0 < lot) :
    held ≤ target := by
  cases step with
  | idle => exact le_rfl
  | smallLot capped admits hle => linarith
  | order grows hle => linarith

theorem Step.eq_of_le {tgt : ℚ} (step : Step full fractional lot cap held tgt) (lotPos : 0 < lot)
    (hr : fractional ≤ held) : tgt = held := by
  cases step with
  | idle => rfl
  | smallLot capped admits hle => exact absurd admits.2.2.1.1 (not_lt.mpr hr)
  | order grows hle => linarith
end

section
variable {e : ℤ} {start full fractional lot : ℚ} {caps : ℕ → ℚ}

variable (nonneg : 0 ≤ start) (lotPos : 0 < lot) (fits : FitsDigits e start fractional lot caps)

include nonneg lotPos fits

variable (full) in
theorem holdings_exact (n : ℕ) :
    0 ≤ holdings start full fractional lot caps n ∧
    OnGrid e (holdings start full fractional lot caps n) := by
  induction n with
  | zero => exact ⟨nonneg, fits.start_grid⟩
  | succ n ih =>
    obtain ⟨step, grid⟩ :=
      @freshBuy_step e _ full fractional lot (caps n) ih.1 ih.2 fits.fractional_grid
      fits.fractional_lt lotPos fits.lot_grid fits.lot_lt (fits.caps_grid n)
    exact ⟨ih.1.trans (step.le lotPos), grid⟩

theorem holdings_step (n : ℕ) :
    Step full fractional lot (caps n) (holdings start full fractional lot caps n)
      (holdings start full fractional lot caps (n + 1)) := by
  obtain ⟨held, grid⟩ := holdings_exact full nonneg lotPos fits n
  exact (freshBuy_step held grid fits.fractional_grid fits.fractional_lt lotPos fits.lot_grid
      fits.lot_lt
    (fits.caps_grid n)).1

theorem holdings_of_reached
    {m n : ℕ} (hr : fractional ≤ holdings start full fractional lot caps m) (later : m ≤ n) :
    holdings start full fractional lot caps n = holdings start full fractional lot caps m := by
  induction n, later using Nat.le_induction with
  | base => rfl
  | succ n _ ih => exact ((holdings_step nonneg lotPos fits n).eq_of_le lotPos (ih ▸ hr)).trans ih

theorem holdings_succ_of_buysSmallLot {m : ℕ}
    (buys : BuysSmallLot start full fractional lot caps m) :
    holdings start full fractional lot caps (m + 1) =
      holdings start full fractional lot caps m + lot := by
  obtain ⟨capped, admits⟩ := buys
  have grid := (holdings_exact full nonneg lotPos fits m).2
  rw [holdings, freshBuyTargetHolding, if_neg (not_lt.mpr capped), if_pos admits,
    add_of_admits admits grid fits.lot_grid fits.lot_lt]

theorem reached_of_buysSmallLot {m : ℕ} (buys : BuysSmallLot start full fractional lot caps m) :
    fractional ≤ holdings start full fractional lot caps (m + 1) := by
  rw [holdings_succ_of_buysSmallLot nonneg lotPos fits buys]
  obtain ⟨-, held, -, ⟨-, small⟩, -⟩ := buys
  linarith

theorem buysSmallLot_unique {m n : ℕ} (first : BuysSmallLot start full fractional lot caps m)
    (snd : BuysSmallLot start full fractional lot caps n) : ¬ m < n := by
  intro later
  have hr := reached_of_buysSmallLot nonneg lotPos fits first
  have short := snd.2.2.2.1.1
  rw [holdings_of_reached nonneg lotPos fits hr later] at short
  exact absurd hr (not_le.mpr short)

theorem exists_buysSmallLot {n : ℕ}
    (above : max start fractional < holdings start full fractional lot caps n) :
    ∃ m < n, BuysSmallLot start full fractional lot caps m := by
  induction n with
  | zero => exact absurd above (not_lt.mpr (le_max_left _ _))
  | succ n ih =>
    have earlier (h : max start fractional < holdings start full fractional lot caps n) :
        ∃ m < n + 1, BuysSmallLot start full fractional lot caps m := by
      obtain ⟨m, before, buys⟩ := ih h
      exact ⟨m, before.trans n.lt_succ_self, buys⟩
    generalize next : holdings start full fractional lot caps (n + 1) = tgt at above
    cases next ▸ holdings_step nonneg lotPos fits n with
    | idle => exact earlier above
    | smallLot capped admits hle => exact ⟨n, n.lt_succ_self, capped, admits⟩
    | order grows hle => exact absurd above (not_lt.mpr (hle.trans (le_max_right _ _)))

theorem holdings_monotone : Monotone (holdings start full fractional lot caps) :=
  monotone_nat_of_le_succ fun n => (holdings_step nonneg lotPos fits n).le lotPos

theorem holdings_le_max (fractionalLe : 0 ≤ fractional → fractional ≤ full) (n : ℕ) :
    holdings start full fractional lot caps n ≤ max start full := by
  induction n with
  | zero => exact le_max_left _ _
  | succ n ih =>
    have held := (holdings_exact full nonneg lotPos fits n).1
    generalize next : holdings start full fractional lot caps (n + 1) = tgt
    cases next ▸ holdings_step nonneg lotPos fits n with
    | idle => exact ih
    | smallLot capped admits hle => exact hle.trans (le_max_right _ _)
    | order grows hle => exact (hle.trans (fractionalLe (by linarith))).trans (le_max_right _ _)
end

/-- Whatever the caps, the holdings never fall and never pass the full target; a holding above the
fractional target comes from the one small-capital lot of the run, after which nothing is bought. -/
theorem fresh_buys_stay_within_kelly (e : ℤ) (start full kappa lot : ℚ) (caps : ℕ → ℚ)
    (nonneg : 0 ≤ start) (kappaPos : 0 < kappa) (kappaLe : kappa ≤ 1) (lotPos : 0 < lot)
    (fits : FitsDigits e start (kappa * full) lot caps) :
    Monotone (holdings start full (kappa * full) lot caps) ∧
    (∀ n, holdings start full (kappa * full) lot caps n ≤ max start full) ∧
    ∀ n, max start (kappa * full) < holdings start full (kappa * full) lot caps n →
      ∃ m < n, BuysSmallLot start full (kappa * full) lot caps m ∧
        (holdings start full (kappa * full) lot caps m < kappa * full ∧ kappa * full < lot) ∧
        (∀ i, BuysSmallLot start full (kappa * full) lot caps i → i = m) ∧
        ∀ i, m < i →
          holdings start full (kappa * full) lot caps (i + 1) =
            holdings start full (kappa * full) lot caps i := by
  have fractionalLe (h : 0 ≤ kappa * full) : kappa * full ≤ full :=
    mul_le_of_le_one_left (nonneg_of_mul_nonneg_right h kappaPos) kappaLe
  refine ⟨holdings_monotone nonneg lotPos fits, holdings_le_max nonneg lotPos fits fractionalLe,
    fun n above => ?_⟩
  obtain ⟨m, before, buys⟩ := exists_buysSmallLot nonneg lotPos fits above
  refine ⟨m, before, buys, buys.2.2.2.1, fun i other => ?_, fun i later => ?_⟩
  · exact le_antisymm (not_lt.mp (buysSmallLot_unique nonneg lotPos fits buys other))
      (not_lt.mp (buysSmallLot_unique nonneg lotPos fits other buys))
  · have hr := reached_of_buysSmallLot nonneg lotPos fits buys
    rw [holdings_of_reached nonneg lotPos fits hr later,
      holdings_of_reached nonneg lotPos fits hr (later.trans i.lt_succ_self)]

/-- A tenth of a full target of 60 shares, with a minimum lot of 10: the first order is the
small-capital lot. -/
theorem ten_shares_within_kelly :
    max (0 : ℚ) (1 / 10 * 60) < holdings 0 60 (1 / 10 * 60) 10 (fun _ => 25) 3 ∧
    ∀ n, holdings 0 60 (1 / 10 * 60) 10 (fun _ => 25) n ≤ max 0 60 := by
  refine ⟨by decide +kernel,
    (fresh_buys_stay_within_kelly 0 0 60 (1 / 10) 10 (fun _ => 25) le_rfl (by norm_num)
    (by norm_num) (by norm_num) ?_).2.1⟩
  exact
    { start_grid := ⟨0, by norm_num⟩, start_lt := by norm_num [prec]
      fractional_grid := ⟨6, by norm_num⟩, fractional_lt := by norm_num [prec]
      lot_grid := ⟨10, by norm_num⟩, lot_lt := by norm_num [prec]
      caps_grid := fun _ => ⟨25, by norm_num⟩ }

/-- With 29 digits between holding and target, the rounded order passes the full target by one unit
in the last place. -/
theorem rounded_order_overshoots :
    ¬ holdings (15 / 10 ^ 28) (1 + 3 / 10 ^ 27) (1 * (1 + 3 / 10 ^ 27)) (1 / 100) (fun _ => 10) 1 ≤
      max (15 / 10 ^ 28) (1 + 3 / 10 ^ 27) := by
  decide +kernel

end Zeus.FreshBuy
