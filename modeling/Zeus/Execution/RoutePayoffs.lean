import Zeus.Execution.NegRiskRoutes
import Zeus.Lib.BestPick

/-! One bin settles. A basket of YES over distinct bins pays its shares when one of its bins does,
so the basket of all bins pays in every outcome and the basket of all but one is the NO of that
one. -/

namespace Zeus.NegRisk

open CheckedFold Refusal Zeus.Probability

def RouteLeg.claim (leg : RouteLeg) : Instrument where
  instrumentId := leg.tokenId
  binId := leg.binId
  side := match leg.direction with
    | .buyYes | .sellYes => .yes
    | .buyNo | .sellNo => .no
  directTokenId := some leg.tokenId

def RouteLeg.payoff (omega : OutcomeSpace ℚ) (settled : ℕ) (leg : RouteLeg) : ℚ :=
  (if leg.direction.isBuy then leg.shares else -leg.shares) * leg.claim.payoff omega settled

def RouteCost.payoff (route : RouteCost) (omega : OutcomeSpace ℚ) (settled : ℕ) : ℚ :=
  (route.legs.map (RouteLeg.payoff omega settled)).sum

def RouteCost.legsCost (route : RouteCost) : ℚ :=
  (route.legs.map fun leg => leg.shares * leg.legCost).sum

section
variable {omega : OutcomeSpace ℚ} {settled index : ℕ} {binId : String} {instrument : Instrument}

theorem exists_binIndex (known : binId ∈ omega.bins.map OutcomeBin.binId) :
    ∃ index, binIndex omega binId = some index := by
  obtain ⟨bin, mem, own⟩ := List.mem_map.mp known
  refine Option.isSome_iff_exists.mp ?_
  rw [binIndex, List.findIdx?_isSome, List.any_eq_true]
  exact ⟨bin, mem, decide_eq_true own⟩

theorem payoff_of_binIndex (hf : binIndex omega instrument.binId = some index)
    (hin : settled < omega.bins.length) :
    instrument.payoff omega settled =
      if instrument.side = .yes then (if index = settled then 1 else 0)
      else (if index = settled then 0 else 1) := by
  unfold Instrument.payoff Instrument.payoffVector
  rw [hf]
  cases instrument.side with
  | yes =>
    by_cases own : index = settled
    · simp [own, hin]
    · simp [own, hin]
  | no =>
    by_cases own : index = settled
    · simp [own, hin]
    · simp [own, hin]

theorem binIndex_eq_iff (nd : (omega.bins.map OutcomeBin.binId).Nodup)
    (hin : settled < omega.bins.length) (hf : binIndex omega binId = some index) :
    index = settled ↔ omega.bins[settled].binId = binId := by
  obtain ⟨hle, own, -⟩ := List.findIdx?_eq_some_iff_getElem.mp hf
  have isOwn : omega.bins[index].binId = binId := of_decide_eq_true own
  constructor
  · rintro rfl
    exact isOwn
  · intro same
    rw [← List.length_map OutcomeBin.binId] at hle hin
    have equal : (omega.bins.map OutcomeBin.binId)[index] =
        (omega.bins.map OutcomeBin.binId)[settled] := by
      simpa using isOwn.trans same.symm
    exact nd.getElem_inj_iff.mp equal

theorem payoff_of_distinct (nd : (omega.bins.map OutcomeBin.binId).Nodup)
    (hin : settled < omega.bins.length)
    (known : instrument.binId ∈ omega.bins.map OutcomeBin.binId) :
    instrument.payoff omega settled =
      if instrument.side = .yes then (if instrument.binId = omega.bins[settled].binId then 1 else 0)
      else (if instrument.binId = omega.bins[settled].binId then 0 else 1) := by
  obtain ⟨index, hf⟩ := exists_binIndex known
  rw [payoff_of_binIndex hf hin]
  simp only [binIndex_eq_iff nd hin hf, eq_comm]
end

section
variable {book : FamilyBook} {shares : ℚ} {ids : List String} {legs : List RouteLeg}

structure IsYesBasket (shares : ℚ) (ids : List String) (legs : List RouteLeg) : Prop where
  bins : legs.map RouteLeg.binId = ids
  buys : ∀ leg ∈ legs, leg.direction = .buyYes
  equal : ∀ leg ∈ legs, leg.shares = shares

theorem IsYesBasket.legsCost (basket : IsYesBasket shares ids legs) :
    (legs.map fun leg => leg.shares * leg.legCost).sum =
      shares * (legs.map RouteLeg.legCost).sum := by
  rw [← List.sum_map_mul_left]
  exact congrArg List.sum (List.map_congr_left fun leg mem => by rw [basket.equal leg mem])

theorem IsYesBasket.payoff (basket : IsYesBasket shares ids legs)
    (nd : (book.omega.bins.map OutcomeBin.binId).Nodup) {settled : ℕ}
    (hin : settled < book.omega.bins.length) (once : ids.Nodup)
    (known : ∀ binId ∈ ids, binId ∈ book.omega.bins.map OutcomeBin.binId) :
    (legs.map (RouteLeg.payoff book.omega settled)).sum =
      if book.omega.bins[settled].binId ∈ ids then shares else 0 := by
  have mapped : legs.map (RouteLeg.payoff book.omega settled) =
      ids.map fun binId => if binId = book.omega.bins[settled].binId then shares else 0 := by
    rw [← basket.bins, List.map_map]
    refine List.map_congr_left fun leg mem => ?_
    have own : leg.claim.binId ∈ book.omega.bins.map OutcomeBin.binId :=
      known leg.binId (basket.bins ▸ List.mem_map_of_mem mem)
    rw [RouteLeg.payoff, payoff_of_distinct nd hin own]
    simp [RouteLeg.claim, basket.buys leg mem, basket.equal leg mem, Direction.isBuy]
  rw [mapped, List.sum_map_ite_eq ids (fun _ => shares) (fun _ => 0)]
  by_cases settles : book.omega.bins[settled].binId ∈ ids
  · simp [settles, List.count_eq_one_of_mem once settles]
  · simp [settles, List.count_eq_zero_of_not_mem settles]

theorem walkBasket_filled {start basket : FamilyBook.Basket}
    (wkd : book.walkBasket shares ids start = .ok (.filled basket)) :
    ∃ legs, basket.legs = start.legs ++ legs ∧
      IsYesBasket shares ids legs ∧
      basket.total = start.total + (legs.map RouteLeg.legCost).sum := by
  induction ids generalizing start with
  | nil =>
    cases wkd
    exact ⟨[], by simp, ⟨rfl, by simp, by simp⟩, by simp⟩
  | cons binId rest ih =>
    simp only [FamilyBook.walkBasket, bind_eq_ok] at wkd
    obtain ⟨market, -, cost, -, wkd⟩ := wkd
    cases cost with
    | none => cases wkd
    | some cost =>
      obtain ⟨legs, app, yes, total⟩ := ih wkd
      refine ⟨⟨market.conditionId, binId, market.yesTokenId, .buyYes, shares, cost⟩ :: legs, ?_,
        ⟨?_, ?_, ?_⟩, ?_⟩
      · rw [app, List.append_assoc]
        rfl
      · simp [yes.bins]
      · simpa using yes.buys
      · simpa using yes.equal
      · rw [total, List.map_cons, List.sum_cons, add_assoc]

theorem fullYesBasketArb_ok {route : RouteCost}
    (built : book.fullYesBasketArbRoute shares = .ok (some route)) (exe : route.executable = true) :
    IsYesBasket shares book.binIds route.legs ∧ (route.legs.map RouteLeg.legCost).sum < 1 := by
  unfold FamilyBook.fullYesBasketArbRoute at built
  split at built
  · cases built
  · dsimp only at built
    split_ifs at built with incomplete
    · cases built
      cases exe
    · obtain ⟨walk, wkd, built⟩ := bind_eq_ok.mp built
      cases walk with
      | starved leg depths =>
        cases built
        cases exe
      | filled basket =>
        cases built
        obtain ⟨legs, app, yes, total⟩ := walkBasket_filled wkd
        have cheap : basket.total < 1 := of_decide_eq_true exe
        simp only [FamilyBook.Basket.empty, List.nil_append, zero_add] at app total
        simp only [app]
        exact ⟨yes, total ▸ cheap⟩

theorem syntheticNotI_ok {binId : String} {route : RouteCost}
    (built : book.syntheticNotIRoute binId shares = .ok (some route))
    (exe : route.executable = true) :
    IsYesBasket shares (book.binIds.filter (· ≠ binId)) route.legs ∧
    route.avgCost = (route.legs.map RouteLeg.legCost).sum := by
  simp only [FamilyBook.syntheticNotIRoute, bind_eq_ok] at built
  obtain ⟨tgt, -, built⟩ := built
  split_ifs at built with standard
  · cases built
  · cases built
    cases exe
  · obtain ⟨walk, wkd, built⟩ := bind_eq_ok.mp built
    cases walk with
    | starved leg depths =>
      cases built
      cases exe
    | filled basket =>
      obtain ⟨legs, app, yes, total⟩ := walkBasket_filled wkd
      simp only [FamilyBook.Basket.empty, List.nil_append, zero_add] at app total
      dsimp only at built
      split_ifs at built
      · cases built
        cases exe
      · cases built
        simp only [app]
        exact ⟨yes, total⟩

theorem pairArb_ok {binId : String} {route : RouteCost}
    (built : book.pairArbRoute binId shares = .ok route) (exe : route.executable = true) :
    ∃ yes no : RouteLeg, route.legs = [yes, no] ∧
      yes.legCost + no.legCost < 1 ∧
      (yes.binId = binId ∧ yes.direction = .buyYes ∧ yes.shares = shares) ∧
      no.binId = binId ∧
      no.direction = .buyNo ∧
      no.shares = shares := by
  simp only [FamilyBook.pairArbRoute, bind_eq_ok] at built
  obtain ⟨market, -, yesCost, -, noCost, -, built⟩ := built
  cases yesCost <;> cases noCost <;> cases built
  · cases exe
  · cases exe
  · cases exe
  · exact ⟨_, _, rfl, of_decide_eq_true exe, ⟨rfl, rfl, rfl⟩, rfl, rfl, rfl⟩
end

section
variable {book : FamilyBook} {shares : ℚ} {enabled : Bool} {routes : NegRiskRouteSet}

/-- The executable NO routes that `best_no_route` chooses from. -/
def NegRiskRouteSet.NoRoute (routes : NegRiskRouteSet) (binId : String) (route : RouteCost) :
    Prop :=
  (routes.directNo.lookup binId = some route ∨ routes.syntheticNotI.lookup binId = some route) ∧
    route.executable = true

structure BuiltFrom (book : FamilyBook) (shares : ℚ) (routes : NegRiskRouteSet) : Prop where
  full : ∀ route ∈ routes.fullBasketArbs, book.fullYesBasketArbRoute shares = .ok (some route)
  pair : ∀ route ∈ routes.pairArbs, ∃ binId ∈ book.binIds,
    book.pairArbRoute binId shares = .ok route
  synthetic : ∀ entry ∈ routes.syntheticNotI,
    entry.1 ∈ book.binIds ∧ book.syntheticNotIRoute entry.1 shares = .ok (some entry.2)
  direct : ∀ market ∈ book.markets.rows, ∃ route, (market.binId, route) ∈ routes.directNo

variable {binId : String}

theorem binRoutes_ok {row : BinRoutes} (made : book.binRoutes shares enabled binId = .ok row) :
    row.binId = binId ∧
    (∀ route ∈ row.syntheticNotI, book.syntheticNotIRoute binId shares = .ok (some route)) ∧
    ∀ route ∈ row.pairArb, book.pairArbRoute binId shares = .ok route := by
  simp only [FamilyBook.binRoutes, bind_eq_ok] at made
  obtain ⟨yes, -, no, -, made⟩ := made
  cases enabled with
  | false =>
    cases made
    exact ⟨rfl, by simp, by simp⟩
  | true =>
    simp only [if_true, bind_eq_ok] at made
    obtain ⟨synthetic, isSyn, pair, isPair, made⟩ := made
    cases made
    refine ⟨rfl, fun route same => ?_, fun route same => ?_⟩
    · cases same
      exact isSyn
    · cases same
      exact isPair

theorem buildNegriskRouteSet_ok (built : buildNegriskRouteSet book shares enabled = .ok routes) :
    0 < shares ∧ BuiltFrom book shares routes := by
  simp only [buildNegriskRouteSet, bind_eq_ok, guardBy_eq_ok, require_eq_none] at built
  obtain ⟨-, pos, rows, mapped, built⟩ := built
  obtain ⟨calls, origins⟩ := mem_of_forall₂ (mapM_eq_ok.mp mapped)
  have origin : ∀ row ∈ rows, ∃ binId ∈ book.binIds,
        book.binRoutes shares enabled binId = .ok row := by
    intro row mem
    obtain ⟨binId, hp, made⟩ := origins row mem
    exact ⟨binId, List.mem_of_mem_filter hp, made⟩
  obtain ⟨full, isFull, built⟩ : ∃ full : Option RouteCost,
      (∀ route ∈ full, book.fullYesBasketArbRoute shares = .ok (some route)) ∧
      routes = {
        directYes := rows.map fun row => (row.binId, row.directYes)
        directNo := rows.map fun row => (row.binId, row.directNo)
        syntheticNotI :=
          rows.filterMap fun row => row.syntheticNotI.map fun route => (row.binId, route)
        pairArbs := rows.filterMap BinRoutes.pairArb
        fullBasketArbs := full.toList } := by
    cases enabled with
    | false =>
      cases built
      exact ⟨none, by simp, rfl⟩
    | true =>
      simp only [if_true, bind_eq_ok] at built
      obtain ⟨full, isFull, built⟩ := built
      cases built
      refine ⟨full, fun route same => ?_, rfl⟩
      rw [isFull, Option.mem_def.mp same]
  subst built
  refine ⟨pos, ⟨fun route mem => isFull route (Option.mem_toList.mp mem), ?_, ?_, ?_⟩⟩
  · intro route mem
    obtain ⟨row, hp, own⟩ := List.mem_filterMap.mp mem
    obtain ⟨binId, known, made⟩ := origin row hp
    exact ⟨binId, known, (binRoutes_ok made).2.2 route own⟩
  · rintro ⟨binId, route⟩ mem
    obtain ⟨row, hp, own⟩ := List.mem_filterMap.mp mem
    obtain ⟨synthetic, isSyn, same⟩ := Option.map_eq_some_iff.mp own
    cases same
    obtain ⟨binId, known, made⟩ := origin row hp
    obtain ⟨rfl, routed, -⟩ := binRoutes_ok made
    exact ⟨known, routed route isSyn⟩
  · intro market mem
    have listed :
        market.binId ∈ book.binIds.filter fun binId => (book.markets.find binId).isSome := by
      refine List.mem_filter.mpr ⟨book.siblings market mem, ?_⟩
      rw [KeyedTable.find_of_mem mem]
      rfl
    obtain ⟨row, hp, made⟩ := calls market.binId listed
    obtain ⟨own, -, -⟩ := binRoutes_ok made
    exact ⟨row.directNo, List.mem_map.mpr ⟨row, hp, by rw [own]⟩⟩

theorem foldl_cheaper (rest : List RouteCost) (first : RouteCost) :
    let best :=
      rest.foldl (fun best route => if route.avgCost < best.avgCost then route else best) first
    best ∈ first :: rest ∧ ∀ other ∈ first :: rest, best.avgCost ≤ other.avgCost := by
  obtain ⟨ends, least⟩ :=
    BestPick.foldl_keepBetter (fun route : RouteCost => OrderDual.toDual route.avgCost) rest first
  refine ⟨?_, least⟩
  rcases ends with stays | ⟨mem, -⟩
  · exact List.mem_cons.mpr (.inl stays)
  · exact List.mem_cons_of_mem first mem

/-- `best_no_route` answers for every bin with a direct route, with the least of the executable
ones. -/
theorem bestNoRoute_least {direct : RouteCost}
    (listed : routes.directNo.lookup binId = some direct) :
    ∃ best, routes.bestNoRoute binId = .ok best ∧
      ∀ other, routes.NoRoute binId other →
        routes.NoRoute binId best ∧ best.avgCost ≤ other.avgCost := by
  have among : ∀ route, routes.NoRoute binId route ↔
      route ∈ [some direct, routes.syntheticNotI.lookup binId].reduceOption.filter
          RouteCost.executable := by
    intro route
    simp only [NegRiskRouteSet.NoRoute, listed, List.mem_filter, List.reduceOption_mem_iff,
      List.mem_cons, List.not_mem_nil, or_false, @eq_comm _ (some route)]
  simp only [NegRiskRouteSet.bestNoRoute, listed, Option.elim_some, ok_bind, among]
  cases [some direct, routes.syntheticNotI.lookup binId].reduceOption.filter
    RouteCost.executable with
  | nil => exact ⟨direct, rfl, by simp⟩
  | cons first rest =>
    obtain ⟨hp, least⟩ := foldl_cheaper rest first
    exact ⟨_, rfl, fun other mem => ⟨hp, least other mem⟩⟩

theorem IsMece.exists_settled {omega : OutcomeSpace ℚ} (mece : IsMece omega) (degrees : ℤ) :
    ∃ settled, settled < omega.bins.length ∧
      SettlesAt omega degrees settled ∧
      ∀ other, SettlesAt omega degrees other → other = settled := by
  obtain ⟨bins, built, partitions⟩ := mece
  obtain ⟨posn, contains, only⟩ := partitions degrees
  have lengths : omega.bins.length = bins.length := (mapM_eq_ok.mp built).length_eq
  refine ⟨posn, posn.isLt.trans_eq lengths.symm,
    ⟨bins, built, _, List.getElem?_eq_getElem posn.isLt, contains⟩, ?_⟩
  rintro other ⟨others, alsoBuilt, bin, placed, holds⟩
  cases built.symm.trans alsoBuilt
  obtain ⟨hin, own⟩ := List.getElem?_eq_some_iff.mp placed
  subst own
  exact congrArg Fin.val (only ⟨other, hin⟩ holds)

variable {settled : ℕ} {route : RouteCost}

theorem fullYesBasketArb_pays (nd : book.binIds.Nodup) (hin : settled < book.omega.bins.length)
    (built : book.fullYesBasketArbRoute shares = .ok (some route)) (exe : route.executable = true) :
    route.payoff book.omega settled = shares := by
  obtain ⟨basket, -⟩ := fullYesBasketArb_ok built exe
  have own : book.omega.bins[settled].binId ∈ book.binIds :=
    List.mem_map_of_mem (List.getElem_mem hin)
  rw [RouteCost.payoff, basket.payoff nd hin nd fun binId mem => mem, if_pos own]

theorem pairArb_pays (known : binId ∈ book.binIds) (hin : settled < book.omega.bins.length)
    (built : book.pairArbRoute binId shares = .ok route) (exe : route.executable = true) :
    route.payoff book.omega settled = shares := by
  obtain ⟨yes, no, legs, -, ⟨yesBin, buyYes, yesShares⟩, noBin, buyNo, noShares⟩ :=
    pairArb_ok built exe
  obtain ⟨index, hf⟩ := exists_binIndex known
  have yesFound : binIndex book.omega yes.claim.binId = some index := by
    rw [← hf, ← yesBin, RouteLeg.claim]
  have noFound : binIndex book.omega no.claim.binId = some index := by
    rw [← hf, ← noBin, RouteLeg.claim]
  simp only [RouteCost.payoff, legs, List.map_cons, List.map_nil, List.sum_cons, List.sum_nil,
    add_zero, RouteLeg.payoff, payoff_of_binIndex yesFound hin, payoff_of_binIndex noFound hin]
  by_cases settles : index = settled
  · simp [settles, RouteLeg.claim, buyYes, buyNo, yesShares, noShares, Direction.isBuy]
  · simp [settles, RouteLeg.claim, buyYes, buyNo, yesShares, noShares, Direction.isBuy]

theorem syntheticNotI_pays (nd : book.binIds.Nodup) (known : binId ∈ book.binIds)
    (hin : settled < book.omega.bins.length)
    (built : book.syntheticNotIRoute binId shares = .ok (some route))
    (exe : route.executable = true) {claim : Instrument} (isNo : claim.side = .no)
    (own : claim.binId = binId) :
    route.payoff book.omega settled = shares * claim.payoff book.omega settled := by
  obtain ⟨basket, -⟩ := syntheticNotI_ok built exe
  have pays := basket.payoff nd hin (nd.filter _) fun id mem => List.mem_of_mem_filter mem
  have settles : book.omega.bins[settled].binId ∈ book.binIds :=
    List.mem_map_of_mem (List.getElem_mem hin)
  rw [RouteCost.payoff, pays, payoff_of_distinct nd hin (own ▸ known), isNo, own]
  by_cases same : book.omega.bins[settled].binId = binId
  · simp [same]
  · simp [same, settles, Ne.symm same]

theorem pairArb_cost (pos : 0 < shares) (built : book.pairArbRoute binId shares = .ok route)
    (exe : route.executable = true) : route.legsCost < shares := by
  obtain ⟨yes, no, legs, cheap, ⟨-, -, yesShares⟩, -, -, noShares⟩ := pairArb_ok built exe
  simp only [RouteCost.legsCost, legs, List.map_cons, List.map_nil, List.sum_cons, List.sum_nil,
    add_zero, yesShares, noShares, ← mul_add]
  exact mul_lt_of_lt_one_right pos cheap

theorem fullYesBasketArb_cost (pos : 0 < shares)
    (built : book.fullYesBasketArbRoute shares = .ok (some route)) (exe : route.executable = true) :
    route.legsCost < shares := by
  obtain ⟨basket, cheap⟩ := fullYesBasketArb_ok built exe
  rw [RouteCost.legsCost, basket.legsCost]
  exact mul_lt_of_lt_one_right pos cheap

/-- Over bins with distinct ids that partition the degrees, an executable arbitrage pays its shares
whatever settles and costs less; an executable synthetic NO pays as the NO does; and the best NO
route is a cheapest of those that execute. -/
theorem routes_pay_in_every_outcome (nd : book.binIds.Nodup) (mece : IsMece book.omega)
    (built : buildNegriskRouteSet book shares enabled = .ok routes) :
    (∀ degrees : ℤ, ∃ settled, settled < book.omega.bins.length ∧
        SettlesAt book.omega degrees settled ∧
        (∀ other, SettlesAt book.omega degrees other → other = settled) ∧
        (∀ route ∈ routes.fullBasketArbs ++ routes.pairArbs, route.executable = true →
            route.payoff book.omega settled = shares) ∧
        ∀ entry ∈ routes.syntheticNotI, entry.2.executable = true →
          ∀ claim : Instrument, claim.side = .no → claim.binId = entry.1 →
            entry.2.payoff book.omega settled = shares * claim.payoff book.omega settled) ∧
    (∀ route ∈ routes.fullBasketArbs ++ routes.pairArbs, route.executable = true →
        route.legsCost < shares) ∧
    (∀ entry ∈ routes.syntheticNotI, entry.2.executable = true →
        shares * entry.2.avgCost = entry.2.legsCost) ∧
    ∀ market ∈ book.markets.rows, ∃ best, routes.bestNoRoute market.binId = .ok best ∧
      ∀ other, routes.NoRoute market.binId other →
        routes.NoRoute market.binId best ∧ best.avgCost ≤ other.avgCost := by
  obtain ⟨pos, full, pair, synthetic, direct⟩ := buildNegriskRouteSet_ok built
  refine ⟨fun degrees => ?_, fun route mem exe => ?_, fun entry mem exe => ?_, fun market mem => ?_⟩
  · obtain ⟨settled, hin, settles, only⟩ := mece.exists_settled degrees
    refine ⟨settled, hin, settles, only, fun route mem exe => ?_, ?_⟩
    · rcases List.mem_append.mp mem with isFull | isPair
      · exact fullYesBasketArb_pays nd hin (full route isFull) exe
      · obtain ⟨binId, known, made⟩ := pair route isPair
        exact pairArb_pays known hin made exe
    · intro entry mem exe claim isNo own
      obtain ⟨known, made⟩ := synthetic entry mem
      exact syntheticNotI_pays nd known hin made exe isNo own
  · rcases List.mem_append.mp mem with isFull | isPair
    · exact fullYesBasketArb_cost pos (full route isFull) exe
    · obtain ⟨binId, -, made⟩ := pair route isPair
      exact pairArb_cost pos made exe
  · obtain ⟨-, made⟩ := synthetic entry mem
    obtain ⟨basket, cost⟩ := syntheticNotI_ok made exe
    rw [RouteCost.legsCost, basket.legsCost, cost]
  · obtain ⟨route, listed⟩ := direct market mem
    obtain ⟨hf, isFound⟩ : ∃ hf, routes.directNo.lookup market.binId = some hf := by
      refine Option.isSome_iff_exists.mp (Option.isSome_iff_ne_none.mpr fun hab => ?_)
      have differs := List.lookup_eq_none_iff.mp hab _ listed
      simp at differs
    exact bestNoRoute_least isFound
end

def degreesTo12 : List (Zeus.Market.Bin ℚ) :=
  [⟨none, some 10, .celsius, by simp⟩, ⟨some 11, some 11, .celsius, by decide +kernel⟩,
    ⟨some 12, none, .celsius, by simp⟩]

def spaceOf (cold mild warm : String) : OutcomeSpace ℚ where
  resolution := ⟨.celsius, .wmoHalfUp⟩
  bins := [⟨cold, [], none, some 10, .wmoHalfUp⟩, ⟨mild, [], some 11, some 11, .wmoHalfUp⟩,
    ⟨warm, [], some 12, none, .wmoHalfUp⟩]

theorem spaceOf_topologyBins (cold mild warm : String) :
    (spaceOf cold mild warm).topologyBins = .ok degreesTo12 := by
  simp [OutcomeSpace.topologyBins, OutcomeBin.topologyBin, spaceOf, degreesTo12]
  rfl

theorem spaceOf_mece (cold mild warm : String) : IsMece (spaceOf cold mild warm) := by
  have acc : Zeus.Market.validateBinTopology degreesTo12 = .ok () := by decide +kernel
  have meets : Zeus.Market.EdgesMeet degreesTo12 := by
    unfold Zeus.Market.EdgesMeet
    decide +kernel
  exact ⟨degreesTo12, spaceOf_topologyBins cold mild warm,
    (Zeus.Market.partitions_iff acc).mpr meets⟩

def marketAt (binId : String) (yesAsk noAsk : ℚ) : MarketBook where
  conditionId := "condition-" ++ binId
  binId
  yesTokenId := "yes-" ++ binId
  noTokenId := "no-" ++ binId
  yesAsks := ⟨[⟨yesAsk, 50⟩], 1 / 20, 1 / 100, 5⟩
  yesBids := ⟨[], 1 / 20, 1 / 100, 5⟩
  noAsks := ⟨[⟨noAsk, 50⟩], 1 / 20, 1 / 100, 5⟩
  noBids := ⟨[], 1 / 20, 1 / 100, 5⟩
  negRisk := true

def threeMarkets : FamilyBook where
  omega := spaceOf "cold" "mild" "warm"
  markets := ⟨[marketAt "cold" (1 / 5) (7 / 10), marketAt "mild" (3 / 10) (4 / 5),
      marketAt "warm" (2 / 5) (13 / 20)],
    by decide⟩
  completeBook := true
  siblings := by decide
  complete_iff := by decide

theorem exists_routes {book : FamilyBook} {shares : ℚ} {check : NegRiskRouteSet → Bool}
    (passes : (buildNegriskRouteSet book shares true).toOption.any check = true) :
    ∃ routes, buildNegriskRouteSet book shares true = .ok routes ∧ check routes = true := by
  cases built : buildNegriskRouteSet book shares true with
  | error error =>
    rw [built] at passes
    cases passes
  | ok routes =>
    rw [built] at passes
    exact ⟨routes, rfl, passes⟩

theorem threeMarkets_pay :
    ∃ routes, buildNegriskRouteSet threeMarkets 10 true = .ok routes ∧
      (routes.fullBasketArbs.any RouteCost.executable ∧
        routes.pairArbs.any RouteCost.executable ∧
        routes.syntheticNotI.any fun entry => entry.2.executable) ∧
      ∀ degrees : ℤ, ∃ settled, SettlesAt threeMarkets.omega degrees settled ∧
        ∀ route ∈ routes.fullBasketArbs ++ routes.pairArbs, route.executable = true →
          route.payoff threeMarkets.omega settled = 10 := by
  have passes : (buildNegriskRouteSet threeMarkets 10 true).toOption.any (fun routes => decide
      (routes.fullBasketArbs.any RouteCost.executable ∧ routes.pairArbs.any RouteCost.executable ∧
        routes.syntheticNotI.any fun entry => entry.2.executable)) = true := by decide +kernel
  obtain ⟨routes, built, exe⟩ := exists_routes passes
  have pays := routes_pay_in_every_outcome (by decide) (spaceOf_mece "cold" "mild" "warm") built
  refine ⟨routes, built, of_decide_eq_true exe, fun degrees => ?_⟩
  obtain ⟨settled, -, settles, -, arbitrage, -⟩ := pays.1 degrees
  exact ⟨settled, settles, arbitrage⟩

/-- The two bins from 11 degrees on share an id. -/
def sharedId : FamilyBook where
  omega := spaceOf "cold" "warm" "warm"
  markets := ⟨[marketAt "cold" (1 / 5) (7 / 10), marketAt "warm" (3 / 10) (4 / 5)], by decide⟩
  completeBook := true
  siblings := by decide
  complete_iff := by decide

def noWarm : Instrument := ⟨"NO:warm", "warm", .no, none⟩

/-- The bins partition the degrees. At 12 degrees the executable basket of all YES pays nothing, nor
does the executable synthetic NO where the NO pays. -/
theorem sharedId_pays_nothing :
    sharedId.omega.validate = .ok () ∧
    IsMece sharedId.omega ∧
    SettlesAt sharedId.omega 12 2 ∧
    ∃ routes, buildNegriskRouteSet sharedId 10 true = .ok routes ∧
      (∃ route ∈ routes.fullBasketArbs, route.executable = true ∧
          route.payoff sharedId.omega 2 = 0) ∧
      ∃ entry ∈ routes.syntheticNotI, entry.1 = noWarm.binId ∧
        entry.2.executable = true ∧
        entry.2.payoff sharedId.omega 2 = 0 ∧
        10 * noWarm.payoff sharedId.omega 2 = 10 := by
  have passes : (buildNegriskRouteSet sharedId 10 true).toOption.any (fun routes => decide
      ((∃ route ∈ routes.fullBasketArbs, route.executable = true ∧
            route.payoff sharedId.omega 2 = 0) ∧
      ∃ entry ∈ routes.syntheticNotI, entry.1 = noWarm.binId ∧
        entry.2.executable = true ∧
        entry.2.payoff sharedId.omega 2 = 0 ∧
        10 * noWarm.payoff sharedId.omega 2 = 10)) = true := by
      decide +kernel
  obtain ⟨routes, built, paid⟩ := exists_routes passes
  refine ⟨by decide +kernel, spaceOf_mece "cold" "warm" "warm", ?_, routes, built,
    of_decide_eq_true paid⟩
  refine ⟨degreesTo12, spaceOf_topologyBins "cold" "warm" "warm", _, rfl, ?_⟩
  unfold Zeus.Market.Bin.contains
  decide +kernel

end Zeus.NegRisk
