import Zeus.State.CollateralSteps

/-! Until the next snapshot the balance that a reservation is compared with still contains the sold
tokens. -/

namespace Zeus.Collateral

/-- Whether a step books a fill of a CTF_SELL of the token at or after `since`: a conversion of an
open row, or a restore that goes through. -/
def booksSale (db : Db) (tokenId : String) (since : Time) : Op → Bool
  | .convert commandId _ now =>
    decide (since ≤ now) && (db.reservations.find commandId).any fun row =>
      row.kind == .ctfSell tokenId && row.releasedAt == none && decide (0 < convertedNow db row)
  | .restore commandId filledSize isPartial now =>
    decide (since ≤ now) && (db.reservations.find commandId).any (·.kind == .ctfSell tokenId) &&
      (restoreReservationForLateFill db commandId filledSize isPartial now).1.isOk
  | _ => false

/-- Token units that a step converts, at the time the conversion is written. A restore books the
command's whole fill anew, of which the units its row had converted before are not new. -/
def unitsConverted (db : Db) (tokenId : String) (since : Time) (op : Op) : ℕ :=
  if booksSale db tokenId since op then
    match op with
    | .convert commandId _ _ => ((db.reservations.find commandId).map (convertedNow db)).getD 0
    | .restore commandId _ _ _ =>
      match db.venueCommands.find commandId, db.reservations.find commandId with
      | some command, some row =>
        convertedNow db (row.reopen (tokenRequiredUnits command.size)) - row.convertedAmount
      | _, _ => 0
    | _ => 0
  else 0

/-- Token units converted by the fills of a run from `since` on. -/
def soldSince (tokenId : String) (since : Time) : Db → List Op → ℕ
  | _, [] => 0
  | db, op :: rest => unitsConverted db tokenId since op + soldSince tokenId since (next db op) rest

/-- Token units sold since the latest snapshot was captured, after the run `ops`. -/
def soldUnits (ops : List Op) (tokenId : String) : ℕ :=
  match (run Db.empty ops).latest with
  | none => 0
  | some latest => soldSince tokenId latest.capturedAt Db.empty ops

/-- No token is promised twice: what is reserved and what was sold since the latest
snapshot fit in that snapshot's balance. -/
def PromisedOnce (ops : List Op) (tokenId : String) : Prop :=
  (reservedTokens (run Db.empty ops) tokenId : ℤ) + soldUnits ops tokenId ≤
    latestTokenBalance (run Db.empty ops) tokenId

/-- No step of the run from `db` books a sale of the token at or after `since`. -/
def NoSaleSince (tokenId : String) (since : Time) : Db → List Op → Prop
  | _, [] => True
  | db, op :: rest =>
    booksSale db tokenId since op = false ∧ NoSaleSince tokenId since (next db op) rest

instance decidableNoSaleSince (tokenId : String) (since : Time) :
    ∀ db ops, Decidable (NoSaleSince tokenId since db ops)
  | _, [] => .isTrue trivial
  | db, op :: rest =>
    have := decidableNoSaleSince tokenId since (next db op) rest
    inferInstanceAs (Decidable (_ ∧ _))

theorem soldSince_append (tid : String) (since : Time) (db : Db) (ops later : List Op) :
    soldSince tid since db (ops ++ later) =
      soldSince tid since db ops + soldSince tid since (run db ops) later := by
  induction ops generalizing db with
  | nil => simp [soldSince, run]
  | cons op rest ih =>
    simp only [List.cons_append, soldSince, ih, run, List.foldl_cons]
    omega

theorem insertReservation_latest {db after : Db} {cid : String} {kind : ReservationKind}
    {amt : ℤ} {now : Time} (hw : insertReservation db cid kind amt now = some after) :
    after.latest = db.latest := by
  obtain ⟨-, table, -, rfl⟩ := insertReservation_eq_some hw
  rfl

theorem soldUnits_reserve {ops : List Op} {cid tid : String} {size : ℚ} {now : Time}
    (lat : (run Db.empty (ops ++ [.reserveTokens cid tid size now])).latest =
      (run Db.empty ops).latest) :
    soldUnits (ops ++ [.reserveTokens cid tid size now]) tid = soldUnits ops tid := by
  unfold soldUnits
  rw [lat]
  cases (run Db.empty ops).latest with
  | none => rfl
  | some snap => simp [soldSince_append, soldSince, unitsConverted, booksSale]

theorem soldSince_eq_zero {tid : String} {since : Time} {db : Db} {ops : List Op}
    (h : NoSaleSince tid since db ops) : soldSince tid since db ops = 0 := by
  induction ops generalizing db with
  | nil => rfl
  | cons op rest ih => simp [soldSince, unitsConverted, h.1, ih h.2]

/-- A token reservation, after any run: one that raises changes nothing; one that succeeds keeps the
promise if no sale of the token was booked since the latest snapshot was captured. -/
theorem reserve_promisedOnce_of_noSale (ops : List Op) (cid tid : String) (size : ℚ)
    (now : Time) :
    (∀ error,
      (step (run Db.empty ops) (.reserveTokens cid tid size now)).1 = .error error →
      run Db.empty (ops ++ [.reserveTokens cid tid size now]) = run Db.empty ops) ∧
    ((step (run Db.empty ops) (.reserveTokens cid tid size now)).1 = .ok () →
      (∀ lat ∈ (run Db.empty ops).latest,
        NoSaleSince tid lat.capturedAt Db.empty ops) →
      PromisedOnce (ops ++ [.reserveTokens cid tid size now]) tid) := by
  have last := run_concat Db.empty ops (.reserveTokens cid tid size now)
  have stepped : step (run Db.empty ops) (.reserveTokens cid tid size now) =
      reserveTokensForSellInTransaction (run Db.empty ops) cid tid size now := rfl
  rcases reserveTokens_cases (run Db.empty ops) cid tid size now with
    ⟨raised, failed⟩ | ⟨after, hw, fits, done⟩
  · refine ⟨fun _ _ => last.trans (congrArg Prod.snd failed), fun ok => ?_⟩
    rw [stepped, failed] at ok
    cases ok
  · refine ⟨fun error failed => ?_, fun _ unsold => ?_⟩
    · rw [stepped, done] at failed
      cases failed
    · have hr : run Db.empty (ops ++ [.reserveTokens cid tid size now]) = after :=
        last.trans (congrArg Prod.snd done)
      have lat := insertReservation_latest hw
      have hno : soldUnits ops tid = 0 := by
        unfold soldUnits
        cases newest : (run Db.empty ops).latest with
        | none => rfl
        | some snap => exact soldSince_eq_zero (unsold snap newest)
      unfold PromisedOnce
      rw [soldUnits_reserve (hr ▸ lat), hno, hr]
      simpa using fits

/-- Ten shares held; a SELL of ten reserves them and fills completely before the next
snapshot. -/
def soldOut : List Op :=
  [.snapshot ⟨0, 0, [("token", 10000000)], [("token", 10000000)], 0, .chain⟩,
   .insertCommand ⟨"first", .exit, .sell, 10, 1 / 2, "token"⟩,
   .reserveTokens "first" "token" 10 1000000,
   .appendOrderFact ⟨⟨.matched, some 0, some 10⟩, "first"⟩,
   .convert "first" .filled 2000000]

/-- The same ten shares are then reserved a second time. -/
theorem soldOut_promised_twice :
    (step (run Db.empty soldOut) (.reserveTokens "second" "token" 10 3000000)).1 = .ok () ∧
      ¬ PromisedOnce (soldOut ++ [.reserveTokens "second" "token" 10 3000000]) "token" := by
  unfold PromisedOnce
  decide +kernel

/-- The next snapshot no longer counts the sold shares; four others have arrived. -/
def soldOutRefreshed : List Op :=
  soldOut ++ [.snapshot ⟨0, 0, [("token", 4000000)], [("token", 4000000)], 2500000, .chain⟩]

theorem soldOutRefreshed_promisedOnce :
    (step (run Db.empty soldOutRefreshed) (.reserveTokens "second" "token" 4 3000000)).1 = .ok () ∧
      PromisedOnce (soldOutRefreshed ++ [.reserveTokens "second" "token" 4 3000000]) "token" := by
  have ok : (step (run Db.empty soldOutRefreshed)
      (.reserveTokens "second" "token" 4 3000000)).1 = .ok () := by
    decide +kernel
  refine ⟨ok, ?_⟩
  exact (reserve_promisedOnce_of_noSale soldOutRefreshed "second" "token" 4 3000000).2 ok
    (by decide +kernel)

end Zeus.Collateral
