import Nortia.Verify.Hybrid.Invariant

/-!
# Payouts and the liability

What the outcome owes the positions together is at most what it owes the market, and misses it
only on INVALID, by half of the number of odd positions (`owed_market`). So what is still owed to
unsettled positions is always covered (`Settling.unsettled_le`).
-/

namespace Nortia.Hybrid

open Lib Tally

/-- The number of positions with an odd number of shares. -/
def oddPositions (positions : Table Pubkey Position) : Nat :=
  total (fun p => (p.yesShares + p.noShares) % 2) positions

/-- What rounding each payout down leaves of the liability. -/
def roundingLoss (outcome : Nat) (positions : Table Pubkey Position) : Nat :=
  if outcome = HybridMarket.outcomeInvalid then oddPositions positions / 2 else 0

theorem settledOwed_add_unsettledOwed (outcome : Nat) (p : Position) :
    settledOwed outcome p + unsettledOwed outcome p = owed p.yesShares p.noShares outcome := by
  unfold settledOwed unsettledOwed
  split <;> omega

/-- The liability is what the positions are owed and what rounding them down leaves. -/
theorem owed_market {rt : Runtime} {s : HybridState} (hI : Inv rt s) {outcome : Nat}
    (ho : Decided outcome) :
    owed s.market.yesQuantity s.market.noQuantity outcome =
      total (fun p => owed p.yesShares p.noShares outcome) s.positions +
        roundingLoss outcome s.positions := by
  rcases ho with rfl | rfl | rfl
  · simp only [owed_yes, roundingLoss, if_neg (show HybridMarket.outcomeYes ≠
      HybridMarket.outcomeInvalid by decide), Nat.add_zero]
    exact hI.yes.symm
  · simp only [owed_no, roundingLoss, if_neg (show HybridMarket.outcomeNo ≠
      HybridMarket.outcomeInvalid by decide), Nat.add_zero]
    exact hI.no.symm
  · simp only [owed_invalid, roundingLoss, if_true, oddPositions]
    rw [← hI.yes, ← hI.no, ← total_add, total_div (by decide)]

variable {rt : Runtime} {s : HybridState}

/-- What is still owed is what the unsettled positions are owed and what rounding leaves. -/
theorem Settling.outstanding (h : Settling s) (hI : Inv rt s) :
    s.market.outstandingLiability =
      total (unsettledOwed s.market.outcome) s.positions +
        roundingLoss s.market.outcome s.positions := by
  have hliability := h.liability
  rw [owed_market hI h.decided, h.redeemed,
    ← total_congr fun _ p _ => settledOwed_add_unsettledOwed s.market.outcome p,
    total_add] at hliability
  omega

theorem Settling.unsettled_le (h : Settling s) (hI : Inv rt s) :
    total (unsettledOwed s.market.outcome) s.positions ≤ s.market.outstandingLiability := by
  rw [h.outstanding hI]
  exact Nat.le_add_right _ _

/-- What an unsettled position is owed is covered by what is still owed. -/
theorem Settling.owed_le (h : Settling s) (hI : Inv rt s) {owner : Pubkey} {p : Position}
    (hp : s.positions.lookup owner = some p) (hsettled : p.settled = false) :
    owed p.yesShares p.noShares s.market.outcome ≤ s.market.outstandingLiability := by
  have hle := le_total hp (unsettledOwed s.market.outcome)
  rw [unsettledOwed, hsettled, if_neg Bool.false_ne_true] at hle
  exact hle.trans (h.unsettled_le hI)

/-- The shares of a position never overflow when they are added. -/
theorem Inv.shares_fit (hI : Inv rt s) {owner : Pubkey} {p : Position}
    (hp : s.positions.lookup owner = some p) : p.yesShares + p.noShares ≤ u64Max := by
  have hyes := le_total hp Position.yesShares
  have hno := le_total hp Position.noShares
  have hbounded := hI.bounded
  rw [hI.yes] at hyes
  rw [hI.no] at hno
  simp only [Lmsr.maxOutcomeQuantity, u64Max] at hbounded ⊢
  omega

theorem Inv.quantities_fit (hI : Inv rt s) :
    s.market.yesQuantity + s.market.noQuantity ≤ u64Max := by
  have hbounded := hI.bounded
  simp only [Lmsr.maxOutcomeQuantity, u64Max] at hbounded ⊢
  omega

/-- What was redeemed and what an unsettled position is owed fit together. -/
theorem Settling.redeemed_fits (h : Settling s) (hI : Inv rt s) :
    s.market.redeemedLiability + s.market.outstandingLiability ≤ u64Max := by
  have hle := owed_le_max s.market.yesQuantity s.market.noQuantity s.market.outcome
  have hfit := hI.quantities_fit
  rw [Nat.add_comm, h.liability]
  omega

end Nortia.Hybrid
