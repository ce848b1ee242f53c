import Nortia.Program.Error
import Nortia.Program.Market

/-!
# `lib.rs`: the functions behind the private instructions

The admitted stakes, the bounds of a batch and the division of the pool at resolution.
-/

namespace Nortia.PrivatePool

open Lib

/-! ## Stakes and batches -/

def privateStakeAmounts : List Nat :=
  [1000000, 5000000, 10000000, 25000000, 50000000, 100000000, 250000000, 500000000, 1000000000]

def validPrivateStakeAmount (amount : Nat) : Bool :=
  amount ∈ privateStakeAmounts && amount ≤ maxPrivateStakeAmount

def hasMinPrivateSet (orderCount : Nat) : Bool := minPrivateBatchOrders ≤ orderCount

def hasTwoPrivateSides (yesCount noCount : Nat) : Bool := 0 < yesCount && 0 < noCount

/-- Whether the amount of one side lies between its least and its largest possible sum. -/
def withinSide (stakeAmount count amount : Nat) : Bool :=
  match checkedMul u64Max minPrivateWagerAmount count, checkedMul u64Max stakeAmount count with
  | some minimum, some maximum => minimum ≤ amount && amount ≤ maximum
  | _, _ => false

def validPrivateBatchAmounts (stakeAmount yesCount noCount yesAmount noAmount : Nat) : Bool :=
  validPrivateStakeAmount stakeAmount && withinSide stakeAmount yesCount yesAmount &&
    withinSide stakeAmount noCount noAmount && (checkedAdd u64Max yesAmount noAmount).isSome

theorem validPrivateStakeAmount_bounds {amount : Nat} (h : validPrivateStakeAmount amount = true) :
    minPrivateWagerAmount ≤ amount ∧ amount ≤ maxPrivateStakeAmount := by
  simp only [validPrivateStakeAmount, Bool.and_eq_true, decide_eq_true_eq] at h
  obtain ⟨hmem, hle⟩ := h
  have hall : ∀ a ∈ privateStakeAmounts, minPrivateWagerAmount ≤ a := by decide
  exact ⟨hall amount hmem, hle⟩

/-- The amounts of a side lie within its bounds, which fit 64 bits. -/
theorem withinSide_iff {stakeAmount count amount : Nat} :
    withinSide stakeAmount count amount = true ↔
      minPrivateWagerAmount * count ≤ u64Max ∧ stakeAmount * count ≤ u64Max ∧
        minPrivateWagerAmount * count ≤ amount ∧ amount ≤ stakeAmount * count := by
  unfold withinSide checkedMul
  by_cases hmin : minPrivateWagerAmount * count ≤ u64Max
  · by_cases hmax : stakeAmount * count ≤ u64Max
    · simp [hmin, hmax]
    · simp [hmin, hmax]
  · simp [hmin]

/-! ## Settlement -/

structure SettlementAmounts where
  grossPool : Nat
  protocolFee : Nat
  keeperReward : Nat
  treasuryFee : Nat
  netPool : Nat

/-- `u64::try_from` on an unsigned amount. -/
def toU64 (value : Nat) : Except Failure Nat :=
  orFail (if value ≤ u64Max then some value else none) .arithmeticOverflow

def calculateSettlement (grossPool winningAmount feeBps keeperRewardBps : Nat) :
    Except Failure SettlementAmounts := do
  check (0 < grossPool) .invalidPrivateAmount
  check (0 < winningAmount ∧ winningAmount ≤ grossPool) .noWinners
  check (0 < feeBps ∧ feeBps ≤ maxProtocolFeeBps) .invalidProtocolFee
  check (keeperRewardBps ≤ maxKeeperRewardBps) .invalidProtocolFee
  let scaledFee ← orFail (checkedMul u128Max grossPool feeBps) .arithmeticOverflow
  let protocolFee := scaledFee / basisPointsDenominator
  let netPool ← orFail (checkedSub grossPool protocolFee) .arithmeticOverflow
  let scaledReward ← orFail (checkedMul u128Max protocolFee keeperRewardBps) .arithmeticOverflow
  let keeperReward := scaledReward / basisPointsDenominator
  let treasuryFee ← orFail (checkedSub protocolFee keeperReward) .arithmeticOverflow
  let grossPool ← toU64 grossPool
  let protocolFee ← toU64 protocolFee
  let keeperReward ← toU64 keeperReward
  let treasuryFee ← toU64 treasuryFee
  let netPool ← toU64 netPool
  .ok { grossPool, protocolFee, keeperReward, treasuryFee, netPool }

theorem toU64_eq_ok {value a : Nat} : toU64 value = .ok a ↔ value ≤ u64Max ∧ value = a := by
  unfold toU64
  by_cases h : value ≤ u64Max <;> simp [h]

/-- **The pool is divided without loss** among the treasury, the keeper and the holders. -/
theorem calculateSettlement_ok {grossPool winningAmount feeBps keeperRewardBps : Nat}
    {settlement : SettlementAmounts}
    (h : calculateSettlement grossPool winningAmount feeBps keeperRewardBps = .ok settlement) :
    0 < winningAmount ∧ settlement.grossPool = grossPool ∧
      settlement.protocolFee = grossPool * feeBps / basisPointsDenominator ∧
      settlement.treasuryFee + settlement.keeperReward + settlement.netPool = grossPool ∧
      settlement.netPool ≤ u64Max := by
  simp only [calculateSettlement, bind_eq_ok, check_eq_ok, orFail_eq_ok, checkedMul_eq_some,
    checkedSub_eq_some, toU64_eq_ok, exists_const, Except.ok.injEq] at h
  obtain ⟨-, ⟨hwin, -⟩, -, -, _, ⟨-, rfl⟩, _, ⟨hfee, rfl⟩, _, ⟨-, rfl⟩, _, ⟨hreward, rfl⟩,
    _, ⟨-, rfl⟩, _, ⟨-, rfl⟩, _, ⟨-, rfl⟩, _, ⟨-, rfl⟩, _, ⟨hnet, rfl⟩, rfl⟩ := h
  refine ⟨hwin, rfl, rfl, ?_, hnet⟩
  dsimp only
  omega

end Nortia.PrivatePool
