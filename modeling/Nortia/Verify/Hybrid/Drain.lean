import Nortia.Verify.Hybrid.Settlement

/-!
# Draining a resolved market

The liability is rounded once, the payouts one by one. Once every position is settled, what
stays owed is exactly the rounding loss, so the market can be emptied and closed if and only if
there is none (`drains_iff`). When there is some, no run ever closes the market.
-/

namespace Nortia.Hybrid

open Lib Tally

/-- Every position was settled. -/
def AllSettled (s : HybridState) : Prop :=
  ∀ owner p, s.positions.lookup owner = some p → p.settled = true

/-- Nothing is owed, and the liquidity owner can take everything that is left. -/
structure Drains (rt : Runtime) (s : HybridState) : Prop where
  nothingOwed : s.market.outstandingLiability = 0
  withdraw : s.market.phase = .resolved → ∀ liquidityToken clock,
    (s.tokens liquidityToken).owner = s.market.liquidityOwner →
    (s.tokens liquidityToken).mint = s.market.collateralMint →
    (s.tokens liquidityToken).amount + s.vault ≤ u64Max →
    ∃ s', execute rt s clock (.withdrawHybridLiquidity s.market.liquidityOwner liquidityToken) =
      .ok s' ∧ s'.vault = 0 ∧ s'.market.phase = .closed

variable {rt : Runtime} {s : HybridState}

/-- When every position is settled, what is still owed is the rounding loss. -/
theorem outstanding_of_allSettled (hI : Inv rt s) (hfinal : Final s.market.phase)
    (hall : AllSettled s) :
    s.market.outstandingLiability = roundingLoss s.market.outcome s.positions := by
  rw [(hI.phase.settling hfinal).outstanding hI, total_eq_zero, Nat.zero_add]
  intro owner p hp
  rw [unsettledOwed, hall owner p hp]
  rfl

theorem roundingLoss_eq_zero_iff {outcome : Nat} {positions : Table Pubkey Position} :
    roundingLoss outcome positions = 0 ↔
      outcome ≠ HybridMarket.outcomeInvalid ∨ oddPositions positions ≤ 1 := by
  unfold roundingLoss
  split
  · next h => exact ⟨fun hz => .inr (by omega), fun ho => by rcases ho with ho | ho <;> omega⟩
  · next h => exact ⟨fun _ => .inl h, fun _ => rfl⟩

/-- A resolved market that owes nothing is emptied and closed by one withdrawal. -/
theorem drains_of_nothingOwed (hI : Inv rt s) (hzero : s.market.outstandingLiability = 0) :
    Drains rt s := by
  refine ⟨hzero, fun hphase liquidityToken clock howner hmint hroom => ?_⟩
  have hpos := (hI.phase.resolved hphase).2 hzero
  have hclose : closeHybridMarketIfDrained s.market (s.vault - s.vault) =
      .ok { s.market with phase := .closed } := by
    simp only [closeHybridMarketIfDrained, bind_eq_ok, check_eq_ok, Nat.sub_self]
    exact ⟨(), ⟨hphase, hzero.le⟩, if_pos ⟨hzero, trivial⟩⟩
  obtain ⟨tokens, htransfer⟩ := transferFromHybridVault_of_le
    { tokens := s.tokens, vault := s.vault } (le_refl s.vault) hroom
  refine ⟨{ s with market := { s.market with phase := .closed }, vault := s.vault - s.vault, tokens },
    ?_, Nat.sub_self _, rfl⟩
  simp only [execute, withdrawHybridLiquidity, bind_eq_ok, check_eq_ok, orFail_eq_ok,
    checkedSub_eq_some, checkTokenAccount_ok]
  exact ⟨(), trivial, (), ⟨howner, hmint⟩, (), hphase, s.vault,
    ⟨by rw [hzero]; exact Nat.zero_le _, by rw [hzero]; rfl⟩, (), hpos, s.vault - s.vault,
    ⟨le_refl _, rfl⟩, _, hclose, _, htransfer, rfl⟩

/-- A final market whose positions are all settled keeps its positions and what it owes. -/
theorem allSettled_step {s' : HybridState} {event : Event} (hfinal : Final s.market.phase)
    (hall : AllSettled s) (h : Step rt s event s') :
    Final s'.market.phase ∧ AllSettled s' ∧
      s'.market.outstandingLiability = s.market.outstandingLiability := by
  have hfinal' := (final_step hfinal h).1
  have hnot : ¬Unresolved s.market.phase := fun hu => not_final_of_unresolved hu hfinal
  cases step_effect h with
  | opened h => exact absurd (.inl h.phase) hnot
  | traded _ h => exact absurd (.inl h.phase) hnot
  | locked h => exact absurd (.inl h.phase) hnot
  | proposed h => exact absurd (h.phase.elim .inl fun hl => .inr (.inl hl)) hnot
  | challenged _ h => exact absurd (.inr (.inr (.inl h.phase))) hnot
  | resolved _ h => exact absurd h.ready.unresolved hnot
  | bondClaimed h => exact ⟨hfinal', by rw [AllSettled, h.positions]; exact hall, by rw [h.market]⟩
  | settled h =>
    have hsettled := hall _ _ h.held
    rw [h.unsettled] at hsettled
    cases hsettled
  | withdrew h => exact ⟨hfinal', by rw [AllSettled, h.positions]; exact hall, by rw [h.market]⟩
  | deposited _ h =>
    exact ⟨hfinal', by rw [AllSettled, h.positions]; exact hall, by rw [h.market]⟩

/-- **When a resolved market drains.** Once every position is settled, nothing is owed and the
vault can be emptied if and only if the outcome is YES or NO or at most one position is odd.
Otherwise tokens stay in the vault and the market stays unclosed in every continuation. -/
theorem drains_iff {args : InitializeHybridMarketArgs} {now : Int} {init : HybridState}
    (hinit : Created rt args now init) (hrun : Reaches (Step rt) init s)
    (hfinal : Final s.market.phase) (hall : AllSettled s) :
    (Drains rt s ↔ s.market.outcome ≠ HybridMarket.outcomeInvalid ∨
      oddPositions s.positions ≤ 1) ∧
    (¬(s.market.outcome ≠ HybridMarket.outcomeInvalid ∨ oddPositions s.positions ≤ 1) →
      ∀ s', Reaches (Step rt) s s' → 0 < s'.vault ∧ s'.market.phase ≠ .closed) := by
  have hI := inv_reaches hinit hrun
  have howed := outstanding_of_allSettled hI hfinal hall
  rw [← roundingLoss_eq_zero_iff, ← howed]
  refine ⟨⟨fun h => h.nothingOwed, drains_of_nothingOwed hI⟩, fun hne s' hreach => ?_⟩
  have hkeeps := hreach.invariant (I := fun t => Inv rt t ∧ Final t.market.phase ∧ AllSettled t ∧
      t.market.outstandingLiability = s.market.outstandingLiability)
    (fun t event u ⟨hIt, hf, ha, ho⟩ hstep =>
      have hstill := allSettled_step hf ha hstep
      ⟨inv_step hIt hstep, hstill.1, hstill.2.1, hstill.2.2.trans ho⟩)
    ⟨hI, hfinal, hall, rfl⟩
  obtain ⟨hI', hfinal', -, howed'⟩ := hkeeps
  have hsolvent := (hI'.phase.settling hfinal').solvent
  refine ⟨by omega, fun hclosed => hne ?_⟩
  rw [← howed']
  exact (hI'.phase.closed hclosed).2

theorem allSettled_of_entries
    (h : (s.positions.entries.all fun e => e.2.settled) = true) : AllSettled s := by
  intro owner p hp
  exact List.all_eq_true.mp h ⟨owner, p⟩ (mem_entries_iff.mpr hp)

/-- One odd holder: after the settlement of Alice nothing is owed on INVALID. -/
theorem drains_iff_sample : ∃ s : HybridState,
    s.market.outcome = HybridMarket.outcomeInvalid ∧ Drains Sample.runtime s := by
  have hvalue : (Sample.created >>= fun init => executeAll Sample.runtime init
      [Sample.openPosition Sample.alice, Sample.buyYes Sample.alice 10000001,
        Sample.timeout 100001, Sample.settle Sample.alice]).toOption.map
      (fun s => (s.market.phase, s.market.outcome, s.positions.entries.all fun e => e.2.settled,
        oddPositions s.positions)) = some (.resolved, 2, true, 1) := by
    decide +kernel
  obtain ⟨init, s, hinit, hs, hfields⟩ := executeAll_of_map hvalue
  simp only [Prod.mk.injEq] at hfields
  obtain ⟨hphase, houtcome, hall, hodd⟩ := hfields
  have hrun := executeAll_run (by
    simp [Sample.openPosition, Sample.buyYes, Sample.timeout, Sample.settle,
      Instruction.signed]) hs
  have hdrains := (drains_iff (Sample.created_of_ok hinit) ⟨_, hrun⟩ (.inl hphase)
    (allSettled_of_entries hall)).1
  exact ⟨s, houtcome, hdrains.mpr (.inr hodd.le)⟩

/-- Two odd holders: one token is still owed after both settled, so the market never closes. -/
theorem two_odd_holders_lock_a_token : ∃ s : HybridState, Reachable Sample.runtime s ∧
    s.market.phase = .resolved ∧ AllSettled s ∧ s.market.outstandingLiability = 1 ∧
      ¬Drains Sample.runtime s := by
  have hvalue : (Sample.created >>= fun init => executeAll Sample.runtime init
      (Sample.twoHolders ++ [Sample.settle Sample.alice, Sample.settle Sample.bob])).toOption.map
      (fun s => (s.market.phase, s.positions.entries.all fun e => e.2.settled,
        s.market.outstandingLiability)) = some (.resolved, true, 1) := by
    decide +kernel
  obtain ⟨init, s, hinit, hs, hfields⟩ := executeAll_of_map hvalue
  simp only [Prod.mk.injEq] at hfields
  obtain ⟨hphase, hall, howed⟩ := hfields
  have hrun := executeAll_run (by
    simp [Sample.twoHolders, Sample.openPosition, Sample.buyYes, Sample.timeout, Sample.settle,
      Instruction.signed]) hs
  refine ⟨s, ⟨_, _, init, Sample.created_of_ok hinit, _, hrun⟩, hphase, allSettled_of_entries hall,
    howed, fun h => ?_⟩
  rw [h.nothingOwed] at howed
  cases howed

end Nortia.Hybrid
