import Nortia.Verify.Hybrid.Effects

/-!
# The invariant of a hybrid market

Positions add up to the market's quantities in every phase. Before the resolution the vault
covers the scaled cost of the quantities (`Pending`); after it, what is still owed and what was
redeemed add up to the liability, and the vault covers what is still owed (`Settling`). The
phase, the configuration and the proposal move together (`PhaseInv`).
-/

namespace Nortia.Hybrid

open Lib Tally

/-! ## The invariant -/

/-- What an outcome owes a position that was paid. -/
def settledOwed (outcome : Nat) (p : Position) : Nat :=
  if p.settled then owed p.yesShares p.noShares outcome else 0

/-- What an outcome owes a position that was not paid yet. -/
def unsettledOwed (outcome : Nat) (p : Position) : Nat :=
  if p.settled then 0 else owed p.yesShares p.noShares outcome

/-- The state before a resolution. -/
structure Pending (s : HybridState) : Prop where
  fresh : s.oracle.consumed = false
  noReceipt : s.receipt.isNone = true
  unsettled : ∀ owner p, s.positions.lookup owner = some p → p.settled = false
  redeemed : s.market.redeemedLiability = 0
  solvent : ∃ c, Lmsr.costFixed (lmsrQuantities s.market) s.market.liquidityParameter = .ok c ∧
    c ≤ s.vault * Lmsr.fixedScale

/-- The state after a resolution. -/
structure Settling (s : HybridState) : Prop where
  consumed : s.oracle.consumed = true
  receipt : s.receipt.isSome = true
  decided : Decided s.market.outcome
  liability : s.market.outstandingLiability + s.market.redeemedLiability =
    owed s.market.yesQuantity s.market.noQuantity s.market.outcome
  redeemed : s.market.redeemedLiability = total (settledOwed s.market.outcome) s.positions
  solvent : s.market.outstandingLiability ≤ s.vault
  paid : ∀ owner p, s.positions.lookup owner = some p → p.settled = true →
    p.settledAmount = owed p.yesShares p.noShares s.market.outcome
  byTimeout : s.market.outcome = HybridMarket.outcomeInvalid →
    s.market.resolutionDeadlineTs < s.market.settledAt
  byOracle : s.market.outcome = HybridMarket.outcomeYes ∨
    s.market.outcome = HybridMarket.outcomeNo →
      s.market.settledAt ≤ s.market.resolutionDeadlineTs

/-- The proposal, its bonds and the configuration, phase by phase. -/
def PhaseInv (rt : Runtime) (s : HybridState) : Prop :=
  match s.market.phase with
  | .open | .locked =>
    Pending s ∧ s.proposal = none ∧ s.oracle.optimisticProposal = Pubkey.default
  | .resolving =>
    Pending s ∧ s.oracle.optimisticProposal = s.proposalKey rt ∧ ∃ p, s.proposal = some p ∧
      Unpaid p ∧ p.challenger = Pubkey.default ∧ p.bondAmount ≤ s.bondVault
  | .disputed =>
    Pending s ∧ s.oracle.optimisticProposal = s.proposalKey rt ∧ ∃ p, s.proposal = some p ∧
      Unpaid p ∧ p.challenger ≠ Pubkey.default ∧ 2 * p.bondAmount ≤ s.bondVault
  | .resolved => Settling s ∧ (s.market.outstandingLiability = 0 → 0 < s.vault)
  | .closed => Settling s ∧ s.market.outstandingLiability = 0

structure Inv (rt : Runtime) (s : HybridState) : Prop where
  yes : total Position.yesShares s.positions = s.market.yesQuantity
  no : total Position.noShares s.positions = s.market.noQuantity
  capped : max s.market.yesQuantity s.market.noQuantity ≤ s.market.resolverSecurityCap
  bounded : s.market.yesQuantity ≤ Lmsr.maxOutcomeQuantity ∧
    s.market.noQuantity ≤ Lmsr.maxOutcomeQuantity
  bondFits : s.bondVault ≤ u64Max
  times : s.market.lockTs ≤ s.market.resolveNotBeforeTs ∧
    s.market.resolveNotBeforeTs < s.market.resolutionDeadlineTs
  phase : PhaseInv rt s

/-! ## Reading the phase invariant -/

section Phases

variable {rt : Runtime} {s : HybridState}

/-- A phase in which the market can still be resolved. -/
def Unresolved (phase : HybridPhase) : Prop :=
  phase = .open ∨ phase = .locked ∨ phase = .resolving ∨ phase = .disputed

theorem PhaseInv.pending (h : PhaseInv rt s) (hu : Unresolved s.market.phase) : Pending s := by
  unfold PhaseInv at h
  rcases hu with hp | hp | hp | hp <;> rw [hp] at h <;> exact h.1

theorem PhaseInv.settling (h : PhaseInv rt s)
    (hr : s.market.phase = .resolved ∨ s.market.phase = .closed) : Settling s := by
  unfold PhaseInv at h
  rcases hr with hp | hp <;> rw [hp] at h <;> exact h.1

theorem PhaseInv.open (h : PhaseInv rt s)
    (hp : s.market.phase = .open ∨ s.market.phase = .locked) :
    Pending s ∧ s.proposal = none ∧ s.oracle.optimisticProposal = Pubkey.default := by
  unfold PhaseInv at h
  rcases hp with hp | hp <;> rw [hp] at h <;> exact h

theorem PhaseInv.resolving (h : PhaseInv rt s) (hp : s.market.phase = .resolving) :
    Pending s ∧ s.oracle.optimisticProposal = s.proposalKey rt ∧ ∃ p, s.proposal = some p ∧
      Unpaid p ∧ p.challenger = Pubkey.default ∧ p.bondAmount ≤ s.bondVault := by
  unfold PhaseInv at h
  rwa [hp] at h

theorem PhaseInv.disputed (h : PhaseInv rt s) (hp : s.market.phase = .disputed) :
    Pending s ∧ s.oracle.optimisticProposal = s.proposalKey rt ∧ ∃ p, s.proposal = some p ∧
      Unpaid p ∧ p.challenger ≠ Pubkey.default ∧ 2 * p.bondAmount ≤ s.bondVault := by
  unfold PhaseInv at h
  rwa [hp] at h

theorem PhaseInv.resolved (h : PhaseInv rt s) (hp : s.market.phase = .resolved) :
    Settling s ∧ (s.market.outstandingLiability = 0 → 0 < s.vault) := by
  unfold PhaseInv at h
  rwa [hp] at h

theorem PhaseInv.closed (h : PhaseInv rt s) (hp : s.market.phase = .closed) :
    Settling s ∧ s.market.outstandingLiability = 0 := by
  unfold PhaseInv at h
  rwa [hp] at h

end Phases

/-! ## What the invariant says about the vault -/

/-- The vault of an unresolved market covers the larger side, and is not empty. -/
theorem Pending.covers {s : HybridState} (h : Pending s) :
    max s.market.yesQuantity s.market.noQuantity ≤ s.vault ∧ 0 < s.vault := by
  obtain ⟨c, hc, hle⟩ := h.solvent
  have hmax := Lmsr.max_le_costFixed hc
  have hpos := Lmsr.costFixed_pos hc
  have hscale : 0 < Lmsr.fixedScale := by decide
  constructor
  · exact Nat.le_of_mul_le_mul_right (hmax.trans hle) hscale
  · exact Nat.pos_of_mul_pos_right (Nat.lt_of_lt_of_le hpos hle)

/-! ## Frames -/

section Frames

variable {rt : Runtime} {s s' : HybridState}

/-- Every step keeps the terms of the market. -/
theorem Effect.terms {event : Event} (h : Effect rt s event s') :
    terms s'.market = terms s.market := by
  cases h with
  | opened h => rw [h.market]
  | traded _ h => exact h.terms
  | locked h => rw [h.market]; rfl
  | proposed h => rw [h.market]; rfl
  | challenged _ h => rw [h.market]; rfl
  | resolved _ h =>
    obtain ⟨_, hm⟩ := h.market
    rw [hm]
    rfl
  | bondClaimed h => rw [h.market]
  | settled h => rw [h.market]; rfl
  | withdrew h => rw [h.market]; rfl
  | deposited _ h => rw [h.market]

/-- A field that the reset keeps is one of the terms. -/
theorem field_of_terms {α : Type} {m m' : HybridMarket} (f : HybridMarket → α)
    (hf : ∀ m, f (Hybrid.terms m) = f m) (h : Hybrid.terms m' = Hybrid.terms m) : f m' = f m := by
  rw [← hf m', h, hf m]

theorem proposalKey_of_terms (h : terms s'.market = terms s.market) :
    s'.proposalKey rt = s.proposalKey rt := by
  have hcreator : s'.market.creator = s.market.creator :=
    field_of_terms HybridMarket.creator (fun _ => rfl) h
  have hid : s'.market.marketId = s.market.marketId :=
    field_of_terms HybridMarket.marketId (fun _ => rfl) h
  simp only [HybridState.proposalKey, HybridState.marketKey, hcreator, hid]

theorem times_of_terms (h : terms s'.market = terms s.market)
    (ht : s.market.lockTs ≤ s.market.resolveNotBeforeTs ∧
      s.market.resolveNotBeforeTs < s.market.resolutionDeadlineTs) :
    s'.market.lockTs ≤ s'.market.resolveNotBeforeTs ∧
      s'.market.resolveNotBeforeTs < s'.market.resolutionDeadlineTs := by
  have h₁ : s'.market.lockTs = s.market.lockTs :=
    field_of_terms HybridMarket.lockTs (fun _ => rfl) h
  have h₂ : s'.market.resolveNotBeforeTs = s.market.resolveNotBeforeTs :=
    field_of_terms HybridMarket.resolveNotBeforeTs (fun _ => rfl) h
  have h₃ : s'.market.resolutionDeadlineTs = s.market.resolutionDeadlineTs :=
    field_of_terms HybridMarket.resolutionDeadlineTs (fun _ => rfl) h
  rw [h₁, h₂, h₃]
  exact ht

/-- A pending state that only moves between phases, or whose vault grows, stays pending. -/
theorem Pending.frame (h : Pending s) (hfresh : s'.oracle.consumed = s.oracle.consumed)
    (hreceipt : s'.receipt = s.receipt) (hpositions : s'.positions = s.positions)
    (hvault : s.vault ≤ s'.vault)
    (hmarket : ∃ phase, s'.market = { s.market with phase := phase }) : Pending s' := by
  obtain ⟨phase, hm⟩ := hmarket
  obtain ⟨c, hc, hle⟩ := h.solvent
  refine ⟨hfresh.trans h.fresh, hreceipt ▸ h.noReceipt, hpositions ▸ h.unsettled, ?_, c, ?_,
    hle.trans (Nat.mul_le_mul_right _ hvault)⟩
  · rw [hm]
    exact h.redeemed
  · rw [hm]
    exact hc

/-- A settling state whose market stays and whose vault does not shrink stays settling. -/
theorem Settling.frame (h : Settling s) (horacle : s'.oracle = s.oracle)
    (hreceipt : s'.receipt = s.receipt) (hpositions : s'.positions = s.positions)
    (hmarket : ∃ phase, s'.market = { s.market with phase := phase })
    (hsolvent : s.market.outstandingLiability ≤ s'.vault) : Settling s' := by
  obtain ⟨phase, hm⟩ := hmarket
  constructor
  · rw [horacle]; exact h.consumed
  · rw [hreceipt]; exact h.receipt
  · rw [hm]; exact h.decided
  · rw [hm]; exact h.liability
  · rw [hm, hpositions]; exact h.redeemed
  · rw [hm]; exact hsolvent
  · rw [hm, hpositions]; exact h.paid
  · rw [hm]; exact h.byTimeout
  · rw [hm]; exact h.byOracle

end Frames

/-! ## Each effect keeps the invariant -/

section Preservation

variable {rt : Runtime} {s s' : HybridState}

theorem Inv.opened {owner : Pubkey} (hI : Inv rt s) (h : Opened s s' owner) : Inv rt s' := by
  obtain ⟨p, hpositions, hyes, hno, hsettled⟩ := h.position
  have hphase := hI.phase.open (.inl h.phase)
  have hpending : Pending s' := by
    obtain ⟨c, hc, hle⟩ := hphase.1.solvent
    refine ⟨h.accounts.oracle ▸ hphase.1.fresh, h.accounts.receipt ▸ hphase.1.noReceipt, ?_,
      h.market ▸ hphase.1.redeemed, c, h.market ▸ hc, h.vault ▸ hle⟩
    intro k q hk
    rw [hpositions] at hk
    by_cases howner : k = owner
    · subst howner
      rw [AList.lookup_insert, Option.some.injEq] at hk
      exact hk ▸ hsettled
    · rw [AList.lookup_insert_ne howner] at hk
      exact hphase.1.unsettled k q hk
  refine ⟨?_, ?_, h.market ▸ hI.capped, h.market ▸ hI.bounded, h.accounts.bondVault ▸ hI.bondFits,
    h.market ▸ hI.times, ?_⟩
  · rw [hpositions, total_insert_new h.missing, hyes, h.market]
    exact hI.yes
  · rw [hpositions, total_insert_new h.missing, hno, h.market]
    exact hI.no
  · unfold PhaseInv
    rw [h.market, h.phase]
    exact ⟨hpending, h.accounts.proposal ▸ hphase.2.1, h.accounts.oracle ▸ hphase.2.2⟩

theorem Inv.traded {owner : Pubkey} {now : Int} {p p' : Position} (hI : Inv rt s)
    (h : Traded s s' owner now p p') : Inv rt s' := by
  have hphase := hI.phase.open (.inl h.phase)
  have hyes := total_insert h.held p' Position.yesShares
  have hno := total_insert h.held p' Position.noShares
  have hmoved := And.intro h.yes h.no
  have hcap : s'.market.resolverSecurityCap = s.market.resolverSecurityCap :=
    field_of_terms HybridMarket.resolverSecurityCap (fun _ => rfl) h.terms
  have hliquidity : s'.market.liquidityParameter = s.market.liquidityParameter :=
    field_of_terms HybridMarket.liquidityParameter (fun _ => rfl) h.terms
  have hnow : s'.market.phase = .open := (congrArg Life.phase h.life).trans h.phase
  have hpending : Pending s' := by
    refine ⟨h.accounts.oracle ▸ hphase.1.fresh, h.accounts.receipt ▸ hphase.1.noReceipt, ?_,
      (congrArg Life.redeemedLiability h.life).trans hphase.1.redeemed, ?_⟩
    · intro k q hk
      rw [h.positions] at hk
      by_cases howner : k = owner
      · subst howner
        rw [AList.lookup_insert, Option.some.injEq] at hk
        exact hk ▸ h.unsettled'
      · rw [AList.lookup_insert_ne howner] at hk
        exact hphase.1.unsettled k q hk
    · obtain ⟨c, hc, hle⟩ := hphase.1.solvent
      obtain ⟨before, after, hbefore, hafter, hcost⟩ := h.cost
      obtain rfl : c = before := Except.ok.inj (hc.symm.trans hbefore)
      exact ⟨after, hliquidity ▸ hafter, by omega⟩
  refine ⟨?_, ?_, hcap ▸ h.capped hI.capped, h.bounded, h.accounts.bondVault ▸ hI.bondFits,
    times_of_terms h.terms hI.times, ?_⟩
  · have := hI.yes
    rw [h.positions]
    omega
  · have := hI.no
    rw [h.positions]
    omega
  · unfold PhaseInv
    rw [hnow]
    exact ⟨hpending, h.accounts.proposal ▸ hphase.2.1, h.accounts.oracle ▸ hphase.2.2⟩

theorem Inv.locked {now : Int} (hI : Inv rt s) (h : Locked s s' now) : Inv rt s' := by
  have hphase := hI.phase.open (.inl h.phase)
  refine ⟨?_, ?_, ?_, ?_, h.accounts.bondVault ▸ hI.bondFits, ?_, ?_⟩
  · rw [h.positions, h.market]; exact hI.yes
  · rw [h.positions, h.market]; exact hI.no
  · rw [h.market]; exact hI.capped
  · rw [h.market]; exact hI.bounded
  · rw [h.market]; exact hI.times
  · unfold PhaseInv
    rw [h.market]
    exact ⟨hphase.1.frame (by rw [h.accounts.oracle]) h.accounts.receipt h.positions h.vault.ge
      ⟨_, h.market⟩, h.accounts.proposal ▸ hphase.2.1, h.accounts.oracle ▸ hphase.2.2⟩

theorem Inv.proposed {now : Int} (hI : Inv rt s) (h : Proposed rt s s' now) : Inv rt s' := by
  have hphase := hI.phase.open h.phase
  have hkey : s'.proposalKey rt = s.proposalKey rt :=
    proposalKey_of_terms (by rw [h.market]; rfl)
  obtain ⟨p, hp, hunpaid, hchallenger, hbond, hfits⟩ := h.proposal
  have hbondFits := hI.bondFits
  refine ⟨?_, ?_, ?_, ?_, by omega, ?_, ?_⟩
  · rw [h.positions, h.market]; exact hI.yes
  · rw [h.positions, h.market]; exact hI.no
  · rw [h.market]; exact hI.capped
  · rw [h.market]; exact hI.bounded
  · rw [h.market]; exact hI.times
  · unfold PhaseInv
    rw [h.market, hkey, h.oracle]
    exact ⟨hphase.1.frame (by rw [h.oracle]) h.receipt h.positions h.vault.ge ⟨_, h.market⟩, rfl,
      p, hp, hunpaid, hchallenger, by omega⟩

theorem Inv.challenged {challenger : Pubkey} (hI : Inv rt s)
    (hsigned : challenger ≠ Pubkey.default) (h : Challenged s s' challenger) : Inv rt s' := by
  obtain ⟨hpending, hkey, p, hp, hunpaid, -, hbond⟩ := hI.phase.resolving h.phase
  obtain ⟨q, p', hq, hp', hstill, hchallenger, hamount, hvault, hfits⟩ := h.proposal
  obtain rfl : p = q := Option.some.inj (hp.symm.trans hq)
  have hkey' : s'.proposalKey rt = s.proposalKey rt :=
    proposalKey_of_terms (by rw [h.market]; rfl)
  have hbondFits := hI.bondFits
  refine ⟨?_, ?_, ?_, ?_, by omega, ?_, ?_⟩
  · rw [h.positions, h.market]; exact hI.yes
  · rw [h.positions, h.market]; exact hI.no
  · rw [h.market]; exact hI.capped
  · rw [h.market]; exact hI.bounded
  · rw [h.market]; exact hI.times
  · unfold PhaseInv
    rw [h.market, hkey', h.oracle]
    exact ⟨hpending.frame (by rw [h.oracle]) h.receipt h.positions h.vault.ge ⟨_, h.market⟩, hkey,
      p', hp', hstill hunpaid, hchallenger ▸ hsigned, by omega⟩

theorem Inv.resolved {outcome : Nat} {now : Int} {timeout : Bool} (hI : Inv rt s)
    (h : Resolved s s' outcome now timeout) : Inv rt s' := by
  have hpending := hI.phase.pending h.ready.unresolved
  obtain ⟨digest, hmarket⟩ := h.market
  have htime := h.ready.time
  refine ⟨?_, ?_, ?_, ?_, h.bondVault ▸ hI.bondFits, ?_, ?_⟩
  · rw [h.positions, hmarket]; exact hI.yes
  · rw [h.positions, hmarket]; exact hI.no
  · rw [hmarket]; exact hI.capped
  · rw [hmarket]; exact hI.bounded
  · rw [hmarket]; exact hI.times
  unfold PhaseInv
  rw [hmarket]
  refine ⟨?_, fun _ => h.vault ▸ hpending.covers.2⟩
  have hnone : total (settledOwed outcome) s.positions = 0 :=
    total_eq_zero fun k p hp => by
      rw [settledOwed, hpending.unsettled k p hp]
      rfl
  constructor
  · rw [h.oracle]
  · exact h.receipt
  · rw [hmarket]; exact h.decided
  · rw [hmarket]
    simp only [hpending.redeemed, Nat.add_zero]
  · rw [hmarket, h.positions]
    simp only [hpending.redeemed, hnone]
  · rw [hmarket, h.vault]; exact h.covered
  · intro k p hp hsettled
    rw [h.positions] at hp
    rw [hpending.unsettled k p hp] at hsettled
    cases hsettled
  · rw [hmarket]
    intro hinvalid
    simp only at hinvalid ⊢
    cases timeout with
    | true => exact (checkResolutionTime_true.mp htime).1
    | false =>
      rcases (checkResolutionTime_false.mp htime).2 with ho | ho <;> rw [ho] at hinvalid <;>
        cases hinvalid
  · rw [hmarket]
    intro hdecided
    simp only at hdecided ⊢
    cases timeout with
    | true =>
      rw [(checkResolutionTime_true.mp htime).2] at hdecided
      rcases hdecided with ho | ho <;> cases ho
    | false => exact (checkResolutionTime_false.mp htime).1

theorem Inv.bondClaimed (hI : Inv rt s) (h : BondClaimed s s') : Inv rt s' := by
  obtain ⟨p, hp, hfinalized⟩ := h.finalized
  refine ⟨?_, ?_, h.market ▸ hI.capped, h.market ▸ hI.bounded, h.bondVault.trans hI.bondFits,
    h.market ▸ hI.times, ?_⟩
  · rw [h.positions, h.market]; exact hI.yes
  · rw [h.positions, h.market]; exact hI.no
  have hsame : ∃ phase, s'.market = { s.market with phase := phase } :=
    ⟨s.market.phase, h.market⟩
  unfold PhaseInv
  rw [h.market]
  -- a finalized proposal exists only once the market is resolved
  cases hphase : s.market.phase with
  | «open» =>
    rw [(hI.phase.open (.inl hphase)).2.1] at hp
    cases hp
  | locked =>
    rw [(hI.phase.open (.inr hphase)).2.1] at hp
    cases hp
  | resolving =>
    obtain ⟨-, -, q, hq, hunpaid, -⟩ := hI.phase.resolving hphase
    obtain rfl : p = q := Option.some.inj (hp.symm.trans hq)
    rw [hunpaid.finalized] at hfinalized
    cases hfinalized
  | disputed =>
    obtain ⟨-, -, q, hq, hunpaid, -⟩ := hI.phase.disputed hphase
    obtain rfl : p = q := Option.some.inj (hp.symm.trans hq)
    rw [hunpaid.finalized] at hfinalized
    cases hfinalized
  | resolved =>
    obtain ⟨hsettling, hpos⟩ := hI.phase.resolved hphase
    exact ⟨hsettling.frame h.oracle h.receipt h.positions hsame (h.vault ▸ hsettling.solvent),
      h.vault ▸ hpos⟩
  | closed =>
    obtain ⟨hsettling, hzero⟩ := hI.phase.closed hphase
    exact ⟨hsettling.frame h.oracle h.receipt h.positions hsame (h.vault ▸ hsettling.solvent),
      hzero⟩

theorem Inv.settled {owner ownerToken : Pubkey} {p : Position} (hI : Inv rt s)
    (h : Settled s s' owner ownerToken p) : Inv rt s' := by
  obtain ⟨hsettling, -⟩ := hI.phase.resolved h.phase
  have hyes := total_insert h.held
    { p with settled := true, settledAmount := owed p.yesShares p.noShares s.market.outcome }
    Position.yesShares
  have hno := total_insert h.held
    { p with settled := true, settledAmount := owed p.yesShares p.noShares s.market.outcome }
    Position.noShares
  have hredeemed := total_insert h.held
    { p with settled := true, settledAmount := owed p.yesShares p.noShares s.market.outcome }
    (settledOwed s.market.outcome)
  simp only [settledOwed, h.unsettled, Bool.false_eq_true, if_false, if_true] at hredeemed
  have hliability := hsettling.liability
  have howes := h.liability
  have hpaid := hsettling.redeemed
  have hle := h.solvent
  rw [h.market] at hle
  have hsettling' : Settling s' := by
    constructor
    · rw [h.accounts.oracle]; exact hsettling.consumed
    · rw [h.accounts.receipt]; exact hsettling.receipt
    · rw [h.market]; exact hsettling.decided
    · rw [h.market]
      simp only
      omega
    · rw [h.market, h.positions]
      simp only
      unfold settledOwed at hredeemed hpaid ⊢
      omega
    · rw [h.market]
      exact hle
    · intro k q hk hsettled
      rw [h.market]
      rw [h.positions] at hk
      by_cases howner : k = owner
      · subst howner
        rw [AList.lookup_insert, Option.some.injEq] at hk
        exact hk ▸ rfl
      · rw [AList.lookup_insert_ne howner] at hk
        exact hsettling.paid k q hk hsettled
    · rw [h.market]; exact hsettling.byTimeout
    · rw [h.market]; exact hsettling.byOracle
  refine ⟨?_, ?_, ?_, ?_, h.accounts.bondVault ▸ hI.bondFits, ?_, ?_⟩
  · have := hI.yes
    rw [h.positions, h.market]
    simp only at hyes ⊢
    omega
  · have := hI.no
    rw [h.positions, h.market]
    simp only at hno ⊢
    omega
  · rw [h.market]; exact hI.capped
  · rw [h.market]; exact hI.bounded
  · rw [h.market]; exact hI.times
  · have hphase : s'.market.phase =
        if s'.market.outstandingLiability = 0 ∧ s'.vault = 0 then .closed else .resolved :=
      congrArg HybridMarket.phase h.market
    unfold PhaseInv
    by_cases hdrained : s'.market.outstandingLiability = 0 ∧ s'.vault = 0
    · rw [hphase, if_pos hdrained]
      exact ⟨hsettling', hdrained.1⟩
    · rw [hphase, if_neg hdrained]
      exact ⟨hsettling', fun hzero => Nat.pos_of_ne_zero fun hv => hdrained ⟨hzero, hv⟩⟩

theorem Inv.withdrew (hI : Inv rt s) (h : Withdrew s s') : Inv rt s' := by
  obtain ⟨hsettling, -⟩ := hI.phase.resolved h.phase
  have hsettling' : Settling s' :=
    hsettling.frame h.accounts.oracle h.accounts.receipt h.positions ⟨_, h.market⟩ h.vault.ge
  refine ⟨?_, ?_, ?_, ?_, h.accounts.bondVault ▸ hI.bondFits, ?_, ?_⟩
  · rw [h.positions, h.market]; exact hI.yes
  · rw [h.positions, h.market]; exact hI.no
  · rw [h.market]; exact hI.capped
  · rw [h.market]; exact hI.bounded
  · rw [h.market]; exact hI.times
  · have hphase : s'.market.phase =
        if s.market.outstandingLiability = 0 then .closed else .resolved :=
      congrArg HybridMarket.phase h.market
    have hout : s'.market.outstandingLiability = s.market.outstandingLiability := by rw [h.market]
    unfold PhaseInv
    by_cases hzero : s.market.outstandingLiability = 0
    · rw [hphase, if_pos hzero]
      exact ⟨hsettling', hout.trans hzero⟩
    · rw [hphase, if_neg hzero]
      exact ⟨hsettling', fun hzero' => absurd (hout.symm.trans hzero') hzero⟩

theorem Inv.deposited (hI : Inv rt s) (h : Deposited s s') : Inv rt s' := by
  have hkey : s'.proposalKey rt = s.proposalKey rt := proposalKey_of_terms (by rw [h.market])
  have hsame : ∃ phase, s'.market = { s.market with phase := phase } :=
    ⟨s.market.phase, h.market⟩
  have hpending : Pending s → Pending s' := fun hp =>
    hp.frame (by rw [h.oracle]) h.receipt h.positions h.vault hsame
  have hsettling : Settling s → Settling s' := fun hs =>
    hs.frame h.oracle h.receipt h.positions hsame (hs.solvent.trans h.vault)
  refine ⟨?_, ?_, h.market ▸ hI.capped, h.market ▸ hI.bounded, h.fits hI.bondFits,
    h.market ▸ hI.times, ?_⟩
  · rw [h.positions, h.market]; exact hI.yes
  · rw [h.positions, h.market]; exact hI.no
  have hinv := hI.phase
  have hbond := h.bondVault
  unfold PhaseInv at hinv ⊢
  rw [h.market, h.oracle, h.proposal, hkey]
  cases hphase : s.market.phase with
  | «open» =>
    simp only [hphase] at hinv ⊢
    exact ⟨hpending hinv.1, hinv.2⟩
  | locked =>
    simp only [hphase] at hinv ⊢
    exact ⟨hpending hinv.1, hinv.2⟩
  | resolving =>
    simp only [hphase] at hinv ⊢
    obtain ⟨hp, hk, p, hproposal, hunpaid, hch, hle⟩ := hinv
    exact ⟨hpending hp, hk, p, hproposal, hunpaid, hch, hle.trans hbond⟩
  | disputed =>
    simp only [hphase] at hinv ⊢
    obtain ⟨hp, hk, p, hproposal, hunpaid, hch, hle⟩ := hinv
    exact ⟨hpending hp, hk, p, hproposal, hunpaid, hch, hle.trans hbond⟩
  | resolved =>
    simp only [hphase] at hinv ⊢
    exact ⟨hsettling hinv.1, fun hzero => (hinv.2 hzero).trans_le h.vault⟩
  | closed =>
    simp only [hphase] at hinv ⊢
    exact ⟨hsettling hinv.1, hinv.2⟩

/-- **Every step keeps the invariant.** -/
theorem inv_step {event : Event} (hI : Inv rt s) (h : Step rt s event s') : Inv rt s' := by
  cases step_effect h with
  | opened h => exact hI.opened h
  | traded _ h => exact hI.traded h
  | locked h => exact hI.locked h
  | proposed h => exact hI.proposed h
  | challenged hsigned h => exact hI.challenged hsigned h
  | resolved _ h => exact hI.resolved h
  | bondClaimed h => exact hI.bondClaimed h
  | settled h => exact hI.settled h
  | withdrew h => exact hI.withdrew h
  | deposited _ h => exact hI.deposited h

end Preservation

/-! ## Creation establishes it -/

/-- What `initialize_hybrid_market` checks and creates. -/
theorem initializeHybridMarket_ok {rt : Runtime} {engine : EngineConfig} {tokens : Tokens}
    {creator creatorToken : Pubkey} {args : InitializeHybridMarketArgs} {now : Int}
    {s : HybridState}
    (h : initializeHybridMarket rt engine tokens creator creatorToken args now = .ok s) :
    engine.paused = false ∧ validMarketArgs args now ∧
      validateOracleConfig args.category args.oracle args.resolveNotBeforeTs = .ok () ∧
      ∃ subsidy cap, Lmsr.requiredSubsidy args.liquidityParameter args.roundingReserve =
          .ok subsidy ∧ resolverSecurityCap args.oracle subsidy = .ok cap ∧
        s.market = newHybridMarket rt engine creator args now subsidy cap ∧
        s.oracle = newOracleConfig (hybridMarketKey rt creator args.marketId) args.oracle ∧
        s.proposal = none ∧ s.receipt = none ∧ s.positions = ∅ ∧ s.vault = subsidy ∧
        s.bondVault = 0 := by
  simp only [initializeHybridMarket, bind_eq_ok, check_eq_ok, mapError_ok_iff,
    Except.ok.injEq] at h
  obtain ⟨-, -, -, hpaused, -, hvalid, ⟨⟩, horacle, subsidy, hsubsidy, cap, hcap, balances,
    hbalances, rfl⟩ := h
  have hvault := (transferToVault_ok hbalances).1
  exact ⟨hpaused, hvalid, horacle, subsidy, cap, hsubsidy, hcap, rfl, rfl, rfl, rfl, rfl,
    hvault.trans (Nat.zero_add _), rfl⟩

theorem inv_created {rt : Runtime} {args : InitializeHybridMarketArgs} {now : Int}
    {s : HybridState} (h : Created rt args now s) : Inv rt s := by
  obtain ⟨engine, tokens, creator, creatorToken, h⟩ := h
  obtain ⟨-, hvalid, -, subsidy, cap, hsubsidy, -, hmarket, horacle, hproposal, hreceipt,
    hpositions, hvault, hbond⟩ := initializeHybridMarket_ok h
  obtain ⟨-, -, -, -, -, -, -, -, -, -, hlock, hdeadline⟩ := hvalid
  obtain ⟨hb, -, hcover⟩ := Lmsr.requiredSubsidy_ok hsubsidy
  obtain ⟨c, hc, -, hle⟩ := Lmsr.costFixed_zero hb
  have hpending : Pending s := by
    refine ⟨by rw [horacle]; rfl, by rw [hreceipt]; rfl, ?_, by rw [hmarket]; rfl, c, ?_, ?_⟩
    · intro k p hk
      rw [hpositions, AList.lookup_empty] at hk
      cases hk
    · rw [hmarket]
      exact hc
    · rw [hvault]
      omega
  refine ⟨by rw [hpositions, hmarket]; rfl, by rw [hpositions, hmarket]; rfl, ?_, ?_, ?_, ?_, ?_⟩
  · rw [hmarket]
    exact Nat.zero_le _
  · rw [hmarket]
    exact ⟨Nat.zero_le _, Nat.zero_le _⟩
  · rw [hbond]
    exact Nat.zero_le _
  · rw [hmarket]
    exact ⟨hlock, hdeadline⟩
  · unfold PhaseInv
    rw [hmarket]
    exact ⟨hpending, hproposal, by rw [horacle]; rfl⟩

/-- **The invariant holds in every reachable state.** -/
theorem inv_reaches {rt : Runtime} {args : InitializeHybridMarketArgs} {now : Int}
    {init s : HybridState} (hinit : Created rt args now init) (h : Reaches (Step rt) init s) :
    Inv rt s :=
  h.invariant (fun _ _ _ => inv_step) (inv_created hinit)

theorem inv_reachable {rt : Runtime} {s : HybridState} (h : Reachable rt s) : Inv rt s := by
  obtain ⟨args, now, init, hinit, hreach⟩ := h
  exact inv_reaches hinit hreach

end Nortia.Hybrid
