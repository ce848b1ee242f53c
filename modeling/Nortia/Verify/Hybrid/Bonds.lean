import Nortia.Verify.Hybrid.Resolution

/-!
# Optimistic bonds

The bonds of a proposal and its challenge lie in a vault of their own. A resolution records what
each of three parties is paid from them, and claims pay it out. One key may be several parties; the
accounting is by party.
-/

namespace Nortia.Hybrid

open Lib

variable {rt : Runtime} {init s s' : HybridState} {tr : List Event} {p p' : OptimisticProposal}
  {treasuryOwner claimant : Pubkey}

/-! ## Parties -/

/-- Who may be paid from the bonds. -/
inductive Party
  | proposer
  | challenger
  | treasury
  deriving DecidableEq

def partyKey (p : OptimisticProposal) (treasuryOwner : Pubkey) : Party → Pubkey
  | .proposer => p.proposer
  | .challenger => p.challenger
  | .treasury => treasuryOwner

def partyPayout (p : OptimisticProposal) : Party → Nat
  | .proposer => p.proposerPayout
  | .challenger => p.challengerPayout
  | .treasury => p.treasuryPayout

def partyClaimed (p : OptimisticProposal) : Party → Bool
  | .proposer => p.proposerClaimed
  | .challenger => p.challengerClaimed
  | .treasury => p.treasuryClaimed

/-- A quantity over the three parties. -/
def overParties (f : Party → Nat) : Nat := f .proposer + f .challenger + f .treasury

theorem overParties_add (f g : Party → Nat) :
    overParties (fun party => f party + g party) = overParties f + overParties g := by
  simp only [overParties]
  omega

theorem overParties_zero {f : Party → Nat} (h : ∀ party, f party = 0) : overParties f = 0 := by
  rw [overParties, h, h, h]

/-- What a party was paid. -/
def partyPaid (p : OptimisticProposal) (party : Party) : Nat :=
  if partyClaimed p party then partyPayout p party else 0

/-- What a claimant can still claim as a party. -/
def partyDue (p : OptimisticProposal) (treasuryOwner claimant : Pubkey) (party : Party) : Nat :=
  if claimant = partyKey p treasuryOwner party ∧ partyClaimed p party = false then
    partyPayout p party else 0

/-- What a claimant can still claim. -/
def due (p : OptimisticProposal) (treasuryOwner claimant : Pubkey) : Nat :=
  overParties (partyDue p treasuryOwner claimant)

/-- The bonds a proposal holds: its own and its challenger's. -/
def deposited (p : OptimisticProposal) : Nat :=
  if p.challenger = Pubkey.default then p.bondAmount else p.bondAmount * 2

theorem depositedBonds_ok {amount : Nat} (h : depositedBonds p = .ok amount) :
    amount = deposited p := by
  unfold depositedBonds at h
  unfold deposited
  split at h
  · next hnone =>
    cases h
    rw [if_pos hnone]
  · next hsome =>
    rw [orFail_eq_ok, checkedMul_eq_some] at h
    rw [if_neg hsome, ← h.2]

theorem Unpaid.partyPayout (h : Unpaid p) (party : Party) : partyPayout p party = 0 := by
  cases party
  · exact h.proposerPayout
  · exact h.challengerPayout
  · exact h.treasuryPayout

theorem Unpaid.partyClaimed (h : Unpaid p) (party : Party) : partyClaimed p party = false := by
  cases party
  · exact h.proposerClaimed
  · exact h.challengerClaimed
  · exact h.treasuryClaimed

theorem Unpaid.partyPaid (h : Unpaid p) (party : Party) : partyPaid p party = 0 := by
  rw [Hybrid.partyPaid, h.partyClaimed party]
  rfl

/-- Paid and still due never exceed what was recorded. -/
theorem paid_add_due_le (p : OptimisticProposal) (treasuryOwner claimant : Pubkey) :
    overParties (partyPaid p) + due p treasuryOwner claimant ≤ overParties (partyPayout p) := by
  have hparty : ∀ party, partyPaid p party + partyDue p treasuryOwner claimant party ≤
      partyPayout p party := by
    intro party
    unfold partyPaid partyDue
    cases partyClaimed p party
    · simp only [Bool.false_eq_true, if_false, Nat.zero_add]
      split <;> omega
    · simp
  have hproposer := hparty .proposer
  have hchallenger := hparty .challenger
  have htreasury := hparty .treasury
  unfold due overParties
  omega

/-! ## Claims -/

/-- What a proposal asserts, and until when it can be challenged. -/
def asserts (p : OptimisticProposal) : Nat × Int := (p.proposedOutcome, p.challengeDeadline)

/-- A claim marks the parties it pays and changes nothing else. -/
structure Claims (p p' : OptimisticProposal) (treasuryOwner claimant : Pubkey) : Prop where
  finalized : p.finalized = true
  finalized' : p'.finalized = true
  key : ∀ party, partyKey p' treasuryOwner party = partyKey p treasuryOwner party
  payout : ∀ party, partyPayout p' party = partyPayout p party
  claimed : ∀ party, partyClaimed p' party = (partyClaimed p party ||
    decide (claimant = partyKey p treasuryOwner party ∧ 0 < partyPayout p party))
  deposited : deposited p' = deposited p
  bondAmount : p'.bondAmount = p.bondAmount
  asserted : asserts p' = asserts p

private theorem claimShare_ok {claims : Bool} {payout amount total : Nat}
    (h : claimShare claims payout amount = .ok total) :
    total = amount + if claims then payout else 0 := by
  unfold claimShare at h
  split at h
  · next hclaims =>
    rw [orFail_eq_ok, checkedAdd_eq_some] at h
    rw [hclaims]
    exact h.2.symm
  · next hnot =>
    cases h
    simp [hnot]

/-- A party that claims is due its payout, which is what the claim adds. -/
private theorem partyDue_eq (p : OptimisticProposal) (treasuryOwner claimant : Pubkey)
    (party : Party) : partyDue p treasuryOwner claimant party =
      if decide (claimant = partyKey p treasuryOwner party ∧ 0 < partyPayout p party ∧
        partyClaimed p party = false) = true then partyPayout p party else 0 := by
  unfold partyDue
  by_cases hkey : claimant = partyKey p treasuryOwner party
  · by_cases hpayout : 0 < partyPayout p party
    · simp [hkey, hpayout]
    · have hzero : partyPayout p party = 0 := Nat.eq_zero_of_not_pos hpayout
      simp [hzero]
  · simp [hkey]

private theorem claimed_or (claimed : Bool) (a b : Prop) [Decidable a] [Decidable b] :
    (claimed || decide (a ∧ b ∧ claimed = false)) = (claimed || decide (a ∧ b)) := by
  cases claimed <;> simp

/-- **A claim pays what is due**, to whoever claims it. -/
theorem prepareOptimisticBondClaim_ok {amount : Nat}
    (h : prepareOptimisticBondClaim p treasuryOwner claimant = .ok (amount, p')) :
    amount = due p treasuryOwner claimant ∧ 0 < amount ∧ Claims p p' treasuryOwner claimant := by
  simp only [prepareOptimisticBondClaim, bind_eq_ok, check_eq_ok, Except.ok.injEq,
    Prod.mk.injEq, exists_const] at h
  obtain ⟨hfinalized, first, hfirst, second, hsecond, third, hthird, hpos, rfl, rfl⟩ := h
  have hfirst := claimShare_ok hfirst
  have hsecond := claimShare_ok hsecond
  have hthird := claimShare_ok hthird
  refine ⟨?_, hpos, ?_⟩
  · rw [due, overParties, partyDue_eq, partyDue_eq, partyDue_eq]
    simp only [partyKey, partyPayout, partyClaimed]
    rw [hthird, hsecond, hfirst, Nat.zero_add]
    rfl
  · constructor
    case finalized => exact hfinalized
    case finalized' => exact hfinalized
    case key => intro party; cases party <;> rfl
    case payout => intro party; cases party <;> rfl
    case claimed =>
      intro party
      cases party
      · exact claimed_or p.proposerClaimed _ _
      · exact claimed_or p.challengerClaimed _ _
      · exact claimed_or p.treasuryClaimed _ _
    case deposited => rfl
    case bondAmount => rfl
    case asserted => rfl

/-- After a claim a party was paid what it was paid before and what was due to it. -/
theorem Claims.partyPaid (h : Claims p p' treasuryOwner claimant) (party : Party) :
    partyPaid p' party = partyPaid p party + partyDue p treasuryOwner claimant party := by
  unfold Hybrid.partyPaid partyDue
  rw [h.claimed, h.payout]
  cases hclaimed : partyClaimed p party
  · by_cases hkey : claimant = partyKey p treasuryOwner party
    · by_cases hpayout : 0 < partyPayout p party
      · simp [hkey, hpayout]
      · have hzero : partyPayout p party = 0 := Nat.eq_zero_of_not_pos hpayout
        simp [hzero]
    · simp [hkey]
  · simp

theorem Claims.paid (h : Claims p p' treasuryOwner claimant) :
    overParties (Hybrid.partyPaid p') =
      overParties (Hybrid.partyPaid p) + due p treasuryOwner claimant := by
  rw [due, ← overParties_add]
  exact congrArg overParties (funext h.partyPaid)

def Event.isBondClaim : Event → Bool
  | .call (.claimOptimisticBond _ _) _ => true
  | _ => false

/-- What one event gives the bonds for nothing. -/
def Event.bondDonation : Event → Nat
  | .donateBond amount => amount
  | _ => 0

/-- What a run has given the bonds for nothing. -/
def bondsDonated (tr : List Event) : Nat := (tr.map Event.bondDonation).sum

/-- The parties and the bond of a proposal. -/
structure SameParties (p p' : OptimisticProposal) : Prop where
  proposer : p'.proposer = p.proposer
  challenger : p'.challenger = p.challenger
  bondAmount : p'.bondAmount = p.bondAmount
  asserted : asserts p' = asserts p

/-- The payouts a resolution writes into a proposal. -/
structure Recorded (p p' : OptimisticProposal) : Prop where
  unpaid : Unpaid p
  parties : SameParties p p'
  finalized : p'.finalized = true
  unclaimed : ∀ party, partyClaimed p' party = false
  payouts : overParties (partyPayout p') = deposited p
  fits : overParties (partyPayout p') ≤ u64Max

/-- A proposal the optimistic resolver of a market accepts. -/
structure Asserted (s : HybridState) (p : OptimisticProposal) : Prop where
  resolver : s.oracle.resolver = .optimistic
  outcome : p.proposedOutcome = HybridMarket.outcomeYes ∨
    p.proposedOutcome = HybridMarket.outcomeNo
  challengeable : s.market.resolveNotBeforeTs ≤ p.challengeDeadline ∧
    p.challengeDeadline < s.market.resolutionDeadlineTs

inductive BondEffect (s : HybridState) : Event → HybridState → Prop
  | kept {e : Event} {s' : HybridState} (hkind : e.isBondClaim = false)
    (hnone : e.bondDonation = 0) (hproposal : s'.proposal = s.proposal)
    (hvault : s'.bondVault = s.bondVault) : BondEffect s e s'
  | donated {amount : Nat} {s' : HybridState} (hsome : s.proposal.isSome = true)
    (hproposal : s'.proposal = s.proposal) (hvault : s'.bondVault = s.bondVault + amount) :
    BondEffect s (.donateBond amount) s'
  | proposed {e : Event} {s' : HybridState} {p : OptimisticProposal}
    (hkind : e.isBondClaim = false) (hnone : e.bondDonation = 0) (hfresh : s.proposal = none)
    (hproposal : s'.proposal = some p) (hunpaid : Unpaid p)
    (hchallenger : p.challenger = Pubkey.default) (hasserted : Asserted s p)
    (hvault : s'.bondVault = s.bondVault + p.bondAmount) : BondEffect s e s'
  | challenged {e : Event} {s' : HybridState} {p p' : OptimisticProposal}
    (hkind : e.isBondClaim = false) (hnone : e.bondDonation = 0) (hproposal : s.proposal = some p)
    (hproposal' : s'.proposal = some p') (hopen : p.finalized = false)
    (hunpaid : Unpaid p → Unpaid p') (hchallenger : p.challenger = Pubkey.default)
    (hchallenger' : p'.challenger ≠ Pubkey.default)
    (hdistinct : p'.challenger ≠ p'.proposer) (hbond : p'.bondAmount = p.bondAmount)
    (hasserts : asserts p' = asserts p)
    (hvault : s'.bondVault = s.bondVault + p.bondAmount) : BondEffect s e s'
  | recorded {e : Event} {s' : HybridState} {p p' : OptimisticProposal}
    (hkind : e.isBondClaim = false) (hnone : e.bondDonation = 0) (hproposal : s.proposal = some p)
    (hproposal' : s'.proposal = some p') (h : Recorded p p')
    (hvault : s'.bondVault = s.bondVault) : BondEffect s e s'
  | claimed {s' : HybridState} {claimant destination : Pubkey} {clock : Clock}
    {p p' : OptimisticProposal} (hproposal : s.proposal = some p)
    (hproposal' : s'.proposal = some p') (h : Claims p p' s.market.treasuryOwner claimant)
    (hvault : s'.bondVault + due p s.market.treasuryOwner claimant = s.bondVault) :
    BondEffect s (.call (.claimOptimisticBond claimant destination) clock) s'

theorem recordOptimisticPayouts_ok {a b c : Nat}
    (h : recordOptimisticPayouts p a b c = .ok p') : Unpaid p ∧ a + b + c = deposited p ∧
      a + b + c ≤ u64Max ∧
      p' = { p with proposerPayout := a, challengerPayout := b, treasuryPayout := c } := by
  simp only [recordOptimisticPayouts, bind_eq_ok, check_eq_ok, orFail_eq_ok, checkedAdd_eq_some,
    exists_const, Except.ok.injEq] at h
  obtain ⟨⟨h₁, h₂, h₃, h₄, h₅, h₆, h₇⟩, amount, hdeposited, _, ⟨-, rfl⟩, _, ⟨hfits, rfl⟩, hsum,
    rfl⟩ := h
  exact ⟨⟨h₁, h₂, h₃, h₄, h₅, h₆, h₇⟩, hsum.trans (depositedBonds_ok hdeposited), hfits, rfl⟩

/-- The payouts of a finalised proposal. -/
theorem Recorded.of_payouts {a b c : Nat} {winner : Pubkey} {digest : Bytes32}
    (h : recordOptimisticPayouts p a b c = .ok p') :
    Recorded p { p' with finalized := true, winner, decisionHash := digest } := by
  obtain ⟨hunpaid, hsum, hfits, rfl⟩ := recordOptimisticPayouts_ok h
  refine ⟨hunpaid, ⟨rfl, rfl, rfl, rfl⟩, rfl, ?_, hsum, hfits⟩
  intro party
  cases party
  · exact hunpaid.proposerClaimed
  · exact hunpaid.challengerClaimed
  · exact hunpaid.treasuryClaimed

theorem finalizeWith_bonds {args : FinalizeHybridResolutionArgs}
    (h : finalizeWith s args = .ok s') :
    s'.proposal = s.proposal ∧ s'.bondVault = s.bondVault := by
  simp only [finalizeWith, bind_eq_ok, Except.ok.injEq] at h
  obtain ⟨done, -, rfl⟩ := h
  exact ⟨rfl, rfl⟩

theorem claimOptimisticBond_bonds {destination : Pubkey}
    (h : claimOptimisticBond s claimant destination = .ok s') :
    ∃ p p', s.proposal = some p ∧ s'.proposal = some p' ∧
      Claims p p' s.market.treasuryOwner claimant ∧
      0 < due p s.market.treasuryOwner claimant ∧
      s'.bondVault + due p s.market.treasuryOwner claimant = s.bondVault ∧
      (s.tokens destination).owner = claimant ∧
      (s'.tokens destination).amount =
        (s.tokens destination).amount + due p s.market.treasuryOwner claimant := by
  simp only [claimOptimisticBond, bind_eq_ok, okOr_eq_ok, checkTokenAccount_ok, exists_const,
    Except.ok.injEq] at h
  obtain ⟨p, hp, ⟨howner, -⟩, ⟨amount, p'⟩, hclaim, balances, hbalances, rfl⟩ := h
  obtain ⟨rfl, hpos, hclaims⟩ := prepareOptimisticBondClaim_ok hclaim
  obtain ⟨hle, hvault, htokens⟩ := transferFromHybridVault_ok hbalances
  refine ⟨p, p', hp, rfl, hclaims, hpos, ?_, howner, htokens⟩
  show balances.vault + _ = _
  rw [hvault]
  exact Nat.sub_add_cancel hle

theorem resolution_bonds {instruction : Instruction} {clock : Clock}
    (hkind : instruction.isResolution = true) (h : execute rt s clock instruction = .ok s') :
    BondEffect s (.call instruction clock) s' := by
  cases instruction with
  | resolveHybridWithPyth priceUpdate =>
    simp only [execute, resolveHybridWithPyth, bind_eq_ok] at h
    obtain ⟨-, -, validated, -, h⟩ := h
    obtain ⟨hproposal, hvault⟩ := finalizeWith_bonds h
    exact .kept rfl rfl hproposal hvault
  | resolveHybridWithStork feedAccount =>
    simp only [execute, resolveHybridWithStork, bind_eq_ok] at h
    obtain ⟨-, -, observation, -, h⟩ := h
    obtain ⟨hproposal, hvault⟩ := finalizeWith_bonds h
    exact .kept rfl rfl hproposal hvault
  | resolveHybridWithTxline accounts =>
    simp only [execute, resolveHybridWithTxline, bind_eq_ok] at h
    obtain ⟨-, -, observation, -, h⟩ := h
    obtain ⟨hproposal, hvault⟩ := finalizeWith_bonds h
    exact .kept rfl rfl hproposal hvault
  | resolveHybridWithSwitchboard quoteAccount =>
    simp only [execute, resolveHybridWithSwitchboard, bind_eq_ok] at h
    obtain ⟨-, -, observation, -, h⟩ := h
    obtain ⟨hproposal, hvault⟩ := finalizeWith_bonds h
    exact .kept rfl rfl hproposal hvault
  | finalizeOptimisticResolution =>
    simp only [execute, finalizeOptimisticResolution, bind_eq_ok, proposalAccounts_ok,
      Except.ok.injEq] at h
    obtain ⟨p, ⟨-, -, hp⟩, -, -, decision, -, t, ht, p', hp', rfl⟩ := h
    exact .recorded rfl rfl hp rfl (.of_payouts hp') (finalizeWith_bonds ht).2
  | arbitrateOptimisticResolution protocol remainingAccounts args =>
    simp only [execute, arbitrateOptimisticResolution, bind_eq_ok, proposalAccounts_ok,
      Except.ok.injEq] at h
    obtain ⟨-, -, p, ⟨-, -, hp⟩, -, -, -, -, -, -, payout, -, t, ht, p', hp', rfl⟩ := h
    exact .recorded rfl rfl hp rfl (.of_payouts hp') (finalizeWith_bonds ht).2
  | timeoutOptimisticDispute =>
    simp only [execute, timeoutOptimisticDispute, bind_eq_ok, proposalAccounts_ok,
      Except.ok.injEq] at h
    obtain ⟨p, ⟨-, -, hp⟩, -, -, -, -, t, ht, p', hp', rfl⟩ := h
    exact .recorded rfl rfl hp rfl (.of_payouts hp') (finalizeWith_bonds ht).2
  | resolveHybridTimeout =>
    simp only [execute, resolveHybridTimeout, bind_eq_ok] at h
    obtain ⟨-, -, -, -, h⟩ := h
    obtain ⟨hproposal, hvault⟩ := finalizeWith_bonds h
    exact .kept rfl rfl hproposal hvault
  | _ => cases hkind

theorem proposeOptimisticResolution_bonds {proposer proposerToken : Pubkey}
    {args : ProposeOptimisticArgs} {clock : Clock}
    (h : proposeOptimisticResolution rt s proposer proposerToken args clock.unixTimestamp =
      .ok s') :
    BondEffect s (.call (.proposeOptimisticResolution proposer proposerToken args) clock) s' := by
  have hproposed := proposeOptimisticResolution_ok h
  obtain ⟨p, hp, hunpaid, hchallenger, hvault, -⟩ := hproposed.proposal
  simp only [proposeOptimisticResolution, validateOptimisticProposal, bind_eq_ok, check_eq_ok,
    require_eq_ok, orFail_eq_ok, checkedAddInt_eq_some, exists_const, Except.ok.injEq] at h
  obtain ⟨-, -, hfresh, -, -, _, ⟨-, ⟨-, hready, -⟩, _, -, -, ⟨-, -, houtcome, -⟩, _, ⟨-, rfl⟩, hperiod,
    rfl⟩, balances, -, rfl⟩ := h
  have hasserted : Asserted s p := by
    cases hp
    exact ⟨hproposed.optimistic, houtcome, by show _ ≤ clock.unixTimestamp + _; omega, hperiod⟩
  exact .proposed rfl rfl (Option.isNone_iff_eq_none.mp hfresh) hp hunpaid hchallenger hasserted
    hvault

theorem challengeOptimisticResolution_bonds {challenger challengerToken : Pubkey}
    {args : ChallengeOptimisticArgs} {clock : Clock} (hsigned : challenger ≠ Pubkey.default)
    (h : challengeOptimisticResolution rt s challenger challengerToken args clock.unixTimestamp =
      .ok s') :
    BondEffect s (.call (.challengeOptimisticResolution challenger challengerToken args) clock)
      s' := by
  simp only [challengeOptimisticResolution, validateOptimisticChallenge, bind_eq_ok, check_eq_ok,
    checkTokenAccount_ok, proposalAccounts_ok, exists_const, Except.ok.injEq] at h
  obtain ⟨p, ⟨-, -, hp⟩, -, ⟨⟨-, hopen⟩, -, hnone, hdistinct, -⟩, balances, hbalances, rfl⟩ := h
  obtain ⟨hvault, -⟩ := transferToVault_ok hbalances
  exact .challenged rfl rfl hp rfl hopen (fun h => ⟨h.1, h.2, h.3, h.4, h.5, h.6, h.7⟩) hnone
    hsigned hdistinct rfl rfl hvault

/-- **Every step has one of the effects on the bonds.** -/
theorem step_bonds {event : Event} (h : Step rt s event s') : BondEffect s event s' := by
  cases h with
  | @call _ instruction clock hsigned h =>
    by_cases hkind : instruction.isResolution = true
    · exact resolution_bonds hkind h
    cases instruction with
    | initializePosition owner =>
      have hsame := (initializePosition_ok h).accounts
      exact .kept rfl rfl hsame.proposal hsame.bondVault
    | buyHybridShares accounts args =>
      obtain ⟨_, _, htraded⟩ := buyHybridShares_ok h
      exact .kept rfl rfl htraded.accounts.proposal htraded.accounts.bondVault
    | sellHybridShares accounts args =>
      obtain ⟨_, _, htraded⟩ := sellHybridShares_ok h
      exact .kept rfl rfl htraded.accounts.proposal htraded.accounts.bondVault
    | lockHybridMarket =>
      have hsame := (lockHybridMarket_ok h).accounts
      exact .kept rfl rfl hsame.proposal hsame.bondVault
    | proposeOptimisticResolution proposer proposerToken args =>
      exact proposeOptimisticResolution_bonds h
    | challengeOptimisticResolution challenger challengerToken args =>
      exact challengeOptimisticResolution_bonds hsigned h
    | claimOptimisticBond claimant destination =>
      obtain ⟨p, p', hp, hp', hclaims, -, hvault, -⟩ := claimOptimisticBond_bonds h
      exact .claimed hp hp' hclaims hvault
    | settleHybridPosition owner ownerToken =>
      obtain ⟨_, hsettled⟩ := settleHybridPosition_ok h
      exact .kept rfl rfl hsettled.accounts.proposal hsettled.accounts.bondVault
    | withdrawHybridLiquidity liquidityOwner liquidityToken =>
      have hsame := (withdrawHybridLiquidity_ok h).accounts
      exact .kept rfl rfl hsame.proposal hsame.bondVault
    | _ => exact absurd rfl hkind
  | donate => exact .kept rfl rfl rfl rfl
  | donateBond hsome => exact .donated hsome rfl rfl
  | external => exact .kept rfl rfl rfl rfl

/-! ## The books over a run -/

/-- A state, and what each key was paid from the bonds on the way to it. -/
structure Booked where
  state : HybridState
  paid : Pubkey → Nat

/-- What a key was paid as any of the parties. -/
def paidAs (p : OptimisticProposal) (treasuryOwner key : Pubkey) : Nat :=
  overParties fun party => if key = partyKey p treasuryOwner party then partyPaid p party else 0

theorem Unpaid.paidAs (h : Unpaid p) (treasuryOwner key : Pubkey) :
    paidAs p treasuryOwner key = 0 := by
  refine overParties_zero fun party => ?_
  rw [h.partyPaid party, ite_self]

theorem Claims.paidAs (h : Claims p p' treasuryOwner claimant) (key : Pubkey) :
    paidAs p' treasuryOwner key = paidAs p treasuryOwner key +
      if key = claimant then due p treasuryOwner claimant else 0 := by
  have hdue : (if key = claimant then due p treasuryOwner claimant else 0) = overParties fun party =>
      if key = partyKey p treasuryOwner party then partyDue p treasuryOwner claimant party else 0 := by
    by_cases hclaimant : key = claimant
    · subst hclaimant
      rw [if_pos rfl, due]
      congr 1
      funext party
      unfold partyDue
      by_cases hkey : key = partyKey p treasuryOwner party <;> simp [hkey]
    · rw [if_neg hclaimant, overParties_zero]
      intro party
      unfold partyDue
      by_cases hkey : key = partyKey p treasuryOwner party
      · have hother : ¬(claimant = partyKey p treasuryOwner party ∧
            partyClaimed p party = false) := fun hboth => hclaimant (hkey.trans hboth.1.symm)
        rw [if_pos hkey, if_neg hother]
      · rw [if_neg hkey]
  rw [hdue, Hybrid.paidAs, Hybrid.paidAs, ← overParties_add]
  congr 1
  funext party
  rw [h.key, h.partyPaid]
  split <;> rfl

/-- The vault, the payouts of the proposal and what was paid balance. -/
structure BondBooks (tr : List Event) (b : Booked) (p : OptimisticProposal) : Prop where
  vault : b.state.bondVault + overParties (partyPaid p) = deposited p + bondsDonated tr
  pending : p.finalized = false → Unpaid p
  recorded : p.finalized = true →
    overParties (partyPayout p) = deposited p ∧ overParties (partyPayout p) ≤ u64Max
  distinct : p.challenger = Pubkey.default ∨ p.challenger ≠ p.proposer
  paid : ∀ key, b.paid key = paidAs p b.state.market.treasuryOwner key

/-- What is due lies in the vault. -/
theorem BondBooks.due_le {b : Booked} (h : BondBooks tr b p) (hfinal : p.finalized = true)
    (claimant : Pubkey) : due p b.state.market.treasuryOwner claimant ≤ b.state.bondVault := by
  have hpaid := paid_add_due_le p b.state.market.treasuryOwner claimant
  have hvault := h.vault
  have hrecorded := (h.recorded hfinal).1
  omega

/-- Neither the vault's guard nor the transfer's. -/
private def Funded (f : Failure) : Prop :=
  f ≠ .nortia .insufficientVaultBalance ∧ f ≠ .insufficientFunds

private theorem prepareOptimisticBondClaim_funded :
    FailsIn Funded (prepareOptimisticBondClaim p treasuryOwner claimant) := by
  have hshare : ∀ claims payout amount, FailsIn Funded (claimShare claims payout amount) := by
    intro claims payout amount
    unfold claimShare
    split <;> simp [Funded]
  simp [prepareOptimisticBondClaim, hshare, Funded]

private theorem transferFromHybridVault_funded {vault : Nat} {tokens : Tokens} {key : Pubkey}
    {amount : Nat} (h : amount ≤ vault) :
    FailsIn Funded (transferFromHybridVault vault { tokens, vault } key amount) := by
  have hvault : checkedSub vault amount = some (vault - amount) := checkedSub_eq_some.mpr ⟨h, rfl⟩
  have hcredit : FailsIn Funded (tokens.credit key amount) := by
    simp [Tokens.credit, Funded]
  simp [transferFromHybridVault, h, hvault, hcredit]

theorem BondBooks.funded {b : Booked} (hbooks : BondBooks tr b p) (hp : b.state.proposal = some p)
    (claimant destination : Pubkey) :
    FailsIn Funded (claimOptimisticBond b.state claimant destination) := by
  have haccount : FailsIn Funded (checkTokenAccount (b.state.tokens destination) claimant
      b.state.market.collateralMint) := by
    simp [checkTokenAccount, Funded]
  have htransfer : ∀ amount p', prepareOptimisticBondClaim p b.state.market.treasuryOwner
      claimant = .ok (amount, p') → FailsIn Funded (transferFromHybridVault b.state.bondVault
        { tokens := b.state.tokens, vault := b.state.bondVault } destination amount) := by
    intro amount p' h
    obtain ⟨rfl, -, hclaims⟩ := prepareOptimisticBondClaim_ok h
    exact transferFromHybridVault_funded (hbooks.due_le hclaims.finalized claimant)
  simp only [claimOptimisticBond, hp, okOr, failsIn_bind, failsIn_ok, implies_true, and_true,
    haccount, true_and, prepareOptimisticBondClaim_funded]
  rintro _ ⟨⟩ - - ⟨amount, p'⟩ hclaim
  exact htransfer amount p' hclaim

namespace Sample

/-- The evidence of both sides lies at `ipfs://evidence`. -/
def evidenceUri : List Char := "ipfs://evidence".toList

def assertionHash : Bytes32 :=
  ⟨[171, 72, 4, 164, 209, 47, 232, 207, 40, 65, 12, 102, 8, 247, 72, 250, 181, 140, 178, 39, 72,
    221, 131, 158, 155, 45, 165, 183, 198, 219, 92, 204], rfl⟩

def challengeHash : Bytes32 :=
  ⟨[243, 35, 132, 93, 148, 186, 250, 129, 5, 127, 17, 97, 181, 16, 14, 60, 168, 173, 25, 24, 116,
    31, 115, 123, 50, 37, 119, 101, 134, 148, 152, 165], rfl⟩

def protocol : ProtocolConfig where
  authority := engine.authority
  treasuryOwner := engine.treasuryOwner
  feeBps := 100
  keeperRewardBps := 2500
  collateralMint := mint
  tokenProgram := Bytes.fill 32 5
  txlineProgram := txlineProgramId
  committee := [Bytes.fill 32 41, Bytes.fill 32 42, Bytes.fill 32 43]
  placementVerifier := Bytes.fill 32 51
  redeemVerifier := Bytes.fill 32 52

def member (key : Pubkey) : AccountInfo where
  key := key
  owner := Pubkey.default
  executable := false
  isSigner := true
  data := []

end Sample

end Nortia.Hybrid
