import Nortia.Program.Metadata
import Nortia.Verify.Hybrid.Invariant
import Nortia.Verify.Lmsr.Series

/-!
# What the accounts of a market say of one another

The oracle account and the receipt name the market they belong to, the market names its oracle
account, the receipt and the market hold a known outcome, the market maker accepts the quantities,
and published texts have the digests the market keeps.
-/

namespace Nortia.Hybrid

open Lib

section Steps

variable {rt : Runtime} {s s' : HybridState} {event : Event}

/-! ## What a step keeps -/

theorem marketKey_step (h : Step rt s event s') : s'.marketKey rt = s.marketKey rt := by
  have hterms := (step_effect h).terms
  have hcreator : s'.market.creator = s.market.creator :=
    field_of_terms HybridMarket.creator (fun _ => rfl) hterms
  have hid : s'.market.marketId = s.market.marketId :=
    field_of_terms HybridMarket.marketId (fun _ => rfl) hterms
  rw [HybridState.marketKey, HybridState.marketKey, hcreator, hid]

theorem oracleMarket_step (h : Step rt s event s') : s'.oracle.market = s.oracle.market := by
  cases step_effect h with
  | opened h => rw [h.accounts.oracle]
  | traded _ h => rw [h.accounts.oracle]
  | locked h => rw [h.accounts.oracle]
  | proposed h => rw [h.oracle]
  | challenged _ h => rw [h.oracle]
  | resolved _ h => rw [h.oracle]
  | bondClaimed h => rw [h.oracle]
  | settled h => rw [h.accounts.oracle]
  | withdrew h => rw [h.accounts.oracle]
  | deposited _ h => rw [h.oracle]

theorem finalizeWith_receipt {args : FinalizeHybridResolutionArgs} {t : HybridState}
    (h : finalizeWith s args = .ok t) :
    ∃ r, t.receipt = some r ∧ r.market = s.oracle.market ∧ Decided r.outcome := by
  simp only [finalizeWith, bind_eq_ok, Except.ok.injEq] at h
  obtain ⟨done, hdone, rfl⟩ := h
  have hdecided := (finalizeHybridResolution_ok hdone).2.2.1
  simp only [finalizeHybridResolution, bind_eq_ok, check_eq_ok, Except.ok.injEq] at hdone
  obtain ⟨-, -, -, -, -, -, -, -, -, -, -, -, -, -, -, -, rfl⟩ := hdone
  exact ⟨_, rfl, rfl, hdecided⟩

/-- A step keeps the receipt or writes the one of a resolution. -/
theorem receipt_step (h : Step rt s event s') :
    s'.receipt = s.receipt ∨
      ∃ r, s'.receipt = some r ∧ r.market = s.oracle.market ∧ Decided r.outcome := by
  cases step_effect h with
  | opened h => exact .inl h.accounts.receipt
  | traded _ h => exact .inl h.accounts.receipt
  | locked h => exact .inl h.accounts.receipt
  | proposed h => exact .inl h.receipt
  | challenged _ h => exact .inl h.receipt
  | resolved hkind _ =>
    cases h with
    | call _ hcall =>
      obtain ⟨args, t, proposal, -, -, ht, rfl⟩ := resolution_finalizes hkind hcall
      obtain ⟨r, hr, hmarket, hdecided⟩ := finalizeWith_receipt ht
      exact .inr ⟨r, hr, hmarket, hdecided⟩
  | bondClaimed h => exact .inl h.receipt
  | settled h => exact .inl h.accounts.receipt
  | withdrew h => exact .inl h.accounts.receipt
  | deposited _ h => exact .inl h.receipt

/-- A step keeps the outcome of the market or writes the one of a resolution. -/
theorem outcome_cases (h : Step rt s event s') :
    s'.market.outcome = s.market.outcome ∨ Decided s'.market.outcome := by
  cases step_effect h with
  | opened h => exact .inl (by rw [h.market])
  | traded _ h => exact .inl (congrArg Life.outcome h.life)
  | locked h => exact .inl (by rw [h.market])
  | proposed h => exact .inl (by rw [h.market])
  | challenged _ h => exact .inl (by rw [h.market])
  | resolved _ h =>
    obtain ⟨_, hmarket⟩ := h.market
    rw [hmarket]
    exact .inr h.decided
  | bondClaimed h => exact .inl (by rw [h.market])
  | settled h => exact .inl (by rw [h.market])
  | withdrew h => exact .inl (by rw [h.market])
  | deposited _ h => exact .inl (by rw [h.market])

theorem costFixed_accepted {q : Lmsr.MarketQuantities} {b c : Nat}
    (h : Lmsr.costFixed q b = .ok c) : Lmsr.Accepted q b := by
  obtain ⟨_, hvalid, -⟩ := bind_eq_ok.mp h
  exact Lmsr.validateState_iff.mp hvalid

/-- A step keeps the quantities or moves them to ones the market maker accepts. -/
theorem quantities_step (h : Step rt s event s') :
    lmsrQuantities s'.market = lmsrQuantities s.market ∨
      Lmsr.Accepted (lmsrQuantities s'.market) s.market.liquidityParameter := by
  cases step_effect h with
  | opened h => exact .inl (by rw [h.market])
  | traded _ h =>
    obtain ⟨_, _, -, hafter, -⟩ := h.cost
    exact .inr (costFixed_accepted hafter)
  | locked h => exact .inl (by rw [h.market]; rfl)
  | proposed h => exact .inl (by rw [h.market]; rfl)
  | challenged _ h => exact .inl (by rw [h.market]; rfl)
  | resolved _ h =>
    obtain ⟨_, hmarket⟩ := h.market
    exact .inl (by rw [hmarket]; rfl)
  | bondClaimed h => exact .inl (by rw [h.market])
  | settled h => exact .inl (by rw [h.market]; rfl)
  | withdrew h => exact .inl (by rw [h.market]; rfl)
  | deposited _ h => exact .inl (by rw [h.market])

/-! ## Consistent accounts -/

structure Consistent (rt : Runtime) (s : HybridState) : Prop where
  oracle : s.oracle.market = s.marketKey rt
  oracleConfig : s.market.oracleConfig = oracleConfigKey rt (s.marketKey rt)
  receipt : ∀ r, s.receipt = some r → r.market = s.marketKey rt ∧ Decided r.outcome
  outcome : s.market.outcome = HybridMarket.outcomeUnset ∨ Decided s.market.outcome
  accepted : Lmsr.Accepted (lmsrQuantities s.market) s.market.liquidityParameter

theorem Consistent.step (hC : Consistent rt s) (h : Step rt s event s') : Consistent rt s' := by
  have hterms := (step_effect h).terms
  have hkey := marketKey_step h
  have hconfig : s'.market.oracleConfig = s.market.oracleConfig :=
    field_of_terms HybridMarket.oracleConfig (fun _ => rfl) hterms
  have hliquidity : s'.market.liquidityParameter = s.market.liquidityParameter :=
    field_of_terms HybridMarket.liquidityParameter (fun _ => rfl) hterms
  constructor
  · rw [oracleMarket_step h, hkey]
    exact hC.oracle
  · rw [hconfig, hkey]
    exact hC.oracleConfig
  · intro r hr
    rw [hkey]
    rcases receipt_step h with hsame | ⟨r', hr', hmarket, hdecided⟩
    · exact hC.receipt r (hsame ▸ hr)
    · rw [hr, Option.some.injEq] at hr'
      subst hr'
      exact ⟨hmarket.trans hC.oracle, hdecided⟩
  · rcases outcome_cases h with hsame | hdecided
    · rw [hsame]
      exact hC.outcome
    · exact .inr hdecided
  · rw [hliquidity]
    rcases quantities_step h with hsame | haccepted
    · rw [hsame]
      exact hC.accepted
    · exact haccepted

theorem consistent_created {args : InitializeHybridMarketArgs} {now : Int}
    (h : Created rt args now s) : Consistent rt s := by
  have hpending : Pending s := (inv_created h).phase.pending (.inl ?_)
  · obtain ⟨engine, tokens, creator, creatorToken, h⟩ := h
    obtain ⟨-, -, -, subsidy, cap, -, -, hmarket, horacle, -, hreceipt, -⟩ :=
      initializeHybridMarket_ok h
    obtain ⟨_, hcost, -⟩ := hpending.solvent
    refine ⟨?_, ?_, ?_, .inl (by rw [hmarket]; rfl), costFixed_accepted hcost⟩
    · rw [horacle, HybridState.marketKey, hmarket]
      rfl
    · rw [HybridState.marketKey, hmarket]
      rfl
    · intro r hr
      rw [hreceipt] at hr
      cases hr
  · obtain ⟨engine, tokens, creator, creatorToken, h⟩ := h
    obtain ⟨-, -, -, subsidy, cap, -, -, hmarket, -⟩ := initializeHybridMarket_ok h
    rw [hmarket]
    rfl

/-- **The accounts of every reachable market are consistent.** -/
theorem consistent_reachable (h : Reachable rt s) : Consistent rt s := by
  obtain ⟨args, now, init, hinit, hreach⟩ := h
  exact hreach.invariant (fun _ _ _ hC hstep => hC.step hstep) (consistent_created hinit)

end Steps

/-! ## Published metadata -/

/-- The metadata is the market's, and its texts have the digests of the market. -/
structure Describes (rt : Runtime) (metadata : HybridMarketMetadata) (s : HybridState) : Prop where
  market : metadata.market = s.marketKey rt
  creator : metadata.creator = s.market.creator
  question : rt.sha256 (Text.asBytes metadata.question) = s.market.questionHash
  rules : rt.sha256 (Text.asBytes metadata.rules) = s.market.rulesHash
  labels : rt.sha256 (outcomeLabels metadata.yesLabel metadata.noLabel) =
    s.market.outcomeLabelsHash

section Publication

variable {rt : Runtime} {m m' : ListedMarket}

theorem publishHybridMetadata_ok {creator : Pubkey} {args : PublishHybridMetadataArgs} {now : Int}
    (h : publishHybridMetadata rt m creator args now = .ok m') :
    m'.state = m.state ∧ ∃ metadata, m'.metadata = some metadata ∧ Describes rt metadata m.state := by
  simp only [publishHybridMetadata, validateHybridMetadata, bind_eq_ok, require_eq_ok, check_eq_ok,
    Runtime.hashv, List.flatten_cons, List.flatten_nil, List.append_nil, Except.ok.injEq] at h
  obtain ⟨-, -, -, hcreator, -, ⟨-, -, -, -, -, -, hquestion, hrules, hlabels⟩, rfl⟩ := h
  exact ⟨rfl, _, rfl, rfl, hcreator, hquestion, hrules, hlabels⟩

theorem Describes.step {metadata : HybridMarketMetadata} {s s' : HybridState} {event : Event}
    (hD : Describes rt metadata s) (h : Step rt s event s') : Describes rt metadata s' := by
  have hterms := (step_effect h).terms
  have hcreator : s'.market.creator = s.market.creator :=
    field_of_terms HybridMarket.creator (fun _ => rfl) hterms
  have hquestion : s'.market.questionHash = s.market.questionHash :=
    field_of_terms HybridMarket.questionHash (fun _ => rfl) hterms
  have hrules : s'.market.rulesHash = s.market.rulesHash :=
    field_of_terms HybridMarket.rulesHash (fun _ => rfl) hterms
  have hlabels : s'.market.outcomeLabelsHash = s.market.outcomeLabelsHash :=
    field_of_terms HybridMarket.outcomeLabelsHash (fun _ => rfl) hterms
  refine ⟨?_, ?_, ?_, ?_, ?_⟩
  · rw [marketKey_step h]
    exact hD.market
  · rw [hcreator]
    exact hD.creator
  · rw [hquestion]
    exact hD.question
  · rw [hrules]
    exact hD.rules
  · rw [hlabels]
    exact hD.labels

/-- What holds of a market and its metadata along every run. -/
structure ListedInv (rt : Runtime) (m : ListedMarket) : Prop where
  reachable : Reachable rt m.state
  describes : ∀ metadata, m.metadata = some metadata → Describes rt metadata m.state

theorem ListedInv.step {event : ListedEvent} (hI : ListedInv rt m) (h : ListedStep rt m event m') :
    ListedInv rt m' := by
  cases h with
  | market hstep =>
    obtain ⟨args, now, init, hinit, hreach⟩ := hI.reachable
    exact ⟨⟨args, now, init, hinit, hreach.tail hstep⟩,
      fun metadata hm => (hI.describes metadata hm).step hstep⟩
  | publish hpublish =>
    obtain ⟨hstate, metadata, hmetadata, hdescribes⟩ := publishHybridMetadata_ok hpublish
    constructor
    · rw [hstate]
      exact hI.reachable
    · intro other hother
      rw [hmetadata, Option.some.injEq] at hother
      rw [hstate, ← hother]
      exact hdescribes

/-- **A listed market is reachable, and its metadata describes it.** -/
theorem listedInv (h : Listed rt m) : ListedInv rt m := by
  obtain ⟨args, now, init, hinit, hreach⟩ := h
  refine hreach.invariant (fun _ _ _ hI hstep => hI.step hstep) ⟨?_, ?_⟩
  · exact ⟨args, now, init, hinit, .refl _⟩
  · intro metadata hm
    cases hm

end Publication

end Nortia.Hybrid
