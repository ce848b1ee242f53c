import Nortia.Verify.Hybrid.Attest
import Nortia.Verify.Hybrid.Resolution
import Nortia.Verify.Hybrid.Supply

/-!
# Which markets can resolve to YES or NO

Creation compares neither the observation time with the deadline nor the bond with what the mint has
left beside the subsidy, so it admits markets no observation can resolve. `canResolve_iff_alive` says
which they are.
-/

namespace Nortia.Hybrid

open Lib

variable {rt : Runtime} {init s s' : HybridState} {tr : List Event}

/-! ## Resolving to YES or NO -/

/-- The bond of an optimistic market is posted beside the subsidy in the vault, both out of one
supply. -/
def Postable (args : InitializeHybridMarketArgs) (slack : Nat) : Prop :=
  args.oracle.resolver = .optimistic → ∀ subsidy,
    Lmsr.requiredSubsidy args.liquidityParameter args.roundingReserve = .ok subsidy →
      args.oracle.bondAmount + subsidy ≤ u64Max + slack

/-- The source can attest an observation in time, and an optimistic market can be bonded. -/
structure Alive (args : InitializeHybridMarketArgs) : Prop where
  inTime : InTime args.oracle args.resolutionDeadlineTs
  postable : Postable args 0

/-- The clock values of a run, from its start on, do not decrease. -/
def Chronological (now : Int) (tr : List Event) : Prop :=
  (now :: tr.filterMap Event.time?).Pairwise (· ≤ ·)

/-- Some run of well-formed events of a kind, with a supply of the mint all along, resolves the
market to YES or NO. -/
def CanResolve (rt : Runtime) (kind : Event → Prop) (now : Int) (init : HybridState) : Prop :=
  ∃ tr s, Run (SuppliedStep rt) init tr s ∧ (∀ event ∈ tr, WellFormed event ∧ kind event) ∧
    Chronological now tr ∧
    (s.market.outcome = HybridMarket.outcomeYes ∨ s.market.outcome = HybridMarket.outcomeNo)

/-! ## Only an alive configuration resolves -/

theorem configured_step {event : Event} (h : Step rt s event s') :
    configured s'.oracle = configured s.oracle := by
  cases step_effect h with
  | opened h => rw [h.accounts.oracle]
  | traded _ h => rw [h.accounts.oracle]
  | locked h => rw [h.accounts.oracle]
  | proposed h => rw [h.oracle]; rfl
  | challenged _ h => rw [h.oracle]
  | resolved _ h => rw [h.oracle]; rfl
  | bondClaimed h => rw [h.oracle]
  | settled h => rw [h.accounts.oracle]
  | withdrew h => rw [h.accounts.oracle]
  | deposited _ h => rw [h.oracle]

/-- A proposal is made in time and with a bond that fits beside the vault, and no other step makes
one. -/
theorem proposal_step {event : Event} (hs : Supplied s) (hkind : event.isResolution = false)
    (hno : s.proposal = none) (h : Step rt s event s') :
    s'.proposal = none ∨ InTime (configured s.oracle) s.market.resolutionDeadlineTs ∧
      (s.market.phase = .open ∨ s.market.phase = .locked) ∧
      s.oracle.bondAmount + s.vault ≤ u64Max := by
  cases step_effect h with
  | opened h => exact .inl (h.accounts.proposal.trans hno)
  | traded _ h => exact .inl (h.accounts.proposal.trans hno)
  | locked h => exact .inl (h.accounts.proposal.trans hno)
  | proposed hproposed =>
    cases h with
    | call _ hexec =>
      refine .inr ⟨⟨hproposed.window, ?_⟩, hproposed.phase, posted_fits hs hexec⟩
      simp only [configured, hproposed.optimistic]
      exact hproposed.period
  | challenged _ h =>
    obtain ⟨p, -, hp, -⟩ := h.proposal
    rw [hno] at hp
    cases hp
  | resolved hres _ => rw [Event.isResolution, hres] at hkind; cases hkind
  | bondClaimed h =>
    obtain ⟨p, hp, -⟩ := h.finalized
    rw [hno] at hp
    cases hp
  | settled h => exact .inl (h.accounts.proposal.trans hno)
  | withdrew h => exact .inl (h.accounts.proposal.trans hno)
  | deposited _ h => exact .inl (h.proposal.trans hno)

/-- The configuration and the deadline of a state are those of the arguments, and unless those
allow an outcome there is no proposal and no YES or NO. -/
structure Backed (args : InitializeHybridMarketArgs) (slack : Nat) (s : HybridState) : Prop where
  oracle : configured s.oracle = args.oracle
  deadline : s.market.resolutionDeadlineTs = args.resolutionDeadlineTs
  alive : (InTime args.oracle args.resolutionDeadlineTs ∧ Postable args slack) ∨
    s.proposal = none ∧ ¬(s.market.outcome = HybridMarket.outcomeYes ∨
      s.market.outcome = HybridMarket.outcomeNo)

section Backed

variable {args : InitializeHybridMarketArgs} {slack : Nat}

theorem Backed.step {event : Event} (hB : Backed args slack s) (hs : Supplied s)
    (hroom : ∀ subsidy,
      Lmsr.requiredSubsidy args.liquidityParameter args.roundingReserve = .ok subsidy →
        s.market.phase = .open ∨ s.market.phase = .locked → subsidy ≤ s.vault + slack)
    (hformed : WellFormed event) (h : Step rt s event s') : Backed args slack s' := by
  have hdeadline := field_of_terms HybridMarket.resolutionDeadlineTs (fun _ => rfl)
    (step_effect h).terms
  refine ⟨(configured_step h).trans hB.oracle, hdeadline.trans hB.deadline, ?_⟩
  rcases hB.alive with halive | ⟨hno, hundecided⟩
  · exact .inl halive
  cases hkind : event.isResolution with
  | false =>
    rw [outcome_step hkind h]
    rcases proposal_step hs hkind hno h with hno' | ⟨hinTime, hphase, hposted⟩
    · exact .inr ⟨hno', hundecided⟩
    · rw [hB.oracle, hB.deadline] at hinTime
      refine .inl ⟨hinTime, fun _ subsidy hsubsidy => ?_⟩
      have hbond : s.oracle.bondAmount = args.oracle.bondAmount :=
        congrArg OracleConfigArgs.bondAmount hB.oracle
      have hvault := hroom subsidy hsubsidy hphase
      omega
  | true =>
    cases h with
    | call _ hexec =>
      obtain ⟨hno', hyesno⟩ := resolution_inTime hkind hformed hno hexec
      by_cases hdecided : s'.market.outcome = HybridMarket.outcomeYes ∨
          s'.market.outcome = HybridMarket.outcomeNo
      · obtain ⟨hresolver, hinTime⟩ := hyesno hdecided
        rw [hB.oracle, hB.deadline] at hinTime
        have hsame : s.oracle.resolver = args.oracle.resolver :=
          congrArg OracleConfigArgs.resolver hB.oracle
        exact .inl ⟨hinTime, fun hoptimistic => absurd (hsame.trans hoptimistic) hresolver⟩
      · exact .inr ⟨hno', hdecided⟩
    | _ => cases hkind

theorem backed_created {now : Int} (hinit : Created rt args now init) :
    Backed args slack init := by
  obtain ⟨engine, tokens, creator, creatorToken, h⟩ := hinit
  obtain ⟨-, -, -, _, _, -, -, hmarket, horacle, hproposal, -⟩ := initializeHybridMarket_ok h
  refine ⟨by rw [horacle]; rfl, by rw [hmarket]; rfl, .inr ⟨hproposal, ?_⟩⟩
  rw [hmarket]
  rintro (h | h) <;> cases h

/-- Along a run whose vault keeps the subsidy up to some slack, what resolves was alive up to it. -/
theorem backed_run {kind : Event → Prop} {I : HybridState → Prop} {now : Int}
    (hinit : Created rt args now init) (hsupply : Supplied init) (hstart : I init)
    (hI : ∀ s event s', I s → kind event → Step rt s event s' → I s')
    (hroom : ∀ s subsidy, I s → Subsidised subsidy s →
      s.market.phase = .open ∨ s.market.phase = .locked → subsidy ≤ s.vault + slack)
    (h : CanResolve rt kind now init) :
    InTime args.oracle args.resolutionDeadlineTs ∧ Postable args slack := by
  obtain ⟨tr, s, hrun, hformed, -, hyesno⟩ := h
  have hbacked : (∀ event ∈ tr, WellFormed event ∧ kind event) →
      Supplied s ∧ I s ∧ (∀ subsidy,
        Lmsr.requiredSubsidy args.liquidityParameter args.roundingReserve = .ok subsidy →
          Subsidised subsidy s) ∧ Backed args slack s := by
    refine hrun.history (I := fun tr s => (∀ event ∈ tr, WellFormed event ∧ kind event) →
      Supplied s ∧ I s ∧ (∀ subsidy,
        Lmsr.requiredSubsidy args.liquidityParameter args.roundingReserve = .ok subsidy →
          Subsidised subsidy s) ∧ Backed args slack s) ?_ ?_
    · rintro tr s event s' ih ⟨hstep, hsupplied⟩ hall
      rw [List.forall_mem_append] at hall
      obtain ⟨hs, hi, hsubsidised, hB⟩ := ih hall.1
      obtain ⟨hwell, hkind⟩ := hall.2 event (List.mem_singleton_self event)
      refine ⟨hsupplied, hI s event s' hi hkind hstep,
        fun subsidy hsubsidy => (hsubsidised subsidy hsubsidy).step hstep,
        hB.step hs (fun subsidy hsubsidy => hroom s subsidy hi (hsubsidised subsidy hsubsidy))
          hwell hstep⟩
    · exact fun _ => ⟨hsupply, hstart, fun _ => subsidised_created hinit, backed_created hinit⟩
  obtain ⟨-, -, -, hB⟩ := hbacked hformed
  exact hB.alive.resolve_right fun h => h.2 hyesno

/-- **What resolves was alive**, up to the noise of the cost function in the vault. -/
theorem CanResolve.inTime {kind : Event → Prop} {now : Int} (hinit : Created rt args now init)
    (hsupply : Supplied init) (h : CanResolve rt kind now init) :
    InTime args.oracle args.resolutionDeadlineTs ∧ Postable args 183 :=
  backed_run (I := fun _ => True) hinit hsupply trivial (fun _ _ _ _ _ _ => trivial)
    (fun _ _ _ hsubsidised => hsubsidised.vault) h

/-- **What resolves without a trade was alive.** -/
theorem CanResolve.alive {now : Int} (hinit : Created rt args now init) (hsupply : Supplied init)
    (h : CanResolve rt Untraded now init) : Alive args := by
  have hstart : lmsrQuantities init.market = ⟨0, 0⟩ := by
    obtain ⟨engine, tokens, creator, creatorToken, h⟩ := hinit
    obtain ⟨-, -, -, _, _, -, -, hmarket, -⟩ := initializeHybridMarket_ok h
    rw [hmarket]
    rfl
  have hexact : InTime args.oracle args.resolutionDeadlineTs ∧ Postable args 0 :=
    backed_run (I := fun s => lmsrQuantities s.market = ⟨0, 0⟩) hinit hsupply hstart
      (fun _ _ _ hnone hkind hstep => (quantities_untraded hkind hstep).trans hnone)
      (fun _ _ hnone hsubsidised => hsubsidised.vault_of_untraded hnone) h
  exact ⟨hexact.1, hexact.2⟩

end Backed

/-! ## An alive configuration resolves -/

/-- The widths of the arguments and of the clock. -/
structure WellTyped (args : InitializeHybridMarketArgs) (now : Int) : Prop where
  now : i64Min ≤ now
  deadline : args.resolutionDeadlineTs ≤ i64Max
  challengePeriod : args.oracle.challengePeriodSecs ≤ u32Max
  bond : args.oracle.bondAmount ≤ u64Max

section Complete

variable {args : InitializeHybridMarketArgs} {now : Int}

/-- A just created market. -/
structure Fresh (args : InitializeHybridMarketArgs) (now : Int) (init : HybridState) : Prop where
  phase : init.market.phase = .open
  lockTs : init.market.lockTs = args.lockTs
  resolveNotBeforeTs : init.market.resolveNotBeforeTs = args.resolveNotBeforeTs
  resolutionDeadlineTs : init.market.resolutionDeadlineTs = args.resolutionDeadlineTs
  oracle : configured init.oracle = args.oracle
  consumed : init.oracle.consumed = false
  optimisticProposal : init.oracle.optimisticProposal = Pubkey.default
  proposal : init.proposal = none
  receipt : init.receipt = none
  bondVault : init.bondVault = 0
  times : now < args.lockTs ∧ args.lockTs ≤ args.resolveNotBeforeTs ∧
    args.resolveNotBeforeTs ≤ init.oracle.observationTs
  fields : validateResolverFields init.market.category (configured init.oracle) = .ok ()

theorem fresh_created (hinit : Created rt args now init) : Fresh args now init := by
  obtain ⟨engine, tokens, creator, creatorToken, h⟩ := hinit
  obtain ⟨-, ⟨-, -, -, -, -, -, -, -, -, hnow, hlock, -⟩, hconfig, _, _, -, -, hmarket, horacle,
    hproposal, hreceipt, -, -, hbond⟩ := initializeHybridMarket_ok h
  simp only [validateOracleConfig, bind_eq_ok, check_eq_ok] at hconfig
  obtain ⟨-, ⟨-, -, hobserved, -⟩, hfields⟩ := hconfig
  refine ⟨?_, ?_, ?_, ?_, ?_, ?_, ?_, hproposal, hreceipt, hbond, ⟨hnow, hlock, ?_⟩, ?_⟩
  · rw [hmarket]; rfl
  · rw [hmarket]; rfl
  · rw [hmarket]; rfl
  · rw [hmarket]; rfl
  · rw [horacle]; rfl
  · rw [horacle]; rfl
  · rw [horacle]; rfl
  · rw [horacle]; exact hobserved
  · rw [hmarket, horacle]; exact hfields

/-- A resolution moves no tokens. -/
theorem finalizeWith_supplied {args : FinalizeHybridResolutionArgs}
    (hvault : args.vaultBalance = s.vault) (hs : Supplied s) (h : finalizeWith s args = .ok s') :
    Supplied s' := by
  have hresolved := finalizeWith_ok hvault h
  obtain ⟨_, hmarket⟩ := hresolved.market
  refine hs.of_same ?_ (by rw [hmarket]) hresolved.vault hresolved.bondVault
  simp only [finalizeWith, bind_eq_ok, Except.ok.injEq] at h
  obtain ⟨done, -, rfl⟩ := h
  rfl

/-- The finaliser resolves a just created market to what an oracle attests in time. -/
theorem canResolve_attested (hI : Inv rt init) (hF : Fresh args now init) (hsupply : Supplied init)
    (htyped : WellTyped args now) (instruction : Instruction) (hquiet : instruction.isTrade = false)
    (time : Int)
    (hformed : i64Min ≤ time → time ≤ i64Max → WellFormed (.call instruction ⟨0, time⟩))
    (hsigned : instruction.signed) (hfrom : init.oracle.observationTs ≤ time)
    (hto : time ≤ args.resolutionDeadlineTs) (source : Pubkey)
    {observation : NormalizedObservation}
    (hyesno : observation.outcome = HybridMarket.outcomeYes ∨
      observation.outcome = HybridMarket.outcomeNo) (digest : Bytes32)
    (hdigest : digest ≠ zeroBytes)
    (hexec : execute rt init ⟨0, time⟩ instruction =
      finalizeWith init ⟨source, observation, digest, time, init.vault, false⟩) :
    CanResolve rt Untraded now init := by
  obtain ⟨hnow, hlock, hready⟩ := hF.times
  have hlow := htyped.now
  have hhigh := htyped.deadline
  have hresolvable : Resolvable init.market observation.outcome time false := by
    refine ⟨.inl hF.phase, ?_, ?_, ?_⟩
    · rw [hF.lockTs]
      omega
    · rw [hF.resolveNotBeforeTs]
      omega
    · rw [checkResolutionTime_false, hF.resolutionDeadlineTs]
      exact ⟨hto, hyesno⟩
  obtain ⟨s', hs'⟩ := finalizeWith_succeeds hI
    ⟨source, observation, digest, time, init.vault, false⟩ hresolvable (hyesno.imp_right .inl) rfl
    hdigest
  obtain ⟨_, hmarket⟩ := (finalizeWith_ok rfl hs').market
  refine ⟨_, s', .single ⟨.call hsigned (hexec.trans hs'), finalizeWith_supplied rfl hsupply hs'⟩,
    ?_, ?_, by rw [hmarket]; exact hyesno⟩
  · intro event hevent
    rw [List.mem_singleton.mp hevent]
    refine ⟨hformed (by omega) (by omega), ?_⟩
    rintro _ _ ⟨⟩
    exact hquiet
  · simp [Chronological, Event.time?]
    omega

theorem resolverAccounts_fresh (hF : Fresh args now init) {resolver : OracleResolver}
    (hresolver : init.oracle.resolver = resolver) : resolverAccounts init resolver = .ok () :=
  resolverAccounts_ok.mpr ⟨hresolver, hF.consumed, by rw [hF.receipt]; rfl⟩

section Oracles

variable (hI : Inv rt init) (hF : Fresh args now init) (hsupply : Supplied init)
  (htyped : WellTyped args now) (hdigest : ∀ data, rt.sha256 data ≠ zeroBytes)
  (hwindow : init.oracle.observationTs + init.oracle.observationWindowSecs ≤ i64Max)

include hI hF hsupply htyped hdigest hwindow

theorem canResolve_pyth (hresolver : init.oracle.resolver = .pythPrice)
    (hattests : PythAttests rt)
    (hdeadline : init.oracle.observationTs ≤ args.resolutionDeadlineTs) :
    CanResolve rt Untraded now init := by
  have hfields := hF.fields
  simp only [validateResolverFields, configured, hresolver, check_eq_ok] at hfields
  obtain ⟨-, hprogram, -, hexponent, -, -, -, hbps, -⟩ := hfields
  obtain ⟨hnow, hlock, hready⟩ := hF.times
  have hlow := htyped.now
  obtain ⟨priceUpdate, validated, hvalidated, hyesno⟩ := validatePythAccount_of hresolver hprogram
    hexponent hbps hattests (by omega) hwindow (show (Clock.mk 0 init.oracle.observationTs).unixTimestamp = _ from rfl)
  refine canResolve_attested hI hF hsupply htyped (.resolveHybridWithPyth priceUpdate) rfl _
    (fun h h' => ⟨h, h', trivial⟩) trivial le_rfl hdeadline priceUpdate.key hyesno
    (pythEvidenceHash rt init priceUpdate validated) (hdigest _) ?_
  simp only [execute, resolveHybridWithPyth, resolverAccounts_fresh hF hresolver, hvalidated,
    ok_bind]

theorem canResolve_stork (hresolver : init.oracle.resolver = .storkPrice)
    (hreportable : Reportable (configured init.oracle) args.resolutionDeadlineTs
      lastStorkSecond) : CanResolve rt Untraded now init := by
  have hfields := hF.fields
  simp only [validateResolverFields, configured, hresolver, check_eq_ok] at hfields
  obtain ⟨-, hprogram, hqueue, hexponent, -⟩ := hfields
  obtain ⟨hnow, hlock, hready⟩ := hF.times
  have hlow := htyped.now
  obtain ⟨feedAccount, observation, hobservation, hyesno⟩ := validateStorkAccount_of rt
    hresolver hprogram hqueue hexponent (by omega) hwindow hreportable
    (show (Clock.mk 0 (max init.oracle.observationTs 0)).unixTimestamp = _ from rfl)
  simp only [Reportable, configured] at hreportable
  refine canResolve_attested hI hF hsupply htyped (.resolveHybridWithStork feedAccount) rfl (max _ 0)
    (fun h h' => ⟨h, h', trivial⟩) trivial (le_max_left _ _) (by omega) feedAccount.key hyesno
    (storkEvidenceHash rt init feedAccount observation) (hdigest _) ?_
  simp only [execute, resolveHybridWithStork, resolverAccounts_fresh hF hresolver, hobservation,
    ok_bind]

theorem canResolve_txline (hresolver : init.oracle.resolver = .txlineStat)
    (hreportable : Reportable (configured init.oracle) args.resolutionDeadlineTs
      lastTxlineSecond) (hexpressible : Expressible (configured init.oracle)) :
    CanResolve rt Untraded now init := by
  have hfields := hF.fields
  simp only [validateResolverFields, configured, hresolver, check_eq_ok] at hfields
  obtain ⟨hcategory, hprogram, -, -, hrange, -, -, -, hsource⟩ := hfields
  obtain ⟨hnow, hlock, hready⟩ := hF.times
  have hlow := htyped.now
  obtain ⟨payload, dailyRoot, txlineProgram, observation, hpayload, hobservation, hyesno⟩ :=
    resolveHybridTotalGoals_of rt hcategory hresolver hprogram hrange hsource (by omega)
      hwindow hreportable hexpressible
  simp only [Reportable, configured] at hreportable
  refine canResolve_attested hI hF hsupply htyped
    (.resolveHybridWithTxline ⟨payload, dailyRoot, txlineProgram, attestingTxline⟩) rfl (max _ 0)
    (fun h h' => ⟨h, h', hpayload, rfl⟩) trivial (le_max_left _ _) (by omega) dailyRoot.key hyesno
    (txlineEvidenceHash rt init ⟨payload, dailyRoot, txlineProgram, attestingTxline⟩)
    (hdigest _) ?_
  simp only [execute, resolveHybridWithTxline, resolverAccounts_fresh hF hresolver, hobservation,
    ok_bind]

theorem canResolve_switchboard (hresolver : init.oracle.resolver = .switchboardQuote)
    (hattests : SwitchboardAttests rt)
    (hdeadline : init.oracle.observationTs ≤ args.resolutionDeadlineTs) :
    CanResolve rt Untraded now init := by
  have hfields := hF.fields
  simp only [validateResolverFields, configured, hresolver, check_eq_ok] at hfields
  obtain ⟨-, -, hprogram, hqueue, hexponent, -, -, -, hsamples, -⟩ := hfields
  obtain ⟨hnow, hlock, hready⟩ := hF.times
  have hlow := htyped.now
  obtain ⟨quoteAccount, observation, hobservation, hyesno⟩ := validateSwitchboardAccount_of
    hresolver hprogram hqueue hexponent hsamples hattests
    (by omega) hwindow (show (Clock.mk 0 init.oracle.observationTs).slot = 0 from rfl) rfl
  refine canResolve_attested hI hF hsupply htyped (.resolveHybridWithSwitchboard quoteAccount) rfl _
    (fun h h' => ⟨h, h', trivial⟩) trivial le_rfl hdeadline quoteAccount.key hyesno
    (switchboardEvidenceHash rt init quoteAccount observation) (hdigest _) ?_
  simp only [execute, resolveHybridWithSwitchboard, resolverAccounts_fresh hF hresolver,
    hobservation, ok_bind]

end Oracles

/-! ### An unchallenged proposal -/

def proposer : Pubkey := Bytes.fill 32 1

def evidenceUri : List Char := "https://a".toList

def assertion (rt : Runtime) (market : Pubkey) : ProposeOptimisticArgs where
  outcome := HybridMarket.outcomeYes
  assertionHash := optimisticEvidenceHash rt assertionDomain market HybridMarket.outcomeYes
    evidenceUri
  evidenceUri := evidenceUri

/-- The tokens of a supply that the vault does not hold, all of them in the proposer's account. -/
def proposerTokens (s : HybridState) : Tokens := fun key =>
  ⟨key, s.market.collateralMint, if key = proposer then u64Max - s.vault else 0⟩

theorem proposerTokens_self : (proposerTokens s proposer).amount = u64Max - s.vault := by
  simp only [proposerTokens, if_true]

theorem proposerTokens_of_ne {key : Pubkey} (h : key ≠ proposer) :
    (proposerTokens s key).amount = 0 := if_neg h

/-- A funded proposer can propose at the observation time, and its bond leaves a supply. -/
theorem propose_fresh (rt : Runtime) (hF : Fresh args now s) (htyped : WellTyped args now)
    (hfunded : s.tokens = proposerTokens s) (hfits : args.oracle.bondAmount + s.vault ≤ u64Max)
    (hwindow : s.oracle.observationTs + s.oracle.observationWindowSecs ≤ i64Max)
    (hresolver : s.oracle.resolver = .optimistic)
    (hdeadline : s.oracle.observationTs + s.oracle.challengePeriodSecs <
      args.resolutionDeadlineTs) :
    ∃ s', proposeOptimisticResolution rt s proposer proposer (assertion rt (s.marketKey rt))
        s.oracle.observationTs = .ok s' ∧ Supplied s' ∧
      s'.proposal = some (newProposal s (s.marketKey rt) proposer proposer
        (assertion rt (s.marketKey rt)) s.oracle.observationTs
        (s.oracle.observationTs + s.oracle.challengePeriodSecs)) := by
  obtain ⟨hnow, hlock, hready⟩ := hF.times
  have hlow := htyped.now
  have hhigh := htyped.deadline
  have hbond : s.oracle.bondAmount = args.oracle.bondAmount :=
    congrArg OracleConfigArgs.bondAmount hF.oracle
  have hamount : (s.tokens proposer).amount = u64Max - s.vault := by
    rw [hfunded]
    exact proposerTokens_self
  have hvalid : validateOptimisticProposal rt (s.marketKey rt) s.market s.oracle
      ⟨HybridMarket.outcomeYes, (assertion rt (s.marketKey rt)).assertionHash, evidenceUri⟩
      s.oracle.observationTs = .ok (s.oracle.observationTs + s.oracle.challengePeriodSecs) := by
    simp only [validateOptimisticProposal, bind_eq_ok, check_eq_ok, orFail_eq_ok,
      checkedAddInt_eq_some, hF.lockTs, hF.resolveNotBeforeTs, hF.resolutionDeadlineTs]
    exact ⟨(), .inl hF.phase, (), ⟨by omega, by omega, le_rfl, by omega⟩, _,
      ⟨⟨by omega, hwindow⟩, rfl⟩, (), by omega, (),
      ⟨by decide, rfl, .inl trivial, hF.optimisticProposal, hF.consumed⟩, _,
      ⟨⟨by omega, by omega⟩, rfl⟩, (), hdeadline, rfl⟩
  obtain ⟨balances, hbalances⟩ := transferToVault_of s.tokens proposer s.bondVault
    (show s.oracle.bondAmount ≤ (s.tokens proposer).amount by omega)
    (by rw [hF.bondVault]; omega)
  obtain ⟨hothers, hproposer⟩ := transferToVault_source hbalances
  have hposted := (transferToVault_ok hbalances).1
  have hempty := hF.bondVault
  simp only [proposeOptimisticResolution, bind_eq_ok, check_eq_ok, require_eq_ok,
    checkTokenAccount_ok]
  refine ⟨_, ⟨(), hresolver, (), hF.consumed, (), by rw [hF.proposal]; rfl, (),
    ⟨by rw [hfunded]; rfl, by rw [hfunded]; rfl⟩, _, hvalid, _, hbalances, rfl⟩,
    supplied_of_holder proposer (fun key hkey => ?_) ?_, rfl⟩
  · show (balances.tokens key).amount = 0
    rw [hothers key hkey, hfunded]
    exact proposerTokens_of_ne hkey
  · show (balances.tokens proposer).amount + s.vault + balances.vault ≤ u64Max
    omega

/-- After its challenge period and up to the deadline an unchallenged proposal is finalised. -/
theorem finalize_unchallenged (hI : Inv rt s) (hdigest : ∀ data, rt.sha256 data ≠ zeroBytes)
    (hphase : s.market.phase = .resolving) {p : OptimisticProposal} (hp : s.proposal = some p)
    (houtcome : p.proposedOutcome = HybridMarket.outcomeYes ∨
      p.proposedOutcome = HybridMarket.outcomeNo) {time : Int}
    (hready : s.market.resolveNotBeforeTs ≤ time) (hover : p.challengeDeadline < time)
    (hdeadline : time ≤ s.market.resolutionDeadlineTs) :
    ∃ s', finalizeOptimisticResolution rt s time = .ok s' ∧
      s'.market.outcome = p.proposedOutcome := by
  obtain ⟨hpending, hproposalKey, _, hp', hunpaid, hchallenger, hbond⟩ :=
    hI.phase.resolving hphase
  rw [hp, Option.some.injEq] at hp'
  subst hp'
  have hbondFits := hI.bondFits
  have htimes := hI.times
  have hdecision : optimisticFinalizeOutcome s.market p time =
      .ok (p.proposedOutcome, false) := by
    simp only [optimisticFinalizeOutcome, bind_eq_ok, check_eq_ok, if_neg (not_lt.mpr hdeadline)]
    exact ⟨(), ⟨hphase, hunpaid.finalized, hchallenger⟩, (), hover, trivial⟩
  obtain ⟨t, ht⟩ := finalizeWith_succeeds hI
    ⟨s.proposalKey rt, optimisticObservation p.proposedOutcome time,
      finalizeEvidenceHash rt s p false, time, s.vault, false⟩
    ⟨.inr (.inr (.inl hphase)), htimes.1.trans hready, hready,
      checkResolutionTime_false.mpr ⟨hdeadline, houtcome⟩⟩ (houtcome.imp_right .inl) rfl
    (hdigest _)
  obtain ⟨_, hmarket⟩ := (finalizeWith_ok rfl ht).market
  have hdeposited : depositedBonds p = .ok (p.bondAmount + 0) := if_pos hchallenger
  obtain ⟨p', hp'⟩ := recordOptimisticPayouts_of hunpaid hdeposited (by omega)
  simp only [finalizeOptimisticResolution, bind_eq_ok, proposalAccounts_ok, resolutionAccounts_ok]
  exact ⟨_, ⟨p, ⟨hproposalKey, hpending.fresh, hp⟩, (), ⟨hpending.fresh, hpending.noReceipt⟩, _,
    hdecision, t, ht, p', hp', rfl⟩, by rw [hmarket]; rfl⟩

/-- Finalising a proposal moves no tokens. -/
theorem finalizeOptimistic_supplied {time : Int} (hs : Supplied s)
    (h : finalizeOptimisticResolution rt s time = .ok s') : Supplied s' := by
  simp only [finalizeOptimisticResolution, bind_eq_ok, Except.ok.injEq] at h
  obtain ⟨p, -, -, -, decision, -, t, ht, p', -, rfl⟩ := h
  have ht := finalizeWith_supplied rfl hs ht
  exact ht.of_same rfl rfl rfl rfl

/-- A funded proposer proposes YES, nobody challenges, and the proposal is finalised. -/
theorem canResolve_optimistic (hI : Inv rt init) (hF : Fresh args now init)
    (htyped : WellTyped args now) (hdigest : ∀ data, rt.sha256 data ≠ zeroBytes)
    (hwindow : init.oracle.observationTs + init.oracle.observationWindowSecs ≤ i64Max)
    (hresolver : init.oracle.resolver = .optimistic)
    (hdeadline : init.oracle.observationTs + init.oracle.challengePeriodSecs <
      args.resolutionDeadlineTs) (hfits : args.oracle.bondAmount + init.vault ≤ u64Max) :
    CanResolve rt Untraded now init := by
  obtain ⟨hnow, hlock, hready⟩ := id hF.times
  have hlow := htyped.now
  have hhigh := htyped.deadline
  let tokens : Tokens := proposerTokens init
  have hfund : Step rt init (.external tokens) { init with tokens } := .external
  have hfunded : Supplied { init with tokens } := by
    refine supplied_of_holder proposer (fun key hkey => proposerTokens_of_ne hkey) ?_
    show (proposerTokens init proposer).amount + init.vault + init.bondVault ≤ u64Max
    rw [proposerTokens_self, hF.bondVault]
    omega
  obtain ⟨t, ht, hsupplied, hproposal⟩ := propose_fresh (s := { init with tokens }) rt
    ⟨hF.1, hF.2, hF.3, hF.4, hF.5, hF.6, hF.7, hF.8, hF.9, hF.10, hF.11, hF.12⟩ htyped rfl hfits
    hwindow hresolver hdeadline
  have hpropose : Step rt { init with tokens } (.call (.proposeOptimisticResolution proposer proposer
      (assertion rt (init.marketKey rt))) ⟨0, init.oracle.observationTs⟩) t :=
    .call trivial ht
  have hmarket := (proposeOptimisticResolution_ok ht).market
  obtain ⟨s', hs', hfinal⟩ := finalize_unchallenged (inv_step (inv_step hI hfund) hpropose) hdigest
    (by rw [hmarket]) hproposal (.inl rfl)
    (show _ ≤ init.oracle.observationTs + init.oracle.challengePeriodSecs + 1 by
      rw [hmarket]
      simp only [hF.resolveNotBeforeTs]
      omega) (Int.lt_succ _) (by
      rw [hmarket]
      simp only [hF.resolutionDeadlineTs]
      omega)
  have hfinalize : Step rt t (.call .finalizeOptimisticResolution
      ⟨0, init.oracle.observationTs + init.oracle.challengePeriodSecs + 1⟩) s' := .call trivial hs'
  refine ⟨_, s', ((Run.single ⟨hfund, hfunded⟩).snoc ⟨hpropose, hsupplied⟩).snoc
    ⟨hfinalize, finalizeOptimistic_supplied hsupplied hs'⟩, ?_, ?_, .inl hfinal⟩
  · simp only [List.cons_append, List.nil_append, List.forall_mem_cons, WellFormed]
    refine ⟨⟨trivial, fun _ _ h => nomatch h⟩, ⟨⟨?_, ?_, trivial⟩, ?_⟩, ⟨⟨?_, ?_, trivial⟩, ?_⟩,
      fun _ h => nomatch h⟩
    all_goals first | omega | (rintro _ _ ⟨⟩; rfl)
  · show [now, init.oracle.observationTs,
      init.oracle.observationTs + init.oracle.challengePeriodSecs + 1].Pairwise (· ≤ ·)
    simp only [List.pairwise_cons, List.mem_cons, List.not_mem_nil, or_false, forall_eq_or_imp,
      forall_eq, List.Pairwise.nil, false_implies, implies_true, and_true]
    omega

/-! ### Every source -/

/-- The bond of a just created optimistic market fits beside its vault. -/
theorem Postable.vault (h : Postable args 0) (hinit : Created rt args now init) :
    args.oracle.resolver = .optimistic → args.oracle.bondAmount + init.vault ≤ u64Max := by
  intro hoptimistic
  obtain ⟨engine, tokens, creator, creatorToken, hinit⟩ := hinit
  obtain ⟨-, -, -, subsidy, _, hsubsidy, -, -, -, -, -, -, hvault, -⟩ :=
    initializeHybridMarket_ok hinit
  rw [hvault]
  exact h hoptimistic subsidy hsubsidy

/-- **What is alive resolves.** -/
theorem canResolve_of_alive (hinit : Created rt args now init) (hsupply : Supplied init)
    (htyped : WellTyped args now) (hdigest : ∀ data, rt.sha256 data ≠ zeroBytes)
    (hattests : Attests rt args.oracle.resolver) (halive : Alive args) :
    CanResolve rt Untraded now init := by
  have hI := inv_created hinit
  have hF := fresh_created hinit
  obtain ⟨⟨hwindow, halive⟩, hpostable⟩ := halive
  have hfits := hpostable.vault hinit
  rw [← hF.oracle] at hattests hwindow halive
  simp only [configured] at hattests hwindow halive
  cases hresolver : init.oracle.resolver with
  | pythPrice =>
    rw [hresolver] at hattests halive
    exact canResolve_pyth hI hF hsupply htyped hdigest hwindow hresolver hattests halive
  | storkPrice =>
    rw [hresolver] at halive
    exact canResolve_stork hI hF hsupply htyped hdigest hwindow hresolver halive
  | txlineStat =>
    rw [hresolver] at halive
    exact canResolve_txline hI hF hsupply htyped hdigest hwindow hresolver halive.1 halive.2
  | switchboardQuote =>
    rw [hresolver] at hattests halive
    exact canResolve_switchboard hI hF hsupply htyped hdigest hwindow hresolver hattests halive
  | optimistic =>
    rw [hresolver] at halive
    have hoptimistic : args.oracle.resolver = .optimistic :=
      (congrArg OracleConfigArgs.resolver hF.oracle).symm.trans hresolver
    exact canResolve_optimistic hI hF htyped hdigest hwindow hresolver halive (hfits hoptimistic)
  | umaWormhole => rw [hresolver] at halive; exact halive.elim
  | chainlinkReport => rw [hresolver] at halive; exact halive.elim

end Complete

/-- **Which markets can resolve to YES or NO.** A created market can, by some run of well-formed
events without a trade at a clock that does not go back, exactly when its configuration is alive;
and with trades, which leave the vault the subsidy but for the noise of the cost function, it can
only when its configuration is alive up to that noise. -/
theorem canResolve_iff_alive {args : InitializeHybridMarketArgs} {now : Int}
    (hinit : Created rt args now init) (hsupply : Supplied init) (htyped : WellTyped args now)
    (hdigest : ∀ data, rt.sha256 data ≠ zeroBytes)
    (hattests : Attests rt args.oracle.resolver) :
    (CanResolve rt Untraded now init ↔ Alive args) ∧
      (CanResolve rt (fun _ => True) now init →
        InTime args.oracle args.resolutionDeadlineTs ∧ Postable args 183) :=
  ⟨⟨fun h => h.alive hinit hsupply, canResolve_of_alive hinit hsupply htyped hdigest hattests⟩,
    fun h => h.inTime hinit hsupply⟩

namespace Sample

/-- The creator holds all there is of the mint. -/
def onlyCreator : Tokens := fun key => ⟨key, mint, if key = creator then 1000000000000 else 0⟩

theorem onlyCreator_of_ne {key : Pubkey} (h : key ≠ creator) : (onlyCreator key).amount = 0 :=
  if_neg h

def createdAlone (args : InitializeHybridMarketArgs) : Except Failure HybridState :=
  initializeHybridMarket runtime engine onlyCreator creator creator args 0

/-- A market created so is one, and leaves its mint a supply. -/
theorem createdAlone_ok {args : InitializeHybridMarketArgs} {init : HybridState}
    (h : createdAlone args = .ok init) : Created runtime args 0 init ∧ Supplied init :=
  ⟨⟨_, _, _, _, h⟩, supplied_created h (fun _ => onlyCreator_of_ne) (by decide)⟩

/-- The sample with an observation time after its deadline. -/
def lateArgs : InitializeHybridMarketArgs :=
  { args with oracle := { args.oracle with observationTs := 200000 } }

end Sample

/-- The market of the sample can resolve: its challenge period ends before its deadline, and its
bond and its subsidy are far below a supply. -/
theorem canResolve_iff_alive_sample : ∃ init, Sample.createdAlone Sample.args = .ok init ∧
    CanResolve Sample.runtime Untraded 0 init := by
  have hvalue : (Sample.createdAlone Sample.args).toOption.map (fun s => s.market.outcome) =
      some HybridMarket.outcomeUnset := by decide +kernel
  obtain ⟨init, hinit, -⟩ := Option.map_eq_some_iff.mp hvalue
  rw [toOption_eq_some] at hinit
  obtain ⟨hcreated, hsupply⟩ := Sample.createdAlone_ok hinit
  refine ⟨init, hinit, (canResolve_iff_alive hcreated hsupply
    ⟨by decide, by decide, by decide, by decide⟩ (fun _ => ?_) trivial).1.mpr ⟨⟨by decide, ?_⟩, ?_⟩⟩
  · exact show Sample.timeoutDigest ≠ zeroBytes by decide
  · exact show (1000 : Int) + 3600 < 100000 by decide
  · intro _ subsidy hsubsidy
    have hvalue : Lmsr.requiredSubsidy 100000000 2 = .ok 69314721 := by decide
    obtain rfl := Except.ok.inj (hvalue.symm.trans hsubsidy)
    decide

/-- Creation accepts an observation time after the deadline, and then nothing but the timeout is
left: no run of any events resolves the market to YES or NO. -/
theorem late_observation_is_dead_on_arrival :
    ∃ init, Created Sample.runtime Sample.lateArgs 0 init ∧ Supplied init ∧
      WellTyped Sample.lateArgs 0 ∧ ¬CanResolve Sample.runtime (fun _ => True) 0 init := by
  have hvalue : (Sample.createdAlone Sample.lateArgs).toOption.map (fun s => s.market.outcome) =
      some HybridMarket.outcomeUnset := by decide +kernel
  obtain ⟨init, hinit, -⟩ := Option.map_eq_some_iff.mp hvalue
  rw [toOption_eq_some] at hinit
  obtain ⟨hcreated, hsupply⟩ := Sample.createdAlone_ok hinit
  refine ⟨init, hcreated, hsupply, ⟨by decide, by decide, by decide, by decide⟩, fun h => ?_⟩
  exact absurd (h.inTime hcreated hsupply).1.2 (show ¬((200000 : Int) + 3600 < 100000) by decide)

end Nortia.Hybrid
