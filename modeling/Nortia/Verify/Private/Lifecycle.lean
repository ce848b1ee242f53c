import Nortia.Verify.Private.Invariant

/-!
# The life cycle of a private market

Two exits lead out of a private market, refunds and redemptions, and a run takes at most one of
them. Until one is taken the vault holds every stake that was not given back.
-/

namespace Nortia.PrivatePool

open Lib

variable {rt : PrivateRuntime} {s s' : PrivateState} {tr : List Event} {now : Int}

def Event.isRefund (e : Event) : Bool := e.refund?.isSome

/-! ## Escrow and refunds -/

theorem Inv.spent_of_unsettled (hI : Inv tr s) (h : Unsettled s.market) : spent s = 0 := by
  have hnil : s.claims = [] := List.length_eq_zero_iff.mp (hI.claims_length.trans h.claims)
  rw [spent, h.treasury, h.keeper, hnil]
  rfl

/-- While nothing is settled the vault holds the stakes not given back, and the donations. -/
theorem Inv.vault_of_unsettled (hI : Inv tr s) (h : Unsettled s.market) :
    s.vault + s.market.stakeAmount * s.market.refundedCount =
      s.market.stakeAmount * s.market.orderCount + donated tr := by
  have hbalance := hI.balance
  rwa [hI.spent_of_unsettled h, Nat.add_zero] at hbalance

theorem Inv.unsettled (hI : Inv tr s)
    (h : s.market.phase = .open ∨ s.market.phase = .batched ∨ s.market.phase = .refunding) :
    Unsettled s.market := by
  rcases h with h | h | h
  · exact ((phaseInv_open h).mp hI.phase).1
  · exact ((phaseInv_batched h).mp hI.phase).1
  · exact ((phaseInv_refunding h).mp hI.phase).1

theorem Inv.escrowed (hI : Inv tr s)
    (h : s.market.phase = .open ∨ s.market.phase = .batched ∨ s.market.phase = .refunding) :
    s.market.stakeAmount * (s.market.orderCount - s.market.refundedCount) ≤ s.vault := by
  have hvault := hI.vault_of_unsettled (hI.unsettled h)
  rw [Nat.mul_sub]
  omega

/-- An order is listed once, so it is refunded once. -/
theorem Inv.refunded_once (hI : Inv tr s) (commitment : Bytes32) :
    tr.countP (fun e => e.refund? = some commitment) ≤ 1 := by
  have hevents : tr.countP (fun e => e.refund? = some commitment) =
      tr.countP (fun e => e.refund?.any fun c => c = commitment) := by
    refine List.countP_congr fun e _ => ?_
    cases e.refund? <;> simp
  have horders : s.orders.countP (fun order => decide (order.commitment = commitment) &&
      order.refunded) ≤ (s.orders.map (·.commitment)).count commitment := by
    rw [List.count, List.countP_map]
    refine List.countP_mono_left fun order _ h => ?_
    simp only [Bool.and_eq_true, decide_eq_true_eq] at h
    simp [h.1]
  rw [hevents, hI.refunds fun c => c = commitment]
  exact horders.trans (List.nodup_iff_count_le_one.mp hI.orders_nodup commitment)

theorem Inv.countP_isRefund (hI : Inv tr s) :
    tr.countP Event.isRefund = s.market.refundedCount := by
  have hall := hI.refunds fun _ => true
  have hevents : tr.countP Event.isRefund = tr.countP (fun e => e.refund?.any fun _ => true) := by
    refine List.countP_congr fun e _ => ?_
    rw [Event.isRefund]
    cases e.refund? <;> simp
  rw [hevents, hall, ← hI.refunded]
  simp

/-- A market that redeemed anything never refunded anything. -/
theorem Inv.one_exit (hI : Inv tr s) :
    tr.countP Event.isRefund = 0 ∨ tr.countP Event.isRedeem = 0 := by
  rw [hI.countP_isRefund, hI.redeems]
  by_cases hclosed : s.market.phase = .closed
  · rcases (phaseInv_closed hclosed).mp hI.phase with ⟨hunsettled, -⟩ | ⟨hnone, -⟩
    · exact .inr hunsettled.claims
    · exact .inl hnone
  · by_cases hresolved : s.market.phase = .resolved
    · exact .inl ((phaseInv_resolved hresolved).mp hI.phase).1
    · refine .inr (hI.unsettled ?_).claims
      cases hphase : s.market.phase <;> simp_all

/-- **A refund that passes its checks is funded.** -/
theorem refundOrder_funded (hI : Inv tr s) (payer payerToken : Pubkey) (commitment : Bytes32) :
    refundOrder s payer payerToken commitment ≠ .error (.nortia .insufficientVaultBalance) ∧
      refundOrder s payer payerToken commitment ≠ .error .insufficientFunds := by
  have hfunded : s.market.phase = .refunding → s.market.stakeAmount ≤ s.vault := by
    intro hphase
    have hescrowed := hI.escrowed (.inr (.inr hphase))
    obtain ⟨-, hbelow⟩ := (phaseInv_refunding hphase).mp hI.phase
    refine le_trans ?_ hescrowed
    exact Nat.le_mul_of_pos_right _ (Nat.sub_pos_of_lt hbelow)
  have hfails : FailsIn (fun e => e ≠ .nortia .insufficientVaultBalance ∧ e ≠ .insufficientFunds)
      (refundOrder s payer payerToken commitment) := by
    simp only [refundOrder, checkTokenAccount, transferFromVault, Tokens.credit, failsIn_bind,
      failsIn_ok, failsIn_check, failsIn_orFail, failsIn_okOr, check_eq_ok, okOr_eq_ok,
      orFail_eq_ok, checkedSub_eq_none]
    refine ⟨by simp, fun order _ => ⟨by simp, fun _ _ => ⟨by simp, fun _ _ => ⟨by simp,
      fun _ hphase => ⟨by simp, fun _ _ => ⟨by simp, fun _ _ => ⟨⟨?_, fun _ _ => ⟨?_, ?_⟩⟩,
        by simp⟩⟩⟩⟩⟩⟩⟩
    · exact fun hlow => absurd (hfunded hphase) hlow
    · exact fun hlow => absurd (hfunded hphase) (Nat.not_le.mpr hlow)
    · simp
  exact ⟨fun h => (hfails _ h).1 rfl, fun h => (hfails _ h).2 rfl⟩

/-! ## Deadlines -/

/-- A batch and a refund are never both possible. -/
theorem submitBatch_or_beginRefund {remainingAccounts : List AccountInfo} {args : SubmitBatchArgs}
    {s₁ s₂ : PrivateState} (hsubmit : submitBatch s remainingAccounts args now = .ok s₁)
    (hrefund : beginRefund s now = .ok s₂) : False := by
  obtain ⟨hchecks, -⟩ := submitBatch_ok hsubmit
  obtain ⟨htimed, -⟩ := beginRefund_ok hrefund
  unfold timedOut at htimed
  rw [hchecks.phase] at htimed
  exact absurd hchecks.inTime (Int.not_le.mpr htimed)

/-- A resolution and a refund are never both possible. -/
theorem resolveMarket_or_beginRefund {accounts : ResolveAccounts} {finalSeq : Nat}
    {payload : Txline.StatValidationInput} {s₁ s₂ : PrivateState}
    (hresolve : resolveMarket rt s accounts finalSeq payload now = .ok s₁)
    (hrefund : beginRefund s now = .ok s₂) : False := by
  obtain ⟨_, _, _, _, _, hchecks, -⟩ := resolveMarket_ok hresolve
  obtain ⟨htimed, -⟩ := beginRefund_ok hrefund
  unfold timedOut at htimed
  rw [hchecks.phase] at htimed
  exact absurd hchecks.inTime (Int.not_le.mpr htimed)

/-! ## Closing -/

/-- The phases an instruction needs. -/
def Instruction.phases : Instruction → List MarketPhase
  | .syncMarketVerifiers .. | .placeOrder .. | .submitBatch .. => [.open]
  | .resolveMarket .. => [.batched]
  | .beginRefund => [.open, .batched]
  | .refundOrder .. => [.refunding]
  | .redeem .. => [.resolved]

theorem execute_phase {instruction : Instruction} (h : execute rt s now instruction = .ok s') :
    s.market.phase ∈ instruction.phases := by
  cases instruction with
  | syncMarketVerifiers protocol authority => simp [Instruction.phases, (syncMarketVerifiers_ok h).1.1]
  | placeOrder accounts args => simp [Instruction.phases, (placeOrder_ok h).1.phase]
  | submitBatch remainingAccounts args => simp [Instruction.phases, (submitBatch_ok h).1.phase]
  | resolveMarket accounts finalSeq payload =>
    obtain ⟨_, _, _, _, _, hchecks, -⟩ := resolveMarket_ok h
    simp [Instruction.phases, hchecks.phase]
  | beginRefund =>
    obtain ⟨htimed, -⟩ := beginRefund_ok h
    unfold timedOut at htimed
    split at htimed
    · next hphase => simp [Instruction.phases, hphase]
    · next hphase => simp [Instruction.phases, hphase]
    · exact htimed.elim
  | refundOrder payer payerToken commitment =>
    obtain ⟨_, hchecks, -⟩ := refundOrder_ok h
    simp [Instruction.phases, hchecks.phase]
  | redeem accounts args =>
    obtain ⟨_, _, hchecks, -⟩ := redeem_ok h
    simp [Instruction.phases, hchecks.phase]

/-- A closed market stays as it is: no instruction succeeds. -/
theorem execute_of_closed (hclosed : s.market.phase = .closed) (instruction : Instruction) :
    execute rt s now instruction ≠ .ok s' := by
  intro h
  have hphase := execute_phase h
  rw [hclosed] at hphase
  cases instruction <;> simp [Instruction.phases] at hphase

/-- What closes a market. -/
theorem step_closes {e : Event} (h : Step rt s e s') (hopen : s.market.phase ≠ .closed)
    (hclosed : s'.market.phase = .closed) :
    (∃ now, e = .call .beginRefund now ∧ s.market.orderCount = 0) ∨
      (e.isRefund = true ∧ s'.market.refundedCount = s'.market.orderCount) ∨
      (e.isRedeem = true ∧ s'.market.claimedCount = s'.market.orderCount) := by
  cases h with
  | @call _ instruction now hok =>
    cases instruction with
    | syncMarketVerifiers protocol authority =>
      obtain ⟨-, rfl⟩ := syncMarketVerifiers_ok hok
      exact absurd hclosed hopen
    | placeOrder accounts args =>
      obtain ⟨-, -, _, rfl⟩ := placeOrder_ok hok
      exact absurd hclosed hopen
    | submitBatch remainingAccounts args =>
      obtain ⟨-, rfl⟩ := submitBatch_ok hok
      exact absurd hclosed (by simp)
    | resolveMarket accounts finalSeq payload =>
      obtain ⟨_, _, _, _, _, -, rfl⟩ := resolveMarket_ok hok
      exact absurd hclosed (by simp [resolvedMarket])
    | beginRefund =>
      obtain ⟨-, rfl⟩ := beginRefund_ok hok
      refine .inl ⟨now, rfl, ?_⟩
      by_contra hsome
      simp only [hsome, if_false] at hclosed
      cases hclosed
    | refundOrder payer payerToken commitment =>
      obtain ⟨order, hchecks, rfl⟩ := refundOrder_ok hok
      refine .inr (.inl ⟨rfl, ?_⟩)
      by_contra hmore
      exact absurd ((if_neg hmore).symm.trans hclosed) hopen
    | redeem accounts args =>
      obtain ⟨amount, tokens, hchecks, -, -, rfl⟩ := redeem_ok hok
      refine .inr (.inr ⟨rfl, ?_⟩)
      by_contra hmore
      exact absurd ((if_neg hmore).symm.trans hclosed) hopen
  | donate => exact absurd hclosed hopen
  | external => exact absurd hclosed hopen

/-- Refunds have begun: they go on, or the last one closed the market. -/
def RefundsBegun (market : Market) : Prop :=
  market.phase = .refunding ∨
    (market.phase = .closed ∧ market.refundedCount = market.orderCount)

/-- Redemptions have begun: they go on, or the last one closed the market. -/
def RedemptionsBegun (market : Market) : Prop :=
  market.phase = .resolved ∨
    (market.phase = .closed ∧ market.claimedCount = market.orderCount)

theorem refundsBegun_step {e : Event} (hbegun : RefundsBegun s.market) (h : Step rt s e s') :
    RefundsBegun s'.market := by
  cases h with
  | @call _ instruction now hok =>
    rcases hbegun with hphase | ⟨hclosed, -⟩
    · have henabled := execute_phase hok
      rw [hphase] at henabled
      cases instruction with
      | refundOrder payer payerToken commitment =>
        obtain ⟨order, -, rfl⟩ := refundOrder_ok hok
        by_cases hlast : s.market.refundedCount + 1 = s.market.orderCount
        · exact .inr ⟨if_pos hlast, hlast⟩
        · exact .inl ((if_neg hlast).trans hphase)
      | _ => simp [Instruction.phases] at henabled
    · exact absurd hok (execute_of_closed hclosed instruction)
  | donate => exact hbegun
  | external => exact hbegun

theorem redemptionsBegun_step {e : Event} (hbegun : RedemptionsBegun s.market)
    (h : Step rt s e s') : RedemptionsBegun s'.market := by
  cases h with
  | @call _ instruction now hok =>
    rcases hbegun with hphase | ⟨hclosed, -⟩
    · have henabled := execute_phase hok
      rw [hphase] at henabled
      cases instruction with
      | redeem accounts args =>
        obtain ⟨amount, tokens, -, -, -, rfl⟩ := redeem_ok hok
        by_cases hlast : s.market.claimedCount + 1 = s.market.orderCount
        · exact .inr ⟨if_pos hlast, hlast⟩
        · exact .inl ((if_neg hlast).trans hphase)
      | _ => simp [Instruction.phases] at henabled
    · exact absurd hok (execute_of_closed hclosed instruction)
  | donate => exact hbegun
  | external => exact hbegun

/-- Once refunds have begun a market is closed exactly when it has refunded every order. -/
theorem Inv.closed_iff_refunded (hI : Inv tr s) (hbegun : RefundsBegun s.market) :
    s.market.phase = .closed ↔ s.market.refundedCount = s.market.orderCount := by
  rcases hbegun with hphase | ⟨hclosed, hall⟩
  · obtain ⟨-, hbelow⟩ := (phaseInv_refunding hphase).mp hI.phase
    refine ⟨fun h => absurd (hphase.symm.trans h) (by decide), fun h => ?_⟩
    exact absurd h (Nat.ne_of_lt hbelow)
  · exact ⟨fun _ => hall, fun _ => hclosed⟩

/-- Once redemptions have begun a market is closed exactly when it has paid every claim. -/
theorem Inv.closed_iff_claimed (hI : Inv tr s) (hbegun : RedemptionsBegun s.market) :
    s.market.phase = .closed ↔ s.market.claimedCount = s.market.orderCount := by
  rcases hbegun with hphase | ⟨hclosed, hall⟩
  · obtain ⟨-, hbelow, -⟩ := (phaseInv_resolved hphase).mp hI.phase
    refine ⟨fun h => absurd (hphase.symm.trans h) (by decide), fun h => ?_⟩
    exact absurd h (Nat.ne_of_lt hbelow)
  · exact ⟨fun _ => hall, fun _ => hclosed⟩

/-! ## Over every run -/

/-- The life cycle of a private market, at a state that a run with a trace has reached. -/
structure LifeCycle (rt : PrivateRuntime) (tr : List Event) (s : PrivateState) : Prop where
  escrowed : s.market.phase = .open ∨ s.market.phase = .batched ∨ s.market.phase = .refunding →
    s.market.stakeAmount * (s.market.orderCount - s.market.refundedCount) ≤ s.vault
  oneExit : tr.countP Event.isRefund = 0 ∨ tr.countP Event.isRedeem = 0
  refundedOnce : ∀ commitment, tr.countP (fun e => e.refund? = some commitment) ≤ 1
  refundsStake : ∀ payer payerToken commitment s',
    refundOrder s payer payerToken commitment = .ok s' →
      s'.vault + s.market.stakeAmount = s.vault ∧
      s'.tokens = s.tokens.setAmount payerToken
        ((s.tokens payerToken).amount + s.market.stakeAmount)
  refundFunded : ∀ payer payerToken commitment,
    refundOrder s payer payerToken commitment ≠ .error (.nortia .insufficientVaultBalance) ∧
      refundOrder s payer payerToken commitment ≠ .error .insufficientFunds
  batchOrRefund : ∀ now remainingAccounts args s₁ s₂,
    ¬(submitBatch s remainingAccounts args now = .ok s₁ ∧ beginRefund s now = .ok s₂)
  resolutionOrRefund : ∀ now accounts finalSeq payload s₁ s₂,
    ¬(resolveMarket rt s accounts finalSeq payload now = .ok s₁ ∧ beginRefund s now = .ok s₂)
  closes : ∀ e s', Step rt s e s' → s.market.phase ≠ .closed → s'.market.phase = .closed →
    (∃ now, e = .call .beginRefund now ∧ s.market.orderCount = 0) ∨
      (e.isRefund = true ∧ s'.market.refundedCount = s'.market.orderCount) ∨
      (e.isRedeem = true ∧ s'.market.claimedCount = s'.market.orderCount)
  afterRefunding : s.market.phase = .refunding → ∀ s', Reaches (Step rt) s s' →
    (s'.market.phase = .closed ↔ s'.market.refundedCount = s'.market.orderCount)
  afterResolution : s.market.phase = .resolved → ∀ s', Reaches (Step rt) s s' →
    (s'.market.phase = .closed ↔ s'.market.claimedCount = s'.market.orderCount)
  final : s.market.phase = .closed → ∀ now instruction s',
    execute rt s now instruction ≠ .ok s'

/-- **The life cycle over every run**, whatever the order of calls, their clocks and donations. -/
theorem life_cycle {init : PrivateState} (hinit : Created init) (hrun : Run (Step rt) init tr s) :
    LifeCycle rt tr s := by
  have hI : Inv tr s := inv_run hinit hrun
  constructor
  case escrowed => exact hI.escrowed
  case oneExit => exact hI.one_exit
  case refundedOnce => exact hI.refunded_once
  case refundsStake =>
    intro payer payerToken commitment s' h
    obtain ⟨order, hchecks, rfl⟩ := refundOrder_ok h
    exact ⟨Nat.sub_add_cancel hchecks.funds, rfl⟩
  case refundFunded => exact refundOrder_funded hI
  case batchOrRefund =>
    rintro now remainingAccounts args s₁ s₂ ⟨hsubmit, hrefund⟩
    exact submitBatch_or_beginRefund hsubmit hrefund
  case resolutionOrRefund =>
    rintro now accounts finalSeq payload s₁ s₂ ⟨hresolve, hrefund⟩
    exact resolveMarket_or_beginRefund hresolve hrefund
  case closes =>
    intro e s' h hopen hclosed
    exact step_closes h hopen hclosed
  case afterRefunding =>
    rintro hphase s' ⟨tr', hrest⟩
    have hbegun : RefundsBegun s'.market := hrest.invariant (I := fun t => RefundsBegun t.market)
      (fun _ _ _ hb h => refundsBegun_step hb h) (.inl hphase)
    exact (inv_run hinit (hrun.append hrest)).closed_iff_refunded hbegun
  case afterResolution =>
    rintro hphase s' ⟨tr', hrest⟩
    have hbegun : RedemptionsBegun s'.market :=
      hrest.invariant (I := fun t => RedemptionsBegun t.market)
        (fun _ _ _ hb h => redemptionsBegun_step hb h) (.inl hphase)
    exact (inv_run hinit (hrun.append hrest)).closed_iff_claimed hbegun
  case final =>
    intro hclosed now instruction s'
    exact execute_of_closed hclosed instruction

/-! ### A concrete market -/

namespace Sample

def creator : Pubkey := Bytes.fill 32 7
def alice : Pubkey := Bytes.fill 32 10

/-- The address the runtime derives for the market of `creator` with the id 1. -/
def marketKey : Pubkey :=
  ⟨[77, 83, 238, 199, 160, 44, 251, 115, 15, 79, 43, 183, 62, 62, 226, 74, 229, 70, 103, 5, 128,
    89, 137, 148, 184, 138, 39, 198, 249, 35, 0, 168], rfl⟩

/-- The address TxLINE derives for its scores of day 0. -/
def dailyScores : Pubkey :=
  ⟨[208, 58, 117, 190, 250, 88, 207, 251, 176, 71, 177, 41, 242, 37, 237, 187, 224, 49, 245, 223,
    84, 236, 112, 187, 183, 71, 171, 59, 86, 78, 15, 159], rfl⟩

/-- The digest of the payload this market is resolved with. -/
def evidence : Bytes32 :=
  ⟨[30, 53, 18, 226, 54, 42, 241, 68, 155, 229, 223, 85, 99, 60, 52, 183, 89, 208, 166, 247, 40,
    255, 118, 190, 70, 56, 245, 58, 209, 184, 81, 229], rfl⟩

/-- The derived addresses and the digest of this market, under some hash and verifiers. -/
def runtime (poseidon : Poseidon) (invokeVerifier : Pubkey → List UInt8 → Bool) :
    PrivateRuntime where
  sha256 := fun _ => evidence
  findProgramAddress := fun _ program => if program = crateId then marketKey else dailyScores
  deserializePriceUpdate := fun _ => none
  parseQuotePayload := fun _ => none
  poseidon
  invokeVerifier

def mint : Mint where
  key := Bytes.fill 32 9
  decimals := 6

def tokenProgram : Pubkey :=
  ⟨[6, 221, 246, 225, 215, 101, 161, 147, 217, 203, 225, 70, 206, 235, 121, 172, 28, 180, 133,
    237, 95, 91, 55, 145, 58, 140, 245, 133, 126, 255, 0, 169], rfl⟩

def protocol : ProtocolConfig where
  authority := Bytes.fill 32 2
  treasuryOwner := Bytes.fill 32 3
  feeBps := 100
  keeperRewardBps := 2500
  collateralMint := mint.key
  tokenProgram
  txlineProgram := txlineProgramId
  committee := [Bytes.fill 32 41, Bytes.fill 32 42, Bytes.fill 32 43]
  placementVerifier := Bytes.fill 32 51
  redeemVerifier := Bytes.fill 32 52

/-- Every key owns a token account at its own address. -/
def tokens : Tokens := fun key => { owner := key, mint := mint.key, amount := 1000000000000 }

def args : InitializeMarketArgs where
  marketId := 1
  category := .sports
  resolverKind := .txlineStat
  questionHash := Bytes.fill 32 1
  rulesHash := Bytes.fill 32 1
  fixtureId := 42
  totalGoalsThreshold := 2
  marketMode := .replay
  fixtureStartTs := 500
  lockTs := 1000
  batchDeadlineTs := 2000
  resolutionDeadlineTs := 3000
  stakeAmount := 5000000
  marketId_le := by decide

/-- The market as it is created at time 0. -/
def created : Except Failure PrivateState :=
  initializeMarket protocol tokens creator mint tokenProgram args 0

theorem created_of_ok {init : PrivateState} (h : created = .ok init) : Created init :=
  ⟨protocol, tokens, creator, mint, tokenProgram, args, 0, h⟩

/-- A witness as the provers write it: the number of public inputs, of secret ones, of both, and
the public inputs. -/
def witnessData (fields : List Bytes32) : List UInt8 :=
  beBytes 4 fields.length ++ beBytes 4 0 ++ beBytes 4 fields.length ++
    fields.flatMap Bytes.toList

/-- A proof of 388 bytes. -/
def proofData : List UInt8 := List.replicate 388 1

/-- The hash of the two halves of Alice's key. -/
def aliceHash : Field :=
  9791614118545219791690793166346052177838276005464518991509890087913067532726

def shares : ShareCommitments where
  first := Bytes.fill 32 61
  second := Bytes.fill 32 62
  third := Bytes.fill 32 63

/-- Alice's order, whose proof the verifier accepts. -/
def order : Instruction × Int :=
  (.placeOrder
    { payer := alice
      payerToken := alice
      placementVerifier := {
        key := protocol.placementVerifier
        owner := Pubkey.default
        executable := true
        isSigner := false
        data := [] } }
    { commitment := Bytes.fill 32 60
      shareCommitments := shares
      proof := proofData
      publicWitness := witnessData [Zk.fieldFromU64 1, Zk.fieldFromU64 5000000, Field.toBytes aliceHash,
        Bytes.fill 32 60, shares.first, shares.second, shares.third] }, 10)

/-- The order is placed, no batch comes, and the order is given back. -/
def refunded : List (Instruction × Int) :=
  [order, (.beginRefund, 2001), (.refundOrder alice alice (Bytes.fill 32 60), 2002)]

end Sample

/-- One order is placed and given back, which closes the market. -/
theorem life_cycle_sample : ∃ s : PrivateState,
    s.market.phase = .closed ∧ s.market.refundedCount = 1 ∧
      LifeCycle (Sample.runtime (fun _ _ => Sample.aliceHash) fun _ _ => true)
        (calls Sample.refunded) s := by
  have hrun : (Sample.created >>= fun init => executeAll (Sample.runtime
      (fun _ _ => Sample.aliceHash) fun _ _ => true) init Sample.refunded).toOption.map
        (fun s => (s.market.phase, s.market.refundedCount)) = some (.closed, 1) := by
    decide +kernel
  obtain ⟨init, s, hinit, hs, hfields⟩ := executeAll_of_map hrun
  rw [Prod.mk.injEq] at hfields
  exact ⟨s, hfields.1, hfields.2, life_cycle (Sample.created_of_ok hinit) (executeAll_run hs)⟩

end Nortia.PrivatePool
