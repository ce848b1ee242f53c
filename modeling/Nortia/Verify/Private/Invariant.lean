import Nortia.Verify.Private.Effects
import Mathlib.Data.List.Count

/-!
# The invariant of a private market

What holds in every state of every run, whatever the committee and the verifiers do: the counters
count, every token of the vault is accounted for, and a phase says which exits are still unused.
-/

namespace Nortia.PrivatePool

open Lib

variable {rt : PrivateRuntime} {s s' : PrivateState} {tr : List Event} {now : Int}

/-! ## Exits in a trace -/

/-- The order a refund is for. -/
def Event.refund? : Event → Option Bytes32
  | .call (.refundOrder _ _ commitment) _ => some commitment
  | _ => none

def Event.isRedeem : Event → Bool
  | .call (.redeem _ _) _ => true
  | _ => false

/-! ## Orders -/

theorem order?_isNone {commitment : Bytes32} :
    (s.order? commitment).isNone = true ↔ commitment ∉ s.orders.map (·.commitment) := by
  simp [PrivateState.order?, List.find?_eq_none]

theorem claim?_isNone {nullifierHash : Bytes32} :
    (s.claim? nullifierHash).isNone = true ↔ nullifierHash ∉ s.claims.map (·.nullifierHash) := by
  simp [PrivateState.claim?, List.find?_eq_none]

@[simp] theorem length_markRefunded (orders : List Order) (commitment : Bytes32) :
    (markRefunded orders commitment).length = orders.length := by
  simp [markRefunded]

@[simp] theorem map_commitment_markRefunded (orders : List Order) (commitment : Bytes32) :
    (markRefunded orders commitment).map (·.commitment) = orders.map (·.commitment) := by
  simp only [markRefunded, List.map_map]
  refine List.map_congr_left fun order _ => ?_
  simp only [Function.comp_apply]
  split <;> rfl

/-- Marking an order that is not listed changes nothing. -/
theorem markRefunded_of_notMem {orders : List Order} {commitment : Bytes32}
    (h : commitment ∉ orders.map (·.commitment)) : markRefunded orders commitment = orders := by
  have hsame : ∀ order ∈ orders, (if order.commitment = commitment then
      { order with refunded := true } else order) = order := by
    intro order horder
    rw [if_neg]
    rintro rfl
    exact h (List.mem_map_of_mem horder)
  unfold markRefunded
  rw [List.map_congr_left hsame, List.map_id']

/-- A refund marks its order and no other, whichever orders are counted. -/
theorem countP_markRefunded {orders : List Order} {commitment : Bytes32} {order : Order}
    (hnodup : (orders.map (·.commitment)).Nodup)
    (hfound : orders.find? (fun o => o.commitment = commitment) = some order)
    (hpending : order.refunded = false) (q : Bytes32 → Bool) :
    (markRefunded orders commitment).countP (fun o => q o.commitment && o.refunded) =
      orders.countP (fun o => q o.commitment && o.refunded) + (q commitment).toNat := by
  induction orders with
  | nil => simp at hfound
  | cons o rest ih =>
    rw [List.map_cons, List.nodup_cons] at hnodup
    obtain ⟨hnotMem, hnodup⟩ := hnodup
    by_cases ho : o.commitment = commitment
    · subst ho
      rw [List.find?_cons_of_pos (by simp), Option.some.injEq] at hfound
      subst hfound
      have hrest : markRefunded rest o.commitment = rest := markRefunded_of_notMem hnotMem
      have hmark : markRefunded (o :: rest) o.commitment =
          { o with refunded := true } :: markRefunded rest o.commitment := by
        simp [markRefunded]
      rw [hmark, hrest, List.countP_cons, List.countP_cons, hpending]
      cases q o.commitment <;> simp
    · rw [List.find?_cons_of_neg (by simpa using ho)] at hfound
      have hmark : markRefunded (o :: rest) commitment = o :: markRefunded rest commitment := by
        simp [markRefunded, ho]
      rw [hmark, List.countP_cons, List.countP_cons, ih hnodup hfound]
      omega

/-! ## The invariant -/

/-- The amounts already paid out at resolution and by claims. -/
def spent (s : PrivateState) : Nat :=
  s.market.treasuryFee + s.market.keeperReward + (s.claims.map (·.amount)).sum

/-- Nothing has left the vault but refunds. -/
structure Unsettled (market : Market) : Prop where
  claims : market.claimedCount = 0
  treasury : market.treasuryFee = 0
  keeper : market.keeperReward = 0

/-- The batch of a market and the checks it passed. -/
structure Batched (market : Market) : Prop where
  minSet : minPrivateBatchOrders ≤ market.orderCount
  counts : market.yesCount + market.noCount = market.orderCount
  amounts : validPrivateBatchAmounts market.stakeAmount market.yesCount market.noCount
    market.yesAmount market.noAmount = true

/-- The division of the pool of a resolved market. -/
structure Settled (market : Market) : Prop where
  batched : Batched market
  outcome : market.outcome = 0 ∨ market.outcome = 1
  winners : 0 < market.winningAmount
  pool : market.treasuryFee + market.keeperReward + market.netPool =
    market.yesAmount + market.noAmount
  netPool_le : market.netPool ≤ u64Max

/-- What each phase adds. -/
def PhaseInv (market : Market) : Prop :=
  match market.phase with
  | .open => Unsettled market ∧ market.refundedCount = 0
  | .batched => Unsettled market ∧ market.refundedCount = 0 ∧ Batched market
  | .refunding => Unsettled market ∧ market.refundedCount < market.orderCount
  | .resolved => market.refundedCount = 0 ∧ market.claimedCount < market.orderCount ∧
      Settled market
  | .closed => (Unsettled market ∧ market.refundedCount = market.orderCount) ∨
      (market.refundedCount = 0 ∧ 0 < market.orderCount ∧
        market.claimedCount = market.orderCount ∧ Settled market)

section Phases

variable {market : Market}

theorem phaseInv_open (h : market.phase = .open) :
    PhaseInv market ↔ Unsettled market ∧ market.refundedCount = 0 := by
  unfold PhaseInv
  rw [h]

theorem phaseInv_batched (h : market.phase = .batched) :
    PhaseInv market ↔ Unsettled market ∧ market.refundedCount = 0 ∧ Batched market := by
  unfold PhaseInv
  rw [h]

theorem phaseInv_refunding (h : market.phase = .refunding) :
    PhaseInv market ↔ Unsettled market ∧ market.refundedCount < market.orderCount := by
  unfold PhaseInv
  rw [h]

theorem phaseInv_resolved (h : market.phase = .resolved) :
    PhaseInv market ↔ market.refundedCount = 0 ∧ market.claimedCount < market.orderCount ∧
      Settled market := by
  unfold PhaseInv
  rw [h]

theorem phaseInv_closed (h : market.phase = .closed) :
    PhaseInv market ↔ (Unsettled market ∧ market.refundedCount = market.orderCount) ∨
      (market.refundedCount = 0 ∧ 0 < market.orderCount ∧
        market.claimedCount = market.orderCount ∧ Settled market) := by
  unfold PhaseInv
  rw [h]

end Phases

structure Inv (tr : List Event) (s : PrivateState) : Prop where
  orders_length : s.orders.length = s.market.orderCount
  orders_nodup : (s.orders.map (·.commitment)).Nodup
  claims_length : s.claims.length = s.market.claimedCount
  claims_nodup : (s.claims.map (·.nullifierHash)).Nodup
  stake : validPrivateStakeAmount s.market.stakeAmount = true
  marketId_le : s.market.marketId ≤ u64Max
  refunded : s.orders.countP (·.refunded) = s.market.refundedCount
  refunds : ∀ q : Bytes32 → Bool, tr.countP (fun e => e.refund?.any q) =
    s.orders.countP fun order => q order.commitment && order.refunded
  redeems : tr.countP Event.isRedeem = s.market.claimedCount
  balance : s.vault + s.market.stakeAmount * s.market.refundedCount + spent s =
    s.market.stakeAmount * s.market.orderCount + donated tr
  phase : PhaseInv s.market

theorem inv_created (h : Created s) : Inv [] s := by
  obtain ⟨protocol, tokens, creator, collateralMint, tokenProgram, args, now, h⟩ := h
  obtain ⟨hargs, rfl⟩ := initializeMarket_ok h
  obtain ⟨-, -, -, -, -, -, -, -, -, -, -, -, hstake, -⟩ := hargs
  constructor
  case stake => exact hstake
  case marketId_le => exact args.marketId_le
  case phase => exact ⟨⟨rfl, rfl, rfl⟩, rfl⟩
  all_goals simp [newMarket, spent]

/-! ## Each step keeps it -/

/-- An event that is no refund leaves the refunds as they were. -/
theorem Inv.refunds_snoc (hI : Inv tr s) {e : Event} (he : e.refund? = none)
    (q : Bytes32 → Bool) : (tr ++ [e]).countP (fun e => e.refund?.any q) =
      s.orders.countP fun order => q order.commitment && order.refunded := by
  rw [← hI.refunds q, List.countP_append, List.countP_singleton, he]
  rfl

/-- An event that is no redemption leaves the redemptions as they were. -/
theorem Inv.redeems_snoc (hI : Inv tr s) {e : Event} (he : e.isRedeem = false) :
    (tr ++ [e]).countP Event.isRedeem = s.market.claimedCount := by
  rw [← hI.redeems, List.countP_append, List.countP_singleton, he]
  rfl

/-- What the counters and the balance depend on is the same in two states. -/
structure SameBooks (s s' : PrivateState) : Prop where
  orders : s'.orders = s.orders
  claims : s'.claims = s.claims
  vault : s'.vault = s.vault
  stake : s'.market.stakeAmount = s.market.stakeAmount
  marketId : s'.market.marketId = s.market.marketId
  orderCount : s'.market.orderCount = s.market.orderCount
  claimedCount : s'.market.claimedCount = s.market.claimedCount
  refundedCount : s'.market.refundedCount = s.market.refundedCount
  treasury : s'.market.treasuryFee = s.market.treasuryFee
  keeper : s'.market.keeperReward = s.market.keeperReward

/-- A step that leaves the books as they are has to establish its phase only. -/
theorem Inv.of_sameBooks (hI : Inv tr s) (hsame : SameBooks s s') {e : Event}
    (hrefund : e.refund? = none) (hredeem : e.isRedeem = false) (hdonation : e.donation = 0)
    (hphase : PhaseInv s'.market) : Inv (tr ++ [e]) s' where
  orders_length := by rw [hsame.orders, hsame.orderCount, hI.orders_length]
  orders_nodup := by rw [hsame.orders]; exact hI.orders_nodup
  claims_length := by rw [hsame.claims, hsame.claimedCount, hI.claims_length]
  claims_nodup := by rw [hsame.claims]; exact hI.claims_nodup
  stake := by rw [hsame.stake]; exact hI.stake
  marketId_le := by rw [hsame.marketId]; exact hI.marketId_le
  refunded := by rw [hsame.orders, hsame.refundedCount, hI.refunded]
  refunds q := by rw [hsame.orders]; exact hI.refunds_snoc hrefund q
  redeems := by rw [hsame.claimedCount]; exact hI.redeems_snoc hredeem
  balance := by
    have hspent : spent s' = spent s := by
      rw [spent, spent, hsame.treasury, hsame.keeper, hsame.claims]
    rw [hsame.vault, hsame.stake, hsame.refundedCount, hsame.orderCount, hspent, donated_append,
      hdonation, Nat.add_zero, hI.balance]
  phase := hphase

theorem Unsettled.of_sameBooks (h : Unsettled s.market) (hsame : SameBooks s s') :
    Unsettled s'.market :=
  ⟨hsame.claimedCount.trans h.claims, hsame.treasury.trans h.treasury,
    hsame.keeper.trans h.keeper⟩

theorem inv_sync (hI : Inv tr s) {protocol : ProtocolConfig} {authority : Pubkey}
    (h : syncMarketVerifiers s protocol authority now = .ok s') :
    Inv (tr ++ [.call (.syncMarketVerifiers protocol authority) now]) s' := by
  obtain ⟨hsync, rfl⟩ := syncMarketVerifiers_ok h
  obtain ⟨hunsettled, hnone⟩ := (phaseInv_open hsync.1).mp hI.phase
  have hsame : SameBooks s { s with market := { s.market with
      placementVerifier := protocol.placementVerifier
      redeemVerifier := protocol.redeemVerifier } } :=
    ⟨rfl, rfl, rfl, rfl, rfl, rfl, rfl, rfl, rfl, rfl⟩
  refine hI.of_sameBooks hsame rfl rfl rfl ?_
  exact (phaseInv_open (by exact hsync.1)).mpr ⟨hunsettled.of_sameBooks hsame, hnone⟩

theorem inv_place (hI : Inv tr s) {accounts : PlaceOrderAccounts} {args : PlaceOrderArgs}
    (h : placeOrder rt s accounts args now = .ok s') :
    Inv (tr ++ [.call (.placeOrder accounts args) now]) s' := by
  obtain ⟨hchecks, -, tokens, rfl⟩ := placeOrder_ok h
  obtain ⟨hunsettled, hnone⟩ := (phaseInv_open hchecks.phase).mp hI.phase
  constructor
  case orders_length => simp [hI.orders_length]
  case orders_nodup =>
    have hfresh := order?_isNone.mp hchecks.fresh
    simp only [List.map_append, List.map_cons, List.map_nil]
    refine List.nodup_append.mpr ⟨hI.orders_nodup, by simp, ?_⟩
    intro c hc d hd heq
    rw [heq, List.mem_singleton.mp hd] at hc
    exact hfresh hc
  case refunded => simpa [List.countP_append, newOrder] using hI.refunded
  case refunds =>
    intro q
    simpa [List.countP_append, Event.refund?, newOrder] using hI.refunds q
  case redeems => exact hI.redeems_snoc rfl
  case balance =>
    have hbalance := hI.balance
    simp only [donated_append, Event.donation, Nat.add_zero, spent] at hbalance ⊢
    rw [Nat.mul_add, Nat.mul_one]
    omega
  case phase =>
    refine (phaseInv_open (by exact hchecks.phase)).mpr ⟨?_, hnone⟩
    exact ⟨hunsettled.claims, hunsettled.treasury, hunsettled.keeper⟩
  all_goals first | exact hI.claims_length | exact hI.claims_nodup | exact hI.stake |
    exact hI.marketId_le

theorem inv_submit (hI : Inv tr s) {remainingAccounts : List AccountInfo} {args : SubmitBatchArgs}
    (h : submitBatch s remainingAccounts args now = .ok s') :
    Inv (tr ++ [.call (.submitBatch remainingAccounts args) now]) s' := by
  obtain ⟨hchecks, rfl⟩ := submitBatch_ok h
  obtain ⟨hunsettled, hnone⟩ := (phaseInv_open hchecks.phase).mp hI.phase
  have hsame : SameBooks s { s with market := { s.market with
      commitmentRoot := args.commitmentRoot
      yesCount := args.yesCount
      noCount := args.noCount
      yesAmount := args.yesAmount
      noAmount := args.noAmount
      phase := .batched } } :=
    ⟨rfl, rfl, rfl, rfl, rfl, rfl, rfl, rfl, rfl, rfl⟩
  exact hI.of_sameBooks hsame rfl rfl rfl ⟨hunsettled.of_sameBooks hsame, hnone,
    ⟨hchecks.minSet, hchecks.counts, hchecks.amounts⟩⟩

theorem inv_resolve (hI : Inv tr s) {accounts : ResolveAccounts} {finalSeq : Nat}
    {payload : Txline.StatValidationInput}
    (h : resolveMarket rt s accounts finalSeq payload now = .ok s') :
    Inv (tr ++ [.call (.resolveMarket accounts finalSeq payload) now]) s' := by
  obtain ⟨isOver, settlement, scoreA, scoreB, tokens, hchecks, rfl⟩ := resolveMarket_ok h
  obtain ⟨hunsettled, hnone, hbatched⟩ := (phaseInv_batched hchecks.phase).mp hI.phase
  obtain ⟨hwinners, -, -, hpool, hnet⟩ := calculateSettlement_ok hchecks.settled
  have hcounted : 0 < s.market.orderCount :=
    Nat.lt_of_lt_of_le (by decide) hbatched.minSet
  constructor
  case refunds => exact hI.refunds_snoc rfl
  case redeems => exact hI.redeems_snoc rfl
  case balance =>
    have hbalance := hI.balance
    have hfees := hchecks.fees
    have htreasury := hunsettled.treasury
    have hkeeper := hunsettled.keeper
    simp only [donated_append, Event.donation, Nat.add_zero, spent, resolvedMarket] at hbalance ⊢
    omega
  case phase =>
    refine ⟨hnone, ?_, ?_⟩
    · show s.market.claimedCount < s.market.orderCount
      rw [hunsettled.claims]
      exact hcounted
    · constructor
      case batched => exact ⟨hbatched.minSet, hbatched.counts, hbatched.amounts⟩
      case outcome => cases isOver <;> simp [resolvedMarket]
      case winners =>
        show 0 < if isOver.toNat = 1 then s.market.yesAmount else s.market.noAmount
        cases isOver <;> simpa using hwinners
      case pool => exact hpool
      case netPool_le => exact hnet
  all_goals first | exact hI.orders_length | exact hI.orders_nodup | exact hI.claims_length |
    exact hI.claims_nodup | exact hI.stake | exact hI.marketId_le | exact hI.refunded

theorem inv_beginRefund (hI : Inv tr s) (h : beginRefund s now = .ok s') :
    Inv (tr ++ [.call .beginRefund now]) s' := by
  obtain ⟨htimed, rfl⟩ := beginRefund_ok h
  have hready : Unsettled s.market ∧ s.market.refundedCount = 0 := by
    unfold timedOut at htimed
    split at htimed
    · next hopen => exact (phaseInv_open hopen).mp hI.phase
    · next hbatched =>
      obtain ⟨hunsettled, hnone, -⟩ := (phaseInv_batched hbatched).mp hI.phase
      exact ⟨hunsettled, hnone⟩
    · exact htimed.elim
  obtain ⟨hunsettled, hnone⟩ := hready
  have hsame : SameBooks s { s with market := { s.market with
      phase := if s.market.orderCount = 0 then .closed else .refunding } } :=
    ⟨rfl, rfl, rfl, rfl, rfl, rfl, rfl, rfl, rfl, rfl⟩
  refine hI.of_sameBooks hsame rfl rfl rfl ?_
  have hunsettled' := hunsettled.of_sameBooks hsame
  by_cases hzero : s.market.orderCount = 0
  · exact (phaseInv_closed (if_pos hzero)).mpr (.inl ⟨hunsettled', hnone.trans hzero.symm⟩)
  · refine (phaseInv_refunding (if_neg hzero)).mpr ⟨hunsettled', ?_⟩
    show s.market.refundedCount < s.market.orderCount
    omega

theorem inv_refund (hI : Inv tr s) {payer payerToken : Pubkey} {commitment : Bytes32}
    (h : refundOrder s payer payerToken commitment = .ok s') :
    Inv (tr ++ [.call (.refundOrder payer payerToken commitment) now]) s' := by
  obtain ⟨order, hchecks, rfl⟩ := refundOrder_ok h
  obtain ⟨hunsettled, hbelow⟩ := (phaseInv_refunding hchecks.phase).mp hI.phase
  have hcount := countP_markRefunded hI.orders_nodup hchecks.found hchecks.pending
  constructor
  case orders_length => simpa using hI.orders_length
  case orders_nodup => simpa using hI.orders_nodup
  case refunded =>
    have hall := hcount fun _ => true
    simpa [hI.refunded] using hall
  case refunds =>
    intro q
    rw [List.countP_append, hI.refunds q, hcount q]
    cases hq : q commitment <;> simp [Event.refund?, hq]
  case redeems => exact hI.redeems_snoc rfl
  case balance =>
    have hbalance := hI.balance
    have hfunds := hchecks.funds
    simp only [donated_append, Event.donation, Nat.add_zero, spent] at hbalance ⊢
    rw [Nat.mul_add, Nat.mul_one]
    omega
  case phase =>
    by_cases hlast : s.market.refundedCount + 1 = s.market.orderCount
    · refine (phaseInv_closed (if_pos hlast)).mpr (.inl ⟨?_, hlast⟩)
      exact ⟨hunsettled.claims, hunsettled.treasury, hunsettled.keeper⟩
    · refine (phaseInv_refunding ((if_neg hlast).trans hchecks.phase)).mpr ⟨?_, ?_⟩
      · exact ⟨hunsettled.claims, hunsettled.treasury, hunsettled.keeper⟩
      · show s.market.refundedCount + 1 < s.market.orderCount
        omega
  all_goals first | exact hI.claims_length | exact hI.claims_nodup | exact hI.stake |
    exact hI.marketId_le

theorem inv_redeem (hI : Inv tr s) {accounts : RedeemAccounts} {args : RedeemArgs}
    (h : redeem rt s accounts args = .ok s') :
    Inv (tr ++ [.call (.redeem accounts args) now]) s' := by
  obtain ⟨amount, tokens, hchecks, hle, -, rfl⟩ := redeem_ok h
  obtain ⟨hnone, hbelow, hsettled⟩ := (phaseInv_resolved hchecks.phase).mp hI.phase
  constructor
  case claims_length => simpa using hI.claims_length
  case claims_nodup =>
    have hfresh := claim?_isNone.mp hchecks.fresh
    rw [List.map_cons, List.nodup_cons]
    exact ⟨hfresh, hI.claims_nodup⟩
  case refunds => exact hI.refunds_snoc rfl
  case redeems => simpa [List.countP_append, Event.isRedeem] using hI.redeems
  case balance =>
    have hbalance := hI.balance
    simp only [donated_append, Event.donation, Nat.add_zero, spent, newClaim, List.map_cons,
      List.sum_cons] at hbalance ⊢
    omega
  case phase =>
    have hsettled' : ∀ phase claimedCount,
        Settled { s.market with phase, claimedCount } := fun _ _ =>
      ⟨⟨hsettled.batched.minSet, hsettled.batched.counts, hsettled.batched.amounts⟩,
        hsettled.outcome, hsettled.winners, hsettled.pool, hsettled.netPool_le⟩
    by_cases hlast : s.market.claimedCount + 1 = s.market.orderCount
    · exact (phaseInv_closed (if_pos hlast)).mpr
        (.inr ⟨hnone, Nat.zero_lt_of_lt hbelow, hlast, hsettled' _ _⟩)
    · refine (phaseInv_resolved ((if_neg hlast).trans hchecks.phase)).mpr
        ⟨hnone, ?_, hsettled' _ _⟩
      show s.market.claimedCount + 1 < s.market.orderCount
      omega
  all_goals first | exact hI.orders_length | exact hI.orders_nodup | exact hI.stake |
    exact hI.marketId_le | exact hI.refunded

theorem inv_step {e : Event} (hI : Inv tr s) (h : Step rt s e s') : Inv (tr ++ [e]) s' := by
  cases h with
  | @call _ instruction now hok =>
    cases instruction with
    | syncMarketVerifiers protocol authority => exact inv_sync hI hok
    | placeOrder accounts args => exact inv_place hI hok
    | submitBatch remainingAccounts args => exact inv_submit hI hok
    | resolveMarket accounts finalSeq payload => exact inv_resolve hI hok
    | beginRefund => exact inv_beginRefund hI hok
    | refundOrder payer payerToken commitment => exact inv_refund hI hok
    | redeem accounts args => exact inv_redeem hI hok
  | donate =>
    constructor
    case refunds => exact hI.refunds_snoc rfl
    case redeems => exact hI.redeems_snoc rfl
    case balance =>
      have hbalance := hI.balance
      simp only [donated_append, Event.donation, spent] at hbalance ⊢
      omega
    case phase => exact hI.phase
    all_goals first | exact hI.orders_length | exact hI.orders_nodup | exact hI.claims_length |
      exact hI.claims_nodup | exact hI.stake | exact hI.marketId_le | exact hI.refunded
  | external =>
    refine hI.of_sameBooks ?_ rfl rfl rfl hI.phase
    exact ⟨rfl, rfl, rfl, rfl, rfl, rfl, rfl, rfl, rfl, rfl⟩

/-- **The invariant holds along every run.** -/
theorem inv_run {init : PrivateState} (hinit : Created init) (hrun : Run (Step rt) init tr s) :
    Inv tr s :=
  hrun.history (fun _ _ _ _ hI h => inv_step hI h) (inv_created hinit)

/-! ## What no step changes -/

/-- The terms a market was created with, as far as orders depend on them. -/
structure SameTerms (s s' : PrivateState) : Prop where
  authority : s'.market.authority = s.market.authority
  marketId : s'.market.marketId = s.market.marketId
  stake : s'.market.stakeAmount = s.market.stakeAmount
  lock : s'.market.lockTs = s.market.lockTs

theorem SameTerms.refl (s : PrivateState) : SameTerms s s := ⟨rfl, rfl, rfl, rfl⟩

theorem sameTerms_step {e : Event} (h : Step rt s e s') : SameTerms s s' := by
  cases h with
  | @call _ instruction now hok =>
    cases instruction with
    | syncMarketVerifiers protocol authority =>
      obtain ⟨-, rfl⟩ := syncMarketVerifiers_ok hok
      exact ⟨rfl, rfl, rfl, rfl⟩
    | placeOrder accounts args =>
      obtain ⟨-, -, -, rfl⟩ := placeOrder_ok hok
      exact ⟨rfl, rfl, rfl, rfl⟩
    | submitBatch remainingAccounts args =>
      obtain ⟨-, rfl⟩ := submitBatch_ok hok
      exact ⟨rfl, rfl, rfl, rfl⟩
    | resolveMarket accounts finalSeq payload =>
      obtain ⟨_, _, _, _, _, -, rfl⟩ := resolveMarket_ok hok
      exact ⟨rfl, rfl, rfl, rfl⟩
    | beginRefund =>
      obtain ⟨-, rfl⟩ := beginRefund_ok hok
      exact ⟨rfl, rfl, rfl, rfl⟩
    | refundOrder payer payerToken commitment =>
      obtain ⟨_, -, rfl⟩ := refundOrder_ok hok
      exact ⟨rfl, rfl, rfl, rfl⟩
    | redeem accounts args =>
      obtain ⟨_, _, -, -, -, rfl⟩ := redeem_ok hok
      exact ⟨rfl, rfl, rfl, rfl⟩
  | donate => exact ⟨rfl, rfl, rfl, rfl⟩
  | external => exact ⟨rfl, rfl, rfl, rfl⟩

theorem SameTerms.trans {t : PrivateState} (h : SameTerms s s') (h' : SameTerms s' t) :
    SameTerms s t where
  authority := h'.authority.trans h.authority
  marketId := h'.marketId.trans h.marketId
  stake := h'.stake.trans h.stake
  lock := h'.lock.trans h.lock

/-- **The terms stay** what they were. -/
theorem sameTerms_run {init : PrivateState} (hrun : Run (Step rt) init tr s) : SameTerms init s :=
  hrun.invariant (I := SameTerms init) (fun _ _ _ hsame h => hsame.trans (sameTerms_step h))
    (SameTerms.refl init)

theorem SameTerms.marketKey_eq (h : SameTerms s s') (rt : Runtime) :
    s'.marketKey rt = s.marketKey rt := by
  rw [PrivateState.marketKey, PrivateState.marketKey, h.authority, h.marketId]

/-- Every market has a number. -/
theorem marketId_pos {init : PrivateState} (hinit : Created init)
    (hrun : Run (Step rt) init tr s) : 0 < s.market.marketId := by
  obtain ⟨protocol, tokens, creator, collateralMint, tokenProgram, args, now, h⟩ := hinit
  obtain ⟨hargs, rfl⟩ := initializeMarket_ok h
  rw [(sameTerms_run hrun).marketId]
  exact hargs.1

end Nortia.PrivatePool
