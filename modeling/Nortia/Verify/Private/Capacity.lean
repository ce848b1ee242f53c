import Nortia.Verify.Private.Lifecycle
import Nortia.Verify.Committee.Members

/-!
# The size of a batch

The commitment tree holds `2 ^ 16` leaves. The program counts its orders in 32 bits and never
compares the count with the tree, so a market can outgrow the tree; it can be batched exactly when
at most `2 ^ 16` orders were placed.
-/

namespace Nortia.PrivatePool

open Lib Circuit Client

variable {rt : PrivateRuntime} {init s s' : PrivateState} {tr : List Event} {P : Poseidon}

/-! ## Orders are numbered as they come -/

def Event.isPlaceOrder : Event → Bool
  | .call (.placeOrder _ _) _ => true
  | _ => false

/-- What a step does to the orders: it places one, or it keeps all, up to a mark on one of them. -/
inductive OrderStep (rt : PrivateRuntime) (s : PrivateState) : Event → PrivateState → Prop
  | placed {accounts : PlaceOrderAccounts} {args : PlaceOrderArgs} {now : Int} {s' : PrivateState} :
      PlaceChecks rt s accounts args now →
      s'.orders = s.orders ++ [newOrder rt s accounts.payer args] →
      s'.market.orderCount = s.market.orderCount + 1 →
      OrderStep rt s (.call (.placeOrder accounts args) now) s'
  | kept {e : Event} {s' : PrivateState} : e.isPlaceOrder = false →
      (s'.orders = s.orders ∨ ∃ commitment, s'.orders = markRefunded s.orders commitment) →
      s'.market.orderCount = s.market.orderCount → OrderStep rt s e s'

theorem orderStep {e : Event} (h : Step rt s e s') : OrderStep rt s e s' := by
  cases h with
  | @call _ instruction now hok =>
    cases instruction with
    | syncMarketVerifiers protocol authority =>
      obtain ⟨-, rfl⟩ := syncMarketVerifiers_ok hok
      exact .kept rfl (.inl rfl) rfl
    | placeOrder accounts args =>
      obtain ⟨hchecks, -, tokens, rfl⟩ := placeOrder_ok hok
      exact .placed hchecks rfl rfl
    | submitBatch remainingAccounts args =>
      obtain ⟨-, rfl⟩ := submitBatch_ok hok
      exact .kept rfl (.inl rfl) rfl
    | resolveMarket accounts finalSeq payload =>
      obtain ⟨isOver, settlement, scoreA, scoreB, tokens, -, rfl⟩ := resolveMarket_ok hok
      exact .kept rfl (.inl rfl) rfl
    | beginRefund =>
      obtain ⟨-, rfl⟩ := beginRefund_ok hok
      exact .kept rfl (.inl rfl) rfl
    | refundOrder payer payerToken commitment =>
      obtain ⟨order, -, rfl⟩ := refundOrder_ok hok
      exact .kept rfl (.inr ⟨commitment, rfl⟩) rfl
    | redeem accounts args =>
      obtain ⟨amount, tokens, -, -, -, rfl⟩ := redeem_ok hok
      exact .kept rfl (.inl rfl) rfl
  | donate => exact .kept rfl (.inl rfl) rfl
  | external => exact .kept rfl (.inl rfl) rfl

theorem map_markRefunded {β : Type} {f : Order → β}
    (hf : ∀ order : Order, f { order with refunded := true } = f order) (orders : List Order)
    (commitment : Bytes32) : (markRefunded orders commitment).map f = orders.map f := by
  simp only [markRefunded, List.map_map]
  refine List.map_congr_left fun order _ => ?_
  simp only [Function.comp_apply]
  split
  · exact hf order
  · rfl

/-- What a mark does not change, a step that places nothing keeps. -/
theorem map_orders_kept {β : Type} {f : Order → β}
    (hf : ∀ order : Order, f { order with refunded := true } = f order)
    (h : s'.orders = s.orders ∨ ∃ commitment, s'.orders = markRefunded s.orders commitment) :
    s'.orders.map f = s.orders.map f := by
  rcases h with h | ⟨commitment, h⟩
  · rw [h]
  · rw [h, map_markRefunded hf]

/-- The counter counts, and an order's index is its place. -/
structure Numbered (tr : List Event) (s : PrivateState) : Prop where
  count : s.market.orderCount = tr.countP Event.isPlaceOrder
  indices : s.orders.map (·.orderIndex) = List.range s.market.orderCount

theorem numbered_step {e : Event} (hn : Numbered tr s) (h : Step rt s e s') :
    Numbered (tr ++ [e]) s' := by
  cases orderStep h with
  | placed hchecks horders hcount =>
    constructor
    · rw [hcount, hn.count, List.countP_append]
      rfl
    · rw [horders, hcount, List.range_succ, ← hn.indices]
      exact List.map_append
  | kept he horders hcount =>
    constructor
    · rw [hcount, hn.count, List.countP_append, List.countP_singleton, he]
      rfl
    · rw [hcount, map_orders_kept (fun _ => rfl) horders]
      exact hn.indices

theorem numbered_run (hinit : Created init) (hrun : Run (Step rt) init tr s) : Numbered tr s := by
  refine hrun.history (I := Numbered) (fun _ _ _ _ hn h => numbered_step hn h) ?_
  obtain ⟨protocol, tokens, creator, collateralMint, tokenProgram, args, now, h⟩ := hinit
  obtain ⟨-, rfl⟩ := initializeMarket_ok h
  exact ⟨rfl, rfl⟩

/-- Every order of a market names it. -/
theorem orders_market (hinit : Created init) (hrun : Run (Step rt) init tr s) :
    ∀ order ∈ s.orders, order.market = s.marketKey rt.toRuntime := by
  have hstep : ∀ (s : PrivateState) (e : Event) (s' : PrivateState),
      (∀ order ∈ s.orders, order.market = s.marketKey rt.toRuntime) → Step rt s e s' →
        ∀ order ∈ s'.orders, order.market = s'.marketKey rt.toRuntime := by
    intro s e s' hown h order horder
    rw [(sameTerms_step h).marketKey_eq]
    cases orderStep h with
    | placed hchecks horders hcount =>
      rw [horders] at horder
      rcases List.mem_append.mp horder with hold | hnew
      · exact hown order hold
      · rw [List.mem_singleton.mp hnew]
        rfl
    | kept he horders hcount =>
      have hmem : order.market ∈ s.orders.map (·.market) := by
        rw [← map_orders_kept (fun _ => rfl) horders]
        exact List.mem_map_of_mem horder
      obtain ⟨old, hold, hmarket⟩ := List.mem_map.mp hmem
      rw [← hmarket]
      exact hown old hold
  refine hrun.invariant (I := fun s => ∀ order ∈ s.orders, order.market = s.marketKey rt.toRuntime)
    hstep ?_
  obtain ⟨protocol, tokens, creator, collateralMint, tokenProgram, args, now, h⟩ := hinit
  obtain ⟨-, rfl⟩ := initializeMarket_ok h
  intro order horder
  cases horder

/-! ## Members that hold every share -/

/-- An order as the committee names it. -/
def orderEntry (order : Order) : Int × Int :=
  ((order.orderIndex : Int), (ofBeBytes order.commitment.toList : Int))

/-- The leaves of the market's tree. -/
def orderLeaves (s : PrivateState) : List Int := s.orders.map fun order => (orderEntry order).2

/-- A member holds the share of every order of a market, and nothing else for it. -/
def HoldsAll (s : PrivateState) (market : List Char) (m : CommitteeMember) : Prop :=
  (m.snapshot market).map (fun share => (share.orderIndex, share.orderCommitment)) =
    s.orders.map orderEntry

/-- The commitments of such a member's aggregate are the leaves. -/
theorem HoldsAll.orderCommitments {market : List Char} {m : CommitteeMember}
    {a : CommitteeAggregate} (h : HoldsAll s market m) (ha : m.aggregate market = .ok a) :
    a.orderCommitments = orderLeaves s := by
  obtain ⟨-, -, hadds⟩ := CommitteeMember.addsUp_of_aggregate ha
  have hleaves := congrArg (List.map Prod.snd) h
  rw [List.map_map, List.map_map] at hleaves
  rw [hadds.orderCommitments]
  exact hleaves

/-- What the committee answers to a batch that outgrows the tree. -/
def treeIsFull : String := "tree supports at most 65536 commitments"

theorem commitmentRoot_error {leaves : List Int} {e : String}
    (h : commitmentRoot P leaves = .error e) : 2 ^ treeDepth < leaves.length := by
  by_contra hlen
  obtain ⟨root, hroot⟩ := commitmentRoot_of_le P (Nat.not_lt.mp hlen)
  rw [hroot] at h
  cases h

private def OtherThanSize (e : String) : Prop := e ≠ treeIsFull

private theorem otherThanSize_iff {e : String} :
    OtherThanSize e ↔ e ≠ "tree supports at most 65536 commitments" := Iff.rfl

private theorem reconstructIntercept_failsIn {i j : MemberIndex} {x y : Int} :
    FailsIn OtherThanSize (reconstructIntercept i x j y) := by
  simp [reconstructIntercept, inverse, otherThanSize_iff]

/-- Only the tree refuses a batch for its size. -/
theorem finalize_error {market : List Char} {first second : CommitteeAggregate}
    (h : finalizeCommitteeAggregates P market first second = .error treeIsFull) :
    2 ^ treeDepth < first.orderCommitments.length := by
  by_contra hlen
  have hroot : FailsIn OtherThanSize (commitmentRoot P first.orderCommitments) :=
    fun _ h => absurd (commitmentRoot_error h) hlen
  have hnever : FailsIn OtherThanSize (finalizeCommitteeAggregates P market first second) := by
    simp [finalizeCommitteeAggregates, reconstructIntercept_failsIn, hroot, otherThanSize_iff]
  exact hnever _ h rfl

/-- Nothing about the size of a market keeps its committee from a batch. -/
structure Batchable (P : Poseidon) (s : PrivateState) : Prop where
  capacity : s.market.orderCount ≤ 2 ^ treeDepth
  root : ∃ root, commitmentRoot P (orderLeaves s) = .ok root
  batch : ∀ (market : List Char) (m₁ m₂ : CommitteeMember) (a₁ a₂ : CommitteeAggregate),
    HoldsAll s market m₁ → HoldsAll s market m₂ →
    m₁.aggregate market = .ok a₁ → m₂.aggregate market = .ok a₂ →
    finalizeCommitteeAggregates P market a₁ a₂ ≠ .error treeIsFull

/-- **A market can be batched for its size** exactly when at most `2 ^ 16` orders were placed. -/
theorem batchable_iff (P : Poseidon) (hinit : Created init) (hrun : Run (Step rt) init tr s) :
    Batchable P s ↔ tr.countP Event.isPlaceOrder ≤ 2 ^ treeDepth := by
  have hcount := (numbered_run hinit hrun).count
  have hlength : (orderLeaves s).length = s.market.orderCount := by
    rw [orderLeaves, List.length_map]
    exact (inv_run hinit hrun).orders_length
  constructor
  · intro h
    rw [← hcount]
    exact h.capacity
  · intro hfew
    rw [← hcount] at hfew
    refine ⟨hfew, commitmentRoot_of_le P (hlength.trans_le hfew), ?_⟩
    intro market m₁ m₂ a₁ a₂ h₁ _ ha₁ _ hfull
    have hlarge := finalize_error hfull
    rw [h₁.orderCommitments ha₁, hlength] at hlarge
    omega

/-! ## A market that outgrows the tree -/

/-- The pieces of equal length of a list of bytes. -/
theorem witnessField_flatMap (header : List UInt8) (hheader : header.length = Zk.witnessHeaderLen) :
    ∀ (fields : List Bytes32) (i : Nat) (hi : i < fields.length),
      Zk.witnessField (header ++ fields.flatMap Bytes.toList) i = fields[i].toList := by
  have hpiece : ∀ (fields : List Bytes32) (i : Nat) (hi : i < fields.length),
      ((fields.flatMap Bytes.toList).drop (i * Zk.fieldLen)).take Zk.fieldLen =
        fields[i].toList := by
    intro fields
    induction fields with
    | nil =>
      intro i hi
      cases hi
    | cons field rest ih =>
      intro i hi
      have hlength : field.toList.length = Zk.fieldLen := field.length_toList
      cases i with
      | zero =>
        rw [Nat.zero_mul, List.drop_zero, List.flatMap_cons]
        exact List.take_left' hlength
      | succ i =>
        have hdrop : (i + 1) * Zk.fieldLen = field.toList.length + i * Zk.fieldLen := by
          rw [hlength, Nat.add_mul, Nat.one_mul, Nat.add_comm]
        rw [List.flatMap_cons, hdrop, List.drop_append]
        simp only [Nat.add_sub_cancel_left, List.getElem_cons_succ]
        rw [List.drop_eq_nil_of_le (by omega), List.nil_append]
        exact ih i (Nat.lt_of_succ_lt_succ hi)
  intro fields i hi
  have hskip : (header ++ fields.flatMap Bytes.toList).drop
      (Zk.witnessHeaderLen + i * Zk.fieldLen) =
        (fields.flatMap Bytes.toList).drop (i * Zk.fieldLen) := by
    rw [← hheader, ← List.drop_drop, List.drop_left']
    rfl
  rw [Zk.witnessField, hskip]
  exact hpiece fields i hi

namespace Sample

/-- The market accepts every proof below. -/
def crowded : PrivateRuntime := runtime (fun _ _ => aliceHash) fun _ _ => true

/-- The commitment of the `i`-th order, from one. -/
def crowdCommitment (i : Nat) : Bytes32 := ⟨beBytes 32 (i + 1), length_beBytes 32 (i + 1)⟩

def crowdFields (i : Nat) : List Bytes32 :=
  [Zk.fieldFromU64 1, Zk.fieldFromU64 5000000, Field.toBytes aliceHash, crowdCommitment i,
    shares.first, shares.second, shares.third]

def crowdAccounts : PlaceOrderAccounts where
  payer := alice
  payerToken := alice
  placementVerifier := {
    key := protocol.placementVerifier
    owner := Pubkey.default
    executable := true
    isSigner := false
    data := [] }

def crowdArgs (i : Nat) : PlaceOrderArgs where
  commitment := crowdCommitment i
  shareCommitments := shares
  proof := proofData
  publicWitness := witnessData (crowdFields i)

def crowdEvent (i : Nat) : Event := .call (.placeOrder crowdAccounts (crowdArgs i)) 10

theorem length_crowdWitness (i : Nat) : (witnessData (crowdFields i)).length =
    Zk.witnessHeaderLen + (crowdFields i).length * Zk.fieldLen := by
  simp [witnessData, crowdFields, Zk.witnessHeaderLen, Zk.fieldLen]

theorem crowd_verified {market : Market} (hid : market.marketId = 1)
    (hstake : market.stakeAmount = 5000000)
    (hverifier : market.placementVerifier = protocol.placementVerifier) (i : Nat) :
    Zk.verifyPlace crowded market alice (crowdArgs i) crowdAccounts.placementVerifier =
      .ok () := by
  have hfields : Zk.placeFields crowded market alice (crowdCommitment i) shares =
      crowdFields i := by
    rw [Zk.placeFields, hid, hstake]
    rfl
  have hpieces : ((crowdFields i).zipIdx.all fun e =>
      Zk.witnessField (witnessData (crowdFields i)) e.2 = e.1.toList) = true := by
    rw [List.all_eq_true]
    intro e he
    obtain ⟨hi, hfield⟩ := List.mem_zipIdx' he
    rw [decide_eq_true_eq, hfield]
    exact witnessField_flatMap _ (by simp [Zk.witnessHeaderLen, length_beBytes]) _ _ hi
  have hproof : 128 ≤ proofData.length ∧ proofData.length ≤ Zk.maxProofLen := by
    have hlength : proofData.length = 388 := List.length_replicate
    rw [hlength, Zk.maxProofLen]
    omega
  have hkey : crowdAccounts.placementVerifier.key = protocol.placementVerifier := rfl
  have hexecutable : crowdAccounts.placementVerifier.executable = true := rfl
  have hinvoked : crowded.invokeVerifier protocol.placementVerifier
      (proofData ++ witnessData (crowdFields i)) = true := rfl
  have hlength := length_crowdWitness i
  show Zk.verify crowded (Zk.placeFields crowded market alice (crowdCommitment i) shares) proofData
    (witnessData (crowdFields i)) _ _ = _
  rw [hfields, hverifier]
  simp only [Zk.verify, check_pos hproof, check_pos hlength, check_pos hkey, check_pos hexecutable,
    check_pos hpieces, require_pos hinvoked, ok_bind]

theorem crowdCommitment_injOn {i j : Nat} (hi : i ≤ 65536) (hj : j ≤ 65536)
    (h : crowdCommitment i = crowdCommitment j) : i = j := by
  have hlarge : 65537 < 256 ^ 32 := by decide
  have hbytes : beBytes 32 (i + 1) = beBytes 32 (j + 1) := congrArg Bytes.toList h
  have hvalue := congrArg ofBeBytes hbytes
  rw [ofBeBytes_beBytes (by omega), ofBeBytes_beBytes (by omega)] at hvalue
  omega

theorem crowdCommitment_ne_zero {i : Nat} (hi : i ≤ 65536) : crowdCommitment i ≠ zeroBytes := by
  intro h
  have hlarge : 65537 < 256 ^ 32 := by decide
  have hbytes : beBytes 32 (i + 1) = zeroBytes.toList := congrArg Bytes.toList h
  have hvalue := congrArg ofBeBytes hbytes
  have hzero : ofBeBytes zeroBytes.toList = 0 := by decide
  rw [ofBeBytes_beBytes (by omega), hzero] at hvalue
  omega

/-- The market after `n` orders. -/
structure Crowd (n : Nat) (s : PrivateState) : Prop where
  market : s.market = { newMarket protocol creator args with orderCount := n }
  orders : s.orders.map (·.commitment) = (List.range n).map crowdCommitment
  vault : s.vault = 5000000 * n
  account : s.tokens alice =
    { owner := alice, mint := mint.key, amount := 1000000000000 - 5000000 * n }

/-- There is always room for one more. -/
theorem Crowd.next {n : Nat} (h : Crowd n s) (hn : n ≤ 65536) :
    ∃ s', Step crowded s (crowdEvent n) s' ∧ Crowd (n + 1) s' := by
  have hfresh : (s.order? (crowdCommitment n)).isNone = true := by
    rw [order?_isNone, h.orders]
    intro hmem
    obtain ⟨i, hi, heq⟩ := List.mem_map.mp hmem
    have hlt := List.mem_range.mp hi
    exact absurd (crowdCommitment_injOn (by omega) hn heq) hlt.ne
  have hfunds : 5000000 ≤ (s.tokens alice).amount := by
    rw [h.account]
    show _ ≤ 1000000000000 - 5000000 * n
    omega
  have hroom : s.vault + 5000000 ≤ u64Max := by
    have hlarge : 5000000 * 65537 ≤ u64Max := by decide
    rw [h.vault]
    omega
  have hcount : n + 1 ≤ u32Max := by
    have hlarge : 65537 ≤ u32Max := by decide
    omega
  have hverified : Zk.verifyPlace crowded s.market alice (crowdArgs n)
      crowdAccounts.placementVerifier = .ok () := by
    rw [h.market]
    exact crowd_verified rfl rfl rfl n
  have hshares : shares.first ≠ zeroBytes ∧ shares.second ≠ zeroBytes ∧
      shares.third ≠ zeroBytes := by decide
  have haccount : checkTokenAccount (s.tokens alice) alice s.market.collateralMint = .ok () := by
    rw [h.market, h.account]
    exact checkTokenAccount_ok.mpr ⟨rfl, rfl⟩
  have hphase : s.market.phase = .open := by rw [h.market]; rfl
  have hlock : 10 < s.market.lockTs := by
    rw [h.market]
    show (10 : Int) < 1000
    decide
  have hstake : s.market.stakeAmount = 5000000 := by rw [h.market]; rfl
  have horders : s.market.orderCount = n := by rw [h.market]
  have hdebit : s.tokens.debit alice 5000000 =
      .ok (s.tokens.setAmount alice ((s.tokens alice).amount - 5000000)) := by
    simp only [Tokens.debit, require_pos hfunds, ok_bind]
  have hdeposit : depositIntoVault s.tokens alice s.vault 5000000 = .ok {
      tokens := s.tokens.setAmount alice ((s.tokens alice).amount - 5000000)
      vault := s.vault + 5000000 } := by
    have hvault := checkedAdd_eq_some.mpr ⟨hroom, rfl⟩
    simp only [depositIntoVault, hdebit, ok_bind, hvault]
    rfl
  have hnext : checkedAdd u32Max s.market.orderCount 1 = some (n + 1) := by
    rw [horders]
    exact checkedAdd_eq_some.mpr ⟨hcount, rfl⟩
  have hplaced : placeOrder crowded s crowdAccounts (crowdArgs n) 10 = .ok { s with
      market := { s.market with orderCount := n + 1 }
      orders := s.orders ++ [newOrder crowded s alice (crowdArgs n)]
      vault := s.vault + 5000000
      tokens := s.tokens.setAmount alice ((s.tokens alice).amount - 5000000) } := by
    have hzero : (crowdArgs n).commitment ≠ zeroBytes := crowdCommitment_ne_zero hn
    have hfresh : (s.order? (crowdArgs n).commitment).isNone = true := hfresh
    have hshares : (crowdArgs n).shareCommitments.first ≠ zeroBytes ∧
        (crowdArgs n).shareCommitments.second ≠ zeroBytes ∧
        (crowdArgs n).shareCommitments.third ≠ zeroBytes := hshares
    have haccount : checkTokenAccount (s.tokens crowdAccounts.payerToken) crowdAccounts.payer
        s.market.collateralMint = .ok () := haccount
    have hverified : Zk.verifyPlace crowded s.market crowdAccounts.payer (crowdArgs n)
        crowdAccounts.placementVerifier = .ok () := hverified
    simp only [placeOrder, haccount, require_pos hfresh, check_pos hphase, check_pos hlock,
      check_pos hzero, check_pos hshares, hverified, hnext, orFail, hstake, ok_bind]
    show (depositIntoVault s.tokens alice s.vault 5000000 >>= _) = _
    rw [hdeposit]
    rfl
  refine ⟨_, .call hplaced, ?_⟩
  constructor
  · show ({ s.market with orderCount := n + 1 } : Market) = _
    rw [h.market]
  · show (s.orders ++ [_]).map (fun order : Order => order.commitment) = _
    rw [List.map_append, h.orders, List.range_succ, List.map_append]
    rfl
  · show s.vault + 5000000 = _
    rw [h.vault]
    omega
  · have hamount : 1000000000000 - 5000000 * n - 5000000 = 1000000000000 - 5000000 * (n + 1) := by
      omega
    show (s.tokens.setAmount alice _) alice = _
    rw [Tokens.setAmount_self, h.account, ← hamount]

theorem crowd_run {init : PrivateState} (hinit : created = .ok init) :
    ∀ n ≤ 65537, ∃ s, Run (Step crowded) init ((List.range n).map crowdEvent) s ∧ Crowd n s := by
  intro n
  induction n with
  | zero =>
    intro _
    obtain ⟨-, rfl⟩ := initializeMarket_ok hinit
    exact ⟨_, .nil _, rfl, rfl, rfl, rfl⟩
  | succ n ih =>
    intro hn
    obtain ⟨s, hrun, hcrowd⟩ := ih (by omega)
    obtain ⟨s', hstep, hnext⟩ := hcrowd.next (by omega)
    refine ⟨s', ?_, hnext⟩
    rw [List.range_succ, List.map_append]
    exact .snoc hrun hstep

/-- The share of the `i`-th order: the first two orders are on YES, and no share is hidden. -/
def crowdShare (member : MemberIndex) (i : Nat) : CommitteeShare where
  market := "market".toList
  orderIndex := i
  orderCommitment := ofBeBytes (crowdCommitment i).toList
  memberIndex := member
  sideShare := if i < 2 then 1 else 0
  yesAmountShare := if i < 2 then minPrivateWagerAmount else 0
  totalAmountShare := minPrivateWagerAmount
  salt := 1
  expectedShareCommitment := 0
  placementSignature := "placed".toList

/-- A member with the shares of four orders. -/
def crowdMember (member : MemberIndex) : CommitteeMember where
  memberIndex := member
  shares := (List.range 4).map (crowdShare member)

theorem snapshot_crowdMember (member : MemberIndex) :
    (crowdMember member).snapshot "market".toList = (crowdMember member).shares := by
  have hown : (crowdMember member).shares.filter (fun share => share.market = "market".toList) =
      (crowdMember member).shares := by
    cases member <;> decide +kernel
  have hsorted : (crowdMember member).shares.Pairwise fun left right =>
      decide (left.orderIndex ≤ right.orderIndex) = true := by
    cases member <;> decide +kernel
  rw [CommitteeMember.snapshot, hown]
  exact List.mergeSort_of_pairwise hsorted

theorem Crowd.holdsAll {init : PrivateState} (hinit : Created init) {tr : List Event}
    (hrun : Run (Step crowded) init tr s) (h : Crowd 4 s) (member : MemberIndex) :
    HoldsAll s "market".toList (crowdMember member) := by
  have hindices : s.orders.map (·.orderIndex) = List.range 4 := by
    rw [(numbered_run hinit hrun).indices, h.market]
  have hentries : s.orders.map orderEntry =
      ((List.range 4).zip ((List.range 4).map crowdCommitment)).map fun e =>
        ((e.1 : Int), (ofBeBytes e.2.toList : Int)) := by
    rw [← h.orders, ← hindices, List.zip_map', List.map_map]
    rfl
  rw [HoldsAll, hentries, snapshot_crowdMember]
  cases member <;> decide +kernel

theorem crowdMember_aggregate (member : MemberIndex) :
    ∃ a, (crowdMember member).aggregate "market".toList = .ok a := by
  refine ⟨_, CommitteeMember.aggregate_eq_ok.mpr ⟨?_, ?_, rfl⟩⟩
  · rw [snapshot_crowdMember]
    exact Nat.le_refl 4
  · rw [snapshot_crowdMember, CommitteeMember.Successive]
    cases member <;> decide +kernel

end Sample

/-- Four placed orders leave a market that can be batched for its size, and there are two members
whose aggregates the size does not keep from a batch. -/
theorem batchable_iff_sample : ∃ (s : PrivateState) (a b : CommitteeAggregate),
    s.market.orderCount = 4 ∧ Batchable (fun _ _ => Sample.aliceHash) s ∧
      a.orderCommitments = orderLeaves s ∧ b.orderCommitments = orderLeaves s ∧
      finalizeCommitteeAggregates (fun _ _ => Sample.aliceHash) "market".toList a b ≠
        .error treeIsFull := by
  obtain ⟨init, hinit⟩ : ∃ init, Sample.created = .ok init := ⟨_, rfl⟩
  obtain ⟨s, hrun, hcrowd⟩ := Sample.crowd_run hinit 4 (by decide)
  have hcreated := Sample.created_of_ok hinit
  have hbatchable : Batchable (fun _ _ => Sample.aliceHash) s :=
    (batchable_iff _ hcreated hrun).mpr (by decide)
  have hholds := hcrowd.holdsAll hcreated hrun
  obtain ⟨a, ha⟩ := Sample.crowdMember_aggregate .one
  obtain ⟨b, hb⟩ := Sample.crowdMember_aggregate .two
  exact ⟨s, a, b, by rw [hcrowd.market], hbatchable, (hholds .one).orderCommitments ha,
    (hholds .two).orderCommitments hb,
    hbatchable.batch _ _ _ a b (hholds .one) (hholds .two) ha hb⟩

/-- 65537 accepted orders leave a market whose tree no committee can build. -/
theorem tree_too_small_for_a_market : ∃ (init s : PrivateState) (tr : List Event),
    Created init ∧ Run (Step Sample.crowded) init tr s ∧ s.market.phase = .open ∧
      s.market.orderCount = 65537 ∧
      ∀ P, commitmentRoot P (orderLeaves s) = .error treeIsFull ∧ ¬Batchable P s := by
  obtain ⟨init, hinit⟩ : ∃ init, Sample.created = .ok init := ⟨_, rfl⟩
  obtain ⟨s, hrun, hcrowd⟩ := Sample.crowd_run hinit 65537 (Nat.le_refl _)
  have hcreated := Sample.created_of_ok hinit
  have hcount : s.market.orderCount = 65537 := by rw [hcrowd.market]
  have hfull : 2 ^ treeDepth < s.market.orderCount := by
    rw [hcount]
    decide
  refine ⟨init, s, _, hcreated, hrun, by rw [hcrowd.market]; rfl, hcount, fun P => ⟨?_, ?_⟩⟩
  · have hlength : (orderLeaves s).length = s.market.orderCount := by
      rw [orderLeaves, List.length_map]
      exact (inv_run hcreated hrun).orders_length
    exact if_pos (hlength ▸ hfull)
  · intro hbatchable
    exact absurd hbatchable.capacity (Nat.not_le.mpr hfull)

end Nortia.PrivatePool
