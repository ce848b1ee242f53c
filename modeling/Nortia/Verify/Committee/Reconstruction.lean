import Nortia.Lib.Shamir
import Nortia.Verify.Committee.Members
import Nortia.Verify.Private.Capacity
import Nortia.Verify.Private.Settlement

/-!
# The batch two members reconstruct

The placement circuit fixes the three shares of an order, and a member accepts a share only under
the commitment the circuit put on chain. So a member's aggregate is a share of the sums over the
orders, and two aggregates give these sums back.
-/

namespace Nortia.PrivatePool

open Lib Circuit Client

variable {P : Poseidon} {S : Set (Field × Field)} {rt : PrivateRuntime} {init s : PrivateState}
  {tr : List Event} {ws : List PlaceOrder.Private} {w : PlaceOrder.Private} {i j : MemberIndex}

/-! ## Orders and their shares -/

/-- The salt of a member's bundle. -/
def saltOf (w : PlaceOrder.Private) : MemberIndex → Field
  | .one => w.salt1
  | .two => w.salt2
  | .three => w.salt3

/-- The share commitment of a member. -/
def commitmentOf (commitments : ShareCommitments) : MemberIndex → Bytes32
  | .one => commitments.first
  | .two => commitments.second
  | .three => commitments.third

/-- The placement circuit accepts `w` for what an order account of a market says. -/
structure Hides (hash : Poseidon) (market : Market) (order : Order) (w : PlaceOrder.Private) :
    Prop where
  minAmount : minWagerAmount ≤ w.amount
  maxAmount : w.amount ≤ market.stakeAmount
  bundles : ∀ member, commitmentOf order.shareCommitments member =
    Field.toBytes (w.bundle hash member.index (saltOf w member))

/-- The public inputs of a placement are those of the market and of the order account. -/
structure PublicOf (market : Market) (order : Order) (pub : PlaceOrder.Public) : Prop where
  marketId : pub.marketId = market.marketId
  stakeAmount : pub.stakeAmount = market.stakeAmount
  commitment : order.commitment = Field.toBytes pub.commitment
  first : order.shareCommitments.first = Field.toBytes pub.shareCommitment1
  second : order.shareCommitments.second = Field.toBytes pub.shareCommitment2
  third : order.shareCommitments.third = Field.toBytes pub.shareCommitment3

/-- The circuit accepts a witness for the public inputs of an order. -/
def Satisfies (hash : Poseidon) (market : Market) (order : Order) (w : PlaceOrder.Private) : Prop :=
  ∃ pub, PublicOf market order pub ∧ PlaceOrder.main hash pub w

theorem Satisfies.hides {market : Market} {order : Order} (h : Satisfies P market order w)
    (hstake : market.stakeAmount ≤ u64Max) : Hides P market order w := by
  obtain ⟨pub, hpub, -, hmin, hmax, -, hfirst, hsecond, hthird, -⟩ := h
  rw [hpub.stakeAmount, Field.toU64_u64 hstake] at hmax
  refine ⟨hmin, hmax, ?_⟩
  intro member
  cases member with
  | one => rw [commitmentOf, hpub.first, hfirst]; rfl
  | two => rw [commitmentOf, hpub.second, hsecond]; rfl
  | three => rw [commitmentOf, hpub.third, hthird]; rfl

/-- A share carries the commitment of an order and the share commitment of its member. -/
structure Names (order : Order) (share : CommitteeShare) : Prop where
  index : share.orderIndex = order.orderIndex
  commitment : share.orderCommitment = ofBeBytes order.commitment.toList
  expected : share.expectedShareCommitment =
    ofBeBytes (commitmentOf order.shareCommitments share.memberIndex).toList

/-- The pairs the bundle of a share hashes. -/
def bundlePairs (P : Poseidon) (share : CommitteeShare) : List (Field × Field) :=
  PlaceOrder.bundlePairs P share.sideShare share.yesAmountShare share.totalAmountShare share.salt

/-- The values of a share are those the circuit committed to. -/
structure ShareOf (w : PlaceOrder.Private) (member : MemberIndex) (share : CommitteeShare) : Prop where
  side : (share.sideShare : Field) = w.sideShare member.index
  yesAmount : (share.yesAmountShare : Field) = w.yesAmountShare member.index
  totalAmount : (share.totalAmountShare : Field) = w.totalAmountShare member.index

/-- **An accepted share is the one of the circuit**: its bundle has the commitment on chain, and no
two bundles have the same. -/
theorem shareOf_of_checked {market : Market} {order : Order} {share : CommitteeShare}
    (hS : Set.InjOn (Function.uncurry P) S) (hhides : Hides P market order w)
    (hw : ∀ pair ∈ w.bundlePairs P i.index (saltOf w i), pair ∈ S)
    (hshare : ∀ pair ∈ bundlePairs P share, pair ∈ S) (hchecked : Checked P i share)
    (hnames : Names order share) : ShareOf w i share := by
  have hexpected : (share.expectedShareCommitment : Field) = w.bundle P i.index (saltOf w i) := by
    rw [hnames.expected, hchecked.member, hhides.bundles i, Field.ofBeBytes_toBytes,
      Int.cast_natCast, ZMod.natCast_zmod_val]
  have hbundle : committedShareBundle P share.sideShare share.yesAmountShare share.totalAmountShare
      share.salt = w.bundle P i.index (saltOf w i) := by
    rw [← cast_shareCommitment, hchecked.bundle, hexpected]
  obtain ⟨hside, hyes, htotal, -⟩ := committedShareBundle_inj hS hshare hw hbundle
  exact ⟨hside, hyes, htotal⟩

/-! ## A member that accepted every share -/

/-- An accepted submission. -/
def Submits (P : Poseidon) (m : CommitteeMember) (share : CommitteeShare) (m' : CommitteeMember) :
    Prop := m.submit P share = .ok m'

/-- A member accepted shares, for one market the shares of its orders and no others, whatever it
accepted for other markets. -/
structure Served (P : Poseidon) (S : Set (Field × Field)) (s : PrivateState) (market : List Char)
    (member : MemberIndex) (accepted : List CommitteeShare) (m : CommitteeMember) : Prop where
  run : Run (Submits P) (CommitteeMember.new member) accepted m
  named : ∀ share ∈ accepted, share.market = market → ∃ order ∈ s.orders, Names order share
  complete : ∀ order ∈ s.orders, ∃ share ∈ accepted, share.market = market ∧ Names order share
  hashed : ∀ share ∈ accepted, ∀ pair ∈ bundlePairs P share, pair ∈ S

/-- What is held was accepted, and what was accepted is held. -/
structure Holds (P : Poseidon) (member : MemberIndex) (accepted : List CommitteeShare)
    (m : CommitteeMember) : Prop where
  wellFormed : m.WellFormed P
  member : m.memberIndex = member
  sound : ∀ share ∈ m.shares, share ∈ accepted
  complete : ∀ share ∈ accepted, ∃ held ∈ m.shares, held.key = share.key

theorem holds_run {accepted : List CommitteeShare} {m : CommitteeMember}
    (h : Run (Submits P) (CommitteeMember.new i) accepted m) : Holds P i accepted m := by
  refine h.history (I := Holds P i) ?_ ?_
  · intro tr m share m' hm hsubmit
    constructor
    case wellFormed => exact hm.wellFormed.submit hsubmit
    case member => rw [CommitteeMember.memberIndex_submit hsubmit, hm.member]
    case sound =>
      intro held hheld
      rcases CommitteeMember.mem_submit hsubmit hheld with hold | rfl
      · exact List.mem_append_left _ (hm.sound held hold)
      · exact List.mem_append_right _ (List.mem_singleton_self _)
    case complete =>
      intro other hother
      rcases List.mem_append.mp hother with hold | hnew
      · obtain ⟨held, hheld, hkey⟩ := hm.complete other hold
        exact ⟨held, CommitteeMember.mem_of_submit hsubmit hheld, hkey⟩
      · obtain ⟨held, hheld, hkey, -⟩ := CommitteeMember.held_of_submit hsubmit
        rw [List.mem_singleton.mp hnew]
        exact ⟨held, hheld, hkey⟩
  · exact ⟨CommitteeMember.wellFormed_new P i, rfl, fun _ h => h, fun _ h => nomatch h⟩

section Served

variable {market : List Char} {accepted : List CommitteeShare} {m : CommitteeMember}
  (hserved : Served P S s market i accepted m)
  (hindices : s.orders.map (·.orderIndex) = List.range s.orders.length)

include hserved hindices

/-- The snapshot of such a member has the orders in sequence. -/
theorem Served.indices : (m.snapshot market).map (·.orderIndex) =
    (List.range s.orders.length).map fun k : Nat => (k : Int) := by
  have hholds := holds_run hserved.run
  refine hholds.wellFormed.snapshot_indices fun k => ?_
  constructor
  · rintro ⟨share, hshare, hmarket, rfl⟩
    obtain ⟨order, horder, hnames⟩ := hserved.named share (hholds.sound share hshare) hmarket
    have hindex : order.orderIndex ∈ List.range s.orders.length := by
      rw [← hindices]
      exact List.mem_map_of_mem horder
    rw [hnames.index]
    exact ⟨Int.natCast_nonneg _, Int.ofNat_lt.mpr (List.mem_range.mp hindex)⟩
  · rintro ⟨hnonneg, hlt⟩
    have hk : k.toNat ∈ s.orders.map (·.orderIndex) := by
      rw [hindices]
      exact List.mem_range.mpr (by omega)
    obtain ⟨order, horder, hindex⟩ := List.mem_map.mp hk
    obtain ⟨share, hshare, hmarket, hnames⟩ := hserved.complete order horder
    obtain ⟨held, hheld, hkey⟩ := hholds.complete share hshare
    obtain ⟨hheldMarket, hheldIndex⟩ := Prod.mk.inj hkey
    refine ⟨held, hheld, hheldMarket.trans hmarket, ?_⟩
    rw [hheldIndex, hnames.index, hindex]
    exact Int.toNat_of_nonneg hnonneg

/-- Its `k`-th share names the `k`-th order. -/
theorem Served.names {k : Nat} (hk : k < (m.snapshot market).length) (hk' : k < s.orders.length) :
    Checked P i (m.snapshot market)[k] ∧ (m.snapshot market)[k] ∈ accepted ∧
      Names s.orders[k] (m.snapshot market)[k] := by
  have hholds := holds_run hserved.run
  obtain ⟨hheld, hmarket⟩ := CommitteeMember.mem_snapshot.mp (List.getElem_mem hk)
  have haccepted := hholds.sound _ hheld
  obtain ⟨order, horder, hnames⟩ := hserved.named _ haccepted hmarket
  refine ⟨hholds.member ▸ hholds.wellFormed.checked _ hheld, haccepted, ?_⟩
  obtain ⟨l, hl, rfl⟩ := List.getElem_of_mem horder
  have hposition : ∀ (n : Nat) (hn : n < s.orders.length), s.orders[n].orderIndex = n := by
    intro n hn
    have hget := List.getElem_of_eq hindices (i := n) (by rw [List.length_map]; exact hn)
    simpa using hget
  have hindex : ((m.snapshot market)[k].orderIndex : Int) = k := by
    have hget := List.getElem_of_eq (hserved.indices hindices) (i := k)
      (by rw [List.length_map]; exact hk)
    simpa using hget
  have hlk : l = k := by
    have hsame := hnames.index
    rw [hposition l hl, hindex] at hsame
    exact (Int.ofNat_inj.mp hsame).symm
  subst hlk
  exact hnames

end Served

/-! ## What two aggregates give back -/

/-- The distance of two members has the inverse the committee computes. -/
theorem inverse_distance (h : i ≠ j) : ∃ v, inverse ((j.index : Int) - i.index) = .ok v ∧
    (v : Field) * ((j.index : Field) - i.index) = 1 := by
  have hcomputed : (inverse ((j.index : Int) - i.index)).toOption.map
      (fun v => mod (v * ((j.index : Int) - i.index))) = some 1 := by
    cases i <;> cases j <;> first | exact absurd rfl h | decide +kernel
  rw [Option.map_eq_some_iff] at hcomputed
  obtain ⟨v, hv, hone⟩ := hcomputed
  refine ⟨v, toOption_eq_some.mp hv, ?_⟩
  have hcast := congrArg (fun n : Int => (n : Field)) hone
  simpa using hcast

/-- **Shares of a small number at two members give it back.** -/
theorem reconstructIntercept_eq {x y : Int} {total : Nat} {slope : Field} (h : i ≠ j)
    (hx : (x : Field) = Shamir.share (total : Field) slope i.index)
    (hy : (y : Field) = Shamir.share (total : Field) slope j.index) (hsmall : total < scalarModulus) :
    reconstructIntercept i x j y = .ok total := by
  obtain ⟨v, hv, hinverse⟩ := inverse_distance h
  have hresult : mod (mod (x * j.index - y * i.index) * v) = total := by
    refine inField_ext (inField_mod _) (inField_iff.mpr ⟨Int.natCast_nonneg _, ?_⟩) ?_
    · exact Int.ofNat_lt.mpr hsmall
    · rw [cast_mod, Int.cast_mul, cast_mod, Int.cast_sub, Int.cast_mul, Int.cast_mul, hx, hy]
      simp only [Int.cast_natCast]
      exact Shamir.reconstruct hinverse
  rw [reconstructIntercept, if_neg h]
  simp only [hv, ok_bind, hresult]

/-! ## The sums over the orders -/

def yesOrders (ws : List PlaceOrder.Private) : Nat := ws.countP (·.side)
def noOrders (ws : List PlaceOrder.Private) : Nat := ws.countP (!·.side)
def yesWagers (ws : List PlaceOrder.Private) : Nat := ((ws.filter (·.side)).map (·.amount)).sum
def noWagers (ws : List PlaceOrder.Private) : Nat := ((ws.filter (!·.side)).map (·.amount)).sum

theorem sum_sideField (ws : List PlaceOrder.Private) :
    (ws.map fun w => sideField w.side).sum = (yesOrders ws : Field) := by
  induction ws with
  | nil => simp [yesOrders]
  | cons w ws ih =>
    rw [List.map_cons, List.sum_cons, ih]
    cases hside : w.side
    · simp [yesOrders, sideField, hside]
    · simp [yesOrders, sideField, hside, add_comm]

theorem sum_yesAmount (ws : List PlaceOrder.Private) :
    (ws.map fun w => w.yesAmount).sum = (yesWagers ws : Field) := by
  induction ws with
  | nil => simp [yesWagers]
  | cons w ws ih =>
    rw [List.map_cons, List.sum_cons, ih]
    cases hside : w.side
    · simp [yesWagers, PlaceOrder.Private.yesAmount, sideField, hside]
    · simp [yesWagers, PlaceOrder.Private.yesAmount, sideField, hside]

theorem sum_totalAmount (ws : List PlaceOrder.Private) :
    (ws.map fun w => (w.amount : Field)).sum = ((yesWagers ws + noWagers ws : Nat) : Field) := by
  induction ws with
  | nil => simp [yesWagers, noWagers]
  | cons w ws ih =>
    rw [List.map_cons, List.sum_cons, ih]
    cases hside : w.side
    · simp [yesWagers, noWagers, hside]
      ring
    · simp [yesWagers, noWagers, hside]
      ring

theorem counts_eq (ws : List PlaceOrder.Private) : yesOrders ws + noOrders ws = ws.length := by
  rw [yesOrders, noOrders, List.length_eq_countP_add_countP (fun w : PlaceOrder.Private => w.side)]
  simp

/-- What each order wagers bounds what a side wagers. -/
theorem side_bounds {p : PlaceOrder.Private → Bool} {least most : Nat}
    (h : ∀ w ∈ ws, least ≤ w.amount ∧ w.amount ≤ most) :
    least * ws.countP p ≤ ((ws.filter p).map (·.amount)).sum ∧
      ((ws.filter p).map (·.amount)).sum ≤ most * ws.countP p := by
  rw [List.countP_eq_length_filter, Nat.mul_comm least, Nat.mul_comm most]
  have hfilter : ∀ w ∈ ws.filter p, least ≤ w.amount ∧ w.amount ≤ most := fun w hw =>
    h w (List.mem_filter.mp hw).1
  generalize ws.filter p = side at hfilter
  induction side with
  | nil => simp
  | cons w side ih =>
    have hw := hfilter w List.mem_cons_self
    have hrest := ih fun w' hw' => hfilter w' (List.mem_cons_of_mem _ hw')
    rw [List.map_cons, List.sum_cons, List.length_cons, Nat.add_mul, Nat.add_mul, Nat.one_mul,
      Nat.one_mul]
    omega

/-! ## The aggregate of a member -/

/-- An aggregate of a member over all orders: its sums are shares of the sums over the orders. -/
structure ShareOfSums (s : PrivateState) (ws : List PlaceOrder.Private) (market : List Char)
    (i : MemberIndex) (a : CommitteeAggregate) : Prop where
  market : a.market = market
  member : a.memberIndex = i
  orderCount : a.orderCount = s.orders.length
  orderCommitments : a.orderCommitments = orderLeaves s
  side : (a.aggregateSideShare : Field) =
    Shamir.share (yesOrders ws : Field) (ws.map (·.sideCoefficient)).sum i.index
  yesAmount : (a.aggregateYesAmountShare : Field) =
    Shamir.share (yesWagers ws : Field) (ws.map (·.yesAmountCoefficient)).sum i.index
  totalAmount : (a.aggregateTotalAmountShare : Field) =
    Shamir.share ((yesWagers ws + noWagers ws : Nat) : Field)
      (ws.map (·.totalAmountCoefficient)).sum i.index

/-- The pairs the bundles of the orders hash. -/
def BundlesHashed (P : Poseidon) (S : Set (Field × Field)) (ws : List PlaceOrder.Private) : Prop :=
  ∀ w ∈ ws, ∀ member : MemberIndex, ∀ pair ∈ w.bundlePairs P member.index (saltOf w member), pair ∈ S

section Aggregate

variable {market : List Char} {accepted : List CommitteeShare} {m : CommitteeMember}
  (hserved : Served P S s market i accepted m)
  (hindices : s.orders.map (·.orderIndex) = List.range s.orders.length)
  (hhides : List.Forall₂ (Hides P s.market) s.orders ws)
  (hS : Set.InjOn (Function.uncurry P) S) (hws : BundlesHashed P S ws)

include hserved hindices hhides hS hws

/-- Share by share, the snapshot has the values the orders hide. -/
theorem Served.shareOf {k : Nat} (hk : k < (m.snapshot market).length) (hk' : k < ws.length) :
    ShareOf ws[k] i (m.snapshot market)[k] := by
  have hlength := hhides.length_eq
  obtain ⟨hchecked, haccepted, hnames⟩ := hserved.names hindices hk (hlength ▸ hk')
  exact shareOf_of_checked hS (hhides.get (hlength ▸ hk') hk')
    (hws ws[k] (List.getElem_mem hk') i) (hserved.hashed _ haccepted) hchecked hnames

/-- **A member that accepted the shares of all orders answers**, with a share of every sum. -/
theorem Served.aggregate (hcount : minPrivateBatchOrders ≤ s.orders.length) :
    ∃ a, m.aggregate market = .ok a ∧ ShareOfSums s ws market i a := by
  have hindexed := hserved.indices hindices
  have hlength : (m.snapshot market).length = s.orders.length := by
    have hlengths := congrArg List.length hindexed
    simpa using hlengths
  have hws_length : ws.length = s.orders.length := hhides.length_eq.symm
  have hsuccessive : CommitteeMember.Successive 0 (m.snapshot market) := by
    rw [CommitteeMember.Successive, hlength, ← List.range_eq_range']
    exact hindexed
  have hok := CommitteeMember.aggregate_eq_ok.mpr ⟨hlength ▸ hcount, hsuccessive, rfl⟩
  obtain ⟨hmarket, hmember, hadds⟩ := CommitteeMember.addsUp_of_aggregate hok
  -- a sum over the snapshot is the sum over the orders
  have hsum : ∀ (f : CommitteeShare → Field) (g : PlaceOrder.Private → Field),
      (∀ w share, ShareOf w i share → f share = g w) →
        ((m.snapshot market).map f).sum = (ws.map g).sum := by
    intro f g hfg
    refine congrArg List.sum (List.ext_getElem ?_ ?_)
    · rw [List.length_map, List.length_map, hlength, hws_length]
    · intro k hk hk'
      rw [List.length_map] at hk hk'
      rw [List.getElem_map, List.getElem_map]
      exact hfg _ _ (hserved.shareOf hindices hhides hS hws hk hk')
  refine ⟨_, hok, ?_⟩
  constructor
  case market => exact hmarket
  case member => rw [hmember, (holds_run hserved.run).member]
  case orderCount => rw [hadds.orderCount, hlength]
  case orderCommitments =>
    rw [hadds.orderCommitments]
    refine List.ext_getElem ?_ ?_
    · rw [List.length_map, orderLeaves, List.length_map, hlength]
    · intro k hk hk'
      rw [List.length_map] at hk
      rw [orderLeaves, List.length_map] at hk'
      obtain ⟨-, -, hnames⟩ := hserved.names hindices hk hk'
      simp only [List.getElem_map, orderLeaves, orderEntry]
      exact hnames.commitment
  case side =>
    rw [hadds.side, ← sum_sideField, ← Shamir.sum_share]
    exact hsum _ _ fun w share h => h.side
  case yesAmount =>
    rw [hadds.yesAmount, ← sum_yesAmount, ← Shamir.sum_share]
    exact hsum _ _ fun w share h => h.yesAmount
  case totalAmount =>
    rw [hadds.totalAmount, ← sum_totalAmount, ← Shamir.sum_share]
    exact hsum _ _ fun w share h => h.totalAmount

end Aggregate

/-! ## The batch -/

/-- A batch that says of the orders what is true of them, and that the program accepts. -/
structure ExactBatch (P : Poseidon) (s : PrivateState) (ws : List PlaceOrder.Private)
    (market : List Char) (batch : CommitteeBatch) : Prop where
  market : batch.market = market
  orderCount : batch.orderCount = s.orders.length
  yesCount : batch.yesCount = yesOrders ws
  noCount : batch.noCount = noOrders ws
  yesAmount : batch.yesAmount = yesWagers ws
  noAmount : batch.noAmount = noWagers ws
  root : commitmentRoot P (orderLeaves s) = .ok batch.commitmentRoot
  minSet : hasMinPrivateSet batch.orderCount = true
  twoSides : hasTwoPrivateSides batch.yesCount.toNat batch.noCount.toNat = true
  amounts : validPrivateBatchAmounts s.market.stakeAmount batch.yesCount.toNat batch.noCount.toNat
    batch.yesAmount.toNat batch.noAmount.toNat = true

/-- The bounds on a batch of a market, by its stake and the size of the tree. -/
structure Bounded (stakeAmount : Nat) (ws : List PlaceOrder.Private) : Prop where
  few : ws.length ≤ 2 ^ treeDepth
  stake : validPrivateStakeAmount stakeAmount = true
  minAmount : ∀ w ∈ ws, minWagerAmount ≤ w.amount
  maxAmount : ∀ w ∈ ws, w.amount ≤ stakeAmount

namespace Bounded

variable {stakeAmount : Nat} (h : Bounded stakeAmount ws)
include h

theorem stake_le : stakeAmount ≤ maxPrivateStakeAmount :=
  (validPrivateStakeAmount_bounds h.stake).2

theorem yes_bounds : minWagerAmount * yesOrders ws ≤ yesWagers ws ∧
    yesWagers ws ≤ stakeAmount * yesOrders ws :=
  side_bounds fun w hw => ⟨h.minAmount w hw, h.maxAmount w hw⟩

theorem no_bounds : minWagerAmount * noOrders ws ≤ noWagers ws ∧
    noWagers ws ≤ stakeAmount * noOrders ws :=
  side_bounds fun w hw => ⟨h.minAmount w hw, h.maxAmount w hw⟩

/-- Nothing about the batch outgrows 64 bits. -/
theorem stakes_le : stakeAmount * ws.length ≤ maxPrivateStakeAmount * 2 ^ treeDepth :=
  Nat.mul_le_mul h.stake_le h.few

theorem amounts_le : yesWagers ws + noWagers ws ≤
    maxPrivateStakeAmount * 2 ^ treeDepth := by
  have hyes := h.yes_bounds.2
  have hno := h.no_bounds.2
  have hcounts := counts_eq ws
  have hstakes := h.stakes_le
  rw [← hcounts, Nat.mul_add] at hstakes
  omega

/-- The program accepts such amounts. -/
theorem validAmounts : validPrivateBatchAmounts stakeAmount (yesOrders ws)
    (noOrders ws) (yesWagers ws) (noWagers ws) = true := by
  have htop : maxPrivateStakeAmount * 2 ^ treeDepth ≤ u64Max := by decide
  have hstakes := h.stakes_le
  have hamounts := h.amounts_le
  have hyes := h.yes_bounds
  have hno := h.no_bounds
  have hcounts := counts_eq ws
  rw [← hcounts, Nat.mul_add] at hstakes
  have hleast : minPrivateWagerAmount = minWagerAmount := rfl
  simp only [validPrivateBatchAmounts, Bool.and_eq_true, withinSide_iff, hleast]
  refine ⟨⟨⟨h.stake, ?_⟩, ?_⟩, ?_⟩
  · exact ⟨by omega, by omega, hyes⟩
  · exact ⟨by omega, by omega, hno⟩
  · rw [Option.isSome_iff_exists]
    exact ⟨_, checkedAdd_eq_some.mpr ⟨by omega, rfl⟩⟩

end Bounded

/-- Two members' shares of the sums give a batch of the sums. -/
theorem finalize_exact {market : List Char} {a b : CommitteeAggregate}
    (ha : ShareOfSums s ws market i a) (hb : ShareOfSums s ws market j b) (hne : i ≠ j)
    (hbounded : Bounded s.market.stakeAmount ws) (hlength : ws.length = s.orders.length)
    (hcount : minPrivateBatchOrders ≤ s.orders.length) (hyes : 0 < yesOrders ws)
    (hno : 0 < noOrders ws) :
    ∃ batch, finalizeCommitteeAggregates P market a b = .ok batch ∧ ExactBatch P s ws market batch := by
  obtain rfl := ha.member
  obtain rfl := hb.member
  have hcounts := counts_eq ws
  have hfew := hbounded.few
  have hamounts := hbounded.amounts_le
  have hyesBounds := hbounded.yes_bounds.1
  have hnoBounds := hbounded.no_bounds.1
  have hfield : maxPrivateStakeAmount * 2 ^ treeDepth < scalarModulus := by decide
  have hcapacity : 2 ^ treeDepth < scalarModulus := by decide
  have hleast : Client.minPrivateWagerAmount = (minWagerAmount : Nat) := rfl
  have hleaves : (orderLeaves s).length = s.orders.length := List.length_map _
  have hside := reconstructIntercept_eq hne ha.side hb.side (by omega)
  have hyesAmount := reconstructIntercept_eq hne ha.yesAmount hb.yesAmount (by omega)
  have htotal := reconstructIntercept_eq hne ha.totalAmount hb.totalAmount (by omega)
  have hfit : (orderLeaves s).length ≤ 2 ^ treeDepth := by omega
  obtain ⟨root, hroot⟩ := commitmentRoot_of_le P hfit
  have hmarkets : a.market = market ∧ b.market = market := ⟨ha.market, hb.market⟩
  have hsizes : Client.minPrivateBatchOrders ≤ a.orderCount ∧ a.orderCount = b.orderCount ∧
      a.orderCommitments.length = a.orderCount ∧ b.orderCommitments.length = b.orderCount := by
    rw [ha.orderCount, hb.orderCount, ha.orderCommitments, hb.orderCommitments, hleaves]
    exact ⟨hcount, rfl, rfl, rfl⟩
  have hsame : a.orderCommitments = b.orderCommitments := by
    rw [ha.orderCommitments, hb.orderCommitments]
  have hcommitted : commitmentRoot P a.orderCommitments = .ok root := by
    rw [ha.orderCommitments]
    exact hroot
  have hnoCount : (a.orderCount : Int) - yesOrders ws = noOrders ws := by
    rw [ha.orderCount, ← hlength, ← hcounts]
    push_cast
    ring
  have hnoAmount : ((yesWagers ws + noWagers ws : Nat) : Int) - yesWagers ws = noWagers ws := by
    push_cast
    ring
  have hrange : (yesOrders ws : Int) ≤ a.orderCount := by omega
  have htwo : (yesOrders ws : Int) ≠ 0 ∧ (noOrders ws : Int) ≠ 0 := ⟨by omega, by omega⟩
  have hliquidity : (yesWagers ws : Int) ≤ ((yesWagers ws + noWagers ws : Nat) : Int) := by omega
  have hminimum : (yesOrders ws : Int) * Client.minPrivateWagerAmount ≤ yesWagers ws ∧
      (noOrders ws : Int) * Client.minPrivateWagerAmount ≤ noWagers ws := by
    rw [hleast, ← Int.natCast_mul, ← Int.natCast_mul, Int.ofNat_le, Int.ofNat_le,
      Nat.mul_comm (yesOrders ws), Nat.mul_comm (noOrders ws)]
    exact ⟨hyesBounds, hnoBounds⟩
  refine ⟨⟨market, a.orderCount, yesOrders ws, noOrders ws, yesWagers ws, noWagers ws, root,
    (a.memberIndex, b.memberIndex)⟩, ?_, ?_⟩
  · simp only [finalizeCommitteeAggregates, require_pos hne, require_pos hmarkets,
      require_pos hsizes, require_pos hsame, hside, hyesAmount, htotal, require_pos hrange, hnoCount,
      require_pos htwo, require_pos hliquidity, hnoAmount, require_pos hminimum, hcommitted,
      ok_bind]
  · constructor
    case market => rfl
    case orderCount => exact ha.orderCount
    case yesCount => rfl
    case noCount => rfl
    case yesAmount => rfl
    case noAmount => rfl
    case root => exact hroot
    case minSet =>
      rw [hasMinPrivateSet, ha.orderCount]
      exact decide_eq_true hcount
    case twoSides => simp [hasTwoPrivateSides, hyes, hno]
    case amounts => exact hbounded.validAmounts

/-- **Reconstruction is exact**, whatever the traders submit. In every market of 4 to `2 ^ 16` orders
on both sides, each placed with a witness of the circuit, any two members that accepted the shares
of all orders, in any sequence and any number of times, give the batch of the orders, and the
program accepts its counts and amounts. -/
theorem reconstruction_exact (hinit : Created init) (hrun : Run (Step rt) init tr s)
    (hplaced : List.Forall₂ (Satisfies rt.poseidon s.market) s.orders ws)
    (hcount : minPrivateBatchOrders ≤ s.orders.length ∧ s.orders.length ≤ 2 ^ treeDepth)
    (hyes : ∃ w ∈ ws, w.side = true) (hno : ∃ w ∈ ws, w.side = false)
    (hS : Set.InjOn (Function.uncurry rt.poseidon) S) (hws : BundlesHashed rt.poseidon S ws)
    {market : List Char} {first second : List CommitteeShare} {m₁ m₂ : CommitteeMember}
    (hne : i ≠ j) (hfirst : Served rt.poseidon S s market i first m₁)
    (hsecond : Served rt.poseidon S s market j second m₂) :
    ∃ a b batch, m₁.aggregate market = .ok a ∧ m₂.aggregate market = .ok b ∧
      finalizeCommitteeAggregates rt.poseidon market a b = .ok batch ∧
        ExactBatch rt.poseidon s ws market batch := by
  have hI : Inv tr s := inv_run hinit hrun
  have hindices : s.orders.map (·.orderIndex) = List.range s.orders.length := by
    rw [(numbered_run hinit hrun).indices, hI.orders_length]
  have hstake : s.market.stakeAmount ≤ u64Max :=
    (validPrivateStakeAmount_bounds hI.stake).2.trans (by decide)
  have hhides : List.Forall₂ (Hides rt.poseidon s.market) s.orders ws :=
    hplaced.imp fun _ _ h => h.hides hstake
  have hlength : ws.length = s.orders.length := hhides.length_eq.symm
  have hbounded : Bounded s.market.stakeAmount ws := by
    have hbounds : ∀ w ∈ ws, minWagerAmount ≤ w.amount ∧ w.amount ≤ s.market.stakeAmount := by
      intro w hw
      obtain ⟨k, hk, rfl⟩ := List.getElem_of_mem hw
      have hget := hhides.get (hlength ▸ hk) hk
      exact ⟨hget.minAmount, hget.maxAmount⟩
    exact ⟨hlength ▸ hcount.2, hI.stake, fun w hw => (hbounds w hw).1, fun w hw => (hbounds w hw).2⟩
  obtain ⟨a, ha, hsums⟩ := hfirst.aggregate hindices hhides hS hws hcount.1
  obtain ⟨b, hb, hsums'⟩ := hsecond.aggregate hindices hhides hS hws hcount.1
  obtain ⟨batch, hbatch, hexact⟩ := finalize_exact (P := rt.poseidon) hsums hsums' hne hbounded
    hlength hcount.1 (List.countP_pos_iff.mpr hyes)
    (List.countP_pos_iff.mpr (hno.imp fun w h => ⟨h.1, by simp [h.2]⟩))
  exact ⟨a, b, batch, ha, hb, hbatch, hexact⟩

/-! ### Four orders -/

namespace Sample

def marketName : List Char := "market".toList

/-- The share of a member in the `index`-th order. -/
def shareFor (o : Opening) (index : Nat) (i : MemberIndex) : CommitteeShare where
  market := marketName
  orderIndex := index
  orderCommitment := (placement o).commitment.val
  memberIndex := i
  sideShare := ((orderWitness o).sideShare i.index).val
  yesAmountShare := ((orderWitness o).yesAmountShare i.index).val
  totalAmountShare := ((orderWitness o).totalAmountShare i.index).val
  salt := (saltOf (orderWitness o) i).val
  expectedShareCommitment := ((orderWitness o).bundle poseidon i.index (saltOf (orderWitness o) i)).val
  placementSignature := "placed".toList

/-- The shares of a member, out of sequence and one of them twice. -/
def submissions (i : MemberIndex) : List CommitteeShare :=
  [2, 0, 3, 0, 1].map fun k => shareFor (openingAt k) k i

/-- What a member reads of an order account. -/
def orderView (order : Order) : Nat × Bytes32 × ShareCommitments :=
  (order.orderIndex, order.commitment, order.shareCommitments)

def placementView (e : Opening × Nat) : Nat × Bytes32 × ShareCommitments :=
  (e.2, Field.toBytes (placement e.1).commitment, {
    first := Field.toBytes (placement e.1).shareCommitment1
    second := Field.toBytes (placement e.1).shareCommitment2
    third := Field.toBytes (placement e.1).shareCommitment3 })

/-- Four orders are placed and nothing else happens. -/
def Placed (s : PrivateState) : Prop :=
  s.orders.map orderView = openings.zipIdx.map placementView ∧ s.market.marketId = 1 ∧
    s.market.stakeAmount = 5000000

instance (s : PrivateState) : Decidable (Placed s) := inferInstanceAs (Decidable (_ ∧ _))

theorem placed_orders : (created >>= fun init => executeAll market init (openings.map place)).toOption.map
    (fun s => decide (Placed s)) = some true := by
  decide +kernel

/-- A share carries what a member reads of an order. -/
def namesView (view : Nat × Bytes32 × ShareCommitments) (share : CommitteeShare) : Prop :=
  share.orderIndex = view.1 ∧ share.orderCommitment = ofBeBytes view.2.1.toList ∧
    share.expectedShareCommitment = ofBeBytes (commitmentOf view.2.2 share.memberIndex).toList

instance (view : Nat × Bytes32 × ShareCommitments) (share : CommitteeShare) :
    Decidable (namesView view share) := inferInstanceAs (Decidable (_ ∧ _))

theorem submissions_accepted (i : MemberIndex) :
    ((CommitteeMember.submitAll poseidon (CommitteeMember.new i) (submissions i)).toOption.isSome &&
      ((submissions i).all fun share => (openings.zipIdx.map placementView).any fun view =>
        namesView view share) &&
      ((openings.zipIdx.map placementView).all fun view => (submissions i).any fun share =>
        share.market = marketName ∧ namesView view share) &&
      ((submissions i).all fun share => (bundlePairs poseidon share).all fun p =>
        (hashOf p.1 p.2).isSome)) = true := by
  cases i <;> decide +kernel

theorem submitAll_run {P : Poseidon} {m m' : CommitteeMember} {inputs : List CommitteeShare}
    (h : CommitteeMember.submitAll P m inputs = .ok m') : Run (Submits P) m inputs m' := by
  induction inputs generalizing m with
  | nil =>
    cases h
    exact .nil _
  | cons input rest ih =>
    obtain ⟨next, hnext, hrest⟩ := bind_eq_ok.mp h
    exact .cons hnext (ih hrest)

/-- Every member accepted the shares of the four orders. -/
theorem served {s : PrivateState} (h : Placed s) (i : MemberIndex) :
    ∃ m, Served poseidon hashed s marketName i (submissions i) m := by
  have haccepted := submissions_accepted i
  simp only [Bool.and_eq_true, List.all_eq_true, List.any_eq_true, decide_eq_true_eq] at haccepted
  obtain ⟨⟨⟨hsome, hnamed⟩, hcomplete⟩, hhashed⟩ := haccepted
  obtain ⟨m, hm⟩ := Option.isSome_iff_exists.mp hsome
  refine ⟨m, submitAll_run (toOption_eq_some.mp hm), ?_, ?_, ?_⟩
  · intro share hshare _
    obtain ⟨view, hview, hindex, hcommitment, hexpected⟩ := hnamed share hshare
    rw [← h.1] at hview
    obtain ⟨order, horder, rfl⟩ := List.mem_map.mp hview
    exact ⟨order, horder, hindex, hcommitment, hexpected⟩
  · intro order horder
    have hview : orderView order ∈ openings.zipIdx.map placementView := by
      rw [← h.1]
      exact List.mem_map_of_mem horder
    obtain ⟨share, hshare, hmarket, hindex, hcommitment, hexpected⟩ := hcomplete _ hview
    exact ⟨share, hshare, hmarket, hindex, hcommitment, hexpected⟩
  · intro share hshare pair hpair
    exact hhashed share hshare pair hpair

/-- The placement circuit accepted each of them. -/
theorem satisfied {s : PrivateState} (h : Placed s) :
    List.Forall₂ (Satisfies poseidon s.market) s.orders (openings.map orderWitness) := by
  obtain ⟨horders, hmarketId, hstake⟩ := h
  have hlength : s.orders.length = openings.length := by
    have hlengths := congrArg List.length horders
    simpa using hlengths
  refine List.forall₂_iff_get.mpr ⟨by rw [hlength, List.length_map], ?_⟩
  intro k hk hk'
  rw [List.length_map] at hk'
  have hview := List.getElem_of_eq horders (by rw [List.length_map]; exact hk : k < _)
  simp only [List.getElem_map, List.getElem_zipIdx, orderView, placementView, Prod.mk.injEq] at hview
  obtain ⟨-, hcommitment, hshares⟩ := hview
  have hmain := (placement_satisfied _ (List.getElem_mem hk')).1
  simp only [List.get_eq_getElem, List.getElem_map]
  refine ⟨placement openings[k], ⟨?_, ?_, hcommitment, ?_, ?_, ?_⟩, hmain⟩
  · rw [hmarketId]
    rfl
  · rw [hstake]
    rfl
  · rw [hshares]
  · rw [hshares]
  · rw [hshares]

theorem bundlesHashed : BundlesHashed poseidon hashed (openings.map orderWitness) := by
  intro w hw member pair hpair
  obtain ⟨o, ho, rfl⟩ := List.mem_map.mp hw
  have hall := (placement_satisfied o ho).2
  refine List.all_eq_true.mp hall pair ?_
  simp only [PlaceOrder.Private.pairs, List.mem_append]
  cases member with
  | one => exact .inl (.inl (.inr hpair))
  | two => exact .inl (.inr hpair)
  | three => exact .inr hpair

end Sample

/-- The third and the first member give the batch of four orders. -/
theorem reconstruction_exact_sample : ∃ s a b batch, s.orders.length = 4 ∧
    finalizeCommitteeAggregates Sample.poseidon Sample.marketName a b = .ok batch ∧
      ExactBatch Sample.poseidon s (Sample.openings.map Sample.orderWitness) Sample.marketName
        batch := by
  obtain ⟨init, s, hinit, hs, hplaced⟩ := executeAll_of_map Sample.placed_orders
  have hplaced : Sample.Placed s := of_decide_eq_true hplaced
  have hlength : s.orders.length = 4 := by
    have hlengths := congrArg List.length hplaced.1
    rw [List.length_map] at hlengths
    exact hlengths
  obtain ⟨m₁, hfirst⟩ := Sample.served hplaced .three
  obtain ⟨m₂, hsecond⟩ := Sample.served hplaced .one
  have hrun : Run (Step Sample.market) init _ s := executeAll_run hs
  obtain ⟨a, b, batch, -, -, hbatch, hexact⟩ := reconstruction_exact
    (Sample.created_of_ok hinit) hrun (Sample.satisfied hplaced) (by rw [hlength]; decide)
    (by decide +kernel) (by decide +kernel) Sample.ideal.injOn Sample.bundlesHashed
    (by decide : MemberIndex.three ≠ .one) hfirst hsecond
  exact ⟨s, a, b, batch, hlength, hbatch, hexact⟩

end Nortia.PrivatePool
