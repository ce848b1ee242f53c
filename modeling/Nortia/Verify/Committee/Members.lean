import Nortia.Client.Committee
import Nortia.Lib.Keyed
import Mathlib.Data.List.Sort

/-!
# What a committee member holds

A member accepts a share that passes its checks, and keeps one share for an order of a market. Its
snapshot of a market lists these shares by their orders, and its aggregate adds them up.
-/

namespace Nortia.Client

open Lib Circuit

variable {P : Poseidon} {m m' : CommitteeMember} {share share' input : CommitteeShare}
  {market : List Char}

/-! ## Accepted shares -/

/-- A share that passes the checks of `submit` at a member. -/
structure Checked (P : Poseidon) (memberIndex : MemberIndex) (share : CommitteeShare) : Prop where
  member : share.memberIndex = memberIndex
  index : isSafeInteger share.orderIndex = true ∧ 0 ≤ share.orderIndex
  signature : share.placementSignature ≠ []
  fields : ∀ entry ∈ share.fieldValues, inField entry.2 = true
  bundle : shareCommitment P share.sideShare share.yesAmountShare share.totalAmountShare share.salt =
    share.expectedShareCommitment

theorem checkFields_eq_ok {entries : List (String × Int)} {u : Unit} :
    checkFields entries = .ok u ↔ ∀ entry ∈ entries, inField entry.2 = true := by
  induction entries with
  | nil => simp [checkFields]
  | cons entry rest ih =>
    rw [checkFields, bind_eq_ok, List.forall_mem_cons]
    simp only [require_eq_ok, exists_const, ih]

/-- The market and the order a share is for. -/
def CommitteeShare.key (share : CommitteeShare) : List Char × Int := (share.market, share.orderIndex)

namespace CommitteeMember

theorem share?_eq_find (m : CommitteeMember) (market : List Char) (orderIndex : Int) :
    m.share? market orderIndex = Keyed.find CommitteeShare.key m.shares (market, orderIndex) := by
  unfold share? Keyed.find
  refine congrArg (fun p => List.find? p m.shares) (funext fun share => ?_)
  simp only [CommitteeShare.key, Prod.mk.injEq]

/-- **What a submission does**: a share that passes the checks is kept, unless one is held for its
order already, which must then say the same. -/
theorem submit_eq_ok : m.submit P input = .ok m' ↔ Checked P m.memberIndex input ∧
    ((∃ existing, m.share? input.market input.orderIndex = some existing ∧
        sameSubmission existing input = true ∧ m' = m) ∨
      (m.share? input.market input.orderIndex = none ∧
        m' = { m with shares := m.shares ++ [input] })) := by
  simp only [submit, bind_eq_ok, require_eq_ok, exists_const, checkFields_eq_ok]
  constructor
  · rintro ⟨hmember, hindex, hsignature, hfields, hbundle, hkept⟩
    refine ⟨⟨hmember, hindex, hsignature, hfields, hbundle⟩, ?_⟩
    split at hkept
    · next existing hexisting =>
      rw [bind_eq_ok] at hkept
      simp only [require_eq_ok, exists_const] at hkept
      obtain ⟨hsame, hkept⟩ := hkept
      cases hkept
      exact .inl ⟨existing, hexisting, hsame, rfl⟩
    · next hnone =>
      cases hkept
      exact .inr ⟨hnone, rfl⟩
  · rintro ⟨⟨hmember, hindex, hsignature, hfields, hbundle⟩, hkept⟩
    refine ⟨hmember, hindex, hsignature, hfields, hbundle, ?_⟩
    rcases hkept with ⟨existing, hexisting, hsame, rfl⟩ | ⟨hnone, rfl⟩
    · rw [hexisting]
      exact bind_eq_ok.mpr ⟨(), require_eq_ok.mpr hsame, rfl⟩
    · rw [hnone]

/-- A member as submissions and purges leave it: every share passed the checks, and there is one
for an order. -/
structure WellFormed (P : Poseidon) (m : CommitteeMember) : Prop where
  checked : ∀ share ∈ m.shares, Checked P m.memberIndex share
  keys : (m.shares.map CommitteeShare.key).Nodup

/-- A member that holds nothing. -/
def new (memberIndex : MemberIndex) : CommitteeMember := ⟨memberIndex, []⟩

theorem wellFormed_new (P : Poseidon) (memberIndex : MemberIndex) : WellFormed P (new memberIndex) :=
  ⟨by simp [new], List.nodup_nil⟩

theorem memberIndex_submit (h : m.submit P input = .ok m') : m'.memberIndex = m.memberIndex := by
  rcases submit_eq_ok.mp h with ⟨-, ⟨_, -, -, rfl⟩ | ⟨-, rfl⟩⟩
  · rfl
  · rfl

theorem WellFormed.submit (hm : WellFormed P m) (h : m.submit P input = .ok m') :
    WellFormed P m' := by
  rcases submit_eq_ok.mp h with ⟨hchecked, ⟨_, -, -, rfl⟩ | ⟨hnone, rfl⟩⟩
  · exact hm
  · constructor
    case checked =>
      intro share hshare
      rcases List.mem_append.mp hshare with hold | hnew
      · exact hm.checked share hold
      · rw [List.mem_singleton.mp hnew]
        exact hchecked
    case keys =>
      rw [share?_eq_find, Keyed.find_eq_none] at hnone
      rw [List.map_append, List.nodup_append]
      refine ⟨hm.keys, List.nodup_singleton _, ?_⟩
      intro key hkey other hother heq
      obtain ⟨share, hshare, rfl⟩ := List.mem_map.mp hkey
      rw [List.map_singleton, List.mem_singleton] at hother
      exact hnone share hshare (heq.trans hother)

theorem WellFormed.clearMarket (hm : WellFormed P m) (market : List Char) :
    WellFormed P (m.clearMarket market) := by
  constructor
  case checked => exact fun share hshare => hm.checked share (List.mem_filter.mp hshare).1
  case keys => exact hm.keys.sublist (List.filter_sublist.map _)

/-- An accepted share is held, up to the commitment it was expected to have. -/
theorem held_of_submit (h : m.submit P input = .ok m') : ∃ share ∈ m'.shares,
    share.key = input.key ∧ sameSubmission share input = true := by
  rcases submit_eq_ok.mp h with ⟨-, ⟨existing, hexisting, hsame, rfl⟩ | ⟨-, rfl⟩⟩
  · rw [share?_eq_find] at hexisting
    obtain ⟨hmem, hkey⟩ := Keyed.find_some hexisting
    exact ⟨existing, hmem, hkey, hsame⟩
  · exact ⟨input, by simp, rfl, by simp [sameSubmission]⟩

/-- Of one order the same submission is the same share, as the checks fix the rest of it. -/
theorem eq_of_sameSubmission {memberIndex : MemberIndex} (h : Checked P memberIndex share)
    (h' : Checked P memberIndex share') (hkey : share.key = share'.key)
    (hsame : sameSubmission share share' = true) : share = share' := by
  simp only [sameSubmission, Bool.and_eq_true, decide_eq_true_eq] at hsame
  obtain ⟨⟨⟨⟨⟨hcommitment, hside⟩, hyes⟩, htotal⟩, hsalt⟩, hsignature⟩ := hsame
  have hmember : share.memberIndex = share'.memberIndex := h.member.trans h'.member.symm
  have hexpected : share.expectedShareCommitment = share'.expectedShareCommitment := by
    rw [← h.bundle, ← h'.bundle, hside, hyes, htotal, hsalt]
  obtain ⟨hmarket, hindex⟩ := Prod.mk.inj hkey
  cases share
  cases share'
  simp only [CommitteeShare.mk.injEq]
  exact ⟨hmarket, hindex, hcommitment, hmember, hside, hyes, htotal, hsalt, hexpected, hsignature⟩

/-- An accepted share is held. -/
theorem WellFormed.mem_of_submit_self (hm : WellFormed P m) (h : m.submit P input = .ok m') :
    input ∈ m'.shares := by
  obtain ⟨hchecked, -⟩ := submit_eq_ok.mp h
  obtain ⟨share, hshare, hkey, hsame⟩ := held_of_submit h
  have hheld : Checked P m.memberIndex share := by
    rw [← memberIndex_submit h]
    exact (hm.submit h).checked share hshare
  rw [← eq_of_sameSubmission hheld hchecked hkey hsame]
  exact hshare

/-- Submissions take nothing away. -/
theorem mem_of_submit (h : m.submit P input = .ok m') (hshare : share ∈ m.shares) :
    share ∈ m'.shares := by
  rcases submit_eq_ok.mp h with ⟨-, ⟨_, -, -, rfl⟩ | ⟨-, rfl⟩⟩
  · exact hshare
  · exact List.mem_append_left _ hshare

/-- What is held after a submission was held before, or was submitted. -/
theorem mem_submit (h : m.submit P input = .ok m') (hshare : share ∈ m'.shares) :
    share ∈ m.shares ∨ share = input := by
  rcases submit_eq_ok.mp h with ⟨-, ⟨_, -, -, rfl⟩ | ⟨-, rfl⟩⟩
  · exact .inl hshare
  · rcases List.mem_append.mp hshare with hold | hnew
    · exact .inl hold
    · exact .inr (List.mem_singleton.mp hnew)

/-- Submits shares one after another. -/
def submitAll (P : Poseidon) (m : CommitteeMember) (inputs : List CommitteeShare) :
    Except String CommitteeMember :=
  inputs.foldlM (submit P) m

/-! ## Snapshots -/

theorem mem_snapshot : share ∈ m.snapshot market ↔ share ∈ m.shares ∧ share.market = market := by
  simp [snapshot, List.mem_filter]

/-- The orders of a snapshot ascend. -/
theorem WellFormed.snapshot_sorted (hm : WellFormed P m) (market : List Char) :
    (m.snapshot market).Pairwise fun left right => left.orderIndex < right.orderIndex := by
  have hle : (m.snapshot market).Pairwise fun left right => left.orderIndex ≤ right.orderIndex := by
    have hsorted := @List.pairwise_mergeSort CommitteeShare
      (fun left right => decide (left.orderIndex ≤ right.orderIndex))
      (fun a b c hab hbc => by
        simp only [decide_eq_true_eq] at hab hbc ⊢
        exact le_trans hab hbc)
      (fun a b => by
        simp only [Bool.or_eq_true, decide_eq_true_eq]
        exact le_total _ _)
      (m.shares.filter fun share => share.market = market)
    exact hsorted.imp fun h => of_decide_eq_true h
  have hkeys : ((m.snapshot market).map CommitteeShare.key).Nodup := by
    refine ((List.mergeSort_perm _ _).map _).nodup_iff.mpr ?_
    exact hm.keys.sublist (List.filter_sublist.map _)
  rw [List.Nodup, List.pairwise_map] at hkeys
  refine (hle.and hkeys).imp_of_mem ?_
  rintro left right hleft hright ⟨hle, hne⟩
  refine lt_of_le_of_ne hle fun heq => hne ?_
  rw [CommitteeShare.key, CommitteeShare.key, (mem_snapshot.mp hleft).2, (mem_snapshot.mp hright).2,
    heq]

/-- **A snapshot of the orders from zero on lists them in sequence.** -/
theorem WellFormed.snapshot_indices (hm : WellFormed P m) {n : Nat}
    (horders : ∀ i : Int, (∃ share ∈ m.shares, share.market = market ∧ share.orderIndex = i) ↔
      0 ≤ i ∧ i < n) :
    (m.snapshot market).map (·.orderIndex) = (List.range n).map fun i : Nat => (i : Int) := by
  have hsorted : ((m.snapshot market).map (·.orderIndex)).Pairwise (· < ·) :=
    List.pairwise_map.mpr (hm.snapshot_sorted market)
  have hrange : ((List.range n).map fun i : Nat => (i : Int)).Pairwise (· < ·) :=
    List.pairwise_map.mpr (List.pairwise_lt_range.imp fun h => Int.ofNat_lt.mpr h)
  refine List.Perm.eq_of_pairwise (fun a b _ _ hab hba => absurd hab (lt_asymm hba)) hsorted hrange ?_
  refine (List.perm_ext_iff_of_nodup (hsorted.imp fun h => ne_of_lt h)
    (hrange.imp fun h => ne_of_lt h)).mpr fun i => ?_
  rw [List.mem_map, List.mem_map]
  constructor
  · rintro ⟨share, hshare, rfl⟩
    obtain ⟨hmem, hmarket⟩ := mem_snapshot.mp hshare
    obtain ⟨hnonneg, hlt⟩ := (horders share.orderIndex).mp ⟨share, hmem, hmarket, rfl⟩
    exact ⟨share.orderIndex.toNat, List.mem_range.mpr (by omega), Int.toNat_of_nonneg hnonneg⟩
  · rintro ⟨k, hk, rfl⟩
    obtain ⟨share, hmem, hmarket, hindex⟩ := (horders k).mpr
      ⟨Int.natCast_nonneg k, Int.ofNat_lt.mpr (List.mem_range.mp hk)⟩
    exact ⟨share, mem_snapshot.mpr ⟨hmem, hmarket⟩, hindex⟩

end CommitteeMember

/-! ## Integers of the field -/

/-- `mod` changes an integer by a multiple of the modulus. -/
@[simp] theorem cast_mod (value : Int) : ((mod value : Int) : Field) = value := by
  have hzero : (((scalarModulus : Nat) : Int) : Field) = 0 := by
    rw [Int.cast_natCast, ZMod.natCast_self]
  have hreduced : ((value.tmod scalarModulus : Int) : Field) = value := by
    have hsplit := congrArg (fun n : Int => (n : Field)) (Int.mul_tdiv_add_tmod value scalarModulus)
    rwa [Int.cast_add, Int.cast_mul, hzero, zero_mul, zero_add] at hsplit
  unfold mod
  dsimp only
  split
  · exact hreduced
  · rw [Int.cast_add, hzero, add_zero, hreduced]

theorem inField_mod (value : Int) : inField (mod value) = true := by
  have hpos : (0 : Int) < scalarModulus := by decide
  have hlt := Int.tmod_lt_of_pos value hpos
  have hgt : -(scalarModulus : Int) < value.tmod scalarModulus := by
    have hneg := Int.tmod_lt_of_pos (-value) hpos
    rw [Int.neg_tmod] at hneg
    omega
  rw [inField_iff]
  unfold mod
  dsimp only
  split
  · exact ⟨by assumption, hlt⟩
  · constructor
    · omega
    · omega

/-- Integers of the field are equal when they are equal in the field. -/
theorem inField_ext {a b : Int} (ha : inField a = true) (hb : inField b = true)
    (h : (a : Field) = b) : a = b :=
  eq_of_cast_eq (inField_iff.mp ha) (inField_iff.mp hb) h

/-! ## Aggregates -/

namespace CommitteeMember

/-- The aggregate of no shares. -/
def noShares (market : List Char) (memberIndex : MemberIndex) : CommitteeAggregate where
  market
  memberIndex
  orderCount := 0
  aggregateSideShare := 0
  aggregateYesAmountShare := 0
  aggregateTotalAmountShare := 0
  orderCommitments := []

variable {shares : List CommitteeShare} {totals a : CommitteeAggregate}

/-- The shares are those of successive orders. -/
def Successive (first : Nat) (shares : List CommitteeShare) : Prop :=
  shares.map (·.orderIndex) = (List.range' first shares.length).map fun i : Nat => (i : Int)

theorem addShares_eq_ok :
    addShares totals shares = .ok a ↔
      Successive totals.orderCount shares ∧ shares.foldl addShare totals = a := by
  induction shares generalizing totals with
  | nil => simp [addShares, Successive]
  | cons share rest ih =>
    simp only [addShares, bind_eq_ok, require_eq_ok, exists_const, ih, List.foldl_cons, ← and_assoc]
    refine and_congr_left fun _ => ?_
    simp only [Successive, List.map_cons, List.length_cons, List.range'_succ, List.cons.injEq]
    rfl

/-- **What a member answers**: the sum of its shares of a market, of four orders or more without a
gap. -/
theorem aggregate_eq_ok : m.aggregate market = .ok a ↔
    minPrivateBatchOrders ≤ (m.snapshot market).length ∧ Successive 0 (m.snapshot market) ∧
      (m.snapshot market).foldl addShare (noShares market m.memberIndex) = a := by
  simp only [aggregate, bind_eq_ok, require_eq_ok, exists_const]
  exact and_congr_right fun _ => addShares_eq_ok

/-- An aggregate says what its shares add up to. -/
structure AddsUp (shares : List CommitteeShare) (a : CommitteeAggregate) : Prop where
  orderCount : a.orderCount = shares.length
  orderCommitments : a.orderCommitments = shares.map (·.orderCommitment)
  side : (a.aggregateSideShare : Field) = (shares.map fun s => (s.sideShare : Field)).sum
  yesAmount : (a.aggregateYesAmountShare : Field) =
    (shares.map fun s => (s.yesAmountShare : Field)).sum
  totalAmount : (a.aggregateTotalAmountShare : Field) =
    (shares.map fun s => (s.totalAmountShare : Field)).sum

theorem AddsUp.addShare (h : AddsUp shares totals) (share : CommitteeShare) :
    AddsUp (shares ++ [share]) (addShare totals share) := by
  constructor
  case orderCount => simp [CommitteeMember.addShare, h.orderCount]
  case orderCommitments => simp [CommitteeMember.addShare, h.orderCommitments]
  case side => simp [CommitteeMember.addShare, h.side]
  case yesAmount => simp [CommitteeMember.addShare, h.yesAmount]
  case totalAmount => simp [CommitteeMember.addShare, h.totalAmount]

theorem AddsUp.foldl {rest : List CommitteeShare} (h : AddsUp shares totals) :
    AddsUp (shares ++ rest) (rest.foldl CommitteeMember.addShare totals) := by
  induction rest generalizing shares totals with
  | nil =>
    rw [List.append_nil]
    exact h
  | cons share rest ih =>
    have hrest := ih (h.addShare share)
    rw [List.append_assoc, List.singleton_append] at hrest
    exact hrest

theorem addsUp_noShares (market : List Char) (memberIndex : MemberIndex) :
    AddsUp [] (noShares market memberIndex) :=
  ⟨rfl, rfl, Int.cast_zero, Int.cast_zero, Int.cast_zero⟩

theorem memberOf_foldl (shares : List CommitteeShare) (totals : CommitteeAggregate) :
    (shares.foldl CommitteeMember.addShare totals).market = totals.market ∧
    (shares.foldl CommitteeMember.addShare totals).memberIndex = totals.memberIndex := by
  induction shares generalizing totals with
  | nil => exact ⟨rfl, rfl⟩
  | cons share rest ih => exact ih _

/-- An aggregate of a member is its own, and adds its snapshot up. -/
theorem addsUp_of_aggregate (h : m.aggregate market = .ok a) :
    a.market = market ∧ a.memberIndex = m.memberIndex ∧ AddsUp (m.snapshot market) a := by
  obtain ⟨-, -, rfl⟩ := aggregate_eq_ok.mp h
  obtain ⟨hmarket, hmember⟩ := memberOf_foldl (m.snapshot market)
    (noShares market m.memberIndex)
  exact ⟨hmarket, hmember, (addsUp_noShares market m.memberIndex).foldl⟩

end CommitteeMember

end Nortia.Client
