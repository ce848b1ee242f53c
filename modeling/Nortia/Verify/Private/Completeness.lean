import Nortia.Services.ProverRequests
import Nortia.Verify.Private.Capacity
import Nortia.Verify.Private.Relay
import Nortia.Verify.Private.Tree

/-!
# The owner of an order can redeem it

The dashboard reads the orders of a resolved market, takes the path and the payout of one of them,
and hands the values to a prover. They satisfy the circuit, pass the checks of the hosted prover,
and are the public inputs that the program rebuilds.
-/

namespace Nortia.PrivatePool

open Lib Circuit Client Web Services

variable {rt : PrivateRuntime} {s : PrivateState} {tr : List Event} {os : List Opening}
  {o : Opening} {init : PrivateState} {P : Poseidon} {market : Market} {key recipient : Pubkey}
  {position : PrivatePosition} {isOnCurve : Pubkey → Bool}

/-! ## What is written reads as itself -/

theorem inField_natCast {n : Nat} (h : n ≤ u64Max) : inField (n : Int) = true := by
  have hbound : u64Max < scalarModulus := by decide
  rw [inField_iff]
  omega

theorem inField_val (x : Field) : inField (x.val : Int) = true :=
  inField_iff.mpr ⟨Int.natCast_nonneg _, Int.ofNat_lt.mpr (ZMod.val_lt x)⟩

/-- An integer of the field is its own residue. -/
theorem val_of_inField {n : Int} (hn : inField n = true) : ((n : Field).val : Int) = n := by
  refine eq_of_cast_eq (inField_iff.mp (inField_val _)) (inField_iff.mp hn) ?_
  rw [Int.cast_natCast, ZMod.natCast_zmod_val]

theorem parse_fieldHex_int {n : Int} (hn : inField n = true) :
    BigInt.parse (fieldHex n).toList = some n := by
  obtain ⟨hnonneg, -⟩ := inField_iff.mp hn
  obtain ⟨k, rfl⟩ := Int.eq_ofNat_of_zero_le hnonneg
  exact parse_fieldHex k

theorem parse_toString (n : Nat) : BigInt.parse (toString (n : Int)).toList = some (n : Int) :=
  BigInt.parse_repr n

theorem fieldOfText_of_parse {text : String} {n : Int} (h : BigInt.parse text.toList = some n) :
    fieldOfText text = .ok n := by
  rw [fieldOfText, h]
  rfl

/-- The circuit reads the field element. -/
theorem readField_fieldHex {n : Int} (hn : inField n = true) :
    RedeemInputs.readField (fieldHex n) = some (n : Field) :=
  RedeemInputs.readField_of_parse (parse_fieldHex_int hn) (inField_iff.mp hn)

theorem mapM_readField : ∀ {siblings : List Int}, (∀ x ∈ siblings, inField x = true) →
    (siblings.map fieldHex).mapM RedeemInputs.readField = some (siblings.map Int.cast) := by
  intro siblings
  induction siblings with
  | nil =>
    intro _
    rfl
  | cons sibling rest ih =>
    intro h
    rw [List.forall_mem_cons] at h
    rw [List.map_cons, List.mapM_cons, readField_fieldHex h.1, ih h.2]
    rfl

/-- The hosted prover reads the field element. -/
theorem field_fieldHex {n : Int} (hn : inField n = true) (name : String) :
    ProverRequests.field (some (.string (fieldHex n))) name = .ok n := by
  obtain ⟨hnonneg, hlt⟩ := inField_iff.mp hn
  have hword : Hex.isWord (fieldHex n).toList = true := by
    obtain ⟨k, rfl⟩ := Int.eq_ofNat_of_zero_le hnonneg
    have hpow : scalarModulus < 16 ^ 64 := by decide
    rw [fieldHex_toList]
    exact Hex.isWord_padStart (by omega)
  have hvalue : ProverRequests.bigInt (fieldHex n) = n := by
    rw [ProverRequests.bigInt, parse_fieldHex_int hn]
    rfl
  rw [ProverRequests.field]
  refine bind_eq_ok.mpr ⟨_, okOr_eq_ok.mpr rfl, ?_⟩
  refine bind_eq_ok.mpr ⟨(), require_eq_ok.mpr hword, ?_⟩
  rw [hvalue]
  exact bind_eq_ok.mpr ⟨(), require_eq_ok.mpr hlt, rfl⟩

theorem checkedSiblings_fieldHex : ∀ {siblings : List Int} (index : Nat),
    (∀ x ∈ siblings, inField x = true) → ProverRequests.checkedSiblings
      (siblings.map fun sibling => .string (fieldHex sibling)) index = .ok siblings := by
  intro siblings
  induction siblings with
  | nil =>
    intro index _
    rfl
  | cons sibling rest ih =>
    intro index h
    rw [List.forall_mem_cons] at h
    rw [List.map_cons, ProverRequests.checkedSiblings]
    refine bind_eq_ok.mpr ⟨sibling, field_fieldHex h.1 _, ?_⟩
    exact bind_eq_ok.mpr ⟨rest, ih (index + 1) h.2, rfl⟩

theorem bigInt_toString (n : Nat) : ProverRequests.bigInt (toString (n : Int)) = n := by
  rw [ProverRequests.bigInt, parse_toString]
  rfl

/-- The hosted prover reads the amount. -/
theorem decimalU64_toString {n : Nat} (hn : n ≤ u64Max) (name : String) :
    ProverRequests.decimalU64 (some (.string (toString (n : Int)))) name = .ok (n : Int) := by
  have hdigits : Decimal.isDigits (toString (n : Int)).toList = true := Decimal.isDigits_repr n
  rw [ProverRequests.decimalU64]
  refine bind_eq_ok.mpr ⟨_, okOr_eq_ok.mpr rfl, ?_⟩
  refine bind_eq_ok.mpr ⟨(), require_eq_ok.mpr hdigits, ?_⟩
  rw [bigInt_toString]
  exact bind_eq_ok.mpr ⟨(), require_eq_ok.mpr (Int.ofNat_le.mpr hn), rfl⟩

/-- The stakes the program allows are those the hosted prover allows. -/
theorem privateStake_toString (h : validPrivateStakeAmount market.stakeAmount = true) :
    ProverRequests.privateStake (some (.string (toString (market.stakeAmount : Int)))) =
      .ok (market.stakeAmount : Int) := by
  have hle := (validPrivateStakeAmount_bounds h).2
  rw [ProverRequests.privateStake]
  refine bind_eq_ok.mpr ⟨_, decimalU64_toString (hle.trans (by decide)) _, ?_⟩
  refine bind_eq_ok.mpr ⟨(), require_eq_ok.mpr ?_, rfl⟩
  have hallowed : ∀ amount ∈ privateStakeAmounts, ([1, 5, 10, 25, 50, 100, 250, 500, 1000].any
      fun tokens : Int => tokens * 1000000 = (amount : Int)) = true := by decide
  rw [validPrivateStakeAmount, Bool.and_eq_true] at h
  exact hallowed _ (of_decide_eq_true h.1)

/-! ## The batch as the dashboard sees it -/

/-- The orders of the market among all accounts, in whatever sequence these come. -/
theorem marketOrders_eq (hinit : Created init) (hrun : Run (Step rt) init tr s)
    {orders : List Order} (horders :
      (orders.filter fun order => order.market = key).Perm s.orders) :
    marketOrders orders key = s.orders := by
  have hindices := (numbered_run hinit hrun).indices
  have hsorted : s.orders.Pairwise fun left right => left.orderIndex < right.orderIndex := by
    have hrange := List.pairwise_lt_range (n := s.market.orderCount)
    rw [← hindices] at hrange
    exact List.pairwise_map.mp hrange
  have hmerged := @List.pairwise_mergeSort Order
    (fun left right => decide (left.orderIndex ≤ right.orderIndex))
    (fun a b c hab hbc => by
      simp only [decide_eq_true_eq] at hab hbc ⊢
      exact hab.trans hbc)
    (fun a b => by
      simp only [Bool.or_eq_true, decide_eq_true_eq]
      exact Nat.le_total _ _)
    (orders.filter fun order => order.market = key)
  have hperm : (marketOrders orders key).Perm s.orders := (List.mergeSort_perm _ _).trans horders
  have hnodup : (s.orders.map (·.orderIndex)).Nodup := hindices ▸ List.nodup_range
  refine List.Perm.eq_of_pairwise ?_ hmerged (hsorted.imp fun h => decide_eq_true h.le) hperm
  -- orders of one index are the same order
  intro a b ha hb hab hba
  have hle : a.orderIndex = b.orderIndex :=
    Nat.le_antisymm (of_decide_eq_true hab) (of_decide_eq_true hba)
  exact List.inj_on_of_nodup_map hnodup (hperm.mem_iff.mp ha) hb hle

/-- The leaves of the dashboard are the commitments of the openings. -/
theorem orderLeaves_eq (h : s.orders.map (·.commitment) = os.map fun o =>
    Field.toBytes (o.commitment P s.market.marketId s.market.stakeAmount)) :
    orderLeaves s = leaves P s.market os := by
  have hbytes := congrArg (List.map fun bytes : Bytes32 => (ofBeBytes bytes.toList : Int)) h
  rw [List.map_map, List.map_map] at hbytes
  refine hbytes.trans (List.map_congr_left fun o _ => ?_)
  simp only [Function.comp_apply, Field.ofBeBytes_toBytes]

theorem inField_leaves : ∀ x ∈ leaves P market os, inField x = true := by
  intro x hx
  obtain ⟨o, -, rfl⟩ := List.mem_map.mp hx
  exact inField_val _

/-- A position as the panel stores it for an order: numbers in decimal, field elements in hex. -/
structure Keeps (P : Poseidon) (market : Market) (position : PrivatePosition) (o : Opening) :
    Prop where
  commitment : position.commitment =
    fieldHex ((o.commitment P market.marketId market.stakeAmount).val : Int)
  stakeAmount : position.stakeAmount = toString (market.stakeAmount : Int)
  amount : position.amount = toString (o.amount : Int)
  side : decide (position.side = .yes) = o.side
  secret : position.secret = fieldHex (o.secret.val : Int)
  nullifier : position.nullifier = fieldHex (o.nullifier.val : Int)

/-- What the dashboard computes for an order with a path. -/
def orderValues (P : Poseidon) (market : Market) (key recipient : Pubkey) (o : Opening)
    (path : CommitmentPath) : RedeemValues where
  market := key
  recipient
  marketId := market.marketId
  stakeAmount := market.stakeAmount
  expectedRoot := path.root
  outcome := market.outcome = 1
  nullifierHash := Client.nullifierHash P market.marketId o.nullifier.val
  recipientHash := poseidonHash P (ofLeBytes (recipient.toList.take 16))
    (ofLeBytes (recipient.toList.drop 16))
  netPool := market.netPool
  winningAmount := market.winningAmount
  payoutAmount := payout market o
  path

/-- The client computes the payout. -/
theorem calculatePrivatePayout_payout {winner : Bool} (hmin : minWagerAmount ≤ o.amount)
    (hmax : o.amount ≤ market.stakeAmount) (hwinners : 0 < market.winningAmount)
    (hwinner : winner = decide (o.side = decide (market.outcome = 1))) :
    ∃ paid, calculatePrivatePayout market.stakeAmount o.amount winner market.netPool
      market.winningAmount = .ok paid ∧ paid.payoutAmount = payout market o := by
  have hpos : 0 < o.amount := Nat.lt_of_lt_of_le (by decide) hmin
  rw [calculatePrivatePayout, require_pos ⟨by omega, by omega, by omega⟩, ok_bind,
    require_pos ⟨by omega, by omega⟩, ok_bind]
  refine ⟨_, rfl, ?_⟩
  rw [payout_eq, hwinner, Nat.cast_add, Nat.cast_sub hmax]
  by_cases hside : o.side = decide (market.outcome = 1)
  · rw [if_pos hside, if_pos (decide_eq_true hside)]
    rfl
  · rw [if_neg hside, if_neg (by rw [decide_eq_true_eq]; exact hside)]
    rfl

/-- The place of an order in its batch, and the path of that place, on which everyone agrees. -/
structure PathOf (P : Poseidon) (market : Market) (os : List Opening) (o : Opening) (i : Nat)
    (path : CommitmentPath) : Prop where
  found : (leaves P market os).idxOf?
    ((o.commitment P market.marketId market.stakeAmount).val : Int) = some i
  agrees : Agreement P (leaves P market os) i
    ((o.commitment P market.marketId market.stakeAmount).val : Int) path
  root : market.commitmentRoot = Field.toBytes (path.root : Field)
  inField_root : inField path.root = true

/-- **Every order has its path** to the root on chain. -/
theorem TrueBatch.pathOf (hB : TrueBatch P market os) (ho : o ∈ os) :
    ∃ i path, PathOf P market os o i path := by
  have hmem : ((o.commitment P market.marketId market.stakeAmount).val : Int) ∈
      leaves P market os := List.mem_map_of_mem (f := fun o : Opening =>
        ((o.commitment P market.marketId market.stakeAmount).val : Int)) ho
  obtain ⟨i, hfound⟩ := Option.isSome_iff_exists.mp (List.isSome_idxOf?.mpr hmem)
  obtain ⟨hi, hleaf, -⟩ := List.idxOf?_eq_some_iff.mp hfound
  obtain ⟨root, hroot, hbytes⟩ := hB.root
  obtain ⟨hlength, hnode, -⟩ := commitmentRoot_ok hroot
  obtain ⟨path, hagrees⟩ := agreement (P := P) inField_leaves hi hlength
  rw [hleaf] at hagrees
  obtain rfl : path.root = root := Except.ok.inj (hagrees.committee.symm.trans hroot)
  refine ⟨i, path, hfound, hagrees, hbytes, ?_⟩
  rw [hnode]
  exact inField_node inField_leaves _ _

/-! ## The values of the dashboard -/

/-- An order of a settled market, its position and its path: what the values follow from. -/
structure Owned (P : Poseidon) (market : Market) (os : List Opening) (o : Opening)
    (position : PrivatePosition) (i : Nat) (path : CommitmentPath) : Prop where
  widths : Widths market
  marketId_pos : 0 < market.marketId
  stake : validPrivateStakeAmount market.stakeAmount = true
  winners : 0 < market.winningAmount
  minAmount : minWagerAmount ≤ o.amount
  maxAmount : o.amount ≤ market.stakeAmount
  secret : o.secret ≠ 0
  nullifier : o.nullifier ≠ 0
  payout_le : payout market o ≤ u64Max
  keeps : Keeps P market position o
  path : PathOf P market os o i path

section Owned

variable {i : Nat} {path : CommitmentPath} (h : Owned P market os o position i path)

include h

/-- **The dashboard assembles the values** from the account and the orders. -/
theorem Owned.redeemValues_eq {orders : List Order} (hresolved : market.phase = .resolved)
    (horders : ((marketOrders orders key).map fun order =>
      fieldOfBytes order.commitment.toList) = leaves P market os) (recipient : Pubkey) :
    redeemValues P market orders position key recipient =
      .ok (orderValues P market key recipient o path) := by
  have hroot : fieldOfBytes market.commitmentRoot.toList = path.root := by
    rw [h.path.root, fieldOfBytes, Field.ofBeBytes_toBytes]
    exact val_of_inField h.path.inField_root
  have hcommitment : fieldOfText position.commitment = .ok _ :=
    fieldOfText_of_parse (by rw [h.keeps.commitment]; exact parse_fieldHex _)
  have hamount : fieldOfText position.amount = .ok _ :=
    fieldOfText_of_parse (by rw [h.keeps.amount]; exact parse_toString _)
  have hcollateral : fieldOfText position.stakeAmount = .ok _ :=
    fieldOfText_of_parse (by rw [h.keeps.stakeAmount]; exact parse_toString _)
  have hnullifier : fieldOfText position.nullifier = .ok _ :=
    fieldOfText_of_parse (by rw [h.keeps.nullifier]; exact parse_fieldHex _)
  have hwinning : (if market.outcome = 1 then (market.yesAmount : Int) else market.noAmount) =
      market.winningAmount := by
    rw [Market.winningAmount]
    split
    · rfl
    · rfl
  have hwinner : decide (decide (position.side = .yes) = decide (market.outcome = 1)) =
      decide (o.side = decide (market.outcome = 1)) := by
    rw [h.keeps.side]
  obtain ⟨paid, hpaid, hpayout⟩ :=
    calculatePrivatePayout_payout h.minAmount h.maxAmount h.winners hwinner
  have hhash : solanaPublicKeyHash P recipient.toList = .ok (poseidonHash P
      (ofLeBytes (recipient.toList.take 16)) (ofLeBytes (recipient.toList.drop 16))) := by
    rw [solanaPublicKeyHash, require_pos recipient.length_toList, ok_bind]
  rw [redeemValues]
  simp only [horders, hwinning]
  refine bind_eq_ok.mpr ⟨(), require_eq_ok.mpr hresolved, ?_⟩
  refine bind_eq_ok.mpr ⟨_, hcommitment, ?_⟩
  refine bind_eq_ok.mpr ⟨i, okOr_eq_ok.mpr h.path.found, ?_⟩
  refine bind_eq_ok.mpr ⟨path, h.path.agrees.returned, ?_⟩
  refine bind_eq_ok.mpr ⟨(), require_eq_ok.mpr hroot.symm, ?_⟩
  refine bind_eq_ok.mpr ⟨_, hamount, ?_⟩
  refine bind_eq_ok.mpr ⟨_, hcollateral, ?_⟩
  refine bind_eq_ok.mpr ⟨(), require_eq_ok.mpr rfl, ?_⟩
  refine bind_eq_ok.mpr ⟨paid, hpaid, ?_⟩
  refine bind_eq_ok.mpr ⟨_, hnullifier, ?_⟩
  refine bind_eq_ok.mpr ⟨_, hhash, ?_⟩
  rw [hroot, hpayout]
  rfl

/-- Up to the proof, `redeem` succeeds for every recipient but the connected wallet. -/
theorem Owned.redeem_eq {orders : List Order} (hresolved : market.phase = .resolved)
    (horders : ((marketOrders orders key).map fun order =>
      fieldOfBytes order.commitment.toList) = leaves P market os)
    (hcurve : isOnCurve recipient = true) {wallet : Pubkey} (hwallet : recipient ≠ wallet)
    {payoutRecipient : String}
    (htext : publicKey (String.ofList (BigInt.trim payoutRecipient.toList)) = .ok recipient)
    {fetchMarket : Pubkey → Except String Market} (hfetch : fetchMarket key = .ok market) :
    Web.redeem P isOnCurve fetchMarket orders wallet payoutRecipient (toBase58 key) position =
      .ok (orderValues P market key recipient o path) := by
  rw [Web.redeem]
  refine bind_eq_ok.mpr ⟨recipient, htext, ?_⟩
  refine bind_eq_ok.mpr ⟨(), require_eq_ok.mpr hcurve, ?_⟩
  refine bind_eq_ok.mpr ⟨(), require_eq_ok.mpr hwallet, ?_⟩
  refine bind_eq_ok.mpr ⟨key, publicKey_toBase58 key, ?_⟩
  exact bind_eq_ok.mpr ⟨market, hfetch, h.redeemValues_eq hresolved horders recipient⟩

theorem Owned.amount_le : o.amount ≤ u64Max := h.maxAmount.trans h.widths.stake

theorem Owned.lengths : path.pathBits.length = treeDepth ∧ path.siblings.length = treeDepth := by
  obtain ⟨hbits, hsiblings, -⟩ := merkleRoot_ok.mp h.path.agrees.client
  exact ⟨hbits, hsiblings⟩

end Owned

/-! ## The circuit -/

section Circuit

variable {i : Nat} {path : CommitmentPath} (h : Owned rt.poseidon market os o position i path)

include h

/-- The public inputs are those the program expects. -/
theorem Owned.readPublic_eq : (browserInputs
    (orderValues rt.poseidon market key recipient o path) position).readPublic =
      some (expectedPublic rt market path.root recipient (rt.poseidon market.marketId o.nullifier)
        (payout market o)) := by
  have hhash : ∀ left right : Int, RedeemInputs.readField
      (fieldHex (poseidonHash rt.poseidon left right)) = some (rt.poseidon left right) := by
    intro left right
    rw [readField_fieldHex (inField_poseidonHash _ _ _), cast_poseidonHash]
  simp only [RedeemInputs.readPublic, browserInputs, orderValues, Client.nullifierHash, hhash,
    readField_fieldHex (inField_natCast h.widths.marketId),
    readField_fieldHex (inField_natCast h.widths.stake),
    readField_fieldHex (inField_natCast h.widths.netPool),
    readField_fieldHex (inField_natCast h.widths.winningAmount),
    readField_fieldHex (inField_natCast h.payout_le), readField_fieldHex h.path.inField_root,
    Option.bind_eq_bind, Option.bind_some, Int.cast_natCast, ZMod.natCast_zmod_val]
  rfl

/-- The private inputs are the opening and the path of the order. -/
theorem Owned.readPrivate_eq (key recipient : Pubkey) : ∃ w : Redeem.Private,
    (browserInputs (orderValues rt.poseidon market key recipient o path) position).readPrivate =
      some w ∧ w.opening = o ∧ w.path = path.pathBits.zip (path.siblings.map Int.cast) := by
  obtain ⟨hbits, hsiblings⟩ := h.lengths
  have hlengths : path.pathBits.length = treeDepth ∧
      (path.siblings.map (Int.cast : Int → Field)).length = treeDepth :=
    ⟨hbits, (List.length_map _).trans hsiblings⟩
  have hamount := RedeemInputs.readU64_of_parse (parse_toString o.amount) h.amount_le
  refine ⟨⟨o.amount, o.side, o.secret, o.nullifier, path.pathBits, path.siblings.map Int.cast,
    h.amount_le, hlengths.1, hlengths.2⟩, ?_, rfl, rfl⟩
  simp only [RedeemInputs.readPrivate, browserInputs, orderValues, h.keeps.amount, h.keeps.secret,
    h.keeps.nullifier, h.keeps.side, hamount, readField_fieldHex (inField_val _),
    mapM_readField h.path.agrees.siblings, Option.bind_eq_bind, Option.bind_some, Int.cast_natCast,
    ZMod.natCast_zmod_val, dif_pos hlengths]

/-- **The values satisfy the circuit**, and are what the program rebuilds. -/
theorem Owned.satisfies (key : Pubkey) (houtcome : market.outcome = 0 ∨ market.outcome = 1)
    (hrecipient : rt.poseidon (Zk.pubkeyFields recipient).1 (Zk.pubkeyFields recipient).2 ≠ 0) :
    ∃ (pub : Redeem.Public) (w : Redeem.Private),
      (browserInputs (orderValues rt.poseidon market key recipient o path) position).readPublic =
        some pub ∧
      (browserInputs (orderValues rt.poseidon market key recipient o path) position).readPrivate =
        some w ∧
      Redeem.main rt.poseidon pub w ∧
      pub.fields.map Field.toBytes = Zk.redeemFields rt market recipient
        (nullifierBytes rt.poseidon market o) (payout market o) := by
  obtain ⟨w, hw, hopening, hpath⟩ := h.readPrivate_eq key recipient
  have hroot : Redeem.merkleRoot rt.poseidon
      (w.opening.commitment rt.poseidon market.marketId market.stakeAmount) w.path = path.root := by
    rw [hopening, hpath, ← h.path.agrees.circuit, Int.cast_natCast, ZMod.natCast_zmod_val]
  refine ⟨_, w, h.readPublic_eq, hw, ?_,
    expectedPublic_bytes h.widths houtcome h.path.root recipient _ h.payout_le⟩
  obtain rfl : w.opening = o := hopening
  exact redeem_main h.widths h.winners h.payout_le h.minAmount h.maxAmount hroot hrecipient
    h.secret h.nullifier

end Circuit

/-! ## The hosted prover -/

/-- The request as the hosted prover accepts it. -/
def hostedInput (values : RedeemValues) (position : PrivatePosition) :
    ProverRequests.RedeemRequest where
  marketId := toString values.marketId
  stakeAmount := toString values.stakeAmount
  amount := position.amount
  commitmentRoot := fieldHex values.expectedRoot
  outcome := values.outcome
  recipient := toBase58 values.recipient
  payoutAmount := toString values.payoutAmount
  netPool := toString values.netPool
  winningAmount := toString values.winningAmount
  side := position.side = .yes
  secret := position.secret
  nullifier := position.nullifier
  pathBits := values.path.pathBits
  siblings := values.path.siblings.map fieldHex

theorem mapM_asBool : ∀ bits : List Bool, (bits.map Json.bool).mapM Json.asBool = some bits := by
  intro bits
  induction bits with
  | nil => rfl
  | cons bit rest ih =>
    rw [List.map_cons, List.mapM_cons, ih]
    rfl

theorem val_ne_zero {x : Field} (h : x ≠ 0) : (x.val : Int) ≠ 0 := by
  rw [Int.natCast_ne_zero]
  exact fun hzero => h ((ZMod.val_eq_zero x).mp hzero)

section Hosted

variable {i : Nat} {path : CommitmentPath} (h : Owned P market os o position i path)

include h

theorem Owned.field_secret : ProverRequests.field (some (.string position.secret)) "secret" =
    .ok (o.secret.val : Int) := by
  rw [h.keeps.secret]
  exact field_fieldHex (inField_val _) _

theorem Owned.field_nullifier :
    ProverRequests.field (some (.string position.nullifier)) "nullifier" =
      .ok (o.nullifier.val : Int) := by
  rw [h.keeps.nullifier]
  exact field_fieldHex (inField_val _) _

/-- **The hosted prover accepts the values.** -/
theorem Owned.checkedRedeem_eq (hcurve : isOnCurve recipient = true) :
    ProverRequests.checkedRedeem isOnCurve
        (hostedRequest (orderValues P market key recipient o path) position) =
      .ok (hostedInput (orderValues P market key recipient o path) position) := by
  obtain ⟨hbits, hsiblings⟩ := h.lengths
  have hamount : ProverRequests.decimalU64 (some (.string position.amount)) "amount" =
      .ok (o.amount : Int) := by
    rw [h.keeps.amount]
    exact decimalU64_toString h.amount_le _
  have hwithin : (1000000 : Int) ≤ o.amount ∧ (o.amount : Int) ≤ market.stakeAmount :=
    ⟨Int.ofNat_le.mpr h.minAmount, Int.ofNat_le.mpr h.maxAmount⟩
  have hwinning : (market.winningAmount : Int) ≠ 0 := Int.natCast_ne_zero.mpr h.winners.ne'
  have hwinner : decide (decide (position.side = .yes) = decide (market.outcome = 1)) =
      decide (o.side = decide (market.outcome = 1)) := by
    rw [h.keeps.side]
  obtain ⟨paid, hpaid, hpayout⟩ :=
    calculatePrivatePayout_payout h.minAmount h.maxAmount h.winners hwinner
  have hmarketId : 0 < ProverRequests.bigInt (toString (market.marketId : Int)) ∧
      ProverRequests.bigInt (toString (market.marketId : Int)) ≤ u64Max := by
    have hpos := h.marketId_pos
    have hle := h.widths.marketId
    rw [bigInt_toString]
    omega
  have hsiblingTexts : (path.siblings.map fun sibling => Json.string (fieldHex sibling)).filterMap
      Json.asString = path.siblings.map fieldHex := by
    rw [List.filterMap_map]
    exact congrFun List.filterMap_eq_map _
  rw [ProverRequests.checkedRedeem]
  refine bind_eq_ok.mpr ⟨(), require_eq_ok.mpr rfl, ?_⟩
  refine bind_eq_ok.mpr ⟨toString (market.marketId : Int), okOr_eq_ok.mpr rfl, ?_⟩
  refine bind_eq_ok.mpr ⟨(), require_eq_ok.mpr (Decimal.isDigits_repr _), ?_⟩
  refine bind_eq_ok.mpr ⟨_, privateStake_toString h.stake, ?_⟩
  refine bind_eq_ok.mpr ⟨_, hamount, ?_⟩
  refine bind_eq_ok.mpr ⟨_, decimalU64_toString h.payout_le _, ?_⟩
  refine bind_eq_ok.mpr ⟨_, decimalU64_toString h.widths.netPool _, ?_⟩
  refine bind_eq_ok.mpr ⟨_, decimalU64_toString h.widths.winningAmount _, ?_⟩
  refine bind_eq_ok.mpr ⟨(), require_eq_ok.mpr hwithin, ?_⟩
  refine bind_eq_ok.mpr ⟨(), require_eq_ok.mpr hwinning, ?_⟩
  refine bind_eq_ok.mpr ⟨toBase58 recipient, okOr_eq_ok.mpr rfl, ?_⟩
  refine bind_eq_ok.mpr ⟨decide (market.outcome = 1), okOr_eq_ok.mpr rfl, ?_⟩
  refine bind_eq_ok.mpr ⟨decide (position.side = .yes), okOr_eq_ok.mpr rfl, ?_⟩
  refine bind_eq_ok.mpr ⟨paid, hpaid, ?_⟩
  refine bind_eq_ok.mpr ⟨(), require_eq_ok.mpr hpayout.symm, ?_⟩
  refine bind_eq_ok.mpr ⟨path.pathBits.map Json.bool, okOr_eq_ok.mpr rfl, ?_⟩
  refine bind_eq_ok.mpr ⟨(), require_eq_ok.mpr ((List.length_map _).trans hbits), ?_⟩
  refine bind_eq_ok.mpr ⟨path.pathBits, okOr_eq_ok.mpr (mapM_asBool _), ?_⟩
  refine bind_eq_ok.mpr
    ⟨path.siblings.map fun sibling => .string (fieldHex sibling), okOr_eq_ok.mpr rfl, ?_⟩
  refine bind_eq_ok.mpr ⟨(), require_eq_ok.mpr ((List.length_map _).trans hsiblings), ?_⟩
  refine bind_eq_ok.mpr ⟨(), require_eq_ok.mpr hmarketId, ?_⟩
  refine bind_eq_ok.mpr ⟨recipient, publicKey_toBase58 recipient, ?_⟩
  refine bind_eq_ok.mpr ⟨(), require_eq_ok.mpr hcurve, ?_⟩
  refine bind_eq_ok.mpr ⟨path.root, field_fieldHex h.path.inField_root _, ?_⟩
  refine bind_eq_ok.mpr ⟨_, h.field_secret, ?_⟩
  refine bind_eq_ok.mpr ⟨(), require_eq_ok.mpr (val_ne_zero h.secret), ?_⟩
  refine bind_eq_ok.mpr ⟨_, h.field_nullifier, ?_⟩
  refine bind_eq_ok.mpr ⟨(), require_eq_ok.mpr (val_ne_zero h.nullifier), ?_⟩
  refine bind_eq_ok.mpr ⟨_, checkedSiblings_fieldHex 0 h.path.agrees.siblings, ?_⟩
  rw [hsiblingTexts]
  rfl

/-- **The hosted prover hands the circuit the same inputs** as the prover in the browser. -/
theorem Owned.proveRedeem_eq (key recipient : Pubkey) : ProverRequests.proveRedeem P
    (hostedInput (orderValues P market key recipient o path) position) =
      .ok (browserInputs (orderValues P market key recipient o path) position) := by
  have hcommitment : Client.orderCommitment P market.marketId market.stakeAmount o.amount o.side
      o.secret.val o.nullifier.val =
        ((o.commitment P market.marketId market.stakeAmount).val : Int) := by
    refine eq_of_cast_eq (inField_iff.mp (inField_poseidonHash _ _ _))
      (inField_iff.mp (inField_val _)) ?_
    rw [cast_orderCommitment]
    simp only [Int.cast_natCast, ZMod.natCast_zmod_val, Opening.commitment]
  have hroot := h.path.agrees.client
  rw [← hcommitment] at hroot
  have htexts : (path.siblings.map fieldHex).map Json.string =
      path.siblings.map fun sibling => .string (fieldHex sibling) := List.map_map
  have hamount : ProverRequests.bigInt position.amount = o.amount := by
    rw [h.keeps.amount]
    exact bigInt_toString _
  rw [ProverRequests.proveRedeem]
  simp only [hostedInput, orderValues, bigInt_toString, hamount, htexts, h.keeps.side]
  refine bind_eq_ok.mpr ⟨path.root, field_fieldHex h.path.inField_root _, ?_⟩
  refine bind_eq_ok.mpr ⟨_, h.field_secret, ?_⟩
  refine bind_eq_ok.mpr ⟨_, h.field_nullifier, ?_⟩
  refine bind_eq_ok.mpr ⟨_, checkedSiblings_fieldHex 0 h.path.agrees.siblings, ?_⟩
  refine bind_eq_ok.mpr ⟨path.root, hroot, ?_⟩
  refine bind_eq_ok.mpr ⟨(), require_eq_ok.mpr rfl, ?_⟩
  refine bind_eq_ok.mpr ⟨recipient, publicKey_toBase58 recipient, ?_⟩
  simp only [browserInputs, h.keeps.amount, h.keeps.secret, h.keeps.nullifier, h.keeps.side]
  rfl

end Hosted

/-! ## Over every run -/

/-- The redemption of an order, from what the dashboard assembles to what the program rebuilds. -/
structure RedemptionProved (rt : PrivateRuntime) (isOnCurve : Pubkey → Bool) (s : PrivateState)
    (orders : List Order) (position : PrivatePosition) (o : Opening) (recipient : Pubkey)
    (values : RedeemValues) : Prop where
  assembled : redeemValues rt.poseidon s.market orders position (s.marketKey rt.toRuntime)
    recipient = .ok values
  /-- With any other wallet connected, `redeem` gets there. -/
  dashboard : ∀ (wallet : Pubkey) (payoutRecipient : String)
    (fetchMarket : Pubkey → Except String Market), recipient ≠ wallet →
    publicKey (String.ofList (BigInt.trim payoutRecipient.toList)) = .ok recipient →
    fetchMarket (s.marketKey rt.toRuntime) = .ok s.market →
      Web.redeem rt.poseidon isOnCurve fetchMarket orders wallet payoutRecipient
        (toBase58 (s.marketKey rt.toRuntime)) position = .ok values
  payout : values.payoutAmount = payout s.market o ∧ values.payoutAmount ≤ u64Max
  /-- Every assertion holds, and the verifier is asked about the same nine public inputs. -/
  circuit : ∃ (pub : Redeem.Public) (w : Redeem.Private),
    (browserInputs values position).readPublic = some pub ∧
    (browserInputs values position).readPrivate = some w ∧
    Redeem.main rt.poseidon pub w ∧
    ∀ args : RedeemArgs, args.nullifierHash = Field.toBytes (values.nullifierHash : Field) →
      (args.payoutAmount : Int) = values.payoutAmount →
        pub.fields.map Field.toBytes =
          Zk.redeemFields rt s.market recipient args.nullifierHash args.payoutAmount
  /-- The hosted prover accepts the request, and hands the circuit the same inputs. -/
  hosted : ∃ input : ProverRequests.RedeemRequest,
    ProverRequests.checkedRedeem isOnCurve (hostedRequest values position) = .ok input ∧
      ProverRequests.proveRedeem rt.poseidon input = .ok (browserInputs values position)

/-- **The owner of an order can always prove its redemption.** In every resolved state of a market
that was batched truly, whichever order it is and whoever receives its payout. -/
theorem redemption_complete (hinit : Created init) (hrun : Run (Step rt) init tr s)
    (hresolved : s.market.phase = .resolved)
    (hcommitments : s.orders.map (·.commitment) = os.map fun o =>
      Field.toBytes (o.commitment rt.poseidon s.market.marketId s.market.stakeAmount))
    (hbatch : TrueBatch rt.poseidon s.market os)
    (hamounts : ∀ o ∈ os, minWagerAmount ≤ o.amount ∧ o.amount ≤ s.market.stakeAmount)
    (ho : o ∈ os) (hsecret : o.secret ≠ 0) (hnullifier : o.nullifier ≠ 0) {orders : List Order}
    (horders : (orders.filter fun order =>
      order.market = s.marketKey rt.toRuntime).Perm s.orders)
    (hkeeps : Keeps rt.poseidon s.market position o) (hcurve : isOnCurve recipient = true)
    (hrecipient : rt.poseidon (Zk.pubkeyFields recipient).1 (Zk.pubkeyFields recipient).2 ≠ 0) :
    ∃ values, RedemptionProved rt isOnCurve s orders position o recipient values := by
  have hI : Inv tr s := inv_run hinit hrun
  obtain ⟨-, -, hsettled⟩ := (phaseInv_resolved hresolved).mp hI.phase
  have hcount : os.length = s.market.orderCount := by
    rw [← hI.orders_length, ← List.length_map (f := fun order : Order => order.commitment),
      hcommitments, List.length_map]
  have hpayout : payout s.market o ≤ u64Max :=
    (hbatch.payout_le_stakes hsettled hI.stake hcount (fun o ho => (hamounts o ho).2) ho).trans
      (by decide)
  obtain ⟨i, path, hpath⟩ := hbatch.pathOf ho
  have howned : Owned rt.poseidon s.market os o position i path := {
    widths := hI.widths hsettled
    marketId_pos := marketId_pos hinit hrun
    stake := hI.stake
    winners := hsettled.winners
    minAmount := (hamounts o ho).1
    maxAmount := (hamounts o ho).2
    secret := hsecret
    nullifier := hnullifier
    payout_le := hpayout
    keeps := hkeeps
    path := hpath }
  have hleaves : ((marketOrders orders (s.marketKey rt.toRuntime)).map fun order =>
      fieldOfBytes order.commitment.toList) = leaves rt.poseidon s.market os := by
    rw [marketOrders_eq hinit hrun horders]
    exact orderLeaves_eq hcommitments
  refine ⟨orderValues rt.poseidon s.market (s.marketKey rt.toRuntime) recipient o path, ?_⟩
  constructor
  case assembled => exact howned.redeemValues_eq hresolved hleaves recipient
  case dashboard =>
    intro wallet payoutRecipient fetchMarket hwallet htext hfetch
    exact howned.redeem_eq hresolved hleaves hcurve hwallet htext hfetch
  case payout => exact ⟨rfl, Int.ofNat_le.mpr hpayout⟩
  case circuit =>
    obtain ⟨pub, w, hpub, hw, hmain, hfields⟩ :=
      howned.satisfies (s.marketKey rt.toRuntime) hsettled.outcome hrecipient
    refine ⟨pub, w, hpub, hw, hmain, ?_⟩
    intro args hargs hamount
    have hbytes : args.nullifierHash = nullifierBytes rt.poseidon s.market o := by
      rw [hargs, orderValues, Client.nullifierHash, cast_poseidonHash]
      simp only [Int.cast_natCast, ZMod.natCast_zmod_val, nullifierBytes]
    rw [hfields, hbytes, Int.ofNat_inj.mp hamount]
  case hosted => exact ⟨_, howned.checkedRedeem_eq hcurve, howned.proveRedeem_eq _ _⟩

/-! ### A concrete market -/

namespace Sample

/-- What the browser keeps of the first order. -/
def firstPosition : PrivatePosition where
  owner := toBase58 alice
  marketId := "1"
  question := ""
  side := .yes
  amount := toString ((openingAt 0).amount : Int)
  stakeAmount := toString ((5000000 : Nat) : Int)
  commitment := fieldHex
    (((openingAt 0).commitment poseidon ((1 : Nat) : Field) ((5000000 : Nat) : Field)).val : Int)
  secret := fieldHex ((openingAt 0).secret.val : Int)
  nullifier := fieldHex ((openingAt 0).nullifier.val : Int)
  marketAddress := some (.string (toBase58 marketKey))
  transactionSignature := none
  settlementSignature := none
  committeeShares := none
  createdAt := none
  status := none
  decimal := ⟨Decimal.isDigits_repr _, Decimal.isDigits_repr _⟩

end Sample

/-- The first order of a settled market, redeemed to another wallet. -/
theorem redemption_complete_sample : ∃ (s : PrivateState) (values : RedeemValues),
    s.market.phase = .resolved ∧ RedemptionProved Sample.market Ed25519.isOnCurve s s.orders
      Sample.firstPosition (Sample.openingAt 0) Sample.bob values := by
  obtain ⟨init, s, hinit, hs, hready⟩ := executeAll_of_map Sample.settled_ready
  have hready : Sample.Ready s := of_decide_eq_true hready
  have hH := Sample.honest hready
  obtain ⟨⟨hresolved, hmarketId, hstake, -⟩, -⟩ := hready
  have hamounts : ∀ o ∈ Sample.openings,
      minWagerAmount ≤ o.amount ∧ o.amount ≤ s.market.stakeAmount := by
    rw [hstake]
    decide +kernel
  have hinit := Sample.created_of_ok hinit
  have hrun := executeAll_run hs
  have hown : (s.orders.filter fun order =>
      order.market = s.marketKey Sample.market.toRuntime).Perm s.orders := by
    rw [List.filter_eq_self.mpr fun order horder =>
      decide_eq_true (orders_market hinit hrun order horder)]
  have hkeeps : Keeps Sample.poseidon s.market Sample.firstPosition (Sample.openingAt 0) := by
    constructor
    case commitment => rw [hmarketId, hstake]; rfl
    case stakeAmount => rw [hstake]; rfl
    case amount => rfl
    case side => decide +kernel
    case secret => rfl
    case nullifier => rfl
  obtain ⟨values, hvalues⟩ := redemption_complete hinit hrun hresolved hH.opens.commitments
    hH.batch hamounts (o := Sample.openingAt 0) (by decide +kernel) (by decide +kernel)
    (by decide +kernel) hown hkeeps Sample.honestRequest.recipient (by decide +kernel)
  exact ⟨s, values, hresolved, hvalues⟩

end Nortia.PrivatePool
