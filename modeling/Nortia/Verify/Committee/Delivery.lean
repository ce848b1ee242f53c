import Nortia.Verify.Committee.Answers
import Nortia.Verify.Private.Placement

/-!
# What the panel delivers is accepted

Once the program has taken an order, the browser delivers a share to each member: at once, or from the
stored position when a delivery failed. Every body reads as the share of its member, agrees with the
order on chain however the market has gone on, and carries the values of the circuit.
-/

namespace Nortia.Services.CommitteeServer

open Lib Circuit Client
open Web (PlaceValues PlacementWitness StoredShare committeeShares delivery decimalField fieldHex
  deliveryPending preparedPosition retryDeliveries placeOrderArgs placeInputs
  createPlacementWitness placeValues)
open PrivatePool (PrivateState PlaceOrderAccounts Coins ShareOf orderStep map_orders_kept
  orderPlacement newOrder wager inv_run sameTerms_run placeOrder placeOrder_ok placeValues_ok
  createPlacementWitness_eq orders_market placeOrderArgs_eq orderArgs fieldOfText_of_parse
  parse_fieldHex_int inField_commitment inField_shareCommitments inField_createShamirShare
  cast_sideShare cast_yesAmountShare cast_totalAmountShare)

variable {rt : PrivateRuntime} {P : Poseidon} {market : PrivateState} {key : Pubkey} {account : Market}
  {payer : Pubkey} {amount : Nat} {side : Web.PositionSide} {coins : Coins} {order : Order}
  {share : CommitteeShare} {signature : String} {orderIndex : Nat}

/-! ## Orders stay -/

/-- What a member reads of the orders is only added to. -/
theorem orderTerms_run {market' : PrivateState} {tr : List PrivatePool.Event}
    (hrun : Run (PrivatePool.Step rt) market tr market') :
    market.orders.map orderTerms <+: market'.orders.map orderTerms := by
  refine hrun.invariant (I := fun s => market.orders.map orderTerms <+: s.orders.map orderTerms)
    ?_ List.prefix_rfl
  intro s e s' hkept h
  apply hkept.trans
  cases orderStep h with
  | placed hchecks horders hcount =>
    rw [horders, List.map_append]
    exact List.prefix_append _ _
  | kept he horders hcount => rw [map_orders_kept (fun _ => rfl) horders]

/-- An order the program took is there in every later state. -/
theorem order_of_placed {market' market'' : PrivateState} {accounts : PlaceOrderAccounts}
    {args : PlaceOrderArgs} {now : Int} {tr : List PrivatePool.Event}
    (hplaced : placeOrder rt market accounts args now = .ok market')
    (hrun : Run (PrivatePool.Step rt) market' tr market'') :
    ∃ order ∈ market''.orders, orderTerms order =
      (market.market.orderCount, args.commitment, args.shareCommitments) := by
  obtain ⟨-, -, tokens, rfl⟩ := placeOrder_ok hplaced
  have hmem : (market.market.orderCount, args.commitment, args.shareCommitments) ∈
      (market.orders ++ [newOrder rt market accounts.payer args]).map orderTerms := by
    rw [List.map_append]
    exact List.mem_append_right _ (List.mem_singleton.mpr rfl)
  exact List.mem_map.mp ((orderTerms_run hrun).subset hmem)

/-! ## The order on chain -/

theorem fieldBytes_eq {n : Int} (hn : inField n = true) :
    fieldBytes n = .ok (Field.toBytes ((n : Int) : Field)).toList := by
  obtain ⟨hnonneg, hlt⟩ := inField_iff.mp hn
  obtain ⟨k, rfl⟩ := Int.eq_ofNat_of_zero_le hnonneg
  have hk : k < scalarModulus := Int.ofNat_lt.mp hlt
  have hwide : k < 256 ^ 32 := hk.trans (by decide)
  have hbytes : beBytes 32 k = (Field.toBytes ((k : Nat) : Field)).toList := by
    show _ = beBytes 32 ((k : Nat) : Field).val
    rw [ZMod.val_natCast_of_lt hk]
  unfold fieldBytes
  refine bind_eq_ok.mpr ⟨(), require_eq_ok.mpr hnonneg, ?_⟩
  rw [Int.cast_natCast, ← hbytes]
  exact congrArg Except.ok (if_pos hwide)

/-- A share that says what the order account says. -/
structure Matches (key : Pubkey) (order : Order) (share : CommitteeShare) : Prop where
  market : share.market = (toBase58 key).toList
  index : share.orderIndex = order.orderIndex
  commitment : fieldBytes share.orderCommitment = .ok order.commitment.toList
  expected : fieldBytes share.expectedShareCommitment =
    .ok (shareCommitmentOf order share.memberIndex).toList

/-- **The service finds the order.** -/
theorem Matches.verifyOnchainOrder_eq (h : Matches key order share)
    (hnodup : (market.orders.map (·.commitment)).Nodup) (horder : order ∈ market.orders)
    (hmarket : order.market = key) {markets : Pubkey → Option PrivateState}
    (hmarkets : markets key = some market) : verifyOnchainOrder markets share = .ok () := by
  have hkey : publicKey (String.ofList share.market) = .ok key := by
    rw [h.market, String.ofList_toList]
    exact publicKey_toBase58 key
  have hnodup : (market.orders.map fun order => order.commitment.toList).Nodup := by
    have hlists := hnodup.map (f := Bytes.toList) fun _ _ heq => Bytes.ext heq
    rwa [List.map_map] at hlists
  have hfound : findOrder markets key order.commitment.toList = some order := by
    rw [findOrder, hmarkets, Option.bind_eq_bind, Option.bind_some]
    exact @Keyed.find_of_mem _ _ _ (fun order : Order => order.commitment.toList) _ _ hnodup horder
  unfold verifyOnchainOrder
  refine bind_eq_ok.mpr ⟨key, hkey, ?_⟩
  refine bind_eq_ok.mpr ⟨_, h.commitment, ?_⟩
  refine bind_eq_ok.mpr ⟨(), require_eq_ok.mpr order.commitment.length_toList.le, ?_⟩
  refine bind_eq_ok.mpr ⟨order, okOr_eq_ok.mpr hfound, ?_⟩
  refine bind_eq_ok.mpr ⟨(), require_eq_ok.mpr hmarket, ?_⟩
  refine bind_eq_ok.mpr ⟨(), require_eq_ok.mpr h.index.symm, ?_⟩
  refine bind_eq_ok.mpr ⟨(), require_eq_ok.mpr rfl, ?_⟩
  exact bind_eq_ok.mpr ⟨_, h.expected, require_eq_ok.mpr rfl⟩

/-! ## Bodies -/

/-- The body a share is delivered in. -/
def deliveryBody (share : CommitteeShare) : Json :=
  .object [
    ("market", .string (String.ofList share.market)),
    ("orderIndex", .number share.orderIndex),
    ("orderCommitment", .string (toString share.orderCommitment)),
    ("memberIndex", .number share.memberIndex.index),
    ("sideShare", .string (toString share.sideShare)),
    ("yesAmountShare", .string (toString share.yesAmountShare)),
    ("totalAmountShare", .string (toString share.totalAmountShare)),
    ("salt", .string (toString share.salt)),
    ("expectedShareCommitment", .string (toString share.expectedShareCommitment)),
    ("placementSignature", .string (String.ofList share.placementSignature))]

/-- **The service reads the share.** -/
theorem decode_deliveryBody (h : ∀ entry ∈ share.fieldValues, inField entry.2 = true) :
    decode (deliveryBody share) = some share := by
  simp only [CommitteeShare.fieldValues, List.forall_mem_cons] at h
  obtain ⟨horder, hside, hyes, htotal, hsalt, hexpected, -⟩ := h
  have hindex : integerField (deliveryBody share) "orderIndex" = some share.orderIndex :=
    integerField_int rfl
  have hmember : memberIndexField (deliveryBody share) = some share.memberIndex := by
    have hnumber : integerField (deliveryBody share) "memberIndex" =
        some (share.memberIndex.index : Int) :=
      integerField_int (by rw [Int.cast_natCast]; rfl)
    rw [memberIndexField, hnumber]
    cases share.memberIndex with
    | one => rfl
    | two => rfl
    | three => rfl
  unfold decode
  refine Option.bind_eq_some_iff.mpr ⟨_, rfl, ?_⟩
  refine Option.bind_eq_some_iff.mpr ⟨_, hindex, ?_⟩
  refine Option.bind_eq_some_iff.mpr ⟨_, hmember, ?_⟩
  refine Option.bind_eq_some_iff.mpr ⟨_, rfl, ?_⟩
  refine Option.bind_eq_some_iff.mpr ⟨_, bigIntField_toString _ _ horder rfl, ?_⟩
  refine Option.bind_eq_some_iff.mpr ⟨_, bigIntField_toString _ _ hside rfl, ?_⟩
  refine Option.bind_eq_some_iff.mpr ⟨_, bigIntField_toString _ _ hyes rfl, ?_⟩
  refine Option.bind_eq_some_iff.mpr ⟨_, bigIntField_toString _ _ htotal rfl, ?_⟩
  refine Option.bind_eq_some_iff.mpr ⟨_, bigIntField_toString _ _ hsalt rfl, ?_⟩
  refine Option.bind_eq_some_iff.mpr ⟨_, bigIntField_toString _ _ hexpected rfl, ?_⟩
  simp only [String.toList_ofList]

/-- The share of a member. -/
def sentShare (key : Pubkey) (orderIndex : Nat) (values : PlaceValues) (coins : Coins)
    (signature : String) (member : MemberIndex) : CommitteeShare where
  market := (toBase58 key).toList
  orderIndex
  orderCommitment := values.commitment
  memberIndex := member
  sideShare := (values.bundles.get member).sideShare
  yesAmountShare := (values.bundles.get member).yesAmountShare
  totalAmountShare := (values.bundles.get member).totalAmountShare
  salt := (coins.salts.get member).n
  expectedShareCommitment := values.shareCommitments.get member
  placementSignature := signature.toList

/-- What is sent of an order. -/
theorem sentShare_eq (member : MemberIndex) :
    sentShare key orderIndex (orderPlacement P account payer amount side coins) coins signature
        member =
      let bundle := Web.shareBundle side amount coins.fields member
      { market := (toBase58 key).toList
        orderIndex
        orderCommitment := (orderPlacement P account payer amount side coins).commitment
        memberIndex := member
        sideShare := bundle.sideShare
        yesAmountShare := bundle.yesAmountShare
        totalAmountShare := bundle.totalAmountShare
        salt := (coins.salts.get member).n
        expectedShareCommitment :=
          (orderPlacement P account payer amount side coins).shareCommitments.get member
        placementSignature := signature.toList } := by
  have hbundle : (orderPlacement P account payer amount side coins).bundles.get member =
      Web.shareBundle side amount coins.fields member := PerMember.get_of _ _
  rw [sentShare, hbundle]

theorem inField_shareBundle (member : MemberIndex) :
    let bundle := Web.shareBundle side amount coins.fields member
    inField bundle.sideShare = true ∧ inField bundle.yesAmountShare = true ∧
      inField bundle.totalAmountShare = true := by
  simp only [Web.shareBundle, inField_createShamirShare, and_self]

theorem inField_sentShare (member : MemberIndex) : ∀ entry ∈ (sentShare key orderIndex
    (orderPlacement P account payer amount side coins) coins signature member).fieldValues,
      inField entry.2 = true := by
  have hcommitment : inField (orderPlacement P account payer amount side coins).commitment = true :=
    inField_commitment
  have hexpected : inField ((orderPlacement P account payer amount side
      coins).shareCommitments.get member) = true := inField_shareCommitments member
  obtain ⟨hside, hyes, htotal⟩ := @inField_shareBundle amount side coins member
  rw [sentShare_eq]
  simp only [CommitteeShare.fieldValues, List.forall_mem_cons]
  refine ⟨hcommitment, hside, hyes, htotal, (coins.salts.get member).inField, hexpected, ?_⟩
  intro entry hentry
  cases hentry

/-- The stored share, delivered. -/
theorem delivery_eq (member : MemberIndex) :
    delivery (toBase58 key) orderIndex
        (fieldHex (orderPlacement P account payer amount side coins).commitment) signature
        ((committeeShares (orderPlacement P account payer amount side coins)
          coins.witness).get member) =
      .ok (deliveryBody (sentShare key orderIndex
        (orderPlacement P account payer amount side coins) coins signature member)) := by
  have hdecimal : ∀ {n : Int}, inField n = true → decimalField (fieldHex n) = .ok (toString n) := by
    intro n hn
    rw [decimalField, fieldOfText_of_parse (parse_fieldHex_int hn), ok_bind]
  have hsalt : decimalField (coins.witness.salts.get member) =
      .ok (toString ((coins.salts.get member).n : Int)) := by
    rw [coins.salts_text]
    exact hdecimal (coins.salts.get member).inField
  have hexpected : inField ((orderPlacement P account payer amount side
      coins).shareCommitments.get member) = true := inField_shareCommitments member
  have hbundle : (orderPlacement P account payer amount side coins).bundles.get member =
      Web.shareBundle side amount coins.fields member := PerMember.get_of _ _
  obtain ⟨hside, hyes, htotal⟩ := @inField_shareBundle amount side coins member
  rw [committeeShares, PerMember.get_of, hbundle, sentShare_eq]
  unfold delivery
  refine bind_eq_ok.mpr ⟨_, hdecimal inField_commitment, ?_⟩
  refine bind_eq_ok.mpr ⟨_, hdecimal hside, ?_⟩
  refine bind_eq_ok.mpr ⟨_, hdecimal hyes, ?_⟩
  refine bind_eq_ok.mpr ⟨_, hdecimal htotal, ?_⟩
  refine bind_eq_ok.mpr ⟨_, hsalt, ?_⟩
  refine bind_eq_ok.mpr ⟨_, hdecimal hexpected, ?_⟩
  simp only [deliveryBody, String.ofList_toList]
  rfl

/-- The stored share is read back. -/
theorem ofJson_toJson (share : StoredShare) : StoredShare.ofJson share.toJson = some share := by
  have hmember : Web.memberOf (share.toJson.field "memberIndex") = some share.memberIndex := by
    show Web.memberOf (some (.number share.memberIndex.index)) = _
    cases share.memberIndex with
    | one => decide +kernel
    | two => decide +kernel
    | three => decide +kernel
  unfold StoredShare.ofJson
  refine Option.bind_eq_some_iff.mpr ⟨_, hmember, ?_⟩
  refine Option.bind_eq_some_iff.mpr ⟨_, rfl, ?_⟩
  refine Option.bind_eq_some_iff.mpr ⟨_, rfl, ?_⟩
  refine Option.bind_eq_some_iff.mpr ⟨_, rfl, ?_⟩
  refine Option.bind_eq_some_iff.mpr ⟨_, rfl, ?_⟩
  exact Option.bind_eq_some_iff.mpr ⟨_, rfl, rfl⟩

theorem mapM_toList {α β ε : Type} {f : α → Except ε β} {xs : PerMember α} {g : MemberIndex → β}
    (h : ∀ member, f (xs.get member) = .ok (g member)) :
    xs.toList.mapM f = .ok (PerMember.of g).toList := by
  have hone : f xs.one = .ok (g .one) := h .one
  have htwo : f xs.two = .ok (g .two) := h .two
  have hthree : f xs.three = .ok (g .three) := h .three
  simp only [PerMember.toList, List.mapM_cons, List.mapM_nil, hone, htwo, hthree, ok_bind]
  rfl

/-- The three shares, delivered. -/
theorem deliveries_eq {values : PlaceValues}
    (hvalues : values = orderPlacement P account payer amount side coins) :
    (committeeShares values coins.witness).toList.mapM
        (delivery (toBase58 key) orderIndex (fieldHex values.commitment) signature) =
      .ok ((PerMember.of fun member =>
        deliveryBody (sentShare key orderIndex values coins signature member)).toList) := by
  subst hvalues
  exact mapM_toList delivery_eq

/-- The dashboard delivers what the panel delivered. -/
theorem retryDeliveries_eq {values : PlaceValues}
    (hvalues : values = orderPlacement P account payer amount side coins)
    (question createdAt : String) : retryDeliveries
      (deliveryPending (preparedPosition values payer side coins.witness (toBase58 key) question
        createdAt) signature) orderIndex =
      some ((PerMember.of fun member =>
        deliveryBody (sentShare key orderIndex values coins signature member)).toList) := by
  have hread : ((committeeShares values coins.witness).toList.map StoredShare.toJson).mapM
      StoredShare.ofJson = some (committeeShares values coins.witness).toList := by
    simp only [PerMember.toList, List.map_cons, List.map_nil, List.mapM_cons, List.mapM_nil,
      ofJson_toJson, Option.bind_eq_bind, Option.bind_some]
    rfl
  unfold retryDeliveries
  refine Option.bind_eq_some_iff.mpr ⟨_, rfl, ?_⟩
  refine Option.bind_eq_some_iff.mpr ⟨_, rfl, ?_⟩
  refine Option.bind_eq_some_iff.mpr ⟨_, rfl, ?_⟩
  refine Option.bind_eq_some_iff.mpr ⟨(), rfl, ?_⟩
  refine Option.bind_eq_some_iff.mpr ⟨_, hread, ?_⟩
  exact congrArg Except.toOption (deliveries_eq hvalues)

/-- **The member keeps the share.** -/
theorem checked_sentShare (member : MemberIndex) (hindex : orderIndex ≤ u32Max)
    (hsignature : signature ≠ "") : Checked P member (sentShare key orderIndex
      (orderPlacement P account payer amount side coins) coins signature member) := by
  constructor
  case member => rfl
  case index =>
    have hsafe : (u32Max : Int) ≤ 9007199254740991 := by decide
    show isSafeInteger (orderIndex : Int) = true ∧ (0 : Int) ≤ (orderIndex : Int)
    simp only [isSafeInteger, Bool.and_eq_true, decide_eq_true_eq]
    omega
  case signature =>
    intro hempty
    exact hsignature (String.toList_eq_nil_iff.mp hempty)
  case fields => exact inField_sentShare member
  case bundle =>
    rw [sentShare_eq]
    simp only [orderPlacement, PerMember.get_of]

/-! ## Over every run -/

/-- A body as the service of a member takes it, in some state of the market. -/
structure Deliverable (P : Poseidon) (key : Pubkey) (market : PrivateState) (w : PlaceOrder.Private)
    (member : MemberIndex) (body : Json) (share : CommitteeShare) : Prop where
  decoded : decode body = some share
  verified : ∀ markets : Pubkey → Option PrivateState, markets key = some market →
    verifyOnchainOrder markets share = .ok ()
  accepted : ∀ m : CommitteeMember, m.memberIndex = member →
    m.share? share.market share.orderIndex = none →
      m.submit P share = .ok { m with shares := m.shares ++ [share] }
  repeated : ∀ m : CommitteeMember, m.memberIndex = member →
    m.share? share.market share.orderIndex = some share → m.submit P share = .ok m
  shareOf : ShareOf w member share

/-- The order account the panel's arguments make, as a member reads it. -/
structure AccountOf (values : PlaceValues) (orderIndex : Nat) (order : Order) : Prop where
  index : order.orderIndex = orderIndex
  commitment : order.commitment = Field.toBytes ((values.commitment : Int) : Field)
  shareCommitments : ∀ member, shareCommitmentOf order member =
    Field.toBytes ((values.shareCommitments.get member : Int) : Field)

theorem AccountOf.matches (h : AccountOf (orderPlacement P account payer amount side coins)
    orderIndex order) (member : MemberIndex) : Matches key order (sentShare key orderIndex
      (orderPlacement P account payer amount side coins) coins signature member) := by
  have hcommitment : inField (orderPlacement P account payer amount side coins).commitment = true :=
    inField_commitment
  have hexpected : inField ((orderPlacement P account payer amount side
      coins).shareCommitments.get member) = true := inField_shareCommitments member
  constructor
  case market => rfl
  case index => exact congrArg Nat.cast h.index.symm
  case commitment =>
    rw [h.commitment]
    exact fieldBytes_eq hcommitment
  case expected =>
    apply (fieldBytes_eq hexpected).trans
    exact congrArg (fun bytes : Bytes32 => Except.ok bytes.toList) (h.shareCommitments member).symm

theorem AccountOf.deliverable (h : AccountOf (orderPlacement P account payer amount side coins)
    orderIndex order) (hamount : amount ≤ u64Max) (hindex : orderIndex ≤ u32Max)
    (hsignature : signature ≠ "") (hnodup : (market.orders.map (·.commitment)).Nodup)
    (horder : order ∈ market.orders) (hmarket : order.market = key) (member : MemberIndex) :
    Deliverable P key market (coins.orderWitness (wager amount hamount) side) member
      (deliveryBody (sentShare key orderIndex (orderPlacement P account payer amount side coins)
        coins signature member))
      (sentShare key orderIndex (orderPlacement P account payer amount side coins) coins signature
        member) := by
  have hchecked : Checked P member (sentShare key orderIndex
      (orderPlacement P account payer amount side coins) coins signature member) :=
    checked_sentShare member hindex hsignature
  constructor
  case decoded => exact decode_deliveryBody hchecked.fields
  case verified =>
    exact fun markets hmarkets =>
      (h.matches member).verifyOnchainOrder_eq hnodup horder hmarket hmarkets
  case accepted =>
    rintro m rfl hnone
    exact CommitteeMember.submit_eq_ok.mpr ⟨hchecked, .inr ⟨hnone, rfl⟩⟩
  case repeated =>
    rintro m rfl hsome
    refine CommitteeMember.submit_eq_ok.mpr ⟨hchecked, .inl ⟨_, hsome, ?_, rfl⟩⟩
    simp only [CommitteeMember.sameSubmission, decide_true, Bool.and_self]
  case shareOf =>
    rw [sentShare_eq]
    exact ⟨cast_sideShare member, cast_yesAmountShare member, cast_totalAmountShare member⟩

/-- What the browser delivers for an order, at once and again, in some state of its market. -/
structure Delivers (P : Poseidon) (key : Pubkey) (market : PrivateState) (orderIndex : Nat)
    (values : PlaceValues) (payer : Pubkey) (side : Web.PositionSide) (witness : PlacementWitness)
    (signature : String) (w : PlaceOrder.Private) (bodies : PerMember Json) : Prop where
  sent : (committeeShares values witness).toList.mapM
    (delivery (toBase58 key) orderIndex (fieldHex values.commitment) signature) = .ok bodies.toList
  again : ∀ question createdAt, retryDeliveries (deliveryPending (preparedPosition values payer side
    witness (toBase58 key) question createdAt) signature) orderIndex = some bodies.toList
  taken : ∀ member, ∃ share, Deliverable P key market w member (bodies.get member) share

/-- **Whatever the panel delivers is accepted.** An order is prepared in one state of a market and taken
by the program in a later one. In every state after that, each member accepts its share. -/
theorem delivery_complete {init prepared before after market : PrivateState}
    {tr tr₁ tr₂ : List PrivatePool.Event} (hinit : PrivatePool.Created init)
    (hrun : Run (PrivatePool.Step rt) init tr prepared) {draws rest : List Bytes32}
    {witness : PlacementWitness} (hdrawn : createPlacementWitness draws = some (witness, rest))
    {now : Int} {tokenBalance : Option Nat} {amountInput : String} {values : PlaceValues}
    (hvalues : placeValues rt.poseidon prepared.market now payer tokenBalance amountInput side
      witness = .ok values)
    (hwait : Run (PrivatePool.Step rt) prepared tr₁ before) {proof publicWitness : String}
    {accounts : PlaceOrderAccounts} {args : PlaceOrderArgs} {clock : Int}
    (hargs : placeOrderArgs values proof publicWitness = .ok args)
    (hplaced : placeOrder rt before accounts args clock = .ok after)
    (hlater : Run (PrivatePool.Step rt) after tr₂ market) (hsignature : signature ≠ "") :
    ∃ w bodies, (placeInputs values side witness).readPrivate = some w ∧
      Delivers rt.poseidon (prepared.marketKey rt.toRuntime) market before.market.orderCount values
        payer side witness signature w bodies := by
  obtain ⟨coins, rfl⟩ := createPlacementWitness_eq hdrawn
  obtain ⟨amount, hchecks, rfl⟩ := placeValues_ok hvalues
  have hfits := hchecks.fits hinit hrun
  -- the order is on chain, in the market the panel prepared it for
  have hstep : PrivatePool.Step rt before (.call (.placeOrder accounts args) clock) after :=
    .call hplaced
  have hwhole := (Run.snoc hwait hstep).append hlater
  have hfull := hrun.append hwhole
  have hkey := (sameTerms_run hwhole).marketKey_eq rt.toRuntime
  obtain ⟨hplace, -, -, -⟩ := placeOrder_ok hplaced
  obtain ⟨order, horder, hterms⟩ := order_of_placed hplaced hlater
  obtain ⟨hindex, hcommitment, hshares⟩ : order.orderIndex = before.market.orderCount ∧
      order.commitment = args.commitment ∧ order.shareCommitments = args.shareCommitments := by
    simpa only [orderTerms, Prod.mk.injEq] using hterms
  have hmarket : order.market = prepared.marketKey rt.toRuntime :=
    (orders_market hinit hfull order horder).trans hkey
  have hcount : before.market.orderCount ≤ u32Max := (Nat.le_succ _).trans hplace.count
  rw [placeOrderArgs_eq] at hargs
  cases hargs
  have haccount : AccountOf (orderPlacement rt.poseidon prepared.market payer amount side coins)
      before.market.orderCount order := by
    refine ⟨hindex, hcommitment, ?_⟩
    intro member
    cases member with
    | one => exact congrArg ShareCommitments.first hshares
    | two => exact congrArg ShareCommitments.second hshares
    | three => exact congrArg ShareCommitments.third hshares
  refine ⟨_, _, hfits.readPrivate_eq, ⟨deliveries_eq rfl, retryDeliveries_eq rfl, ?_⟩⟩
  intro member
  rw [PerMember.get_of]
  exact ⟨_, haccount.deliverable hfits.amount_le hcount hsignature
    (inv_run hinit hfull).orders_nodup horder hmarket member⟩

/-! ### A concrete order -/

namespace Sample

open PrivatePool PrivatePool.Sample

/-- The values of the first order. -/
def panelValues : PlaceValues :=
  orderPlacement poseidon (newMarket protocol creator args) alice 2500025 .yes drawnCoins

/-- The proof and the public witness of the first order, as a prover returns them. -/
def proofText : String := String.ofList (Base64.encode proofData)

def publicWitnessText : String := String.ofList
  (Base64.encode (witnessData ((placement (openingAt 0)).fields.map Field.toBytes)))

theorem drawnCoins_opening : drawnCoins.opening 2500025 .yes = openingAt 0 := by decide +kernel

theorem drawnCoins_orderWitness : drawnCoins.orderWitness (wager 2500025 (by decide)) .yes =
    orderWitness (openingAt 0) := by
  decide +kernel

theorem panelValues_commitment :
    ((panelValues.commitment : Int) : Field) = (placement (openingAt 0)).commitment := by
  apply cast_commitment.trans
  rw [drawnCoins_opening]
  show (openingAt 0).commitment poseidon ((1 : Nat) : Field) ((5000000 : Nat) : Field) = _
  rw [Nat.cast_one, Nat.cast_ofNat]
  rfl

theorem panelValues_shareCommitments (member : MemberIndex) :
    ((panelValues.shareCommitments.get member : Int) : Field) =
      (orderWitness (openingAt 0)).bundle poseidon member.index
        (saltOf (orderWitness (openingAt 0)) member) := by
  rw [← drawnCoins_orderWitness]
  exact cast_shareCommitments member

/-- What the panel sends is what the program is called with. -/
theorem place_eq : ∃ accounts, PrivatePool.Sample.place (openingAt 0) =
    (.placeOrder accounts (orderArgs panelValues proofText publicWitnessText), 10) := by
  have hone : ((panelValues.shareCommitments.one : Int) : Field) = _ :=
    panelValues_shareCommitments .one
  have htwo : ((panelValues.shareCommitments.two : Int) : Field) = _ :=
    panelValues_shareCommitments .two
  have hthree : ((panelValues.shareCommitments.three : Int) : Field) = _ :=
    panelValues_shareCommitments .three
  rw [orderArgs, panelValues_commitment, hone, htwo, hthree, proofText, publicWitnessText,
    String.toList_ofList, String.toList_ofList, Base64.decode_encode, Base64.decode_encode]
  exact ⟨_, rfl⟩

end Sample

/-- The first order of a market is taken, three others follow, and its shares are delivered. -/
theorem delivery_complete_sample : ∃ (market : PrivateState) (w : PlaceOrder.Private)
    (bodies : PerMember Json), market.orders.length = 4 ∧
      Delivers PrivatePool.Sample.poseidon PrivatePool.Sample.marketKey market 0 Sample.panelValues
        PrivatePool.Sample.alice .yes PrivatePool.Sample.drawnCoins.witness "5igNed" w bodies := by
  obtain ⟨init, market, hinit, hmarket, hplaced⟩ :=
    PrivatePool.executeAll_of_map PrivatePool.Sample.placed_orders
  have hplaced : PrivatePool.Sample.Placed market := of_decide_eq_true hplaced
  have hlength : market.orders.length = 4 := by
    have hlengths := congrArg List.length hplaced.1
    rw [List.length_map] at hlengths
    exact hlengths
  obtain ⟨accounts, hplace⟩ := Sample.place_eq
  obtain ⟨after, hafter, hrest⟩ := bind_eq_ok.mp hmarket
  have hafter : PrivatePool.execute PrivatePool.Sample.market init
      (PrivatePool.Sample.place (PrivatePool.Sample.openingAt 0)).2
      (PrivatePool.Sample.place (PrivatePool.Sample.openingAt 0)).1 = .ok after := hafter
  rw [hplace] at hafter
  have hcreated := PrivatePool.Sample.created_of_ok hinit
  obtain ⟨-, rfl⟩ := PrivatePool.initializeMarket_ok hinit
  have hrun : ∀ s, Run (PrivatePool.Step PrivatePool.Sample.market) s [] s := fun s => .nil s
  obtain ⟨w, bodies, -, hdelivers⟩ := delivery_complete hcreated (hrun _)
    PrivatePool.Sample.drawn_eq PrivatePool.Sample.panelValues_eq (hrun _) (placeOrderArgs_eq _ _)
    hafter (PrivatePool.executeAll_run hrest) (by decide : "5igNed" ≠ "")
  exact ⟨market, w, bodies, hlength, hdelivers⟩

end Nortia.Services.CommitteeServer
