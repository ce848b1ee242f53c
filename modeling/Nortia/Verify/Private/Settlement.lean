import Nortia.Verify.Private.Payment

/-!
# Exact settlement in any order

The redemptions of a resolved market succeed in every order. Each pays its order exactly, and the
last one leaves the vault nothing but donations.
-/

namespace Nortia.PrivatePool

open Lib Circuit

variable {rt : PrivateRuntime} {S : Set (Field × Field)} {s s' : PrivateState} {tr : List Event}
  {os : List Opening} {init : PrivateState}

/-! ## Any order of redemptions -/

/-- What a relayer needs for a redemption: an unused nullifier hash, a proof the program accepts,
and a token account of the recipient. -/
structure Redeemable (rt : PrivateRuntime) (s : PrivateState) (accounts : RedeemAccounts)
    (args : RedeemArgs) : Prop where
  fresh : (s.claim? args.nullifierHash).isNone = true
  verified : Zk.verifyRedeem rt s.market accounts.recipientOwner args accounts.redeemVerifier =
    .ok ()
  token : checkTokenAccount (s.tokens accounts.recipientToken) accounts.recipientOwner
    s.market.collateralMint = .ok ()

/-- The tokens of the vault fit every account, as all tokens of a mint fit 64 bits. -/
def Room (s : PrivateState) : Prop := ∀ key, (s.tokens key).amount + s.vault ≤ u64Max

theorem Room.after_redeem {accounts : RedeemAccounts} {args : RedeemArgs} (hroom : Room s)
    (h : redeem rt s accounts args = .ok s') : Room s' := by
  obtain ⟨amount, _, -, hle, rfl, rfl⟩ := redeem_ok h
  intro key
  have hkey := hroom key
  show (s.tokens.setAmount _ _ key).amount + (s.vault - amount) ≤ u64Max
  by_cases hrecipient : key = accounts.recipientToken
  · subst hrecipient
    rw [Tokens.setAmount_self]
    show (s.tokens _).amount + amount + (s.vault - amount) ≤ u64Max
    omega
  · rw [Tokens.setAmount_of_ne _ _ hrecipient]
    omega

/-- A redemption leaves the others possible. -/
theorem Redeemable.after_redeem {accounts accounts' : RedeemAccounts} {args args' : RedeemArgs}
    (hready : Redeemable rt s accounts' args') (h : redeem rt s accounts args = .ok s')
    (hne : args'.nullifierHash ≠ args.nullifierHash) : Redeemable rt s' accounts' args' := by
  obtain ⟨amount, _, -, -, rfl, rfl⟩ := redeem_ok h
  constructor
  case fresh =>
    have hold := claim?_isNone.mp hready.fresh
    rw [claim?_isNone, List.map_cons, List.mem_cons, not_or]
    exact ⟨hne, hold⟩
  case verified => exact hready.verified
  case token =>
    obtain ⟨howner, hmint⟩ := checkTokenAccount_ok.mp hready.token
    obtain ⟨howner', hmint'⟩ := s.tokens.setAmount_owner_mint accounts.recipientToken
      accounts'.recipientToken ((s.tokens accounts.recipientToken).amount + amount)
    exact checkTokenAccount_ok.mpr ⟨howner'.trans howner, hmint'.trans hmint⟩

/-- Redemptions one after another. -/
def redemptions (now : Int) (list : List (RedeemAccounts × RedeemArgs)) :
    List (Instruction × Int) := list.map fun c => (.redeem c.1 c.2, now)

/-- Two different orders are never both the last one. -/
theorem Honest.more_to_claim (hinit : Created init) (hrun : Run (Step rt) init tr s)
    (hH : Honest rt S s os) (hresolved : s.market.phase = .resolved)
    {accounts accounts' : RedeemAccounts} {args args' : RedeemArgs}
    (hready : Redeemable rt s accounts args) (hready' : Redeemable rt s accounts' args')
    (hne : args'.nullifierHash ≠ args.nullifierHash) :
    s.market.claimedCount + 1 ≠ s.market.orderCount := by
  intro hlast
  have hlength := hH.length_unclaimed (inv_run hinit hrun)
    (claimsMatch_run hinit hrun hH hresolved)
  obtain ⟨o, ho, hnullifier, -⟩ :=
    hH.order_of_proof hinit hrun hresolved hready.verified hready.fresh
  obtain ⟨o', ho', hnullifier', -⟩ :=
    hH.order_of_proof hinit hrun hresolved hready'.verified hready'.fresh
  obtain ⟨only, honly⟩ := List.length_eq_one_iff.mp
    (show (unclaimed rt s os).length = 1 by omega)
  rw [honly, List.mem_singleton] at ho ho'
  exact hne (by rw [hnullifier, hnullifier', ho, ho'])

/-- **Redemptions succeed in every order**, and the market closes with the last one. -/
theorem redeem_all (hinit : Created init) (now : Int) :
    ∀ (list : List (RedeemAccounts × RedeemArgs)) {tr : List Event} {s : PrivateState},
      Run (Step rt) init tr s → Honest rt S s os → s.market.phase = .resolved → Room s →
      (list.map (·.2.nullifierHash)).Nodup → (∀ c ∈ list, Redeemable rt s c.1 c.2) →
        ∃ s', executeAll rt s (redemptions now list) = .ok s' ∧
          (list.length = (unclaimed rt s os).length → s'.market.phase = .closed) := by
  intro list
  induction list with
  | nil =>
    intro tr s hrun hH hresolved _ _ _
    have hlength := hH.length_unclaimed (inv_run hinit hrun)
      (claimsMatch_run hinit hrun hH hresolved)
    obtain ⟨-, hbelow, -⟩ := (phaseInv_resolved hresolved).mp (inv_run hinit hrun).phase
    refine ⟨s, rfl, fun hnone => ?_⟩
    rw [List.length_nil] at hnone
    omega
  | cons c rest ih =>
    intro tr s hrun hH hresolved hroom hnodup hready
    rw [List.map_cons, List.nodup_cons] at hnodup
    obtain ⟨hnew, hnodup⟩ := hnodup
    have hfirst := hready c List.mem_cons_self
    obtain ⟨s₁, hs₁⟩ := redeem_of_proof hinit hrun hH hresolved hfirst.verified hfirst.fresh
      hfirst.token (hroom _)
    have hrun₁ : Run (Step rt) init (tr ++ [.call (.redeem c.1 c.2) now]) s₁ :=
      .snoc hrun (.call hs₁)
    obtain ⟨o, -, paid, hpays⟩ := redeem_pays hinit hrun hH hresolved hs₁
    have hstart : executeAll rt s (redemptions now (c :: rest)) =
        executeAll rt s₁ (redemptions now rest) := by
      show (redeem rt s c.1 c.2 >>= fun s => executeAll rt s (redemptions now rest)) = _
      rw [hs₁, ok_bind]
    rw [hstart]
    by_cases hlast : s.market.claimedCount + 1 = s.market.orderCount
    · -- then nothing else is redeemable
      have hrest : rest = [] := by
        cases rest with
        | nil => rfl
        | cons c' _ =>
          have hne : c'.2.nullifierHash ≠ c.2.nullifierHash :=
            fun heq => hnew (heq ▸ List.mem_map_of_mem List.mem_cons_self)
          exact absurd hlast (hH.more_to_claim hinit hrun hresolved hfirst
            (hready c' (by simp)) hne)
      subst hrest
      obtain ⟨extra, -, -, -, hclosed, -⟩ := hpays.last hlast
      exact ⟨s₁, rfl, fun _ => hclosed⟩
    · have hH₁ := hH.after_redeem hs₁
      have hresolved₁ := (hpays.notLast hlast).2
      obtain ⟨s', hs', hcloses⟩ := ih hrun₁ hH₁ hresolved₁ (hroom.after_redeem hs₁) hnodup
        fun c' hc' => (hready c' (List.mem_cons_of_mem _ hc')).after_redeem hs₁
          fun heq => hnew (heq ▸ List.mem_map_of_mem hc')
      refine ⟨s', hs', fun hall => hcloses ?_⟩
      -- one order less is unclaimed
      have hlength := hH.length_unclaimed (inv_run hinit hrun)
        (claimsMatch_run hinit hrun hH hresolved)
      have hlength₁ := hH₁.length_unclaimed (inv_run hinit hrun₁)
        (claimsMatch_run hinit hrun₁ hH₁ hresolved₁)
      obtain ⟨_, _, -, -, -, hs₁'⟩ := redeem_ok hs₁
      have hclaimed : s₁.market.claimedCount = s.market.claimedCount + 1 := by rw [hs₁']
      have hcount : s₁.market.orderCount = s.market.orderCount := by rw [hs₁']
      rw [List.length_cons] at hall
      omega

/-! ## Over every run -/

/-- The settlement of a resolved market, at a state that a run with a trace has reached. -/
structure ExactSettlement (rt : PrivateRuntime) (tr : List Event) (s : PrivateState)
    (os : List Opening) : Prop where
  provable : ∀ o ∈ os, ∀ recipient,
    rt.poseidon (Zk.pubkeyFields recipient).1 (Zk.pubkeyFields recipient).2 ≠ 0 →
      ∃ (pub : Redeem.Public) (w : Redeem.Private), Redeem.main rt.poseidon pub w ∧
        pub.fields.map Field.toBytes = Zk.redeemFields rt s.market recipient
          (nullifierBytes rt.poseidon s.market o) (payout s.market o)
  funded : ∀ accounts args,
    redeem rt s accounts args ≠ .error (.nortia .insufficientVaultBalance) ∧
      redeem rt s accounts args ≠ .error .insufficientFunds ∧
      redeem rt s accounts args ≠ .error (.nortia .arithmeticOverflow)
  pays : ∀ accounts args s', redeem rt s accounts args = .ok s' →
    ∃ o ∈ os, ∃ paid, Pays rt tr s s' os accounts args o paid
  once : ∀ accounts args, args.nullifierHash ∈ s.claims.map (·.nullifierHash) →
    redeem rt s accounts args = .error .accountInUse
  anyOrder : ∀ now list, Room s → (list.map fun c => c.2.nullifierHash).Nodup →
    (∀ c ∈ list, Redeemable rt s c.1 c.2) →
      ∃ s', executeAll rt s (redemptions now list) = .ok s' ∧
        (list.length = (unclaimed rt s os).length → s'.market.phase = .closed)

/-- **Exact settlement over every run**: in every resolved state, whatever was redeemed before. -/
theorem exact_settlement (hinit : Created init) (hrun : Run (Step rt) init tr s)
    (hH : Honest rt S s os) (hresolved : s.market.phase = .resolved) :
    ExactSettlement rt tr s os := by
  have hI : Inv tr s := inv_run hinit hrun
  obtain ⟨-, -, hsettled⟩ := (phaseInv_resolved hresolved).mp hI.phase
  constructor
  case provable =>
    intro o ho recipient hrecipient
    obtain ⟨i, hi, rfl⟩ := List.getElem_of_mem ho
    obtain ⟨-, hroot⟩ := hH.batch.root_eq
    exact ⟨_, _, hH.provable hinit hrun hsettled hi hrecipient,
      expectedPublic_bytes (hI.widths hsettled) hsettled.outcome hroot recipient _
        (hH.payout_le hinit hrun hsettled ho)⟩
  case funded => exact redeem_funded hinit hrun hH hresolved
  case pays =>
    intro accounts args s' h
    exact redeem_pays hinit hrun hH hresolved h
  case once =>
    intro accounts args h
    exact redeem_claimed h
  case anyOrder =>
    intro now list hroom hnodup hready
    exact redeem_all hinit now list hrun hH hresolved hroom hnodup hready

/-! ### A concrete market -/

namespace Sample

/-- The Poseidon hashes of this market, in the sequence of `hashedPairs`. -/
def digests : List Nat := [
    14744269619966411208579211824598458697587494354926760081771325075741142829156,
    7423237065226347324353380772367382631490014989348495481811164164159255474657,
    11286972368698509976183087595462810875513684078608517520839298933882497716792,
    3607627140608796879659380071776844901612302623152076817094415224584923813162,
    19712377064642672829441595136074946683621277828620209496774504837737984048981,
    20775607673010627194014556968476266066927294572720319469184847051418138353016,
    3396914609616007258851405644437304192397291162432396347162513310381425243293,
    21551820661461729022865262380882070649935529853313286572328683688269863701601,
    6573136701248752079028194407151022595060682063033565181951145966236778420039,
    12413880268183407374852357075976609371175688755676981206018884971008854919922,
    14271763308400718165336499097156975241954733520325982997864342600795471836726,
    20066985985293572387227381049700832219069292839614107140851619262827735677018,
    9394776414966240069580838672673694685292165040808226440647796406499139370960,
    11331146992410411304059858900317123658895005918277453009197229807340014528524,
    15819538789928229930262697811477882737253464456578333862691129291651619515538,
    19217088683336594659449020493828377907203207941212636669271704950158751593251,
    9853942591151684177810359608475781290173218909771223245225004447583610060573,
    14526680747365036007538447660292263578018884894939127241441394705438511298799,
    13723695294246590170836370832012971212585054603159666652154665339825316977690,
    16804259431395788997799822418444072473830744165175982505831986232860459137538,
    11545581753549896292905289725790694049388443993753238322131530405987466047980,
    7870173954042461942685142705390957122462875893331833673785126602673165226092,
    2932498359950550790081435039983826255052336460453110149286658134819878742654,
    4432836860942590586837152362502619045237863243613820987288736368256630496756,
    9709596241948387673497490685717323074237661577675828544625669542283511018156,
    15274256059388160511600563884146975407236160530050087787701682549042263667879,
    4839470000125953296022690516043109033488774766648562520715583040622625120549,
    2862414717424223010075470402342176190040079658155939845388692955160535159864,
    18111464040078047855152108580844517823262667663786194985208408804272796484584,
    9954080131654480926681362109936543215120329351065442271751918862439528522903,
    11305357895587846934622193705879388874037281341572009524314898296581858536506,
    10362833045258093645449189500597424446944774543148802647446758563454128626898,
    4744746293273437012088393566051429608054691659608874302204447364176804858448,
    17175602325971101352649393031794127886841940556078911764483912232198201322272,
    4201711791754924610247101862243779108812798101537470322835392290086746176749,
    18746248034532660974378358905416552377661770782963162549213971376187457719894,
    9225149785428796149839950722286718479989304019189634043989162989426174560948,
    6325724891668969548003329149476164083706911074192396224005239724809344454109,
    16155211147979408691512687522700971780775219344002949542032602974289450625200,
    12365775566285992515411130228418880996306130717366471708425848180677233483492,
    21870001811919628147775620176042530417773889951587542428126636085151369670734,
    13013870070986095157682239525675516175953682261411226203608358440600627124254,
    354843904701931607943032557989775277561556055684805515368140211770730804911,
    14687650847548995689771596803691901300127055434024575074917121142929994324067,
    6094353963753229990082622727783263156973931295719633770913788590198008319704,
    2618395517985000119821137492442503338147937232349874615071871793551106795132,
    12210988358002520888750664765279709963695292251202427689771138479692162985051,
    20754725893487373180780742333414077248167863586805583157639550532202804727740,
    14696580413076840147030050819698746896482550562996261342272563513436866817760,
    18276240736769862954767813767483053251144801458129130619590870193302209079540,
    18343086236770733233827831128935417687624190952088066630565162568277642323710,
    13750171737977586493233381585598184932941676731183489576817243290526032254762,
    9791614118545219791690793166346052177838276005464518991509890087913067532726,
    13371391359818640525333265642845780803233783794583738407399378974104072545612,
    3199451955783643099802009793753259819748957693334365704112281807864342372692,
    19425648465010332956273676900028447185002126521426978790457495004286681527664,
    2711380158841326926822223480570378363776498111387979437737624581989964161577,
    217234377348884654691879377518794323857294947151490278790710809376325639809,
    329266622234225879967391343264462378549733089290077351952795666840244142085,
    19446566686510881587808822177762876917711126421455104204281897172072216940751,
    8566746061334542996098418747453289540937268048338869446243132964359698030636,
    15630748409158484284705086406279988682209301667100139933106006245457918650023,
    4699387056273519054140667386511343037709699938246587880795929666834307503001,
    5787444497427760962198477080674329383461800511556320916770469587291907358238,
    3326525321324077228415888148806878533005578707346690275273048802291899925311,
    692563303311885727407647673121515533197948122473183783965616734169077705508,
    11831196437163537180502644054739344867987199250307427817485326561975967804138,
    10400160053490715505203021431016974059335454448042353988258099192459521217485,
    5510197662742183370333655072488269600538873950292657406465747508246066214924]

def digest (i : Nat) : Nat := digests.getD i 0

/-- The pairs hashed: the empty subtrees, the orders, the tree over them, two keys and the shares. -/
def hashedPairs : List (Nat × Nat) := [
    (0, 0), (digest 0, digest 0), (digest 1, digest 1), (digest 2, digest 2),
    (digest 3, digest 3), (digest 4, digest 4), (digest 5, digest 5), (digest 6, digest 6),
    (digest 7, digest 7), (digest 8, digest 8), (digest 9, digest 9), (digest 10, digest 10),
    (digest 11, digest 11), (digest 12, digest 12), (digest 13, digest 13),
    (digest 14, digest 14), (1, 5000000), (2500025, 0), (2500025, 1), (11, 21),
    (digest 18, digest 19), (digest 16, digest 20), (1, 21), (12, 22), (digest 17, digest 23),
    (digest 16, digest 24), (1, 22), (13, 23), (digest 18, digest 27), (digest 16, digest 28),
    (1, 23), (14, 24), (digest 17, digest 31), (digest 16, digest 32), (1, 24),
    (digest 21, digest 25), (digest 29, digest 33), (digest 35, digest 36),
    (digest 37, digest 1), (digest 38, digest 2), (digest 39, digest 3), (digest 40, digest 4),
    (digest 41, digest 5), (digest 42, digest 6), (digest 43, digest 7), (digest 44, digest 8),
    (digest 45, digest 9), (digest 46, digest 10), (digest 47, digest 11),
    (digest 48, digest 12), (digest 49, digest 13), (digest 50, digest 14),
    (13344406545919155429936259114971302410, 13344406545919155429936259114971302410),
    (14678847200511070972929885026468432651, 14678847200511070972929885026468432651),
    (2500026, 1), (2, 2500026), (digest 55, digest 54), (1, 1), (digest 57, digest 54),
    (2500027, 2), (3, 2500027), (digest 60, digest 59), (2, 2), (digest 62, digest 59),
    (2500028, 3), (4, 2500028), (digest 65, digest 64), (3, 3), (digest 67, digest 64)]

def hashOf (x y : Field) : Option Nat :=
  ((hashedPairs.zip digests).find? fun e => e.1 = (x.val, y.val)).map (·.2)

/-- Poseidon on the pairs above. -/
def poseidon (x y : Field) : Field := (((hashOf x y).getD 0 : Nat) : Field)

def hashed : Set (Field × Field) := { pair | (hashOf pair.1 pair.2).isSome = true }

def bob : Pubkey := Bytes.fill 32 11

/-- The orders of the market: each stakes half of its collateral and rounding leaves one unit. -/
def opening (side : Bool) (secret nullifier : Field) : Opening where
  amount := 2500025
  side
  secret
  nullifier

def openings : List Opening :=
  [opening true 11 21, opening false 12 22, opening true 13 23, opening false 14 24]

/-- The opening of an index, the last one past the end. -/
def openingAt : Nat → Opening
  | 0 => opening true 11 21
  | 1 => opening false 12 22
  | 2 => opening true 13 23
  | _ => opening false 14 24

def orderWitness (o : Opening) : PlaceOrder.Private where
  amount := 2500025
  side := o.side
  secret := o.secret
  nullifier := o.nullifier
  sideCoefficient := 1
  yesAmountCoefficient := 1
  totalAmountCoefficient := 1
  salt1 := 1
  salt2 := 2
  salt3 := 3
  amount_le := by decide

def placement (o : Opening) : PlaceOrder.Public where
  marketId := 1
  stakeAmount := 5000000
  payerHash := digest 52
  commitment := o.commitment poseidon 1 5000000
  shareCommitment1 := (orderWitness o).bundle poseidon 1 1
  shareCommitment2 := (orderWitness o).bundle poseidon 2 2
  shareCommitment3 := (orderWitness o).bundle poseidon 3 3

/-- The nodes next to the way from the orders to the root. -/
def upperSiblings : List Field := (List.range 14).map fun k => (digest (k + 1) : Field)

/-- The sides and siblings of the way from an order. -/
def wayUp : Nat → List (Bool × Field)
  | 0 => (false, digest 25) :: (false, digest 36) :: upperSiblings.map fun x => (false, x)
  | 1 => (true, digest 21) :: (false, digest 36) :: upperSiblings.map fun x => (false, x)
  | 2 => (false, digest 33) :: (true, digest 35) :: upperSiblings.map fun x => (false, x)
  | _ => (true, digest 29) :: (true, digest 35) :: upperSiblings.map fun x => (false, x)

theorem length_wayUp (i : Nat) : (wayUp i).length = treeDepth := by
  unfold wayUp
  split <;> rfl

def payoutWitness (o : Opening) (i : Nat) : Redeem.Private where
  amount := 2500025
  side := o.side
  secret := o.secret
  nullifier := o.nullifier
  pathBits := (wayUp i).map (·.1)
  siblings := (wayUp i).map (·.2)
  amount_le := by decide
  length_pathBits := by rw [List.length_map, length_wayUp]
  length_siblings := by rw [List.length_map, length_wayUp]

/-- What an order is paid for YES: its collateral, and half of the pool of 9900099 if it won. -/
def paid (o : Opening) : Nat := 2499975 + if o.side then 4950049 else 0

def redemption (o : Opening) : Redeem.Public where
  marketId := 1
  stakeAmount := 5000000
  commitmentRoot := digest 51
  outcome := true
  nullifierHash := poseidon 1 o.nullifier
  recipientHash := digest 53
  netPool := 9900099
  winningAmount := 5000050
  payoutAmount := paid o

/-- What the verifiers accept. -/
def statementData (fields : List Field) : List UInt8 :=
  proofData ++ witnessData (fields.map Field.toBytes)

def invokeVerifier (verifier : Pubkey) (data : List UInt8) : Bool :=
  (verifier = protocol.placementVerifier &&
      openings.any fun o => data = statementData (placement o).fields) ||
    (verifier = protocol.redeemVerifier &&
      openings.any fun o => data = statementData (redemption o).fields)

def market : PrivateRuntime := runtime poseidon invokeVerifier

def program (key : Pubkey) (isSigner : Bool) : AccountInfo where
  key
  owner := Pubkey.default
  executable := true
  isSigner
  data := []

def place (o : Opening) : Instruction × Int :=
  (.placeOrder
    { payer := alice, payerToken := alice,
      placementVerifier := program protocol.placementVerifier false }
    { commitment := Field.toBytes (placement o).commitment
      shareCommitments := {
        first := Field.toBytes (placement o).shareCommitment1
        second := Field.toBytes (placement o).shareCommitment2
        third := Field.toBytes (placement o).shareCommitment3 }
      proof := proofData
      publicWitness := witnessData ((placement o).fields.map Field.toBytes) }, 10)

/-- Two members sign the batch. -/
def submit : Instruction × Int :=
  (.submitBatch [program (Bytes.fill 32 41) true, program (Bytes.fill 32 42) true]
    { commitmentRoot := Field.toBytes (digest 51)
      yesCount := 2
      noCount := 2
      yesAmount := 5000050
      noAmount := 5000050 }, 1000)

def leaf (key : Nat) (value : Int) : Txline.StatLeaf where
  stat := { key, value, period := 100 }
  statProof := []

/-- Three goals, more than two. -/
def payload : Txline.StatValidationInput where
  ts := 3000000
  fixtureSummary := {
    fixtureId := 42
    updateStats := { updateCount := 1, minTimestamp := 3000000, maxTimestamp := 3000000 }
    eventsSubTreeRoot := Bytes.fill 32 1 }
  fixtureProof := []
  mainTreeProof := []
  eventStatRoot := Bytes.fill 32 2
  stats := [leaf 1 2, leaf 2 1]

def resolve : Instruction × Int :=
  (.resolveMarket
    { keeper := Bytes.fill 32 4
      treasuryToken := Bytes.fill 32 3
      keeperToken := Bytes.fill 32 4
      dailyScoresMerkleRoots := { program dailyScores false with owner := txlineProgramId }
      txlineProgram := program txlineProgramId false
      txline := fun _ _ => some (some (txlineProgramId, [1])) } 7 payload, 2500)

def settled : List (Instruction × Int) := openings.map place ++ [submit, resolve]

def redeemAccounts : RedeemAccounts where
  recipientOwner := bob
  recipientToken := bob
  redeemVerifier := program protocol.redeemVerifier false

def redeemArgs (o : Opening) : RedeemArgs where
  nullifierHash := Field.toBytes (redemption o).nullifierHash
  payoutAmount := paid o
  proof := proofData
  publicWitness := witnessData ((redemption o).fields.map Field.toBytes)
  payoutAmount_le := by
    unfold paid
    split <;> decide

/-! #### The hash is ideal, the verifiers are sound -/

/-- The pairs above, as field elements. -/
def hashedFields : List (Field × Field) := hashedPairs.map fun p => ((p.1 : Field), (p.2 : Field))

theorem map_hashedFields : hashedFields.map (fun p => hashOf p.1 p.2) = digests.map some := by
  decide +kernel

theorem mem_hashedFields {pair : Field × Field} (h : pair ∈ hashed) : pair ∈ hashedFields := by
  have hsome : (hashOf pair.1 pair.2).isSome = true := h
  rw [hashOf, Option.isSome_map, List.find?_isSome] at hsome
  obtain ⟨e, he, hpair⟩ := hsome
  refine List.mem_map.mpr ⟨e.1, (List.of_mem_zip (a := e.1) (b := e.2) he).1, ?_⟩
  rw [of_decide_eq_true hpair]
  exact Prod.ext (ZMod.natCast_zmod_val pair.1) (ZMod.natCast_zmod_val pair.2)

theorem ideal : IdealHash poseidon hashed := by
  have hmap : hashedFields.map (Function.uncurry poseidon) = digests.map fun d => (d : Field) := by
    have h := congrArg (List.map fun d : Option Nat => ((d.getD 0 : Nat) : Field)) map_hashedFields
    rwa [List.map_map, List.map_map] at h
  have hnodup : (digests.map fun d => (d : Field)).Nodup := by decide +kernel
  have hnonzero : (digests.map fun d => (d : Field)).all (· ≠ 0) = true := by decide +kernel
  constructor
  case injOn =>
    intro p hp q hq h
    exact List.inj_on_of_nodup_map (hmap ▸ hnodup) (mem_hashedFields hp) (mem_hashedFields hq) h
  case ne_zero =>
    intro pair hpair
    refine of_decide_eq_true (List.all_eq_true.mp hnonzero _ ?_)
    rw [← hmap]
    exact List.mem_map_of_mem (mem_hashedFields hpair)

theorem placement_satisfied : ∀ o ∈ openings,
    PlaceOrder.main poseidon (placement o) (orderWitness o) ∧
      (((orderWitness o).pairs poseidon (placement o)).all fun p => (hashOf p.1 p.2).isSome) =
        true := by
  decide +kernel

theorem orderWitness_opening : ∀ o ∈ openings, (orderWitness o).opening = o := by decide +kernel

theorem redemption_satisfied : ∀ e ∈ openings.zipIdx,
    Redeem.main poseidon (redemption e.1) (payoutWitness e.1 e.2) ∧
      (((payoutWitness e.1 e.2).pairs poseidon (redemption e.1)).all fun p =>
        (hashOf p.1 p.2).isSome) = true := by
  decide +kernel

theorem length_witnessData (fields : List Bytes32) :
    (witnessData fields).length = Zk.witnessHeaderLen + fields.length * Zk.fieldLen := by
  have hbytes : (fields.flatMap Bytes.toList).length = fields.length * Zk.fieldLen := by
    rw [List.length_flatMap]
    simp [Zk.fieldLen]
  simp only [witnessData, List.length_append, length_beBytes, hbytes]
  rfl

/-- Accepted data is cut at the length of its witness. -/
theorem drop_of_statementData {fields : List Field} {proof witness : List UInt8}
    (hlen : witness.length = Zk.witnessHeaderLen + fields.length * Zk.fieldLen)
    (h : proof ++ witness = statementData fields) :
    witness.drop Zk.witnessHeaderLen = (fields.map Field.toBytes).flatMap Bytes.toList := by
  have hdata : (witnessData (fields.map Field.toBytes)).length = witness.length := by
    rw [hlen, length_witnessData, List.length_map]
  obtain ⟨-, rfl⟩ := List.append_inj' h hdata.symm
  rfl

theorem placementSound : VerifierSound market protocol.placementVerifier Zk.placementPublicInputs
    (PlaceOrder.Satisfied poseidon hashed) := by
  intro proof witness hlen h
  have hne : protocol.placementVerifier ≠ protocol.redeemVerifier := by decide
  have h : invokeVerifier protocol.placementVerifier (proof ++ witness) = true := h
  simp only [invokeVerifier, hne, decide_true, decide_false, Bool.true_and, Bool.false_and,
    Bool.or_false, List.any_eq_true, decide_eq_true_eq] at h
  obtain ⟨o, ho, hdata⟩ := h
  obtain ⟨hmain, hpairs⟩ := placement_satisfied o ho
  exact ⟨(placement o).fields, rfl, drop_of_statementData hlen hdata, placement o, orderWitness o,
    rfl, hmain, fun pair hpair => List.all_eq_true.mp hpairs pair hpair⟩

theorem redeemSound : VerifierSound market protocol.redeemVerifier Zk.redeemPublicInputs
    (Redeem.Satisfied poseidon hashed) := by
  intro proof witness hlen h
  have hne : protocol.redeemVerifier ≠ protocol.placementVerifier := by decide
  have h : invokeVerifier protocol.redeemVerifier (proof ++ witness) = true := h
  simp only [invokeVerifier, hne, decide_true, decide_false, Bool.true_and, Bool.false_and,
    Bool.false_or, List.any_eq_true, decide_eq_true_eq] at h
  obtain ⟨o, ho, hdata⟩ := h
  obtain ⟨i, hi, rfl⟩ := List.getElem_of_mem ho
  obtain ⟨hmain, hpairs⟩ := redemption_satisfied (openings[i], i)
    (List.mk_mem_zipIdx_iff_getElem?.mpr (List.getElem?_eq_getElem hi))
  exact ⟨(redemption openings[i]).fields, rfl, drop_of_statementData hlen hdata,
    redemption openings[i], payoutWitness openings[i] i, rfl, hmain,
    fun pair hpair => List.all_eq_true.mp hpairs pair hpair⟩

/-! #### The run -/

/-- What the run leaves, as far as the settlement depends on it. -/
def Ready (s : PrivateState) : Prop :=
  (s.market.phase = .resolved ∧ s.market.marketId = 1 ∧ s.market.stakeAmount = 5000000 ∧
    s.market.placementVerifier = protocol.placementVerifier ∧
    s.market.redeemVerifier = protocol.redeemVerifier) ∧
  (s.market.yesCount = 2 ∧ s.market.noCount = 2 ∧ s.market.yesAmount = 5000050 ∧
    s.market.noAmount = 5000050 ∧ s.market.commitmentRoot = Field.toBytes (digest 51 : Field)) ∧
  s.orders.map (·.commitment) = (openings.map fun o =>
    Field.toBytes (o.commitment poseidon 1 5000000)) ∧
  s.claims.length = 0 ∧ s.vault = 19899999 ∧
  (openings.all fun o => (Zk.verifyRedeem market s.market bob (redeemArgs o)
    redeemAccounts.redeemVerifier).toOption = some ()) = true ∧
  (checkTokenAccount (tokens bob) bob s.market.collateralMint).toOption = some ()

instance (s : PrivateState) : Decidable (Ready s) := inferInstanceAs (Decidable (_ ∧ _))

theorem settled_ready : (created >>= fun init => executeAll market init settled).toOption.map
    (fun s => decide (Ready s)) = some true := by
  decide +kernel

/-! #### The orders are those of the openings -/

def leafValues : List Int := openings.map fun o => ((o.commitment poseidon 1 5000000).val : Int)

theorem root_eq : (Client.commitmentRoot poseidon leafValues).toOption =
    some ((digest 51 : Nat) : Int) := by
  decide +kernel

/-- From the third pair of a level on there is padding alone. -/
theorem treeHashed : Merkle.treePairs poseidon (Client.fieldRow leafValues) treeDepth ⊆ hashed := by
  have hfirst : ∀ k < treeDepth, ∀ i < 3, (hashOf
      (((Client.levelNodes poseidon leafValues k).getD (2 * i) (Client.zeroHash poseidon k) : Int) :
        Field)
      (((Client.levelNodes poseidon leafValues k).getD (2 * i + 1) (Client.zeroHash poseidon k) :
        Int) : Field)).isSome = true := by
    decide +kernel
  have hleaves : ∀ i, 4 ≤ i → Client.fieldRow leafValues i = 0 := by
    intro i hi
    rw [Client.fieldRow, Client.leafRow, List.getD_eq_getElem?_getD, List.getElem?_eq_none (by exact hi)]
    rfl
  rintro pair ⟨k, hk, i, rfl⟩
  have hpair : (Merkle.node poseidon (Client.fieldRow leafValues) k (2 * i),
      Merkle.node poseidon (Client.fieldRow leafValues) k (2 * i + 1)) =
        (Merkle.node poseidon (Client.fieldRow leafValues) k (2 * min i 2),
          Merkle.node poseidon (Client.fieldRow leafValues) k (2 * min i 2 + 1)) := by
    by_cases hi : i ≤ 2
    · rw [Nat.min_eq_left hi]
    · have hpos : 0 < 2 ^ k := Nat.two_pow_pos k
      have hpadding : ∀ j, 4 ≤ j → Merkle.node poseidon (Client.fieldRow leafValues) k j =
          Merkle.padding poseidon 0 k := fun j hj =>
        Merkle.node_eq_padding hleaves k j (hj.trans (Nat.le_mul_of_pos_right j hpos))
      rw [hpadding _ (by omega), hpadding _ (by omega), hpadding _ (by omega),
        hpadding _ (by omega)]
  rw [hpair, Client.node_eq_levelNodes, Client.node_eq_levelNodes]
  exact hfirst k hk (min i 2) (Nat.lt_succ_of_le (Nat.min_le_right i 2))

theorem honest {s : PrivateState} (h : Ready s) : Honest market hashed s openings := by
  obtain ⟨⟨-, hmarketId, hstake, hplacement, hredeem⟩,
    ⟨hyesCount, hnoCount, hyesAmount, hnoAmount, hroot⟩, horders, -⟩ := h
  have hleaves : leaves poseidon s.market openings = leafValues := by
    rw [leaves, hmarketId, hstake]
    rfl
  constructor
  case ideal => exact ideal
  case placementSound => rw [hplacement]; exact placementSound
  case redeemSound => rw [hredeem]; exact redeemSound
  case nullifiers => decide +kernel
  case opens =>
    constructor
    case commitments => rw [hmarketId, hstake, horders]; rfl
    case width => decide +kernel
    case hashed =>
      rw [hmarketId, hstake]
      intro o ho pair hpair
      obtain ⟨-, hpairs⟩ := placement_satisfied o ho
      have hpair : pair ∈ (orderWitness o).opening.pairs poseidon 1 5000000 := by
        rw [orderWitness_opening o ho]
        exact_mod_cast hpair
      refine List.all_eq_true.mp hpairs pair ?_
      simp only [PlaceOrder.Private.pairs, List.mem_append]
      exact .inl (.inl (.inl hpair))
    case nullifiersHashed =>
      have hall : (openings.all fun o => (hashOf 1 o.nullifier).isSome) = true := by decide +kernel
      rw [hmarketId]
      exact fun o ho => List.all_eq_true.mp hall o ho
    case treeHashed =>
      show Merkle.treePairs poseidon (Client.fieldRow (leaves poseidon s.market openings)) _ ⊆ _
      rw [hleaves]
      exact treeHashed
  case batch =>
    constructor
    case yesCount => rw [hyesCount]; decide
    case noCount => rw [hnoCount]; decide
    case yesAmount => rw [hyesAmount]; decide
    case noAmount => rw [hnoAmount]; decide
    case root =>
      refine ⟨((digest 51 : Nat) : Int), ?_, ?_⟩
      · show Client.commitmentRoot poseidon (leaves poseidon s.market openings) = _
        rw [hleaves]
        exact toOption_eq_some.mp root_eq
      · rw [hroot]
        rfl

/-- Two losers and two winners redeem, the last of them a winner. -/
def winnerLast : List Opening :=
  [opening false 14 24, opening true 11 21, opening false 12 22, opening true 13 23]

theorem winnerLast_openings : ∀ o ∈ winnerLast, o ∈ openings := by decide +kernel

def winnerLastCalls : List (RedeemAccounts × RedeemArgs) :=
  winnerLast.map fun o => (redeemAccounts, redeemArgs o)

end Sample

/-- All four orders of a market are redeemed, which closes it. -/
theorem exact_settlement_sample : ∃ s s' : PrivateState, s.market.phase = .resolved ∧
    executeAll Sample.market s (redemptions 3000 Sample.winnerLastCalls) = .ok s' ∧
      s'.market.phase = .closed := by
  obtain ⟨init, s, hinit, hs, hready⟩ := executeAll_of_map Sample.settled_ready
  have hready : Sample.Ready s := of_decide_eq_true hready
  -- afterwards everybody's account is as it was in the beginning
  have hrun := Run.snoc (executeAll_run hs) (@Step.external Sample.market s Sample.tokens)
  have hH := Sample.honest (s := { s with tokens := Sample.tokens }) hready
  obtain ⟨⟨hresolved, -⟩, -, -, hclaims, hvault, hverified, htoken⟩ := hready
  have hnone : s.claims = [] := List.length_eq_zero_iff.mp hclaims
  obtain ⟨s', hs', hcloses⟩ := (exact_settlement (Sample.created_of_ok hinit) hrun hH
    hresolved).anyOrder 3000 Sample.winnerLastCalls (by
      intro key
      show 1000000000000 + s.vault ≤ u64Max
      rw [hvault]
      decide) (by decide +kernel) (by
      intro c hc
      obtain ⟨o, ho, rfl⟩ := List.mem_map.mp hc
      constructor
      case fresh =>
        rw [claim?_isNone, hnone]
        exact List.not_mem_nil
      case verified =>
        exact toOption_eq_some.mp (of_decide_eq_true (List.all_eq_true.mp hverified o
          (Sample.winnerLast_openings o ho)))
      case token => exact toOption_eq_some.mp htoken)
  refine ⟨{ s with tokens := Sample.tokens }, s', hresolved, hs', hcloses ?_⟩
  have hall : unclaimed Sample.market { s with tokens := Sample.tokens } Sample.openings =
      Sample.openings := by
    rw [unclaimed]
    simp only [hnone, List.map_nil, Rounding.unused_nil]
  rw [hall]
  rfl

end Nortia.PrivatePool
