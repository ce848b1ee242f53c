import Nortia.Services.Indexer
import Nortia.Verify.Hybrid.Accounts
import Nortia.Verify.Hybrid.Solvency
import Nortia.Verify.Lmsr.Agreement

/-!
# The indexer and the markets the program accepts

Every conversion of a snapshot succeeds on every reachable market, but for the one that makes a
number of `lock_ts`. A pass catches no error of a single market, so it fails for all of them exactly
when the lock of some market is not a safe integer.
-/

namespace Nortia.Services

open Lib Client Hybrid

/-! ## Conversions that always succeed -/

@[simp] theorem integerString_eq (value : Int) (label : String) :
    integerString value label = .ok (toString value) := by
  rw [integerString, require_pos (Decimal.isInteger_toString value), ok_bind]

@[simp] theorem bytes32_eq (value : Bytes32) (label : String) :
    bytes32 value.toList label = .ok (hex value.toList) := by
  rw [bytes32, require_pos (Bytes.length_toList value), ok_bind]

theorem safeInteger_pos {value : Int} (h : isSafeInteger value = true) (label : String) :
    safeInteger value label = .ok value := by
  rw [safeInteger, integerString_eq, ok_bind, require_pos h, ok_bind]

theorem safeInteger_neg {value : Int} (h : isSafeInteger value ≠ true) (label : String) :
    safeInteger value label = .error (label ++ " exceeds the safe integer range") := by
  rw [safeInteger, integerString_eq, ok_bind, require_neg h, error_bind]

/-- Every variant the program knows has a name. -/
theorem categoryName_ok (category : MarketCategory) (label : String) :
    ∃ name, enumName (categoryKeys category) categoryNames label = .ok name := by
  cases category <;> exact ⟨_, rfl⟩

theorem tradingModeName_ok (mode : HybridTradingMode) (label : String) :
    ∃ name, enumName (tradingModeKeys mode) tradingModeNames label = .ok name := by
  cases mode <;> exact ⟨_, rfl⟩

theorem comparatorName_ok (comparator : ValueComparator) :
    ∃ name, comparatorName (comparatorKeys comparator) = .ok name := by
  cases comparator <;> exact ⟨_, rfl⟩

theorem hybridPhaseName_ok (phase : HybridPhase) :
    ∃ name, hybridPhaseName (phaseKeys phase) = .ok name := by
  cases phase <;> exact ⟨_, rfl⟩

theorem oracleResolverName_ok (resolver : OracleResolver) :
    ∃ name, oracleResolverName (resolverKeys resolver) = .ok name := by
  cases resolver <;> exact ⟨_, rfl⟩

theorem outcomeName_ok {outcome : Nat} (h : outcome ≤ HybridMarket.outcomeUnset) :
    ∃ name, outcomeName outcome = .ok name := by
  have hlt : outcome < ["no", "yes", "invalid", "unset"].length := Nat.lt_succ_of_le h
  exact ⟨_, okOr_eq_ok.mpr (List.getElem?_eq_getElem hlt)⟩

theorem decided_le {outcome : Nat} (h : Decided outcome) : outcome ≤ HybridMarket.outcomeUnset := by
  rcases h with rfl | rfl | rfl <;> decide

/-! ## One snapshot -/

/-- What the builder relies on and the program sees to. -/
structure SnapshotInput.Valid (sha256 : List UInt8 → Bytes32) (input : SnapshotInput) : Prop where
  oracle : input.oracle.market = input.address
  receipt : ∀ receipt, input.receipt = some receipt →
    receipt.market = input.address ∧ receipt.outcome ≤ HybridMarket.outcomeUnset
  outcome : input.market.outcome ≤ HybridMarket.outcomeUnset
  accepted : Lmsr.Accepted (lmsrQuantities input.market) input.market.liquidityParameter
  metadata : ∀ metadata, input.metadata = some metadata →
    metadata.market = input.address ∧ metadata.creator = input.market.creator ∧
      sha256 (Text.asBytes metadata.question) = input.market.questionHash ∧
      sha256 (Text.asBytes metadata.rules) = input.market.rulesHash ∧
      sha256 (outcomeLabels metadata.yesLabel metadata.noLabel) = input.market.outcomeLabelsHash

section Build

variable {sha256 : List UInt8 → Bytes32} (toBase58 : Pubkey → String) {input : SnapshotInput}

theorem asBytes_labels (yesLabel noLabel : List Char) :
    Text.asBytes (yesLabel ++ ['\n'] ++ noLabel) = outcomeLabels yesLabel noLabel := by
  have hnewline : String.utf8EncodeChar '\n' = [10] := by decide
  simp only [Text.asBytes, outcomeLabels, List.flatMap_append, List.flatMap_cons,
    List.flatMap_nil, List.append_nil, hnewline]

theorem SnapshotInput.Valid.receiptMarket (h : input.Valid sha256) :
    input.receipt.all (fun receipt => decide (receipt.market = input.address)) = true := by
  cases hreceipt : input.receipt with
  | none => rfl
  | some receipt => simpa using (h.receipt receipt hreceipt).1

theorem buildOracleSnapshot_ok (oracle : OracleConfig) (resolver : String) :
    ∃ snapshot, buildOracleSnapshot toBase58 oracle resolver = .ok snapshot := by
  obtain ⟨comparator, hcomparator⟩ := comparatorName_ok oracle.comparator
  simp only [buildOracleSnapshot, bytes32_eq, integerString_eq, hcomparator, ok_bind]
  exact ⟨_, rfl⟩

theorem SnapshotInput.Valid.receipt_ok (h : input.Valid sha256) :
    ∃ snapshot, optionally (buildResolutionReceiptSnapshot toBase58) input.receipt =
      .ok snapshot := by
  cases hreceipt : input.receipt with
  | none => exact ⟨none, rfl⟩
  | some receipt =>
    obtain ⟨resolver, hresolver⟩ := oracleResolverName_ok receipt.resolver
    obtain ⟨outcome, houtcome⟩ := outcomeName_ok (h.receipt receipt hreceipt).2
    simp only [optionally, buildResolutionReceiptSnapshot, bytes32_eq, integerString_eq, hresolver,
      houtcome, ok_bind]
    exact ⟨_, rfl⟩

theorem SnapshotInput.Valid.metadata_ok (h : input.Valid sha256) :
    ∃ snapshot, optionally (fun metadata =>
      buildMetadataSnapshot sha256 toBase58 metadata input.market input.address) input.metadata =
        .ok snapshot := by
  cases hmetadata : input.metadata with
  | none => exact ⟨none, rfl⟩
  | some metadata =>
    obtain ⟨hmarket, hcreator, hquestion, hrules, hlabels⟩ := h.metadata metadata hmetadata
    have hdigests : digest sha256 metadata.question = hex input.market.questionHash.toList ∧
        digest sha256 metadata.rules = hex input.market.rulesHash.toList ∧
        digest sha256 (metadata.yesLabel ++ ['\n'] ++ metadata.noLabel) =
          hex input.market.outcomeLabelsHash.toList := by
      simp only [digest, asBytes_labels, hquestion, hrules, hlabels, and_self]
    simp only [optionally, buildMetadataSnapshot, require_pos (And.intro hmarket hcreator),
      bytes32_eq, require_pos hdigests, integerString_eq, ok_bind]
    exact ⟨_, rfl⟩

/-- A lock beyond the safe integers stops the builder. -/
theorem SnapshotInput.Valid.fails (h : input.Valid sha256)
    (hlock : isSafeInteger input.market.lockTs ≠ true) :
    buildHybridMarketSnapshot sha256 toBase58 input =
      .error ("lock timestamp" ++ " exceeds the safe integer range") := by
  obtain ⟨phase, hphase⟩ := hybridPhaseName_ok input.market.phase
  unfold buildHybridMarketSnapshot
  rw [require_pos h.oracle, ok_bind, require_pos h.receiptMarket, ok_bind, integerString_eq,
    ok_bind, integerString_eq, ok_bind, integerString_eq, ok_bind, hphase, ok_bind,
    safeInteger_neg hlock, error_bind]

/-- Any other lock is the lock of a snapshot. -/
theorem SnapshotInput.Valid.builds (h : input.Valid sha256)
    (hlock : isSafeInteger input.market.lockTs = true) :
    ∃ snapshot, buildHybridMarketSnapshot sha256 toBase58 input = .ok snapshot := by
  obtain ⟨phase, hphase⟩ := hybridPhaseName_ok input.market.phase
  obtain ⟨resolver, hresolver⟩ := oracleResolverName_ok input.oracle.resolver
  obtain ⟨category, hcategory⟩ := categoryName_ok input.market.category "market category"
  obtain ⟨mode, hmode⟩ := tradingModeName_ok input.market.tradingMode "hybrid trading mode"
  have hpricing : enumName pricingModelKeys [("lmsr", "lmsr")] "pricing model" = .ok "lmsr" := rfl
  obtain ⟨outcome, houtcome⟩ := outcomeName_ok h.outcome
  have hprobability := lmsrYesProbability_eq h.accepted
  obtain ⟨oracle, horacle⟩ := buildOracleSnapshot_ok toBase58 input.oracle resolver
  obtain ⟨receipt, hreceipt⟩ := h.receipt_ok toBase58
  obtain ⟨metadata, hmetadata⟩ := h.metadata_ok toBase58
  simp only [ofQuantities, lmsrQuantities] at hprobability
  simp only [buildHybridMarketSnapshot, require_pos h.oracle, require_pos h.receiptMarket,
    integerString_eq, bytes32_eq, hphase, safeInteger_pos hlock, hresolver, hcategory, hmode,
    hpricing, hprobability, houtcome, horacle, hreceipt, hmetadata, ok_bind]
  exact ⟨_, rfl⟩

/-- **The builder returns a snapshot exactly when the lock is a safe integer.** -/
theorem SnapshotInput.Valid.builds_iff (h : input.Valid sha256) :
    (∃ snapshot, buildHybridMarketSnapshot sha256 toBase58 input = .ok snapshot) ↔
      isSafeInteger input.market.lockTs = true := by
  constructor
  · rintro ⟨snapshot, hsnapshot⟩
    by_contra hlock
    rw [h.fails toBase58 hlock] at hsnapshot
    cases hsnapshot
  · exact h.builds toBase58

end Build

/-! ## A pass -/

/-- The accounts of a market, as the builder is given them. -/
def accountsOf (rt : Runtime) (m : ListedMarket) (vault : Pubkey) (vaultBalance : Option Nat)
    (traderCount : Nat) (now : Int) : SnapshotInput where
  address := m.state.marketKey rt
  vault := vault
  vaultBalance := vaultBalance
  market := m.state.market
  oracle := m.state.oracle
  receipt := m.state.receipt
  metadata := m.metadata
  traderCount := traderCount
  now := now

/-- The accounts a pass fetches are those of some markets, each at an address of its own. -/
structure Fetched (rt : Runtime) (markets : List ListedMarket) (rows : ProgramRows) : Prop where
  listed : ∀ m ∈ markets, Listed rt m
  keys : (markets.map fun m => m.state.marketKey rt).Nodup
  oracleKeys : (markets.map fun m => oracleConfigKey rt (m.state.marketKey rt)).Nodup
  publicRows : rows.publicRows.Perm (markets.map fun m => (m.state.marketKey rt, m.state.market))
  oracleRows : rows.oracleRows.Perm
    (markets.map fun m => (oracleConfigKey rt (m.state.marketKey rt), m.state.oracle))
  receiptRows : rows.receiptRows.Perm (markets.filterMap fun m => m.state.receipt)
  metadataRows : rows.metadataRows.Perm (markets.filterMap ListedMarket.metadata)

section Pass

variable {rt : Runtime} {m : ListedMarket} {markets : List ListedMarket} {rows : ProgramRows}

theorem consistent_listed (h : Listed rt m) : Consistent rt m.state :=
  consistent_reachable (listedInv h).reachable

theorem outcome_le (h : Consistent rt m.state) :
    m.state.market.outcome ≤ HybridMarket.outcomeUnset := by
  rcases h.outcome with hunset | hdecided
  · exact hunset.le
  · exact decided_le hdecided

theorem accountsOf_valid (h : Listed rt m) (vault : Pubkey) (vaultBalance : Option Nat)
    (traderCount : Nat) (now : Int) :
    (accountsOf rt m vault vaultBalance traderCount now).Valid rt.sha256 := by
  have hC := consistent_listed h
  refine ⟨hC.oracle, ?_, outcome_le hC, hC.accepted, ?_⟩
  · intro receipt hreceipt
    obtain ⟨hmarket, hdecided⟩ := hC.receipt receipt hreceipt
    exact ⟨hmarket, decided_le hdecided⟩
  · intro metadata hmetadata
    have hD := (listedInv h).describes metadata hmetadata
    exact ⟨hD.market, hD.creator, hD.question, hD.rules, hD.labels⟩

/-- The pass finds the oracle account of a market under the address the market names. -/
theorem Fetched.oracle (h : Fetched rt markets rows) (hm : m ∈ markets) :
    Keyed.findLast Prod.fst rows.oracleRows m.state.market.oracleConfig =
      some (oracleConfigKey rt (m.state.marketKey rt), m.state.oracle) := by
  have hkeys : (rows.oracleRows.map Prod.fst).Nodup := by
    have hperm := h.oracleRows.map Prod.fst
    rw [List.map_map] at hperm
    exact hperm.nodup_iff.mpr h.oracleKeys
  have hrow : (oracleConfigKey rt (m.state.marketKey rt), m.state.oracle) ∈ rows.oracleRows :=
    h.oracleRows.mem_iff.mpr (List.mem_map.mpr ⟨m, hm, rfl⟩)
  rw [(consistent_listed (h.listed m hm)).oracleConfig]
  exact Keyed.findLast_of_mem hkeys hrow

/-- What the pass gathers of a market is valid. -/
theorem Fetched.valid (h : Fetched rt markets rows) (hm : m ∈ markets) (now : Int) :
    (snapshotInput rt rows now (m.state.marketKey rt) m.state.market m.state.oracle).Valid
      rt.sha256 := by
  have hC := consistent_listed (h.listed m hm)
  refine ⟨hC.oracle, ?_, outcome_le hC, hC.accepted, ?_⟩
  · intro receipt hreceipt
    obtain ⟨hmem, hmarket⟩ := Keyed.findLast_some hreceipt
    obtain ⟨other, hother, hsome⟩ := List.mem_filterMap.mp (h.receiptRows.mem_iff.mp hmem)
    have hdecided := ((consistent_listed (h.listed other hother)).receipt receipt hsome).2
    exact ⟨hmarket, decided_le hdecided⟩
  · intro metadata hmetadata
    obtain ⟨hmem, hmarket⟩ := Keyed.findLast_some hmetadata
    obtain ⟨other, hother, hsome⟩ := List.mem_filterMap.mp (h.metadataRows.mem_iff.mp hmem)
    have hD := (listedInv (h.listed other hother)).describes metadata hsome
    -- metadata names its market, and no two markets share a key
    obtain rfl : other = m :=
      List.inj_on_of_nodup_map h.keys hother hm (hD.market.symm.trans hmarket)
    exact ⟨hmarket, hD.creator, hD.question, hD.rules, hD.labels⟩

theorem Fetched.publicMarket_iff (h : Fetched rt markets rows) (hm : m ∈ markets)
    (toBase58 : Pubkey → String) (now : Int) :
    (∃ snapshot, publicMarket rt toBase58 rows now (m.state.marketKey rt) m.state.market =
      .ok snapshot) ↔ isSafeInteger m.state.market.lockTs = true := by
  simp only [publicMarket, h.oracle hm, okOr, ok_bind]
  exact (h.valid hm now).builds_iff toBase58

/-- A pass over the markets the program accepts. -/
theorem Fetched.publicMarkets_iff (h : Fetched rt markets rows) (toBase58 : Pubkey → String)
    (now : Int) :
    (∃ snapshots, publicMarkets rt toBase58 rows now = .ok snapshots) ↔
      ∀ m ∈ markets, isSafeInteger m.state.market.lockTs = true := by
  unfold publicMarkets
  rw [mapM_isOk_iff]
  constructor
  · intro hrows m hm
    have hrow : (m.state.marketKey rt, m.state.market) ∈ rows.publicRows :=
      h.publicRows.mem_iff.mpr (List.mem_map.mpr ⟨m, hm, rfl⟩)
    exact (h.publicMarket_iff hm toBase58 now).mp (hrows _ hrow)
  · intro hsafe row hrow
    obtain ⟨m, hm, rfl⟩ := List.mem_map.mp (h.publicRows.mem_iff.mp hrow)
    exact (h.publicMarket_iff hm toBase58 now).mpr (hsafe m hm)

end Pass

/-- **The indexer and the program agree on the markets, up to the safe integers.** A market the
program accepts has a snapshot exactly when its `lock_ts` is a safe integer, and a pass succeeds
exactly when every market it fetches has one. -/
theorem indexed_iff_safeLock (rt : Runtime) (toBase58 : Pubkey → String) :
    (∀ m, Listed rt m → ∀ vault vaultBalance traderCount now,
      (∃ snapshot, buildHybridMarketSnapshot rt.sha256 toBase58
          (accountsOf rt m vault vaultBalance traderCount now) = .ok snapshot) ↔
        isSafeInteger m.state.market.lockTs = true) ∧
    ∀ markets rows now, Fetched rt markets rows →
      ((∃ snapshots, publicMarkets rt toBase58 rows now = .ok snapshots) ↔
        ∀ m ∈ markets, isSafeInteger m.state.market.lockTs = true) :=
  ⟨fun _ hm vault vaultBalance traderCount now =>
      (accountsOf_valid hm vault vaultBalance traderCount now).builds_iff toBase58,
    fun _ _ now h => h.publicMarkets_iff toBase58 now⟩

/-! ## A market beyond the safe integers -/

namespace Sample

/-- The addresses of the market of the same creator with the id 2. -/
def secondKey : Pubkey :=
  ⟨[186, 157, 17, 151, 3, 127, 225, 209, 58, 33, 39, 9, 253, 165, 185, 13, 11, 148, 128, 165, 224,
    187, 247, 137, 221, 128, 234, 46, 29, 188, 212, 98], rfl⟩

def secondOracleKey : Pubkey :=
  ⟨[218, 72, 57, 92, 37, 214, 104, 77, 79, 211, 29, 85, 19, 171, 150, 219, 232, 29, 114, 18, 104,
    124, 110, 137, 184, 215, 11, 107, 200, 32, 214, 249], rfl⟩

def twoMarkets : Runtime := { Hybrid.Sample.runtime with
  findProgramAddress := fun seeds program =>
    if seeds = [hybridMarketSeed, Hybrid.Sample.creator.toList, leBytes 8 2] then secondKey
    else if seeds = [oracleConfigSeed, secondKey.toList] then secondOracleKey
    else Hybrid.Sample.runtime.findProgramAddress seeds program }

/-- A market that locks one second past the safe integers. -/
def farArgs : InitializeHybridMarketArgs :=
  { Hybrid.Sample.args with
    marketId := 2
    lockTs := 9007199254740992
    resolveNotBeforeTs := 9007199254740992
    resolutionDeadlineTs := 9007199254840992
    oracle := { Hybrid.Sample.args.oracle with observationTs := 9007199254740992 } }

def create (args : InitializeHybridMarketArgs) : Except Failure HybridState :=
  initializeHybridMarket twoMarkets Hybrid.Sample.engine Hybrid.Sample.tokens
    Hybrid.Sample.creator Hybrid.Sample.creator args 0

theorem listed_of_create {args : InitializeHybridMarketArgs} {s : HybridState}
    (h : create args = .ok s) : Listed twoMarkets ⟨s, none⟩ :=
  ⟨args, 0, s, ⟨_, _, _, _, h⟩, .refl _⟩

/-- Two fresh markets as a pass fetches them. -/
def rows (s t : HybridState) : ProgramRows where
  publicRows := [(s.marketKey twoMarkets, s.market), (t.marketKey twoMarkets, t.market)]
  oracleRows := [(oracleConfigKey twoMarkets (s.marketKey twoMarkets), s.oracle),
    (oracleConfigKey twoMarkets (t.marketKey twoMarkets), t.oracle)]
  receiptRows := []
  metadataRows := []
  positionRows := []
  vaultBalance := fun _ => none

/-- The two markets are created, at different addresses, and differ in their locks. -/
theorem created : ∃ s t, create Hybrid.Sample.args = .ok s ∧ create farArgs = .ok t ∧
    s.market.lockTs = 1000 ∧ t.market.lockTs = 9007199254740992 ∧
    Fetched twoMarkets [⟨s, none⟩, ⟨t, none⟩] (rows s t) := by
  have hs : (create Hybrid.Sample.args).toOption.map (fun s => (s.marketKey twoMarkets,
      s.market.lockTs, s.receipt.isNone)) =
        some (Hybrid.Sample.marketKey, 1000, true) := by
    decide +kernel
  have ht : (create farArgs).toOption.map (fun s => (s.marketKey twoMarkets,
      s.market.lockTs, s.receipt.isNone)) = some (secondKey, 9007199254740992, true) := by
    decide +kernel
  obtain ⟨s, hs, hsfields⟩ := Option.map_eq_some_iff.mp hs
  obtain ⟨t, ht, htfields⟩ := Option.map_eq_some_iff.mp ht
  rw [toOption_eq_some] at hs ht
  obtain ⟨hskey, hsfields⟩ := Prod.mk.inj hsfields
  obtain ⟨hslock, hsreceipt⟩ := Prod.mk.inj hsfields
  obtain ⟨htkey, htfields⟩ := Prod.mk.inj htfields
  obtain ⟨htlock, htreceipt⟩ := Prod.mk.inj htfields
  refine ⟨s, t, hs, ht, hslock, htlock, ?_, ?_, ?_, .refl _, .refl _, ?_, .refl _⟩
  · intro m hm
    rcases List.mem_cons.mp hm with rfl | hm
    · exact listed_of_create hs
    · rw [List.mem_singleton.mp hm]
      exact listed_of_create ht
  · simp only [List.map_cons, List.map_nil, hskey, htkey]
    decide
  · simp only [List.map_cons, List.map_nil, hskey, htkey]
    decide +kernel
  · simp only [List.filterMap_cons, List.filterMap_nil, Option.isNone_iff_eq_none.mp hsreceipt,
      Option.isNone_iff_eq_none.mp htreceipt]
    exact .refl _

end Sample

/-- The second of two markets the program accepts has no snapshot, and the first, which has one, is
not indexed either. -/
theorem far_lock_stops_the_pass : ∃ (s t : HybridState),
    Listed Sample.twoMarkets ⟨s, none⟩ ∧ Listed Sample.twoMarkets ⟨t, none⟩ ∧
      t.market.lockTs = 9007199254740992 ∧
      (∀ toBase58 vault, ∃ snapshot, buildHybridMarketSnapshot Sample.twoMarkets.sha256 toBase58
        (accountsOf Sample.twoMarkets ⟨s, none⟩ vault none 0 10) = .ok snapshot) ∧
      ∀ toBase58 snapshots, publicMarkets Sample.twoMarkets toBase58 (Sample.rows s t) 10 ≠
        .ok snapshots := by
  obtain ⟨s, t, hs, ht, hslock, htlock, hfetched⟩ := Sample.created
  refine ⟨s, t, Sample.listed_of_create hs, Sample.listed_of_create ht, htlock, ?_, ?_⟩
  · intro toBase58 vault
    have hsafe : isSafeInteger s.market.lockTs = true := by rw [hslock]; decide
    exact (accountsOf_valid (Sample.listed_of_create hs) vault none 0 10).builds toBase58 hsafe
  · intro toBase58 snapshots hpass
    have hall := (hfetched.publicMarkets_iff toBase58 10).mp ⟨snapshots, hpass⟩
    have hfar := hall ⟨t, none⟩ (List.mem_cons_of_mem _ List.mem_cons_self)
    dsimp only at hfar
    rw [htlock] at hfar
    exact absurd hfar (by decide)

theorem indexed_iff_safeLock_sample : ∃ (s t : HybridState),
    (∃ snapshot, buildHybridMarketSnapshot Sample.twoMarkets.sha256 (fun _ => "")
        (accountsOf Sample.twoMarkets ⟨s, none⟩ Pubkey.default none 0 10) = .ok snapshot) ∧
      ¬∃ snapshots, publicMarkets Sample.twoMarkets (fun _ => "") (Sample.rows s t) 10 =
        .ok snapshots := by
  obtain ⟨s, t, hs, ht, hslock, htlock, hfetched⟩ := Sample.created
  obtain ⟨hone, hall⟩ := indexed_iff_safeLock Sample.twoMarkets fun _ => ""
  refine ⟨s, t, ?_, ?_⟩
  · have hsafe : isSafeInteger s.market.lockTs = true := by rw [hslock]; decide
    exact (hone ⟨s, none⟩ (Sample.listed_of_create hs) Pubkey.default none 0 10).mpr hsafe
  · intro hpass
    have hfar := (hall _ _ 10 hfetched).mp hpass ⟨t, none⟩
      (List.mem_cons_of_mem _ List.mem_cons_self)
    dsimp only at hfar
    rw [htlock] at hfar
    exact absurd hfar (by decide)

end Nortia.Services
