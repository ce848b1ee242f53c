import Nortia.Web.ServerMarket
import Nortia.Verify.Lmsr.Agreement
import Nortia.Verify.Private.Lifecycle
import Nortia.Verify.Hybrid.Solvency
import Mathlib.Data.List.ReduceOption

/-!
# The listing and one market more

An entry is built of every market that names its accounts, and building one throws exactly when a
time of the market lies outside the dates, or a fixture outside the safe integers. The throw ends
the listing: a larger set of accounts lists what a smaller one does exactly when it brings no such
market.
-/

namespace Nortia.Web

open Lib Client

/-! ## Conversions -/

theorem safeNumber_eq_ok {value number : Int} {label : String} :
    safeNumber value label = .ok number ↔ isSafeInteger value = true ∧ value = number := by
  simp only [safeNumber, bind_eq_ok, require_eq_ok, exists_const, Except.ok.injEq]

theorem toISOString_eq_ok {milliseconds date : Int} :
    toISOString milliseconds = .ok date ↔
      (-maxTime ≤ milliseconds ∧ milliseconds ≤ maxTime) ∧ milliseconds = date := by
  simp only [toISOString, bind_eq_ok, require_eq_ok, exists_const, Except.ok.injEq]

/-- The seconds of a date. -/
def Showable (seconds : Int) : Prop := -8640000000000 ≤ seconds ∧ seconds ≤ 8640000000000

instance (seconds : Int) : Decidable (Showable seconds) := inferInstanceAs (Decidable (_ ∧ _))

theorem dateFromSeconds_isOk {value : Int} :
    (∃ date, dateFromSeconds value = .ok date) ↔ Showable value := by
  simp only [dateFromSeconds, bind_eq_ok, safeNumber_eq_ok, toISOString_eq_ok, isSafeInteger,
    Bool.and_eq_true, decide_eq_true_eq, maxTime, Showable]
  constructor
  · rintro ⟨_, _, ⟨-, rfl⟩, hdate, -⟩
    omega
  · intro h
    exact ⟨value * 1000, value, ⟨by omega, rfl⟩, by omega, rfl⟩

theorem outcomeName_isSome {outcome : Nat} :
    (outcomeName outcome).isSome = true ↔ outcome ≤ HybridMarket.outcomeUnset := by
  rw [outcomeName, Option.isSome_iff_ne_none, ne_eq, List.getElem?_eq_none_iff, not_le]
  exact Nat.lt_succ_iff

/-! ## Names -/

theorem privatePoolPhase_ok (phase : MarketPhase) :
    ∃ state, privatePoolPhase (MarketPhase.key phase) = some state := by
  cases phase <;> exact ⟨_, rfl⟩

theorem hybridPhase_ok (phase : HybridPhase) :
    ∃ state, hybridPhase (HybridPhase.key phase) = some state := by
  cases phase <;> exact ⟨_, rfl⟩

theorem categoryName_ok (category : MarketCategory) :
    ∃ name, categoryName (MarketCategory.key category) = some name := by
  cases category <;> exact ⟨_, rfl⟩

theorem resolverName_ok (resolver : OracleResolver) :
    ∃ name, resolverName (OracleResolver.key resolver) = some name := by
  cases resolver <;> exact ⟨_, rfl⟩

theorem comparatorName_ok (comparator : ValueComparator) :
    ∃ name, comparatorName (ValueComparator.key comparator) = some name := by
  cases comparator <;> exact ⟨_, rfl⟩

/-- A market has its names exactly when its outcome is known and its oracle account names it. -/
theorem namesOf_isSome {address : Pubkey} {account : HybridMarket}
    {support : HybridSupportAccounts} :
    (namesOf address account support).isSome = true ↔
      account.outcome ≤ HybridMarket.outcomeUnset ∧ (oracleOf support address).isSome = true := by
  obtain ⟨state, hstate⟩ := hybridPhase_ok account.phase
  obtain ⟨category, hcategory⟩ := categoryName_ok account.category
  simp only [namesOf, hstate, hcategory, Option.bind_eq_bind, Option.bind_some,
    Option.isSome_bind, Option.any_eq_true]
  rw [← outcomeName_isSome]
  constructor
  · rintro ⟨outcome, houtcome, oracle, horacle, -⟩
    exact ⟨Option.isSome_of_mem houtcome, Option.isSome_of_mem horacle⟩
  · rintro ⟨houtcome, horacle⟩
    obtain ⟨outcome, houtcome⟩ := Option.isSome_iff_exists.mp houtcome
    obtain ⟨oracle, horacle⟩ := Option.isSome_iff_exists.mp horacle
    obtain ⟨resolver, hresolver⟩ := resolverName_ok oracle.resolver
    obtain ⟨comparator, hcomparator⟩ := comparatorName_ok oracle.comparator
    exact ⟨outcome, houtcome, oracle, horacle, resolver, hresolver, comparator, hcomparator, rfl⟩

theorem namesOf_oracle {address : Pubkey} {account : HybridMarket} {support : HybridSupportAccounts}
    {state : TradingState} {category outcome : String} {oracle : OracleConfig}
    {resolver : ResolverName} {comparator : String}
    (h : namesOf address account support =
      some (state, category, outcome, oracle, resolver, comparator)) :
    oracleOf support address = some oracle := by
  simp only [namesOf, Option.bind_eq_bind, Option.bind_eq_some_iff, Option.some.injEq,
    Prod.mk.injEq] at h
  obtain ⟨_, -, _, -, _, -, found, horacle, _, -, _, -, -, -, -, rfl, -⟩ := h
  exact horacle

/-! ## One entry -/

/-- A private market whose entry can be built. -/
structure PrivateShowable (account : Market) : Prop where
  fixtureId : isSafeInteger account.fixtureId = true
  lock : Showable account.lockTs
  kickoff : findTemplate account.fixtureId = none → isSafeInteger account.fixtureStartTs = true

/-- A hybrid market with its oracle account and its receipt whose entry can be built. -/
structure HybridShowable (account : HybridMarket) (oracle : OracleConfig)
    (receipt : Option (ResolutionReceipt × String)) : Prop where
  accepted : Lmsr.Accepted (Hybrid.lmsrQuantities account) account.liquidityParameter
  lock : Showable account.lockTs
  openTs : Showable account.openTs
  resolveNotBefore : Showable account.resolveNotBeforeTs
  resolutionDeadline : Showable account.resolutionDeadlineTs
  observation : Showable oracle.observationTs
  receipt : ∀ shown ∈ receipt, Showable shown.1.observationTs ∧ Showable shown.1.finalizedAt

section Entries

variable {host : Host}

theorem kickoffOf_isOk (host : Host) {template : Option Template} {fixtureStartTs : Int} :
    (∃ kickoff, kickoffOf host template fixtureStartTs = .ok kickoff) ↔
      (template = none → isSafeInteger fixtureStartTs = true) := by
  cases template with
  | none =>
    simp only [kickoffOf, bind_eq_ok, safeNumber_eq_ok, Except.ok.injEq, forall_const]
    constructor
    · rintro ⟨_, _, ⟨hsafe, -⟩, -⟩
      exact hsafe
    · intro hsafe
      exact ⟨_, _, ⟨hsafe, rfl⟩, rfl⟩
  | some template => exact ⟨fun _ h => absurd h (Option.some_ne_none _), fun _ => ⟨_, rfl⟩⟩

/-- The entry of a private market, which always is one. -/
theorem buildPrivateMarket_ok {value : String} {account : Market} {built : Option MarketEntry}
    (h : buildPrivateMarket host value account = .ok built) :
    PrivateShowable account ∧ ∃ entry, built = some entry ∧ entry.address = value := by
  obtain ⟨state, hstate⟩ := privatePoolPhase_ok account.phase
  simp only [buildPrivateMarket, hstate, bind_eq_ok, safeNumber_eq_ok, Except.ok.injEq] at h
  obtain ⟨_, ⟨hfixture, rfl⟩, lockAt, hlock, kickoff, hkickoff, rfl⟩ := h
  exact ⟨⟨hfixture, dateFromSeconds_isOk.mp ⟨_, hlock⟩, (kickoffOf_isOk host).mp ⟨_, hkickoff⟩⟩,
    _, rfl, rfl⟩

theorem PrivateShowable.build (host : Host) {account : Market} (h : PrivateShowable account)
    (value : String) :
    ∃ entry, buildPrivateMarket host value account = .ok (some entry) := by
  obtain ⟨state, hstate⟩ := privatePoolPhase_ok account.phase
  obtain ⟨lockAt, hlock⟩ := dateFromSeconds_isOk.mpr h.lock
  obtain ⟨kickoff, hkickoff⟩ := (kickoffOf_isOk host).mpr h.kickoff
  have hfixture : safeNumber account.fixtureId "fixture ID" = .ok account.fixtureId :=
    safeNumber_eq_ok.mpr ⟨h.fixtureId, rfl⟩
  simp only [buildPrivateMarket, hstate, hfixture, hlock, hkickoff, ok_bind]
  exact ⟨_, rfl⟩

theorem buildOracleDetails_isOk (host : Host) {oracle : OracleConfig} (comparator : String) :
    (∃ details, buildOracleDetails host oracle comparator = .ok details) ↔
      Showable oracle.observationTs := by
  rw [← dateFromSeconds_isOk]
  simp only [buildOracleDetails, bind_eq_ok, Except.ok.injEq]
  constructor
  · rintro ⟨_, date, hdate, -⟩
    exact ⟨date, hdate⟩
  · rintro ⟨date, hdate⟩
    exact ⟨_, date, hdate, rfl⟩

theorem buildReceiptDetails_isOk (host : Host) {receipt : Option (ResolutionReceipt × String)} :
    (∃ details, buildReceiptDetails host receipt = .ok details) ↔
      ∀ shown ∈ receipt, Showable shown.1.observationTs ∧ Showable shown.1.finalizedAt := by
  cases receipt with
  | none => exact ⟨fun _ _ hnone => absurd hnone.symm (Option.some_ne_none _), fun _ => ⟨_, rfl⟩⟩
  | some shown =>
    simp only [Option.mem_some_iff, forall_eq', ← dateFromSeconds_isOk, buildReceiptDetails,
      bind_eq_ok, Except.ok.injEq]
    constructor
    · rintro ⟨_, observed, hobserved, finalized, hfinalized, -⟩
      exact ⟨⟨observed, hobserved⟩, finalized, hfinalized⟩
    · rintro ⟨⟨observed, hobserved⟩, finalized, hfinalized⟩
      exact ⟨_, observed, hobserved, finalized, hfinalized, rfl⟩

theorem lmsrYesProbability_isOk {yes no liquidity : Nat} :
    (∃ probability, lmsrYesProbability ⟨yes, no⟩ liquidity = .ok probability) ↔
      Lmsr.Accepted ⟨yes, no⟩ liquidity := by
  constructor
  · rintro ⟨_, h⟩
    obtain ⟨_, hvalid, -⟩ := bind_eq_ok.mp h
    exact validateState_iff.mp hvalid
  · intro h
    have hprobability := lmsrYesProbability_eq h
    rw [ofQuantities] at hprobability
    exact ⟨_, hprobability⟩

/-- The entry of a market whose names are known. -/
theorem buildNamedMarket_ok {address : Pubkey} {account : HybridMarket}
    {support : HybridSupportAccounts} {traderCount : Nat} {questionCandidate : Option (List Char)}
    {state : TradingState} {category outcome : String} {oracle : OracleConfig}
    {resolver : ResolverName} {comparator : String} {entry : MarketEntry}
    (h : buildNamedMarket host address account support traderCount questionCandidate state category
      outcome oracle resolver comparator = .ok entry) :
    HybridShowable account oracle (receiptOf support address) ∧
      entry.address = host.toBase58 address := by
  simp only [buildNamedMarket, bind_eq_ok, Except.ok.injEq] at h
  obtain ⟨_, hprobability, _, hlock, _, hopen, _, hready, _, hdeadline, _, horacle, _, hreceipt,
    rfl⟩ := h
  refine ⟨⟨lmsrYesProbability_isOk.mp ⟨_, hprobability⟩, ?_, ?_, ?_, ?_, ?_, ?_⟩, rfl⟩
  · exact dateFromSeconds_isOk.mp ⟨_, hlock⟩
  · exact dateFromSeconds_isOk.mp ⟨_, hopen⟩
  · exact dateFromSeconds_isOk.mp ⟨_, hready⟩
  · exact dateFromSeconds_isOk.mp ⟨_, hdeadline⟩
  · exact (buildOracleDetails_isOk host comparator).mp ⟨_, horacle⟩
  · exact (buildReceiptDetails_isOk host).mp ⟨_, hreceipt⟩

theorem HybridShowable.build {address : Pubkey} {account : HybridMarket}
    {support : HybridSupportAccounts} {oracle : OracleConfig}
    (h : HybridShowable account oracle (receiptOf support address)) (traderCount : Nat)
    (questionCandidate : Option (List Char)) (state : TradingState) (category outcome : String)
    (resolver : ResolverName) (comparator : String) :
    ∃ entry, buildNamedMarket host address account support traderCount questionCandidate state
      category outcome oracle resolver comparator = .ok entry := by
  obtain ⟨_, hprobability⟩ := lmsrYesProbability_isOk.mpr h.accepted
  obtain ⟨_, hlock⟩ := dateFromSeconds_isOk.mpr h.lock
  obtain ⟨_, hopen⟩ := dateFromSeconds_isOk.mpr h.openTs
  obtain ⟨_, hready⟩ := dateFromSeconds_isOk.mpr h.resolveNotBefore
  obtain ⟨_, hdeadline⟩ := dateFromSeconds_isOk.mpr h.resolutionDeadline
  obtain ⟨_, horacle⟩ := (buildOracleDetails_isOk host comparator).mpr h.observation
  obtain ⟨_, hreceipt⟩ := (buildReceiptDetails_isOk host).mpr h.receipt
  simp only [buildNamedMarket, hprobability, hlock, hopen, hready, hdeadline, horacle, hreceipt,
    ok_bind]
  exact ⟨_, rfl⟩

end Entries

/-! ## The accounts a market is read with -/

section Lookup

variable {host : Host} {ledger ledger' : Ledger} {address : Pubkey} {account : ChainAccount}

theorem Ledger.get_eq_some :
    ledger.get address = some account ↔ (address, account) ∈ ledger.accounts := by
  rw [Ledger.get, Option.map_eq_some_iff]
  constructor
  · rintro ⟨⟨found, _⟩, hfind, rfl⟩
    obtain ⟨hmem, rfl⟩ := Keyed.find_some hfind
    exact hmem
  · intro hmem
    exact ⟨_, Keyed.find_of_mem ledger.distinct hmem, rfl⟩

theorem mem_programRows {row : Pubkey × ChainAccount} :
    row ∈ ledger.programRows ↔ row ∈ ledger.accounts ∧ row.2.owner = crateId := by
  simp [Ledger.programRows]

/-- What the listing finds at an address is what the ledger has there, when the program owns it. -/
theorem decodeAccount_mapGet {α : Type} (decode : AccountData → Option α) (address : Pubkey) :
    decodeAccount decode (mapGet (accountMap host ledger) address) =
      decodeAccount decode (ledger.get address) := by
  rw [mapGet, accountMap, Keyed.findLast_append]
  cases hvault : Keyed.findLast Prod.fst (((decodedHybrid ledger.programRows).map fun row =>
      hybridVaultPda host.runtime row.1).map fun vault => (vault, ledger.get vault)) address with
  | some entry =>
    -- the entry of a vault is the account at its address
    obtain ⟨hmem, rfl⟩ := Keyed.findLast_some hvault
    obtain ⟨vault, -, rfl⟩ := List.mem_map.mp hmem
    rfl
  | none =>
    rw [Option.none_or]
    cases hrow : Keyed.findLast Prod.fst (ledger.programRows.map fun row => (row.1, some row.2))
        address with
    | some entry =>
      obtain ⟨hmem, rfl⟩ := Keyed.findLast_some hrow
      obtain ⟨row, hprogram, rfl⟩ := List.mem_map.mp hmem
      rw [Option.bind_some, Ledger.get_eq_some.mpr (mem_programRows.mp hprogram).1]
    | none =>
      rw [Option.bind_none]
      cases hget : ledger.get address with
      | none => rfl
      | some account =>
        -- an account of the program would have a row
        have hforeign : account.owner ≠ crateId := by
          intro howner
          have hprogram : (address, account) ∈ ledger.programRows :=
            mem_programRows.mpr ⟨Ledger.get_eq_some.mp hget, howner⟩
          exact Keyed.findLast_eq_none.mp hrow _ (List.mem_map.mpr ⟨_, hprogram, rfl⟩) rfl
        simp [decodeAccount, hforeign]

/-- The accounts a market is read with, as the ledger has them. -/
def supportIn (host : Host) (ledger : Ledger) (address oracle : Pubkey) : HybridSupportAccounts where
  oracle := ledger.get oracle
  metadata := ledger.get (hybridMetadataPda host.runtime address)
  receipt := ledger.get (resolutionReceiptPda host.runtime address)
  vault := ledger.get (hybridVaultPda host.runtime address)

theorem oracleOf_supportFromMap {oracle : Pubkey} :
    oracleOf (supportFromMap host (accountMap host ledger) address oracle) address =
      oracleOf (supportIn host ledger address oracle) address := by
  simp only [oracleOf, supportFromMap, supportIn, decodeAccount_mapGet]

theorem receiptOf_supportFromMap {oracle : Pubkey} :
    receiptOf (supportFromMap host (accountMap host ledger) address oracle) address =
      receiptOf (supportIn host ledger address oracle) address := by
  simp only [receiptOf, supportFromMap, supportIn, decodeAccount_mapGet]

end Lookup

/-! ## The listing -/

/-- A hybrid market with a known outcome and an oracle account that names it. -/
def Named (host : Host) (ledger : Ledger) (address : Pubkey) (account : HybridMarket) : Prop :=
  account.outcome ≤ HybridMarket.outcomeUnset ∧
    (oracleOf (supportIn host ledger address account.oracleConfig) address).isSome = true

/-- A ledger of whose markets every entry can be built. -/
structure Presentable (host : Host) (ledger : Ledger) : Prop where
  privateMarkets : ∀ row ∈ decodedPrivate ledger.programRows, PrivateShowable row.2
  hybridMarkets : ∀ row ∈ decodedHybrid ledger.programRows,
    row.2.outcome ≤ HybridMarket.outcomeUnset → ∀ oracle,
      oracleOf (supportIn host ledger row.1 row.2.oracleConfig) row.1 = some oracle →
        HybridShowable row.2 oracle
          (receiptOf (supportIn host ledger row.1 row.2.oracleConfig) row.1)

section Listing

variable {host : Host} {ledger ledger' : Ledger} {address : Pubkey} {account : HybridMarket}
  {positions : List Position}

/-- The listing's call for one hybrid market. -/
def buildListed (host : Host) (ledger : Ledger) (row : Pubkey × HybridMarket) :
    Except String (Option MarketEntry) :=
  buildHybridMarket host row.1 row.2
    (supportFromMap host (accountMap host ledger) row.1 row.2.oracleConfig)
    (traderCount (decodedPositions ledger.programRows) row.1) none

theorem buildListed_unnamed {row : Pubkey × HybridMarket} (h : ¬Named host ledger row.1 row.2) :
    buildListed host ledger row = .ok none := by
  have hnames : namesOf row.1 row.2
      (supportFromMap host (accountMap host ledger) row.1 row.2.oracleConfig) = none := by
    rw [← Option.not_isSome_iff_eq_none, namesOf_isSome, oracleOf_supportFromMap]
    exact h
  rw [buildListed, buildHybridMarket, hnames]

/-- A named market is built from its oracle account. -/
theorem buildListed_named {row : Pubkey × HybridMarket} (h : Named host ledger row.1 row.2) :
    ∃ state category outcome oracle resolver comparator,
      oracleOf (supportIn host ledger row.1 row.2.oracleConfig) row.1 = some oracle ∧
      buildListed host ledger row = (do
        let entry ← buildNamedMarket host row.1 row.2
          (supportFromMap host (accountMap host ledger) row.1 row.2.oracleConfig)
          (traderCount (decodedPositions ledger.programRows) row.1) none state category outcome
          oracle resolver comparator
        .ok (some entry)) := by
  have hsome : (namesOf row.1 row.2
      (supportFromMap host (accountMap host ledger) row.1 row.2.oracleConfig)).isSome = true := by
    rw [namesOf_isSome, oracleOf_supportFromMap]
    exact h
  obtain ⟨⟨state, category, outcome, oracle, resolver, comparator⟩, hnames⟩ :=
    Option.isSome_iff_exists.mp hsome
  have horacle := namesOf_oracle hnames
  rw [oracleOf_supportFromMap] at horacle
  refine ⟨state, category, outcome, oracle, resolver, comparator, horacle, ?_⟩
  rw [buildListed, buildHybridMarket, hnames]

/-- Building an entry throws exactly when the market is named and cannot be shown. -/
theorem buildListed_isOk {row : Pubkey × HybridMarket} :
    (∃ built, buildListed host ledger row = .ok built) ↔
      (row.2.outcome ≤ HybridMarket.outcomeUnset → ∀ oracle,
        oracleOf (supportIn host ledger row.1 row.2.oracleConfig) row.1 = some oracle →
          HybridShowable row.2 oracle
            (receiptOf (supportIn host ledger row.1 row.2.oracleConfig) row.1)) := by
  by_cases hnamed : Named host ledger row.1 row.2
  · obtain ⟨state, category, outcome, oracle, resolver, comparator, horacle, hbuild⟩ :=
      buildListed_named hnamed
    rw [hbuild]
    constructor
    · rintro ⟨_, h⟩ - oracle' horacle'
      obtain ⟨entry, hentry, -⟩ := bind_eq_ok.mp h
      obtain rfl := Option.some.inj (horacle.symm.trans horacle')
      rw [← receiptOf_supportFromMap]
      exact (buildNamedMarket_ok hentry).1
    · intro h
      have hshowable := h hnamed.1 oracle horacle
      rw [← receiptOf_supportFromMap] at hshowable
      obtain ⟨entry, hentry⟩ := hshowable.build (traderCount (decodedPositions ledger.programRows) row.1)
        none state category outcome resolver comparator
      exact ⟨some entry, by rw [hentry, ok_bind]⟩
  · refine ⟨fun _ houtcome oracle horacle => ?_, fun _ => ⟨none, buildListed_unnamed hnamed⟩⟩
    exact absurd ⟨houtcome, Option.isSome_of_mem horacle⟩ hnamed

/-- The entry of a hybrid market, which is one exactly when the market is named. -/
theorem buildListed_ok {row : Pubkey × HybridMarket} {built : Option MarketEntry}
    (h : buildListed host ledger row = .ok built) :
    (built.isSome = true ↔ Named host ledger row.1 row.2) ∧
      ∀ entry, built = some entry → entry.address = host.toBase58 row.1 := by
  by_cases hnamed : Named host ledger row.1 row.2
  · obtain ⟨state, category, outcome, oracle, resolver, comparator, -, hbuild⟩ :=
      buildListed_named hnamed
    rw [hbuild] at h
    obtain ⟨entry, hentry, h⟩ := bind_eq_ok.mp h
    cases h
    refine ⟨⟨fun _ => hnamed, fun _ => rfl⟩, ?_⟩
    rintro _ ⟨⟩
    exact (buildNamedMarket_ok hentry).2
  · rw [buildListed_unnamed hnamed] at h
    cases h
    exact ⟨⟨fun hnone => absurd hnone Bool.false_ne_true, fun hN => absurd hN hnamed⟩,
      fun _ hnone => absurd hnone (Option.some_ne_none _).symm⟩

/-- **The listing throws exactly on a ledger with a market that cannot be shown.** -/
theorem getOnchainMarkets_isOk :
    (∃ listed, getOnchainMarkets host ledger = .ok listed) ↔ Presentable host ledger := by
  have hhybrid : (∃ out, (decodedHybrid ledger.programRows).mapM (buildListed host ledger) =
      .ok out) ↔ _ := mapM_isOk_iff
  have hprivate : (∃ out, (decodedPrivate ledger.programRows).mapM (fun row =>
      buildPrivateMarket host (host.toBase58 row.1) row.2) = .ok out) ↔ _ := mapM_isOk_iff
  constructor
  · rintro ⟨listed, h⟩
    obtain ⟨publicMarkets, hpublic, h⟩ := bind_eq_ok.mp h
    obtain ⟨privateMarkets, hprivateMarkets, -⟩ := bind_eq_ok.mp h
    constructor
    · intro row hrow
      obtain ⟨built, hbuilt⟩ := hprivate.mp ⟨privateMarkets, hprivateMarkets⟩ row hrow
      exact (buildPrivateMarket_ok hbuilt).1
    · intro row hrow
      exact buildListed_isOk.mp (hhybrid.mp ⟨publicMarkets, hpublic⟩ row hrow)
  · intro h
    obtain ⟨publicMarkets, hpublic⟩ := hhybrid.mpr fun row hrow =>
      buildListed_isOk.mpr (h.hybridMarkets row hrow)
    obtain ⟨privateMarkets, hprivateMarkets⟩ := hprivate.mpr fun row hrow => by
      obtain ⟨entry, hentry⟩ := (h.privateMarkets row hrow).build host (host.toBase58 row.1)
      exact ⟨some entry, hentry⟩
    refine ⟨_, bind_eq_ok.mpr ⟨publicMarkets, hpublic, bind_eq_ok.mpr ⟨privateMarkets,
      hprivateMarkets, rfl⟩⟩⟩

/-- What is listed: the private markets and the named hybrid ones. -/
theorem mem_addresses {listed : List MarketEntry} {text : String}
    (h : getOnchainMarkets host ledger = .ok listed) :
    text ∈ listed.map MarketEntry.address ↔
      (∃ row ∈ decodedHybrid ledger.programRows, Named host ledger row.1 row.2 ∧
        host.toBase58 row.1 = text) ∨
      ∃ row ∈ decodedPrivate ledger.programRows, host.toBase58 row.1 = text := by
  obtain ⟨publicMarkets, hpublic, h⟩ := bind_eq_ok.mp h
  obtain ⟨privateMarkets, hprivates, h⟩ := bind_eq_ok.mp h
  cases h
  have hhybrid : ∀ built, built ∈ publicMarkets ↔ ∃ row ∈ decodedHybrid ledger.programRows,
      buildListed host ledger row = .ok built := fun built => mem_of_mapM_eq_ok hpublic
  have hprivate : ∀ built, built ∈ privateMarkets ↔ ∃ row ∈ decodedPrivate ledger.programRows,
      buildPrivateMarket host (host.toBase58 row.1) row.2 = .ok built :=
    fun built => mem_of_mapM_eq_ok hprivates
  simp only [List.mem_map, List.mem_mergeSort, List.mem_append, List.reduceOption_mem_iff, hhybrid,
    hprivate]
  constructor
  · rintro ⟨entry, ⟨row, hrow, hbuild⟩ | ⟨row, hrow, hbuild⟩, rfl⟩
    · obtain ⟨hnamed, haddress⟩ := buildListed_ok hbuild
      exact .inl ⟨row, hrow, hnamed.mp rfl, (haddress entry rfl).symm⟩
    · obtain ⟨-, _, hsome, haddress⟩ := buildPrivateMarket_ok hbuild
      cases hsome
      exact .inr ⟨row, hrow, haddress.symm⟩
  · rintro (⟨row, hrow, hnamed, rfl⟩ | ⟨row, hrow, rfl⟩)
    · obtain ⟨built, hbuild⟩ := mapM_isOk_iff.mp ⟨publicMarkets, hpublic⟩ row hrow
      obtain ⟨hsome, haddress⟩ := buildListed_ok hbuild
      obtain ⟨entry, rfl⟩ := Option.isSome_iff_exists.mp (hsome.mpr hnamed)
      exact ⟨entry, .inl ⟨row, hrow, hbuild⟩, haddress entry rfl⟩
    · obtain ⟨built, hbuild⟩ := mapM_isOk_iff.mp ⟨privateMarkets, hprivates⟩ row hrow
      obtain ⟨-, entry, rfl, haddress⟩ := buildPrivateMarket_ok hbuild
      exact ⟨entry, .inr ⟨row, hrow, hbuild⟩, haddress⟩

/-! ## More accounts -/

theorem programRows_mono (h : ledger.accounts ⊆ ledger'.accounts) :
    ledger.programRows ⊆ ledger'.programRows := by
  intro row hrow
  obtain ⟨hmem, howner⟩ := mem_programRows.mp hrow
  exact mem_programRows.mpr ⟨h hmem, howner⟩

theorem decoded_mono (h : ledger.accounts ⊆ ledger'.accounts) :
    decodedHybrid ledger.programRows ⊆ decodedHybrid ledger'.programRows ∧
      decodedPrivate ledger.programRows ⊆ decodedPrivate ledger'.programRows :=
  ⟨List.filterMap_subset _ (programRows_mono h), List.filterMap_subset _ (programRows_mono h)⟩

/-- A market keeps its oracle account, so it stays named. -/
theorem Named.mono (hN : Named host ledger address account)
    (h : ledger.accounts ⊆ ledger'.accounts) : Named host ledger' address account := by
  refine ⟨hN.1, ?_⟩
  have hsome := hN.2
  cases hget : ledger.get account.oracleConfig with
  | none => simp [oracleOf, supportIn, hget, decodeAccount] at hsome
  | some found =>
    have hget' : ledger'.get account.oracleConfig = some found :=
      Ledger.get_eq_some.mpr (h (Ledger.get_eq_some.mp hget))
    simp only [oracleOf, supportIn, hget] at hsome
    simpa only [oracleOf, supportIn, hget'] using hsome

end Listing

/-- The larger ledger lists whatever the smaller one lists. -/
def Isolated (host : Host) (ledger ledger' : Ledger) : Prop :=
  ∀ listed, getOnchainMarkets host ledger = .ok listed →
    ∃ listed', getOnchainMarkets host ledger' = .ok listed' ∧
      ∀ address ∈ listed.map MarketEntry.address, address ∈ listed'.map MarketEntry.address

/-- **More accounts hide no market exactly when they bring none that cannot be shown.** -/
theorem isolated_iff_presentable {host : Host} {ledger ledger' : Ledger}
    (hmore : ledger.accounts ⊆ ledger'.accounts) :
    Isolated host ledger ledger' ↔ (Presentable host ledger → Presentable host ledger') := by
  constructor
  · intro hisolated hpresentable
    obtain ⟨listed, hlisted⟩ := getOnchainMarkets_isOk.mpr hpresentable
    obtain ⟨listed', hlisted', -⟩ := hisolated listed hlisted
    exact getOnchainMarkets_isOk.mp ⟨listed', hlisted'⟩
  · intro h listed hlisted
    obtain ⟨listed', hlisted'⟩ :=
      getOnchainMarkets_isOk.mpr (h (getOnchainMarkets_isOk.mp ⟨listed, hlisted⟩))
    refine ⟨listed', hlisted', fun address haddress => (mem_addresses hlisted').mpr ?_⟩
    obtain ⟨hhybrid, hprivate⟩ := decoded_mono hmore
    rcases (mem_addresses hlisted).mp haddress with ⟨row, hrow, hnamed, htext⟩ | ⟨row, hrow, htext⟩
    · exact .inl ⟨row, hhybrid hrow, hnamed.mono hmore, htext⟩
    · exact .inr ⟨row, hprivate hrow, htext⟩

/-! ## A market beyond the dates -/

namespace Sample

open PrivatePool.Sample (creator protocol mint tokenProgram tokens marketKey)

/-- The address of the private market of the same creator with the id 2. -/
def secondKey : Pubkey :=
  ⟨[61, 168, 10, 129, 153, 155, 203, 131, 171, 198, 11, 229, 216, 49, 1, 49, 202, 117, 45, 235,
    237, 127, 42, 86, 116, 87, 186, 102, 43, 35, 204, 48], rfl⟩

/-- A fixture that is replayed after the last date. -/
def farArgs : InitializeMarketArgs :=
  { PrivatePool.Sample.args with
    marketId := 2
    marketId_le := by decide
    marketMode := .replay
    lockTs := 8640000000001
    batchDeadlineTs := 8640000000002
    resolutionDeadlineTs := 8640000000003 }

/-- The same fixture, replayed earlier. -/
def nearArgs : InitializeMarketArgs :=
  { farArgs with lockTs := 2000, batchDeadlineTs := 3000, resolutionDeadlineTs := 4000 }

/-- A page rendered at the epoch, with addresses in hexadecimal and numbers not rounded. -/
def host : Host where
  now := 0
  toBase58 := fun key => hex key.toList
  toLocaleString := fun _ milliseconds => toString milliseconds
  round := id
  runtime := Hybrid.Sample.runtime

def marketOf (args : InitializeMarketArgs) : Market := PrivatePool.newMarket protocol creator args

/-- `initialize_market` accepts the arguments. -/
def Accepts (args : InitializeMarketArgs) : Prop :=
  ∃ s, PrivatePool.initializeMarket protocol tokens creator mint tokenProgram args 0 = .ok s ∧
    s.market = marketOf args

theorem accepts_of_valid {args : InitializeMarketArgs} (h : PrivatePool.validMarketArgs args 0) :
    Accepts args := by
  refine ⟨{ market := marketOf args, orders := [], claims := [], vault := 0, tokens }, ?_, rfl⟩
  simp only [PrivatePool.initializeMarket, check_pos h]
  rfl

def accountOf (args : InitializeMarketArgs) : ChainAccount where
  owner := crateId
  data := .market (marketOf args)
  tokenAmount := 0

def one : Ledger where
  accounts := [(marketKey, accountOf PrivatePool.Sample.args)]
  distinct := List.nodup_singleton _

def two (args : InitializeMarketArgs) : Ledger where
  accounts := [(marketKey, accountOf PrivatePool.Sample.args), (secondKey, accountOf args)]
  distinct := (by decide : [marketKey, secondKey].Nodup)

theorem one_subset_two (args : InitializeMarketArgs) : one.accounts ⊆ (two args).accounts :=
  List.cons_subset_cons _ (List.nil_subset _)

theorem decoded_two (args : InitializeMarketArgs) :
    decodedPrivate (two args).programRows =
      [(marketKey, marketOf PrivatePool.Sample.args), (secondKey, marketOf args)] ∧
    decodedHybrid (two args).programRows = [] := ⟨rfl, rfl⟩

theorem showable_first : PrivateShowable (marketOf PrivatePool.Sample.args) :=
  ⟨by decide, by decide, fun _ => by decide⟩

theorem presentable_one (host : Host) : Presentable host one := by
  constructor
  · intro row hrow
    rw [List.mem_singleton.mp hrow]
    exact showable_first
  · intro row hrow
    exact absurd hrow List.not_mem_nil

theorem presentable_two {host : Host} {args : InitializeMarketArgs} :
    Presentable host (two args) ↔ PrivateShowable (marketOf args) := by
  obtain ⟨hprivate, hhybrid⟩ := decoded_two args
  constructor
  · intro h
    exact h.privateMarkets (secondKey, marketOf args) (by rw [hprivate]; simp)
  · intro hshowable
    constructor
    · intro row hrow
      rw [hprivate] at hrow
      rcases List.mem_cons.mp hrow with rfl | hrow
      · exact showable_first
      · rw [List.mem_singleton.mp hrow]
        exact hshowable
    · intro row hrow
      rw [hhybrid] at hrow
      exact absurd hrow List.not_mem_nil

end Sample

/-- `initialize_market` accepts a market that no date shows, and once it exists the listing throws,
though it lists the market before it. -/
theorem far_market_hides_the_others :
    Sample.Accepts PrivatePool.Sample.args ∧ Sample.Accepts Sample.farArgs ∧
      (∃ listed, getOnchainMarkets Sample.host Sample.one = .ok listed ∧
        Sample.host.toBase58 PrivatePool.Sample.marketKey ∈ listed.map MarketEntry.address) ∧
      ∀ listed, getOnchainMarkets Sample.host (Sample.two Sample.farArgs) ≠ .ok listed := by
  refine ⟨Sample.accepts_of_valid (by decide), Sample.accepts_of_valid (by decide), ?_, ?_⟩
  · obtain ⟨listed, hlisted⟩ := getOnchainMarkets_isOk.mpr (Sample.presentable_one Sample.host)
    exact ⟨listed, hlisted, (mem_addresses hlisted).mpr (.inr ⟨_, List.mem_singleton_self _, rfl⟩)⟩
  · intro listed hlisted
    have hpresentable := getOnchainMarkets_isOk.mp ⟨listed, hlisted⟩
    exact absurd (Sample.presentable_two.mp hpresentable).lock (by decide)

/-- A market replayed earlier hides nothing. -/
theorem isolated_iff_presentable_near :
    Isolated Sample.host Sample.one (Sample.two Sample.nearArgs) := by
  refine (isolated_iff_presentable (Sample.one_subset_two Sample.nearArgs)).mpr fun _ => ?_
  exact Sample.presentable_two.mpr ⟨by decide, by decide, fun _ => by decide⟩

end Nortia.Web
