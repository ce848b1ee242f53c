import Nortia.Verify.Hybrid.Observations

/-!
# An observation for every alive configuration

For each oracle resolver an account its source can publish, which passes every check of its
validator. The Pyth and the Switchboard decoders are parameters: what their programs attest is a
hypothesis on them.
-/

namespace Nortia.Hybrid

open Lib

variable {oracle : OracleConfig}

/-! ## What the decoders decode -/

/-- A fully verified positive price of a feed, without a confidence interval. -/
structure AttestedPrice (update : PythPriceUpdate) (feedId : Bytes32)
    (publishTime prevPublishTime : Int) : Prop where
  verified : update.verificationLevel = .full
  feedId : update.priceMessage.feedId = feedId
  publishTime : update.priceMessage.publishTime = publishTime
  prevPublishTime : update.priceMessage.prevPublishTime = prevPublishTime
  price : 0 < update.priceMessage.price ∧ update.priceMessage.price ≤ i64Max
  conf : update.priceMessage.conf = 0
  exponent : -18 ≤ update.priceMessage.exponent ∧ update.priceMessage.exponent ≤ 18

/-- Pyth can publish a price of any feed at any time. -/
def PythAttests (rt : Runtime) : Prop :=
  ∀ feedId publishTime prevPublishTime, i64Min ≤ prevPublishTime →
    prevPublishTime < publishTime → publishTime ≤ i64Max → ∃ data update,
      rt.deserializePriceUpdate data = some update ∧
        AttestedPrice update feedId publishTime prevPublishTime

/-- A quote of one feed that some distinct oracles signed. -/
structure AttestedQuote (quote : ParsedEd25519Instruction) (feedId : Bytes32)
    (samples slot : Nat) : Prop where
  padding : quote.padding = 0
  version : 0 < quote.version
  discriminator : quote.discriminator = Switchboard.switchboardTailDiscriminator
  slothash : quote.signedSlothash ≠ zeroBytes
  slot : quote.slot = slot
  feed : ∃ feed, quote.feeds = [feed] ∧ feed.feedId = feedId ∧ samples ≤ feed.minOracleSamples
  numSignatures : quote.numSignatures = samples
  signatures : quote.signatures.length = samples
  size : ∀ signature ∈ quote.signatures, signature.messageDataSize = 32 + 49
  signed : ∀ signature ∈ quote.signatures, signature.pubkey ≠ zeroBytes ∧
    signature.signature ≠ Bytes.fill 64 0
  distinct : (quote.signatures.map (·.pubkey)).Nodup
  indices : quote.oracleIdxs.length = samples ∧ quote.oracleIdxs.Nodup

/-- Switchboard can publish a quote of any feed at any slot. -/
def SwitchboardAttests (rt : Runtime) : Prop :=
  ∀ feedId samples slot, 2 ≤ samples → samples ≤ 8 → slot ≤ u64Max → ∃ payload quote,
    0 < payload.length ∧ payload.length ≤ u16Max ∧
      rt.parseQuotePayload payload = some (.oracle quote) ∧
        AttestedQuote quote feedId samples slot

/-- The program of the source behind a resolver attests any observation. -/
def Attests (rt : Runtime) : OracleResolver → Prop
  | .pythPrice => PythAttests rt
  | .switchboardQuote => SwitchboardAttests rt
  | _ => True

/-! ## Lists and decimals -/

theorem slice_append {a b : List UInt8} (c : List UInt8) {lo hi : Nat} (hlo : a.length = lo)
    (hhi : lo + b.length = hi) : Stork.slice (a ++ (b ++ c)) lo hi = b := by
  subst hlo hhi
  rw [Stork.slice, List.drop_left, Nat.add_sub_cancel_left, List.take_left]

theorem slice_head {b : List UInt8} (c : List UInt8) {hi : Nat} (hhi : b.length = hi) :
    Stork.slice (b ++ c) 0 hi = b := by
  subst hhi
  rw [Stork.slice, List.drop_zero, Nat.sub_zero, List.take_left]

theorem notMem_take_of_nodup {α : Type} {l : List α} {i : Nat} {a : α} (hl : l.Nodup)
    (ha : l[i]? = some a) : a ∉ l.take i := by
  intro hmem
  obtain ⟨j, hj, hja⟩ := List.mem_take_iff_getElem.mp hmem
  obtain ⟨hi, hia⟩ := List.getElem?_eq_some_iff.mp ha
  have := (List.Nodup.getElem_inj_iff hl).mp (hja.trans hia.symm)
  omega

theorem compareValues_of (left right : Int) {leftExponent rightExponent : Int}
    (hleft : -18 ≤ leftExponent ∧ leftExponent ≤ 18)
    (hright : -18 ≤ rightExponent ∧ rightExponent ≤ 18) (comparator : ValueComparator) :
    ∃ answer, Oracles.compareValues left leftExponent right rightExponent comparator =
      .ok answer := by
  simp only [Oracles.compareValues, check_pos (And.intro hleft hright), ok_bind]
  cases comparator <;> exact ⟨_, rfl⟩

theorem toNat_yes_or_no (answer : Bool) :
    answer.toNat = HybridMarket.outcomeYes ∨ answer.toNat = HybridMarket.outcomeNo := by
  cases answer
  · exact .inr rfl
  · exact .inl rfl

/-! ## Pyth -/

/-- A price at the observation time passes at that time. -/
theorem validatePythAccount_of {rt : Runtime} {clock : Clock} (hresolver : oracle.resolver = .pythPrice)
    (hprogram : oracle.sourceProgram = pythReceiverProgramId ∨
      oracle.sourceProgram = pythPushOracleProgramId)
    (hexponent : -18 ≤ oracle.thresholdExponent ∧ oracle.thresholdExponent ≤ 18)
    (hbps : oracle.maxConfidenceBps ≤ feeSplitDenominator) (hattests : PythAttests rt)
    (htime : i64Min < oracle.observationTs)
    (hwindow : oracle.observationTs + oracle.observationWindowSecs ≤ i64Max)
    (hnow : clock.unixTimestamp = oracle.observationTs) :
    ∃ priceUpdate validated, Oracles.validatePythAccount rt priceUpdate oracle clock =
        .ok validated ∧
      (validated.observation.outcome = HybridMarket.outcomeYes ∨
        validated.observation.outcome = HybridMarket.outcomeNo) := by
  obtain ⟨data, update, hdata, hupdate⟩ := hattests oracle.sourceId oracle.observationTs
    (oracle.observationTs - 1) (by omega) (by omega) (by omega)
  obtain ⟨answer, hanswer⟩ := compareValues_of update.priceMessage.price
    oracle.threshold hupdate.exponent hexponent oracle.comparator
  have hprice := hupdate.price
  have hlow : i64Min = -9223372036854775808 := rfl
  have hhigh : i64Max = 9223372036854775807 := rfl
  have hratio : update.priceMessage.price.toNat * oracle.maxConfidenceBps ≤ u128Max :=
    (Nat.mul_le_mul (show update.priceMessage.price.toNat ≤ 9223372036854775807 by omega)
      hbps).trans (by decide)
  refine ⟨⟨rt.findProgramAddress [leBytes 2 0, oracle.sourceId.toList] pythPushOracleProgramId,
    oracle.sourceProgram, false, false, data⟩, ?_⟩
  simp only [Oracles.validatePythAccount, Oracles.checkPushOracleAddress,
    Oracles.validatePythObservation, Oracles.getPriceUnchecked, bind_eq_ok, check_eq_ok,
    orFail_eq_ok, checkedAddInt_eq_some, checkedSubInt_eq_some, checkedMul_eq_some]
  refine ⟨_, ⟨(), trivial, (), fun _ => trivial, update, hdata, _, ⟨(), ⟨hresolver, hprogram⟩, (),
    hupdate.verified, _, if_pos hupdate.feedId, _, ⟨⟨by omega, hwindow⟩, rfl⟩, (), ?_, _,
    ⟨⟨?_, ?_⟩, rfl⟩, (), ?_, (), hprice.1, _, ⟨?_, rfl⟩, _, ⟨hratio, rfl⟩, (), ?_, answer, hanswer,
    rfl⟩, rfl⟩, toNat_yes_or_no answer⟩
  · rw [hupdate.prevPublishTime, hupdate.publishTime]
    omega
  · rw [hupdate.publishTime]
    omega
  · rw [hupdate.publishTime]
    omega
  · rw [hupdate.publishTime]
    omega
  · rw [hupdate.conf]
    decide
  · rw [hupdate.conf, Nat.zero_mul]
    exact Nat.zero_le _

/-! ## Stork -/

/-- The bytes of a feed with a value of one unit at a time. -/
def storkData (sourceId : Bytes32) (timestamp : Nat) : List UInt8 :=
  Stork.storkFeedDiscriminator ++ (sourceId.toList ++
    (leBytes 8 (timestamp * Stork.nanosPerSecond) ++ (leBytesInt 16 1 ++ [])))

theorem storkData_timestamp (sourceId : Bytes32) {timestamp : Nat} (h : timestamp ≤ 18446744073) :
    ofLeBytes (Stork.slice (storkData sourceId timestamp) 40 48) / Stork.nanosPerSecond =
      timestamp := by
  have hslice : Stork.slice (storkData sourceId timestamp) 40 48 =
      leBytes 8 (timestamp * Stork.nanosPerSecond) := by
    rw [storkData, ← List.append_assoc]
    exact slice_append _ (by simp [Stork.storkFeedDiscriminator]) (by simp)
  have hfits : timestamp * Stork.nanosPerSecond < 256 ^ 8 := by
    simp only [Stork.nanosPerSecond]
    omega
  rw [hslice, ofLeBytes_leBytes hfits]
  exact Nat.mul_div_cancel _ (by decide)

/-- A feed at a reportable second passes at that second. -/
theorem validateStorkAccount_of (rt : Runtime) {clock : Clock}
    (hresolver : oracle.resolver = .storkPrice)
    (hprogram : oracle.sourceProgram = storkOracleProgramId)
    (hqueue : oracle.sourceQueue = Pubkey.default)
    (hexponent : -18 ≤ oracle.thresholdExponent ∧ oracle.thresholdExponent ≤ 18)
    (htime : i64Min < oracle.observationTs)
    (hwindow : oracle.observationTs + oracle.observationWindowSecs ≤ i64Max)
    {deadline : Int} (hreportable : Reportable (configured oracle) deadline lastStorkSecond)
    (hnow : clock.unixTimestamp = max oracle.observationTs 0) :
    ∃ feedAccount observation, Stork.validateStorkAccount rt feedAccount oracle clock =
        .ok observation ∧
      (observation.outcome = HybridMarket.outcomeYes ∨
        observation.outcome = HybridMarket.outcomeNo) := by
  simp only [Reportable, configured, lastStorkSecond] at hreportable
  have hlow : i64Min = -9223372036854775808 := rfl
  have hhigh : i64Max = 9223372036854775807 := rfl
  obtain ⟨timestamp, htimestamp⟩ : ∃ t : Nat, (t : Int) = max oracle.observationTs 0 :=
    ⟨(max oracle.observationTs 0).toNat, by omega⟩
  obtain ⟨answer, hanswer⟩ := compareValues_of (ofLeBytesInt (leBytesInt 16 1)) oracle.threshold
    (show -18 ≤ Stork.storkValueExponent ∧ Stork.storkValueExponent ≤ 18 by decide) hexponent
    oracle.comparator
  have hseconds := storkData_timestamp oracle.sourceId (show timestamp ≤ 18446744073 by omega)
  have hvalue : Stork.slice (storkData oracle.sourceId timestamp) 48 64 = leBytesInt 16 1 := by
    rw [storkData, ← List.append_assoc, ← List.append_assoc]
    exact slice_append [] (by simp [Stork.storkFeedDiscriminator]) (by simp [leBytesInt])
  have hsource : Stork.slice (storkData oracle.sourceId timestamp) 8 40 =
      oracle.sourceId.toList := by
    rw [storkData]
    exact slice_append _ rfl (by simp)
  have hhead : Stork.slice (storkData oracle.sourceId timestamp) 0 8 =
      Stork.storkFeedDiscriminator := by
    rw [storkData]
    exact slice_head _ rfl
  refine ⟨⟨rt.findProgramAddress [Stork.storkFeedSeed, oracle.sourceId.toList]
    storkOracleProgramId, storkOracleProgramId, false, false,
    storkData oracle.sourceId timestamp⟩, ?_⟩
  simp only [Stork.validateStorkAccount, bind_eq_ok, check_eq_ok, orFail_eq_ok,
    checkedAddInt_eq_some, checkedSubInt_eq_some, Option.mem_def, hseconds, hvalue]
  refine ⟨_, ⟨(), ⟨hresolver, hprogram, hqueue⟩, (), trivial, (), trivial, (), ⟨?_, hhead, hsource⟩, (), ?_,
    _, ⟨⟨by omega, hwindow⟩, rfl⟩, (), ⟨?_, ?_, ?_, _, ⟨⟨?_, ?_⟩, rfl⟩, ?_⟩, (), by decide, answer,
    hanswer, rfl⟩, toNat_yes_or_no answer⟩
  · simp [storkData, Stork.storkFeedDiscriminator, Stork.storkValuePrefixLen, leBytesInt]
  all_goals omega

/-! ## Switchboard -/

theorem checkOracles_of {quote : ParsedEd25519Instruction} {indices : List Nat}
    (h : ∀ index ∈ indices, Switchboard.checkOracle quote index = .ok ()) :
    Switchboard.checkOracles quote indices = .ok () := by
  induction indices with
  | nil => rfl
  | cons index rest ih =>
    simp only [Switchboard.checkOracles, h index List.mem_cons_self, ok_bind]
    exact ih fun i hi => h i (List.mem_cons_of_mem _ hi)

/-- An attested quote passes the loop over its oracles. -/
theorem AttestedQuote.checkOracle {quote : ParsedEd25519Instruction} {feedId : Bytes32}
    {samples slot index : Nat} (h : AttestedQuote quote feedId samples slot)
    (hindex : index < samples) : Switchboard.checkOracle quote index = .ok () := by
  have hidx : index < quote.oracleIdxs.length := h.indices.1 ▸ hindex
  have hsig : index < quote.signatures.length := h.signatures ▸ hindex
  have hidx' := List.getElem?_eq_getElem hidx
  have hsig' := List.getElem?_eq_getElem hsig
  have hkey : (quote.signatures.map (·.pubkey))[index]? = some quote.signatures[index].pubkey := by
    rw [List.getElem?_map, hsig']
    rfl
  have hnew := notMem_take_of_nodup h.distinct hkey
  simp only [Switchboard.checkOracle, bind_eq_ok, okOr_eq_ok, check_eq_ok]
  refine ⟨_, hidx', (), notMem_take_of_nodup h.indices.2 hidx', _, hsig',
    (h.signed _ (List.getElem_mem hsig)).1, (h.signed _ (List.getElem_mem hsig)).2,
    fun earlier hearlier heq => hnew ?_⟩
  rw [← List.map_take]
  exact List.mem_map.mpr ⟨earlier, hearlier, heq⟩

/-- The bytes of a quote account around a payload. -/
def quoteData (queue : Pubkey) (payload : List UInt8) : List UInt8 :=
  Switchboard.switchboardQuoteDiscriminator ++ (queue.toList ++
    (leBytes 2 payload.length ++ (payload ++ [])))

/-- A quote passes at the observation time. -/
theorem validateSwitchboardAccount_of {rt : Runtime} {clock : Clock}
    (hresolver : oracle.resolver = .switchboardQuote)
    (hprogram : oracle.sourceProgram = switchboardQuoteProgramId)
    (hqueue : oracle.sourceQueue = switchboardDevnetQueue)
    (hexponent : -18 ≤ oracle.thresholdExponent ∧ oracle.thresholdExponent ≤ 18)
    (hsamples : 2 ≤ oracle.minSamples ∧ oracle.minSamples ≤ 8)
    (hattests : SwitchboardAttests rt) (htime : i64Min < oracle.observationTs)
    (hwindow : oracle.observationTs + oracle.observationWindowSecs ≤ i64Max)
    (hslot : clock.slot = 0) (hnow : clock.unixTimestamp = oracle.observationTs) :
    ∃ quoteAccount observation, Switchboard.validateSwitchboardAccount rt quoteAccount oracle
        clock = .ok observation ∧
      (observation.outcome = HybridMarket.outcomeYes ∨
        observation.outcome = HybridMarket.outcomeNo) := by
  obtain ⟨payload, quote, hnonempty, hshort, hparse, hquote⟩ :=
    hattests oracle.sourceId oracle.minSamples 0 hsamples.1 hsamples.2 (by decide)
  obtain ⟨feed, hfeeds, hfeedId, hfeedSamples⟩ := hquote.feed
  obtain ⟨answer, hanswer⟩ := compareValues_of feed.feedValue oracle.threshold
    (show -18 ≤ Switchboard.switchboardValueExponent ∧ Switchboard.switchboardValueExponent ≤ 18 by
      decide) hexponent oracle.comparator
  have hwidth : payload.length < 256 ^ 2 := Nat.lt_of_le_of_lt hshort (by decide)
  have hhead : Stork.slice (quoteData oracle.sourceQueue payload) 0 8 =
      Switchboard.switchboardQuoteDiscriminator := by
    rw [quoteData]
    exact slice_head _ rfl
  have hqueueBytes : Stork.slice (quoteData oracle.sourceQueue payload) 8 40 =
      oracle.sourceQueue.toList := by
    rw [quoteData]
    exact slice_append _ rfl (by simp)
  have hlength : ofLeBytes (Stork.slice (quoteData oracle.sourceQueue payload) 40 42) =
      payload.length := by
    rw [quoteData, ← List.append_assoc, slice_append _ (by
      simp [Switchboard.switchboardQuoteDiscriminator, asciiBytes]) (by simp),
      ofLeBytes_leBytes hwidth]
  have hpayload : Stork.slice (quoteData oracle.sourceQueue payload) 42 (42 + payload.length) =
      payload := by
    rw [quoteData, ← List.append_assoc, ← List.append_assoc]
    exact slice_append [] (by simp [Switchboard.switchboardQuoteDiscriminator, asciiBytes]) rfl
  have hsize : (quoteData oracle.sourceQueue payload).length = 42 + payload.length := by
    simp [quoteData, Switchboard.switchboardQuoteDiscriminator, asciiBytes]
    omega
  have hsigs : 0 < quote.signatures.length := by
    rw [hquote.signatures]
    omega
  refine ⟨⟨rt.findProgramAddress [oracle.sourceQueue.toList, oracle.sourceId.toList]
    oracle.sourceProgram, oracle.sourceProgram, false, false,
    quoteData oracle.sourceQueue payload⟩, ?_⟩
  simp only [Switchboard.validateSwitchboardAccount, Switchboard.validateSwitchboardQuote,
    bind_eq_ok, check_eq_ok, orFail_eq_ok, okOr_eq_ok, checkedAdd_eq_some, checkedAddInt_eq_some,
    hlength]
  refine ⟨_, ⟨(), ⟨hresolver, hprogram, hqueue⟩, (), trivial, (), trivial, (), ⟨by omega, hhead⟩, (),
    hqueueBytes, 42 + payload.length, ⟨?_, rfl⟩, (), ⟨hnonempty, hsize.ge⟩, .oracle quote, ?_, quote,
    rfl, (), ⟨hquote.padding, hquote.version, hquote.discriminator, hquote.slothash, ?_, ?_, ?_,
    hquote.signatures.ge⟩, quote.signatures[0], List.getElem?_eq_getElem hsigs, (),
    hquote.size _ (List.getElem_mem hsigs), (), checkOracles_of fun index hindex =>
      hquote.checkOracle ?_, feed, ?_, (), ⟨hfeedId, hfeedSamples⟩, (), ⟨?_, ?_⟩, _,
    ⟨⟨by omega, hwindow⟩, rfl⟩, (), ⟨hnow.ge, by omega⟩, answer, hanswer, rfl⟩,
    toNat_yes_or_no answer⟩
  · exact (Nat.add_le_add_left hshort 42).trans (by decide)
  · rw [hpayload, hparse]
  · rw [hfeeds]
    rfl
  · rw [hquote.signatures, hquote.numSignatures]
  · rw [hquote.indices.1, hquote.signatures]
  · exact hquote.indices.1 ▸ List.mem_range.mp hindex
  · rw [hfeeds]
    rfl
  · rw [hquote.slot]
    exact Nat.zero_le _
  · rw [hslot, Nat.zero_sub]
    exact Nat.zero_le _

/-! ## TxLINE -/

def goals (key : Nat) : Txline.StatLeaf where
  stat := { key, value := 0, period := finalPeriod }
  statProof := []

/-- A goalless match whose last update falls in a second. -/
def goallessPayload (fixtureId second : Int) : Txline.StatValidationInput where
  ts := 0
  fixtureSummary := {
    fixtureId
    updateStats := { updateCount := 1, minTimestamp := 0, maxTimestamp := second * 1000 }
    eventsSubTreeRoot := zeroBytes }
  fixtureProof := []
  mainTreeProof := []
  eventStatRoot := zeroBytes
  stats := [goals participantOneGoalsKey, goals participantTwoGoalsKey]

/-- TxLINE and the program agree on a total of no goals. -/
theorem strategyPredicate_of {comparator : ValueComparator} {threshold : Int}
    (hrange : i32Min ≤ threshold ∧ threshold ≤ i32Max)
    (hmin : comparator = .greaterThanOrEqual → threshold ≠ i32Min)
    (hmax : comparator = .lessThanOrEqual → threshold ≠ i32Max) :
    ∃ predicate, Txline.strategyPredicate threshold comparator = .ok predicate ∧
      Oracles.compareValues 0 0 threshold 0 comparator = .ok (holdsFor predicate 0) := by
  have hcompare : Oracles.compareDecimalValues 0 0 threshold 0 = compare 0 threshold := by
    rcases lt_trichotomy threshold 0 with h | h | h
    · simp [Oracles.compareDecimalValues, compare_lt_iff_lt.mpr h, compare_gt_iff_gt.mpr h]
    · subst h
      rfl
    · simp [Oracles.compareDecimalValues, compare_gt_iff_gt.mpr h, compare_lt_iff_lt.mpr h]
  have hexponents : (-18 ≤ (0 : Int) ∧ (0 : Int) ≤ 18) ∧ -18 ≤ (0 : Int) ∧ (0 : Int) ≤ 18 := by
    decide
  simp only [Oracles.compareValues, check_pos hexponents, ok_bind, hcompare]
  cases comparator with
  | greaterThan => exact ⟨_, rfl, by simp [holdsFor, compare_gt_iff_gt]⟩
  | greaterThanOrEqual =>
    have hne := hmin rfl
    have hsub : checkedSubInt i32Min i32Max threshold 1 = some (threshold - 1) :=
      checkedSubInt_eq_some.mpr ⟨⟨by omega, by omega⟩, rfl⟩
    refine ⟨⟨threshold - 1, .greaterThan⟩, by simp [Txline.strategyPredicate, hsub, orFail, okOr],
      ?_⟩
    simp only [holdsFor, Except.ok.injEq, decide_eq_decide, ne_eq, compare_lt_iff_lt]
    omega
  | lessThan => exact ⟨_, rfl, by simp [holdsFor, compare_lt_iff_lt]⟩
  | lessThanOrEqual =>
    have hne := hmax rfl
    have hadd : checkedAddInt i32Min i32Max threshold 1 = some (threshold + 1) :=
      checkedAddInt_eq_some.mpr ⟨⟨by omega, by omega⟩, rfl⟩
    refine ⟨⟨threshold + 1, .lessThan⟩, by simp [Txline.strategyPredicate, hadd, orFail, okOr],
      ?_⟩
    simp only [holdsFor, Except.ok.injEq, decide_eq_decide, ne_eq, compare_gt_iff_gt]
    omega
  | equal => exact ⟨_, rfl, by simp [holdsFor]⟩

theorem attestingTxline_answers (fixtureId second : Int) (predicate : Txline.TraderPredicate) :
    Txline.invokeStatValidation attestingTxline (goallessPayload fixtureId second)
      ⟨[], none, [.binary 0 1 .add predicate]⟩ = .ok (holdsFor predicate 0) := by
  have hall : [Txline.StatPredicate.binary 0 1 .add predicate].all
      (statHolds (goallessPayload fixtureId second)) = holdsFor predicate 0 := by
    rw [List.all_cons, List.all_nil, Bool.and_true]
    rfl
  simp only [Txline.invokeStatValidation, attestingTxline, hall, bind_eq_ok, okOr_eq_ok,
    orFail_eq_ok, check_eq_ok]
  refine ⟨_, rfl, _, rfl, (), rfl, ?_⟩
  cases holdsFor predicate 0 <;> rfl

/-- A goalless payload of a reportable second passes at that second. -/
theorem resolveHybridTotalGoals_of (rt : Runtime) {market : HybridMarket}
    (hcategory : market.category = .sports) (hresolver : oracle.resolver = .txlineStat)
    (hprogram : oracle.sourceProgram = txlineProgramId)
    (hrange : i32Min ≤ oracle.threshold ∧ oracle.threshold ≤ i32Max)
    (hsource : (Txline.fixtureIdFromSourceId oracle.sourceId).toBool = true)
    (htime : i64Min < oracle.observationTs)
    (hwindow : oracle.observationTs + oracle.observationWindowSecs ≤ i64Max)
    {deadline : Int} (hreportable : Reportable (configured oracle) deadline lastTxlineSecond)
    (hexpressible : Expressible (configured oracle)) :
    ∃ payload dailyRoot txlineProgram observation, PayloadTyped payload ∧
      Txline.resolveHybridTotalGoals rt market oracle payload dailyRoot txlineProgram
        attestingTxline (max oracle.observationTs 0) = .ok observation ∧
      (observation.outcome = HybridMarket.outcomeYes ∨
        observation.outcome = HybridMarket.outcomeNo) := by
  simp only [Reportable, configured, lastTxlineSecond] at hreportable
  have hlow : i64Min = -9223372036854775808 := rfl
  have hhigh : i64Max = 9223372036854775807 := rfl
  obtain ⟨fixtureId, hfixture⟩ : ∃ id, Txline.fixtureIdFromSourceId oracle.sourceId = .ok id := by
    cases h : Txline.fixtureIdFromSourceId oracle.sourceId with
    | ok id => exact ⟨id, rfl⟩
    | error e => rw [h] at hsource; cases hsource
  obtain ⟨predicate, hpredicate, hagrees⟩ :=
    strategyPredicate_of hrange hexpressible.1 hexpressible.2
  have hsecond : max oracle.observationTs 0 * 1000 / 1000 = max oracle.observationTs 0 :=
    Int.mul_ediv_cancel _ (by decide)
  refine ⟨goallessPayload fixtureId (max oracle.observationTs 0),
    ⟨rt.findProgramAddress [dailyScoresRootSeed, leBytes 2 0] txlineProgramId, txlineProgramId,
      false, false, []⟩, ⟨txlineProgramId, zeroBytes, true, false, []⟩,
    ⟨(holdsFor predicate 0).toNat, 0, 0, max oracle.observationTs 0 * 1000 / 1000, 0, 0, 0⟩,
    ⟨?_, ?_, ?_⟩, ?_,
    toNat_yes_or_no (holdsFor predicate 0)⟩
  · exact ⟨(by decide : i64Min ≤ 0), (by decide : 0 ≤ i64Max)⟩
  · exact ⟨(by decide : i64Min ≤ 0), (by decide : 0 ≤ i64Max)⟩
  · simp only [goallessPayload]
    omega
  · have hlast : (goallessPayload fixtureId
        (max oracle.observationTs 0)).fixtureSummary.updateStats.maxTimestamp / 1000 =
          max oracle.observationTs 0 := hsecond
    have hpayload : Txline.validateHybridPayload rt oracle
        (goallessPayload fixtureId (max oracle.observationTs 0))
        (rt.findProgramAddress [dailyScoresRootSeed, leBytes 2 0] txlineProgramId)
        (max oracle.observationTs 0) = .ok () := by
      simp only [Txline.validateHybridPayload, bind_eq_ok, check_eq_ok, orFail_eq_ok, okOr_eq_ok,
        checkedAddInt_eq_some, checkedSubInt_eq_some, hlast]
      refine ⟨fixtureId, hfixture, (), rfl, (), rfl, (), ⟨(by decide : (0 : Int) < 1), ?_, rfl⟩, _,
        rfl, _, rfl, (), ⟨rfl, rfl, rfl, rfl, le_rfl, le_rfl⟩, _, ⟨⟨by omega, hwindow⟩, rfl⟩, _,
        ⟨⟨?_, ?_⟩, rfl⟩, (), ⟨?_, ?_, ?_, ?_⟩, _, rfl, rfl⟩
      · show (0 : Int) ≤ max oracle.observationTs 0 * 1000
        omega
      all_goals omega
    simp only [Txline.resolveHybridTotalGoals, Txline.totalGoalsStrategy, hpayload,
      bind_eq_ok, check_eq_ok, orFail_eq_ok, okOr_eq_ok, checkedAddInt_eq_some]
    exact ⟨(), ⟨hcategory, hresolver, hprogram⟩, (), trivial, (), trivial, (), trivial, (), trivial,
      (), hrange, _, ⟨predicate, hpredicate, rfl⟩, _, attestingTxline_answers _ _ _, _, rfl, _, rfl,
      0, ⟨by decide, rfl⟩, _, hagrees, (), rfl, rfl⟩

end Nortia.Hybrid
