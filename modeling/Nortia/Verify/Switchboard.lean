import Nortia.Program.HybridInstructions
import Nortia.Verify.Oracles

/-!
# The quorum of a Switchboard quote

One loop over the oracle indices also walks the signatures. The lengths it needs are checked before
it, so it never leaves either list, and what it lets through has no oracle and no signer twice.
-/

namespace Nortia.Switchboard

open Lib Oracles Hybrid

variable {quote : ParsedEd25519Instruction} {oracle : OracleConfig} {clock : Clock}
  {observation : NormalizedObservation}

/-! ## The loop -/

/-- Entries that relate to all entries before them relate pairwise. -/
theorem pairwise_of_take {α : Type} {R : α → α → Prop} {l : List α}
    (h : ∀ (i : Nat) (hi : i < l.length), ∀ a ∈ l.take i, R a l[i]) : l.Pairwise R := by
  rw [List.pairwise_iff_getElem]
  intro i j hi hj hlt
  refine h j hj l[i] (List.mem_take_iff_getElem.mpr ⟨i, ?_, rfl⟩)
  exact Nat.lt_min.mpr ⟨hlt, hi⟩

theorem checkOracles_eq_ok {indices : List Nat} : checkOracles quote indices = .ok () ↔
    ∀ index ∈ indices, checkOracle quote index = .ok () := by
  induction indices with
  | nil => exact ⟨fun _ index h => absurd h List.not_mem_nil, fun _ => rfl⟩
  | cons index rest ih =>
    rw [checkOracles, bind_eq_ok, List.forall_mem_cons, ih]
    constructor
    · rintro ⟨⟨⟩, hfirst, hrest⟩
      exact ⟨hfirst, hrest⟩
    · rintro ⟨hfirst, hrest⟩
      exact ⟨(), hfirst, hrest⟩

/-- **A completed loop found no repetition**, of an oracle or of a signer. -/
theorem distinct_of_checkOracles (hlength : quote.oracleIdxs.length = quote.signatures.length)
    (h : checkOracles quote (List.range quote.oracleIdxs.length) = .ok ()) :
    quote.oracleIdxs.Nodup ∧ (quote.signatures.map (·.pubkey)).Nodup ∧
      ∀ signature ∈ quote.signatures, signature.pubkey ≠ zeroBytes := by
  have hturn : ∀ (i : Nat) (hi : i < quote.oracleIdxs.length) (hi' : i < quote.signatures.length),
      quote.oracleIdxs[i] ∉ quote.oracleIdxs.take i ∧
        quote.signatures[i].pubkey ≠ zeroBytes ∧
          ∀ earlier ∈ quote.signatures.take i, earlier.pubkey ≠ quote.signatures[i].pubkey := by
    intro i hi hi'
    have hchecked := checkOracles_eq_ok.mp h i (List.mem_range.mpr hi)
    simp only [checkOracle, bind_eq_ok, okOr_eq_ok, check_eq_ok, List.getElem?_eq_getElem hi,
      List.getElem?_eq_getElem hi', Option.some.injEq, exists_eq_left'] at hchecked
    obtain ⟨-, hindex, hkey, -, hearlier⟩ := hchecked
    exact ⟨hindex, hkey, hearlier⟩
  refine ⟨?_, ?_, ?_⟩
  · refine pairwise_of_take fun i hi a ha heq => ?_
    exact (hturn i hi (hlength ▸ hi)).1 (heq ▸ ha)
  · rw [List.Nodup, List.pairwise_map]
    refine pairwise_of_take fun i hi a ha => ?_
    exact (hturn i (hlength ▸ hi) hi).2.2 a ha
  · intro signature hsignature
    obtain ⟨i, hi, rfl⟩ := List.getElem_of_mem hsignature
    exact (hturn i (hlength ▸ hi) hi).2.1

/-- The failures that are no panic. -/
def NoPanic (f : Failure) : Prop := f ≠ .panicked

theorem checkOracle_noPanic {index : Nat} (hindex : index < quote.oracleIdxs.length)
    (hsignature : index < quote.signatures.length) : FailsIn NoPanic (checkOracle quote index) := by
  simp only [checkOracle, failsIn_bind, failsIn_okOr, failsIn_check,
    List.getElem?_eq_getElem hindex, List.getElem?_eq_getElem hsignature]
  simp [NoPanic]

/-- The loop stays inside both lists. -/
theorem checkOracles_noPanic {indices : List Nat} (h : ∀ index ∈ indices,
    index < quote.oracleIdxs.length ∧ index < quote.signatures.length) :
    FailsIn NoPanic (checkOracles quote indices) := by
  induction indices with
  | nil => exact failsIn_ok _
  | cons index rest ih =>
    obtain ⟨hfirst, hrest⟩ := List.forall_mem_cons.mp h
    rw [checkOracles, failsIn_bind]
    exact ⟨checkOracle_noPanic hfirst.1 hfirst.2, fun _ _ => ih hrest⟩

theorem compareValues_noPanic {left leftExponent right rightExponent : Int}
    {comparator : ValueComparator} :
    FailsIn NoPanic (compareValues left leftExponent right rightExponent comparator) := by
  rw [compareValues, failsIn_bind, failsIn_check]
  refine ⟨fun _ => by simp [NoPanic], fun _ _ => ?_⟩
  cases comparator <;> exact failsIn_ok _

/-! ## The quote -/

/-- What an accepted quote says, and what is observed. -/
structure Quorum (quote : ParsedEd25519Instruction) (oracle : OracleConfig) (clock : Clock)
    (observation : NormalizedObservation) : Prop where
  feed : ∃ feed, quote.feeds = [feed] ∧ feed.feedId = oracle.sourceId ∧
    oracle.minSamples ≤ feed.minOracleSamples ∧ observation.value = feed.feedValue ∧
    ∃ answer : Bool, observation.outcome = answer.toNat ∧
      (answer = true ↔ Relates oracle.comparator (feed.feedValue * 10 ^ (-18 : Int))
        (oracle.threshold * 10 ^ oracle.thresholdExponent))
  samples : observation.sampleCount = quote.signatures.length ∧
    observation.sampleCount = quote.oracleIdxs.length ∧
    oracle.minSamples ≤ observation.sampleCount ∧ 2 ≤ oracle.minSamples
  oracles : quote.oracleIdxs.Nodup
  signers : (quote.signatures.map (·.pubkey)).Nodup ∧
    ∀ signature ∈ quote.signatures, signature.pubkey ≠ zeroBytes
  slot : quote.slot ≤ clock.slot ∧ clock.slot ≤ quote.slot + oracle.maxStalenessSlots
  window : oracle.observationTs ≤ clock.unixTimestamp ∧
    clock.unixTimestamp ≤ oracle.observationTs + oracle.observationWindowSecs

/-- The values of a quote are `i128`. -/
def ValuesFit (quote : ParsedEd25519Instruction) : Prop :=
  ∀ feed ∈ quote.feeds, i128Min ≤ feed.feedValue ∧ feed.feedValue ≤ i128Max

/-- The configuration of a market that resolves by Switchboard. -/
structure Configured (oracle : OracleConfig) : Prop where
  samples : 2 ≤ oracle.minSamples
  exponent : -18 ≤ oracle.thresholdExponent ∧ oracle.thresholdExponent ≤ 18
  threshold : i128Min ≤ oracle.threshold ∧ oracle.threshold ≤ i128Max

theorem configured_of_validate {category : MarketCategory} {args : OracleConfigArgs}
    {resolveNotBeforeTs : Int} {market : Pubkey}
    (h : validateOracleConfig category args resolveNotBeforeTs = .ok ())
    (hresolver : args.resolver = .switchboardQuote)
    (hthreshold : i128Min ≤ args.threshold ∧ args.threshold ≤ i128Max) :
    Configured (newOracleConfig market args) := by
  simp only [validateOracleConfig, bind_eq_ok, check_eq_ok, validateResolverFields, hresolver] at h
  obtain ⟨-, -, -, -, -, -, hexponent, -, -, -, ⟨hsamples, -⟩, -⟩ := h
  exact ⟨hsamples, hexponent, hthreshold⟩

/-- An accepted quote is a quorum. -/
theorem quorum_of_ok (hconfigured : Configured oracle) (hfit : ValuesFit quote)
    (h : validateSwitchboardQuote quote oracle clock = .ok observation) :
    Quorum quote oracle clock observation := by
  simp only [validateSwitchboardQuote, bind_eq_ok, check_eq_ok, orFail_eq_ok, okOr_eq_ok,
    checkedAddInt_eq_some, Except.ok.injEq] at h
  obtain ⟨-, ⟨-, -, -, -, hfeeds, hsignatures, hindices, hsamples⟩, first, -, -, -, ⟨⟩, hloop, feed,
    hfeed, -, ⟨hid, hmin⟩, -, ⟨hslot, hfresh⟩, _, ⟨-, rfl⟩, -, hwindow, answer, hanswer, rfl⟩ := h
  obtain ⟨only, honly⟩ := List.length_eq_one_iff.mp hfeeds
  rw [honly, List.getElem?_cons_zero, Option.some.injEq] at hfeed
  subst hfeed
  obtain ⟨horacles, hsigners⟩ := distinct_of_checkOracles hindices hloop
  obtain ⟨answer', hanswer', hrelates⟩ := compareValues_exact
    (hfit only (honly ▸ List.mem_singleton_self only)) hconfigured.threshold
    (by decide : (-18 : Int) ≤ switchboardValueExponent ∧ switchboardValueExponent ≤ 18)
    hconfigured.exponent oracle.comparator
  cases Except.ok.inj (hanswer.symm.trans hanswer')
  constructor
  case feed => exact ⟨only, honly, hid, hmin, rfl, answer, rfl, hrelates⟩
  case samples =>
    exact ⟨hsignatures.symm, hsignatures.symm.trans hindices.symm, hsignatures ▸ hsamples,
      hconfigured.samples⟩
  case oracles => exact horacles
  case signers => exact hsigners
  case slot => exact ⟨hslot, by omega⟩
  case window => exact hwindow

/-- No quote makes the checks panic: every index is guarded by the lengths compared before it. -/
theorem validateSwitchboardQuote_noPanic (hconfigured : Configured oracle) :
    FailsIn NoPanic (validateSwitchboardQuote quote oracle clock) := by
  have hsamples := hconfigured.samples
  rw [validateSwitchboardQuote, failsIn_bind, failsIn_check]
  refine ⟨fun _ => by simp [NoPanic], fun _ hshape => ?_⟩
  obtain ⟨-, -, -, -, hfeeds, hsignatures, hindices, hcount⟩ := check_eq_ok.mp hshape
  have hfirst : 0 < quote.signatures.length := by omega
  have hfeed : 0 < quote.feeds.length := by omega
  simp only [List.getElem?_eq_getElem hfirst, List.getElem?_eq_getElem hfeed, okOr, ok_bind]
  simp only [failsIn_bind, failsIn_check, failsIn_orFail, failsIn_ok]
  refine ⟨fun _ => by simp [NoPanic], fun _ _ => ⟨?_, fun _ _ => ⟨fun _ => by simp [NoPanic],
    fun _ _ => ⟨fun _ => by simp [NoPanic], fun _ _ => ⟨fun _ => by simp [NoPanic], fun _ _ =>
      ⟨fun _ => by simp [NoPanic], fun _ _ => ⟨compareValues_noPanic, fun _ _ => trivial⟩⟩⟩⟩⟩⟩⟩
  refine checkOracles_noPanic fun index hindex => ?_
  have hindex := List.mem_range.mp hindex
  exact ⟨hindex, hindices ▸ hindex⟩

/-! ## The account -/

section Account

variable {rt : Runtime} {account : AccountInfo}

/-- The payload of an account, after its length prefix. -/
def accountPayload (account : AccountInfo) : List UInt8 :=
  Stork.slice account.data 42 (42 + ofLeBytes (Stork.slice account.data 40 42))

/-- The payload of an accepted account parses to an accepted quote. -/
theorem quote_of_account
    (h : validateSwitchboardAccount rt account oracle clock = .ok observation) :
    ∃ quote, rt.parseQuotePayload (accountPayload account) = some (.oracle quote) ∧
      validateSwitchboardQuote quote oracle clock = .ok observation := by
  simp only [validateSwitchboardAccount, bind_eq_ok, check_eq_ok, orFail_eq_ok,
    checkedAdd_eq_some] at h
  obtain ⟨-, -, -, -, -, -, -, -, -, -, payloadEnd, ⟨-, rfl⟩, -, -, parsed, hparsed, quote, hquote,
    h⟩ := h
  cases parsed with
  | oracle parsed =>
    cases hquote
    exact ⟨quote, hparsed, h⟩
  | authority => cases hquote

/-- The account's own checks come first, and the resolver is the first of them. -/
theorem validateSwitchboardAccount_noPanic
    (hconfigured : oracle.resolver = .switchboardQuote → Configured oracle) :
    FailsIn NoPanic (validateSwitchboardAccount rt account oracle clock) := by
  have hquote : ∀ parsed, FailsIn NoPanic (oracleQuote parsed) := by
    intro parsed
    cases parsed with
    | oracle quote => exact failsIn_ok _
    | authority => exact failsIn_error.mpr (by simp [NoPanic])
  simp only [validateSwitchboardAccount, failsIn_bind, failsIn_check, failsIn_orFail, check_eq_ok]
  refine ⟨fun _ => by simp [NoPanic], fun _ hresolver => ⟨fun _ => by simp [NoPanic], fun _ _ =>
    ⟨fun _ => by simp [NoPanic], fun _ _ => ⟨fun _ => by simp [NoPanic], fun _ _ =>
    ⟨fun _ => by simp [NoPanic], fun _ _ => ⟨fun _ => by simp [NoPanic], fun _ _ =>
    ⟨fun _ => by simp [NoPanic], fun _ _ => ⟨fun _ => by simp [NoPanic], fun parsed _ =>
    ⟨hquote parsed, fun quote _ => ?_⟩⟩⟩⟩⟩⟩⟩⟩⟩
  exact validateSwitchboardQuote_noPanic (hconfigured hresolver.1)

end Account

/-- **Switchboard quorums are sound.** Under a configuration the program accepts, no quote and no
account makes the resolver panic, and what it accepts is a quorum of distinct oracles with distinct
signers for the configured feed, in time, compared exactly. The quote of an account is the one its
payload parses to. -/
theorem switchboard_quorum {category : MarketCategory} {args : OracleConfigArgs}
    {resolveNotBeforeTs : Int}
    (hconfig : validateOracleConfig category args resolveNotBeforeTs = .ok ())
    (hthreshold : i128Min ≤ args.threshold ∧ args.threshold ≤ i128Max) (market : Pubkey)
    (clock : Clock) :
    (args.resolver = .switchboardQuote → ∀ quote, ValuesFit quote →
      validateSwitchboardQuote quote (newOracleConfig market args) clock ≠ .error .panicked ∧
        ∀ observation, validateSwitchboardQuote quote (newOracleConfig market args) clock =
          .ok observation → Quorum quote (newOracleConfig market args) clock observation) ∧
    ∀ (rt : Runtime) (account : AccountInfo),
      (∀ data quote, rt.parseQuotePayload data = some (.oracle quote) → ValuesFit quote) →
        validateSwitchboardAccount rt account (newOracleConfig market args) clock ≠
            .error .panicked ∧
          ∀ observation, validateSwitchboardAccount rt account (newOracleConfig market args) clock =
            .ok observation →
              ∃ quote, rt.parseQuotePayload (accountPayload account) = some (.oracle quote) ∧
                Quorum quote (newOracleConfig market args) clock observation := by
  have hconfigured : args.resolver = .switchboardQuote → Configured (newOracleConfig market args) :=
    fun hresolver => configured_of_validate hconfig hresolver hthreshold
  constructor
  · intro hresolver quote hfit
    have hconfigured := hconfigured hresolver
    exact ⟨fun h => validateSwitchboardQuote_noPanic hconfigured _ h rfl,
      fun observation h => quorum_of_ok hconfigured hfit h⟩
  · intro rt account hparser
    refine ⟨fun h => validateSwitchboardAccount_noPanic hconfigured _ h rfl, ?_⟩
    intro observation h
    obtain ⟨quote, hparsed, hquote⟩ := quote_of_account h
    simp only [validateSwitchboardAccount, bind_eq_ok, check_eq_ok] at h
    obtain ⟨-, ⟨hresolver, -⟩, -⟩ := h
    exact ⟨quote, hparsed, quorum_of_ok (hconfigured hresolver) (hparser _ quote hparsed) hquote⟩

namespace Sample

def args : OracleConfigArgs where
  resolver := .switchboardQuote
  sourceProgram := switchboardQuoteProgramId
  sourceQueue := switchboardDevnetQueue
  sourceId := Bytes.fill 32 7
  comparator := .greaterThanOrEqual
  threshold := 100000000000000000000
  thresholdExponent := -18
  observationTs := 2000
  observationWindowSecs := 60
  maxStalenessSecs := 0
  maxStalenessSlots := 20
  maxConfidenceBps := 0
  minSamples := 2
  challengePeriodSecs := 0
  bondAmount := 0
  configHash := Bytes.fill 32 8

def signature (byte : UInt8) : OracleSignatureData where
  messageDataSize := 81
  pubkey := Bytes.fill 32 byte
  signature := Bytes.fill 64 byte

def twoOracles : ParsedEd25519Instruction where
  numSignatures := 2
  padding := 0
  signatures := [signature 1, signature 2]
  signedSlothash := Bytes.fill 32 3
  feeds := [{
    feedId := Bytes.fill 32 7
    feedValue := 100000000000000000000
    minOracleSamples := 2 }]
  oracleIdxs := [1, 2]
  slot := 100
  version := 1
  discriminator := switchboardTailDiscriminator

end Sample

open Nortia.Switchboard.Sample in
/-- Two oracles sign a value equal to the threshold. -/
theorem switchboard_quorum_two_oracles : ∃ observation,
    validateSwitchboardQuote twoOracles (newOracleConfig Pubkey.default args) ⟨110, 2010⟩ =
        .ok observation ∧
      Quorum twoOracles (newOracleConfig Pubkey.default args) ⟨110, 2010⟩ observation := by
  have hsome : (validateSwitchboardQuote twoOracles (newOracleConfig Pubkey.default args)
      ⟨110, 2010⟩).toOption.isSome = true := by decide +kernel
  obtain ⟨observation, hobservation⟩ := Option.isSome_iff_exists.mp hsome
  have hobservation := toOption_eq_some.mp hobservation
  have hconfig : validateOracleConfig .economics args 2000 = .ok () := by decide +kernel
  have hfit : ValuesFit twoOracles := by
    intro feed hfeed
    cases List.mem_singleton.mp hfeed
    decide
  obtain ⟨hquote, -⟩ := switchboard_quorum hconfig (by decide) Pubkey.default ⟨110, 2010⟩
  exact ⟨observation, hobservation, (hquote rfl twoOracles hfit).2 observation hobservation⟩

end Nortia.Switchboard
