import Nortia.Verify.Hybrid.Accounts
import Nortia.Verify.Hybrid.Resolution
import Nortia.Web.CreateMarket

/-!
# What the create form can publish

The form measures its texts in UTF-16 code units and the program in bytes, and only the program
looks for control characters. Everything else the program asks of a publication follows from how
the form builds its texts: they are trimmed, the reference is empty or starts as it must, and the
digests are those the market was created with.
-/

namespace Nortia.Web

open Lib Hybrid

/-! ## The texts are trimmed -/

/-- White space on chain is white space in the browser, but for one control character. -/
theorem isSpace_of_isWhitespace {c : Char} (h : Text.isWhitespace c = true)
    (hcontrol : Text.isControl c = false ∨ c = '\n') : BigInt.isSpace c = true := by
  simp only [Text.isWhitespace, Bool.or_eq_true, Bool.and_eq_true, decide_eq_true_eq] at h
  have hnext : c.toNat ≠ 0x85 := by
    intro heq
    rcases hcontrol with hcontrol | rfl
    · simp [Text.isControl, heq] at hcontrol
    · cases heq
  simp only [BigInt.isSpace, BigInt.whiteSpace, List.contains_iff_mem, List.mem_cons,
    List.not_mem_nil, or_false]
  omega

/-- A text whose first and last characters are letters or marks is trimmed. -/
theorem trimmed_of_ends {s : List Char} (first last : Char)
    (hends : BigInt.isSpace first = false ∧ BigInt.isSpace last = false)
    (hfirst : s.head? = some first) (hlast : s.getLast? = some last) :
    Trimmed BigInt.isSpace s := by
  constructor
  · intro c hc
    rw [hfirst] at hc
    cases hc
    exact hends.1
  · intro c hc
    rw [hlast] at hc
    cases hc
    exact hends.2

theorem trimmed_append {s stop : List Char} (first last : Char)
    (hends : BigInt.isSpace first = false ∧ BigInt.isSpace last = false)
    (hfirst : s.head? = some first) (hlast : stop.getLast? = some last) :
    Trimmed BigInt.isSpace (s ++ stop) := by
  apply trimmed_of_ends first last hends
  · rw [List.head?_append, hfirst]
    rfl
  · rw [List.getLast?_append, hlast]
    rfl

variable (form : CreateMarketForm)

theorem trimmed_question : Trimmed BigInt.isSpace form.question := by
  unfold CreateMarketForm.question
  split
  · split
    · exact trimmed_append 'W' '?' (by decide)
        (by simp only [List.head?_append]; rw [String.toList_ofList]; rfl)
        (by rw [String.toList_ofList]; rfl)
    · exact trimmed_of_ends 'S' '.' (by decide)
        (by rw [String.toList_ofList]; rfl) (by rw [String.toList_ofList]; rfl)
  · exact trimmed_append 'W' '?' (by decide)
      (by simp only [List.head?_append]; rw [String.toList_ofList]; rfl)
      (by rw [String.toList_ofList]; rfl)
  · exact trimmed_append 'W' '?' (by decide)
      (by simp only [List.head?_append]; rw [String.toList_ofList]; rfl)
      (by rw [String.toList_ofList]; rfl)
  · exact trimmed_trimBy _ _
  · exact trimmed_append 'W' '?' (by decide)
      (by simp only [List.head?_append]; rw [String.toList_ofList]; rfl)
      (by rw [String.toList_ofList]; rfl)

theorem trimmed_rules : Trimmed BigInt.isSpace form.rules := by
  unfold CreateMarketForm.rules
  split
  · split
    · exact trimmed_append 'R' '.' (by decide)
        (by simp only [List.head?_append]; rw [String.toList_ofList]; rfl)
        (by rw [String.toList_ofList]; rfl)
    · exact trimmed_of_ends 'A' '.' (by decide)
        (by rw [String.toList_ofList]; rfl) (by rw [String.toList_ofList]; rfl)
  · exact trimmed_append 'R' '.' (by decide)
      (by simp only [List.head?_append]; rw [String.toList_ofList]; rfl)
      (by rw [String.toList_ofList]; rfl)
  · exact trimmed_append 'R' '.' (by decide)
      (by simp only [List.head?_append]; rw [String.toList_ofList]; rfl)
      (by rw [String.toList_ofList]; rfl)
  · exact trimmed_trimBy _ _
  · exact trimmed_append 'T' '.' (by decide)
      (by rw [String.toList_ofList]; rfl) (by rw [String.toList_ofList]; rfl)

/-! ## The reference -/

theorem printable_of_isHexDigit {c : Char} (h : Hex.isHexDigit c = true) :
    0x21 ≤ c.toLower.toNat ∧ c.toLower.toNat ≤ 0x7e := by
  have hall : (Hex.alphabet.all fun d => decide (0x21 ≤ d.toNat ∧ d.toNat ≤ 0x7e)) = true := by
    decide
  have hdigit := List.all_eq_true.mp hall c.toLower (List.contains_iff_mem.mp h)
  simpa only [decide_eq_true_eq] using hdigit

/-- A short reference of visible ASCII characters is valid once its scheme is. -/
theorem validReference_of_printable {url : List Char}
    (hprintable : ∀ c ∈ url, 0x21 ≤ c.toNat ∧ c.toNat ≤ 0x7e)
    (hlength : url.length ≤ maxReferenceUrlBytes)
    (hscheme : "https://".toList.isPrefixOf url = true) : validReference url = true := by
  have hascii : ∀ c ∈ url, c.toNat < 0x80 := by
    intro c hc
    have hrange := hprintable c hc
    omega
  have hwhite : ∀ c ∈ url, Text.isWhitespace c = false := by
    intro c hc
    have hrange := hprintable c hc
    rw [Bool.eq_false_iff]
    intro hspace
    cases Text.isWhitespace_of_printable ⟨by omega, hrange.2⟩ hspace
    exact absurd hrange.1 (by decide)
  have hcontrol : ∀ c ∈ url, Text.isControl c = false := by
    intro c hc
    have hrange := hprintable c hc
    exact Text.isControl_of_printable ⟨by omega, hrange.2⟩
  have htrim : Text.trim url = url := (Trimmed.of_forall hwhite).trimBy_eq
  have hany : url.any Text.isControl = false := by
    rw [List.any_eq_false]
    intro c hc
    simp [hcontrol c hc]
  simp only [validReference, Text.len_of_ascii hascii, hlength, htrim, hany, hscheme, decide_true,
    Bool.not_false, Bool.true_and, Bool.true_or, Bool.or_true]

/-- The reference of a choice other than the optimistic one is always valid. -/
theorem validReference_referenceUrl (h : form.resolver ≠ .optimistic) :
    validReference form.referenceUrl = true := by
  unfold CreateMarketForm.referenceUrl
  split
  · decide +kernel
  · split
    · next hhash =>
      simp only [CreateMarketForm.isFeedHash, Bool.and_eq_true, decide_eq_true_eq,
        List.all_eq_true] at hhash
      obtain ⟨hlength, hdigits⟩ := hhash
      apply validReference_of_printable
      · intro c hc
        rcases List.mem_append.mp hc with hfixed | hdigit
        · have hall : ("https://crossbar.switchboard.xyz/v2/fetch/".toList.all fun d =>
              decide (0x21 ≤ d.toNat ∧ d.toNat ≤ 0x7e)) = true := by
            decide +kernel
          simpa only [decide_eq_true_eq] using List.all_eq_true.mp hall c hfixed
        · obtain ⟨d, hd, rfl⟩ := List.mem_map.mp hdigit
          exact printable_of_isHexDigit (hdigits d hd)
      · rw [List.length_append, List.length_map, hlength]
        decide +kernel
      · rw [List.isPrefixOf_iff_prefix]
        exact (by decide +kernel : "https://".toList <+:
          "https://crossbar.switchboard.xyz/v2/fetch/".toList).trans (List.prefix_append _ _)
    · rfl
  · decide +kernel
  · next hoptimistic => exact absurd hoptimistic h
  · rfl

/-! ## What the program still asks -/

/-- What the texts of a form must satisfy besides the checks of the form: their lengths in bytes,
and no control character but the newlines of the rules. -/
structure Publishable : Prop where
  question_len : Text.len form.question ≤ maxQuestionBytes
  question_control : ∀ c ∈ form.question, Text.isControl c = false
  rules_len : Text.len form.rules ≤ maxRulesBytes
  rules_control : ∀ c ∈ form.rules, Text.isControl c = false ∨ c = '\n'
  reference : form.resolver = .optimistic → Text.len form.referenceUrl ≤ maxReferenceUrlBytes ∧
    ∀ c ∈ form.referenceUrl, Text.isControl c = false

/-- The market keeps the digests it was created with. -/
structure CommittedTo (market : HybridMarket) (args : InitializeHybridMarketArgs) : Prop where
  question : market.questionHash = args.questionHash
  rules : market.rulesHash = args.rulesHash
  labels : market.outcomeLabelsHash = args.outcomeLabelsHash

variable {form}

/-- A trimmed text is valid when it is short and has no control character. -/
theorem validText_iff {s : List Char} (hne : s ≠ []) (htrimmed : Trimmed BigInt.isSpace s)
    (maximum : Nat) (allowNewlines : Bool) : validText s maximum allowNewlines = true ↔
      Text.len s ≤ maximum ∧
        ∀ c ∈ s, Text.isControl c = false ∨ (allowNewlines = true ∧ c = '\n') := by
  have hempty : s.isEmpty = false := by
    rw [Bool.eq_false_iff]
    exact fun h => hne (List.isEmpty_iff.mp h)
  simp only [validText, hempty, Bool.not_false, Bool.true_and, Bool.and_eq_true, decide_eq_true_eq,
    List.all_eq_true, Bool.or_eq_true, Bool.not_eq_true']
  constructor
  · rintro ⟨⟨hlen, -⟩, hcontrol⟩
    exact ⟨hlen, hcontrol⟩
  · rintro ⟨hlen, hcontrol⟩
    have htrim : Trimmed Text.isWhitespace s := by
      apply htrimmed.mono
      intro c hc hspace
      apply isSpace_of_isWhitespace hspace
      exact (hcontrol c hc).imp_right And.right
    exact ⟨⟨hlen, htrim.trimBy_eq⟩, hcontrol⟩

theorem validReference_optimistic {url : List Char} (htrimmed : Trimmed BigInt.isSpace url)
    (hscheme : "https://".toList <+: url) : validReference url = true ↔
      Text.len url ≤ maxReferenceUrlBytes ∧ ∀ c ∈ url, Text.isControl c = false := by
  have hempty : url.isEmpty = false := by
    obtain ⟨rest, rfl⟩ := hscheme
    rfl
  simp only [validReference, hempty, Bool.false_or, Bool.and_eq_true, decide_eq_true_eq,
    Bool.not_eq_true', List.any_eq_false, List.isPrefixOf_iff_prefix.mpr hscheme, Bool.true_or,
    and_true]
  constructor
  · rintro ⟨⟨hlen, -⟩, hcontrol⟩
    exact ⟨hlen, fun c hc => Bool.eq_false_iff.mpr (hcontrol c hc)⟩
  · rintro ⟨hlen, hcontrol⟩
    have htrim : Trimmed Text.isWhitespace url :=
      htrimmed.mono fun c hc hspace => isSpace_of_isWhitespace hspace (.inl (hcontrol c hc))
    exact ⟨⟨hlen, htrim.trimBy_eq⟩, fun c hc => Bool.eq_false_iff.mp (hcontrol c hc)⟩

/-! ## What the form sends -/

section

variable {sha256 : List UInt8 → Bytes32} {resolutionAt : Option Int} {now : Int}
  {transactions : HybridMarketTransactions}

/-- What a form that passes the checks sends. -/
structure Sent (sha256 : List UInt8 → Bytes32) (form : CreateMarketForm)
    (transactions : HybridMarketTransactions) : Prop where
  question_ne : form.question ≠ []
  rules_ne : form.rules ≠ []
  scheme : form.resolver = .optimistic → "https://".toList <+: form.referenceUrl
  questionHash : transactions.market.questionHash = sha256Text sha256 form.question
  rulesHash : transactions.market.rulesHash = sha256Text sha256 form.rules
  labelsHash : transactions.market.outcomeLabelsHash = sha256Text sha256 "YES\nNO".toList
  metadata : transactions.metadata = {
    question := form.question
    rules := form.rules
    yesLabel := "YES".toList
    noLabel := "NO".toList
    referenceUrl := form.referenceUrl }

theorem createHybridMarket_ok
    (h : createHybridMarket sha256 form resolutionAt now = .ok transactions) :
    Sent sha256 form transactions := by
  simp only [createHybridMarket, bind_eq_ok, require_eq_ok, Except.ok.injEq] at h
  obtain ⟨_, -, -, -, -, ⟨hquestion, hrules⟩, -, -, -, hscheme, -, -, -, -, _, -, rfl⟩ := h
  exact ⟨hquestion, hrules, hscheme, rfl, rfl, rfl, rfl⟩

end

/-- **What the create form can publish.** For a market created with the digests the form committed
to, the program accepts the texts the form publishes exactly when they are short enough in bytes and
have no control character. -/
theorem publishes_iff (rt : Runtime) {resolutionAt : Option Int} {now : Int}
    {transactions : HybridMarketTransactions}
    (h : createHybridMarket rt.sha256 form resolutionAt now = .ok transactions)
    {market : HybridMarket} (hmarket : CommittedTo market transactions.market) :
    validateHybridMetadata rt market transactions.metadata = .ok () ↔ Publishable form := by
  have hsent := createHybridMarket_ok h
  have hquestion := validText_iff hsent.question_ne (trimmed_question form) maxQuestionBytes false
  have hrules := validText_iff hsent.rules_ne (trimmed_rules form) maxRulesBytes true
  have hlabels : validText "YES".toList maxOutcomeLabelBytes false = true ∧
      validText "NO".toList maxOutcomeLabelBytes false = true ∧ "YES".toList ≠ "NO".toList := by
    decide
  have hreference : validReference form.referenceUrl = true ↔
      (form.resolver = .optimistic → Text.len form.referenceUrl ≤ maxReferenceUrlBytes ∧
        ∀ c ∈ form.referenceUrl, Text.isControl c = false) := by
    by_cases hchoice : form.resolver = .optimistic
    · have htrimmed : Trimmed BigInt.isSpace form.referenceUrl := by
        simp only [CreateMarketForm.referenceUrl, hchoice]
        exact trimmed_trimBy _ _
      rw [validReference_optimistic htrimmed (hsent.scheme hchoice)]
      exact ⟨fun hurl _ => hurl, fun hurl => hurl hchoice⟩
    · exact ⟨fun _ hoptimistic => absurd hoptimistic hchoice,
        fun _ => validReference_referenceUrl form hchoice⟩
  have hdigests : rt.hashv [Text.asBytes form.question] = market.questionHash ∧
      rt.hashv [Text.asBytes form.rules] = market.rulesHash ∧
      rt.hashv [outcomeLabels "YES".toList "NO".toList] = market.outcomeLabelsHash := by
    rw [hmarket.question, hmarket.rules, hmarket.labels, hsent.questionHash, hsent.rulesHash,
      hsent.labelsHash]
    simp only [Runtime.hashv, List.flatten_cons, List.flatten_nil, List.append_nil, sha256Text,
      true_and]
    rfl
  rw [validateHybridMetadata, check_eq_ok, hsent.metadata]
  constructor
  · rintro ⟨hq, hr, -, -, -, hurl, -⟩
    obtain ⟨hqlen, hqcontrol⟩ := hquestion.mp hq
    obtain ⟨hrlen, hrcontrol⟩ := hrules.mp hr
    refine ⟨hqlen, fun c hc => ?_, hrlen, fun c hc => ?_, hreference.mp hurl⟩
    · exact (hqcontrol c hc).resolve_right fun hnewline => Bool.noConfusion hnewline.1
    · exact (hrcontrol c hc).imp_right And.right
  · intro hform
    exact ⟨hquestion.mpr ⟨hform.question_len, fun c hc => .inl (hform.question_control c hc)⟩,
      hrules.mpr ⟨hform.rules_len, fun c hc => (hform.rules_control c hc).imp_right fun hnewline =>
        ⟨rfl, hnewline⟩⟩,
      hlabels.1, hlabels.2.1, hlabels.2.2, hreference.mpr hform.reference, hdigests⟩

/-- The digests of a market stay those of its creation. -/
theorem committedTo_run {rt : Runtime} {args : InitializeHybridMarketArgs} {created : Int}
    {init state : HybridState} {tr : List Event} (hinit : Created rt args created init)
    (h : Run (Step rt) init tr state) : CommittedTo state.market args := by
  obtain ⟨engine, tokens, creator, creatorToken, hcreated⟩ := hinit
  obtain ⟨-, -, -, _, _, -, -, hmarket, -⟩ := initializeHybridMarket_ok hcreated
  have hterms := terms_run h
  constructor
  · rw [field_of_terms HybridMarket.questionHash (fun _ => rfl) hterms, hmarket]
    rfl
  · rw [field_of_terms HybridMarket.rulesHash (fun _ => rfl) hterms, hmarket]
    rfl
  · rw [field_of_terms HybridMarket.outcomeLabelsHash (fun _ => rfl) hterms, hmarket]
    rfl

/-! ## A market of accented letters -/

namespace Sample

/-- A bonded market on the given question. -/
def bondedForm (question : List Char) : CreateMarketForm where
  category := .other
  resolver := .optimistic
  marketId := 1
  selectedFeed := none
  priceThreshold := "120000".toList
  customQuestion := question
  customRules := "Resolve YES when the source confirms it.".toList
  customReferenceUrl := "https://example.com/result".toList
  switchboardFeedHash := []
  switchboardUnit := "USD".toList
  switchboardLabel := "the configured metric".toList
  switchboardValidated := false
  storkAssetId := []
  storkAsset := none
  fixtureLabel := "Argentina vs Switzerland".toList

/-- One hundred letters of two bytes each. -/
def accented : List Char := List.replicate 100 'é'

end Sample

open Nortia.Web.Sample in
/-- A question of plain letters, on the market that `initialize_hybrid_market` makes of it. -/
theorem publishes_iff_plain : ∃ transactions,
    createHybridMarket Hybrid.Sample.runtime.sha256 (bondedForm "Will it rain?".toList)
      (some 1800000000000) 1700000000 = .ok transactions ∧
    (validateHybridMetadata Hybrid.Sample.runtime
        (newHybridMarket Hybrid.Sample.runtime Hybrid.Sample.engine Hybrid.Sample.creator
          transactions.market 1700000000 1 1) transactions.metadata = .ok () ↔
      Publishable (bondedForm "Will it rain?".toList)) := by
  obtain ⟨transactions, hsent⟩ : ∃ transactions,
      createHybridMarket Hybrid.Sample.runtime.sha256 (bondedForm "Will it rain?".toList)
        (some 1800000000000) 1700000000 = .ok transactions := ⟨_, rfl⟩
  exact ⟨transactions, hsent, publishes_iff Hybrid.Sample.runtime hsent ⟨rfl, rfl, rfl⟩⟩

open Nortia.Web.Sample in
/-- The form accepts one hundred accented letters, the program refuses their two hundred bytes. -/
theorem accented_question_is_refused : ∃ transactions,
    createHybridMarket Hybrid.Sample.runtime.sha256 (bondedForm accented) (some 1800000000000)
      1700000000 = .ok transactions ∧
    ∀ market, CommittedTo market transactions.market →
      validateHybridMetadata Hybrid.Sample.runtime market transactions.metadata ≠ .ok () := by
  refine ⟨_, rfl, ?_⟩
  intro market _ hvalid
  rw [validateHybridMetadata, check_eq_ok] at hvalid
  obtain ⟨hquestion, -⟩ := hvalid
  revert hquestion
  decide +kernel

end Nortia.Web
