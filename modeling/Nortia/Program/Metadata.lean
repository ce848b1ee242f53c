import Nortia.Program.HybridSystem

/-!
# `lib.rs`: the published metadata of a hybrid market

The texts of a market are read from an account that its creator publishes once. They are those the
market was created from: their digests are compared with the ones the market keeps.
-/

namespace Nortia.Hybrid

open Lib

def maxQuestionBytes : Nat := 160
def maxRulesBytes : Nat := 420
def maxOutcomeLabelBytes : Nat := 24
def maxReferenceUrlBytes : Nat := 160

structure HybridMarketMetadata where
  market : Pubkey
  creator : Pubkey
  question : List Char
  rules : List Char
  yesLabel : List Char
  noLabel : List Char
  referenceUrl : List Char
  publishedAt : Int

structure PublishHybridMetadataArgs where
  question : List Char
  rules : List Char
  yesLabel : List Char
  noLabel : List Char
  referenceUrl : List Char

/-! ## Validation -/

def validText (value : List Char) (maximum : Nat) (allowNewlines : Bool) : Bool :=
  !value.isEmpty && Text.len value ≤ maximum && Text.trim value = value &&
    value.all fun character =>
      !Text.isControl character || (allowNewlines && character = '\n')

def validReference (url : List Char) : Bool :=
  url.isEmpty ||
    (Text.len url ≤ maxReferenceUrlBytes && Text.trim url = url && !url.any Text.isControl &&
      ("https://".toList.isPrefixOf url || "ipfs://".toList.isPrefixOf url ||
        "ar://".toList.isPrefixOf url))

/-- The bytes of the two labels a market keeps the digest of. -/
def outcomeLabels (yesLabel noLabel : List Char) : List UInt8 :=
  Text.asBytes yesLabel ++ [10] ++ Text.asBytes noLabel

def validateHybridMetadata (rt : Runtime) (market : HybridMarket)
    (args : PublishHybridMetadataArgs) : Except Failure Unit :=
  check (validText args.question maxQuestionBytes false = true ∧
    validText args.rules maxRulesBytes true = true ∧
    validText args.yesLabel maxOutcomeLabelBytes false = true ∧
    validText args.noLabel maxOutcomeLabelBytes false = true ∧
    args.yesLabel ≠ args.noLabel ∧ validReference args.referenceUrl = true ∧
    rt.hashv [Text.asBytes args.question] = market.questionHash ∧
    rt.hashv [Text.asBytes args.rules] = market.rulesHash ∧
    rt.hashv [outcomeLabels args.yesLabel args.noLabel] = market.outcomeLabelsHash)
    .invalidMarketMetadata

/-! ## Publication -/

/-- A market and, once it is published, its metadata. -/
structure ListedMarket where
  state : HybridState
  metadata : Option HybridMarketMetadata

/-- Creates the metadata account, which fails when there is one already. -/
def publishHybridMetadata (rt : Runtime) (m : ListedMarket) (creator : Pubkey)
    (args : PublishHybridMetadataArgs) (now : Int) : Except Failure ListedMarket := do
  require (m.metadata.isNone = true) .accountInUse
  check (creator = m.state.market.creator) .invalidMarketMetadata
  validateHybridMetadata rt m.state.market args
  .ok { m with metadata := some {
    market := m.state.marketKey rt
    creator
    question := args.question
    rules := args.rules
    yesLabel := args.yesLabel
    noLabel := args.noLabel
    referenceUrl := args.referenceUrl
    publishedAt := now } }

inductive ListedEvent
  | market (event : Event)
  | publish (creator : Pubkey) (args : PublishHybridMetadataArgs) (now : Int)

/-- A step of the market, or the publication of its metadata. -/
inductive ListedStep (rt : Runtime) : ListedMarket → ListedEvent → ListedMarket → Prop
  | market {m : ListedMarket} {event : Event} {s' : HybridState} :
      Step rt m.state event s' → ListedStep rt m (.market event) { m with state := s' }
  | publish {m m' : ListedMarket} {creator : Pubkey} {args : PublishHybridMetadataArgs}
      {now : Int} : publishHybridMetadata rt m creator args now = .ok m' →
        ListedStep rt m (.publish creator args now) m'

/-- The markets, with their metadata, that some run leads to from their creation. -/
def Listed (rt : Runtime) (m : ListedMarket) : Prop :=
  ∃ args now init, Created rt args now init ∧ Reaches (ListedStep rt) ⟨init, none⟩ m

end Nortia.Hybrid
