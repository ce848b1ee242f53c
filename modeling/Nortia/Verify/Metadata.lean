import Nortia.Verify.Indexer
import Mathlib.Data.Set.Function

/-!
# The digests of a market bind its texts

A label has no control character, so the newline between the two labels is the only one and the
joined text splits one way. A digest of the texts therefore fixes each of them.
-/

namespace Nortia.Hybrid

open Lib

variable {rt : Runtime} {market : HybridMarket} {args args' : PublishHybridMetadataArgs}

/-! ## The labels -/

theorem newline_notMem_of_validText {value : List Char} {maximum : Nat}
    (h : validText value maximum false = true) : '\n' ∉ value := by
  intro hmem
  simp only [validText, Bool.and_eq_true, List.all_eq_true, Bool.false_and, Bool.or_false] at h
  obtain ⟨-, hcontrol⟩ := h
  have hnewline := hcontrol '\n' hmem
  cases hnewline

/-- Texts without the separator are what is before its first occurrence. -/
theorem append_separator_inj {α : Type} {separator : α} :
    ∀ {a b c d : List α}, separator ∉ a → separator ∉ c →
      a ++ separator :: b = c ++ separator :: d → a = c ∧ b = d := by
  intro a
  induction a with
  | nil =>
    intro b c d _ hc h
    cases c with
    | nil => exact ⟨rfl, (List.cons.inj h).2⟩
    | cons x c =>
      have hx := (List.cons.inj h).1
      exact absurd (hx ▸ List.mem_cons_self) hc
  | cons x a ih =>
    intro b c d ha hc h
    cases c with
    | nil =>
      have hx := (List.cons.inj h).1
      exact absurd (hx ▸ List.mem_cons_self) ha
    | cons y c =>
      obtain ⟨hhead, htail⟩ := List.cons.inj h
      have hrest := ih (fun hmem => ha (List.mem_cons_of_mem _ hmem))
        (fun hmem => hc (List.mem_cons_of_mem _ hmem)) htail
      exact ⟨by rw [hhead, hrest.1], hrest.2⟩

/-- **Two labels are read back from their bytes**, for all labels without a newline. -/
theorem outcomeLabels_inj {yes no yes' no' : List Char} (hyes : '\n' ∉ yes) (hyes' : '\n' ∉ yes')
    (h : outcomeLabels yes no = outcomeLabels yes' no') : yes = yes' ∧ no = no' := by
  rw [← Services.asBytes_labels, ← Services.asBytes_labels] at h
  have htexts := Text.asBytes_injective h
  rw [List.append_assoc, List.append_assoc] at htexts
  exact append_separator_inj hyes hyes' htexts

/-! ## The texts -/

/-- What the program hashes of a publication. -/
def hashedTexts (args : PublishHybridMetadataArgs) : Set (List UInt8) :=
  {Text.asBytes args.question, Text.asBytes args.rules, outcomeLabels args.yesLabel args.noLabel}

/-- What an accepted publication says. -/
structure Published (rt : Runtime) (market : HybridMarket) (args : PublishHybridMetadataArgs) :
    Prop where
  question : rt.sha256 (Text.asBytes args.question) = market.questionHash
  rules : rt.sha256 (Text.asBytes args.rules) = market.rulesHash
  labels : rt.sha256 (outcomeLabels args.yesLabel args.noLabel) = market.outcomeLabelsHash
  yesLabel : '\n' ∉ args.yesLabel
  noLabel : '\n' ∉ args.noLabel

theorem published_of_ok (h : validateHybridMetadata rt market args = .ok ()) :
    Published rt market args := by
  simp only [validateHybridMetadata, check_eq_ok, Runtime.hashv, List.flatten_cons,
    List.flatten_nil, List.append_nil] at h
  obtain ⟨-, -, hyes, hno, -, -, hquestion, hrules, hlabels⟩ := h
  exact ⟨hquestion, hrules, hlabels, newline_notMem_of_validText hyes,
    newline_notMem_of_validText hno⟩

/-- The account of a publication. -/
def publication (market : HybridMarket) (address : Pubkey) (args : PublishHybridMetadataArgs)
    (publishedAt : Int) : HybridMarketMetadata where
  market := address
  creator := market.creator
  question := args.question
  rules := args.rules
  yesLabel := args.yesLabel
  noLabel := args.noLabel
  referenceUrl := args.referenceUrl
  publishedAt

/-- The indexer accepts whatever the program does. -/
theorem buildMetadataSnapshot_ok (h : Published rt market args) (toBase58 : Pubkey → String)
    (address : Pubkey) (publishedAt : Int) :
    ∃ snapshot, Services.buildMetadataSnapshot rt.sha256 toBase58
        (publication market address args publishedAt) market address = .ok snapshot ∧
      snapshot.question = args.question ∧ snapshot.rules = args.rules ∧
      snapshot.yesLabel = args.yesLabel ∧ snapshot.noLabel = args.noLabel := by
  have hbelongs : (publication market address args publishedAt).market = address ∧
      (publication market address args publishedAt).creator = market.creator := ⟨rfl, rfl⟩
  have hdigests : Services.digest rt.sha256 args.question = hex market.questionHash.toList ∧
      Services.digest rt.sha256 args.rules = hex market.rulesHash.toList ∧
      Services.digest rt.sha256 (args.yesLabel ++ ['\n'] ++ args.noLabel) =
        hex market.outcomeLabelsHash.toList := by
    simp only [Services.digest, Services.asBytes_labels, h.question, h.rules, h.labels, and_self]
  rw [Services.buildMetadataSnapshot, require_pos hbelongs, ok_bind, Services.bytes32_eq, ok_bind,
    Services.bytes32_eq, ok_bind, Services.bytes32_eq, ok_bind]
  refine ⟨_, bind_eq_ok.mpr ⟨(), require_eq_ok.mpr hdigests, bind_eq_ok.mpr
    ⟨_, Services.integerString_eq _ _, rfl⟩⟩, rfl, rfl, rfl, rfl⟩

/-- **Metadata hashes bind the texts.** Where SHA-256 has no collision on the texts of two
publications the program accepts for one market, their questions, rules and labels are the same,
and the indexer accepts them too. -/
theorem metadata_binding (hinj : Set.InjOn rt.sha256 (hashedTexts args ∪ hashedTexts args'))
    (h : validateHybridMetadata rt market args = .ok ())
    (h' : validateHybridMetadata rt market args' = .ok ()) :
    (args.question = args'.question ∧ args.rules = args'.rules ∧ args.yesLabel = args'.yesLabel ∧
      args.noLabel = args'.noLabel) ∧
    ∀ (toBase58 : Pubkey → String) (address : Pubkey) (publishedAt : Int),
      ∃ snapshot, Services.buildMetadataSnapshot rt.sha256 toBase58
          (publication market address args publishedAt) market address = .ok snapshot ∧
        snapshot.question = args.question ∧ snapshot.rules = args.rules ∧
        snapshot.yesLabel = args.yesLabel ∧ snapshot.noLabel = args.noLabel := by
  have hpublished := published_of_ok h
  have hpublished' := published_of_ok h'
  have hquestion : Text.asBytes args.question = Text.asBytes args'.question := by
    apply hinj
    · exact .inl (.inl rfl)
    · exact .inr (.inl rfl)
    · exact hpublished.question.trans hpublished'.question.symm
  have hrules : Text.asBytes args.rules = Text.asBytes args'.rules := by
    apply hinj
    · exact .inl (.inr (.inl rfl))
    · exact .inr (.inr (.inl rfl))
    · exact hpublished.rules.trans hpublished'.rules.symm
  have hlabels : outcomeLabels args.yesLabel args.noLabel =
      outcomeLabels args'.yesLabel args'.noLabel := by
    apply hinj
    · exact .inl (.inr (.inr rfl))
    · exact .inr (.inr (.inr rfl))
    · exact hpublished.labels.trans hpublished'.labels.symm
  obtain ⟨hyes, hno⟩ := outcomeLabels_inj hpublished.yesLabel hpublished'.yesLabel hlabels
  refine ⟨⟨Text.asBytes_injective hquestion, Text.asBytes_injective hrules, hyes, hno⟩, ?_⟩
  intro toBase58 address publishedAt
  exact buildMetadataSnapshot_ok hpublished toBase58 address publishedAt

namespace Sample

def questionText : List Char := "Will it rain?".toList
def rulesText : List Char := "Rain at noon.\nNo rain otherwise.".toList

/-- SHA-256 on the texts of one market. -/
def textDigests (bytes : List UInt8) : Bytes32 :=
  if bytes = Text.asBytes questionText then
    ⟨[175, 77, 114, 48, 173, 218, 68, 180, 158, 71, 171, 86, 197, 40, 246, 224, 12, 49, 160, 77,
      44, 129, 178, 146, 215, 250, 105, 82, 2, 221, 107, 2], rfl⟩
  else if bytes = Text.asBytes rulesText then
    ⟨[107, 154, 225, 209, 137, 66, 217, 229, 157, 147, 209, 96, 94, 27, 218, 218, 158, 185, 122,
      29, 136, 15, 17, 196, 14, 196, 225, 126, 222, 180, 43, 206], rfl⟩
  else
    ⟨[72, 70, 111, 21, 170, 234, 213, 226, 116, 44, 12, 57, 148, 153, 41, 159, 197, 65, 142, 194,
      102, 64, 242, 95, 45, 218, 79, 147, 59, 70, 48, 28], rfl⟩

def texts : Runtime := { runtime with sha256 := textDigests }

/-- A market on the three digests. -/
def rainMarket : HybridMarket :=
  newHybridMarket texts engine creator { Hybrid.Sample.args with
    questionHash := textDigests (Text.asBytes questionText)
    rulesHash := textDigests (Text.asBytes rulesText)
    outcomeLabelsHash := textDigests (outcomeLabels "YES".toList "NO".toList) } 0 1 1

def publish (referenceUrl : String) : PublishHybridMetadataArgs where
  question := questionText
  rules := rulesText
  yesLabel := "YES".toList
  noLabel := "NO".toList
  referenceUrl := referenceUrl.toList

theorem publish_accepted : ∀ referenceUrl ∈ ["", "https://weather.example/"],
    (validateHybridMetadata texts rainMarket (publish referenceUrl)).toOption = some () := by
  decide +kernel

end Sample

open Nortia.Hybrid.Sample in
/-- Two publications of one market that differ in their references have the same texts. -/
theorem metadata_binding_sample : (publish "").question = (publish "https://weather.example/").question ∧
    ∃ snapshot, Services.buildMetadataSnapshot textDigests (fun _ => "")
        (publication rainMarket marketKey (publish "") 5) rainMarket marketKey = .ok snapshot ∧
      snapshot.question = questionText := by
  have hinj : Set.InjOn texts.sha256
      (hashedTexts (publish "") ∪ hashedTexts (publish "https://weather.example/")) := by
    have hsame : hashedTexts (publish "https://weather.example/") = hashedTexts (publish "") := rfl
    have hdistinct : ∀ a ∈ [Text.asBytes questionText, Text.asBytes rulesText,
        outcomeLabels "YES".toList "NO".toList], ∀ b ∈ [Text.asBytes questionText,
        Text.asBytes rulesText, outcomeLabels "YES".toList "NO".toList],
        textDigests a = textDigests b → a = b := by
      decide +kernel
    have hlist : ∀ a ∈ hashedTexts (publish ""), a ∈ [Text.asBytes questionText,
        Text.asBytes rulesText, outcomeLabels "YES".toList "NO".toList] := by
      rintro a (rfl | rfl | rfl)
      · exact List.mem_cons_self
      · exact List.mem_cons_of_mem _ List.mem_cons_self
      · exact List.mem_cons_of_mem _ (List.mem_cons_of_mem _ List.mem_cons_self)
    rw [hsame, Set.union_self]
    exact fun a ha b hb h => hdistinct a (hlist a ha) b (hlist b hb) h
  have hfirst := toOption_eq_some.mp (publish_accepted "" List.mem_cons_self)
  have hsecond := toOption_eq_some.mp
    (publish_accepted "https://weather.example/" (List.mem_cons_of_mem _ List.mem_cons_self))
  obtain ⟨⟨hquestion, -⟩, hindexed⟩ := metadata_binding hinj hfirst hsecond
  obtain ⟨snapshot, hsnapshot, htext, -⟩ := hindexed (fun _ => "") marketKey 5
  exact ⟨hquestion, snapshot, hsnapshot, htext⟩

end Nortia.Hybrid
