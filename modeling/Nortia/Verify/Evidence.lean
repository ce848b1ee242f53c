import Nortia.Client.Optimistic
import Nortia.Lib.Trim
import Nortia.Verify.Hybrid.Solvency

/-!
# Evidence URIs between the client and the program

Both sides bound the same bytes, demand the same schemes and hash the same text. Among the
characters the client accepts, the space is the only one the program refuses, and the client
accepts it inside a URI.
-/

namespace Nortia.Client

open Lib
open Nortia.Hybrid (validOptimisticEvidenceUri uriPrefixLength)

/-- The schemes alone. A URL of nothing else is refused by the parser, or has no host. -/
def bareSchemes : List (List Char) := ["https://".toList, "ipfs://".toList, "ar://".toList]

/-- What the URL standard says of the three schemes without anything after them. -/
def NoBareHost (parseUrl : List Char → Option Url) : Prop :=
  ∀ scheme ∈ bareSchemes, ∀ url, parseUrl scheme = some url → url.hostname = []

/-- The evidence tag of the program for a role. -/
def onchainDomain : OptimisticEvidenceRole → List UInt8
  | .assertion => Hybrid.assertionDomain
  | .challenge => Hybrid.challengeDomain

section

variable {parseUrl : List Char → Option Url} {value uri : List Char}

/-! ## What the client accepts -/

/-- An accepted URI. -/
structure AcceptedUri (parseUrl : List Char → Option Url) (value : List Char) : Prop where
  short : Text.len value ≤ maxOptimisticEvidenceUriBytes
  printable : ∀ c ∈ value, 0x20 ≤ c.toNat ∧ c.toNat ≤ 0x7e
  scheme : ∃ scheme ∈ bareSchemes, scheme <+: value
  host : ∃ url, parseUrl value = some url ∧ url.hostname ≠ []

theorem normalizeEvidenceUri_ok (h : normalizeEvidenceUri parseUrl value = .ok uri) :
    uri = value ∧ AcceptedUri parseUrl value := by
  simp only [normalizeEvidenceUri, bind_eq_ok, require_eq_ok, okOr_eq_ok, Except.ok.injEq] at h
  obtain ⟨-, -, -, hlen, -, -, -, hprintable, -, hscheme, url, hurl, -, ⟨hhost, -⟩, rfl⟩ := h
  refine ⟨rfl, hlen, ?_, ?_, url, hurl, hhost⟩
  · intro c hc
    have hchar := List.all_eq_true.mp hprintable c hc
    simpa only [isPrintableAscii, Bool.and_eq_true, decide_eq_true_eq] using hchar
  · simp only [hasEvidenceScheme, Bool.or_eq_true, List.isPrefixOf_iff_prefix] at hscheme
    rcases hscheme with (hhttps | hipfs) | har
    · exact ⟨_, by simp [bareSchemes], hhttps⟩
    · exact ⟨_, by simp [bareSchemes], hipfs⟩
    · exact ⟨_, by simp [bareSchemes], har⟩

/-! ## The scheme on chain -/

/-- The program finds the end of the scheme. -/
theorem uriPrefixLength_append {scheme : List Char} (h : scheme ∈ bareSchemes)
    (rest : List Char) : uriPrefixLength (scheme ++ rest) = Text.len scheme := by
  simp only [bareSchemes, List.mem_cons, List.not_mem_nil, or_false] at h
  rcases h with rfl | rfl | rfl
  · have hhttps : "https://".toList <+: "https://".toList ++ rest := List.prefix_append _ _
    rw [uriPrefixLength, if_pos hhttps]
    rfl
  · have hipfs : "ipfs://".toList <+: "ipfs://".toList ++ rest := List.prefix_append _ _
    have hhttps : ¬"https://".toList <+: "ipfs://".toList ++ rest := by
      simp [List.cons_prefix_cons]
    rw [uriPrefixLength, if_neg hhttps, if_pos (.inl hipfs)]
    simp [Text.find, List.cons_prefix_cons]
    rfl
  · have har : "ar://".toList <+: "ar://".toList ++ rest := List.prefix_append _ _
    have hhttps : ¬"https://".toList <+: "ar://".toList ++ rest := by
      simp [List.cons_prefix_cons]
    rw [uriPrefixLength, if_neg hhttps, if_pos (.inr har)]
    simp [Text.find, List.cons_prefix_cons]
    rfl

/-! ## The characters on chain -/

/-- **The program refuses exactly the embedded spaces.** -/
theorem validOptimisticEvidenceUri_iff (hparser : NoBareHost parseUrl)
    (h : AcceptedUri parseUrl value) :
    validOptimisticEvidenceUri value = true ↔ ' ' ∉ value := by
  obtain ⟨scheme, hscheme, rest, hrest⟩ := h.scheme
  constructor
  · intro hvalid hmem
    simp only [validOptimisticEvidenceUri, Bool.and_eq_true, Bool.not_eq_true', List.any_eq_false]
      at hvalid
    obtain ⟨⟨-, hnone⟩, -⟩ := hvalid
    exact hnone ' ' hmem (by decide)
  · intro hspace
    have hwhite : ∀ c ∈ value, Text.isWhitespace c = false := by
      intro c hc
      rw [Bool.eq_false_iff]
      intro hwhite
      exact hspace (Text.isWhitespace_of_printable (h.printable c hc) hwhite ▸ hc)
    have hcontrol : ∀ c ∈ value, Text.isControl c = false := fun c hc =>
      Text.isControl_of_printable (h.printable c hc)
    have hascii : ∀ c ∈ value, c.toNat < 0x80 := by
      intro c hc
      have hrange := h.printable c hc
      omega
    have hprefix : uriPrefixLength value = Text.len scheme := by
      rw [← hrest]
      exact uriPrefixLength_append hscheme rest
    have hpos : 0 < Text.len scheme := by
      apply Text.len_pos_of_ne_nil
      rintro rfl
      revert hscheme
      decide
    -- the parser gives no host for the scheme alone
    have hlonger : Text.len scheme < Text.len value := by
      have hne : rest ≠ [] := by
        rintro rfl
        obtain ⟨url, hurl, hhost⟩ := h.host
        rw [← hrest, List.append_nil] at hurl
        exact hhost (hparser scheme hscheme url hurl)
      have htail := Text.len_pos_of_ne_nil hne
      rw [← hrest, Text.len_append]
      omega
    simp only [validOptimisticEvidenceUri, Bool.and_eq_true, Bool.not_eq_true', decide_eq_true_eq,
      List.any_eq_false, Text.isAscii, List.all_eq_true, hprefix]
    exact ⟨⟨⟨⟨⟨⟨hpos, h.short⟩, (Trimmed.of_forall hwhite).trimBy_eq⟩, hlonger⟩, hascii⟩,
      fun c hc => by simp [hwhite c hc]⟩, fun c hc => by simp [hcontrol c hc]⟩

/-! ## The bytes that are hashed -/

/-- The client and the program hash the same bytes, whatever the URI. -/
theorem optimisticEvidenceHash_eq (rt : Runtime) (role : OptimisticEvidenceRole) (market : Pubkey)
    (outcome : Fin 2) (h : normalizeEvidenceUri parseUrl value = .ok uri) :
    optimisticEvidenceHash rt.sha256 parseUrl role market outcome value =
      .ok (Hybrid.optimisticEvidenceHash rt (onchainDomain role) market outcome.val uri) := by
  have hdomain : Text.asBytes (domains role) = onchainDomain role := by
    cases role <;> rfl
  have houtcome : [UInt8.ofNat outcome.val] = leBytes 1 outcome.val := by
    have hsmall : outcome.val % 256 = outcome.val := Nat.mod_eq_of_lt (by omega)
    simp only [leBytes, hsmall]
  rw [optimisticEvidenceHash, h, ok_bind, hdomain, houtcome]
  rfl

/-! ## Both together -/

/-- What the client promises of a URI it returns: the program accepts it, and both sides hash the
same bytes for every role, market and outcome. -/
structure AcceptedOnChain (rt : Runtime) (parseUrl : List Char → Option Url)
    (value uri : List Char) : Prop where
  valid : validOptimisticEvidenceUri uri = true
  hash : ∀ role market outcome,
    optimisticEvidenceHash rt.sha256 parseUrl role market outcome value =
      .ok (Hybrid.optimisticEvidenceHash rt (onchainDomain role) market outcome.val uri)

/-- **Evidence URIs of the client on chain.** What the client returns for an accepted string is
accepted by the program, with the same evidence hash, exactly when the string has no space. -/
theorem acceptedOnChain_iff (rt : Runtime) (hparser : NoBareHost parseUrl)
    (h : normalizeEvidenceUri parseUrl value = .ok uri) :
    AcceptedOnChain rt parseUrl value uri ↔ ' ' ∉ value := by
  obtain ⟨rfl, haccepted⟩ := normalizeEvidenceUri_ok h
  rw [← validOptimisticEvidenceUri_iff hparser haccepted]
  exact ⟨fun hchain => hchain.valid, fun hvalid =>
    ⟨hvalid, fun role market outcome => optimisticEvidenceHash_eq rt role market outcome h⟩⟩

end

/-! ## A URI with a space -/

namespace Sample

def pageUri : List Char := "https://example.com/result".toList

def spacedUri : List Char := "https://example.com/a b".toList

/-- What the parser of the platform returns for the two URIs: it escapes the space of a path. -/
def parseUrl (value : List Char) : Option Url :=
  if value = pageUri ∨ value = spacedUri then some ⟨"example.com".toList, [], []⟩ else none

theorem noBareHost : NoBareHost parseUrl := by
  intro scheme hscheme url hurl
  simp only [bareSchemes, List.mem_cons, List.not_mem_nil, or_false] at hscheme
  rcases hscheme with rfl | rfl | rfl <;> cases hurl

end Sample

theorem acceptedOnChain_iff_page :
    AcceptedOnChain Hybrid.Sample.runtime Sample.parseUrl Sample.pageUri Sample.pageUri ↔
      ' ' ∉ Sample.pageUri :=
  acceptedOnChain_iff Hybrid.Sample.runtime Sample.noBareHost rfl

/-- The client lets the space in a path through, the program refuses it. -/
theorem space_is_refused_on_chain :
    normalizeEvidenceUri Sample.parseUrl Sample.spacedUri = .ok Sample.spacedUri ∧
      validOptimisticEvidenceUri Sample.spacedUri = false := by
  decide

end Nortia.Client
