import Nortia.Verify.Positions.Vault

/-!
# Migrating the legacy positions

The legacy store is shared by all wallets of a browser, and an unlock that migrates removes all of
it. Nothing is lost in exactly the sequences of unlocks in which every unlock that migrates finds the
positions of all other owners in their vaults.
-/

namespace Nortia.Web

open Lib

section

variable {CryptoKey Ciphertext : Type} {crypto : SubtleCrypto CryptoKey Ciphertext}
variable {keys : String → CryptoKey} {storage storage' init : LocalStorage Ciphertext}
variable {wallet owner : String} {key : CryptoKey} {iv : String} {p : PrivatePosition}

/-! ## One unlock -/

/-- An unlock by a wallet with its own key; one that fails changes nothing. -/
def UnlockStep (crypto : SubtleCrypto CryptoKey Ciphertext) (keys : String → CryptoKey)
    (storage : LocalStorage Ciphertext) (unlock : String × String)
    (storage' : LocalStorage Ciphertext) : Prop :=
  match unlockPrivatePositions crypto storage unlock.1 (keys unlock.1) unlock.2 with
  | .ok unlocked => storage' = unlocked.2
  | .error _ => storage' = storage

/-- Every wallet can open its vault. -/
def Readable (crypto : SubtleCrypto CryptoKey Ciphertext) (keys : String → CryptoKey)
    (storage : LocalStorage Ciphertext) : Prop :=
  ∀ wallet, ∃ positions, loadPrivatePositions crypto storage wallet (keys wallet) = .ok positions

/-- The unlock writes a vault and removes the legacy store. -/
def Migrates (storage : LocalStorage Ciphertext) (wallet : String) : Prop :=
  0 < (readLegacyPositions storage wallet).length ∨ (storage.vault wallet).isNone = true

/-- What a wallet loads it also opens. -/
theorem openVault_of_load {vault : Option (EncryptedVault Ciphertext)}
    {positions : List PrivatePosition} (h : loadVault crypto wallet vault key = .ok positions) :
    openVault crypto vault key = .ok positions := by
  cases vault with
  | none => exact h
  | some vault =>
    rw [loadVault] at h
    split at h
    · exact h
    · cases h

theorem readLegacyPositions_owner :
    ∀ position ∈ readLegacyPositions storage wallet, position.owner = wallet := by
  intro position hmem
  unfold readLegacyPositions at hmem
  split at hmem
  · exact parsePositions_owner position hmem
  · exact absurd hmem List.not_mem_nil

/-- **An unlock** of a readable vault either changes nothing, or adds the legacy positions of the
wallet to its vault and removes the legacy store. -/
theorem unlockStep_cases (hopens : crypto.Opens) {encrypted : List PrivatePosition}
    (hload : loadPrivatePositions crypto storage wallet (keys wallet) = .ok encrypted)
    (h : UnlockStep crypto keys storage (wallet, iv) storage') :
    (¬Migrates storage wallet ∧ storage' = storage) ∨
    (Migrates storage wallet ∧ storage'.legacy = none ∧
      (∀ other, other ≠ wallet → storage'.vault other = storage.vault other) ∧
      ∃ stored, loadPrivatePositions crypto storage' wallet (keys wallet) = .ok stored ∧
        ∀ commitment, record stored commitment =
          (record encrypted commitment).or
            (record (readLegacyPositions storage wallet) commitment)) := by
  have hopen := openVault_of_load hload
  by_cases hmigrates : 0 < (readLegacyPositions storage wallet).length ∨
      (storage.vault wallet).isNone = true
  · right
    have howner : ∀ position ∈ dedupe (encrypted ++ readLegacyPositions storage wallet),
        position.owner = wallet := by
      refine dedupe_owner fun position hmem => ?_
      rcases List.mem_append.mp hmem with hold | hlegacy
      · exact loadVault_owner hload position hold
      · exact readLegacyPositions_owner position hlegacy
    simp only [UnlockStep, unlockPrivatePositions, hopen, ok_bind, if_pos hmigrates] at h
    subst h
    refine ⟨hmigrates, rfl, fun other hother => encryptVault_vault_ne hother, _,
      load_encryptVault hopens howner, fun commitment => ?_⟩
    rw [record_dedupe, record_dedupe, record_append]
  · simp only [UnlockStep, unlockPrivatePositions, hopen, ok_bind, if_neg hmigrates] at h
    exact .inl ⟨hmigrates, h⟩

/-! ## Where a legacy position is -/

/-- A well-formed position in the legacy store that names its owner. -/
def InLegacy (storage : LocalStorage Ciphertext) (owner : String) (p : PrivatePosition) : Prop :=
  ∃ items item, storage.legacy = some (.array items) ∧ item ∈ items ∧
    item.stringField "owner" = some owner ∧ normalizePosition item owner = some p

/-- A commitment in the vault of an owner. -/
def InVault (crypto : SubtleCrypto CryptoKey Ciphertext) (keys : String → CryptoKey)
    (storage : LocalStorage Ciphertext) (owner : String) (p : PrivatePosition) : Prop :=
  ∃ stored q, loadPrivatePositions crypto storage owner (keys owner) = .ok stored ∧
    record stored p.commitment = some q

/-- Every legacy position is where it was, or in the vault of its owner. -/
def NothingLost (crypto : SubtleCrypto CryptoKey Ciphertext) (keys : String → CryptoKey)
    (init storage : LocalStorage Ciphertext) : Prop :=
  ∀ owner p, InLegacy init owner p → InLegacy storage owner p ∨ InVault crypto keys storage owner p

/-- The condition on an unlock: when it migrates, the legacy positions that name other owners are in
their vaults. -/
def OthersMigrated (crypto : SubtleCrypto CryptoKey Ciphertext) (keys : String → CryptoKey)
    (storage : LocalStorage Ciphertext) (unlock : String × String) : Prop :=
  Migrates storage unlock.1 → ∀ owner p, InLegacy storage owner p → owner ≠ unlock.1 →
    InVault crypto keys storage owner p

/-- The vaults open, and the legacy store is the first one or gone. -/
structure LegacyInv (crypto : SubtleCrypto CryptoKey Ciphertext) (keys : String → CryptoKey)
    (init storage : LocalStorage Ciphertext) : Prop where
  readable : Readable crypto keys storage
  legacy : storage.legacy = init.legacy ∨ storage.legacy = none

theorem not_inLegacy_of_none (h : storage.legacy = none) : ¬InLegacy storage owner p := by
  rintro ⟨items, item, hlegacy, -⟩
  rw [h] at hlegacy
  cases hlegacy

theorem LegacyInv.inLegacy (hI : LegacyInv crypto keys init storage)
    (h : InLegacy storage owner p) : InLegacy init owner p := by
  rcases hI.legacy with hsame | hgone
  · obtain ⟨items, item, hlegacy, hitem⟩ := h
    exact ⟨items, item, hsame ▸ hlegacy, hitem⟩
  · exact absurd h (not_inLegacy_of_none hgone)

/-- The positions that name a wallet are among those it reads. -/
theorem mem_readLegacyPositions (h : InLegacy storage wallet p) :
    p ∈ readLegacyPositions storage wallet := by
  obtain ⟨items, item, hlegacy, hmem, -, hitem⟩ := h
  rw [readLegacyPositions, hlegacy]
  exact List.mem_filterMap.mpr ⟨item, hmem, hitem⟩

theorem InVault.of_same_vault (h : InVault crypto keys storage owner p)
    (hsame : storage'.vault owner = storage.vault owner) : InVault crypto keys storage' owner p := by
  obtain ⟨stored, q, hload, hq⟩ := h
  refine ⟨stored, q, ?_, hq⟩
  rw [loadPrivatePositions, hsame]
  exact hload

/-! ## What an unlock keeps -/

theorem legacyInv_step (hopens : crypto.Opens) (hI : LegacyInv crypto keys init storage)
    {unlock : String × String} (h : UnlockStep crypto keys storage unlock storage') :
    LegacyInv crypto keys init storage' := by
  obtain ⟨wallet, iv⟩ := unlock
  obtain ⟨encrypted, hload⟩ := hI.readable wallet
  rcases unlockStep_cases hopens hload h with ⟨-, rfl⟩ | ⟨-, hgone, hothers, stored, hstored, -⟩
  · exact hI
  · refine ⟨fun other => ?_, .inr hgone⟩
    by_cases hother : other = wallet
    · subst hother
      exact ⟨stored, hstored⟩
    · obtain ⟨positions, hpositions⟩ := hI.readable other
      refine ⟨positions, ?_⟩
      rw [loadPrivatePositions, hothers other hother]
      exact hpositions

/-- **An unlock loses nothing exactly when**, if it migrates, the others have migrated. -/
theorem nothingLost_step (hopens : crypto.Opens) (hI : LegacyInv crypto keys init storage)
    (hkept : NothingLost crypto keys init storage) {unlock : String × String}
    (h : UnlockStep crypto keys storage unlock storage') :
    NothingLost crypto keys init storage' ↔ OthersMigrated crypto keys storage unlock := by
  obtain ⟨wallet, iv⟩ := unlock
  obtain ⟨encrypted, hload⟩ := hI.readable wallet
  rcases unlockStep_cases hopens hload h with
    ⟨hquiet, rfl⟩ | ⟨hmigrates, hgone, hothers, stored, hstored, hrecords⟩
  · exact iff_of_true hkept fun hmigrates => absurd hmigrates hquiet
  constructor
  · intro hkept' _ owner p hp hother
    rcases hkept' owner p (hI.inLegacy hp) with hlegacy | hvault
    · exact absurd hlegacy (not_inLegacy_of_none hgone)
    · exact hvault.of_same_vault (hothers owner hother).symm
  · intro hmigrated owner p hp
    right
    by_cases hother : owner = wallet
    · subst hother
      -- the owner's own positions are in the vault it wrote
      have hsome : (record stored p.commitment).isSome = true := by
        rw [hrecords, Option.isSome_or, Bool.or_eq_true]
        rcases hkept owner p hp with hlegacy | ⟨stored', q, hload', hq⟩
        · exact .inr (record_isSome.mpr ⟨p, mem_readLegacyPositions hlegacy, rfl⟩)
        · obtain rfl := Except.ok.inj (hload.symm.trans hload')
          exact .inl (hq ▸ rfl)
      obtain ⟨q, hq⟩ := Option.isSome_iff_exists.mp hsome
      exact ⟨stored, q, hstored, hq⟩
    · rcases hkept owner p hp with hlegacy | hvault
      · exact (hmigrated hmigrates owner p hlegacy hother).of_same_vault (hothers owner hother)
      · exact hvault.of_same_vault (hothers owner hother)

/-! ## Over every sequence of unlocks -/

/-- **No legacy position is lost throughout a sequence of unlocks exactly when** every unlock that
migrates finds the positions of the other owners in their vaults. -/
theorem nothingLost_iff (hopens : crypto.Opens) (hreadable : Readable crypto keys init)
    (tr : List (String × String)) (storage : LocalStorage Ciphertext) :
    Run.Throughout (UnlockStep crypto keys) (NothingLost crypto keys init) init tr storage ↔
      Run.EveryStep (UnlockStep crypto keys) (OthersMigrated crypto keys) init tr storage :=
  Run.throughout_iff_everyStep_of (I := LegacyInv crypto keys init)
    (fun _ _ hp => .inl hp) ⟨hreadable, .inl rfl⟩
    (fun _ _ _ _ hI hstep => legacyInv_step hopens hI hstep)
    fun _ _ _ hkept hI hstep => nothingLost_step hopens hI hkept hstep

end

/-! ### A wallet without legacy positions -/

namespace Sample

/-- A browser that holds one legacy position, of Alice. -/
def legacyStore : LocalStorage (Nat × String × String × Json) where
  vault := fun _ => none
  legacy := some (.array [(prepared alice "0x01").toJson])

/-- The vault Bob's unlock writes. -/
def afterBob : LocalStorage (Nat × String × String × Json) :=
  { encryptVault crypto legacyStore "bob" [] 2 "a" with legacy := none }

def keysOf (wallet : String) : Nat := if wallet = alice then 1 else 2

theorem legacyStore_readable : Readable crypto keysOf legacyStore := fun _ => ⟨[], rfl⟩

theorem legacy_inLegacy : InLegacy legacyStore alice (prepared alice "0x01") :=
  ⟨_, _, rfl, List.mem_singleton_self _, rfl, by rw [normalizePosition_toJson]; exact if_pos rfl⟩

theorem bob_unlocks : UnlockStep crypto keysOf legacyStore ("bob", "a") afterBob := by
  have hnone : normalizePosition (prepared alice "0x01").toJson "bob" = none := by
    rw [normalizePosition_toJson]
    exact if_neg (by decide)
  have hlegacy : readLegacyPositions legacyStore "bob" = [] := by
    simp only [readLegacyPositions, legacyStore, parsePositions, List.filterMap_cons, hnone,
      List.filterMap_nil]
  simp only [UnlockStep, unlockPrivatePositions, hlegacy]
  rfl

end Sample

open Nortia.Web.Sample in
/-- The theorem at one unlock by a wallet without a vault. -/
theorem nothingLost_iff_bob :
    Run.Throughout (UnlockStep crypto keysOf) (NothingLost crypto keysOf legacyStore) legacyStore
        [("bob", "a")] afterBob ↔
      Run.EveryStep (UnlockStep crypto keysOf) (OthersMigrated crypto keysOf) legacyStore
        [("bob", "a")] afterBob :=
  nothingLost_iff crypto_opens legacyStore_readable [("bob", "a")] afterBob

open Nortia.Web.Sample in
/-- Bob has no legacy position and no vault; his unlock removes the position of Alice. -/
theorem unlock_loses_a_position_of_another : ∃ storage,
    Run (UnlockStep crypto keysOf) legacyStore [("bob", "a")] storage ∧
      InLegacy legacyStore alice (prepared alice "0x01") ∧
      ¬NothingLost crypto keysOf legacyStore storage := by
  refine ⟨afterBob, .single bob_unlocks, legacy_inLegacy, fun hkept => ?_⟩
  rcases hkept alice _ legacy_inLegacy with hlegacy | ⟨stored, q, hload, hq⟩
  · exact not_inLegacy_of_none rfl hlegacy
  · have hempty : loadPrivatePositions crypto afterBob alice (keysOf alice) = .ok [] := rfl
    obtain rfl := Except.ok.inj (hempty.symm.trans hload)
    cases hq

end Nortia.Web

