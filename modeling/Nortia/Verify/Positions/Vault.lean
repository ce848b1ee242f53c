import Nortia.Web.Positions

/-!
# What a vault holds

A position survives its round trip through JSON and the cipher, so what is read from a vault is what
was written to it, first record of each commitment first.
-/

namespace Nortia.Web

open Lib

/-! ## Round trips -/

section

variable (position : PrivatePosition)

theorem toJson_version : isOne (position.toJson.field "version") = true := rfl

theorem toJson_side : parseSide position.toJson = some position.side := by
  have hside : position.toJson.stringField "side" = some position.side.text := rfl
  rw [parseSide, hside]
  cases position.side <;> rfl

theorem toJson_amount : parseAmount position.toJson = some position.amount := rfl

/-- The fields that nothing checks are read as they were written. -/
theorem toJson_unchecked :
    position.toJson.field "marketAddress" = position.marketAddress ∧
    position.toJson.field "transactionSignature" = position.transactionSignature ∧
    position.toJson.field "settlementSignature" = position.settlementSignature ∧
    position.toJson.field "committeeShares" = position.committeeShares ∧
    position.toJson.field "createdAt" = position.createdAt ∧
    position.toJson.field "status" = position.status := by
  refine ⟨?_, ?_, ?_, ?_, ?_, ?_⟩
  all_goals
    simp [PrivatePosition.toJson, Json.field, List.lookup_cons, Json.lookup_optional_ne,
      Json.lookup_last_optional_ne]

/-- **A position is read back by its owner**, and by nobody else. -/
theorem normalizePosition_toJson (owner : String) :
    normalizePosition position.toJson owner =
      if position.owner = owner then some position else none := by
  obtain ⟨haddress, htransaction, hsettlement, hshares, hcreated, hstatus⟩ :=
    toJson_unchecked position
  have howner : position.toJson.stringField "owner" = some position.owner := rfl
  have hmarket : position.toJson.stringField "marketId" = some position.marketId := rfl
  have hquestion : position.toJson.stringField "question" = some position.question := rfl
  have hcommitment : position.toJson.stringField "commitment" = some position.commitment := rfl
  have hsecret : position.toJson.stringField "secret" = some position.secret := rfl
  have hnullifier : position.toJson.stringField "nullifier" = some position.nullifier := rfl
  have hstake : position.toJson.stringField "stakeAmount" = some position.stakeAmount := rfl
  by_cases h : position.owner = owner
  · dsimp only [normalizePosition, guard]
    simp only [toJson_version, toJson_side, toJson_amount, howner, hmarket,
      hquestion, hcommitment, hsecret, hnullifier, hstake, haddress, htransaction, hsettlement,
      hshares, hcreated, hstatus, Option.getD_some, h, Option.pure_def,
      Option.bind_eq_bind, Option.bind_some, dif_pos position.decimal, if_true]
    cases position
    cases h
    rfl
  · dsimp only [normalizePosition, guard]
    simp only [toJson_version, howner, Option.getD_some, h,
      Option.pure_def, Option.bind_eq_bind, Option.bind_some, if_true, if_false]
    rfl

end

/-- What is read for an owner is theirs. -/
theorem normalizePosition_owner {value : Json} {owner : String} {position : PrivatePosition}
    (h : normalizePosition value owner = some position) : position.owner = owner := by
  by_cases howner : (value.stringField "owner").getD owner = owner
  · dsimp only [normalizePosition, guard] at h
    simp only [Option.bind_eq_bind, Option.bind_eq_some_iff] at h
    obtain ⟨-, -, -, -, _, -, _, -, _, -, _, -, _, -, _, -, _, -, h⟩ := h
    split at h
    · cases h
      exact howner
    · cases h
  · dsimp only [normalizePosition, guard] at h
    simp only [howner, if_false] at h
    cases hversion : isOne (value.field "version") <;> rw [hversion] at h <;> cases h

theorem parsePositions_owner {value : Json} {owner : String} :
    ∀ position ∈ parsePositions value owner, position.owner = owner := by
  intro position hmem
  unfold parsePositions at hmem
  split at hmem
  · obtain ⟨item, -, hitem⟩ := List.mem_filterMap.mp hmem
    exact normalizePosition_owner hitem
  · exact absurd hmem List.not_mem_nil

/-- The positions of one owner are read back as they were written. -/
theorem parsePositions_toJson {positions : List PrivatePosition} {owner : String}
    (h : ∀ position ∈ positions, position.owner = owner) :
    parsePositions (.array (positions.map PrivatePosition.toJson)) owner = positions := by
  induction positions with
  | nil => rfl
  | cons position positions ih =>
    have hread : normalizePosition position.toJson owner = some position := by
      rw [normalizePosition_toJson, if_pos (h position List.mem_cons_self)]
    have hrest := ih fun other hother => h other (List.mem_cons_of_mem _ hother)
    simp only [parsePositions, List.map_cons] at hrest ⊢
    rw [List.filterMap_cons, hread, hrest]

/-! ## The table of a list of positions -/

@[simp] theorem record_dedupe (positions : List PrivatePosition) (commitment : String) :
    record (dedupe positions) commitment = record positions commitment :=
  Keyed.find_dedupe positions commitment

theorem record_append (positions others : List PrivatePosition) (commitment : String) :
    record (positions ++ others) commitment =
      (record positions commitment).or (record others commitment) :=
  Keyed.find_append

theorem record_some {positions : List PrivatePosition} {commitment : String}
    {position : PrivatePosition} (h : record positions commitment = some position) :
    position ∈ positions ∧ position.commitment = commitment :=
  Keyed.find_some h

theorem record_isSome {positions : List PrivatePosition} {commitment : String} :
    (record positions commitment).isSome = true ↔
      ∃ position ∈ positions, position.commitment = commitment :=
  Keyed.find_isSome

/-- A save sets the record of its commitment and keeps the others. -/
theorem record_savedPositions (position : PrivatePosition) (existing : List PrivatePosition)
    (commitment : String) :
    record (savedPositions position existing) commitment =
      if position.commitment = commitment then some position else record existing commitment := by
  rw [record, savedPositions, Keyed.find_cons]
  split
  · rfl
  · next hne => exact Keyed.find_filter_ne (Ne.symm hne)

theorem dedupe_owner {positions : List PrivatePosition} {owner : String}
    (h : ∀ position ∈ positions, position.owner = owner) :
    ∀ position ∈ dedupe positions, position.owner = owner :=
  fun position hmem => h position (Keyed.mem_of_mem_dedupe hmem)

theorem savedPositions_owner {position : PrivatePosition} {existing : List PrivatePosition}
    {owner : String} (hposition : position.owner = owner)
    (hexisting : ∀ item ∈ existing, item.owner = owner) :
    ∀ item ∈ savedPositions position existing, item.owner = owner := by
  intro item hmem
  rcases List.mem_cons.mp hmem with rfl | hrest
  · exact hposition
  · exact hexisting item (List.mem_of_mem_filter hrest)

/-! ## The vault -/

section

variable {CryptoKey Ciphertext : Type} {crypto : SubtleCrypto CryptoKey Ciphertext}
variable {storage : LocalStorage Ciphertext} {wallet : String} {key : CryptoKey}
variable {positions : List PrivatePosition} {iv : String}

/-- A sealed vault holds the first record of each commitment. -/
theorem decryptVault_sealVault (hopens : crypto.Opens)
    (howner : ∀ position ∈ positions, position.owner = wallet) :
    decryptVault crypto (sealVault crypto wallet positions key iv) key = .ok (dedupe positions) := by
  simp only [decryptVault, sealVault, hopens key iv]
  rw [parsePositions_toJson (dedupe_owner howner)]

theorem loadVault_sealVault (hopens : crypto.Opens)
    (howner : ∀ position ∈ positions, position.owner = wallet) :
    loadVault crypto wallet (some (sealVault crypto wallet positions key iv)) key =
      .ok (dedupe positions) := by
  rw [← decryptVault_sealVault hopens howner]
  exact if_pos rfl

@[simp] theorem encryptVault_vault_self : (encryptVault crypto storage wallet positions key iv).vault
    wallet = some (sealVault crypto wallet positions key iv) :=
  Function.update_self wallet _ _

theorem encryptVault_vault_ne {other : String} (h : other ≠ wallet) :
    (encryptVault crypto storage wallet positions key iv).vault other = storage.vault other :=
  Function.update_of_ne h _ _

theorem load_encryptVault (hopens : crypto.Opens)
    (howner : ∀ position ∈ positions, position.owner = wallet) :
    loadPrivatePositions crypto (encryptVault crypto storage wallet positions key iv) wallet key =
      .ok (dedupe positions) := by
  rw [loadPrivatePositions, encryptVault_vault_self]
  exact loadVault_sealVault hopens howner

theorem decryptVault_owner {vault : EncryptedVault Ciphertext}
    (h : decryptVault crypto vault key = .ok positions) :
    ∀ position ∈ positions, position.owner = vault.wallet := by
  unfold decryptVault at h
  split at h
  · cases h
    exact parsePositions_owner
  · cases h

/-- What a wallet loads is its own. -/
theorem loadVault_owner {vault : Option (EncryptedVault Ciphertext)}
    (h : loadVault crypto wallet vault key = .ok positions) :
    ∀ position ∈ positions, position.owner = wallet := by
  unfold loadVault at h
  split at h
  · cases h
    exact fun position hmem => absurd hmem List.not_mem_nil
  · split at h
    · next hwallet => exact hwallet ▸ decryptVault_owner h
    · cases h

theorem savePrivatePosition_of_load {position : PrivatePosition} {existing : List PrivatePosition}
    (hload : loadPrivatePositions crypto storage position.owner key = .ok existing) :
    savePrivatePosition crypto storage position key iv =
      .ok (encryptVault crypto storage position.owner (savedPositions position existing) key iv) := by
  rw [savePrivatePosition, hload, ok_bind]

/-- **A save** leaves the saved positions in the vault. -/
theorem savePrivatePosition_ok {storage' : LocalStorage Ciphertext} {position : PrivatePosition}
    (hopens : crypto.Opens)
    (h : savePrivatePosition crypto storage position key iv = .ok storage') :
    ∃ existing, loadPrivatePositions crypto storage position.owner key = .ok existing ∧
      loadPrivatePositions crypto storage' position.owner key =
        .ok (dedupe (savedPositions position existing)) := by
  obtain ⟨existing, hload, h⟩ := bind_eq_ok.mp h
  cases h
  exact ⟨existing, hload, load_encryptVault hopens
    (savedPositions_owner rfl (loadVault_owner hload))⟩

end

/-! ## A cipher and an order to run with -/

namespace Sample

/-- A cipher that opens what it sealed, under the same key, vector and data only. -/
def crypto : SubtleCrypto Nat (Nat × String × String × Json) where
  encrypt key iv data text := (key, iv, data, text)
  decrypt key iv data sealed :=
    if sealed.1 = key ∧ sealed.2.1 = iv ∧ sealed.2.2.1 = data then some sealed.2.2.2 else none

theorem crypto_opens : crypto.Opens := fun _ _ _ _ => if_pos ⟨rfl, rfl, rfl⟩

def noVault : LocalStorage (Nat × String × String × Json) where
  vault := fun _ => none
  legacy := none

def alice : String := "alice"

/-- An order that is prepared and not yet sent. -/
def prepared (owner commitment : String) : PrivatePosition where
  owner := owner
  marketId := "7"
  question := "Will it rain?"
  side := .yes
  amount := "1000000"
  stakeAmount := "1000000"
  commitment := commitment
  secret := "1"
  nullifier := "2"
  marketAddress := none
  transactionSignature := none
  settlementSignature := none
  committeeShares := none
  createdAt := none
  status := some (.string PositionStatus.prepared.text)
  decimal := by decide

end Sample

end Nortia.Web
