import Nortia.Verify.Positions.Vault

/-!
# Importing a backup

An import keeps every commitment of the backup and of the vault, and the record of the backup wins.
A vault only advances, so the import loses nothing in exactly the cases in which no position of the
backup has advanced since it was exported.
-/

namespace Nortia.Web

open Lib

/-! ## Records that advance -/

/-- The statuses an order can reach after another one. -/
def PositionStatus.Before : PositionStatus → PositionStatus → Bool
  | .prepared, next => next ≠ .prepared
  | .deliveryPending, next => next ≠ .prepared ∧ next ≠ .deliveryPending
  | .open, .claimable | .open, .claimed | .open, .refundable | .open, .refunded => true
  | .claimable, .claimed => true
  | .refundable, .refunded => true
  | _, _ => false

theorem PositionStatus.before_irrefl (status : PositionStatus) : status.Before status = false := by
  cases status <;> rfl

theorem PositionStatus.before_trans {a b c : PositionStatus} (hab : a.Before b = true)
    (hbc : b.Before c = true) : a.Before c = true := by
  revert hab hbc
  cases a <;> cases b <;> cases c <;> decide

theorem PositionStatus.text_injective {a b : PositionStatus} (h : a.text = b.text) : a = b := by
  revert h
  cases a <;> cases b <;> decide

/-- A status that stays or moves forward. -/
inductive Forward : Option Json → Option Json → Prop
  | same (status : Option Json) : Forward status status
  | moved {before after : PositionStatus} (h : before.Before after = true) :
    Forward (some (.string before.text)) (some (.string after.text))

theorem Forward.trans {a b c : Option Json} (hab : Forward a b) (hbc : Forward b c) :
    Forward a c := by
  cases hab with
  | same => exact hbc
  | @moved before middle hfirst =>
    generalize hstart : some (Json.string middle.text) = start at hbc
    cases hbc with
    | same =>
      subst hstart
      exact .moved hfirst
    | @moved middle' after hsecond =>
      rw [Option.some.injEq, Json.string.injEq] at hstart
      obtain rfl := PositionStatus.text_injective hstart
      exact .moved (PositionStatus.before_trans hfirst hsecond)

theorem Forward.antisymm {a b : Option Json} (hab : Forward a b) (hba : Forward b a) : a = b := by
  cases hab with
  | same => rfl
  | @moved before after hforth =>
    generalize hstart : some (Json.string after.text) = start at hba
    generalize hend : some (Json.string before.text) = stop at hba
    cases hba with
    | same => rfl
    | @moved after' before' hback =>
      rw [Option.some.injEq, Json.string.injEq] at hstart hend
      obtain rfl := PositionStatus.text_injective hstart
      obtain rfl := PositionStatus.text_injective hend
      have hcycle := PositionStatus.before_trans hforth hback
      rw [PositionStatus.before_irrefl] at hcycle
      cases hcycle

/-- A later record of the same order: a signature is added, or the status moves forward, and with
it the shares may be gone. -/
structure Advances (before after : PrivatePosition) : Prop where
  owner : after.owner = before.owner
  marketId : after.marketId = before.marketId
  question : after.question = before.question
  side : after.side = before.side
  amount : after.amount = before.amount
  stakeAmount : after.stakeAmount = before.stakeAmount
  commitment : after.commitment = before.commitment
  secret : after.secret = before.secret
  nullifier : after.nullifier = before.nullifier
  marketAddress : after.marketAddress = before.marketAddress
  createdAt : after.createdAt = before.createdAt
  transactionSignature : before.transactionSignature = none ∨
    after.transactionSignature = before.transactionSignature
  settlementSignature : before.settlementSignature = none ∨
    after.settlementSignature = before.settlementSignature
  status : Forward before.status after.status
  committeeShares : after.committeeShares = before.committeeShares ∨ after.status ≠ before.status

theorem Advances.refl (position : PrivatePosition) : Advances position position :=
  ⟨rfl, rfl, rfl, rfl, rfl, rfl, rfl, rfl, rfl, rfl, rfl, .inr rfl, .inr rfl, .same _, .inl rfl⟩

/-- A field that is only ever added keeps what it holds. -/
private theorem added_trans {a b c : Option Json} (hab : a = none ∨ b = a) (hbc : b = none ∨ c = b) :
    a = none ∨ c = a := by
  rcases hab with rfl | rfl
  · exact .inl rfl
  · exact hbc

private theorem added_antisymm {a b : Option Json} (hab : a = none ∨ b = a)
    (hba : b = none ∨ a = b) : a = b := by
  rcases hab with rfl | rfl
  · rcases hba with rfl | rfl <;> rfl
  · rfl

variable {p q r : PrivatePosition}

theorem Advances.trans (hpq : Advances p q) (hqr : Advances q r) : Advances p r where
  owner := hqr.owner.trans hpq.owner
  marketId := hqr.marketId.trans hpq.marketId
  question := hqr.question.trans hpq.question
  side := hqr.side.trans hpq.side
  amount := hqr.amount.trans hpq.amount
  stakeAmount := hqr.stakeAmount.trans hpq.stakeAmount
  commitment := hqr.commitment.trans hpq.commitment
  secret := hqr.secret.trans hpq.secret
  nullifier := hqr.nullifier.trans hpq.nullifier
  marketAddress := hqr.marketAddress.trans hpq.marketAddress
  createdAt := hqr.createdAt.trans hpq.createdAt
  transactionSignature := added_trans hpq.transactionSignature hqr.transactionSignature
  settlementSignature := added_trans hpq.settlementSignature hqr.settlementSignature
  status := hpq.status.trans hqr.status
  committeeShares := by
    by_cases hreturn : r.status = p.status
    · -- a status that comes back has not moved in between
      have hmiddle : p.status = q.status := hpq.status.antisymm (hreturn ▸ hqr.status)
      have hfirst := hpq.committeeShares.resolve_right (not_not_intro hmiddle.symm)
      have hsecond := hqr.committeeShares.resolve_right
        (not_not_intro (hreturn.trans hmiddle))
      exact .inl (hsecond.trans hfirst)
    · exact .inr hreturn

/-- Records that advance to each other are the same. -/
theorem Advances.antisymm (hpq : Advances p q) (hqp : Advances q p) : p = q := by
  have hstatus := hpq.status.antisymm hqp.status
  have hshares := hpq.committeeShares.resolve_right (not_not_intro hstatus.symm)
  have htransaction := added_antisymm hpq.transactionSignature hqp.transactionSignature
  have hsettlement := added_antisymm hpq.settlementSignature hqp.settlementSignature
  have howner := hpq.owner
  have hmarketId := hpq.marketId
  have hquestion := hpq.question
  have hside := hpq.side
  have hamount := hpq.amount
  have hstake := hpq.stakeAmount
  have hcommitment := hpq.commitment
  have hsecret := hpq.secret
  have hnullifier := hpq.nullifier
  have haddress := hpq.marketAddress
  have hcreated := hpq.createdAt
  cases p
  cases q
  simp only at *
  subst_vars
  rfl

/-! ## A vault that only advances -/

section

variable {CryptoKey Ciphertext : Type} {crypto : SubtleCrypto CryptoKey Ciphertext}
variable {storage storage' : LocalStorage Ciphertext} {wallet : String} {key : CryptoKey}

/-- A save, under an initialisation vector, of a record no older than the one in the vault. -/
def AdvancingSave (crypto : SubtleCrypto CryptoKey Ciphertext) (wallet : String) (key : CryptoKey)
    (storage : LocalStorage Ciphertext) (save : PrivatePosition × String)
    (storage' : LocalStorage Ciphertext) : Prop :=
  save.1.owner = wallet ∧ savePrivatePosition crypto storage save.1 key save.2 = .ok storage' ∧
    ∀ existing, loadPrivatePositions crypto storage wallet key = .ok existing →
      ∀ old, record existing save.1.commitment = some old → Advances old save.1

/-- Every record of the first list has become one that advances it. -/
def AllAdvance (before after : List PrivatePosition) : Prop :=
  ∀ commitment p, record before commitment = some p →
    ∃ q, record after commitment = some q ∧ Advances p q

theorem advancingSave_allAdvance (hopens : crypto.Opens) {save : PrivatePosition × String}
    (h : AdvancingSave crypto wallet key storage save storage') :
    ∃ existing after, loadPrivatePositions crypto storage wallet key = .ok existing ∧
      loadPrivatePositions crypto storage' wallet key = .ok after ∧ AllAdvance existing after := by
  obtain ⟨rfl, hsave, hadvances⟩ := h
  obtain ⟨existing, hload, hafter⟩ := savePrivatePosition_ok hopens hsave
  refine ⟨existing, _, hload, hafter, fun commitment p hp => ?_⟩
  rw [record_dedupe, record_savedPositions]
  split
  · next hsame =>
    subst hsame
    exact ⟨save.1, rfl, hadvances existing hload p hp⟩
  · exact ⟨p, hp, .refl p⟩

/-- **A run of saves** only advances the records of the vault. -/
theorem run_allAdvance (hopens : crypto.Opens) {tr : List (PrivatePosition × String)}
    {before : List PrivatePosition} (hrun : Run (AdvancingSave crypto wallet key) storage tr storage')
    (hload : loadPrivatePositions crypto storage wallet key = .ok before) :
    ∃ after, loadPrivatePositions crypto storage' wallet key = .ok after ∧
      AllAdvance before after := by
  induction hrun with
  | nil => exact ⟨before, hload, fun _ p hp => ⟨p, hp, .refl p⟩⟩
  | snoc _ hstep ih =>
    obtain ⟨middle, hmiddle, hfirst⟩ := ih
    obtain ⟨existing, after, hexisting, hafter, hsecond⟩ := advancingSave_allAdvance hopens hstep
    obtain rfl := Except.ok.inj (hexisting.symm.trans hmiddle)
    refine ⟨after, hafter, fun commitment p hp => ?_⟩
    obtain ⟨q, hq, hpq⟩ := hfirst commitment p hp
    obtain ⟨r, hr, hqr⟩ := hsecond commitment q hq
    exact ⟨r, hr, hpq.trans hqr⟩

/-! ## Import -/

/-- What an export returns holds what the vault held, and so does the storage after it. -/
theorem exportPrivatePositionVault_ok (hopens : crypto.Opens) {iv : String}
    {backup : Option (EncryptedVault Ciphertext)} {positions : List PrivatePosition}
    (hload : loadPrivatePositions crypto storage wallet key = .ok positions)
    (h : exportPrivatePositionVault crypto storage wallet key iv = .ok (backup, storage')) :
    backup = some (sealVault crypto wallet positions key iv) ∧
      loadPrivatePositions crypto storage' wallet key = .ok (dedupe positions) := by
  obtain ⟨_, hload', h⟩ := bind_eq_ok.mp h
  obtain rfl := Except.ok.inj (hload.symm.trans hload')
  dsimp only at h
  rw [encryptVault_vault_self, Except.ok.injEq, Prod.mk.injEq] at h
  obtain ⟨rfl, rfl⟩ := h
  exact ⟨rfl, load_encryptVault hopens (loadVault_owner hload)⟩

/-- An import of a sealed backup merges it with the vault. -/
theorem importPrivatePositionVault_sealed (hopens : crypto.Opens) {saved existing : List PrivatePosition}
    (iv : String) (hsaved : ∀ position ∈ saved, position.owner = wallet)
    (hload : loadPrivatePositions crypto storage wallet key = .ok existing) (iv' : String) :
    ∃ storage', importPrivatePositionVault crypto storage wallet key
        (some (sealVault crypto wallet saved key iv)) iv' =
          .ok (dedupe (dedupe saved ++ existing), storage') ∧
      loadPrivatePositions crypto storage' wallet key =
        .ok (dedupe (dedupe saved ++ existing)) := by
  have howner : ∀ position ∈ dedupe (dedupe saved ++ existing), position.owner = wallet := by
    refine dedupe_owner fun position hmem => ?_
    rcases List.mem_append.mp hmem with hbackup | hexisting
    · exact dedupe_owner hsaved position hbackup
    · exact loadVault_owner hload position hexisting
  have hagain : dedupe (dedupe (dedupe saved ++ existing)) = dedupe (dedupe saved ++ existing) :=
    Keyed.dedupe_dedupe _
  refine ⟨encryptVault crypto storage wallet (dedupe (dedupe saved ++ existing)) key iv', ?_, ?_⟩
  · have hwallet : (sealVault crypto wallet saved key iv).wallet = wallet := rfl
    simp only [importPrivatePositionVault, okOr, require_pos hwallet,
      decryptVault_sealVault hopens hsaved, hload, ok_bind]
  · rw [load_encryptVault hopens howner, hagain]

/-- What an import should do: it yields a vault with every commitment of both and with records no
older than those of the vault, it changes no record, and a second import changes nothing. -/
structure LosesNothing (crypto : SubtleCrypto CryptoKey Ciphertext)
    (storage : LocalStorage Ciphertext) (wallet : String) (key : CryptoKey)
    (backup : Option (EncryptedVault Ciphertext)) (saved existing : List PrivatePosition)
    (iv : String) : Prop where
  imports : ∃ merged storage',
    importPrivatePositionVault crypto storage wallet key backup iv = .ok (merged, storage') ∧
    loadPrivatePositions crypto storage' wallet key = .ok merged ∧
    (∀ commitment, (record saved commitment).isSome = true ∨
      (record existing commitment).isSome = true → (record merged commitment).isSome = true) ∧
    AllAdvance existing merged ∧
    (∀ commitment, record merged commitment = record existing commitment) ∧
    ∀ iv', ∃ storage'', importPrivatePositionVault crypto storage' wallet key backup iv' =
        .ok (merged, storage'') ∧
      loadPrivatePositions crypto storage'' wallet key = .ok merged

/-- For a vault that only advanced since the backup was sealed. -/
theorem losesNothing_iff (hopens : crypto.Opens) {current : LocalStorage Ciphertext}
    {saved existing : List PrivatePosition} {iv : String}
    (howner : ∀ position ∈ saved, position.owner = wallet)
    (hexisting : loadPrivatePositions crypto current wallet key = .ok existing)
    (hadvance : AllAdvance saved existing) (iv' : String) :
    LosesNothing crypto current wallet key (some (sealVault crypto wallet saved key iv)) saved
        existing iv' ↔
      ∀ commitment p, record saved commitment = some p → record existing commitment = some p := by
  obtain ⟨storage', himport, hload⟩ :=
    importPrivatePositionVault_sealed hopens iv howner hexisting iv'
  have hmerged : ∀ commitment, record (dedupe (dedupe saved ++ existing)) commitment =
      (record saved commitment).or (record existing commitment) := by
    intro commitment
    rw [record_dedupe, record_append, record_dedupe]
  constructor
  · rintro ⟨merged, storage'', himport', -, -, hkept, -⟩ commitment p hp
    rw [himport, Except.ok.injEq, Prod.mk.injEq] at himport'
    obtain ⟨rfl, rfl⟩ := himport'
    -- the current record advances the backup's, and the merged one is the backup's
    obtain ⟨q, hq, hpq⟩ := hadvance commitment p hp
    obtain ⟨r, hr, hqr⟩ := hkept commitment q hq
    rw [hmerged, hp, Option.some_or, Option.some.injEq] at hr
    subst hr
    rw [hq, hqr.antisymm hpq]
  · intro hsame
    have hrecords : ∀ commitment, record (dedupe (dedupe saved ++ existing)) commitment =
        record existing commitment := by
      intro commitment
      rw [hmerged]
      cases hp : record saved commitment with
      | none => rfl
      | some p => rw [Option.some_or, hsame commitment p hp]
    refine ⟨_, storage', himport, hload, fun commitment hsome => ?_, fun commitment p hp => ?_,
      hrecords, fun iv'' => ?_⟩
    · rw [hmerged, Option.isSome_or, Bool.or_eq_true]
      exact hsome
    · exact ⟨p, (hrecords commitment).trans hp, .refl p⟩
    · obtain ⟨again, hagain, hloaded⟩ :=
        importPrivatePositionVault_sealed hopens iv howner hload iv''
      have hstable : dedupe (dedupe saved ++ dedupe (dedupe saved ++ existing)) =
          dedupe (dedupe saved ++ existing) := Keyed.dedupe_append_dedupe _ _
      rw [hstable] at hagain hloaded
      exact ⟨again, hagain, hloaded⟩

/-- **An import loses nothing exactly when** every record of the backup is still the record of its
commitment: for every vault, every backup exported from it and every run of saves since. -/
theorem import_loses_nothing_iff (hopens : crypto.Opens) {start exported resumed current :
    LocalStorage Ciphertext} {positions : List PrivatePosition}
    {before after : List (PrivatePosition × String)} {backup : Option (EncryptedVault Ciphertext)}
    {iv : String} (hstart : loadPrivatePositions crypto start wallet key = .ok positions)
    (hbefore : Run (AdvancingSave crypto wallet key) start before exported)
    (hexport : exportPrivatePositionVault crypto exported wallet key iv = .ok (backup, resumed))
    (hafter : Run (AdvancingSave crypto wallet key) resumed after current) (iv' : String) :
    ∃ saved existing, loadPrivatePositions crypto exported wallet key = .ok saved ∧
      loadPrivatePositions crypto current wallet key = .ok existing ∧
      (LosesNothing crypto current wallet key backup saved existing iv' ↔
        ∀ commitment p, record saved commitment = some p →
          record existing commitment = some p) := by
  obtain ⟨saved, hsaved, -⟩ := run_allAdvance hopens hbefore hstart
  obtain ⟨rfl, hresumed⟩ := exportPrivatePositionVault_ok hopens hsaved hexport
  obtain ⟨existing, hexisting, hadvance⟩ := run_allAdvance hopens hafter hresumed
  refine ⟨saved, existing, hsaved, hexisting, ?_⟩
  refine losesNothing_iff hopens (loadVault_owner hsaved) hexisting (fun commitment p hp => ?_) iv'
  exact hadvance commitment p (by rw [record_dedupe, hp])

end

/-! ## A backup of an order that was placed since -/

namespace Sample

/-- The same order once it is placed. -/
def placed (owner commitment : String) : PrivatePosition :=
  { prepared owner commitment with
    transactionSignature := some (.string "5j7s")
    status := some (.string PositionStatus.open.text) }

theorem prepared_advances (owner commitment : String) :
    Advances (prepared owner commitment) (placed owner commitment) :=
  ⟨rfl, rfl, rfl, rfl, rfl, rfl, rfl, rfl, rfl, rfl, rfl, .inl rfl, .inr rfl,
    .moved (by decide), .inl rfl⟩

def exported : LocalStorage (Nat × String × String × Json) :=
  encryptVault crypto noVault alice (savedPositions (prepared alice "0x01") []) 1 "a"

def resumed : LocalStorage (Nat × String × String × Json) :=
  encryptVault crypto exported alice [prepared alice "0x01"] 1 "b"

def current : LocalStorage (Nat × String × String × Json) :=
  encryptVault crypto resumed alice
    (savedPositions (placed alice "0x01") [prepared alice "0x01"]) 1 "c"

theorem load_exported : loadPrivatePositions crypto exported alice 1 =
    .ok [prepared alice "0x01"] :=
  load_encryptVault crypto_opens fun position hmem => by rw [List.mem_singleton.mp hmem]; rfl

theorem load_resumed : loadPrivatePositions crypto resumed alice 1 =
    .ok [prepared alice "0x01"] :=
  load_encryptVault crypto_opens fun position hmem => by rw [List.mem_singleton.mp hmem]; rfl

theorem load_current : loadPrivatePositions crypto current alice 1 =
    .ok [placed alice "0x01"] :=
  load_encryptVault crypto_opens (savedPositions_owner rfl (loadVault_owner load_resumed))

theorem before_export : Run (AdvancingSave crypto alice 1) noVault [(prepared alice "0x01", "a")]
    exported := by
  refine .single ⟨rfl, savePrivatePosition_of_load rfl, fun existing hload old hold => ?_⟩
  cases hload
  cases hold

theorem export_exported : exportPrivatePositionVault crypto exported alice 1 "b" =
    .ok (some (sealVault crypto alice [prepared alice "0x01"] 1 "b"), resumed) := by
  rw [exportPrivatePositionVault, load_exported, ok_bind]
  dsimp only
  rw [encryptVault_vault_self, resumed]

theorem after_export : Run (AdvancingSave crypto alice 1) resumed [(placed alice "0x01", "c")]
    current := by
  refine .single ⟨rfl, savePrivatePosition_of_load load_resumed, fun existing hload old hold => ?_⟩
  obtain rfl := Except.ok.inj (load_resumed.symm.trans hload)
  obtain rfl := Option.some.inj (show some (prepared alice "0x01") = some old from hold)
  exact prepared_advances alice "0x01"

end Sample

open Nortia.Web.Sample in
/-- The theorem at a backup of a prepared order and a vault in which it is placed. -/
theorem import_loses_nothing_iff_sample : ∃ saved existing,
    LosesNothing crypto current alice 1
        (some (sealVault crypto alice [prepared alice "0x01"] 1 "b")) saved existing "d" ↔
      ∀ commitment p, record saved commitment = some p →
        record existing commitment = some p := by
  obtain ⟨saved, existing, -, -, hiff⟩ := import_loses_nothing_iff crypto_opens
    (show loadPrivatePositions crypto noVault alice 1 = .ok [] from rfl) before_export
    export_exported after_export "d"
  exact ⟨saved, existing, hiff⟩

open Nortia.Web.Sample in
/-- An order is exported while it is prepared and placed afterwards: importing the backup takes its
transaction signature out of the vault. -/
theorem old_backup_loses_a_signature :
    Run (AdvancingSave crypto alice 1) noVault [(prepared alice "0x01", "a")] exported ∧
    exportPrivatePositionVault crypto exported alice 1 "b" =
      .ok (some (sealVault crypto alice [prepared alice "0x01"] 1 "b"), resumed) ∧
    Run (AdvancingSave crypto alice 1) resumed [(placed alice "0x01", "c")] current ∧
    loadPrivatePositions crypto exported alice 1 = .ok [prepared alice "0x01"] ∧
    loadPrivatePositions crypto current alice 1 = .ok [placed alice "0x01"] ∧
    ¬LosesNothing crypto current alice 1
      (some (sealVault crypto alice [prepared alice "0x01"] 1 "b")) [prepared alice "0x01"]
      [placed alice "0x01"] "d" := by
  refine ⟨before_export, export_exported, after_export, load_exported, load_current, fun hall => ?_⟩
  have hadvance : AllAdvance [prepared alice "0x01"] [placed alice "0x01"] := by
    obtain ⟨existing, hexisting, hadvance⟩ := run_allAdvance crypto_opens after_export load_resumed
    obtain rfl := Except.ok.inj (load_current.symm.trans hexisting)
    exact hadvance
  have hsame := (losesNothing_iff crypto_opens (loadVault_owner load_exported) load_current hadvance
    "d").mp hall "0x01" (prepared alice "0x01") rfl
  have hsignature := congrArg (Option.map PrivatePosition.transactionSignature) hsame
  cases hsignature

end Nortia.Web
