import Nortia.Program.Error
import Nortia.Program.Types
import Mathlib.Logic.Function.Basic

/-!
# Token accounts and transfers

The token accounts of users are a map from their addresses. The vaults of a market are not among
them: the token program lets only the market move their tokens, and a user's account is checked
to belong to its signer. A vault is given by its balance.
-/

namespace Nortia

open Lib

structure TokenAccount where
  owner : Pubkey
  mint : Pubkey
  amount : Nat

abbrev Tokens : Type := Pubkey → TokenAccount

/-- Users' token accounts and the balance of a vault after a transfer between them. -/
structure Balances where
  tokens : Tokens
  vault : Nat

namespace Tokens

def setAmount (tokens : Tokens) (key : Pubkey) (amount : Nat) : Tokens :=
  Function.update tokens key { tokens key with amount }

@[simp] theorem setAmount_self (tokens : Tokens) (key : Pubkey) (amount : Nat) :
    (tokens.setAmount key amount) key = { tokens key with amount } := by
  simp [setAmount]

theorem setAmount_amount_self (tokens : Tokens) (key : Pubkey) :
    tokens.setAmount key (tokens key).amount = tokens :=
  Function.update_eq_self key tokens

theorem setAmount_of_ne (tokens : Tokens) {key other : Pubkey} (amount : Nat) (h : other ≠ key) :
    (tokens.setAmount key amount) other = tokens other := by
  simp [setAmount, h]

/-- Only the amount changes. -/
theorem setAmount_owner_mint (tokens : Tokens) (key other : Pubkey) (amount : Nat) :
    (tokens.setAmount key amount other).owner = (tokens other).owner ∧
      (tokens.setAmount key amount other).mint = (tokens other).mint := by
  by_cases h : other = key
  · subst h
    rw [setAmount_self]
    exact ⟨rfl, rfl⟩
  · rw [setAmount_of_ne tokens amount h]
    exact ⟨rfl, rfl⟩

/-- The token program takes an amount out of an account. -/
def debit (tokens : Tokens) (key : Pubkey) (amount : Nat) : Except Failure Tokens := do
  require (amount ≤ (tokens key).amount) .insufficientFunds
  .ok (tokens.setAmount key ((tokens key).amount - amount))

/-- The token program puts an amount into an account. -/
def credit (tokens : Tokens) (key : Pubkey) (amount : Nat) : Except Failure Tokens := do
  let balance ← okOr (checkedAdd u64Max (tokens key).amount amount) .tokenOverflow
  .ok (tokens.setAmount key balance)

end Tokens

/-- `token_account.owner == owner && token_account.mint == mint`. -/
def checkTokenAccount (account : TokenAccount) (owner mint : Pubkey) : Except Failure Unit := do
  check (account.owner = owner) .invalidTokenAccount
  check (account.mint = mint) .invalidTokenAccount

/-- `transfer_checked` from a user's account into a vault. -/
def depositIntoVault (tokens : Tokens) (source : Pubkey) (vault amount : Nat) :
    Except Failure Balances := do
  let tokens ← tokens.debit source amount
  let vault ← okOr (checkedAdd u64Max vault amount) .tokenOverflow
  .ok { tokens, vault }

/-- `transfer_from_owner` into a vault: `transfer_to_vault`. -/
def transferToVault (tokens : Tokens) (source : Pubkey) (vault amount : Nat) :
    Except Failure Balances :=
  if amount = 0 then
    .ok { tokens, vault }
  else do
    let tokens ← tokens.debit source amount
    let vault ← okOr (checkedAdd u64Max vault amount) .tokenOverflow
    .ok { tokens, vault }

/-- `transfer_from_owner` between two users' accounts. -/
def transferFromOwner (tokens : Tokens) (source destination : Pubkey) (amount : Nat) :
    Except Failure Tokens :=
  if amount = 0 ∨ source = destination then
    .ok tokens
  else do
    let tokens ← tokens.debit source amount
    tokens.credit destination amount

/-- `transfer_from_vault`. The balance `cached` is the one read before the instruction. -/
def transferFromVault (cached : Nat) (balances : Balances) (destination : Pubkey) (amount : Nat) :
    Except Failure Balances := do
  check (amount ≤ cached) .insufficientVaultBalance
  let vault ← okOr (checkedSub balances.vault amount) .insufficientFunds
  let tokens ← balances.tokens.credit destination amount
  .ok { tokens, vault }

/-- `transfer_from_hybrid_vault`. The balance `cached` is the one read before the instruction. -/
def transferFromHybridVault (cached : Nat) (balances : Balances) (destination : Pubkey)
    (amount : Nat) : Except Failure Balances :=
  if amount = 0 then
    .ok balances
  else do
    check (amount ≤ cached) .insufficientVaultBalance
    let vault ← okOr (checkedSub balances.vault amount) .insufficientFunds
    let tokens ← balances.tokens.credit destination amount
    .ok { tokens, vault }

/-! ## What a transfer does -/

theorem checkTokenAccount_ok {account : TokenAccount} {owner mint : Pubkey} {u : Unit} :
    checkTokenAccount account owner mint = .ok u ↔ account.owner = owner ∧ account.mint = mint := by
  simp only [checkTokenAccount, bind_eq_ok, check_eq_ok, exists_const]

theorem Tokens.credit_ok {tokens tokens' : Tokens} {key : Pubkey} {amount : Nat}
    (h : tokens.credit key amount = .ok tokens') :
    tokens' = tokens.setAmount key ((tokens key).amount + amount) := by
  simp only [Tokens.credit, bind_eq_ok, okOr_eq_ok, checkedAdd_eq_some, Except.ok.injEq] at h
  obtain ⟨_, ⟨-, rfl⟩, rfl⟩ := h
  rfl

theorem depositIntoVault_ok {tokens : Tokens} {source : Pubkey} {vault amount : Nat}
    {balances : Balances} (h : depositIntoVault tokens source vault amount = .ok balances) :
    balances.vault = vault + amount ∧ vault + amount ≤ u64Max := by
  simp only [depositIntoVault, bind_eq_ok, okOr_eq_ok, checkedAdd_eq_some, Except.ok.injEq] at h
  obtain ⟨_, -, _, ⟨hfit, rfl⟩, rfl⟩ := h
  exact ⟨rfl, hfit⟩

theorem transferToVault_ok {tokens : Tokens} {source : Pubkey} {vault amount : Nat}
    {balances : Balances} (h : transferToVault tokens source vault amount = .ok balances) :
    balances.vault = vault + amount ∧ (amount = 0 ∨ vault + amount ≤ u64Max) := by
  unfold transferToVault at h
  split at h
  · next hzero =>
    cases h
    exact ⟨by rw [hzero, Nat.add_zero], .inl hzero⟩
  · obtain ⟨hvault, hfit⟩ := depositIntoVault_ok h
    exact ⟨hvault, .inr hfit⟩

/-- What a vault receives its source gives, and no other account. -/
theorem transferToVault_source {tokens : Tokens} {source : Pubkey} {vault amount : Nat}
    {balances : Balances} (h : transferToVault tokens source vault amount = .ok balances) :
    (∀ key, key ≠ source → balances.tokens key = tokens key) ∧
      (balances.tokens source).amount + amount = (tokens source).amount := by
  unfold transferToVault at h
  split at h
  · next hzero =>
    cases h
    exact ⟨fun _ _ => rfl, by rw [hzero, Nat.add_zero]⟩
  · simp only [Tokens.debit, bind_eq_ok, require_eq_ok, okOr_eq_ok, Except.ok.injEq] at h
    obtain ⟨_, ⟨-, hfunds, rfl⟩, _, -, rfl⟩ := h
    refine ⟨fun key hkey => Tokens.setAmount_of_ne tokens _ hkey, ?_⟩
    simp only [Tokens.setAmount_self]
    exact Nat.sub_add_cancel hfunds

/-- A transfer the source has funds for and the vault has room for succeeds. -/
theorem transferToVault_of (tokens : Tokens) (source : Pubkey) (vault : Nat) {amount : Nat}
    (hfunds : amount ≤ (tokens source).amount) (hroom : vault + amount ≤ u64Max) :
    ∃ balances, transferToVault tokens source vault amount = .ok balances := by
  unfold transferToVault
  split
  · exact ⟨_, rfl⟩
  · simp only [Tokens.debit, bind_eq_ok, require_eq_ok, okOr_eq_ok, checkedAdd_eq_some]
    exact ⟨_, _, ⟨(), hfunds, rfl⟩, _, ⟨hroom, rfl⟩, rfl⟩

theorem transferFromVault_ok {cached : Nat} {balances balances' : Balances}
    {destination : Pubkey} {amount : Nat}
    (h : transferFromVault cached balances destination amount = .ok balances') :
    amount ≤ balances.vault ∧ balances'.vault = balances.vault - amount ∧
      balances'.tokens = balances.tokens.setAmount destination
        ((balances.tokens destination).amount + amount) := by
  simp only [transferFromVault, bind_eq_ok, check_eq_ok, okOr_eq_ok, checkedSub_eq_some,
    Except.ok.injEq] at h
  obtain ⟨-, -, _, ⟨hle, rfl⟩, _, hcredit, rfl⟩ := h
  exact ⟨hle, rfl, Tokens.credit_ok hcredit⟩

/-- A transfer the vault and the destination have room for succeeds. -/
theorem transferFromVault_of_le {cached : Nat} {balances : Balances} {destination : Pubkey}
    {amount : Nat} (hcached : amount ≤ cached) (hvault : amount ≤ balances.vault)
    (hroom : (balances.tokens destination).amount + amount ≤ u64Max) :
    transferFromVault cached balances destination amount = .ok {
      tokens := balances.tokens.setAmount destination
        ((balances.tokens destination).amount + amount)
      vault := balances.vault - amount } := by
  have hsub : checkedSub balances.vault amount = some (balances.vault - amount) :=
    checkedSub_eq_some.mpr ⟨hvault, rfl⟩
  have hadd : checkedAdd u64Max (balances.tokens destination).amount amount =
      some ((balances.tokens destination).amount + amount) :=
    checkedAdd_eq_some.mpr ⟨hroom, rfl⟩
  simp only [transferFromVault, check_pos hcached, ok_bind, hsub, okOr, Tokens.credit, hadd]

theorem transferFromHybridVault_ok {cached : Nat} {balances balances' : Balances}
    {destination : Pubkey} {amount : Nat}
    (h : transferFromHybridVault cached balances destination amount = .ok balances') :
    amount ≤ balances.vault ∧ balances'.vault = balances.vault - amount ∧
      (balances'.tokens destination).amount = (balances.tokens destination).amount + amount := by
  unfold transferFromHybridVault at h
  split at h
  · next hzero =>
    cases h
    rw [hzero]
    exact ⟨Nat.zero_le _, rfl, rfl⟩
  · obtain ⟨hle, hvault, htokens⟩ := transferFromVault_ok h
    exact ⟨hle, hvault, by rw [htokens, Tokens.setAmount_self]⟩

/-- A transfer the vault and the destination have room for succeeds. -/
theorem transferFromHybridVault_of_le (balances : Balances) {destination : Pubkey} {amount : Nat}
    (hvault : amount ≤ balances.vault)
    (hroom : (balances.tokens destination).amount + amount ≤ u64Max) :
    ∃ tokens, transferFromHybridVault balances.vault balances destination amount =
      .ok { tokens, vault := balances.vault - amount } := by
  unfold transferFromHybridVault
  split
  · next hzero =>
    subst hzero
    exact ⟨balances.tokens, rfl⟩
  · exact ⟨_, transferFromVault_of_le hvault hvault hroom⟩

end Nortia
