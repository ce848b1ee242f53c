import Nortia.Program.Error
import Nortia.Program.Types

/-!
# The committee

Two of the three members of the committee sign a batch and a dispute decision.
-/

namespace Nortia

open Lib

/-- `valid_committee`. The committee is an array of three keys. -/
def validCommittee : List Pubkey → Bool
  | [first, second, third] =>
    [first, second, third].all (· ≠ Pubkey.default) && first ≠ second && first ≠ third &&
      second ≠ third
  | _ => false

/-- One turn of the two loops over the signers. -/
def checkSigners (signers : List AccountInfo) (left right : Nat) : Except Failure Unit := do
  let first ← okOr signers[left]? .panicked
  let second ← okOr signers[right]? .panicked
  check (first.key ≠ second.key) .duplicateCommitteeSigner

/-- `verify_committee_quorum`. -/
def verifyCommitteeQuorum (committee : List Pubkey) (accounts : List AccountInfo) :
    Except Failure Unit := do
  let signers := accounts.filter (·.isSigner)
  (List.range signers.length).forM fun left =>
    (List.range' (left + 1) (signers.length - (left + 1))).forM fun right =>
      checkSigners signers left right
  let quorum := (committee.filter fun configured =>
    signers.any fun account => account.key = configured).length
  check (committeeThreshold ≤ quorum) .committeeQuorumNotMet

end Nortia
