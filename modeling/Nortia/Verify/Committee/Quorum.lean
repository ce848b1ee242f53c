import Nortia.Program.Committee
import Mathlib.Data.List.Perm.Subperm

/-!
# The quorum of the committee

The scan over all pairs of signers succeeds exactly when their keys differ, and the count over the
committee is then a count of its distinct members among the signers.
-/

namespace Nortia

open Lib

variable {signers accounts : List AccountInfo} {committee : List Pubkey}

/-- The keys of the accounts that sign. -/
def signerKeys (accounts : List AccountInfo) : List Pubkey :=
  (accounts.filter (·.isSigner)).map (·.key)

/-- Two places of the scan hold signers of different keys. -/
theorem checkSigners_eq_ok {left right : Nat} (hleft : left < signers.length)
    (hright : right < signers.length) :
    checkSigners signers left right = .ok () ↔ signers[left].key ≠ signers[right].key := by
  rw [checkSigners, List.getElem?_eq_getElem hleft, List.getElem?_eq_getElem hright]
  exact check_eq_ok

/-- **The scan finds every repetition.** -/
theorem scan_eq_ok : ((List.range signers.length).forM fun left =>
      (List.range' (left + 1) (signers.length - (left + 1))).forM fun right =>
        checkSigners signers left right) = .ok () ↔ (signers.map (·.key)).Nodup := by
  rw [forM_eq_ok, List.Nodup, List.pairwise_map, List.pairwise_iff_getElem]
  constructor
  · intro h left right hleft hright hlt
    have hrow := forM_eq_ok.mp (h left (List.mem_range.mpr hleft))
    exact (checkSigners_eq_ok hleft hright).mp
      (hrow right (List.mem_range'_1.mpr ⟨hlt, by omega⟩))
  · intro h left hleft
    have hleft := List.mem_range.mp hleft
    refine forM_eq_ok.mpr fun right hright => ?_
    obtain ⟨hlt, hle⟩ := List.mem_range'_1.mp hright
    have hright : right < signers.length := by omega
    exact (checkSigners_eq_ok hleft hright).mpr (h left right hleft hright hlt)

/-- A committee of the program has no member twice. -/
theorem nodup_of_validCommittee (h : validCommittee committee = true) : committee.Nodup := by
  unfold validCommittee at h
  split at h
  · next first second third =>
    simp only [Bool.and_eq_true, decide_eq_true_eq, ne_eq] at h
    obtain ⟨⟨⟨-, hfirst⟩, hsecond⟩, hthird⟩ := h
    simp [hfirst, hsecond, hthird]
  · cases h

/-- The count over the committee reaches a number when as many distinct members are signers. -/
theorem le_count_iff (h : committee.Nodup) {keys : List Pubkey} {n : Nat} :
    n ≤ (committee.filter (· ∈ keys)).length ↔
      ∃ members : List Pubkey, members.Nodup ∧ n ≤ members.length ∧
        ∀ key ∈ members, key ∈ committee ∧ key ∈ keys := by
  constructor
  · intro hcount
    refine ⟨committee.filter (· ∈ keys), h.filter _, hcount, ?_⟩
    intro key hkey
    obtain ⟨hmem, hsigned⟩ := List.mem_filter.mp hkey
    exact ⟨hmem, of_decide_eq_true hsigned⟩
  · rintro ⟨members, hnodup, hcount, hmembers⟩
    have hsubset : members ⊆ committee.filter (· ∈ keys) := by
      intro key hkey
      obtain ⟨hmem, hsigned⟩ := hmembers key hkey
      exact List.mem_filter.mpr ⟨hmem, decide_eq_true hsigned⟩
    exact Nat.le_trans hcount (hnodup.subperm hsubset).length_le

/-- **The quorum check.** With a valid committee it succeeds exactly when no two of the signers
share a key and `COMMITTEE_THRESHOLD` distinct members are among them, whatever accounts are
passed. -/
theorem verifyCommitteeQuorum_ok_iff (h : validCommittee committee = true)
    (accounts : List AccountInfo) : verifyCommitteeQuorum committee accounts = .ok () ↔
      (signerKeys accounts).Nodup ∧
        ∃ members : List Pubkey, members.Nodup ∧ committeeThreshold ≤ members.length ∧
          ∀ key ∈ members, key ∈ committee ∧
            ∃ account ∈ accounts, account.isSigner = true ∧ account.key = key := by
  have hkeys : ∀ key, key ∈ signerKeys accounts ↔
      ∃ account ∈ accounts, account.isSigner = true ∧ account.key = key := by
    intro key
    simp only [signerKeys, List.mem_map, List.mem_filter, and_assoc]
  have hcount : (committee.filter fun configured =>
      (accounts.filter (·.isSigner)).any fun account => account.key = configured) =
        committee.filter (· ∈ signerKeys accounts) := by
    refine List.filter_congr fun configured _ => ?_
    rw [Bool.eq_iff_iff, List.any_eq_true, decide_eq_true_iff, signerKeys, List.mem_map]
    simp only [decide_eq_true_eq]
  simp only [verifyCommitteeQuorum, bind_eq_ok, check_eq_ok, hcount]
  rw [le_count_iff (nodup_of_validCommittee h)]
  simp only [hkeys]
  constructor
  · rintro ⟨⟨⟩, hscan, hquorum⟩
    exact ⟨scan_eq_ok.mp hscan, hquorum⟩
  · rintro ⟨hnodup, hquorum⟩
    exact ⟨(), scan_eq_ok.mpr hnodup, hquorum⟩

namespace Sample

def members : List Pubkey := [Bytes.fill 32 1, Bytes.fill 32 2, Bytes.fill 32 3]

def account (key : Pubkey) (isSigner : Bool) : AccountInfo where
  key
  owner := Pubkey.default
  executable := false
  isSigner
  data := []

end Sample

/-- Two members and a stranger sign, and one of the two is also passed without its signature. -/
theorem verifyCommitteeQuorum_ok_iff_sample :
    verifyCommitteeQuorum Sample.members
        [Sample.account (Bytes.fill 32 3) true, Sample.account (Bytes.fill 32 9) true,
          Sample.account (Bytes.fill 32 1) false, Sample.account (Bytes.fill 32 1) true] =
      .ok () := by
  refine (verifyCommitteeQuorum_ok_iff (by decide) _).mpr ⟨by decide, ?_⟩
  refine ⟨[Bytes.fill 32 1, Bytes.fill 32 3], by decide, by decide, ?_⟩
  intro key hkey
  rcases List.mem_cons.mp hkey with rfl | hkey
  · exact ⟨by decide, Sample.account (Bytes.fill 32 1) true, by simp, rfl, rfl⟩
  · cases List.mem_singleton.mp hkey
    exact ⟨by decide, Sample.account (Bytes.fill 32 3) true, List.mem_cons_self, rfl, rfl⟩

end Nortia
