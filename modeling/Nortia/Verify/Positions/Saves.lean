import Nortia.Verify.Positions.Vault

/-!
# Overlapping saves

Each save writes back the whole vault it read, so it drops what another save wrote in between. No
record is lost where no save writes after another commitment's save has written the vault that it
read.
-/

namespace Nortia.Web

open Lib

section

variable {CryptoKey Ciphertext : Type} {crypto : SubtleCrypto CryptoKey Ciphertext}
variable {wallet : String} {key : CryptoKey} {tab tab' : Tab Ciphertext} {event : SaveEvent}
variable {initial : List PrivatePosition}

/-! ## One step -/

/-- The save of a position has completed. -/
def Completed (tab : Tab Ciphertext) (position : PrivatePosition) : Prop :=
  ⟨position, .saved⟩ ∈ tab.saves

/-- What a step does to the storage and to one save. -/
inductive SaveEffect (crypto : SubtleCrypto CryptoKey Ciphertext) (wallet : String)
    (key : CryptoKey) (tab : Tab Ciphertext) : SaveEvent → Tab Ciphertext → Prop
  | called {position : PrivatePosition} (howner : position.owner = wallet) :
    SaveEffect crypto wallet key tab (.call position) { tab with
      saves := tab.saves ++ [⟨position, .decrypting (tab.storage.vault position.owner)⟩] }
  | opened {save : Nat} {position : PrivatePosition} {vault : Option (EncryptedVault Ciphertext)}
    {existing : List PrivatePosition} (hsave : tab.saves[save]? = some ⟨position, .decrypting vault⟩)
    (hload : loadVault crypto position.owner vault key = .ok existing) :
    SaveEffect crypto wallet key tab (.decrypted save) { tab with
      saves := tab.saves.set save ⟨position, .encrypting (savedPositions position existing)⟩ }
  | failed {save : Nat} {position : PrivatePosition} {vault : Option (EncryptedVault Ciphertext)}
    {message : String} (hsave : tab.saves[save]? = some ⟨position, .decrypting vault⟩)
    (hload : loadVault crypto position.owner vault key = .error message) :
    SaveEffect crypto wallet key tab (.decrypted save) { tab with
      saves := tab.saves.set save ⟨position, .failed⟩ }
  | written {save : Nat} {iv : String} {position : PrivatePosition}
    {positions : List PrivatePosition}
    (hsave : tab.saves[save]? = some ⟨position, .encrypting positions⟩) :
    SaveEffect crypto wallet key tab (.encrypted save iv) {
      storage := encryptVault crypto tab.storage position.owner positions key iv
      saves := tab.saves.set save ⟨position, .saved⟩ }

theorem saveStep_effect (h : SaveStep crypto wallet key tab event tab') :
    SaveEffect crypto wallet key tab event tab' := by
  obtain ⟨hstep, howner⟩ := h
  cases event with
  | call position =>
    cases hstep
    exact .called (howner position rfl)
  | decrypted save =>
    simp only [saveStep] at hstep
    split at hstep
    · next hsave =>
      split at hstep
      · next hload =>
        cases hstep
        exact .opened hsave hload
      · next hload =>
        cases hstep
        exact .failed hsave hload
    · cases hstep
  | encrypted save iv =>
    simp only [saveStep] at hstep
    split at hstep
    · next hsave =>
      cases hstep
      exact .written hsave
    · cases hstep

/-- Replacing a save that has not completed adds its replacement to the completed ones. -/
theorem mem_set_saved {saves : List (Save Ciphertext)} {save : Nat} {old : Save Ciphertext}
    {new : Save Ciphertext} {position : PrivatePosition} (hold : saves[save]? = some old)
    (hpending : old.stage ≠ .saved) :
    ⟨position, .saved⟩ ∈ saves.set save new ↔
      ⟨position, .saved⟩ ∈ saves ∨ new = ⟨position, .saved⟩ := by
  obtain ⟨hlt, hvalue⟩ := List.getElem?_eq_some_iff.mp hold
  constructor
  · intro hmem
    rcases List.mem_or_eq_of_mem_set hmem with hkept | hnew
    · exact .inl hkept
    · exact .inr hnew.symm
  · rintro (hkept | rfl)
    · obtain ⟨i, hi⟩ := List.mem_iff_getElem?.mp hkept
      have hne : save ≠ i := by
        rintro rfl
        rw [hold, Option.some.injEq] at hi
        exact hpending (by rw [hi])
      exact List.mem_iff_getElem?.mpr ⟨i, (List.getElem?_set_ne hne).trans hi⟩
    · exact List.mem_set hlt _

/-! ## What is kept -/

/-- Some save of a commitment has completed. -/
def Saved (tab : Tab Ciphertext) (commitment : String) : Prop :=
  ∃ position, Completed tab position ∧ position.commitment = commitment

/-- A list has the first records of all commitments that no save has completed. -/
def HoldsUnsaved (initial : List PrivatePosition) (tab : Tab Ciphertext)
    (positions : List PrivatePosition) : Prop :=
  ∀ commitment p, ¬Saved tab commitment → record initial commitment = some p →
    record positions commitment = some p

/-- A list has, for a commitment, the record of a save of it. -/
def HoldsSaved (tab : Tab Ciphertext) (positions : List PrivatePosition) (commitment : String) :
    Prop :=
  ∃ q, Completed tab q ∧ record positions commitment = some q

/-- No update is lost: the vault opens, each commitment that was saved has the record of a save of
it, and every other record of the first vault is there. -/
def NoLostUpdate (crypto : SubtleCrypto CryptoKey Ciphertext) (wallet : String) (key : CryptoKey)
    (initial : List PrivatePosition) (tab : Tab Ciphertext) : Prop :=
  ∃ stored, loadPrivatePositions crypto tab.storage wallet key = .ok stored ∧
    (∀ commitment, Saved tab commitment → HoldsSaved tab stored commitment) ∧
    HoldsUnsaved initial tab stored

/-- What a save that has not completed holds. -/
def SnapshotHolds (crypto : SubtleCrypto CryptoKey Ciphertext) (wallet : String) (key : CryptoKey)
    (initial : List PrivatePosition) (tab : Tab Ciphertext) (save : Save Ciphertext) : Prop :=
  save.position.owner = wallet ∧
    match save.stage with
    | .decrypting vault => ∃ existing, loadVault crypto wallet vault key = .ok existing ∧
        HoldsUnsaved initial tab existing
    | .encrypting positions => (∀ item ∈ positions, item.owner = wallet) ∧
        record positions save.position.commitment = some save.position ∧
        ∀ commitment p, commitment ≠ save.position.commitment → ¬Saved tab commitment →
          record initial commitment = some p → record positions commitment = some p
    | .saved => True
    | .failed => False

/-- A list has, for each other commitment that was saved, the record of a save of it. -/
def HoldsOthers (tab : Tab Ciphertext) (commitment : String) (positions : List PrivatePosition) :
    Prop :=
  ∀ other, other ≠ commitment → Saved tab other → HoldsSaved tab positions other

/-! ## The interleaving -/

/-- The position that a step calls a save with. -/
def calledWith : SaveEvent → Option PrivatePosition
  | .call position => some position
  | _ => none

/-- The positions that saves were called with, in the sequence of the saves. -/
def calls (tr : List SaveEvent) : List PrivatePosition := tr.filterMap calledWith

/-- Since a save read the vault, no save of another commitment has written it. -/
def ReadStands (tr : List SaveEvent) (save : Nat) : Prop :=
  ∀ before position during, tr = before ++ .call position :: during →
    (calls before).length = save → ∀ other iv written, .encrypted other iv ∈ during →
      (calls tr)[other]? = some written → written.commitment = position.commitment

/-- No save of another commitment writes between the read and the write of a save. -/
def Undisturbed (tr : List SaveEvent) : Prop :=
  ∀ before save iv after, tr = before ++ .encrypted save iv :: after → ReadStands before save

theorem calls_append (tr tr' : List SaveEvent) : calls (tr ++ tr') = calls tr ++ calls tr' :=
  List.filterMap_append

theorem Undisturbed.of_append {tr tr' : List SaveEvent} (h : Undisturbed (tr ++ tr')) :
    Undisturbed tr := by
  rintro before save iv after rfl
  exact h before save iv (after ++ tr') (by simp)

theorem ReadStands.of_append {tr tr' : List SaveEvent} {save : Nat}
    (h : ReadStands (tr ++ tr') save) : ReadStands tr save := by
  rintro before position during rfl hsave other iv written hmem hwritten
  refine h before position (during ++ tr') (by simp) hsave other iv written
    (List.mem_append_left _ hmem) ?_
  rw [calls_append, List.getElem?_append_left (List.getElem?_eq_some_iff.mp hwritten).1]
  exact hwritten

theorem Undisturbed.nil : Undisturbed [] := by
  intro before save iv after h
  exact absurd h.symm (List.append_ne_nil_of_right_ne_nil _ (List.cons_ne_nil _ _))

/-- The trace so far is undisturbed, and so is the write that comes next. -/
theorem Undisturbed.snoc {tr : List SaveEvent} {event : SaveEvent} (h : Undisturbed tr)
    (hevent : ∀ save iv, event = .encrypted save iv → ReadStands tr save) :
    Undisturbed (tr ++ [event]) := by
  intro before save iv after heq
  rcases List.eq_nil_or_concat after with rfl | ⟨after, last, rfl⟩
  · obtain ⟨rfl, hlast⟩ := List.append_inj' heq rfl
    exact hevent save iv (List.cons.inj hlast).1
  · rw [List.concat_eq_append, ← List.cons_append, ← List.append_assoc] at heq
    exact h before save iv after (List.append_inj' heq rfl).1

theorem Undisturbed.called {tr : List SaveEvent} (h : Undisturbed tr) (position : PrivatePosition) :
    Undisturbed (tr ++ [.call position]) :=
  h.snoc fun _ _ heq => SaveEvent.noConfusion heq

theorem Undisturbed.decrypted {tr : List SaveEvent} (h : Undisturbed tr) (save : Nat) :
    Undisturbed (tr ++ [.decrypted save]) :=
  h.snoc fun _ _ heq => SaveEvent.noConfusion heq

theorem Undisturbed.written {tr : List SaveEvent} {save : Nat} (h : Undisturbed tr)
    (hstands : ReadStands tr save) (iv : String) : Undisturbed (tr ++ [.encrypted save iv]) := by
  refine h.snoc fun other iv' heq => ?_
  obtain ⟨rfl, -⟩ := SaveEvent.encrypted.inj heq
  exact hstands

/-- A save that was just called reads what is stored. -/
theorem ReadStands.called {tr : List SaveEvent} {save : Nat} {position : PrivatePosition}
    (h : (calls tr).length = save) : ReadStands (tr ++ [.call position]) save := by
  intro before other during heq hlength
  rcases List.eq_nil_or_concat during with rfl | ⟨during, last, rfl⟩
  · intro i iv written hmem
    exact absurd hmem List.not_mem_nil
  · rw [List.concat_eq_append, ← List.cons_append, ← List.append_assoc] at heq
    have htr : tr = before ++ .call other :: during := (List.append_inj' heq rfl).1
    have hcalls : (calls tr).length = (calls before).length + ((calls during).length + 1) := by
      rw [htr, calls_append, List.length_append]
      rfl
    omega

theorem ReadStands.decrypted {tr : List SaveEvent} {save : Nat} (h : ReadStands tr save)
    (i : Nat) : ReadStands (tr ++ [.decrypted i]) save := by
  intro before position during heq hlength other iv written hmem hwritten
  rcases List.eq_nil_or_concat during with rfl | ⟨during, last, rfl⟩
  · exact absurd hmem List.not_mem_nil
  · rw [List.concat_eq_append, ← List.cons_append, ← List.append_assoc] at heq
    obtain ⟨htr, hlast⟩ := List.append_inj' heq rfl
    rw [List.concat_eq_append, ← (List.cons.inj hlast).1, List.mem_append] at hmem
    rcases hmem with hbefore | hnow
    · have hcalls : calls (tr ++ [.decrypted i]) = calls tr := by
        rw [calls_append]
        exact List.append_nil _
      exact h before position during htr hlength other iv written hbefore (hcalls ▸ hwritten)
    · cases List.mem_singleton.mp hnow

/-- Every save was called at some point of the trace. -/
theorem exists_call {tr : List SaveEvent} {save : Nat} {position : PrivatePosition}
    (h : (calls tr)[save]? = some position) :
    ∃ before during, tr = before ++ .call position :: during ∧ (calls before).length = save := by
  induction tr generalizing save with
  | nil => cases h
  | cons event rest ih =>
    cases event with
    | call first =>
      cases save with
      | zero =>
        obtain rfl : first = position := Option.some.inj h
        exact ⟨[], rest, rfl, rfl⟩
      | succ save =>
        obtain ⟨before, during, rfl, hlength⟩ := ih (show (calls rest)[save]? = some position from h)
        exact ⟨.call first :: before, during, rfl, congrArg Nat.succ hlength⟩
    | decrypted i =>
      obtain ⟨before, during, rfl, hlength⟩ := ih h
      exact ⟨.decrypted i :: before, during, rfl, hlength⟩
    | encrypted i iv =>
      obtain ⟨before, during, rfl, hlength⟩ := ih h
      exact ⟨.encrypted i iv :: before, during, rfl, hlength⟩

/-- A save whose read stands after a write has the commitment of that write. -/
theorem ReadStands.same {tr : List SaveEvent} {save other : Nat} {iv : String}
    {position written : PrivatePosition} (h : ReadStands (tr ++ [.encrypted other iv]) save)
    (hposition : (calls tr)[save]? = some position) (hwritten : (calls tr)[other]? = some written) :
    written.commitment = position.commitment := by
  obtain ⟨before, during, rfl, hlength⟩ := exists_call hposition
  refine h before position (during ++ [.encrypted other iv]) (by simp) hlength other iv written
    (List.mem_append_right _ (List.mem_singleton_self _)) ?_
  rw [calls_append, List.getElem?_append_left (List.getElem?_eq_some_iff.mp hwritten).1]
  exact hwritten

/-! ## What a step keeps -/

theorem HoldsUnsaved.mono {positions : List PrivatePosition}
    (h : HoldsUnsaved initial tab positions)
    (hsaved : ∀ position, Completed tab position → Completed tab' position) :
    HoldsUnsaved initial tab' positions := by
  intro commitment p hunsaved hp
  refine h commitment p (fun hbefore => hunsaved ?_) hp
  obtain ⟨position, hposition, hcommitment⟩ := hbefore
  exact ⟨position, hsaved position hposition, hcommitment⟩

/-- Completed saves stay completed. -/
theorem completed_step (h : SaveStep crypto wallet key tab event tab') {position : PrivatePosition}
    (hposition : Completed tab position) : Completed tab' position := by
  cases saveStep_effect h with
  | called => exact List.mem_append_left _ hposition
  | opened hsave => exact (mem_set_saved hsave (by simp)).mpr (.inl hposition)
  | failed hsave => exact (mem_set_saved hsave (by simp)).mpr (.inl hposition)
  | written hsave => exact (mem_set_saved hsave (by simp)).mpr (.inl hposition)

theorem SnapshotHolds.mono {save : Save Ciphertext}
    (h : SnapshotHolds crypto wallet key initial tab save)
    (hsaved : ∀ position, Completed tab position → Completed tab' position) :
    SnapshotHolds crypto wallet key initial tab' save := by
  obtain ⟨howner, hstage⟩ := h
  refine ⟨howner, ?_⟩
  cases hcase : save.stage with
  | decrypting vault =>
    rw [hcase] at hstage
    obtain ⟨existing, hload, hholds⟩ := hstage
    exact ⟨existing, hload, hholds.mono hsaved⟩
  | encrypting positions =>
    rw [hcase] at hstage
    obtain ⟨howners, hself, hholds⟩ := hstage
    refine ⟨howners, hself, fun commitment p hne hunsaved hp => ?_⟩
    refine hholds commitment p hne (fun hbefore => hunsaved ?_) hp
    obtain ⟨position, hposition, hcommitment⟩ := hbefore
    exact ⟨position, hsaved position hposition, hcommitment⟩
  | saved => trivial
  | failed =>
    rw [hcase] at hstage
    exact hstage.elim

/-- Every pending save holds what the vault held that nobody saved since. -/
theorem snapshots_step (hkept : NoLostUpdate crypto wallet key initial tab)
    (hall : ∀ save ∈ tab.saves, SnapshotHolds crypto wallet key initial tab save)
    (h : SaveStep crypto wallet key tab event tab') :
    ∀ save ∈ tab'.saves, SnapshotHolds crypto wallet key initial tab' save := by
  have hsaved : ∀ position, Completed tab position → Completed tab' position :=
    fun _ => completed_step h
  intro save hmem
  cases saveStep_effect h with
  | @called position howner =>
    rcases List.mem_append.mp hmem with hold | hnew
    · exact (hall save hold).mono hsaved
    · rw [List.mem_singleton] at hnew
      subst hnew
      obtain ⟨stored, hload, -, hholds⟩ := hkept
      refine ⟨howner, stored, ?_, hholds.mono hsaved⟩
      rw [howner]
      exact hload
  | @opened i position vault existing hsave hload =>
    rcases List.mem_or_eq_of_mem_set hmem with hold | rfl
    · exact (hall save hold).mono hsaved
    · obtain ⟨howner, existing', hload', hholds⟩ := hall _ (List.mem_of_getElem? hsave)
      rw [howner] at hload
      obtain rfl := Except.ok.inj (hload.symm.trans hload')
      refine ⟨howner, savedPositions_owner howner (loadVault_owner hload), ?_, ?_⟩
      · rw [record_savedPositions, if_pos rfl]
      · intro commitment p hne hunsaved hp
        rw [record_savedPositions, if_neg (Ne.symm hne)]
        exact hholds.mono hsaved commitment p hunsaved hp
  | @failed i position vault message hsave hload =>
    -- the vault that the save read opens
    obtain ⟨howner, existing, hload', -⟩ := hall _ (List.mem_of_getElem? hsave)
    rw [howner, hload'] at hload
    cases hload
  | @written i iv position positions hsave =>
    rcases List.mem_or_eq_of_mem_set hmem with hold | rfl
    · exact (hall save hold).mono hsaved
    · exact ⟨(hall _ (List.mem_of_getElem? hsave)).1, trivial⟩

/-- A step that writes nothing loses nothing. -/
theorem noLostUpdate_of_same (hkept : NoLostUpdate crypto wallet key initial tab)
    (hstorage : tab'.storage = tab.storage)
    (hsaved : ∀ position, Completed tab' position ↔ Completed tab position) :
    NoLostUpdate crypto wallet key initial tab' := by
  obtain ⟨stored, hload, hrecords, hholds⟩ := hkept
  refine ⟨stored, hstorage ▸ hload, fun commitment hcommitment => ?_,
    hholds.mono fun position => (hsaved position).mpr⟩
  obtain ⟨position, hposition, hsame⟩ := hcommitment
  obtain ⟨q, hq, hrecord⟩ := hrecords commitment ⟨position, (hsaved position).mp hposition, hsame⟩
  exact ⟨q, (hsaved q).mpr hq, hrecord⟩

/-- **A write loses nothing exactly when** it holds a saved record for each other commitment. -/
theorem noLostUpdate_written (hopens : crypto.Opens) {save : Nat} {iv : String}
    {position : PrivatePosition} {positions : List PrivatePosition}
    (hsave : tab.saves[save]? = some ⟨position, .encrypting positions⟩)
    (hsnapshot : SnapshotHolds crypto wallet key initial tab ⟨position, .encrypting positions⟩) :
    NoLostUpdate crypto wallet key initial {
        storage := encryptVault crypto tab.storage position.owner positions key iv
        saves := tab.saves.set save ⟨position, .saved⟩ } ↔
      HoldsOthers tab position.commitment positions := by
  obtain ⟨howner, howners, hself, hholds⟩ := hsnapshot
  have hload : loadPrivatePositions crypto
      (encryptVault crypto tab.storage position.owner positions key iv) wallet key =
        .ok (dedupe positions) := by
    rw [howner]
    exact load_encryptVault hopens howners
  have hsaved : ∀ q, ⟨q, SaveStage.saved⟩ ∈ tab.saves.set save ⟨position, .saved⟩ ↔
      Completed tab q ∨ position = q := by
    intro q
    rw [mem_set_saved hsave (by simp), Save.mk.injEq, and_iff_left rfl]
    rfl
  constructor
  · rintro ⟨stored, hload', hrecords, -⟩ commitment hne ⟨q, hq, hcommitment⟩
    obtain rfl := Except.ok.inj (hload.symm.trans hload')
    obtain ⟨r, hr, hrecord⟩ := hrecords commitment ⟨q, (hsaved q).mpr (.inl hq), hcommitment⟩
    rw [record_dedupe] at hrecord
    rcases (hsaved r).mp hr with hold | rfl
    · exact ⟨r, hold, hrecord⟩
    · exact absurd (record_some hrecord).2.symm hne
  · intro hothers
    refine ⟨dedupe positions, hload, ?_, ?_⟩
    · rintro commitment ⟨q, hq, hcommitment⟩
      by_cases hsame : commitment = position.commitment
      · subst hsame
        exact ⟨position, (hsaved position).mpr (.inr rfl), by rw [record_dedupe, hself]⟩
      · rcases (hsaved q).mp hq with hold | rfl
        · obtain ⟨r, hr, hrecord⟩ := hothers commitment hsame ⟨q, hold, hcommitment⟩
          exact ⟨r, (hsaved r).mpr (.inl hr), by rw [record_dedupe, hrecord]⟩
        · exact absurd hcommitment.symm hsame
    · intro commitment p hunsaved hp
      have hne : commitment ≠ position.commitment := fun hsame =>
        hunsaved ⟨position, (hsaved position).mpr (.inr rfl), hsame.symm⟩
      rw [record_dedupe]
      refine hholds commitment p hne (fun hbefore => hunsaved ?_) hp
      obtain ⟨q, hq, hcommitment⟩ := hbefore
      exact ⟨q, (hsaved q).mpr (.inl hq), hcommitment⟩

/-! ## Over every run -/

/-- What a pending save goes on from has, for each other commitment that was saved, the record of a
save of it. -/
def UpToDate (crypto : SubtleCrypto CryptoKey Ciphertext) (wallet : String) (key : CryptoKey)
    (tab : Tab Ciphertext) (save : Save Ciphertext) : Prop :=
  match save.stage with
  | .decrypting vault => ∀ existing, loadVault crypto wallet vault key = .ok existing →
      HoldsOthers tab save.position.commitment existing
  | .encrypting positions => HoldsOthers tab save.position.commitment positions
  | .saved => True
  | .failed => True

/-- Nothing is lost so far, and a save whose read stands is going to lose nothing. -/
structure Kept (crypto : SubtleCrypto CryptoKey Ciphertext) (wallet : String) (key : CryptoKey)
    (initial : List PrivatePosition) (tr : List SaveEvent) (tab : Tab Ciphertext) : Prop where
  noLostUpdate : NoLostUpdate crypto wallet key initial tab
  snapshots : ∀ save ∈ tab.saves, SnapshotHolds crypto wallet key initial tab save
  positions : tab.saves.map Save.position = calls tr
  upToDate : ∀ i save, tab.saves[i]? = some save → ReadStands tr i →
    UpToDate crypto wallet key tab save

/-- Steps that complete no save of another commitment leave a pending save up to date. -/
theorem UpToDate.mono {save : Save Ciphertext} (h : UpToDate crypto wallet key tab save)
    (hsaved : ∀ position, Completed tab position → Completed tab' position)
    (hsame : ∀ position, Completed tab' position →
      Completed tab position ∨ position.commitment = save.position.commitment) :
    UpToDate crypto wallet key tab' save := by
  have hothers : ∀ {positions : List PrivatePosition},
      HoldsOthers tab save.position.commitment positions →
        HoldsOthers tab' save.position.commitment positions := by
    rintro positions hholds other hne ⟨position, hposition, rfl⟩
    rcases hsame position hposition with hbefore | hsame
    · obtain ⟨q, hq, hrecord⟩ := hholds _ hne ⟨position, hbefore, rfl⟩
      exact ⟨q, hsaved q hq, hrecord⟩
    · exact absurd hsame hne
  unfold UpToDate at *
  split <;> rename_i hstage <;> rw [hstage] at h
  · exact fun existing hload => hothers (h existing hload)
  · exact hothers h
  · trivial
  · trivial

/-- The position of a save is the one it was called with. -/
theorem Kept.called {tr : List SaveEvent} (h : Kept crypto wallet key initial tr tab) {i : Nat}
    {save : Save Ciphertext} (hsave : tab.saves[i]? = some save) :
    (calls tr)[i]? = some save.position := by
  rw [← h.positions, List.getElem?_map, hsave]
  rfl

/-- Replacing a save keeps the positions that saves were called with. -/
theorem positions_set {saves : List (Save Ciphertext)} {i : Nat} {position : PrivatePosition}
    {before after : SaveStage Ciphertext} (h : saves[i]? = some ⟨position, before⟩) :
    (saves.set i ⟨position, after⟩).map Save.position = saves.map Save.position := by
  rw [List.map_set]
  refine List.ext_getElem? fun k => ?_
  rw [List.getElem?_set]
  split
  · next hik =>
    subst hik
    rw [List.getElem?_map, List.length_map, if_pos (List.getElem?_eq_some_iff.mp h).1, h]
    rfl
  · rfl

/-- A new save reads the vault as it is stored, which holds every saved position. -/
theorem NoLostUpdate.upToDate (h : NoLostUpdate crypto wallet key initial tab)
    {position : PrivatePosition} (howner : position.owner = wallet) :
    UpToDate crypto wallet key tab ⟨position, .decrypting (tab.storage.vault position.owner)⟩ := by
  obtain ⟨stored, hload, hrecords, -⟩ := h
  have hload : loadVault crypto wallet (tab.storage.vault wallet) key = .ok stored := hload
  intro existing hload' other _ hother
  rw [howner, hload] at hload'
  obtain rfl := Except.ok.inj hload'
  exact hrecords other hother

/-- The list a save is about to write is as up to date as the vault it has read. -/
theorem UpToDate.savedPositions {position : PrivatePosition} {vault : Option (EncryptedVault Ciphertext)}
    {existing : List PrivatePosition}
    (h : UpToDate crypto wallet key tab ⟨position, .decrypting vault⟩)
    (hload : loadVault crypto wallet vault key = .ok existing) :
    UpToDate crypto wallet key tab ⟨position, .encrypting (savedPositions position existing)⟩ := by
  intro commitment hne hcommitment
  obtain ⟨q, hq, hrecord⟩ := h existing hload commitment hne hcommitment
  refine ⟨q, hq, ?_⟩
  rw [record_savedPositions, if_neg (Ne.symm hne)]
  exact hrecord

/-- Where one save goes on, the others stay up to date if it completes none of another commitment. -/
theorem Kept.upToDate_set {tr : List SaveEvent} (h : Kept crypto wallet key initial tr tab) {i : Nat}
    {position : PrivatePosition} {before after : SaveStage Ciphertext}
    (hsave : tab.saves[i]? = some ⟨position, before⟩)
    (hsaves : tab'.saves = tab.saves.set i ⟨position, after⟩)
    (hsaved : ∀ position, Completed tab position → Completed tab' position)
    (hsame : ∀ k save, tab.saves[k]? = some save → ReadStands (tr ++ [event]) k →
      ∀ q, Completed tab' q → Completed tab q ∨ q.commitment = save.position.commitment)
    (hafter : ReadStands (tr ++ [event]) i → UpToDate crypto wallet key tab' ⟨position, after⟩) :
    ∀ k save, tab'.saves[k]? = some save → ReadStands (tr ++ [event]) k →
      UpToDate crypto wallet key tab' save := by
  intro k save hk hstands
  rw [hsaves, List.getElem?_set] at hk
  split at hk
  · next heq =>
    subst heq
    rw [if_pos (List.getElem?_eq_some_iff.mp hsave).1] at hk
    obtain rfl := Option.some.inj hk
    exact hafter hstands
  · exact (h.upToDate k save hk hstands.of_append).mono hsaved (hsame k save hk hstands)

theorem kept_step (hopens : crypto.Opens) {tr : List SaveEvent}
    (h : Kept crypto wallet key initial tr tab) (hundisturbed : Undisturbed (tr ++ [event]))
    (hstep : SaveStep crypto wallet key tab event tab') :
    Kept crypto wallet key initial (tr ++ [event]) tab' := by
  have hsnapshots := snapshots_step h.noLostUpdate h.snapshots hstep
  have hsaved : ∀ position, Completed tab position → Completed tab' position :=
    fun _ => completed_step hstep
  cases saveStep_effect hstep with
  | @called position howner =>
    have hquiet : ∀ q, Completed { tab with
        saves := tab.saves ++ [⟨position, .decrypting (tab.storage.vault position.owner)⟩] } q ↔
          Completed tab q := by
      simp [Completed]
    have hkept : NoLostUpdate crypto wallet key initial { tab with
        saves := tab.saves ++ [⟨position, .decrypting (tab.storage.vault position.owner)⟩] } :=
      noLostUpdate_of_same h.noLostUpdate rfl hquiet
    refine ⟨hkept, hsnapshots, ?_, ?_⟩
    · rw [List.map_append, h.positions, calls_append]
      rfl
    · intro i save hsave hstands
      rw [List.getElem?_append] at hsave
      split at hsave
      · exact (h.upToDate i save hsave hstands.of_append).mono hsaved
          fun q hq => .inl ((hquiet q).mp hq)
      · obtain rfl := List.mem_singleton.mp (List.mem_of_getElem? hsave)
        exact hkept.upToDate howner
  | @opened save position vault existing hsave hload =>
    have hquiet : ∀ q, Completed { tab with
        saves := tab.saves.set save ⟨position, .encrypting (savedPositions position existing)⟩ } q ↔
          Completed tab q := by
      simp [Completed, mem_set_saved hsave]
    have howner := (h.snapshots _ (List.mem_of_getElem? hsave)).1
    refine ⟨noLostUpdate_of_same h.noLostUpdate rfl hquiet, hsnapshots, ?_, ?_⟩
    · rw [positions_set hsave, h.positions, calls_append]
      exact (List.append_nil _).symm
    · have hstill : ∀ q, Completed _ q → Completed tab q := fun q => (hquiet q).mp
      refine h.upToDate_set hsave rfl hsaved (fun _ _ _ _ q hq => .inl (hstill q hq)) fun hstands => ?_
      have hread := (h.upToDate save _ hsave hstands.of_append).mono hsaved
        fun q hq => .inl (hstill q hq)
      exact hread.savedPositions (howner ▸ hload)
  | @failed save position vault message hsave hload =>
    obtain ⟨howner, existing, hload', -⟩ := h.snapshots _ (List.mem_of_getElem? hsave)
    rw [howner, hload'] at hload
    cases hload
  | @written save iv position positions hsave =>
    have hothers : HoldsOthers tab position.commitment positions :=
      h.upToDate save _ hsave (hundisturbed tr save iv [] rfl)
    refine ⟨(noLostUpdate_written hopens hsave (h.snapshots _ (List.mem_of_getElem? hsave))).mpr
      hothers, hsnapshots, ?_, ?_⟩
    · rw [positions_set hsave, h.positions, calls_append]
      exact (List.append_nil _).symm
    · refine h.upToDate_set hsave rfl hsaved (fun k other hother hstands q hq => ?_) fun _ => trivial
      rcases (mem_set_saved hsave (by simp)).mp hq with hbefore | hnew
      · exact .inl hbefore
      · -- the save whose read stands has the commitment just written
        obtain rfl := (Save.mk.inj hnew).1
        exact .inr (hstands.same (h.called hother) (h.called hsave))

/-- Every position that was saved, and every other one that was in the vault, is in the vault. -/
def AllKept (crypto : SubtleCrypto CryptoKey Ciphertext) (wallet : String) (key : CryptoKey)
    (initial : List PrivatePosition) (tr : List SaveEvent) (tab : Tab Ciphertext) : Prop :=
  ∃ stored, loadPrivatePositions crypto tab.storage wallet key = .ok stored ∧
    (∀ position ∈ calls tr, ∃ q ∈ calls tr, record stored position.commitment = some q) ∧
    ∀ commitment p, (∀ position ∈ calls tr, position.commitment ≠ commitment) →
      record initial commitment = some p → record stored commitment = some p

/-- Once all saves have completed, every position is there. -/
theorem Kept.allKept {tr : List SaveEvent} (h : Kept crypto wallet key initial tr tab)
    (hall : ∀ save ∈ tab.saves, save.stage = .saved) :
    AllKept crypto wallet key initial tr tab := by
  obtain ⟨stored, hload, hrecords, hholds⟩ := h.noLostUpdate
  have hcompleted : ∀ position, Completed tab position ↔ position ∈ calls tr := by
    intro position
    rw [← h.positions, List.mem_map]
    constructor
    · exact fun hposition => ⟨_, hposition, rfl⟩
    · rintro ⟨save, hsave, rfl⟩
      have hstage := hall save hsave
      cases save
      cases hstage
      exact hsave
  refine ⟨stored, hload, fun position hposition => ?_, fun commitment p hnone hp => ?_⟩
  · obtain ⟨q, hq, hrecord⟩ := hrecords position.commitment
      ⟨position, (hcompleted position).mpr hposition, rfl⟩
    exact ⟨q, (hcompleted q).mp hq, hrecord⟩
  · refine hholds commitment p ?_ hp
    rintro ⟨position, hposition, hsame⟩
    exact hnone position ((hcompleted position).mp hposition) hsame

/-- **No update is lost where no save of another commitment writes between a save's read and its
write**: in every such interleaving no save fails, nothing is lost at any point of it, and once all
saves have completed the vault has every position that was saved and every other one that was
there. -/
theorem noLostUpdate_of_undisturbed (hopens : crypto.Opens) {storage : LocalStorage Ciphertext}
    (hload : loadPrivatePositions crypto storage wallet key = .ok initial) {tr : List SaveEvent}
    (hundisturbed : Undisturbed tr) (hrun : Run (SaveStep crypto wallet key) ⟨storage, []⟩ tr tab) :
    Run.Throughout (SaveStep crypto wallet key) (NoLostUpdate crypto wallet key initial)
        ⟨storage, []⟩ tr tab ∧
      (∀ save ∈ tab.saves, save.stage ≠ .failed) ∧
      ((∀ save ∈ tab.saves, save.stage = .saved) → AllKept crypto wallet key initial tr tab) := by
  have hkept : ∀ {tr₁ : List SaveEvent} {u : Tab Ciphertext},
      Run (SaveStep crypto wallet key) ⟨storage, []⟩ tr₁ u → Undisturbed tr₁ →
        Kept crypto wallet key initial tr₁ u := by
    intro tr₁ u hu
    refine hu.history (I := fun tr u => Undisturbed tr → Kept crypto wallet key initial tr u) ?_ ?_
    · exact fun tr u event v ih hstep hgood => kept_step hopens (ih hgood.of_append) hgood hstep
    · intro _
      refine ⟨⟨initial, hload, ?_, fun _ _ _ hp => hp⟩, ?_, rfl, ?_⟩
      · rintro commitment ⟨position, hposition, -⟩
        exact absurd hposition List.not_mem_nil
      · exact fun save hmem => absurd hmem List.not_mem_nil
      · intro i save hsave
        cases hsave
  refine ⟨?_, ?_, (hkept hrun hundisturbed).allKept⟩
  · rintro tr₁ u tr₂ rfl hu -
    exact (hkept hu hundisturbed.of_append).noLostUpdate
  · intro save hsave hfailed
    have hholds := ((hkept hrun hundisturbed).snapshots save hsave).2
    rw [hfailed] at hholds
    exact hholds

end

/-! ### Two saves -/

namespace Sample

/-- Two saves read the empty vault before either of them writes. -/
def overlap : List SaveEvent :=
  [.call (prepared alice "0x01"), .call (prepared alice "0x02"), .decrypted 0, .decrypted 1,
    .encrypted 0 "a", .encrypted 1 "b"]

/-- Both saves completed, and the second wrote the vault. -/
def overlapped : Tab (Nat × String × String × Json) where
  storage := encryptVault crypto (encryptVault crypto noVault alice [prepared alice "0x01"] 1 "a")
    alice [prepared alice "0x02"] 1 "b"
  saves := [⟨prepared alice "0x01", .saved⟩, ⟨prepared alice "0x02", .saved⟩]

theorem overlap_run : Run (SaveStep crypto alice 1) ⟨noVault, []⟩ overlap overlapped := by
  have howner : ∀ commitment position, SaveEvent.call (prepared alice commitment) = .call position →
      position.owner = alice := by
    rintro commitment position heq
    cases heq
    rfl
  refine .cons ⟨rfl, howner _⟩ (.cons ⟨rfl, howner _⟩ (.cons ⟨rfl, ?_⟩ (.cons ⟨rfl, ?_⟩
    (.cons ⟨rfl, ?_⟩ (.single ⟨rfl, ?_⟩)))))
  all_goals
    intro position heq
    cases heq

/-- The second save is called when the first has written. -/
def sequence : List SaveEvent :=
  [.call (prepared alice "0x01"), .decrypted 0, .encrypted 0 "a",
    .call (prepared alice "0x02"), .decrypted 1, .encrypted 1 "b"]

/-- Both saves completed, and the second wrote what the first had written. -/
def sequenced : Tab (Nat × String × String × Json) where
  storage := encryptVault crypto (encryptVault crypto noVault alice [prepared alice "0x01"] 1 "a")
    alice [prepared alice "0x02", prepared alice "0x01"] 1 "b"
  saves := [⟨prepared alice "0x01", .saved⟩, ⟨prepared alice "0x02", .saved⟩]

theorem sequence_run : Run (SaveStep crypto alice 1) ⟨noVault, []⟩ sequence sequenced := by
  have howner : ∀ commitment position, SaveEvent.call (prepared alice commitment) = .call position →
      position.owner = alice := by
    rintro commitment position heq
    cases heq
    rfl
  have hload : loadVault crypto alice
      ((encryptVault crypto noVault alice [prepared alice "0x01"] 1 "a").vault alice) 1 =
        .ok [prepared alice "0x01"] :=
    load_encryptVault crypto_opens fun position hmem => by rw [List.mem_singleton.mp hmem]; rfl
  have hopened : saveStep crypto 1 ⟨encryptVault crypto noVault alice [prepared alice "0x01"] 1 "a",
      [⟨prepared alice "0x01", .saved⟩, ⟨prepared alice "0x02", .decrypting
        ((encryptVault crypto noVault alice [prepared alice "0x01"] 1 "a").vault alice)⟩]⟩
      (.decrypted 1) =
        some ⟨encryptVault crypto noVault alice [prepared alice "0x01"] 1 "a",
          [⟨prepared alice "0x01", .saved⟩, ⟨prepared alice "0x02",
            .encrypting [prepared alice "0x02", prepared alice "0x01"]⟩]⟩ := by
    have hload : loadVault crypto (prepared alice "0x02").owner
        ((encryptVault crypto noVault alice [prepared alice "0x01"] 1 "a").vault alice) 1 =
          .ok [prepared alice "0x01"] := hload
    simp only [saveStep, List.getElem?_cons_succ, List.getElem?_cons_zero, hload]
    rfl
  refine .cons ⟨rfl, howner _⟩ (.cons ⟨rfl, ?_⟩ (.cons ⟨rfl, ?_⟩ (.cons ⟨rfl, howner _⟩
    (.cons ⟨hopened, ?_⟩ (.single ⟨rfl, ?_⟩)))))
  all_goals
    intro position heq
    cases heq

theorem sequence_undisturbed : Undisturbed sequence := by
  have hfirst : ReadStands ([] ++ [.call (prepared alice "0x01")]) 0 := .called rfl
  have hsecond : ReadStands ([.call (prepared alice "0x01"), .decrypted 0, .encrypted 0 "a"] ++
      [.call (prepared alice "0x02")]) 1 := .called rfl
  exact ((((Undisturbed.nil.called _).decrypted 0).written (hfirst.decrypted 0) "a").called
    _).decrypted 1 |>.written (hsecond.decrypted 1) "b"

end Sample

open Nortia.Web.Sample in
/-- The second save keeps what the first one wrote. -/
theorem noLostUpdate_of_undisturbed_sample :
    NoLostUpdate crypto alice 1 [] sequenced ∧ AllKept crypto alice 1 [] sequence sequenced := by
  obtain ⟨hthroughout, -, hkept⟩ :=
    noLostUpdate_of_undisturbed crypto_opens rfl sequence_undisturbed sequence_run
  refine ⟨hthroughout sequence sequenced [] rfl sequence_run (.nil _), hkept fun save hmem => ?_⟩
  rcases List.mem_cons.mp hmem with rfl | hmem
  · rfl
  · rw [List.mem_singleton.mp hmem]

open Nortia.Web.Sample in
/-- Of two overlapping saves of different orders, the first is lost. -/
theorem overlapping_saves_lose_one : ∃ tab, Run (SaveStep crypto alice 1) ⟨noVault, []⟩ overlap tab ∧
    Completed tab (prepared alice "0x01") ∧ Completed tab (prepared alice "0x02") ∧
      ¬NoLostUpdate crypto alice 1 [] tab := by
  refine ⟨overlapped, overlap_run, List.mem_cons_self, List.mem_cons_of_mem _ List.mem_cons_self, ?_⟩
  rintro ⟨stored, hload, hrecords, -⟩
  have hstored : loadPrivatePositions crypto overlapped.storage alice 1 =
      .ok [prepared alice "0x02"] :=
    load_encryptVault crypto_opens fun position hmem => by rw [List.mem_singleton.mp hmem]; rfl
  obtain rfl := Except.ok.inj (hstored.symm.trans hload)
  obtain ⟨q, -, hrecord⟩ := hrecords "0x01" ⟨_, List.mem_cons_self, rfl⟩
  cases hrecord

end Nortia.Web
