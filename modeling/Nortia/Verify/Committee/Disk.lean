import Nortia.Verify.Committee.Service

/-!
# Files under the handlers of a committee member

Where one handler at a time opens, writes and moves the temporary file, it is the only writer of that
file, and nobody writes to the state file.
-/

namespace Nortia.Services.CommitteeServer

section

variable {Ciphertext : Type}

/-- The handler has opened the temporary file, and not moved it yet. -/
def Handler.isOpen : Handler Ciphertext → Bool
  | .persisting _ (.writing _) => true
  | .persisting _ .moving => true
  | _ => false

/-- The handler writes no more. -/
def Handler.isDone : Handler Ciphertext → Bool
  | .persisting _ .moved => true
  | .responded _ => true
  | _ => false

/-- The temporary file is written by the handler that stores, and the state file by none. -/
structure Disk (handlers : List (Handler Ciphertext)) (file temporary : Option (File Ciphertext)) :
    Prop where
  opened : ∀ (i : Nat) (h : Handler Ciphertext), handlers[i]? = some h → h.isOpen = true →
    ∃ f, temporary = some f ∧ f.writers = [i]
  writes : ∀ (f : File Ciphertext) (i : Nat), temporary = some f → i ∈ f.writers →
    ∃ h, handlers[i]? = some h ∧ h.isOpen = true
  done : ∀ (f : File Ciphertext) (i : Nat), file = some f → i ∈ f.writers →
    ∃ h, handlers[i]? = some h ∧ h.isDone = true

namespace Disk

variable {handlers : List (Handler Ciphertext)} {file temporary : Option (File Ciphertext)}
variable {handler : Nat} {old next : Handler Ciphertext} {contents : StateFile Ciphertext}
  {intact : Bool}

theorem not_isDone (h : old.isOpen = true) : old.isDone = false := by
  unfold Handler.isOpen at h
  split at h
  · rfl
  · rfl
  · cases h

/-- Where one handler goes on and keeps a property, a handler that has it is still there. -/
theorem exists_set {p : Handler Ciphertext → Bool} (hold : handlers[handler]? = some old)
    (hkept : p old = true → p next = true) {i : Nat}
    (h : ∃ other, handlers[i]? = some other ∧ p other = true) :
    ∃ other, (handlers.set handler next)[i]? = some other ∧ p other = true := by
  obtain ⟨other, hother, hp⟩ := h
  rcases eq_or_ne handler i with rfl | hne
  · rw [hold] at hother
    cases hother
    exact ⟨next, List.getElem?_set_self (List.getElem?_eq_some_iff.mp hold).1, hkept hp⟩
  · exact ⟨other, (List.getElem?_set_ne hne).trans hother, hp⟩

theorem start (h : Disk handlers file temporary) (hnext : next.isOpen = false) :
    Disk (handlers ++ [next]) file temporary := by
  have hkept : ∀ {i : Nat} {other : Handler Ciphertext}, handlers[i]? = some other →
      (handlers ++ [next])[i]? = some other := by
    intro i other hi
    rw [List.getElem?_append_left (List.getElem?_eq_some_iff.mp hi).1, hi]
  constructor
  case opened =>
    intro i other hi hopen
    rw [List.getElem?_append] at hi
    split at hi
    · exact h.opened i other hi hopen
    · have hmem := List.mem_singleton.mp (List.mem_of_getElem? hi)
      rw [hmem, hnext] at hopen
      cases hopen
  case writes =>
    intro f i hf hi
    obtain ⟨other, hother, hopen⟩ := h.writes f i hf hi
    exact ⟨other, hkept hother, hopen⟩
  case done =>
    intro f i hf hi
    obtain ⟨other, hother, hdone⟩ := h.done f i hf hi
    exact ⟨other, hkept hother, hdone⟩

/-- A handler that has no file open goes on. -/
theorem set (h : Disk handlers file temporary) (hold : handlers[handler]? = some old)
    (hopen : old.isOpen = false) (hnext : next.isOpen = false)
    (hdone : old.isDone = true → next.isDone = true) :
    Disk (handlers.set handler next) file temporary := by
  have hself : (handlers.set handler next)[handler]? = some next :=
    List.getElem?_set_self (List.getElem?_eq_some_iff.mp hold).1
  constructor
  case opened =>
    intro i other hi hother
    rcases eq_or_ne handler i with rfl | hne
    · rw [hself] at hi
      cases hi
      rw [hnext] at hother
      cases hother
    · rw [List.getElem?_set_ne hne] at hi
      exact h.opened i other hi hother
  case writes =>
    intro f i hf hi
    refine exists_set hold (fun hisOpen => ?_) (h.writes f i hf hi)
    rw [hopen] at hisOpen
    cases hisOpen
  case done =>
    intro f i hf hi
    exact exists_set hold hdone (h.done f i hf hi)

/-- The temporary file is opened while nobody else has it open. -/
theorem openTemporary (h : Disk handlers file temporary) (hold : handlers[handler]? = some old)
    (hclosed : ∀ (i : Nat) (other : Handler Ciphertext), handlers[i]? = some other →
      other.isOpen = false) (hdone : old.isDone = false) (hnext : next.isOpen = true) :
    Disk (handlers.set handler next) file
      (some ⟨.torn, handler :: (temporary.map File.writers).getD []⟩) := by
  have hself : (handlers.set handler next)[handler]? = some next :=
    List.getElem?_set_self (List.getElem?_eq_some_iff.mp hold).1
  have hnone : (temporary.map File.writers).getD [] = [] := by
    cases htemporary : temporary with
    | none => rfl
    | some f =>
      refine List.eq_nil_iff_forall_not_mem.mpr fun i hi => ?_
      obtain ⟨other, hother, hopen⟩ := h.writes f i htemporary hi
      rw [hclosed i other hother] at hopen
      cases hopen
  rw [hnone]
  constructor
  case opened =>
    intro i other hi hopen
    rcases eq_or_ne handler i with rfl | hne
    · exact ⟨_, rfl, rfl⟩
    · rw [List.getElem?_set_ne hne] at hi
      rw [hclosed i other hi] at hopen
      cases hopen
  case writes =>
    intro f i hf hi
    cases hf
    cases List.mem_singleton.mp hi
    exact ⟨next, hself, hnext⟩
  case done =>
    intro f i hf hi
    refine exists_set hold (fun hisDone => ?_) (h.done f i hf hi)
    rw [hdone] at hisDone
    cases hisDone

/-- A handler that has its file open does not write to the state file. -/
theorem file_write (h : Disk handlers file temporary) (hold : handlers[handler]? = some old)
    (hopen : old.isOpen = true) : file.map (·.write handler contents intact) = file := by
  cases hfile : file with
  | none => rfl
  | some f =>
    refine congrArg some (File.write_of_notMem fun hmem => ?_)
    obtain ⟨other, hother, hdone⟩ := h.done f handler hfile hmem
    rw [hold] at hother
    cases hother
    rw [not_isDone hopen] at hdone
    cases hdone

/-- A handler writes to the temporary file, and has it open still. -/
theorem write (h : Disk handlers file temporary) (hold : handlers[handler]? = some old)
    (hopen : old.isOpen = true) (hnext : next.isOpen = true) :
    Disk (handlers.set handler next) file (temporary.map (·.write handler contents intact)) := by
  constructor
  case opened =>
    intro i other hi hother
    have hfile : ∃ f, temporary = some f ∧ f.writers = [i] := by
      rcases eq_or_ne handler i with rfl | hne
      · exact h.opened handler old hold hopen
      · rw [List.getElem?_set_ne hne] at hi
        exact h.opened i other hi hother
    obtain ⟨f, hf, hwriters⟩ := hfile
    exact ⟨_, by rw [hf, Option.map_some], by rw [File.writers_write, hwriters]⟩
  case writes =>
    intro f i hf hi
    obtain ⟨g, hg, rfl⟩ := Option.map_eq_some_iff.mp hf
    rw [File.writers_write] at hi
    exact exists_set hold (fun _ => hnext) (h.writes g i hg hi)
  case done =>
    intro f i hf hi
    refine exists_set hold (fun hisDone => ?_) (h.done f i hf hi)
    rw [not_isDone hopen] at hisDone
    cases hisDone

/-- The temporary file is moved into place by the handler that has it open. -/
theorem rename {f : File Ciphertext} (h : Disk handlers file temporary)
    (hold : handlers[handler]? = some old) (hopen : old.isOpen = true)
    (hnext : next.isOpen = false) (hdone : next.isDone = true) (htemporary : temporary = some f) :
    Disk (handlers.set handler next) (some f) none := by
  obtain ⟨g, hg, hwriters⟩ := h.opened handler old hold hopen
  cases hg.symm.trans htemporary
  have hself : (handlers.set handler next)[handler]? = some next :=
    List.getElem?_set_self (List.getElem?_eq_some_iff.mp hold).1
  constructor
  case opened =>
    intro i other hi hother
    rcases eq_or_ne handler i with rfl | hne
    · rw [hself] at hi
      cases hi
      rw [hnext] at hother
      cases hother
    · -- no other handler has a file open
      rw [List.getElem?_set_ne hne] at hi
      obtain ⟨g', hg', hwriters'⟩ := h.opened i other hi hother
      cases hg'.symm.trans htemporary
      rw [hwriters] at hwriters'
      exact absurd (List.singleton_inj.mp hwriters') hne
  case writes =>
    intro g' i hg' hi
    cases hg'
  case done =>
    intro g' i hg' hi
    cases hg'
    rw [hwriters] at hi
    cases List.mem_singleton.mp hi
    exact ⟨next, hself, hdone⟩

end Disk

end

end Nortia.Services.CommitteeServer
