import Nortia.Services.Relayer

/-!
# The relay queue

The counter always counts the accepted jobs that have not finished, and no failure blocks the jobs
after it. The bound fails: handlers that passed the check together are all accepted. It holds where
every request is admitted with room left for those that still wait for their bodies, and an
admission without room is one that bodies alone carry over the bound.
-/

namespace Nortia.Services.Relayer

open Lib

variable {s s' : Relayer} {a : Action} {tr : List Action}

/-! ## One step -/

/-- The handlers past the check of the counter whose bodies have not arrived. -/
def waiting (s : Relayer) : Nat := s.handlers.countP Handler.isReading

/-- Replacing an entry of a list changes a count by what the entry counts. -/
theorem countP_set_add {α : Type} (p : α → Bool) {entries : List α} {i : Nat} {before : α}
    (after : α) (h : entries[i]? = some before) :
    (entries.set i after).countP p + (p before).toNat =
      entries.countP p + (p after).toNat := by
  obtain ⟨hlt, rfl⟩ := List.getElem?_eq_some_iff.mp h
  rw [List.countP_set hlt]
  cases hbefore : p entries[i]
  · cases p after <;> simp
  · have hpos : 0 < entries.countP p := List.countP_pos_iff.mpr ⟨_, List.getElem_mem hlt, hbefore⟩
    cases p after <;> simp <;> omega

/-- A handler that answers at once waits for no body. -/
theorem countP_isReading_responded (handlers : List Handler) (status : Nat) :
    (handlers ++ [Handler.responded status]).countP Handler.isReading =
      handlers.countP Handler.isReading := by
  rw [List.countP_append]
  rfl

/-- A handler that is admitted waits for its body. -/
theorem waiting_admitted (s : Relayer) :
    waiting { s with handlers := s.handlers ++ [.reading] } = waiting s + 1 := by
  rw [waiting, List.countP_append]
  rfl

/-- What a step does to the counter, the jobs and the bodies that are awaited. -/
inductive Effect (s : Relayer) : Action → Relayer → Prop
  | admitted {s' : Relayer} (hbelow : s.pendingRedemptions < maxPendingRedemptions)
    (hpending : s'.pendingRedemptions = s.pendingRedemptions) (hjobs : s'.jobs = s.jobs)
    (hwaiting : waiting s' = waiting s + 1) : Effect s .redeem s'
  | kept {a : Action} {s' : Relayer} (hpending : s'.pendingRedemptions = s.pendingRedemptions)
    (hjobs : s'.jobs = s.jobs) (hwaiting : waiting s' ≤ waiting s) : Effect s a s'
  | accepted {handler : Nat} {s' : Relayer}
    (hpending : s'.pendingRedemptions = s.pendingRedemptions + 1)
    (hjobs : s'.jobs = s.jobs ++ [.chained]) (hwaiting : waiting s' + 1 = waiting s) :
    Effect s (.body handler true) s'
  | moved {a : Action} {s' : Relayer} {job : Nat} {before after : Job}
    (hjob : s.jobs[job]? = some before)
    (hbefore : before.isFinished = false) (hafter : after.isFinished = false)
    (hpending : s'.pendingRedemptions = s.pendingRedemptions)
    (hjobs : s'.jobs = s.jobs.set job after) (hwaiting : waiting s' = waiting s) : Effect s a s'
  | finished {job : Nat} {relayed : Bool} {s' : Relayer}
    (hjob : s.jobs[job]? = some (.settled relayed))
    (hpending : s'.pendingRedemptions = s.pendingRedemptions - 1)
    (hjobs : s'.jobs = s.jobs.set job (.finished relayed)) (hwaiting : waiting s' = waiting s) :
    Effect s (.finish job) s'

theorem step_effect (h : Step s a s') : Effect s a s' := by
  cases a with
  | refuse status =>
    cases h
    exact .kept rfl rfl (Nat.le_of_eq (countP_isReading_responded s.handlers status))
  | redeem =>
    simp only [Step, step] at h
    split at h
    · cases h
      exact .kept rfl rfl (Nat.le_of_eq (countP_isReading_responded s.handlers 429))
    · next hbelow =>
      cases h
      exact .admitted (Int.not_le.mp hbelow) rfl rfl (waiting_admitted s)
  | body handler valid =>
    simp only [Step, step] at h
    split at h
    · next hreading =>
      cases valid with
      | false =>
        cases h
        have hcount : _ + 1 = _ + 0 :=
          countP_set_add Handler.isReading (.responded 400) hreading
        exact .kept rfl rfl (Nat.le_of_succ_le (Nat.le_of_eq hcount))
      | true =>
        cases h
        have hcount : _ + 1 = _ + 0 :=
          countP_set_add Handler.isReading (.awaiting s.jobs.length) hreading
        exact .accepted rfl rfl hcount
    · cases h
  | relay job =>
    simp only [Step, step] at h
    split at h
    · next hjob =>
      split at h
      · cases h
        exact .moved hjob rfl rfl rfl rfl rfl
      · cases h
    · cases h
  | settle job relayed =>
    simp only [Step, step] at h
    split at h
    · next hjob =>
      cases h
      exact .moved hjob rfl rfl rfl rfl rfl
    · cases h
  | finish job =>
    simp only [Step, step] at h
    split at h
    · next hjob =>
      cases h
      exact .finished hjob rfl rfl rfl
    · cases h
  | respond handler =>
    simp only [Step, step] at h
    split at h
    · next hawaiting =>
      split at h
      · next relayed _ =>
        cases h
        have hcount := countP_set_add Handler.isReading
          (.responded (if relayed then 200 else 400)) hawaiting
        exact .kept rfl rfl (Nat.le_of_eq (Nat.add_right_cancel hcount))
      · cases h
    · cases h

/-! ## The counter counts -/

def Exact (s : Relayer) : Prop := s.pendingRedemptions = unfinished s

theorem exact_step (he : Exact s) (h : Step s a s') : Exact s' := by
  unfold Exact unfinished at *
  cases step_effect h with
  | admitted _ hpending hjobs => rw [hpending, hjobs, he]
  | kept hpending hjobs => rw [hpending, hjobs, he]
  | accepted hpending hjobs =>
    rw [hpending, hjobs, he, List.countP_append]
    rfl
  | @moved _ _ job before after hjob hbefore hafter hpending hjobs =>
    have hcount := countP_set_add (fun job => !job.isFinished) after hjob
    rw [hbefore, hafter] at hcount
    rw [hpending, hjobs, he, Nat.add_right_cancel hcount]
  | @finished job relayed _ hjob hpending hjobs =>
    have hcount := countP_set_add (fun job => !job.isFinished) (.finished relayed) hjob
    have hcount : _ + 1 = _ + 0 := hcount
    rw [hpending, hjobs, he]
    omega

/-! ## Every job gets its turn -/

/-- How a job that stands somewhere may end, given the answer a relay would get. -/
def EndsWith (answer relayed : Bool) : Job → Prop
  | .chained | .relaying => relayed = answer
  | .settled known | .finished known => relayed = known

/-- The queue finishes every job it holds, whatever the answers to those still to be relayed. -/
def Drains (s : Relayer) : Prop :=
  ∀ answers : Nat → Bool, ∃ tr s', Run Step s tr s' ∧ s'.jobs.length = s.jobs.length ∧
    ∀ job before, s.jobs[job]? = some before → ∃ relayed,
      s'.jobs[job]? = some (.finished relayed) ∧ EndsWith (answers job) relayed before

/-- Every job before an index is finished. -/
def FinishedBefore (jobs : List Job) (k : Nat) : Prop :=
  ∀ i < k, ∃ relayed, jobs[i]? = some (.finished relayed)

theorem FinishedBefore.isNext {k : Nat} (h : FinishedBefore s.jobs k) : isNext s.jobs k = true := by
  cases k with
  | zero => rfl
  | succ k =>
    obtain ⟨relayed, hjob⟩ := h k (Nat.lt_succ_self k)
    rw [Relayer.isNext, hjob]
    rfl

section Turn

variable {k : Nat}

theorem finish_settled {relayed : Bool} (h : s.jobs[k]? = some (.settled relayed)) :
    ∃ s', Step s (.finish k) s' ∧ s'.jobs = s.jobs.set k (.finished relayed) := by
  refine ⟨{ s with
    pendingRedemptions := s.pendingRedemptions - 1
    jobs := s.jobs.set k (.finished relayed) }, ?_, rfl⟩
  simp only [Step, step, h]

theorem finish_relaying (h : s.jobs[k]? = some .relaying) (answer : Bool) :
    ∃ tr s', Run Step s tr s' ∧ s'.jobs = s.jobs.set k (.finished answer) := by
  obtain ⟨hlt, -⟩ := List.getElem?_eq_some_iff.mp h
  have hsettle : Step s (.settle k answer) { s with jobs := s.jobs.set k (.settled answer) } := by
    simp only [Step, step, h]
  have hsettled : (s.jobs.set k (.settled answer))[k]? = some (.settled answer) :=
    List.getElem?_set_self hlt
  obtain ⟨s', hfinish, hjobs⟩ :=
    finish_settled (s := { s with jobs := s.jobs.set k (.settled answer) }) hsettled
  exact ⟨_, s', .cons hsettle (.single hfinish), hjobs.trans (List.set_set _)⟩

/-- The first job that has not finished can be finished. -/
theorem finish_next (hprev : FinishedBefore s.jobs k) (answer : Bool) {job : Job}
    (hjob : s.jobs[k]? = some job) :
    ∃ tr s' relayed, Run Step s tr s' ∧ s'.jobs = s.jobs.set k (.finished relayed) ∧
      EndsWith answer relayed job := by
  obtain ⟨hk, -⟩ := List.getElem?_eq_some_iff.mp hjob
  cases job with
  | chained =>
    have hrelay : Step s (.relay k) { s with jobs := s.jobs.set k .relaying } := by
      simp only [Step, step, hjob, hprev.isNext, if_true]
    obtain ⟨tr, s', hrun, hjobs⟩ := finish_relaying (k := k)
      (s := { s with jobs := s.jobs.set k .relaying }) (List.getElem?_set_self hk) answer
    exact ⟨_, s', answer, .cons hrelay hrun, hjobs.trans (List.set_set _), rfl⟩
  | relaying =>
    obtain ⟨tr, s', hrun, hjobs⟩ := finish_relaying hjob answer
    exact ⟨tr, s', answer, hrun, hjobs, rfl⟩
  | settled relayed =>
    obtain ⟨s', hfinish, hjobs⟩ := finish_settled hjob
    exact ⟨_, s', relayed, .single hfinish, hjobs, rfl⟩
  | finished relayed =>
    have hsame : s.jobs.set k (.finished relayed) = s.jobs := by
      obtain ⟨_, hvalue⟩ := List.getElem?_eq_some_iff.mp hjob
      rw [← hvalue]
      exact List.set_getElem_self hk
    exact ⟨[], s, relayed, .nil s, hsame.symm, rfl⟩

end Turn

/-- With the first jobs finished, the rest finish in their sequence. -/
theorem drains_from (answers : Nat → Bool) : ∀ (rest k : Nat) (s : Relayer),
    k + rest = s.jobs.length → FinishedBefore s.jobs k →
      ∃ tr s', Run Step s tr s' ∧ s'.jobs.length = s.jobs.length ∧
        ∀ job before, s.jobs[job]? = some before → ∃ relayed,
          s'.jobs[job]? = some (.finished relayed) ∧ EndsWith (answers job) relayed before := by
  intro rest
  induction rest with
  | zero =>
    intro k s hlength hprev
    refine ⟨[], s, .nil s, rfl, fun job before hjob => ?_⟩
    obtain ⟨hlt, -⟩ := List.getElem?_eq_some_iff.mp hjob
    obtain ⟨relayed, hfinished⟩ := hprev job (by omega)
    obtain rfl := Option.some.inj (hfinished.symm.trans hjob)
    exact ⟨relayed, hfinished, rfl⟩
  | succ rest ih =>
    intro k s hlength hprev
    have hk : k < s.jobs.length := by omega
    obtain ⟨tr, t, relayed, hrun, hjobs, hends⟩ := finish_next hprev (answers k)
      (List.getElem?_eq_getElem hk)
    have hsame : t.jobs.length = s.jobs.length := by rw [hjobs, List.length_set]
    have hself : t.jobs[k]? = some (.finished relayed) := by
      rw [hjobs]
      exact List.getElem?_set_self hk
    have hother : ∀ i, i ≠ k → t.jobs[i]? = s.jobs[i]? := by
      intro i hi
      rw [hjobs]
      exact List.getElem?_set_ne (Ne.symm hi)
    have hnext : FinishedBefore t.jobs (k + 1) := by
      intro i hi
      by_cases hik : i = k
      · exact ⟨relayed, hik ▸ hself⟩
      · rw [hother i hik]
        exact hprev i (by omega)
    obtain ⟨tr', s', hrest, hlength', hall⟩ := ih (k + 1) t (by omega) hnext
    refine ⟨_, s', hrun.append hrest, hlength'.trans hsame, fun job before hjob => ?_⟩
    by_cases hjk : job = k
    · subst hjk
      -- the job is finished by now, and ends as it stands
      obtain ⟨relayed', hfinished, rfl⟩ := hall job _ hself
      rw [List.getElem?_eq_getElem hk, Option.some.injEq] at hjob
      exact ⟨relayed', hfinished, hjob ▸ hends⟩
    · exact hall job before ((hother job hjk).trans hjob)

theorem drains (s : Relayer) : Drains s := by
  intro answers
  exact drains_from answers s.jobs.length 0 s (Nat.zero_add _)
    fun i hi => absurd hi (Nat.not_lt_zero i)

/-! ## Over every run -/

/-- The queue as it should be. -/
structure Sound (s : Relayer) : Prop where
  bounded : s.pendingRedemptions ≤ maxPendingRedemptions
  nonneg : 0 ≤ s.pendingRedemptions
  exact : s.pendingRedemptions = unfinished s
  drains : Drains s

theorem sound_of_exact (he : Exact s) (hbounded : s.pendingRedemptions ≤ maxPendingRedemptions) :
    Sound s := by
  refine ⟨hbounded, ?_, he, drains s⟩
  rw [he]
  exact Int.natCast_nonneg _

/-! ## Admissions -/

/-- Where a request is admitted, the accepted jobs and the handlers that wait for their bodies are
together below the maximum. -/
def RoomLeft (s : Relayer) (a : Action) : Prop :=
  a = .redeem → s.pendingRedemptions < maxPendingRedemptions →
    s.pendingRedemptions + waiting s < maxPendingRedemptions

instance : Decidable (RoomLeft s a) := inferInstanceAs (Decidable (_ → _ → _))

/-- The accepted jobs and the bodies still awaited fit the queue together. -/
structure Booked (s : Relayer) : Prop where
  exact : Exact s
  fits : s.pendingRedemptions + waiting s ≤ maxPendingRedemptions

theorem booked_init : Booked init := ⟨rfl, by decide⟩

theorem Booked.sound (h : Booked s) : Sound s :=
  sound_of_exact h.exact (by have := h.fits; omega)

/-- A step books one more place only where it admits a request. -/
theorem step_books (h : Step s a s') :
    (a = .redeem ∧ s.pendingRedemptions < maxPendingRedemptions ∧
      s'.pendingRedemptions + waiting s' = s.pendingRedemptions + waiting s + 1) ∨
    s'.pendingRedemptions + waiting s' ≤ s.pendingRedemptions + waiting s := by
  cases step_effect h with
  | admitted hbelow hpending _ hwaiting => exact .inl ⟨rfl, hbelow, by omega⟩
  | kept hpending _ hwaiting => exact .inr (by omega)
  | accepted hpending _ hwaiting => exact .inr (by omega)
  | moved _ _ _ hpending _ hwaiting => exact .inr (by omega)
  | finished _ hpending _ hwaiting => exact .inr (by omega)

/-- Admitting requests only with room left keeps the places booked within the maximum. -/
theorem booked_step (hroom : RoomLeft s a) (hs : Booked s) (h : Step s a s') : Booked s' := by
  refine ⟨exact_step hs.exact h, ?_⟩
  rcases step_books h with ⟨ha, hbelow, hbooks⟩ | hbooks
  · have hleft := hroom ha hbelow
    omega
  · have hfits := hs.fits
    omega

/-! ## An admission without room -/

/-- The awaited bodies can all arrive, each of them accepted. -/
theorem accept_waiting : ∀ (n : Nat) (s : Relayer), waiting s = n →
    ∃ tr s', Run Step s tr s' ∧ s'.pendingRedemptions = s.pendingRedemptions + n := by
  intro n
  induction n with
  | zero => exact fun s _ => ⟨[], s, .nil s, (Int.add_zero _).symm⟩
  | succ n ih =>
    intro s hwaiting
    have hpos : 0 < s.handlers.countP Handler.isReading := by
      rw [waiting] at hwaiting
      omega
    obtain ⟨handler, hmem, hreading⟩ := List.countP_pos_iff.mp hpos
    obtain ⟨i, hi⟩ := List.mem_iff_getElem?.mp hmem
    obtain rfl : handler = .reading := by
      cases handler with
      | reading => rfl
      | awaiting job => cases hreading
      | responded status => cases hreading
    obtain ⟨t, ht, hpending, hhandlers⟩ : ∃ t, Step s (.body i true) t ∧
        t.pendingRedemptions = s.pendingRedemptions + 1 ∧
        t.handlers = s.handlers.set i (.awaiting s.jobs.length) := by
      refine ⟨{
        pendingRedemptions := s.pendingRedemptions + 1
        handlers := s.handlers.set i (.awaiting s.jobs.length)
        jobs := s.jobs ++ [.chained] }, ?_, rfl, rfl⟩
      simp only [Step, step, hi, if_true]
    have hcount : _ + 1 = _ + 0 :=
      countP_set_add Handler.isReading (.awaiting s.jobs.length) hi
    have hrest : waiting t = n := by
      rw [waiting] at hwaiting ⊢
      rw [hhandlers]
      omega
    obtain ⟨tr, s', hrun, hreached⟩ := ih t hrest
    exact ⟨_, s', .cons ht hrun, by omega⟩

/-- After an admission without room, the bodies that wait carry the counter over its maximum. -/
theorem overrun_of_no_room (hroom : ¬RoomLeft s a) :
    ∃ tr s', Run Step s (a :: tr) s' ∧ maxPendingRedemptions < s'.pendingRedemptions := by
  simp only [RoomLeft, Classical.not_imp] at hroom
  obtain ⟨rfl, hbelow, hfull⟩ := hroom
  have hadmit : Step s .redeem { s with handlers := s.handlers ++ [.reading] } := by
    simp only [Step, step, if_neg (Int.not_le.mpr hbelow)]
  obtain ⟨tr, s', hrun, hpending⟩ := accept_waiting _ _ (waiting_admitted s)
  refine ⟨tr, s', .cons hadmit hrun, ?_⟩
  have hpending : s'.pendingRedemptions = s.pendingRedemptions + (waiting s + 1 : Nat) := hpending
  omega

/-- **The queue is sound throughout every run that admits requests only with room left** for the
bodies still awaited; and a request admitted without room, in whatever state, is followed by a run
that is not sound. -/
theorem sound_of_roomLeft {tr : List Action} {s : Relayer} (hrun : Run Step init tr s) :
    (Run.EveryStep Step RoomLeft init tr s → Run.Throughout Step Sound init tr s) ∧
    ∀ a, ¬RoomLeft s a → ∃ tr' s', Run Step init (tr ++ a :: tr') s' ∧ ¬Sound s' := by
  constructor
  · intro hroom
    exact (hroom.throughout booked_init fun _ _ _ hleft hs ha => booked_step hleft hs ha).mono
      fun _ => Booked.sound
  · intro a hfull
    obtain ⟨tr', s', hrest, hover⟩ := overrun_of_no_room hfull
    refine ⟨tr', s', hrun.append hrest, fun hsound => ?_⟩
    have hbounded := hsound.bounded
    omega

/-- Eight requests are admitted and accepted, and the ninth is answered that the queue is full. -/
def full : List Action :=
  List.replicate 8 .redeem ++ (List.range 8).map (Action.body · true) ++ [.redeem]

theorem sound_of_roomLeft_sample :
    (∃ s, Run Step init full s ∧ s.pendingRedemptions = 8 ∧
      Run.Throughout Step Sound init full s) ∧
    ∃ tr' s', Run Step init (List.replicate 8 .redeem ++ .redeem :: tr') s' ∧ ¬Sound s' := by
  constructor
  · have hvalue : (full.foldlM (fun s a => if decide (RoomLeft s a) then step s a else none)
        init).map Relayer.pendingRedemptions = some 8 := by decide
    obtain ⟨s, hs, height⟩ := Option.map_eq_some_iff.mp hvalue
    obtain ⟨hrun, hevery⟩ := Run.everyStep_of_foldlM hs
    refine ⟨s, hrun, height, (sound_of_roomLeft hrun).1 ?_⟩
    intro tr₁ u a v tr₂ htr hu ha hrest
    exact of_decide_eq_true (hevery tr₁ u a v tr₂ htr hu ha hrest)
  · have hvalue : ((List.replicate 8 Action.redeem).foldlM step init).map
        (fun s => decide (RoomLeft s .redeem)) = some false := by decide
    obtain ⟨s, hs, hroom⟩ := Option.map_eq_some_iff.mp hvalue
    exact (sound_of_roomLeft (Run.of_foldlM hs)).2 .redeem (of_decide_eq_false hroom)

/-- Nine requests pass the check before the body of the first arrives. -/
def rush : List Action := List.replicate 9 .redeem ++ (List.range 9).map (Action.body · true)

/-- Nine handlers that passed the check together are all accepted. -/
theorem nine_pending : ∃ s, Run Step init rush s ∧ s.pendingRedemptions = 9 ∧ ¬Sound s := by
  have hvalue : (rush.foldlM step init).map Relayer.pendingRedemptions = some 9 := by decide
  obtain ⟨s, hs, hnine⟩ := Option.map_eq_some_iff.mp hvalue
  refine ⟨s, Run.of_foldlM hs, hnine, fun hsound => ?_⟩
  have hbounded := hsound.bounded
  rw [hnine] at hbounded
  exact absurd hbounded (by decide)

end Nortia.Services.Relayer
