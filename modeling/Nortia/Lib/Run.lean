/-!
# Runs of a labelled transition system

A run lists the labels of the steps taken. The one induction over runs that invariants need is
made here (`Run.invariant`), and a run is cut at any point of its trace (`Run.split`).
-/

namespace Lib

variable {σ α : Type}

/-- The runs of `step`: from a state, along a list of labels, to a state. -/
inductive Run (step : σ → α → σ → Prop) : σ → List α → σ → Prop
  | nil (s : σ) : Run step s [] s
  | snoc {s t u : σ} {tr : List α} {a : α} : Run step s tr t → step t a u →
      Run step s (tr ++ [a]) u

namespace Run

variable {step : σ → α → σ → Prop} {s t u : σ} {tr tr' : List α} {a : α}

theorem single (h : step s a t) : Run step s [a] t := .snoc (.nil s) h

theorem append (h : Run step s tr t) (h' : Run step t tr' u) : Run step s (tr ++ tr') u := by
  induction h' with
  | nil => simpa using h
  | snoc _ hstep ih =>
    rw [← List.append_assoc]
    exact .snoc ih hstep

theorem cons (h : step s a t) (h' : Run step t tr u) : Run step s (a :: tr) u :=
  (single h).append h'

/-- A property kept by every step holds at the end of every run that starts with it. -/
theorem invariant {I : σ → Prop} (hstep : ∀ s a t, I s → step s a t → I t)
    (h : Run step s tr t) (hs : I s) : I t := by
  induction h with
  | nil => exact hs
  | snoc _ ha ih => exact hstep _ _ _ ih ha

/-- A property of the labels so far and the state, kept by every step, holds along every run. -/
theorem history {I : List α → σ → Prop}
    (hstep : ∀ tr s a t, I tr s → step s a t → I (tr ++ [a]) t) (h : Run step s tr t)
    (hs : I [] s) : I tr t := by
  induction h with
  | nil => exact hs
  | snoc _ ha ih => exact hstep _ _ _ _ ih ha

/-- A run splits at every point of its trace. -/
theorem split : ∀ {tr' : List α} {u : σ}, Run step s (tr ++ tr') u →
    ∃ t, Run step s tr t ∧ Run step t tr' u := by
  intro tr' u h
  generalize htr : tr ++ tr' = full at h
  induction h generalizing tr' with
  | nil =>
    obtain ⟨rfl, rfl⟩ := List.append_eq_nil_iff.mp htr
    exact ⟨s, .nil s, .nil s⟩
  | @snoc m v init b hinit hb ih =>
    rcases List.eq_nil_or_concat tr' with rfl | ⟨pre, last, rfl⟩
    · rw [List.append_nil] at htr
      subst htr
      exact ⟨v, .snoc hinit hb, .nil v⟩
    · rw [List.concat_eq_append, ← List.append_assoc] at htr
      obtain ⟨hpre, hlast⟩ := List.append_inj' htr rfl
      obtain ⟨t, ht, hrest⟩ := ih hpre
      rw [List.cons.injEq] at hlast
      obtain ⟨rfl, -⟩ := hlast
      rw [List.concat_eq_append]
      exact ⟨t, ht, .snoc hrest hb⟩

/-! ## Along a run -/

/-- Every state of a run has a property. -/
def Throughout (step : σ → α → σ → Prop) (P : σ → Prop) (s : σ) (tr : List α) (t : σ) : Prop :=
  ∀ tr₁ u tr₂, tr = tr₁ ++ tr₂ → Run step s tr₁ u → Run step u tr₂ t → P u

/-- Every step of a run is taken under a condition on the state before it. -/
def EveryStep (step : σ → α → σ → Prop) (Q : σ → α → Prop) (s : σ) (tr : List α) (t : σ) : Prop :=
  ∀ tr₁ u a v tr₂, tr = tr₁ ++ a :: tr₂ → Run step s tr₁ u → step u a v → Run step v tr₂ t → Q u a

/-- An invariant that steps keep under a property holds wherever the property holds before. -/
theorem Throughout.invariant {P I : σ → Prop} (h : Throughout step P s tr t) (hi : I s)
    (hinv : ∀ u a v, P u → I u → step u a v → I v) {tr₁ tr₂ : List α} (htr : tr = tr₁ ++ tr₂)
    (hu : Run step s tr₁ u) (hrest : Run step u tr₂ t) : I u := by
  induction hu generalizing tr₂ with
  | nil => exact hi
  | @snoc w v tr₁ a hw ha ih =>
    have hsplit : tr = tr₁ ++ a :: tr₂ := by simp [htr]
    have hbefore : P w := h tr₁ w (a :: tr₂) hsplit hw (.cons ha hrest)
    exact hinv w a v hbefore (ih hsplit (.cons ha hrest)) ha

/-- Where, under an invariant, a condition on a step decides whether it keeps a property, the
condition on all steps decides whether the property holds throughout. -/
theorem throughout_iff_everyStep_of {P I : σ → Prop} {Q : σ → α → Prop} (hs : P s) (hi : I s)
    (hinv : ∀ u a v, P u → I u → step u a v → I v)
    (hstep : ∀ u a v, P u → I u → step u a v → (P v ↔ Q u a)) :
    Throughout step P s tr t ↔ EveryStep step Q s tr t := by
  constructor
  · intro h tr₁ u a v tr₂ htr hu ha hv
    have hbefore : P u := h tr₁ u (a :: tr₂) htr hu (.cons ha hv)
    have hafter : P v := h (tr₁ ++ [a]) v tr₂ (by simp [htr]) (.snoc hu ha) hv
    have hinvariant : I u := h.invariant hi hinv htr hu (.cons ha hv)
    exact (hstep u a v hbefore hinvariant ha).mp hafter
  · intro h tr₁ u tr₂ htr hu hrest
    suffices hboth : P u ∧ I u from hboth.1
    induction hu generalizing tr₂ with
    | nil => exact ⟨hs, hi⟩
    | @snoc w v tr₁ a hw ha ih =>
      have hsplit : tr = tr₁ ++ a :: tr₂ := by simp [htr]
      obtain ⟨hbefore, hinvariant⟩ := ih (a :: tr₂) hsplit (.cons ha hrest)
      have hcondition : Q w a := h tr₁ w a v tr₂ hsplit hw ha hrest
      exact ⟨(hstep w a v hbefore hinvariant ha).mpr hcondition, hinv w a v hbefore hinvariant ha⟩

/-- An invariant that steps keep under a condition holds throughout a run whose steps all meet it. -/
theorem EveryStep.throughout {I : σ → Prop} {Q : σ → α → Prop} (h : EveryStep step Q s tr t)
    (hs : I s) (hinv : ∀ u a v, Q u a → I u → step u a v → I v) : Throughout step I s tr t := by
  intro tr₁ u tr₂ htr hu hrest
  induction hu generalizing tr₂ with
  | nil => exact hs
  | @snoc w v tr₁ a hw ha ih =>
    have hsplit : tr = tr₁ ++ a :: tr₂ := by simp [htr]
    have hcondition : Q w a := h tr₁ w a v tr₂ hsplit hw ha hrest
    exact hinv w a v hcondition (ih _ hsplit (.cons ha hrest)) ha

theorem Throughout.mono {P P' : σ → Prop} (h : Throughout step P s tr t) (hP : ∀ u, P u → P' u) :
    Throughout step P' s tr t :=
  fun tr₁ u tr₂ htr hu hrest => hP u (h tr₁ u tr₂ htr hu hrest)

/-- Taking the steps of a partial function one after another is a run. -/
theorem of_foldlM {f : σ → α → Option σ} :
    ∀ {tr : List α} {s t : σ}, tr.foldlM f s = some t → Run (fun s a t => f s a = some t) s tr t := by
  intro tr
  induction tr with
  | nil =>
    intro s t h
    cases h
    exact .nil s
  | cons a rest ih =>
    intro s t h
    obtain ⟨u, hu, hrest⟩ := Option.bind_eq_some_iff.mp h
    exact .cons hu (ih hrest)

/-- The runs of a partial function are the steps it takes one after another. -/
theorem foldlM_eq {f : σ → α → Option σ} (h : Run (fun s a t => f s a = some t) s tr t) :
    tr.foldlM f s = some t := by
  induction h with
  | nil => rfl
  | snoc _ ha ih =>
    rw [List.foldlM_append, ih]
    simpa using ha

/-- A run that checks a condition before each step meets it at every step. -/
theorem everyStep_of_foldlM {f : σ → α → Option σ} {q : σ → α → Bool}
    (h : tr.foldlM (fun s a => if q s a then f s a else none) s = some t) :
    Run (fun s a t => f s a = some t) s tr t ∧
      EveryStep (fun s a t => f s a = some t) (fun s a => q s a = true) s tr t := by
  have hchecked : ∀ {tr : List α} {u : σ},
      Run (fun s a t => (if q s a then f s a else none) = some t) s tr u →
        Run (fun s a t => f s a = some t) s tr u := by
    intro tr u hrun
    induction hrun with
    | nil => exact .nil _
    | snoc _ ha ih =>
      refine .snoc ih ?_
      split at ha
      · exact ha
      · cases ha
  have hrun := of_foldlM h
  refine ⟨hchecked hrun, ?_⟩
  intro tr₁ u a v tr₂ htr hu ha hrest
  rw [htr] at hrun
  obtain ⟨w, hw, htail⟩ := split hrun
  -- the checked run and the run are in the same state there
  have hsame : w = u := Option.some.inj ((foldlM_eq (hchecked hw)).symm.trans (foldlM_eq hu))
  have hnext := foldlM_eq htail
  rw [List.foldlM_cons, hsame] at hnext
  obtain ⟨x, hx, -⟩ := Option.bind_eq_some_iff.mp hnext
  split at hx
  · next hq => exact hq
  · cases hx

/-! ## Logs and totals over a run -/

/-- A step that adds what it enters to a log. -/
def Logged {β : Type} (step : σ → α → σ → Prop) (entries : σ → α → σ → List β) (x : σ × List β)
    (a : α) (y : σ × List β) : Prop :=
  step x.1 a y.1 ∧ y.2 = x.2 ++ entries x.1 a y.1

theorem log_prefix {β : Type} {entries : σ → α → σ → List β} {x y : σ × List β}
    (h : Run (Logged step entries) x tr y) : x.2 <+: y.2 := by
  refine h.invariant (I := fun y => x.2 <+: y.2) ?_ List.prefix_rfl
  rintro y a z hgrown ⟨-, hlog⟩
  rw [hlog]
  exact hgrown.trans (List.prefix_append _ _)

/-- The logged steps of a partial function. -/
def logStep {β : Type} (f : σ → α → Option σ) (entries : σ → α → σ → List β) (x : σ × List β)
    (a : α) : Option (σ × List β) :=
  (f x.1 a).map fun t => (t, x.2 ++ entries x.1 a t)

theorem logStep_eq {β : Type} (f : σ → α → Option σ) (entries : σ → α → σ → List β) :
    (fun x a y => logStep f entries x a = some y) =
      Logged (fun s a t => f s a = some t) entries := by
  funext x a y
  refine propext ?_
  rw [logStep, Option.map_eq_some_iff]
  constructor
  · rintro ⟨t, ht, rfl⟩
    exact ⟨ht, rfl⟩
  · rintro ⟨ht, hlog⟩
    exact ⟨y.1, ht, by rw [← hlog]⟩

/-- A step that adds its cost, read off the state before it, to a running total. -/
def Metered (step : σ → α → σ → Prop) (cost : σ → α → Nat) (x : σ × Nat) (a : α) (y : σ × Nat) :
    Prop :=
  step x.1 a y.1 ∧ y.2 = x.2 + cost x.1 a

end Run

/-- `t` is the end of a run from `s`. -/
def Reaches (step : σ → α → σ → Prop) (s t : σ) : Prop := ∃ tr, Run step s tr t

namespace Reaches

variable {step : σ → α → σ → Prop} {s t u : σ} {a : α}

theorem refl (s : σ) : Reaches step s s := ⟨[], .nil s⟩

theorem tail (h : Reaches step s t) (ha : step t a u) : Reaches step s u :=
  let ⟨_, hr⟩ := h
  ⟨_, .snoc hr ha⟩

theorem trans (h : Reaches step s t) (h' : Reaches step t u) : Reaches step s u :=
  let ⟨_, hr⟩ := h
  let ⟨_, hr'⟩ := h'
  ⟨_, hr.append hr'⟩

theorem invariant {I : σ → Prop} (hstep : ∀ s a t, I s → step s a t → I t)
    (h : Reaches step s t) (hs : I s) : I t :=
  let ⟨_, hr⟩ := h
  hr.invariant hstep hs

end Reaches

end Lib
