/-!
# Fallible computations

Guards, checked machine arithmetic and the rules that peel a successful (or a failed) chain of
them apart. Integers are unbounded and every checked operation carries the largest value of its
width, so one definition serves every unsigned width.
-/

namespace Lib

variable {ε ε' α β : Type}

/-- A guard: succeeds when `c` holds and fails with `e` otherwise. -/
def require (c : Prop) [Decidable c] (e : ε) : Except ε Unit := if c then .ok () else .error e

/-- The value of an option, or the failure `e`. -/
def okOr (o : Option α) (e : ε) : Except ε α :=
  match o with
  | some a => .ok a
  | none => .error e

/-! ## Peeling a chain apart -/

theorem bind_eq_ok {x : Except ε α} {f : α → Except ε β} {b : β} :
    (x >>= f) = .ok b ↔ ∃ a, x = .ok a ∧ f a = .ok b := by
  cases x with
  | error e => simp [bind, Except.bind]
  | ok a => simp [bind, Except.bind]

theorem bind_eq_error {x : Except ε α} {f : α → Except ε β} {e : ε} :
    (x >>= f) = .error e ↔ x = .error e ∨ ∃ a, x = .ok a ∧ f a = .error e := by
  cases x with
  | error e => simp [bind, Except.bind]
  | ok a => simp [bind, Except.bind]

@[simp] theorem ok_bind (a : α) (f : α → Except ε β) : (Except.ok a >>= f) = f a := rfl

@[simp] theorem error_bind (e : ε) (f : α → Except ε β) : (Except.error e >>= f) = .error e := rfl

@[simp] theorem require_eq_ok {c : Prop} [Decidable c] {e : ε} {u : Unit} :
    require c e = .ok u ↔ c := by
  unfold require
  split <;> simp_all

@[simp] theorem require_eq_error {c : Prop} [Decidable c] {e e' : ε} :
    require c e = .error e' ↔ ¬c ∧ e = e' := by
  unfold require
  split <;> simp_all

theorem require_pos {c : Prop} [Decidable c] (h : c) (e : ε) : require c e = .ok () := if_pos h

theorem require_neg {c : Prop} [Decidable c] (h : ¬c) (e : ε) : require c e = .error e := if_neg h

@[simp] theorem okOr_eq_ok {o : Option α} {e : ε} {a : α} : okOr o e = .ok a ↔ o = some a := by
  cases o <;> simp [okOr]

@[simp] theorem okOr_eq_error {o : Option α} {e e' : ε} :
    okOr o e = .error e' ↔ o = none ∧ e = e' := by
  cases o <;> simp [okOr]

/-- A mapped failure succeeds exactly where the computation does. -/
@[simp] theorem mapError_ok_iff {g : ε → ε'} {x : Except ε α} {a : α} :
    x.mapError g = .ok a ↔ x = .ok a := by
  cases x with
  | error e =>
    show (Except.error (g e) : Except ε' α) = .ok a ↔ _
    simp
  | ok b =>
    show (Except.ok b : Except ε' α) = .ok a ↔ _
    simp

@[simp] theorem mapError_error_iff {g : ε → ε'} {x : Except ε α} {e' : ε'} :
    x.mapError g = .error e' ↔ ∃ e, x = .error e ∧ g e = e' := by
  cases x with
  | error e =>
    show (Except.error (g e) : Except ε' α) = .error e' ↔ _
    simp
  | ok b =>
    show (Except.ok b : Except ε' α) = .error e' ↔ _
    simp

@[simp] theorem toOption_eq_some {x : Except ε α} {a : α} : x.toOption = some a ↔ x = .ok a := by
  cases x <;> simp [Except.toOption]

/-- A fallible map over a list succeeds exactly where it does on every item. -/
theorem mapM_isOk_iff {f : α → Except ε β} {items : List α} :
    (∃ out, items.mapM f = .ok out) ↔ ∀ a ∈ items, ∃ b, f a = .ok b := by
  induction items with
  | nil => simp [pure, Except.pure]
  | cons a rest ih =>
    rw [List.forall_mem_cons, ← ih]
    simp only [List.mapM_cons, bind_eq_ok]
    constructor
    · rintro ⟨_, b, hb, bs, hbs, -⟩
      exact ⟨⟨b, hb⟩, bs, hbs⟩
    · rintro ⟨⟨b, hb⟩, bs, hbs⟩
      exact ⟨b :: bs, b, hb, bs, hbs, rfl⟩

/-- What a fallible map returned are the values it took on the items. -/
theorem mem_of_mapM_eq_ok {f : α → Except ε β} {items : List α} {out : List β} {b : β}
    (h : items.mapM f = .ok out) : b ∈ out ↔ ∃ a ∈ items, f a = .ok b := by
  induction items generalizing out with
  | nil =>
    rw [List.mapM_nil] at h
    cases h
    simp
  | cons a rest ih =>
    rw [List.mapM_cons] at h
    obtain ⟨c, hc, h⟩ := bind_eq_ok.mp h
    obtain ⟨cs, hcs, h⟩ := bind_eq_ok.mp h
    cases h
    rw [List.mem_cons, ih hcs]
    constructor
    · rintro (rfl | ⟨x, hx, hb⟩)
      · exact ⟨a, List.mem_cons_self, hc⟩
      · exact ⟨x, List.mem_cons_of_mem _ hx, hb⟩
    · rintro ⟨x, hx, hb⟩
      rcases List.mem_cons.mp hx with rfl | hx
      · exact .inl (Except.ok.inj (hb.symm.trans hc))
      · exact .inr ⟨x, hx, hb⟩

/-- A loop over guards succeeds exactly where each of them does. -/
theorem forM_eq_ok {f : α → Except ε Unit} {items : List α} {u : Unit} :
    items.forM f = .ok u ↔ ∀ a ∈ items, f a = .ok u := by
  induction items with
  | nil => exact ⟨fun _ a ha => absurd ha List.not_mem_nil, fun _ => rfl⟩
  | cons a rest ih =>
    have hloop : (a :: rest).forM f = (f a >>= fun _ => rest.forM f) := rfl
    rw [hloop, bind_eq_ok, List.forall_mem_cons, ← ih]
    constructor
    · rintro ⟨u', ha, hrest⟩
      exact ⟨ha, hrest⟩
    · rintro ⟨ha, hrest⟩
      exact ⟨u, ha, hrest⟩

/-! ## Which failures a computation can have -/

/-- Whenever `x` fails, it fails with an error in `P`. -/
def FailsIn (P : ε → Prop) (x : Except ε α) : Prop := ∀ e, x = .error e → P e

section FailsIn

variable {P : ε → Prop}

@[simp] theorem failsIn_ok (a : α) : FailsIn P (.ok a : Except ε α) := fun _ h => nomatch h

@[simp] theorem failsIn_error {e : ε} : FailsIn P (.error e : Except ε α) ↔ P e := by
  constructor
  · exact fun h => h e rfl
  · rintro h e' ⟨⟩
    exact h

@[simp] theorem failsIn_require {c : Prop} [Decidable c] {e : ε} :
    FailsIn P (require c e) ↔ (¬c → P e) := by
  simp only [FailsIn, require_eq_error]
  exact ⟨fun h hc => h e ⟨hc, rfl⟩, fun h e' ⟨hc, he⟩ => he ▸ h hc⟩

@[simp] theorem failsIn_okOr {o : Option α} {e : ε} :
    FailsIn P (okOr o e) ↔ (o = none → P e) := by
  simp only [FailsIn, okOr_eq_error]
  exact ⟨fun h ho => h e ⟨ho, rfl⟩, fun h e' ⟨ho, he⟩ => he ▸ h ho⟩

/-- A chain fails where its parts do; the later parts may use what the earlier ones returned. -/
@[simp] theorem failsIn_bind {x : Except ε α} {f : α → Except ε β} :
    FailsIn P (x >>= f) ↔ FailsIn P x ∧ ∀ a, x = .ok a → FailsIn P (f a) := by
  simp only [FailsIn, bind_eq_error]
  constructor
  · exact fun h => ⟨fun e he => h e (.inl he), fun a ha e he => h e (.inr ⟨a, ha, he⟩)⟩
  · rintro ⟨hx, hf⟩ e (he | ⟨a, ha, he⟩)
    · exact hx e he
    · exact hf a ha e he

@[simp] theorem failsIn_mapError {P : ε' → Prop} {g : ε → ε'} {x : Except ε α} :
    FailsIn P (x.mapError g) ↔ FailsIn (fun e => P (g e)) x := by
  simp only [FailsIn, mapError_error_iff]
  exact ⟨fun h e he => h _ ⟨e, he, rfl⟩, fun h _ ⟨e, he, heq⟩ => heq ▸ h e he⟩

@[simp] theorem failsIn_ite {c : Prop} [Decidable c] {x y : Except ε α} :
    FailsIn P (if c then x else y) ↔ (c → FailsIn P x) ∧ (¬c → FailsIn P y) := by
  by_cases hc : c <;> simp [hc]

theorem failsIn_forM {f : α → Except ε Unit} {items : List α}
    (h : ∀ a ∈ items, FailsIn P (f a)) : FailsIn P (items.forM f) := by
  induction items with
  | nil => exact failsIn_ok _
  | cons a rest ih =>
    have hloop : (a :: rest).forM f = (f a >>= fun _ => rest.forM f) := rfl
    rw [hloop]
    refine failsIn_bind.mpr ⟨h a List.mem_cons_self, fun _ _ => ih fun b hb => ?_⟩
    exact h b (List.mem_cons_of_mem _ hb)

theorem failsIn_of_forall {x : Except ε α} (h : ∀ e, P e) : FailsIn P x := fun e _ => h e

end FailsIn

/-! ## Checked arithmetic -/

/-- Addition that overflows above `top`. -/
def checkedAdd (top a b : Nat) : Option Nat := if a + b ≤ top then some (a + b) else none

/-- Multiplication that overflows above `top`. -/
def checkedMul (top a b : Nat) : Option Nat := if a * b ≤ top then some (a * b) else none

/-- Subtraction that underflows below zero. -/
def checkedSub (a b : Nat) : Option Nat := if b ≤ a then some (a - b) else none

/-- Signed addition that overflows outside `[bot, top]`. -/
def checkedAddInt (bot top a b : Int) : Option Int :=
  if bot ≤ a + b ∧ a + b ≤ top then some (a + b) else none

/-- Signed subtraction that overflows outside `[bot, top]`. -/
def checkedSubInt (bot top a b : Int) : Option Int :=
  if bot ≤ a - b ∧ a - b ≤ top then some (a - b) else none

section Checked

variable {top a b c : Nat}

@[simp] theorem checkedAdd_eq_some : checkedAdd top a b = some c ↔ a + b ≤ top ∧ a + b = c := by
  by_cases h : a + b ≤ top <;> simp [checkedAdd, h]

@[simp] theorem checkedAdd_eq_none : checkedAdd top a b = none ↔ top < a + b := by
  simp [checkedAdd]

@[simp] theorem checkedMul_eq_some : checkedMul top a b = some c ↔ a * b ≤ top ∧ a * b = c := by
  by_cases h : a * b ≤ top <;> simp [checkedMul, h]

@[simp] theorem checkedMul_eq_none : checkedMul top a b = none ↔ top < a * b := by
  simp [checkedMul]

@[simp] theorem checkedSub_eq_some : checkedSub a b = some c ↔ b ≤ a ∧ a - b = c := by
  by_cases h : b ≤ a <;> simp [checkedSub, h]

@[simp] theorem checkedSub_eq_none : checkedSub a b = none ↔ a < b := by
  simp [checkedSub]

end Checked

@[simp] theorem checkedAddInt_eq_some {bot top a b c : Int} :
    checkedAddInt bot top a b = some c ↔ (bot ≤ a + b ∧ a + b ≤ top) ∧ a + b = c := by
  by_cases h : bot ≤ a + b ∧ a + b ≤ top <;> simp [checkedAddInt, h]

@[simp] theorem checkedSubInt_eq_some {bot top a b c : Int} :
    checkedSubInt bot top a b = some c ↔ (bot ≤ a - b ∧ a - b ≤ top) ∧ a - b = c := by
  by_cases h : bot ≤ a - b ∧ a - b ≤ top <;> simp [checkedSubInt, h]

end Lib
