import Nortia.Verify.Sunspot.Meaning

/-!
# The constraints of a circuit

A step of the compilation adds constraints and wires of hints. It is exact for a condition on the
circuit's values when the constraints imply the condition, and the wires can be chosen to satisfy
them where the condition holds. The steps of the opcodes are exact for what the opcodes accept.
-/

namespace Nortia.Sunspot

/-! ## Running the calls -/

section

variable {α β : Type} {b b' : Calls}

theorem build_bind_ok {p : Build α} {f : α → Build β} {y : β} :
    (p >>= f) b = .ok (y, b') ↔ ∃ x b₁, p b = .ok (x, b₁) ∧ f x b₁ = .ok (y, b') := by
  show (StateT.bind p f) b = _ ↔ _
  rw [StateT.bind, show (bind : Except CompileError (α × Calls) → _) = Except.bind from rfl]
  cases h : p b with
  | error e => simp [Except.bind]
  | ok s =>
    obtain ⟨x, b₁⟩ := s
    simp [Except.bind, and_assoc]

theorem build_bind_run {p : Build α} {f : α → Build β} {x : α} (h : p b = .ok (x, b')) :
    (p >>= f) b = f x b' := by
  show (StateT.bind p f) b = _
  rw [StateT.bind, h]
  rfl

@[simp] theorem build_pure_ok {x y : α} :
    (pure x : Build α) b = .ok (y, b') ↔ y = x ∧ b' = b := by
  show Except.ok (x, b) = _ ↔ _
  rw [Except.ok.injEq, Prod.mk.injEq]
  exact ⟨fun h => ⟨h.1.symm, h.2.symm⟩, fun h => ⟨h.1.symm, h.2.symm⟩⟩

@[simp] theorem crash_ok {e : CompileError} {x : α} : crash e b = .ok (x, b') ↔ False := by
  simp [crash]

@[simp] theorem lift_ok {r : Except CompileError α} {x : α} :
    (StateT.lift r : Build α) b = .ok (x, b') ↔ r = .ok x ∧ b' = b := by
  show (bind r fun a => Except.ok (a, b)) = _ ↔ _
  cases r with
  | error e => simp [bind, Except.bind]
  | ok a => simp [bind, Except.bind, eq_comm]

@[simp] theorem deref_ok {v : Option Variable} {x : Variable} :
    deref v b = .ok (x, b') ↔ v = some x ∧ b' = b := by
  cases v with
  | none => simp [deref]
  | some v => rw [deref, build_pure_ok, Option.some.injEq, @eq_comm _ x]

@[simp] theorem constrain_ok {c : Constraint} :
    constrain c b = .ok ((), b') ↔ b' = { b with constraints := b.constraints ++ [c] } := by
  simp [constrain, eq_comm]

end

/-! ## Values of wires -/

/-- The wires of hints in a variable come before the `n`-th. -/
def Variable.Below (n : Nat) : Variable → Prop
  | .constant _ => True
  | .wire (.inner i) => i < n
  | .wire _ => True
  | .add a b => a.Below n ∧ b.Below n
  | .sub a b => a.Below n ∧ b.Below n
  | .mul a b => a.Below n ∧ b.Below n
  | .isZero a => a.Below n
  | .select b x y => b.Below n ∧ x.Below n ∧ y.Below n

/-- Two choices of the wires agree before the `n`-th. -/
def AgreeBelow (n : Nat) (inner inner' : Nat → Scalar) : Prop := ∀ i < n, inner i = inner' i

section

variable {σ : Wire → Scalar} {inner inner' inner'' : Nat → Scalar} {n m : Nat}

theorem AgreeBelow.refl : AgreeBelow n inner inner := fun _ _ => rfl

theorem AgreeBelow.trans (h : AgreeBelow n inner inner') (h' : AgreeBelow n inner' inner'') :
    AgreeBelow n inner inner'' := fun i hi => (h i hi).trans (h' i hi)

theorem AgreeBelow.mono (h : AgreeBelow m inner inner') (hle : n ≤ m) :
    AgreeBelow n inner inner' := fun i hi => h i (Nat.lt_of_lt_of_le hi hle)

theorem Variable.Below.mono {v : Variable} (h : v.Below n) (hle : n ≤ m) : v.Below m := by
  induction v with
  | constant c => exact trivial
  | wire w =>
    cases w with
    | inner i => exact Nat.lt_of_lt_of_le h hle
    | pub i | secret i | numbered i => exact trivial
  | add a b iha ihb | sub a b iha ihb | mul a b iha ihb => exact ⟨iha h.1, ihb h.2⟩
  | isZero a iha => exact iha h
  | select b x y ihb ihx ihy => exact ⟨ihb h.1, ihx h.2.1, ihy h.2.2⟩

theorem eval_congr {v : Variable} (h : v.Below n) (hagree : AgreeBelow n inner inner') :
    v.eval (withInner σ inner) = v.eval (withInner σ inner') := by
  induction v with
  | constant c => rfl
  | wire w =>
    cases w with
    | inner i => exact hagree i h
    | pub i | secret i | numbered i => rfl
  | add a b iha ihb | sub a b iha ihb | mul a b iha ihb =>
    simp only [Variable.eval, iha h.1, ihb h.2]
  | isZero a iha => simp only [Variable.eval, iha h]
  | select b x y ihb ihx ihy => simp only [Variable.eval, ihb h.1, ihx h.2.1, ihy h.2.2]

end

/-- A variable without wires of hints. -/
abbrev Variable.Outer (v : Variable) : Prop := v.Below 0

/-! ## Exact steps -/

/-- No variable of the witness vector is asked for, and no wire by its number. -/
structure Calls.SameOuter (b b' : Calls) : Prop where
  pubs : b'.pubs = b.pubs
  secrets : b'.secrets = b.secrets
  named : b'.named = b.named

theorem Calls.SameOuter.refl {b : Calls} : b.SameOuter b := ⟨rfl, rfl, rfl⟩

theorem Calls.SameOuter.trans {b b₁ b' : Calls} (h : b.SameOuter b₁) (h' : b₁.SameOuter b') :
    b.SameOuter b' :=
  ⟨h'.pubs.trans h.pubs, h'.secrets.trans h.secrets, h'.named.trans h.named⟩

section

variable (R : Gadgets) (T : List (List Variable)) (σ : Wire → Scalar)

/-- The constraints hold, where the tables are `T` in the end. -/
def Sat (new : List Constraint) (inner : Nat → Scalar) : Prop :=
  ∀ c ∈ new, c.Holds R T (withInner σ inner)

/-- From `b` to `b'` the calls gain constraints that are exact for `cond`, under the assumption
`pre` on the wires there are. -/
structure Exact (b b' : Calls) (pre : (Nat → Scalar) → Prop) (cond : Prop) : Prop where
  inners : b.inners ≤ b'.inners
  outer : b.SameOuter b'
  grows : ∃ new, b'.constraints = b.constraints ++ new ∧
    (∀ inner inner', AgreeBelow b'.inners inner inner' → Sat R T σ new inner →
      Sat R T σ new inner') ∧
    (∀ inner, pre inner → Sat R T σ new inner → cond) ∧
    (∀ inner, pre inner → cond →
      ∃ inner', AgreeBelow b.inners inner inner' ∧ Sat R T σ new inner')

end

section

variable {R : Gadgets} {T : List (List Variable)} {σ : Wire → Scalar} {b b₁ b' : Calls}
  {pre pre₁ : (Nat → Scalar) → Prop} {cond cond₁ : Prop} {new new' : List Constraint}
  {inner inner' : Nat → Scalar}

theorem sat_append :
    Sat R T σ (new ++ new') inner ↔ Sat R T σ new inner ∧ Sat R T σ new' inner := by
  simp only [Sat, List.mem_append]
  exact ⟨fun h => ⟨fun c hc => h c (.inl hc), fun c hc => h c (.inr hc)⟩,
    fun h c hc => hc.elim (h.1 c) (h.2 c)⟩

theorem sat_singleton {c : Constraint} : Sat R T σ [c] inner ↔ c.Holds R T (withInner σ inner) := by
  simp [Sat]

namespace Exact

/-- Nothing is added. -/
theorem refl (hcond : ∀ inner, pre inner → cond) : Exact R T σ b b pre cond where
  inners := Nat.le_refl _
  outer := ⟨rfl, rfl, rfl⟩
  grows := by
    refine ⟨[], (List.append_nil _).symm, ?_, ?_, ?_⟩
    · exact fun _ _ _ _ c hc => absurd hc List.not_mem_nil
    · exact fun inner hpre _ => hcond inner hpre
    · exact fun inner _ _ => ⟨inner, .refl, fun c hc => absurd hc List.not_mem_nil⟩

theorem congr (h : Exact R T σ b b' pre cond) (hiff : ∀ inner, pre inner → (cond ↔ cond₁)) :
    Exact R T σ b b' pre cond₁ := by
  obtain ⟨hle, houter, new, hnew, hlocal, hsound, hcomplete⟩ := h
  exact ⟨hle, houter, new, hnew, hlocal,
    fun inner hpre hsat => (hiff inner hpre).mp (hsound inner hpre hsat),
    fun inner hpre hcond => hcomplete inner hpre ((hiff inner hpre).mpr hcond)⟩

theorem weaken (h : Exact R T σ b b' pre cond) (hpre : ∀ inner, pre₁ inner → pre inner) :
    Exact R T σ b b' pre₁ cond := by
  obtain ⟨hle, houter, new, hnew, hlocal, hsound, hcomplete⟩ := h
  exact ⟨hle, houter, new, hnew, hlocal, fun inner h => hsound inner (hpre inner h),
    fun inner h => hcomplete inner (hpre inner h)⟩

/-- One step after another. What the second step assumes is known once the first step's constraints
hold. -/
theorem trans (h : Exact R T σ b b₁ pre cond) (h₁ : Exact R T σ b₁ b' pre₁ cond₁)
    (hnext : ∀ new, b₁.constraints = b.constraints ++ new → ∀ inner inner', pre inner →
      AgreeBelow b.inners inner inner' → Sat R T σ new inner' → pre₁ inner') :
    Exact R T σ b b' pre (cond ∧ cond₁) := by
  obtain ⟨hle, houter, new, hnew, hlocal, hsound, hcomplete⟩ := h
  obtain ⟨hle₁, houter₁, new₁, hnew₁, hlocal₁, hsound₁, hcomplete₁⟩ := h₁
  refine ⟨Nat.le_trans hle hle₁, houter.trans houter₁, new ++ new₁, ?_, ?_, ?_, ?_⟩
  · rw [hnew₁, hnew, List.append_assoc]
  · intro inner inner' hagree hsat
    obtain ⟨hfirst, hsecond⟩ := sat_append.mp hsat
    exact sat_append.mpr ⟨hlocal inner inner' (hagree.mono hle₁) hfirst,
      hlocal₁ inner inner' hagree hsecond⟩
  · intro inner hpre hsat
    obtain ⟨hfirst, hsecond⟩ := sat_append.mp hsat
    exact ⟨hsound inner hpre hfirst,
      hsound₁ inner (hnext new hnew inner inner hpre .refl hfirst) hsecond⟩
  · rintro inner hpre ⟨hcond, hcond₁⟩
    obtain ⟨inner₁, hagree, hfirst⟩ := hcomplete inner hpre hcond
    obtain ⟨inner₂, hagree₁, hsecond⟩ :=
      hcomplete₁ inner₁ (hnext new hnew inner inner₁ hpre hagree hfirst) hcond₁
    -- the wires the first step's constraints mention are left as they are
    exact ⟨inner₂, hagree.trans (hagree₁.mono hle),
      sat_append.mpr ⟨hlocal inner₁ inner₂ hagree₁ hfirst, hsecond⟩⟩

/-- One constraint whose meaning does not depend on later wires. -/
theorem constraint {c : Constraint}
    (hlocal : ∀ inner inner', AgreeBelow b.inners inner inner' →
      c.Holds R T (withInner σ inner) → c.Holds R T (withInner σ inner'))
    (hcond : ∀ inner, pre inner → (c.Holds R T (withInner σ inner) ↔ cond)) :
    Exact R T σ b { b with constraints := b.constraints ++ [c] } pre cond where
  inners := Nat.le_refl _
  outer := ⟨rfl, rfl, rfl⟩
  grows := by
    refine ⟨[c], rfl, ?_, ?_, ?_⟩
    · intro inner inner' hagree hsat
      exact sat_singleton.mpr (hlocal inner inner' hagree (sat_singleton.mp hsat))
    · exact fun inner hpre hsat => (hcond inner hpre).mp (sat_singleton.mp hsat)
    · exact fun inner hpre h => ⟨inner, .refl, sat_singleton.mpr ((hcond inner hpre).mpr h)⟩

/-- Constraints that say the same whatever the wires. -/
theorem constraints {cs : List Constraint} (hinners : b'.inners = b.inners)
    (houter : b.SameOuter b')
    (hcs : b'.constraints = b.constraints ++ cs)
    (hcond : ∀ inner, Sat R T σ cs inner ↔ cond) : Exact R T σ b b' pre cond where
  inners := Nat.le_of_eq hinners.symm
  outer := houter
  grows := ⟨cs, hcs, fun inner inner' _ hsat => (hcond inner').mpr ((hcond inner).mp hsat),
    fun inner _ hsat => (hcond inner).mp hsat,
    fun inner _ h => ⟨inner, .refl, (hcond inner).mpr h⟩⟩

end Exact

end

/-! ## 64-bit limbs -/

theorem apply_limbs (op : BitOp) {lo lo' : Nat} (hi hi' : Nat) (hlo : lo < 2 ^ 64)
    (hlo' : lo' < 2 ^ 64) : op.apply (lo + hi * 2 ^ 64) (lo' + hi' * 2 ^ 64) =
      op.apply lo lo' + op.apply hi hi' * 2 ^ 64 := by
  have hout : op.apply lo lo' < 2 ^ 64 := by
    cases op with
    | and => exact Nat.and_lt_two_pow lo hlo'
    | xor => exact Nat.xor_lt_two_pow hlo hlo'
  have hsplit : ∀ a b : Nat, a + b * 2 ^ 64 = 2 ^ 64 * b + a := fun a b => by omega
  rw [hsplit, hsplit, hsplit]
  refine Nat.eq_of_testBit_eq fun i => ?_
  cases op with
  | and =>
    simp only [BitOp.apply] at hout ⊢
    rw [Nat.testBit_and, Nat.testBit_two_pow_mul_add _ hlo, Nat.testBit_two_pow_mul_add _ hlo',
      Nat.testBit_two_pow_mul_add _ hout, Nat.testBit_and, Nat.testBit_and]
    split <;> rfl
  | xor =>
    simp only [BitOp.apply] at hout ⊢
    rw [Nat.testBit_xor, Nat.testBit_two_pow_mul_add _ hlo, Nat.testBit_two_pow_mul_add _ hlo',
      Nat.testBit_two_pow_mul_add _ hout, Nat.testBit_xor, Nat.testBit_xor]
    split <;> rfl

/-- A field element that is the sum of two limbs is the number with these limbs. -/
theorem limbs_value {n : Nat} (hn : 64 < n ∧ n ≤ 128) {x lo hi : Scalar} (hlo : lo.val < 2 ^ 64)
    (hhi : hi.val < 2 ^ (n - 64)) (h : x = lo + hi * ((2 ^ 64 : Nat) : Scalar)) :
    x.val = lo.val + hi.val * 2 ^ 64 ∧ x.val < 2 ^ n := by
  have hpow : 2 ^ n = 2 ^ (n - 64) * 2 ^ 64 := by
    rw [← Nat.pow_add]
    congr 1
    omega
  have hlt : lo.val + hi.val * 2 ^ 64 < 2 ^ n := by
    rw [hpow]
    have hle : (hi.val + 1) * 2 ^ 64 ≤ 2 ^ (n - 64) * 2 ^ 64 := Nat.mul_le_mul_right _ hhi
    omega
  have hmodulus : 2 ^ n < scalarModulus :=
    Nat.lt_of_le_of_lt (Nat.pow_le_pow_right (by decide) hn.2) (by decide)
  have hcast : x = ((lo.val + hi.val * 2 ^ 64 : Nat) : Scalar) := by
    rw [h, Nat.cast_add, Nat.cast_mul, ZMod.natCast_zmod_val, ZMod.natCast_zmod_val]
  have hval : x.val = lo.val + hi.val * 2 ^ 64 := by
    rw [hcast]
    exact ZMod.val_natCast_of_lt (Nat.lt_trans hlt hmodulus)
  exact ⟨hval, by rw [hval]; exact hlt⟩

def lowLimb (x : Scalar) : Scalar := ((x.val % 2 ^ 64 : Nat) : Scalar)

def highLimb (x : Scalar) : Scalar := ((x.val / 2 ^ 64 : Nat) : Scalar)

theorem val_lowLimb (x : Scalar) : (lowLimb x).val = x.val % 2 ^ 64 := by
  refine ZMod.val_natCast_of_lt (Nat.lt_trans (Nat.mod_lt _ (by decide)) ?_)
  decide

theorem val_highLimb (x : Scalar) : (highLimb x).val = x.val / 2 ^ 64 :=
  ZMod.val_natCast_of_lt (Nat.lt_of_le_of_lt (Nat.div_le_self _ _) (ZMod.val_lt x))

theorem eq_limbs (x : Scalar) : x = lowLimb x + highLimb x * ((2 ^ 64 : Nat) : Scalar) := by
  rw [lowLimb, highLimb, ← Nat.cast_mul, ← Nat.cast_add, Nat.mod_add_div', ZMod.natCast_zmod_val]

/-! ## Choosing wires -/

/-- The wires from the `k`-th on are given the values `xs`. -/
def place (k : Nat) (xs : List Scalar) (inner : Nat → Scalar) : Nat → Scalar := fun i =>
  if i < k then inner i else (xs[i - k]?).getD (inner i)

theorem agreeBelow_place (k : Nat) (xs : List Scalar) (inner : Nat → Scalar) :
    AgreeBelow k inner (place k xs inner) := fun i hi => by rw [place, if_pos hi]

theorem place_add {k j : Nat} {xs : List Scalar} {inner : Nat → Scalar} {x : Scalar}
    (h : xs[j]? = some x) : place k xs inner (k + j) = x := by
  rw [place, if_neg (Nat.not_lt.mpr (Nat.le_add_right k j)), Nat.add_sub_cancel_left, h]
  rfl

/-! ## Expressions -/

/-- The first `n` witnesses have outer variables with the values of `w`. -/
def Bound (n : Nat) (ws : Witnesses) (σ : Wire → Scalar) (w : Valuation) : Prop :=
  ∀ j < n, ∃ v, ws j = some v ∧ v.Outer ∧ ∀ inner, v.eval (withInner σ inner) = w j

/-- A variable that is outer and has this value. -/
structure Means (σ : Wire → Scalar) (v : Variable) (x : Scalar) : Prop where
  outer : v.Outer
  value : ∀ inner, v.eval (withInner σ inner) = x

section

variable {R : Gadgets} {T : List (List Variable)} {σ : Wire → Scalar} {b b' : Calls}
  {pre : (Nat → Scalar) → Prop} {n : Nat} {ws : Witnesses} {w : Valuation}

theorem means_constant (c : Scalar) : Means σ (.constant c) c := ⟨trivial, fun _ => rfl⟩

theorem Means.add {v v' : Variable} {x x' : Scalar} (h : Means σ v x) (h' : Means σ v' x') :
    Means σ (.add v v') (x + x') :=
  ⟨⟨h.outer, h'.outer⟩, fun inner => by rw [Variable.eval, h.value, h'.value]⟩

theorem Means.mul {v v' : Variable} {x x' : Scalar} (h : Means σ v x) (h' : Means σ v' x') :
    Means σ (.mul v v') (x * x') :=
  ⟨⟨h.outer, h'.outer⟩, fun inner => by rw [Variable.eval, h.value, h'.value]⟩

theorem Bound.means (h : Bound n ws σ w) {j : Witness} (hj : j < n) :
    ∃ v, ws j = some v ∧ Means σ v (w j) := by
  obtain ⟨v, hv, houter, hvalue⟩ := h j hj
  exact ⟨v, hv, houter, hvalue⟩

theorem Bound.find (h : Bound n ws σ w) {j : Witness} (hj : j < n) :
    ∃ v, (∀ b, find j ws b = .ok ((v, ws), b)) ∧ Means σ v (w j) := by
  obtain ⟨v, hv, hmeans⟩ := h.means hj
  refine ⟨v, fun b => ?_, hmeans⟩
  rw [Sunspot.find, hv]
  rfl

theorem mulTerm_calculate (h : Bound n ws σ w) (mt : MulTerm) (hmt : ∀ j ∈ mt.witnesses, j < n) :
    ∃ v, (∀ b, mt.calculate ws b = .ok ((v, ws), b)) ∧ Means σ v (mt.value w) := by
  obtain ⟨left, hleft, hl⟩ := h.find (hmt mt.witnessLeft (by simp [MulTerm.witnesses]))
  obtain ⟨right, hright, hr⟩ := h.find (hmt mt.witnessRight (by simp [MulTerm.witnesses]))
  refine ⟨.mul (.mul left right) (toFrontendVariable mt.term), fun b => ?_, ?_⟩
  · rw [MulTerm.calculate, build_bind_run (hleft b)]
    exact (build_bind_run (hright b)).trans rfl
  · exact (hl.mul hr).mul (means_constant _)

theorem linearCombination_calculate (h : Bound n ws σ w) (lc : LinearCombination)
    (hlc : ∀ j ∈ lc.witnesses, j < n) :
    ∃ v, (∀ b, lc.calculate ws b = .ok ((v, ws), b)) ∧ Means σ v (lc.value w) := by
  obtain ⟨left, hleft, hl⟩ := h.find (hlc lc.witness (by simp [LinearCombination.witnesses]))
  refine ⟨.mul left (toFrontendVariable lc.term), fun b => ?_, hl.mul (means_constant _)⟩
  rw [LinearCombination.calculate, build_bind_run (hleft b)]
  rfl

theorem sumTerms_means {α : Type} {f : α → Witnesses → Build (Variable × Witnesses)}
    {g : α → Scalar} {terms : List α}
    (hf : ∀ term ∈ terms, ∃ v, (∀ b, f term ws b = .ok ((v, ws), b)) ∧ Means σ v (g term))
    {sum : Variable} {x : Scalar} (hsum : Means σ sum x) :
    ∃ v, (∀ b, sumTerms f terms sum ws b = .ok ((v, ws), b)) ∧
      Means σ v (x + (terms.map g).sum) := by
  induction terms generalizing sum x with
  | nil => exact ⟨sum, fun _ => rfl, by simpa using hsum⟩
  | cons term terms ih =>
    obtain ⟨v, hv, hmeans⟩ := hf term List.mem_cons_self
    obtain ⟨v', hv', hmeans'⟩ :=
      ih (fun term hterm => hf term (List.mem_cons_of_mem _ hterm)) (hsum.add hmeans)
    refine ⟨v', fun b => ?_, ?_⟩
    · rw [sumTerms, build_bind_run (hv b)]
      exact hv' b
    · rw [List.map_cons, List.sum_cons, ← add_assoc]
      exact hmeans'

/-- The variable of an expression has its value. -/
theorem expression_calculate (h : Bound n ws σ w) (e : Expression)
    (he : ∀ j ∈ e.witnesses, j < n) :
    ∃ v, (∀ b, e.calculate ws b = .ok ((v, ws), b)) ∧ Means σ v (e.value w) := by
  have hmul : ∀ mt ∈ e.mulTerms,
      ∃ v, (∀ b, mt.calculate ws b = .ok ((v, ws), b)) ∧ Means σ v (mt.value w) :=
    fun mt hmt => mulTerm_calculate h mt fun j hj =>
      he j (List.mem_append_left _ (List.mem_flatMap.mpr ⟨mt, hmt, hj⟩))
  have hlin : ∀ lc ∈ e.linearCombinations,
      ∃ v, (∀ b, lc.calculate ws b = .ok ((v, ws), b)) ∧ Means σ v (lc.value w) :=
    fun lc hlc => linearCombination_calculate h lc fun j hj =>
      he j (List.mem_append_right _ (List.mem_flatMap.mpr ⟨lc, hlc, hj⟩))
  obtain ⟨v, hv, hmeans⟩ := sumTerms_means hmul (means_constant (e.constant : Scalar))
  obtain ⟨v', hv', hmeans'⟩ := sumTerms_means hlin hmeans
  refine ⟨v', fun b => ?_, hmeans'⟩
  rw [Expression.calculate, toFrontendVariable, build_bind_run (hv b)]
  exact hv' b

/-- Equal variables, one of them without wires of hints. -/
theorem exact_assertIsEqual {v v' : Variable} {x x' : Scalar} (h : Means σ v x)
    (h' : Means σ v' x') :
    Exact R T σ b { b with constraints := b.constraints ++ [.assertIsEqual v v'] } pre (x = x') :=
  .constraint (fun inner inner' _ => by simp only [Constraint.Holds, h.value, h'.value]; exact id)
    fun inner _ => by rw [Constraint.Holds, h.value, h'.value]

theorem expression_define {e : Expression} {s s' : Scope} (h : Bound n s.witnesses σ w)
    (he : ∀ j ∈ e.witnesses, j < n) (hdefine : e.define s b = .ok (s', b')) :
    s' = s ∧ b'.tables = b.tables ∧ Exact R T σ b b' pre (e.value w = 0) := by
  obtain ⟨v, hv, hmeans⟩ := expression_calculate h e he
  rw [Expression.define, build_bind_run (hv b)] at hdefine
  obtain ⟨_, b₁, hassert, hpure⟩ := build_bind_ok.mp hdefine
  obtain ⟨rfl, rfl⟩ := build_pure_ok.mp hpure
  rw [assertIsEqual, constrain_ok] at hassert
  subst hassert
  exact ⟨rfl, rfl, exact_assertIsEqual hmeans (means_constant 0)⟩

/-! ## Black box functions -/

theorem toVariable_means (h : Bound n ws σ w) {f : FunctionInput} {v : Variable}
    (hf : ∀ j ∈ f.witnesses, j < n) (hv : f.toVariable ws b = .ok (v, b')) :
    Means σ v (f.value w) ∧ b' = b := by
  unfold FunctionInput.toVariable at hv
  unfold FunctionInput.value
  cases hwitness : f.witness with
  | some j =>
    obtain ⟨v', hv', hmeans⟩ := h.means (hf j (by simp [FunctionInput.witnesses, hwitness]))
    rw [hwitness] at hv
    simp only [hv'] at hv
    obtain ⟨rfl, rfl⟩ := build_pure_ok.mp hv
    exact ⟨hmeans, rfl⟩
  | none =>
    simp only [hwitness] at hv
    cases hconstant : f.constantInput with
    | none => rw [hconstant] at hv; exact (crash_ok.mp hv).elim
    | some c =>
      rw [hconstant] at hv
      obtain ⟨rfl, rfl⟩ := build_pure_ok.mp hv
      exact ⟨means_constant _, rfl⟩

theorem range_define (h : Bound n ws σ w) {a : Range} (ha : ∀ j ∈ a.witnesses, j < n)
    (hdefine : a.define ws b = .ok ((), b')) : b'.tables = b.tables ∧
      Exact R T σ b b' pre ((a.input.value w).val < 2 ^ a.nBits) := by
  obtain ⟨v, b₁, hv, hrange⟩ := build_bind_ok.mp hdefine
  obtain ⟨hmeans, rfl⟩ := toVariable_means h ha hv
  rw [constrain_ok] at hrange
  subst hrange
  refine ⟨rfl, .constraint (fun inner inner' _ => ?_) fun inner _ => ?_⟩
  · simp only [Constraint.Holds, hmeans.value]
    exact id
  · rw [Constraint.Holds, hmeans.value]

/-- What `splitToU64Limbs` adds, with the limbs on the wires `k` and `k + 1`. -/
def splitConstraints (v : Variable) (nBits k : Nat) : List Constraint :=
  (if nBits < 128 then [.rangeCheck (.wire (.inner (k + 1))) (nBits - 64)] else []) ++
    [.assertIsEqual v (.add (.wire (.inner k)) (.mul (.wire (.inner (k + 1))) twoTo64))]

theorem split_run (v : Variable) (nBits : Nat) (b : Calls) :
    splitToU64Limbs v nBits b = .ok ((.wire (.inner b.inners), .wire (.inner (b.inners + 1))),
      { b with
        inners := b.inners + 2
        constraints := b.constraints ++ splitConstraints v nBits b.inners }) := by
  rw [splitConstraints]
  by_cases h : nBits < 128
  · rw [if_pos h, ← List.append_assoc]
    simp only [splitToU64Limbs, if_pos h]
    rfl
  · rw [if_neg h]
    simp only [splitToU64Limbs, if_neg h]
    rfl

/-- The limbs of a value, of which the high one fits. -/
def Limbs (nBits : Nat) (x lo hi : Scalar) : Prop :=
  (nBits < 128 → hi.val < 2 ^ (nBits - 64)) ∧ x = lo + hi * ((2 ^ 64 : Nat) : Scalar)

theorem sat_split {v : Variable} {x : Scalar} (h : Means σ v x) (nBits k : Nat)
    (inner : Nat → Scalar) : Sat R T σ (splitConstraints v nBits k) inner ↔
      Limbs nBits x (inner k) (inner (k + 1)) := by
  rw [splitConstraints, sat_append, sat_singleton, Limbs]
  refine and_congr ?_ ?_
  · by_cases hlt : nBits < 128
    · rw [if_pos hlt, sat_singleton]
      exact ⟨fun hrange _ => hrange, fun hrange => hrange hlt⟩
    · rw [if_neg hlt]
      exact ⟨fun _ hlt' => absurd hlt' hlt, fun _ c hc => absurd hc List.not_mem_nil⟩
  · rw [Constraint.Holds, h.value]
    rfl

/-- **Checked limb by limb, an operation is the operation on the whole numbers.** -/
theorem bitwise_limbs {op : BitOp} {nBits : Nat} (hn : 64 < nBits ∧ nBits ≤ 128)
    {x y z x₀ x₁ y₀ y₁ z₀ z₁ : Scalar} (hx : Limbs nBits x x₀ x₁) (hy : Limbs nBits y y₀ y₁)
    (hz : Limbs nBits z z₀ z₁)
    (hlo : x₀.val < 2 ^ 64 ∧ y₀.val < 2 ^ 64 ∧ z₀.val < 2 ^ 64 ∧ z₀.val = op.apply x₀.val y₀.val)
    (hhi : x₁.val < 2 ^ 64 ∧ y₁.val < 2 ^ 64 ∧ z₁.val < 2 ^ 64 ∧ z₁.val = op.apply x₁.val y₁.val) :
    x.val < 2 ^ nBits ∧ y.val < 2 ^ nBits ∧ z.val = op.apply x.val y.val := by
  have hbound : ∀ {a a₀ a₁ : Scalar}, Limbs nBits a a₀ a₁ → a₁.val < 2 ^ 64 →
      a₁.val < 2 ^ (nBits - 64) := by
    intro a a₀ a₁ ha hlt
    by_cases h128 : nBits < 128
    · exact ha.1 h128
    · have heq : nBits - 64 = 64 := by omega
      rw [heq]
      exact hlt
  obtain ⟨hxval, hxlt⟩ := limbs_value hn hlo.1 (hbound hx hhi.1) hx.2
  obtain ⟨hyval, hylt⟩ := limbs_value hn hlo.2.1 (hbound hy hhi.2.1) hy.2
  obtain ⟨hzval, -⟩ := limbs_value hn hlo.2.2.1 (hbound hz hhi.2.2.1) hz.2
  refine ⟨hxlt, hylt, ?_⟩
  rw [hzval, hxval, hyval, apply_limbs op _ _ hlo.1 hlo.2.1, hlo.2.2.2, hhi.2.2.2]

theorem apply_lt (op : BitOp) {x y n : Nat} (hx : x < 2 ^ n) (hy : y < 2 ^ n) :
    op.apply x y < 2 ^ n := by
  cases op with
  | and => exact Nat.and_lt_two_pow x hy
  | xor => exact Nat.xor_lt_two_pow hx hy

/-- The limbs of the hint. -/
theorem limbs_of_lt {nBits : Nat} (hn : 64 < nBits) {x : Scalar} (hx : x.val < 2 ^ nBits) :
    Limbs nBits x (lowLimb x) (highLimb x) := by
  refine ⟨fun _ => ?_, eq_limbs x⟩
  rw [val_highLimb, Nat.div_lt_iff_lt_mul (by decide), ← Nat.pow_add]
  have heq : nBits - 64 + 64 = nBits := by omega
  rw [heq]
  exact hx

/-- What `defineBitwise` adds for more than 64 bits, with the limbs on six wires. -/
def limbConstraints (op : BitOp) (lhs rhs out : Variable) (nBits k : Nat) : List Constraint :=
  splitConstraints lhs nBits k ++ (splitConstraints rhs nBits (k + 2) ++
    (splitConstraints out nBits (k + 4) ++
      ([.bitwise op (.wire (.inner k)) (.wire (.inner (k + 2))) (.wire (.inner (k + 4)))] ++
        [.bitwise op (.wire (.inner (k + 1))) (.wire (.inner (k + 3))) (.wire (.inner (k + 5)))])))

theorem exact_limbs {op : BitOp} {lhs rhs out : Variable} {x y z : Scalar} {nBits : Nat}
    (hn : 64 < nBits ∧ nBits ≤ 128) (hlhs : Means σ lhs x) (hrhs : Means σ rhs y)
    (hout : Means σ out z) (hinners : b'.inners = b.inners + 6) (houter : b.SameOuter b')
    (hcs : b'.constraints = b.constraints ++ limbConstraints op lhs rhs out nBits b.inners) :
    Exact R T σ b b' pre (x.val < 2 ^ nBits ∧ y.val < 2 ^ nBits ∧ z.val = op.apply x.val y.val) := by
  -- the constraints as a relation on the values of the six wires
  let onWires (i : Nat → Scalar) : Prop :=
    Limbs nBits x (i 0) (i 1) ∧ Limbs nBits y (i 2) (i 3) ∧ Limbs nBits z (i 4) (i 5) ∧
    ((i 0).val < 2 ^ 64 ∧ (i 2).val < 2 ^ 64 ∧ (i 4).val < 2 ^ 64 ∧
      (i 4).val = op.apply (i 0).val (i 2).val) ∧
    ((i 1).val < 2 ^ 64 ∧ (i 3).val < 2 ^ 64 ∧ (i 5).val < 2 ^ 64 ∧
      (i 5).val = op.apply (i 1).val (i 3).val)
  have hsat : ∀ inner, Sat R T σ (limbConstraints op lhs rhs out nBits b.inners) inner ↔
      onWires fun j => inner (b.inners + j) := by
    intro inner
    rw [limbConstraints, sat_append, sat_append, sat_append, sat_append, sat_split hlhs,
      sat_split hrhs, sat_split hout, sat_singleton, sat_singleton]
    exact Iff.rfl
  refine ⟨by omega, houter, _, hcs, ?_, ?_, ?_⟩
  · intro inner inner' hagree hs
    rw [hsat] at hs ⊢
    have heq : ∀ j < 6, inner' (b.inners + j) = inner (b.inners + j) := fun j hj =>
      (hagree _ (by omega)).symm
    simp only [onWires, heq 0 (by decide), heq 1 (by decide), heq 2 (by decide),
      heq 3 (by decide), heq 4 (by decide), heq 5 (by decide)]
    exact hs
  · intro inner _ hs
    obtain ⟨hx, hy, hz, hlo, hhi⟩ := (hsat inner).mp hs
    exact bitwise_limbs hn hx hy hz hlo hhi
  · rintro inner - ⟨hx, hy, hz⟩
    obtain ⟨inner', hagree, h₀, h₁, h₂, h₃, h₄, h₅⟩ : ∃ inner', AgreeBelow b.inners inner inner' ∧
        inner' (b.inners + 0) = lowLimb x ∧ inner' (b.inners + 1) = highLimb x ∧
        inner' (b.inners + 2) = lowLimb y ∧ inner' (b.inners + 3) = highLimb y ∧
        inner' (b.inners + 4) = lowLimb z ∧ inner' (b.inners + 5) = highLimb z :=
      ⟨place b.inners [lowLimb x, highLimb x, lowLimb y, highLimb y, lowLimb z, highLimb z] inner,
        agreeBelow_place _ _ _, place_add rfl, place_add rfl, place_add rfl, place_add rfl,
        place_add rfl, place_add rfl⟩
    refine ⟨inner', hagree, (hsat inner').mpr ?_⟩
    have hzlt : z.val < 2 ^ nBits := by rw [hz]; exact apply_lt op hx hy
    have hmod : ∀ a : Nat, a % 2 ^ 64 < 2 ^ 64 := fun a => Nat.mod_lt _ (by decide)
    have hdiv : ∀ a : Scalar, a.val < 2 ^ nBits → a.val / 2 ^ 64 < 2 ^ 64 := by
      intro a ha
      rw [Nat.div_lt_iff_lt_mul (by decide), ← Nat.pow_add]
      exact Nat.lt_of_lt_of_le ha (Nat.pow_le_pow_right (by decide) hn.2)
    have happly := apply_limbs op (x.val / 2 ^ 64) (y.val / 2 ^ 64) (hmod x.val) (hmod y.val)
    rw [Nat.mod_add_div', Nat.mod_add_div', ← hz] at happly
    have hlow : op.apply (x.val % 2 ^ 64) (y.val % 2 ^ 64) < 2 ^ 64 :=
      apply_lt op (hmod x.val) (hmod y.val)
    simp only [onWires, h₀, h₁, h₂, h₃, h₄, h₅, val_lowLimb, val_highLimb]
    refine ⟨limbs_of_lt hn.1 hx, limbs_of_lt hn.1 hy, limbs_of_lt hn.1 hzlt, ?_, ?_⟩
    · exact ⟨hmod _, hmod _, hmod _, by omega⟩
    · exact ⟨hdiv x hx, hdiv y hy, hdiv z hzlt, by omega⟩

theorem bitwise_define (h : Bound n ws σ w) {op : BitOp} {a : Bitwise}
    (ha : ∀ j ∈ a.witnesses, j < n) (hbits : a.nBits ≤ 128)
    (hdefine : defineBitwise op a ws b = .ok ((), b')) :
    b'.tables = b.tables ∧ Exact R T σ b b' pre (a.Holds op w) := by
  simp only [Bitwise.witnesses, List.mem_append, List.mem_singleton] at ha
  obtain ⟨lhs, b₁, hlhs, hrest₁⟩ := build_bind_ok.mp hdefine
  obtain ⟨rhs, b₂, hrhs, hrest₂⟩ := build_bind_ok.mp hrest₁
  obtain ⟨hx, rfl⟩ := toVariable_means h (fun j hj => ha j (.inl (.inl hj))) hlhs
  obtain ⟨hy, rfl⟩ := toVariable_means h (fun j hj => ha j (.inl (.inr hj))) hrhs
  obtain ⟨out, hout, hz⟩ := h.means (ha a.output (.inr rfl))
  simp only [hout] at hrest₂
  by_cases h64 : a.nBits ≤ 64
  · rw [if_pos h64] at hrest₂
    obtain ⟨_, b₃, h₁, hrest₃⟩ := build_bind_ok.mp hrest₂
    obtain ⟨_, b₄, h₂, h₃⟩ := build_bind_ok.mp hrest₃
    rw [constrain_ok] at h₁ h₂ h₃
    subst h₁ h₂ h₃
    refine ⟨rfl, .constraints rfl ⟨rfl, rfl, rfl⟩
      ((List.append_assoc _ _ _).trans (List.append_assoc _ _ _)) fun inner => ?_⟩
    rw [sat_append, sat_append, sat_singleton, sat_singleton, sat_singleton, Bitwise.Holds]
    simp only [Constraint.Holds, hx.value, hy.value, hz.value]
    have hpow : 2 ^ a.nBits ≤ 2 ^ 64 := Nat.pow_le_pow_right (by decide) h64
    constructor
    · rintro ⟨hl, hr, -, -, -, heq⟩
      exact ⟨hl, hr, heq⟩
    · rintro ⟨hl, hr, heq⟩
      have hl' : (a.lhs.value w).val < 2 ^ 64 := Nat.lt_of_lt_of_le hl hpow
      have hr' : (a.rhs.value w).val < 2 ^ 64 := Nat.lt_of_lt_of_le hr hpow
      exact ⟨hl, hr, hl', hr', by rw [heq]; exact apply_lt op hl' hr', heq⟩
  · rw [if_neg h64] at hrest₂
    obtain ⟨⟨_, _⟩, b₃, h₁, hrest₃⟩ := build_bind_ok.mp hrest₂
    obtain ⟨⟨_, _⟩, b₄, h₂, hrest₄⟩ := build_bind_ok.mp hrest₃
    obtain ⟨⟨_, _⟩, b₅, h₃, hrest₅⟩ := build_bind_ok.mp hrest₄
    obtain ⟨_, b₆, h₄, h₅⟩ := build_bind_ok.mp hrest₅
    rw [split_run] at h₁
    cases h₁
    rw [split_run] at h₂
    cases h₂
    rw [split_run] at h₃
    cases h₃
    rw [constrain_ok] at h₄ h₅
    subst h₄ h₅
    refine ⟨rfl, exact_limbs ⟨Nat.lt_of_not_le h64, hbits⟩ hx hy hz rfl ⟨rfl, rfl, rfl⟩ ?_⟩
    simp [limbConstraints]

/-- A `mapM` whose steps make no calls. -/
theorem build_mapM_ok {α β : Type} {f : α → Build β} {P : α → β → Prop} {xs : List α} {ys : List β}
    (hf : ∀ x ∈ xs, ∀ y b b', f x b = .ok (y, b') → b' = b ∧ P x y)
    (h : xs.mapM f b = .ok (ys, b')) : b' = b ∧ List.Forall₂ P xs ys := by
  induction xs generalizing b ys with
  | nil =>
    rw [List.mapM_nil, build_pure_ok] at h
    exact ⟨h.2, h.1 ▸ .nil⟩
  | cons x xs ih =>
    rw [List.mapM_cons] at h
    obtain ⟨y, b₁, hy, hrest₁⟩ := build_bind_ok.mp h
    obtain ⟨ys', b₂, hys, hpure⟩ := build_bind_ok.mp hrest₁
    obtain ⟨rfl, rfl⟩ := build_pure_ok.mp hpure
    obtain ⟨rfl, hP⟩ := hf x List.mem_cons_self y b b₁ hy
    obtain ⟨rfl, hall⟩ := ih (fun x hx => hf x (List.mem_cons_of_mem _ hx)) hys
    exact ⟨rfl, .cons hP hall⟩

theorem map_eq_of_forall₂ {α β γ : Type} {f : β → γ} {g : α → γ} {xs : List α} {ys : List β}
    (h : List.Forall₂ (fun x y => f y = g x) xs ys) : ys.map f = xs.map g := by
  induction h with
  | nil => rfl
  | cons hxy _ ih => rw [List.map_cons, List.map_cons, hxy, ih]

theorem deref_means (h : Bound n ws σ w) {j : Witness} {v : Variable} (hj : j < n)
    (hv : deref (ws j) b = .ok (v, b')) : b' = b ∧ Means σ v (w j) := by
  obtain ⟨v', hv', hmeans⟩ := h.means hj
  rw [deref_ok, hv'] at hv
  obtain ⟨heq, rfl⟩ := hv
  cases heq
  exact ⟨rfl, hmeans⟩

/-- A gadget is asked about the values of its payload. -/
theorem toArg_value (h : Bound n ws σ w) {x : Payload} {arg : Arg Variable}
    (hx : ∀ j ∈ x.allWitnesses, j < n) (harg : x.toArg ws b = .ok (arg, b')) :
    b' = b ∧ ∀ inner, arg.map (·.eval (withInner σ inner)) = x.value w := by
  cases x with
  | input f =>
    obtain ⟨v, b₁, hv, hpure⟩ := build_bind_ok.mp harg
    obtain ⟨rfl, rfl⟩ := build_pure_ok.mp hpure
    obtain ⟨hmeans, rfl⟩ := toVariable_means h hx hv
    exact ⟨rfl, fun inner => congrArg Arg.one (hmeans.value inner)⟩
  | inputs fs =>
    obtain ⟨vs, b₁, hvs, hpure⟩ := build_bind_ok.mp harg
    obtain ⟨rfl, rfl⟩ := build_pure_ok.mp hpure
    obtain ⟨rfl, hall⟩ := build_mapM_ok (P := fun f v => Means σ v (f.value w))
      (fun f hf v b b' hv => (toVariable_means h (fun j hj =>
        hx j (List.mem_flatMap.mpr ⟨f, hf, hj⟩)) hv).symm) hvs
    refine ⟨rfl, fun inner => congrArg Arg.many (map_eq_of_forall₂ ?_)⟩
    exact hall.imp fun f v hmeans => hmeans.value inner
  | witness j =>
    obtain ⟨v, b₁, hv, hpure⟩ := build_bind_ok.mp harg
    obtain ⟨rfl, rfl⟩ := build_pure_ok.mp hpure
    obtain ⟨rfl, hmeans⟩ := deref_means h (hx j (List.mem_singleton.mpr rfl)) hv
    exact ⟨rfl, fun inner => congrArg Arg.one (hmeans.value inner)⟩
  | witnesses js =>
    obtain ⟨vs, b₁, hvs, hpure⟩ := build_bind_ok.mp harg
    obtain ⟨rfl, rfl⟩ := build_pure_ok.mp hpure
    obtain ⟨rfl, hall⟩ := build_mapM_ok (P := fun j v => Means σ v (w j))
      (fun j hj v b b' hv => deref_means h (hx j hj) hv) hvs
    refine ⟨rfl, fun inner => congrArg Arg.many (map_eq_of_forall₂ ?_)⟩
    exact hall.imp fun j v hmeans => hmeans.value inner
  | number k =>
    obtain ⟨rfl, rfl⟩ := build_pure_ok.mp harg
    exact ⟨rfl, fun inner => rfl⟩

/-- The operations have at most 128 bits, which their decoder checks. -/
def BlackBoxFunction.Sized : BlackBoxFunction → Prop
  | .and a => a.nBits ≤ 128
  | .xor a => a.nBits ≤ 128
  | _ => True

theorem blackBoxFunction_define (h : Bound n ws σ w) {f : BlackBoxFunction}
    (hf : ∀ j ∈ f.witnesses, j < n) (hsized : f.Sized) (hdefine : f.define ws b = .ok ((), b')) :
    b'.tables = b.tables ∧ Exact R T σ b b' pre (f.Holds R w) := by
  cases f with
  | and a => exact bitwise_define h hf hsized hdefine
  | xor a => exact bitwise_define h hf hsized hdefine
  | range a => exact range_define h hf hdefine
  | other f values =>
    obtain ⟨args, b₁, hargs, hgadget⟩ := build_bind_ok.mp hdefine
    obtain ⟨rfl, hall⟩ := build_mapM_ok
      (P := fun x arg => ∀ inner, Arg.map (·.eval (withInner σ inner)) arg = x.value w)
      (fun x hx arg b b' harg => toArg_value h (fun j hj =>
        hf j (List.mem_flatMap.mpr ⟨x, hx, hj⟩)) harg) hargs
    rw [constrain_ok] at hgadget
    subst hgadget
    refine ⟨rfl, .constraints rfl ⟨rfl, rfl, rfl⟩ rfl fun inner => ?_⟩
    have hvalues : args.map (Arg.map (·.eval (withInner σ inner))) = values.map (Payload.value w) :=
      map_eq_of_forall₂ (hall.imp fun x arg hvalue => hvalue inner)
    rw [sat_singleton, Constraint.Holds, hvalues]
    exact Iff.rfl

end

end Nortia.Sunspot
