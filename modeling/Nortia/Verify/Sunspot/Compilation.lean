import Nortia.Verify.Sunspot.Layout

/-!
# The compiled constraints accept what the program accepts

The variables of the constraint system are assigned by the witness vector, the wires of hints and
lookups by the prover. There is a solution for the vector of an execution exactly when the opcodes of
every frame accept the execution.
-/

namespace Nortia.Sunspot

open Lib

/-! ## The variables of the slots -/

section

variable {p : Program} {params : List ParamInfo} {f : Frame}

theorem map_getD_range (xs ys : List Scalar) :
    (List.range xs.length).map (fun i => ((xs ++ ys)[i]?).getD 0) = xs := by
  refine List.ext_getElem (by simp) fun i hi hi' => ?_
  rw [List.getElem_map, List.getElem_range, List.getElem?_append_left hi',
    List.getElem?_eq_getElem hi', Option.getD_some]

theorem values_getElem? (item : StackItem) {j : Nat}
    (hj : j < (item.circuit p).currentWitnessIndex + 1) :
    (item.values p)[j]? = some (item.value j) := by
  rw [StackItem.values, List.getElem?_map, List.getElem?_range hj, Option.map_some]

theorem slots_getElem? (f : Frame) {j : Nat}
    (hj : j < (f.item.circuit p).currentWitnessIndex + 1) :
    (f.slots p)[(Frame.slotsAll p f.calls).length + j]? = some (f.item.value j) := by
  rw [slots_append, List.getElem?_append_right (Nat.le_add_right _ _), Nat.add_sub_cancel_left,
    values_getElem? f.item hj]

/-- The private values of the vector are those of the slots without a public parameter, in order. -/
theorem secrets_eq {ws : Witnesses}
    (hws : ∀ i : Nat, ws i = none ↔
      ∀ j : Nat, skipKey params j = true → i ≠ (Frame.slotsAll p f.calls).length + j) :
    ((List.range (f.slots p).length).filter fun i => (ws i).isNone).map
        (fun i => ((f.slots p)[i]?).getD 0) =
      Frame.slotsAll p f.calls ++ ownSecrets p params f.item := by
  have hcalls : (List.range (Frame.slotsAll p f.calls).length).filter (fun i => (ws i).isNone) =
      List.range (Frame.slotsAll p f.calls).length := by
    refine List.filter_eq_self.mpr fun i hi => Option.isNone_iff_eq_none.mpr ((hws i).mpr ?_)
    have hlt := List.mem_range.mp hi
    exact fun j _ => by omega
  have hown : ∀ j : Nat, (ws ((Frame.slotsAll p f.calls).length + j)).isNone = !skipKey params j := by
    intro j
    cases hskip : skipKey params j with
    | false =>
      refine Option.isNone_iff_eq_none.mpr ((hws _).mpr fun i hi heq => ?_)
      have hij : j = i := Nat.add_left_cancel heq
      rw [hij, hi] at hskip
      cases hskip
    | true =>
      refine Bool.eq_false_iff.mpr fun hnone => ?_
      exact (hws _).mp (Option.isNone_iff_eq_none.mp hnone) j hskip rfl
  rw [length_slots, List.range_add, List.filter_append, List.map_append, hcalls, slots_append,
    map_getD_range, List.filter_map, List.map_map, ownSecrets]
  congr 1
  have hfilter : (List.range ((f.item.circuit p).currentWitnessIndex + 1)).filter
      ((fun i => (ws i).isNone) ∘ fun j => (Frame.slotsAll p f.calls).length + j) =
      (List.range ((f.item.circuit p).currentWitnessIndex + 1)).filter fun j => !skipKey params j :=
    List.filter_congr fun j _ => hown j
  rw [hfilter]
  refine List.map_congr_left fun j hj => ?_
  have hlt := List.mem_range.mp (List.mem_filter.mp hj).1
  show ((Frame.slotsAll p f.calls ++ f.item.values p)[_]?).getD 0 = _
  rw [← slots_append, slots_getElem? f hlt, Option.getD_some]

/-- **Every slot has a variable with its value**, where the vector holds the public parameters and then
every other slot. -/
theorem assigned_slots {v : WitnessVector}
    (hparams : ∀ j : Nat, skipKey params j = true → j ≤ (f.item.circuit p).currentWitnessIndex)
    (hlt : (f.slots p).length < 2 ^ 32)
    (hpubs : v.pubs = publicValues f.item 0 params) (hcount : v.pubs.length = countPublic params)
    (hsecrets : v.secrets = Frame.slotsAll p f.calls ++ ownSecrets p params f.item)
    {ws₁ ws : Witnesses} {b₁ b : Calls}
    (hpublic : allocatePublic (Frame.slotsAll p f.calls).length 0 params (fun _ => none) {} =
      .ok (ws₁, b₁))
    (hsecret : allocateSecret (List.range (f.slots p).length) ws₁ b₁ = .ok (ws, b)) :
    Assigned ws v.assignment 0 (f.slots p) ∧
      b = { pubs := v.pubs.length, secrets := v.secrets.length } := by
  have hlength := length_slots (p := p) f
  obtain ⟨rfl, hkeep₁, hfresh₁⟩ := allocatePublic_ok (σ := v.assignment) f.item
    (fun k x hk => by
      show (v.pubs[0 + k]?).getD 0 = x
      rw [Nat.zero_add, hpubs, hk, Option.getD_some])
    (fun j hj => by have hle := hparams j hj; omega)
    (lookup_isSome (by rw [← hpubs, hcount])) hpublic
  have hws : ∀ i : Nat, ws₁ i = none ↔
      ∀ j : Nat, skipKey params j = true → i ≠ (Frame.slotsAll p f.calls).length + j := by
    intro i
    constructor
    · rintro hnone j hj rfl
      obtain ⟨v', hv', -⟩ := hfresh₁ j hj
      rw [Nat.zero_add, Nat.add_comm, hnone] at hv'
      cases hv'
    · intro hne
      exact hkeep₁ i fun j hj => by have hij := hne j hj; omega
  have hvalues := secrets_eq hws
  rw [← hsecrets] at hvalues
  obtain ⟨rfl, hkeep, hfresh⟩ := allocateSecret_ok (σ := v.assignment)
    (fun i => ((f.slots p)[i]?).getD 0) List.nodup_range
    (fun k x hk => by
      rw [hvalues] at hk
      show (v.secrets[0 + k]?).getD 0 = x
      rw [Nat.zero_add, hk, Option.getD_some]) hsecret
  constructor
  · intro i x hi
    rw [Nat.zero_add]
    by_cases hnone : ws₁ i = none
    · have hmem : i ∈ List.range (f.slots p).length :=
        List.mem_range.mpr (List.getElem?_eq_some_iff.mp hi).1
      obtain ⟨v', hv', hmeans⟩ := hfresh i hmem hnone
      rw [hi, Option.getD_some] at hmeans
      exact ⟨v', hv', hmeans⟩
    · -- the slot of a public parameter
      obtain ⟨j, hj, rfl⟩ : ∃ j : Nat, skipKey params j = true ∧
          i = (Frame.slotsAll p f.calls).length + j := by
        by_contra hall
        exact hnone ((hws i).mpr fun j hj heq => hall ⟨j, hj, heq⟩)
      obtain ⟨v', hv', hmeans⟩ := hfresh₁ j hj
      rw [slots_getElem? f (Nat.lt_succ_of_le (hparams j hj))] at hi
      cases hi
      rw [Nat.zero_add, Nat.add_comm] at hv'
      rw [Nat.zero_add] at hmeans
      exact ⟨v', hkeep _ _ hv', hmeans⟩
  · have hlen := congrArg List.length hvalues
    rw [List.length_map] at hlen
    simp only [hlen, hcount, Nat.zero_add]

end

/-! ## The solution -/

section

variable {System : Type} {F : Frontend System} {R : Gadgets} {fill : Fill} {acir : ACIR} {f : Frame}
  {v : WitnessVector} {b : Calls} {system : System}

/-- The calls of a compilation ask for as many variables as the vector has values, and the vector
solves them exactly when every frame is accepted. -/
theorem build_exact (hp : acir.program.WellFormed) (hfits : f.Fits acir.program 0)
    (hlt : (f.slots acir.program).length < 2 ^ 32)
    (hparams : ∀ j : Nat, skipKey (params acir.abi) j = true →
      j ≤ (f.item.circuit acir.program).currentWitnessIndex)
    (hfill : fill.Documented) (hwitness : acir.getWitness fill f.postorder = .ok v)
    (hbuild : build (params acir.abi) acir.program {} = .ok ((), b)) :
    v.pubs.length = b.pubs ∧ v.secrets.length = b.secrets ∧ b.named = [] ∧
      (b.SolvedBy R v ↔ f.Accepted acir.program R dummySlack) := by
  obtain ⟨⟨totalSlots, mainStart⟩, b₁, hlift, hrest₁⟩ := build_bind_ok.mp hbuild
  obtain ⟨hlayout, rfl⟩ := lift_ok.mp hlift
  obtain ⟨rfl, rfl⟩ := witnessLayout_ok hfits hlt hlayout
  obtain ⟨ws₁, b₂, hpublic, hrest₂⟩ := build_bind_ok.mp hrest₁
  obtain ⟨ws, b₃, hsecret, hdefine⟩ := build_bind_ok.mp hrest₂
  obtain ⟨hpubs, hcount, hsecrets⟩ := getWitness_ok hfill hparams hwitness
  obtain ⟨hassigned, rfl⟩ :=
    assigned_slots hparams hlt hpubs hcount hsecrets hpublic hsecret
  obtain ⟨main, b₄, hliftMain, hrest₃⟩ := build_bind_ok.mp hdefine
  obtain ⟨hmain, rfl⟩ := lift_ok.mp hliftMain
  obtain ⟨d, b₅, hcircuit, hpure⟩ := build_bind_ok.mp hrest₃
  obtain ⟨-, rfl⟩ := build_pure_ok.mp hpure
  have hstep : CircuitStep R v.assignment acir.program b.tables f 0 d _ b :=
    circuit_define hp acir.program.room hfits (main_ok hmain) hassigned (by omega) hcircuit
      fun _ _ h => h
  obtain ⟨-, houter, new, hnew, -, hsound, hcomplete⟩ := hstep.exact
  rw [List.nil_append] at hnew
  refine ⟨houter.pubs.symm, houter.secrets.symm, houter.named, ?_⟩
  unfold Calls.SolvedBy
  rw [hnew]
  constructor
  · rintro ⟨inner, hsat⟩
    exact hsound inner trivial hsat
  · intro haccepted
    obtain ⟨inner, -, hsat⟩ := hcomplete (fun _ => 0) trivial haccepted
    exact ⟨inner, hsat⟩

/-- **The witness vector of an execution solves the compiled constraints exactly when every frame is
accepted**, where a read may see the dummy entry of a block that is written later. The vector has a
value for each variable. -/
theorem compile_exact (hF : F.Documented R) (hfill : fill.Documented)
    (hp : acir.program.WellFormed) (hfits : f.Fits acir.program 0)
    (hlt : (f.slots acir.program).length < 2 ^ 32)
    (hparams : ∀ j : Nat, skipKey (params acir.abi) j = true →
      j ≤ (f.item.circuit acir.program).currentWitnessIndex)
    (hcompile : acir.compile F = .ok system) (hwitness : acir.getWitness fill f.postorder = .ok v) :
    F.publicVariables system = v.pubs.length ∧ F.secretVariables system = v.secrets.length ∧
      (F.isSolved system v ↔ f.Accepted acir.program R dummySlack) := by
  obtain ⟨⟨_, b⟩, hbuild, hsystem⟩ := bind_eq_ok.mp hcompile
  obtain ⟨hpubs, hsecrets, hnamed, hsolved⟩ :=
    build_exact (R := R) hp hfits hlt hparams hfill hwitness hbuild
  have hok : F.compile b = .ok system := by
    simp only at hsystem
    split at hsystem
    · next system' hok =>
      cases hsystem
      exact hok
    · cases hsystem
  obtain ⟨hpublic, hsecret⟩ := hF.allocated b system hok
  exact ⟨hpublic.trans hpubs.symm, hsecret.trans hsecrets.symm,
    (hF.solved b system v hok hnamed hpubs hsecrets).trans hsolved⟩

end

/-! ## The dummy entries -/

/-- No block is read that is written later. -/
def readsFinal : List Opcode → Bool
  | [] => true
  | .memoryOp m :: rest => (m.isWrite || !writtenLater m.blockID rest) && readsFinal rest
  | _ :: rest => readsFinal rest

/-- No circuit reads a block that it writes later. -/
def Program.ReadsFinal (p : Program) : Prop := ∀ c ∈ p.functions, readsFinal c.opcodes = true

section

variable {R : Gadgets} {w : Valuation} {ops : List Opcode} {mem : Memory} {p : Program}

/-- A read that sees an entry of its block also sees it in front of a dummy entry. -/
theorem OpcodesAccept.dummy (h : OpcodesAccept R noSlack w ops mem) :
    OpcodesAccept R dummySlack w ops mem := by
  induction ops generalizing mem with
  | nil => exact trivial
  | cons op rest ih =>
    cases op with
    | assertZero e => exact ⟨h.1, ih h.2⟩
    | blackBoxFuncCall f => exact ⟨h.1, ih h.2⟩
    | memoryInit m =>
      exact ih (show OpcodesAccept R noSlack w rest ((m.blockID, m.init.map w) :: mem) from h)
    | brilligCall c | call c => exact ih (show OpcodesAccept R noSlack w rest mem from h)
    | memoryOp m =>
      obtain ⟨entries, hentries, h⟩ := h
      refine ⟨entries, hentries, ?_⟩
      cases hwrite : m.isWrite with
      | true =>
        rw [hwrite, if_pos rfl] at h
        rw [if_pos rfl]
        exact ih h
      | false =>
        rw [hwrite, if_neg Bool.false_ne_true] at h
        rw [if_neg Bool.false_ne_true]
        obtain ⟨⟨k, hk, hindex⟩, hrest⟩ := h
        refine ⟨⟨k, ?_, hindex⟩, ih hrest⟩
        rw [noSlack, List.append_nil] at hk
        rw [List.getElem?_append_left (List.getElem?_eq_some_iff.mp hk).1]
        exact hk

/-- Where no block is written after it was read there is no dummy entry to see. -/
theorem OpcodesAccept.noDummy (hreads : readsFinal ops = true)
    (h : OpcodesAccept R dummySlack w ops mem) : OpcodesAccept R noSlack w ops mem := by
  induction ops generalizing mem with
  | nil => exact trivial
  | cons op rest ih =>
    cases op with
    | assertZero e => exact ⟨h.1, ih hreads h.2⟩
    | blackBoxFuncCall f => exact ⟨h.1, ih hreads h.2⟩
    | memoryInit m =>
      exact ih hreads
        (show OpcodesAccept R dummySlack w rest ((m.blockID, m.init.map w) :: mem) from h)
    | brilligCall c | call c =>
      exact ih hreads (show OpcodesAccept R dummySlack w rest mem from h)
    | memoryOp m =>
      obtain ⟨hread, hreads⟩ := Bool.and_eq_true_iff.mp hreads
      obtain ⟨entries, hentries, h⟩ := h
      refine ⟨entries, hentries, ?_⟩
      cases hwrite : m.isWrite with
      | true =>
        rw [hwrite, if_pos rfl] at h
        rw [if_pos rfl]
        exact ih hreads h
      | false =>
        rw [hwrite, if_neg Bool.false_ne_true] at h
        rw [if_neg Bool.false_ne_true]
        obtain ⟨⟨k, hk, hindex⟩, hrest⟩ := h
        rw [hwrite, Bool.false_or, Bool.not_eq_true'] at hread
        rw [dummySlack, hread, if_neg Bool.false_ne_true] at hk
        exact ⟨⟨k, hk, hindex⟩, ih hreads hrest⟩

mutual

/-- Acceptance frame by frame. -/
theorem accepted_imp {slack slack' : Slack}
    (hops : ∀ item : StackItem, OpcodesAccept R slack item.value (item.circuit p).opcodes [] →
      OpcodesAccept R slack' item.value (item.circuit p).opcodes []) :
    (f : Frame) → f.Accepted p R slack → f.Accepted p R slack'
  | .node item calls, h => ⟨hops item h.1, acceptedAll_imp hops item.value _ calls h.2⟩

theorem acceptedAll_imp {slack slack' : Slack}
    (hops : ∀ item : StackItem, OpcodesAccept R slack item.value (item.circuit p).opcodes [] →
      OpcodesAccept R slack' item.value (item.circuit p).opcodes []) (w : Valuation) :
    (cs : List Call) → (fs : List Frame) → Frame.AcceptedAll p R slack w cs fs →
      Frame.AcceptedAll p R slack' w cs fs
  | [], [], h => h
  | [], _ :: _, h => h
  | _ :: _, [], h => h
  | _ :: cs, f :: fs, h => ⟨h.1, accepted_imp hops f h.2.1, acceptedAll_imp hops w cs fs h.2.2⟩

end

theorem readsFinal_circuit (hp : p.ReadsFinal) (item : StackItem) :
    readsFinal (item.circuit p).opcodes = true := by
  rw [StackItem.circuit]
  cases hc : p.functions[item.circuitIndex]? with
  | none => rfl
  | some c => exact hp c (List.mem_of_getElem? hc)

end

section

variable {System : Type} {F : Frontend System} {R : Gadgets} {fill : Fill} {acir : ACIR} {f : Frame}
  {v : WitnessVector} {system : System}

/-- **The compiled constraints mean what the program means.** The witness vector has a value for each
variable; that of an execution the program accepts solves the constraints, and where no circuit writes
a block it has read, only that of such an execution. -/
theorem compile_correct (hF : F.Documented R) (hfill : fill.Documented)
    (hp : acir.program.WellFormed) (hfits : f.Fits acir.program 0)
    (hlt : (f.slots acir.program).length < 2 ^ 32)
    (hparams : ∀ j : Nat, skipKey (params acir.abi) j = true →
      j ≤ (f.item.circuit acir.program).currentWitnessIndex)
    (hcompile : acir.compile F = .ok system) (hwitness : acir.getWitness fill f.postorder = .ok v) :
    F.publicVariables system = v.pubs.length ∧ F.secretVariables system = v.secrets.length ∧
      (f.Holds acir.program R → F.isSolved system v) ∧
      (acir.program.ReadsFinal → F.isSolved system v → f.Holds acir.program R) := by
  obtain ⟨hpubs, hsecrets, hsolved⟩ :=
    compile_exact hF hfill hp hfits hlt hparams hcompile hwitness
  refine ⟨hpubs, hsecrets, fun hholds => hsolved.mpr ?_, fun hreads hsat => ?_⟩
  · exact accepted_imp (fun _ => OpcodesAccept.dummy) f hholds
  · exact accepted_imp (fun item => OpcodesAccept.noDummy (readsFinal_circuit hreads item)) f
      (hsolved.mp hsat)

end

theorem squareProgram_wellFormed : squareProgram.WellFormed where
  closed := by
    unfold Program.Closed Circuit.Closed
    decide
  sized := by
    intro c hc op hop
    simp only [squareProgram, List.mem_cons, List.not_mem_nil, or_false] at hc
    rcases hc with rfl | rfl
    · cases List.mem_singleton.mp hop
      exact trivial
    · cases List.mem_singleton.mp hop
      exact trivial

theorem squareFrame_holds (R : Gadgets) : squareFrame.Holds squareProgram R := by
  have hsquare : OpcodesAccept R noSlack (squareItem 1).value
      ((squareItem 1).circuit squareProgram).opcodes [] := ⟨by decide, trivial⟩
  exact ⟨trivial, ⟨by decide, by decide⟩, ⟨hsquare, trivial⟩, trivial⟩

/-- A frontend that keeps the calls as they are. -/
def recordCalls (R : Gadgets) : Frontend Calls where
  compile := .ok
  publicVariables := Calls.pubs
  secretVariables := Calls.secrets
  isSolved := Calls.SolvedBy R

theorem recordCalls_documented (R : Gadgets) : (recordCalls R).Documented R where
  allocated := by
    intro calls system h
    cases h
    exact ⟨rfl, rfl⟩
  solved := by
    intro calls system v h _ _ _
    cases h
    exact Iff.rfl

theorem squareProgram_solved : ∃ system v,
    squareAcir.compile (recordCalls fun _ _ => True) = .ok system ∧
      squareAcir.getWitness fillVector squareFrame.postorder = .ok v ∧
        (recordCalls fun _ _ => True).isSolved system v :=
  ⟨_, _, rfl, rfl, (compile_correct (f := squareFrame) (recordCalls_documented _)
    fillVector_documented squareProgram_wellFormed squareFrame_fits (by decide) squareAcir_public
    rfl rfl).2.2.1 (squareFrame_holds _)⟩

end Nortia.Sunspot
