import PipeSim.Machine.Fields
import Mathlib.Tactic.NormNum

/-!
# Arithmetic and illegal-instruction traps

The sign tests of the switch recognise exactly the sums and differences that do not fit
into 32 bits.  One of them is attached to the wrong function code, and the default case
of the inner switch reports an illegal instruction without going to the exception handler.
-/

namespace PipeSim

def FitsInt32 (z : Int) : Prop := -2 ^ 31 ≤ z ∧ z ≤ 2 ^ 31 - 1

instance (z : Int) : Decidable (FitsInt32 z) := by
  unfold FitsInt32
  infer_instance

theorem addOverflows_iff (a b : Word) :
    addOverflows a b = true <-> ¬ FitsInt32 (a.toInt + b.toInt) := by
  have ha := a.le_toInt
  have ha' := a.toInt_lt
  have hb := b.le_toInt
  have hb' := b.toInt_lt
  unfold addOverflows FitsInt32
  rw [decide_eq_true_iff, BitVec.toInt_add, Int.bmod_def]
  norm_num at *
  lia

theorem subOverflows_iff (a b : Word) :
    subOverflows a b = true <-> ¬ FitsInt32 (a.toInt - b.toInt) := by
  have ha := a.le_toInt
  have ha' := a.toInt_lt
  have hb := b.le_toInt
  have hb' := b.toInt_lt
  unfold subOverflows FitsInt32
  rw [decide_eq_true_iff, BitVec.toInt_sub, Int.bmod_def]
  norm_num at *
  lia

theorem toInt_ofInt_of_fits {z : Int} (h : FitsInt32 z) : (BitVec.ofInt 32 z).toInt = z := by
  unfold FitsInt32 at h
  rw [BitVec.toInt_ofInt]
  exact Int.bmod_eq_of_le (by lia) (by lia)

theorem add_eq_ofInt (a b : Word) : a + b = BitVec.ofInt 32 (a.toInt + b.toInt) := by
  apply BitVec.eq_of_toInt_eq
  rw [BitVec.toInt_add, BitVec.toInt_ofInt]

theorem sub_eq_ofInt (a b : Word) : a - b = BitVec.ofInt 32 (a.toInt - b.toInt) := by
  apply BitVec.eq_of_toInt_eq
  rw [BitVec.toInt_sub, BitVec.toInt_ofInt]

namespace Emulator

/-!
## Arithmetic
-/

/-- An instruction with the exact result `z` traps if it does not fit and writes it otherwise. -/
structure TrapsOrWrites (e : Emulator) (destination : RegId) (z : Int) : Prop where
  isOverflow : e.executeInstruction.1.isOverflow = true <-> ¬ FitsInt32 z
  traps : ¬ FitsInt32 z ->
    (destination ≠ 0#5 ->
      e.executeInstruction.2.registers destination = e.registers destination) ∧
      e.executeInstruction.2.PC = 0x8000#32
  writes : FitsInt32 z -> (e.executeInstruction.2.registers destination).toInt = z

/-- An instruction with the exact result `z` never traps and writes it modulo `2 ^ 32`. -/
structure WritesWrapped (e : Emulator) (destination : RegId) (z : Int) : Prop where
  isOverflow : e.executeInstruction.1.isOverflow = false
  writes : e.executeInstruction.2.registers destination = BitVec.ofInt 32 z

/-- What the instruction set says about the addition or subtraction at the program counter. -/
def ArithmeticFollowsIsa (e : Emulator) : Prop :=
  let word := e.fetchedWord
  let a := (e.operand (rsOf word)).toInt
  let b := (e.operand (rtOf word)).toInt
  let immediate := (immOf word).toInt
  match opOf word with
  | some .zero =>
      match functOf word with
      | some .add => e.TrapsOrWrites (rdOf word) (a + b)
      | some .addu => e.WritesWrapped (rdOf word) (a + b)
      | some .sub => e.TrapsOrWrites (rdOf word) (a - b)
      | some .subu => e.WritesWrapped (rdOf word) (a - b)
      | _ => True
  | some .addi => e.TrapsOrWrites (rtOf word) (a + immediate)
  | some .addiu => e.WritesWrapped (rtOf word) (a + immediate)
  | _ => True

def SubtractionOverflows (e : Emulator) : Prop :=
  opOf e.fetchedWord = some .zero ∧
    (functOf e.fetchedWord = some .sub ∨ functOf e.fetchedWord = some .subu) ∧
    ¬ FitsInt32 ((e.operand (rsOf e.fetchedWord)).toInt -
      (e.operand (rtOf e.fetchedWord)).toInt)

instance (e : Emulator) : Decidable e.SubtractionOverflows := by
  unfold SubtractionOverflows
  infer_instance

section Arithmetic

variable {e : Emulator} {info : InstructionInfo} {field value : Word} {z : Int}

theorem trapsOrWrites_of_overflow (hz : ¬ FitsInt32 z)
    (h : e.executeInstruction =
      ({ e.decoded with isOverflow := true }, e.fetch.2.raiseException)) (destination : RegId) :
    e.TrapsOrWrites destination z := by
  refine ⟨?_, ?_, fun hfits => absurd hfits hz⟩
  · rw [h]
    exact ⟨fun _ => hz, fun _ => rfl⟩
  · intro _
    rw [h]
    refine ⟨fun hne => ?_, rfl⟩
    change e.fetch.2.registers destination = _
    rw [fetch_registers, operand_of_ne hne]

theorem trapsOrWrites_of_write (hz : FitsInt32 z)
    (h : e.executeInstruction = (e.decoded, e.fetch.2.setReg field (BitVec.ofInt 32 z))) :
    e.TrapsOrWrites (regOf field) z := by
  refine ⟨?_, fun hnot => absurd hz hnot, ?_⟩
  · rw [h]
    constructor
    · intro hoverflow
      cases hoverflow
    · intro hnot
      exact absurd hz hnot
  · intro _
    rw [h]
    dsimp only
    rw [setReg_registers, Function.update_self, toInt_ofInt_of_fits hz]

theorem writesWrapped_of_write
    (h : e.executeInstruction = (e.decoded, e.fetch.2.setReg field (BitVec.ofInt 32 z))) :
    e.WritesWrapped (regOf field) z := by
  refine ⟨?_, ?_⟩
  · rw [h]
    rfl
  · rw [h]
    dsimp only
    rw [setReg_registers, Function.update_self]

theorem trapsOrWrites_add {x y : Word}
    (h : e.executeInstruction =
      if addOverflows x y then ({ e.decoded with isOverflow := true }, e.fetch.2.raiseException)
      else (e.decoded, e.fetch.2.setReg field (x + y))) :
    e.TrapsOrWrites (regOf field) (x.toInt + y.toInt) := by
  have hover := addOverflows_iff x y
  by_cases hfits : FitsInt32 (x.toInt + y.toInt)
  · rw [if_neg (fun hx => hover.mp hx hfits), add_eq_ofInt] at h
    exact trapsOrWrites_of_write hfits h
  · rw [if_pos (hover.mpr hfits)] at h
    exact trapsOrWrites_of_overflow hfits h _

theorem writesWrapped_sub_iff {x y : Word}
    (h : e.executeInstruction =
      if subOverflows x y then ({ e.decoded with isOverflow := true }, e.fetch.2.raiseException)
      else (e.decoded, e.fetch.2.setReg field (x - y))) :
    e.WritesWrapped (regOf field) (x.toInt - y.toInt) <-> FitsInt32 (x.toInt - y.toInt) := by
  have hover := subOverflows_iff x y
  by_cases hfits : FitsInt32 (x.toInt - y.toInt)
  · rw [if_neg (fun hx => hover.mp hx hfits), sub_eq_ofInt] at h
    exact ⟨fun _ => hfits, fun _ => writesWrapped_of_write h⟩
  · rw [if_pos (hover.mpr hfits)] at h
    constructor
    · intro hwrites
      have hflag := hwrites.isOverflow
      rw [h] at hflag
      cases hflag
    · intro hnot
      exact absurd hnot hfits

theorem trapsOrWrites_sub_iff {x y : Word}
    (h : e.executeInstruction = (e.decoded, e.fetch.2.setReg field (x - y))) :
    e.TrapsOrWrites (regOf field) (x.toInt - y.toInt) <-> FitsInt32 (x.toInt - y.toInt) := by
  rw [sub_eq_ofInt] at h
  constructor
  · intro htraps
    by_contra hnot
    have hflag := htraps.isOverflow.mpr hnot
    rw [h] at hflag
    cases hflag
  · intro hfits
    exact trapsOrWrites_of_write hfits h

theorem toInt_decoded_signExtImm (e : Emulator) :
    e.decoded.signExtImm.toInt = (immOf e.fetchedWord).toInt := toInt_signExt _

theorem not_subtractionOverflows_of_op {op : Option OpId} (hop : opOf e.fetchedWord = op)
    (hne : op ≠ some .zero) : ¬ e.SubtractionOverflows :=
  fun h => hne (hop.symm.trans h.1)

theorem not_subtractionOverflows_of_fun {f : Option FunId} (hf : functOf e.fetchedWord = f)
    (hne : ¬ (f = some .sub ∨ f = some .subu)) : ¬ e.SubtractionOverflows := by
  intro h
  have hfun := h.2.1
  rw [hf] at hfun
  exact hne hfun

theorem not_subtractionOverflows_iff (hop : opOf e.fetchedWord = some .zero)
    (hf : functOf e.fetchedWord = some .sub ∨ functOf e.fetchedWord = some .subu) :
    ¬ e.SubtractionOverflows <->
      FitsInt32 ((e.operand (rsOf e.fetchedWord)).toInt -
        (e.operand (rtOf e.fetchedWord)).toInt) := by
  constructor
  · intro h
    by_contra hnot
    exact h ⟨hop, hf, hnot⟩
  · intro hfits hover
    exact hover.2.2 hfits

end Arithmetic

/-!
## Precision
-/

/-- A trap changes neither memory nor registers and continues in the exception handler. -/
def TrapIsPrecise (e : Emulator) : Prop :=
  e.executeInstruction.1.isOverflow = true ∨ e.executeInstruction.1.isValid = false ->
    e.executeInstruction.2.memory = e.memory ∧
      (forall r, r ≠ 0#5 -> e.executeInstruction.2.registers r = e.registers r) ∧
      e.executeInstruction.2.encounteredBranch = false ∧
      e.executeInstruction.2.PC = 0x8000#32

/-- A word that looks like an R-type instruction but has no known function code. -/
def IllegalFunction (e : Emulator) : Prop :=
  opOf e.fetchedWord = some .zero ∧ functOf e.fetchedWord = none

instance (e : Emulator) : Decidable e.IllegalFunction := by
  unfold IllegalFunction
  infer_instance

section Precision

variable {e : Emulator}

theorem fetch_keeps {r : RegId} (hr : r ≠ 0#5) : e.fetch.2.registers r = e.registers r := by
  rw [fetch_registers, operand_of_ne hr]

theorem trapIsPrecise_of_raise {info : InstructionInfo}
    (h : e.executeInstruction = (info, e.fetch.2.raiseException)) : e.TrapIsPrecise := by
  intro _
  rw [h]
  exact ⟨rfl, fun r hr => fetch_keeps hr, rfl, rfl⟩

theorem trapIsPrecise_of_completes (h : e.executeInstruction.1.completes = true) :
    e.TrapIsPrecise := by
  unfold InstructionInfo.completes at h
  rw [Bool.and_eq_true, Bool.not_eq_true'] at h
  intro h
  rcases h with hoverflow | hinvalid
  · rw [h.2] at hoverflow
    cases hoverflow
  · rw [h.1] at hinvalid
    cases hinvalid

/-- The default case of the inner switch leaves the program counter alone. -/
theorem trapIsPrecise_of_illegalFunction
    (h : e.executeInstruction = ({ e.decoded with isValid := false }, e.fetch.2)) :
    e.TrapIsPrecise <-> e.nextPC = 0x8000#32 := by
  unfold TrapIsPrecise
  rw [h]
  constructor
  · intro hprecise
    exact (hprecise (Or.inr rfl)).2.2.2
  · intro hnext _
    exact ⟨rfl, fun r hr => fetch_keeps hr, rfl, hnext⟩

theorem executeOpZero_precise (h : e.executeInstruction = executeOpZero e.decoded e.fetch.2)
    {f : FunId} (hf : functOf e.fetchedWord = some f) : e.TrapIsPrecise := by
  unfold executeOpZero at h
  rw [decoded_fun, hf] at h
  cases f with
  | add =>
      dsimp only at h
      split at h
      · exact trapIsPrecise_of_raise h
      · exact trapIsPrecise_of_completes (by rw [h]; rfl)
  | subu =>
      dsimp only at h
      split at h
      · exact trapIsPrecise_of_raise h
      · exact trapIsPrecise_of_completes (by rw [h]; rfl)
  | addu | and | jr | nor | or | slt | sltu | sll | srl | sub =>
      exact trapIsPrecise_of_completes (by rw [h]; rfl)

theorem execute_precise {op : OpId} (hop : opOf e.fetchedWord = some op) (hzero : op ≠ .zero) :
    e.TrapIsPrecise := by
  have h := executeInstruction_of_op hop
  unfold execute at h
  rw [decoded_op, hop] at h
  cases op with
  | zero =>
      exact absurd rfl hzero
  | addi =>
      dsimp only at h
      split at h
      · exact trapIsPrecise_of_raise h
      · exact trapIsPrecise_of_completes (by rw [h]; rfl)
  | addiu | andi | ori | slti | sltiu | lui | lbu | lhu | lw | sb | sh | sw | beq | bne
  | blez | bgtz | j | jal =>
      exact trapIsPrecise_of_completes (by rw [h]; rfl)

end Precision

end Emulator

/-- Additions and subtractions follow the instruction set exactly when they are not a SUB or
SUBU whose exact difference does not fit into 32 bits. -/
theorem arithmetic_follows_isa_iff (e : Emulator) :
    e.ArithmeticFollowsIsa <-> ¬ e.SubtractionOverflows := by
  unfold Emulator.ArithmeticFollowsIsa
  dsimp only
  cases hop : opOf e.fetchedWord with
  | none =>
      exact iff_of_true trivial (Emulator.not_subtractionOverflows_of_op hop (by decide))
  | some op =>
      have h := Emulator.executeInstruction_of_op hop
      unfold Emulator.execute at h
      rw [Emulator.decoded_op, hop] at h
      cases op with
      | zero =>
          dsimp only at h
          unfold Emulator.executeOpZero at h
          rw [Emulator.decoded_fun] at h
          cases hf : functOf e.fetchedWord with
          | none =>
              exact iff_of_true trivial (Emulator.not_subtractionOverflows_of_fun hf (by decide))
          | some f =>
              rw [hf, Emulator.fetch_reg, Emulator.fetch_reg] at h
              cases f with
              | add =>
                  exact iff_of_true (Emulator.trapsOrWrites_add h)
                    (Emulator.not_subtractionOverflows_of_fun hf (by decide))
              | addu =>
                  dsimp only at h
                  rw [add_eq_ofInt] at h
                  exact iff_of_true (Emulator.writesWrapped_of_write h)
                    (Emulator.not_subtractionOverflows_of_fun hf (by decide))
              | sub =>
                  rw [Emulator.not_subtractionOverflows_iff hop (Or.inl hf)]
                  exact Emulator.trapsOrWrites_sub_iff h
              | subu =>
                  rw [Emulator.not_subtractionOverflows_iff hop (Or.inr hf)]
                  exact Emulator.writesWrapped_sub_iff h
              | and | jr | nor | or | slt | sltu | sll | srl =>
                  exact iff_of_true trivial
                    (Emulator.not_subtractionOverflows_of_fun hf (by decide))
      | addi =>
          rw [Emulator.fetch_reg] at h
          have hadd := Emulator.trapsOrWrites_add h
          rw [Emulator.toInt_decoded_signExtImm] at hadd
          exact iff_of_true hadd (Emulator.not_subtractionOverflows_of_op hop (by decide))
      | addiu =>
          dsimp only at h
          rw [Emulator.fetch_reg, add_eq_ofInt, Emulator.toInt_decoded_signExtImm] at h
          exact iff_of_true (Emulator.writesWrapped_of_write h)
            (Emulator.not_subtractionOverflows_of_op hop (by decide))
      | andi | ori | slti | sltiu | lui | lbu | lhu | lw | sb | sh | sw | beq | bne
      | blez | bgtz | j | jal =>
          exact iff_of_true trivial (Emulator.not_subtractionOverflows_of_op hop (by decide))

/-- `lui $1, 0x8000; addiu $2, $0, 1; sub $3, $1, $2`. -/
def subOverflowProgram : List Word := [0x3c018000#32, 0x24020001#32, 0x00221822#32]

/-- SUB subtracts one from the least integer without a trap. -/
theorem sub_overflow_not_trapped :
    exists e : Emulator, opOf e.fetchedWord = some .zero ∧ functOf e.fetchedWord = some .sub ∧
      ¬ e.ArithmeticFollowsIsa := by
  refine ⟨(Emulator.init (MemoryStore.ofImage (MemImage.ofWords
    subOverflowProgram))).executeInstruction.2.executeInstruction.2, by decide,
    by decide, ?_⟩
  intro h
  have hsub : Emulator.TrapsOrWrites _ 3#5 (-2 ^ 31 - 1) := h
  have hflag := hsub.isOverflow.mpr (by decide)
  exact absurd hflag (by decide)

/-- Traps are precise except for an unknown function code, which continues in the handler only
if that is the next instruction anyway. -/
theorem trap_is_precise_iff (e : Emulator) :
    e.TrapIsPrecise <-> (e.IllegalFunction -> e.nextPC = 0x8000#32) := by
  unfold Emulator.IllegalFunction
  cases hop : opOf e.fetchedWord with
  | none =>
      have hprecise : e.TrapIsPrecise := by
        by_cases hhalt : e.fetchedWord = haltWord
        · apply Emulator.trapIsPrecise_of_completes
          rw [Emulator.executeInstruction_of_halt hhalt]
          rfl
        · have h := Emulator.executeInstruction_of_not_halt hhalt
          unfold Emulator.execute at h
          rw [Emulator.decoded_op, hop] at h
          exact Emulator.trapIsPrecise_of_raise h
      simpa using hprecise
  | some op =>
      by_cases hzero : op = .zero
      · subst hzero
        have h := Emulator.executeInstruction_of_op hop
        unfold Emulator.execute at h
        rw [Emulator.decoded_op, hop] at h
        cases hf : functOf e.fetchedWord with
        | none =>
            unfold Emulator.executeOpZero at h
            rw [Emulator.decoded_fun, hf] at h
            have hprecise := Emulator.trapIsPrecise_of_illegalFunction h
            simpa using hprecise
        | some f =>
            have hprecise := Emulator.executeOpZero_precise h hf
            simpa using hprecise
      · have hprecise := Emulator.execute_precise hop hzero
        simpa [hzero] using hprecise

/-- An unknown function code at address 0 is followed by the instruction at address 4. -/
theorem illegal_function_not_redirected :
    exists e : Emulator, e.executeInstruction.1.isValid = false ∧ ¬ e.TrapIsPrecise := by
  refine ⟨Emulator.init (MemoryStore.ofImage (MemImage.ofWords [0x0000003f#32])),
    by decide, ?_⟩
  intro h
  have hPC := (h (Or.inr (by decide))).2.2.2
  exact absurd hPC (by decide)

end PipeSim
