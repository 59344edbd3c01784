import PipeSim.Library.Transition
import PipeSim.Machine.Registers

/-!
# Register `$0`

A write to `$0` is stored like any other and undone only by the reset in front of the
next instruction.  Two states that differ in `$0` are the same after that reset, so
nothing an instruction computes can depend on what was written there.
-/

namespace PipeSim

open Library

namespace Emulator

/-- The two emulators are equal except possibly for the contents of `$0`. -/
structure SameButZero (e e' : Emulator) : Prop where
  memory : e'.memory = e.memory
  PC : e'.PC = e.PC
  encounteredBranch : e'.encounteredBranch = e.encounteredBranch
  savedBranch : e'.savedBranch = e.savedBranch
  din : e'.din = e.din
  registers : forall r, r ≠ 0#5 -> e'.registers r = e.registers r

theorem SameButZero.refl (e : Emulator) : SameButZero e e :=
  ⟨rfl, rfl, rfl, rfl, rfl, fun _ _ => rfl⟩

theorem sameButZero_setReg (e : Emulator) (value : Word) :
    SameButZero e (e.setReg 0#32 value) :=
  ⟨rfl, rfl, rfl, rfl, rfl, fun _ hr => Function.update_of_ne hr _ _⟩

theorem SameButZero.fetchedWord {e e' : Emulator} (h : SameButZero e e') :
    e'.fetchedWord = e.fetchedWord := by
  unfold Emulator.fetchedWord
  rw [h.memory, h.PC]

theorem SameButZero.fetch {e e' : Emulator} (h : SameButZero e e') : e'.fetch = e.fetch := by
  have hregisters : Function.update e'.registers 0#5 0#32 =
      Function.update e.registers 0#5 0#32 := by
    funext r
    by_cases hr : r = 0#5
    · rw [hr, Function.update_self, Function.update_self]
    · rw [Function.update_of_ne hr, Function.update_of_ne hr, h.registers r hr]
  unfold Emulator.fetch nextPC
  rw [h.fetchedWord, h.encounteredBranch, h.savedBranch, h.PC, h.din, h.memory, hregisters]

theorem SameButZero.executeInstruction {e e' : Emulator} (h : SameButZero e e') :
    e'.executeInstruction = e.executeInstruction := by
  unfold Emulator.executeInstruction
  rw [h.fetch]

theorem SameButZero.reports {e e' : Emulator} (h : SameButZero e e') (n : Nat) :
    (reports Emulator.executeInstruction n e).1 =
        (reports Emulator.executeInstruction n e').1 ∧
      SameButZero (reports Emulator.executeInstruction n e).2
        (reports Emulator.executeInstruction n e').2 := by
  refine reports_congr ?_ n h
  intro s t hst
  rw [hst.executeInstruction]
  exact ⟨rfl, SameButZero.refl _⟩

/-!
## Instructions that write `$0`
-/

theorem executeOpZero_writes {info : InstructionInfo} {e : Emulator} {f : FunId}
    (hf : FunId.ofCode? info.funct = some f) (hjr : f ≠ .jr)
    (hcompletes : (executeOpZero info e).1.completes = true) :
    exists value, (executeOpZero info e).2 = e.setReg info.rd value := by
  unfold executeOpZero at hcompletes ⊢
  dsimp only at hcompletes ⊢
  rw [hf] at hcompletes ⊢
  cases f <;> dsimp only at hcompletes ⊢ <;> first
    | exact ⟨_, rfl⟩
    | exact absurd rfl hjr
    | (split at hcompletes
       · simp [InstructionInfo.completes] at hcompletes
       · rw [if_neg (by assumption)]
         exact ⟨_, rfl⟩)

/-- A completed instruction other than `JAL` with a destination changes that register
and nothing else. -/
theorem executeInstruction_writes {e : Emulator} {r : RegId}
    (hdestination : destination? e.fetchedWord = some r)
    (hjal : opOf e.fetchedWord ≠ some .jal)
    (hcompletes : e.executeInstruction.1.completes = true) :
    exists value, e.executeInstruction.2 =
      e.fetch.2.withRegisters (Function.update e.fetch.2.registers r value) := by
  have hhalt : e.fetchedWord ≠ haltWord := by
    intro h
    rw [h] at hdestination
    exact absurd hdestination (by decide +revert)
  rw [executeInstruction_of_not_halt hhalt] at hcompletes ⊢
  unfold execute at hcompletes ⊢
  dsimp only at hcompletes ⊢
  rw [decoded_op] at hcompletes ⊢
  unfold destination? at hdestination
  cases hop : opOf e.fetchedWord with
  | none =>
      rw [hop] at hdestination
      cases hdestination
  | some op =>
      rw [hop] at hdestination hcompletes hjal
      cases op <;> dsimp only [load, store, branchIf] at hdestination hcompletes ⊢
      case zero =>
          cases hf : functOf e.fetchedWord with
          | none =>
              rw [hf] at hdestination
              cases hdestination
          | some f =>
              rw [hf] at hdestination
              cases f <;> cases hdestination
              all_goals
                exact executeOpZero_writes ((decoded_fun e).trans hf) (by decide) hcompletes
      case jal =>
          exact absurd rfl hjal
      all_goals cases hdestination
      all_goals first
        | exact ⟨_, rfl⟩
        | (split at hcompletes
           · simp [InstructionInfo.completes] at hcompletes
           · rw [if_neg (by assumption)]
             exact ⟨_, rfl⟩)

/-- An instruction that names `$0` as its destination and completes leaves the state of
the fetch, apart from `$0`. -/
theorem sameButZero_of_destination {e : Emulator}
    (hdestination : destination? e.fetchedWord = some 0#5)
    (hcompletes : e.executeInstruction.1.completes = true) :
    SameButZero e.fetch.2 e.executeInstruction.2 := by
  have hjal : opOf e.fetchedWord ≠ some .jal := by
    intro h
    unfold destination? at hdestination
    rw [h] at hdestination
    cases hdestination
  rcases executeInstruction_writes hdestination hjal hcompletes with ⟨value, hvalue⟩
  rw [hvalue]
  exact ⟨rfl, rfl, rfl, rfl, rfl, fun r hr => Function.update_of_ne hr _ _⟩

end Emulator

/-- Two states that are equal except for `$0` report the same at every step and stay so;
in particular, a completed instruction with destination `$0` has no more effect on the
rest of a run than the fetch of its word. -/
theorem zero_register_independent (e e' : Emulator) (h : Emulator.SameButZero e e')
    (n : Nat) :
    ((reports Emulator.executeInstruction n e).1 =
          (reports Emulator.executeInstruction n e').1 ∧
        Emulator.SameButZero (reports Emulator.executeInstruction n e).2
          (reports Emulator.executeInstruction n e').2) ∧
      (destination? e.fetchedWord = some 0#5 -> e.executeInstruction.1.completes = true ->
        (reports Emulator.executeInstruction n e.executeInstruction.2).1 =
            (reports Emulator.executeInstruction n e.fetch.2).1 ∧
          Emulator.SameButZero (reports Emulator.executeInstruction n e.fetch.2).2
            (reports Emulator.executeInstruction n e.executeInstruction.2).2) := by
  refine ⟨h.reports n, ?_⟩
  intro hdestination hcompletes
  rcases (Emulator.sameButZero_of_destination hdestination hcompletes).reports n with
    ⟨hreports, hlast⟩
  exact ⟨hreports.symm, hlast⟩

/-- `addiu $0, $0, 1` run twice from states with different contents of `$0`. -/
theorem zero_register_independent_addiu :
    (reports Emulator.executeInstruction 2
        (Emulator.init (MemoryStore.ofImage (MemImage.ofWords [0x24000001#32])))).1 =
      (reports Emulator.executeInstruction 2
        ((Emulator.init (MemoryStore.ofImage (MemImage.ofWords [0x24000001#32]))).setReg
          0#32 7#32)).1 :=
  (zero_register_independent
    (Emulator.init (MemoryStore.ofImage (MemImage.ofWords [0x24000001#32])))
    ((Emulator.init (MemoryStore.ofImage (MemImage.ofWords [0x24000001#32]))).setReg
      0#32 7#32) (Emulator.sameButZero_setReg _ _) 2).1.1

end PipeSim
