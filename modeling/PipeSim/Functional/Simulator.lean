import PipeSim.Library.Transition
import PipeSim.Machine.Emulator

/-!
# The functional simulator

`runInstructions` executes instructions until a given number is reached, or
until the halt word is fetched; `runTillHalt` calls it one instruction at a
time.  The unbounded loops of the source carry fuel here and return `none` when
it runs out.
-/

namespace PipeSim

open Library

namespace Functional

def initEmulator (mem : MemoryStore) : Emulator := Emulator.init mem

def runInstructionsLoop (instructions : Word) :
    Nat -> Word -> Emulator -> Option (Status × Emulator)
  | 0, _, _ => none
  | fuel + 1, numInstructions, e =>
      if instructions = 0#32 ∨ numInstructions < instructions then
        let executed := e.executeInstruction
        if executed.1.isHalt then some (.halt, executed.2)
        else
          runInstructionsLoop instructions fuel (numInstructions + 1#32) executed.2
      else some (.success, e)

def runInstructions (fuel : Nat) (instructions : Word) (e : Emulator) :
    Option (Status × Emulator) :=
  runInstructionsLoop instructions fuel 0#32 e

def runTillHalt : Nat -> Emulator -> Option (Status × Emulator)
  | 0, _ => none
  | fuel + 1, e =>
      match runInstructions 2 1#32 e with
      | some (.halt, e') => some (.halt, e')
      | some (_, e') => runTillHalt fuel e'
      | none => none

/-!
One call of `runInstructions(1)` is one step of a machine that finishes on the
halt word, so the lemmas about runs of machines apply.
-/

/-- One call of `runInstructions(1)`. -/
def machine : Machine Emulator := fun e =>
  (e.executeInstruction.1.isHalt, e.executeInstruction.2)

theorem runInstructions_one (e : Emulator) :
    runInstructions 2 1#32 e =
      some (if e.executeInstruction.1.isHalt then .halt else .success,
        e.executeInstruction.2) := by
  unfold runInstructions
  rw [runInstructionsLoop]
  by_cases hhalt : e.executeInstruction.1.isHalt = true
  · simp [hhalt]
  · simp [hhalt, runInstructionsLoop]

theorem runTillHalt_eq_runFuel (fuel : Nat) (e : Emulator) :
    runTillHalt fuel e = (machine.runFuel fuel e).map fun e' => (.halt, e') := by
  induction fuel generalizing e with
  | zero =>
      rfl
  | succ fuel ih =>
      rw [runTillHalt, runInstructions_one, Machine.runFuel]
      by_cases hhalt : e.executeInstruction.1.isHalt = true
      · simp [hhalt, machine]
      · simp [hhalt, machine, ih]

def HaltsAfter (n : Nat) (e e' : Emulator) : Prop :=
  machine.FinishesIn n e e'

theorem haltsAfter_iff_runTillHalt {e e' : Emulator} :
    (exists n, HaltsAfter n e e') <->
      exists fuel, runTillHalt fuel e = some (.halt, e') :=
  Machine.exists_finishesIn_iff_driver runTillHalt_eq_runFuel

end Functional

end PipeSim
