import PipeSim.Cycle.Steps
import PipeSim.Functional.Simulator
import Mathlib.Data.Prod.Lex

/-!
# The cycle simulator refines the functional simulator

Both simulators run the same emulator.  The cycle simulator takes extra steps,
on its exception and stall paths, that leave the emulator alone; a measure on
the counters shows that only finitely many of them follow each other.
-/

namespace PipeSim

open Library

/-!
## The measure of a stall
-/

namespace Cycle

/-- Exception bubbles first, then the counters that only ever go down during a
stall, then `dMiss`, which a probe may raise as long as one of the others is
positive. -/
def stallMeasure (s : Sim) : Nat × Nat × Nat :=
  (s.except.toNat, s.iMiss.toNat + s.dStall.toNat + s.xStall.toNat, s.dMiss.toNat)

theorem exceptStep_measure_lt {s : Sim} (h : 0#32 < s.except) :
    WellFoundedRelation.rel (stallMeasure (exceptStep s)) (stallMeasure s) := by
  unfold stallMeasure
  rw [exceptStep_except]
  apply Prod.Lex.left
  change (s.except - 1#32).toNat < s.except.toNat
  have hpos : 1 ≤ s.except.toNat := word_pos_iff.mp h
  rw [BitVec.toNat_sub_of_le (by rw [BitVec.le_def]; simpa using hpos)]
  change s.except.toNat - 1 < s.except.toNat
  lia

theorem stallStep_measure_lt {s : Sim} (h : Stalled s) :
    WellFoundedRelation.rel (stallMeasure (stallStep s)) (stallMeasure s) := by
  unfold stallMeasure
  rw [stallStep_except]
  apply Prod.Lex.right
  by_cases hothers : StallsOn s
  · apply Prod.Lex.left
    rw [stallsOn_iff] at hothers
    simp only [stallStep_iMiss, stallStep_dStall, stallStep_xStall, toNat_countDown]
    change s.iMiss.toNat - 1 + (s.dStall.toNat - 1) + (s.xStall.toNat - 1) <
      s.iMiss.toNat + s.dStall.toNat + s.xStall.toNat
    lia
  · have hdMiss : 0 < s.dMiss.toNat :=
      word_pos_iff.mp (dMiss_pos_of_stalled h hothers)
    rw [stallStep_dMiss_of_not_stallsOn hothers]
    rw [stallsOn_iff] at hothers
    simp only [stallStep_iMiss, stallStep_dStall, stallStep_xStall, toNat_countDown]
    have hsum : s.iMiss.toNat - 1 + (s.dStall.toNat - 1) + (s.xStall.toNat - 1) =
        s.iMiss.toNat + s.dStall.toNat + s.xStall.toNat := by
      lia
    rw [hsum]
    apply Prod.Lex.right
    change s.dMiss.toNat - 1 < s.dMiss.toNat
    lia

/-!
## The simulation
-/

def SameEmulator (e : Emulator) (s : Sim) : Prop := s.emulator = e

theorem stutterStep_of_sameEmulator {e : Emulator} {s : Sim} (h : SameEmulator e s) :
    Machine.StutterStep Functional.machine machine SameEmulator SameEmulator
      stallMeasure e s := by
  unfold SameEmulator at h
  subst h
  cases hstep : machine s with
  | mk finished s' =>
      cases step_of_machine hstep with
      | except hexcept =>
          exact Or.inl
            ⟨_, hstep, exceptStep_emulator s, exceptStep_measure_lt hexcept⟩
      | stall _ hstalled =>
          exact Or.inl ⟨_, hstep, stallStep_emulator s, stallStep_measure_lt hstalled⟩
      | trap _ htrap =>
          apply Or.inr
          apply Or.inl
          have hhalt : s.emulator.executeInstruction.1.isHalt = false := by
            apply Bool.eq_false_iff.mpr
            intro hhalt
            have hcompletes := Emulator.executeInstruction_completes_of_halt hhalt
            unfold nextInfo at htrap
            rw [htrap] at hcompletes
            cases hcompletes
          exact ⟨_, _, Prod.ext hhalt rfl, hstep, trapStep_emulator s⟩
      | fetch _ _ hhalt =>
          apply Or.inr
          apply Or.inl
          exact ⟨_, _, Prod.ext hhalt rfl, hstep, fetchStep_emulator s⟩
      | halt _ hhalt =>
          apply Or.inr
          apply Or.inr
          exact ⟨_, _, Prod.ext hhalt rfl, hstep, haltStep_emulator s⟩

end Cycle

namespace Functional

theorem machine_eq_snd {e e' : Emulator} {finished : Bool}
    (h : machine e = (finished, e')) : e.executeInstruction.2 = e' :=
  congrArg Prod.snd h

theorem reaches_din {n : Nat} {e e' : Emulator}
    (h : machine.Reaches n e e') : e'.din = e.din + BitVec.ofNat 32 n := by
  induction h with
  | refl _ =>
      simp
  | tail _ hstep ih =>
      rw [← machine_eq_snd hstep, Emulator.executeInstruction_din, ih, BitVec.add_assoc,
        BitVec.ofNat_add]

theorem haltsAfter_din {n : Nat} {mem : MemoryStore} {e : Emulator}
    (h : HaltsAfter n (initEmulator mem) e) : e.din = BitVec.ofNat 32 n := by
  rcases h with ⟨k, u, rfl, hreach, hlast⟩
  rw [← machine_eq_snd hlast, Emulator.executeInstruction_din, reaches_din hreach, BitVec.ofNat_add]
  change 0#32 + _ + _ = _
  rw [BitVec.zero_add]

end Functional

/-- The emulator of the cycle simulator ends in the functional simulator's final
state. -/
theorem Cycle.exists_haltsAfter_of_functional (ic dc : CacheConfig) (mem : MemoryStore)
    {n : Nat} {e : Emulator}
    (h : Functional.HaltsAfter n (Functional.initEmulator mem) e) :
    exists m s, Cycle.HaltsAfter m (Cycle.initSimulator ic dc mem) s ∧ s.emulator = e :=
  Machine.FinishesIn.simulate
    (fun _ _ hst => Cycle.stutterStep_of_sameEmulator hst) rfl h

/-- A halting program halts under the cycle simulator too, with the registers, the
memory, the program counter and the pending branch of the functional run and with
the number of executed instructions, as a word, in the instruction counter. -/
theorem cycle_refines_functional (image : MemImage) (ic dc : ValidConfig)
    {n : Nat} {e : Emulator}
    (h : Functional.HaltsAfter n
      (Functional.initEmulator (MemoryStore.ofImage image)) e) :
    exists fuel s,
      Cycle.runTillHalt fuel
          (Cycle.initSimulator ic.toCacheConfig dc.toCacheConfig
            (MemoryStore.ofImage image)) = some (.halt, s) ∧
        s.emulator.registers = e.registers ∧
        s.emulator.memory = e.memory ∧
        s.emulator.PC = e.PC ∧
        s.emulator.encounteredBranch = e.encounteredBranch ∧
        s.emulator.savedBranch = e.savedBranch ∧
        s.emulator.din = BitVec.ofNat 32 n := by
  rcases Cycle.exists_haltsAfter_of_functional ic.toCacheConfig dc.toCacheConfig
    (MemoryStore.ofImage image) h with ⟨m, s, hrun, hemulator⟩
  rcases Cycle.haltsAfter_iff_runTillHalt.mp ⟨m, hrun⟩ with ⟨fuel, hfuel⟩
  refine ⟨fuel, s, hfuel, ?_, ?_, ?_, ?_, ?_, ?_⟩
  · rw [hemulator]
  · rw [hemulator]
  · rw [hemulator]
  · rw [hemulator]
  · rw [hemulator]
  · rw [hemulator, Functional.haltsAfter_din h]

/-- `addiu $1, $1, 1` and the halt word. -/
def incrementProgram : List Word := [0x24210001#32, haltWord]

theorem cycle_refines_functional_increment :
    exists fuel s,
      Cycle.runTillHalt fuel
          (Cycle.initSimulator (ValidConfig.oneBlock 3#32).toCacheConfig
            (ValidConfig.oneBlock 2#32).toCacheConfig
            (MemoryStore.ofImage (MemImage.ofWords incrementProgram))) =
          some (.halt, s) ∧
        s.emulator.registers 1#5 = 1#32 ∧ s.emulator.din = 2#32 := by
  have hrun : Functional.HaltsAfter 2
      (Functional.initEmulator (MemoryStore.ofImage (MemImage.ofWords incrementProgram)))
      (Functional.machine.after 2
        (Functional.initEmulator
          (MemoryStore.ofImage (MemImage.ofWords incrementProgram)))) :=
    Machine.finishesIn_after (by decide) (by decide +kernel)
  rcases cycle_refines_functional _ (ValidConfig.oneBlock 3#32)
    (ValidConfig.oneBlock 2#32) hrun with ⟨fuel, s, hhalt, hregisters, _, _, _, _, hdin⟩
  refine ⟨fuel, s, hhalt, ?_, hdin⟩
  rw [hregisters]
  decide

/-!
## A run longer than the instruction counter

The program below increments `$1` until it is zero again, which takes three
instructions for each of the `2 ^ 32` values.
-/

/-- `addiu $1, $1, 1; bne $1, $0, -2; nop`, then the halt word. -/
def countingProgram : List Word :=
  [0x24210001#32, 0x1420fffe#32, 0x00000000#32, haltWord]

namespace CountingProgram

def image : MemImage := MemImage.ofWords countingProgram

def state (PC count din : Word) (encounteredBranch : Bool) : Emulator where
  memory := MemoryStore.ofImage image
  PC := PC
  encounteredBranch := encounteredBranch
  savedBranch := 0#32
  registers := fun r => if r = 1#5 then count else 0#32
  din := din

theorem fetchedWord_state {PC w : Word} (count din : Word) (encounteredBranch : Bool)
    (h : ((MemoryStore.ofImage image).getMemValue PC 0#32 wordSize).2 = w) :
    (state PC count din encounteredBranch).fetchedWord = w := h

theorem update_zero_register (count : Word) :
    Function.update (fun r : RegId => if r = 1#5 then count else 0#32) 0#5 0#32 =
      fun r => if r = 1#5 then count else 0#32 := by
  funext r
  by_cases hr : r = 0#5
  · subst hr
    rfl
  · rw [Function.update_of_ne hr]

theorem fetch_state (PC count din : Word) (encounteredBranch : Bool) :
    (state PC count din encounteredBranch).fetch.2 =
      state (if encounteredBranch then 0#32 else PC + 4#32) count (din + 1#32) false := by
  cases encounteredBranch <;>
    simp [state, Emulator.fetch, Emulator.nextPC, update_zero_register]

theorem setReg_state (PC count din value : Word) (encounteredBranch : Bool) :
    (state PC count din encounteredBranch).setReg 1#32 value =
      state PC value din encounteredBranch := by
  have hregisters : Function.update (fun r : RegId => if r = 1#5 then count else 0#32)
      1#5 value = fun r => if r = 1#5 then value else 0#32 := by
    funext r
    by_cases hr : r = 1#5
    · subst hr
      simp
    · rw [Function.update_of_ne hr]
      simp [hr]
  simp [state, Emulator.setReg, regOf, hregisters]

theorem reg_state_one (PC count din : Word) (encounteredBranch : Bool) :
    (state PC count din encounteredBranch).reg 1#32 = count := rfl

theorem reg_state_zero (PC count din : Word) (encounteredBranch : Bool) :
    (state PC count din encounteredBranch).reg 0#32 = 0#32 := rfl

theorem step_addiu (count din : Word) :
    Functional.machine (state 0#32 count din false) =
      (false, state 4#32 (count + 1#32) (din + 1#32) false) := by
  have hword : (state 0#32 count din false).fetchedWord = 0x24210001#32 :=
    fetchedWord_state count din false (by decide)
  have hop : OpId.ofCode? (extractBits 0x24210001#32 31 26) = some .addiu := by
    decide
  have hrs : extractBits 0x24210001#32 25 21 = 1#32 := by decide
  have hrt : extractBits 0x24210001#32 20 16 = 1#32 := by decide
  have himm : signExt ((extractBits 0x24210001#32 15 0).setWidth 16) = 1#32 := by
    decide
  have hne : (state 0#32 count din false).fetchedWord ≠ haltWord := by
    rw [hword]
    decide
  apply Prod.ext
  · simp [Functional.machine, hne]
  · simp [Functional.machine, Emulator.executeInstruction_of_not_halt hne,
      Emulator.execute, hword, hop, hrs, hrt, himm, fetch_state, setReg_state,
      reg_state_one]

theorem step_bne (count din : Word) :
    Functional.machine (state 4#32 count din false) =
      (false, state 8#32 count (din + 1#32) (count != 0#32)) := by
  have hword : (state 4#32 count din false).fetchedWord = 0x1420fffe#32 :=
    fetchedWord_state count din false (by decide)
  have hop : OpId.ofCode? (extractBits 0x1420fffe#32 31 26) = some .bne := by
    decide
  have hrs : extractBits 0x1420fffe#32 25 21 = 1#32 := by decide
  have hrt : extractBits 0x1420fffe#32 20 16 = 0#32 := by decide
  have himm : signExt ((extractBits 0x1420fffe#32 15 0).setWidth 16) =
      0xfffffffe#32 := by
    decide
  have hne : (state 4#32 count din false).fetchedWord ≠ haltWord := by
    rw [hword]
    decide
  apply Prod.ext
  · simp [Functional.machine, hne]
  · by_cases hcount : count = 0#32
    · subst hcount
      simp [Functional.machine, Emulator.executeInstruction_of_not_halt hne,
        Emulator.execute, Emulator.branchIf, hword, hop, hrs, hrt, fetch_state,
        reg_state_one, reg_state_zero]
    · simp [Functional.machine, Emulator.executeInstruction_of_not_halt hne,
        Emulator.execute, Emulator.branchIf, hword, hop, hrs, hrt, himm, fetch_state,
        reg_state_one, reg_state_zero, hcount]
      simp [state, Emulator.takeBranch, hcount]

theorem setReg_zero_state (PC count din : Word) (encounteredBranch : Bool) :
    (state PC count din encounteredBranch).setReg 0#32 0#32 =
      state PC count din encounteredBranch := by
  simp [state, Emulator.setReg, regOf, update_zero_register]

theorem step_nop (count din : Word) (encounteredBranch : Bool) :
    Functional.machine (state 8#32 count din encounteredBranch) =
      (false,
        state (if encounteredBranch then 0#32 else 12#32) count (din + 1#32) false) := by
  have hword : (state 8#32 count din encounteredBranch).fetchedWord = 0#32 :=
    fetchedWord_state count din encounteredBranch (by decide)
  have hop : OpId.ofCode? (extractBits 0#32 31 26) = some .zero := by decide
  have hfun : FunId.ofCode? (extractBits 0#32 5 0) = some .sll := by decide
  have hrt : extractBits 0#32 20 16 = 0#32 := by decide
  have hrd : extractBits 0#32 15 11 = 0#32 := by decide
  have hne : (state 8#32 count din encounteredBranch).fetchedWord ≠ haltWord := by
    rw [hword]
    decide
  apply Prod.ext
  · simp [Functional.machine, hne]
  · simp [Functional.machine, Emulator.executeInstruction_of_not_halt hne,
      Emulator.execute, Emulator.executeOpZero, hword, hop, hfun, hrt, hrd, fetch_state,
      reg_state_zero, setReg_zero_state]

theorem lap (count din : Word) :
    Functional.machine.Reaches 3 (state 0#32 count din false)
      (state (if count + 1#32 != 0#32 then 0#32 else 12#32) (count + 1#32)
        (din + 3#32) false) := by
  have hdin : din + 3#32 = din + 1#32 + 1#32 + 1#32 := by
    rw [BitVec.add_assoc, BitVec.add_assoc]
    rfl
  rw [hdin]
  have hfirst := Machine.Reaches.one (step_addiu count din)
  have hsecond := hfirst.tail (step_bne (count + 1#32) (din + 1#32))
  exact hsecond.tail (step_nop (count + 1#32) (din + 1#32 + 1#32) _)

theorem laps {k : Nat} (hk : k < 2 ^ 32) :
    Functional.machine.Reaches (3 * k) (state 0#32 0#32 0#32 false)
      (state 0#32 (BitVec.ofNat 32 k) (BitVec.ofNat 32 (3 * k)) false) := by
  induction k with
  | zero =>
      exact Machine.Reaches.refl _
  | succ k ih =>
      have hprev := ih (by lia)
      have hlap := lap (BitVec.ofNat 32 k) (BitVec.ofNat 32 (3 * k))
      have hcount : BitVec.ofNat 32 k + 1#32 = BitVec.ofNat 32 (k + 1) :=
        (BitVec.ofNat_add k 1).symm
      have hdin : BitVec.ofNat 32 (3 * k) + 3#32 = BitVec.ofNat 32 (3 * (k + 1)) :=
        (BitVec.ofNat_add (3 * k) 3).symm
      have hne : (BitVec.ofNat 32 (k + 1) != 0#32) = true := by
        rw [bne_iff_ne]
        intro hzero
        have htoNat := congrArg BitVec.toNat hzero
        rw [BitVec.toNat_ofNat, Nat.mod_eq_of_lt hk] at htoNat
        cases htoNat
      rw [hcount, hdin, if_pos hne] at hlap
      exact hprev.trans hlap

theorem last_lap :
    Functional.machine.Reaches (3 * 2 ^ 32) (state 0#32 0#32 0#32 false)
      (state 12#32 0#32 (BitVec.ofNat 32 (3 * 2 ^ 32)) false) := by
  have hprev := laps (show 2 ^ 32 - 1 < 2 ^ 32 by decide)
  have hlap := lap (BitVec.ofNat 32 (2 ^ 32 - 1)) (BitVec.ofNat 32 (3 * (2 ^ 32 - 1)))
  have hcount : BitVec.ofNat 32 (2 ^ 32 - 1) + 1#32 = 0#32 := by decide
  have hdin : BitVec.ofNat 32 (3 * (2 ^ 32 - 1)) + 3#32 =
      BitVec.ofNat 32 (3 * 2 ^ 32) := by
    decide
  rw [hcount, hdin] at hlap
  exact hprev.trans hlap

theorem step_halt (count din : Word) :
    Functional.machine (state 12#32 count din false) =
      (true, state 16#32 count (din + 1#32) false) := by
  have hword : (state 12#32 count din false).fetchedWord = haltWord :=
    fetchedWord_state count din false (by decide)
  apply Prod.ext
  · simp [Functional.machine, hword]
  · simp [Functional.machine, Emulator.executeInstruction_of_halt hword, fetch_state]

theorem state_initial :
    Functional.initEmulator (MemoryStore.ofImage image) =
      state 0#32 0#32 0#32 false := by
  unfold Functional.initEmulator Emulator.init state
  congr
  funext r
  exact (ite_self 0#32).symm

theorem halts :
    Functional.HaltsAfter (3 * 2 ^ 32 + 1)
      (Functional.initEmulator (MemoryStore.ofImage image))
      (state 16#32 0#32 (BitVec.ofNat 32 (3 * 2 ^ 32) + 1#32) false) := by
  rw [state_initial]
  exact ⟨3 * 2 ^ 32, _, rfl, last_lap, step_halt _ _⟩

end CountingProgram

/-- The instruction counter is a word, and no halting run of the cycle simulator
shows the number of instructions of the counting program in it. -/
theorem counting_program_exceeds_din :
    exists (image : MemImage) (ic dc : ValidConfig) (n : Nat) (e : Emulator),
      Functional.HaltsAfter n (Functional.initEmulator (MemoryStore.ofImage image)) e ∧
        ¬ exists fuel s,
          Cycle.runTillHalt fuel
              (Cycle.initSimulator ic.toCacheConfig dc.toCacheConfig
                (MemoryStore.ofImage image)) = some (.halt, s) ∧
            s.emulator = e ∧ s.emulator.din.toNat = n := by
  refine ⟨CountingProgram.image, ValidConfig.oneBlock 0#32, ValidConfig.oneBlock 0#32,
    3 * 2 ^ 32 + 1, _, CountingProgram.halts, ?_⟩
  intro h
  rcases h with ⟨fuel, s, _, _, hdin⟩
  have hlt := s.emulator.din.isLt
  rw [hdin] at hlt
  exact absurd hlt (by decide)

end PipeSim
