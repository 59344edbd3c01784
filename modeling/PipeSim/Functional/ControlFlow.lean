import PipeSim.Functional.Simulator
import PipeSim.Machine.DelaySlot

/-!
# Where instructions are fetched from

Branches and jumps with an immediate keep the program counter a multiple of four, so that only
a jump to a register can lead anywhere else.  A program that leaves the memory at its end
executes zeros until the program counter has wrapped around.
-/

namespace PipeSim

open Library

/-!
## Multiples of four
-/

def WordAligned (a : Word) : Prop := a.toNat % 4 = 0

instance (a : Word) : Decidable (WordAligned a) := inferInstanceAs (Decidable (_ = _))

section WordAligned

variable {a b : Word}

theorem WordAligned.add (ha : WordAligned a) (hb : WordAligned b) : WordAligned (a + b) := by
  unfold WordAligned at ha hb ⊢
  rw [BitVec.toNat_add]
  lia

theorem wordAligned_shiftLeft (a : Word) : WordAligned (a <<< 2) := by
  unfold WordAligned
  rw [BitVec.toNat_shiftLeft, Nat.shiftLeft_eq]
  lia

theorem wordAligned_jumpAddr (a address : Word) :
    WordAligned ((a &&& 0xf0000000#32) ^^^ (address <<< 2)) := by
  have hregion : (a &&& 0xf0000000#32).toNat % 2 ^ 2 = 0 := by
    rw [toNat_and_region]
    lia
  have hshift : (address <<< 2).toNat % 2 ^ 2 = 0 := wordAligned_shiftLeft address
  show ((a &&& 0xf0000000#32) ^^^ (address <<< 2)).toNat % 2 ^ 2 = 0
  rw [BitVec.toNat_xor, Nat.xor_mod_two_pow, hregion, hshift]
  rfl

end WordAligned

namespace Emulator

/-- The next instruction and the pending target are multiples of four. -/
structure Aligned (e : Emulator) : Prop where
  PC : WordAligned e.PC
  savedBranch : WordAligned e.savedBranch

/-- A jump to a register finds a multiple of four there. -/
def JumpsAligned (e : Emulator) : Prop :=
  opOf e.fetchedWord = some .zero -> functOf e.fetchedWord = some .jr ->
    WordAligned (e.operand (rsOf e.fetchedWord))

theorem aligned_init (mem : MemoryStore) : (init mem).Aligned := by
  constructor
  · show WordAligned 0#32
    decide
  · show WordAligned 0#32
    decide

instance (e : Emulator) : Decidable e.JumpsAligned := by
  unfold JumpsAligned
  infer_instance

section Aligned

variable {e : Emulator}

theorem Aligned.fetch (h : e.Aligned) : e.fetch.2.Aligned := by
  refine ⟨?_, h.savedBranch⟩
  change WordAligned e.nextPC
  unfold nextPC
  split
  · exact h.savedBranch
  · exact h.PC.add (by decide)

theorem Aligned.raiseException (h : e.Aligned) : e.raiseException.Aligned := by
  refine ⟨?_, h.savedBranch⟩
  show WordAligned exceptionPC
  decide

theorem Aligned.takeBranch (h : e.Aligned) {target : Word} (htarget : WordAligned target) :
    (e.takeBranch target).Aligned :=
  ⟨h.PC, htarget⟩

theorem Aligned.setReg (h : e.Aligned) (field value : Word) : (e.setReg field value).Aligned :=
  ⟨h.PC, h.savedBranch⟩

theorem Aligned.executeOpZero (h : e.Aligned) {info : InstructionInfo}
    (hjr : FunId.ofCode? info.funct = some .jr -> WordAligned (e.reg info.rs)) :
    (executeOpZero info e).2.Aligned := by
  unfold Emulator.executeOpZero
  dsimp only
  cases hf : FunId.ofCode? info.funct with
  | none =>
      exact h
  | some f =>
      cases f <;> dsimp only
      case jr => exact h.takeBranch (hjr hf)
      all_goals first
        | exact h.setReg _ _
        | (split
           · exact h.raiseException
           · exact h.setReg _ _)

theorem Aligned.branchIf (h : e.Aligned) {info : InstructionInfo}
    (hbranch : WordAligned info.branchAddr) (taken : Bool) :
    (branchIf info e taken).2.Aligned := by
  unfold Emulator.branchIf
  dsimp only
  split
  · exact h.takeBranch (h.PC.add hbranch)
  · exact h

theorem Aligned.execute (h : e.Aligned) {info : InstructionInfo}
    (hbranch : WordAligned info.branchAddr) (hjump : WordAligned info.jumpAddr)
    (hjr : OpId.ofCode? info.opcode = some .zero -> FunId.ofCode? info.funct = some .jr ->
      WordAligned (e.reg info.rs)) : (execute info e).2.Aligned := by
  unfold Emulator.execute
  dsimp only
  cases hop : OpId.ofCode? info.opcode with
  | none =>
      exact h.raiseException
  | some op =>
      cases op <;> dsimp only
      case zero => exact h.executeOpZero (hjr hop)
      case j => exact h.takeBranch hjump
      case jal => exact (h.setReg _ _).takeBranch hjump
      all_goals first
        | exact h.branchIf hbranch _
        | exact h.setReg _ _
        | exact ⟨h.PC, h.savedBranch⟩
        | (split
           · exact h.raiseException
           · exact h.setReg _ _)

theorem Aligned.executeInstruction (h : e.Aligned) (hjr : e.JumpsAligned) :
    e.executeInstruction.2.Aligned := by
  by_cases hhalt : e.fetchedWord = haltWord
  · rw [executeInstruction_of_halt hhalt]
    exact h.fetch
  · rw [executeInstruction_of_not_halt hhalt]
    apply h.fetch.execute (wordAligned_shiftLeft _) (wordAligned_jumpAddr _ _)
    intro hop hf
    rw [fetch_reg]
    exact hjr hop hf

end Aligned

end Emulator

/-- As long as every jump to a register that has been executed found a multiple of four there,
every instruction is fetched from a multiple of four. -/
theorem fetches_stay_aligned (mem : MemoryStore) {n : Nat} {e : Emulator}
    (hreach : Functional.machine.Reaches n (Functional.initEmulator mem) e)
    (hjumps : forall k u, k < n ->
      Functional.machine.Reaches k (Functional.initEmulator mem) u -> u.JumpsAligned) :
    e.executeInstruction.1.pc.toNat % 4 = 0 := by
  have haligned : e.Aligned := by
    refine hreach.invariant_of_forall (P := Emulator.Aligned) (C := Emulator.JumpsAligned) ?_
      (Emulator.aligned_init mem) hjumps
    intro s t hs hjump hstep
    have ht : t = s.executeInstruction.2 := (congrArg Prod.snd hstep).symm
    rw [ht]
    exact hs.executeInstruction hjump
  rw [Emulator.executeInstruction_pc]
  exact haligned.PC

/-- `addiu $1, $0, 4` and `jr $1`, which jumps to itself. -/
def jumpSelfProgram : List Word := [0x24010004#32, 0x00200008#32]

theorem fetches_stay_aligned_jump_self :
    (Functional.machine.after 3 (Functional.initEmulator (MemoryStore.ofImage
      (MemImage.ofWords jumpSelfProgram)))).executeInstruction.1.pc.toNat % 4 = 0 := by
  have hreach : Functional.machine.Reaches 3
      (Functional.initEmulator (MemoryStore.ofImage (MemImage.ofWords jumpSelfProgram))) _ :=
    Machine.reaches_after (by decide)
  have hjumps : forall k, k < 3 -> (Functional.machine.after k (Functional.initEmulator
      (MemoryStore.ofImage (MemImage.ofWords jumpSelfProgram)))).JumpsAligned := by
    decide
  refine fetches_stay_aligned _ hreach ?_
  intro k u hk hu
  rw [hu.eq_after]
  exact hjumps k hk

/-!
## Past the end of the memory
-/

namespace Emulator

section PastEnd

variable {e : Emulator}

theorem fetchedWord_of_past_end (hstart : e.memory.startAddr = 0#32)
    (hpast : e.memory.numEntries ≤ e.PC.toNat) : e.fetchedWord = 0#32 := by
  have hnone : e.memory.at? (e.PC - e.memory.startAddr + BitVec.ofNat 32 0) = none := by
    unfold MemoryStore.at?
    rw [hstart, BitVec.sub_zero, BitVec.add_zero, dif_neg (Nat.not_lt.mpr hpast)]
  have hloop : e.memory.getLoop (e.PC - e.memory.startAddr) 4 (3 + 1) 0 0#32 =
      (false, 0#32) := by
    rw [MemoryStore.getLoop, hnone]
  change e.memory.getLoop (e.PC - e.memory.startAddr) wordSize.toNat wordSize.toNat 0 0#32 =
    (false, 0#32) at hloop
  unfold fetchedWord MemoryStore.getMemValue
  rw [if_pos (by decide)]
  dsimp only
  rw [hloop]

theorem executeInstruction_of_zero (h : e.fetchedWord = 0#32) :
    e.executeInstruction.2 = e.fetch.2 := by
  have hop : opOf e.fetchedWord = some .zero := by
    rw [h]
    decide
  have hfun : FunId.ofCode? e.decoded.funct = some .sll := by
    rw [decoded_fun, h]
    decide
  have hrd : regOf e.decoded.rd = 0#5 := by
    rw [decoded_rd, h]
    decide
  have hrt : e.fetch.2.reg e.decoded.rt = 0#32 := by
    rw [fetch_reg, decoded_rt, h]
    rfl
  rw [executeInstruction_of_op hop]
  unfold execute
  dsimp only
  rw [decoded_op, hop]
  dsimp only
  unfold executeOpZero
  dsimp only
  rw [hfun, hrt]
  dsimp only
  have hvalue : (0#32 : Word) <<< e.decoded.shamt = 0#32 := BitVec.zero_shiftLeft _
  have hregisters : Function.update e.fetch.2.registers 0#5 0#32 = e.fetch.2.registers :=
    Function.update_idem _ _ _
  unfold setReg
  rw [hrd, hvalue, hregisters]

def skip (e : Emulator) (n : Nat) : Emulator :=
  { e with
    PC := e.PC + BitVec.ofNat 32 (4 * n)
    registers := Function.update e.registers 0#5 0#32
    din := e.din + BitVec.ofNat 32 n }

theorem step_of_past_end (hstart : e.memory.startAddr = 0#32)
    (hpending : e.encounteredBranch = false) (hpast : e.memory.numEntries ≤ e.PC.toNat) :
    Functional.machine e = (false, e.skip 1) := by
  have hzero := fetchedWord_of_past_end hstart hpast
  have hhalt : e.executeInstruction.1.isHalt = false := by
    rw [executeInstruction_isHalt, hzero]
    decide
  have hnext : e.nextPC = e.PC + 4#32 := by
    unfold nextPC
    rw [hpending]
    rfl
  refine Prod.ext hhalt ?_
  show e.executeInstruction.2 = e.skip 1
  rw [executeInstruction_of_zero hzero]
  unfold skip fetch
  rw [hnext, ← hpending]

theorem skip_skip (m n : Nat) : (e.skip m).skip n = e.skip (m + n) := by
  unfold skip
  dsimp only
  rw [Function.update_idem, BitVec.add_assoc, BitVec.add_assoc, ← BitVec.ofNat_add,
    ← BitVec.ofNat_add, Nat.mul_add]

theorem reaches_skip (hstart : e.memory.startAddr = 0#32)
    (hpending : e.encounteredBranch = false) (hpast : e.memory.numEntries ≤ e.PC.toNat) {n : Nat}
    (hn : e.PC.toNat + 4 * n < 2 ^ 32) : Functional.machine.Reaches (n + 1) e (e.skip (n + 1)) := by
  induction n with
  | zero =>
      exact Machine.Reaches.one (step_of_past_end hstart hpending hpast)
  | succ n ih =>
      have hprev := ih (by lia)
      have hPC : (e.skip (n + 1)).PC.toNat = e.PC.toNat + 4 * (n + 1) := by
        show (e.PC + BitVec.ofNat 32 (4 * (n + 1))).toNat = _
        rw [BitVec.toNat_add, BitVec.toNat_ofNat, Nat.mod_eq_of_lt (by lia),
          Nat.mod_eq_of_lt (by lia)]
      have hfurther : (e.skip (n + 1)).memory.numEntries ≤ (e.skip (n + 1)).PC.toNat := by
        rw [hPC]
        exact Nat.le_trans hpast (Nat.le_add_right _ _)
      have hstep : Functional.machine (e.skip (n + 1)) = (false, (e.skip (n + 1)).skip 1) :=
        step_of_past_end hstart hpending hfurther
      rw [skip_skip] at hstep
      exact hprev.tail hstep

end PastEnd

end Emulator

/-- A program that runs past the end of the memory, at a multiple of four and with no branch
pending, is entered again at its start.  Nothing but `$0` and the instruction counter has changed
when the program counter has wrapped around, and the halt word has not been met. -/
theorem past_end_wraps_around (e : Emulator) (hstart : e.memory.startAddr = 0#32)
    (hpending : e.encounteredBranch = false) (haligned : e.PC.toNat % 4 = 0)
    (hpast : e.memory.numEntries ≤ e.PC.toNat) :
    Functional.machine.Reaches ((2 ^ 32 - e.PC.toNat) / 4) e
      { e with
        PC := 0#32
        registers := Function.update e.registers 0#5 0#32
        din := e.din + BitVec.ofNat 32 ((2 ^ 32 - e.PC.toNat) / 4) } := by
  have hlt : e.PC.toNat < 2 ^ 32 := e.PC.isLt
  have hpos : 1 ≤ (2 ^ 32 - e.PC.toNat) / 4 := by
    lia
  rcases Nat.exists_eq_add_of_le' hpos with ⟨n, hn⟩
  have hwraps : e.PC + BitVec.ofNat 32 (4 * (n + 1)) = 0#32 := by
    apply BitVec.eq_of_toNat_eq
    rw [BitVec.toNat_add, BitVec.toNat_ofNat]
    change _ = 0
    lia
  have hroom : e.PC.toNat + 4 * n < 2 ^ 32 := by
    lia
  have hreach := Emulator.reaches_skip hstart hpending hpast hroom
  unfold Emulator.skip at hreach
  rw [hwraps] at hreach
  rw [hn]
  exact hreach

/-- Two instructions in front of the end of the address space, over a cleared memory. -/
def Emulator.nearEnd : Emulator :=
  { Emulator.init (MemoryStore.cleared 0#32 memorySize) with PC := 0xfffffff8#32 }

theorem past_end_wraps_around_near_end :
    exists n e, Functional.machine.Reaches n Emulator.nearEnd e ∧ e.PC = 0#32 :=
  ⟨_, _, past_end_wraps_around Emulator.nearEnd rfl rfl (by decide) (by decide), rfl⟩

end PipeSim
