import PipeSim.Machine.IsaRefinement

/-!
# Branches, jumps and their delay slots

A branch or jump is three steps long: it stores its target, the instruction behind it
runs, and only the fetch of that instruction moves the program counter to the target.
The target is computed from a program counter that points to the delay slot already.
-/

namespace PipeSim
namespace Emulator

/-!
## The branch conditions and targets of the instruction set
-/

/-- The branch or jump `word` is taken when its sources hold `a` and `b`. -/
def Condition (word a b : Word) : Prop :=
  match opOf word with
  | some .beq => a = b
  | some .bne => a ≠ b
  | some .blez => a.toInt ≤ 0
  | some .bgtz => 0 < a.toInt
  | some .j | some .jal => True
  | some .zero => functOf word = some .jr
  | _ => False

def Taken (e : Emulator) : Prop :=
  Condition e.fetchedWord (e.operand (rsOf e.fetchedWord)) (e.operand (rtOf e.fetchedWord))

def target (e : Emulator) : Word :=
  match opOf e.fetchedWord with
  | some .j | some .jal =>
      ((e.PC + 4#32) &&& 0xf0000000#32) ||| 4#32 * extractBits e.fetchedWord 25 0
  | some .zero => e.operand (rsOf e.fetchedWord)
  | _ => e.PC + 4#32 + BitVec.ofInt 32 (4 * (immOf e.fetchedWord).toInt)

theorem outcome_iff {word a b : Word} : outcome word a b = true <-> Condition word a b := by
  unfold outcome Condition
  cases opOf word with
  | none =>
      exact iff_of_false Bool.false_ne_true id
  | some op =>
      cases op <;> dsimp only
      case zero => exact decide_eq_true_iff
      case beq => exact beq_iff_eq
      case bne => exact bne_iff_ne
      case blez => exact blez_test_iff a
      case bgtz => exact bgtz_test_iff a
      case j => exact iff_of_true rfl trivial
      case jal => exact iff_of_true rfl trivial
      all_goals exact iff_of_false Bool.false_ne_true id

theorem branchTaken_iff {e : Emulator} : branchTaken e = true <-> e.Taken := by
  by_cases hhalt : e.fetchedWord = haltWord
  · have hnone : opOf haltWord = none := by decide
    unfold branchTaken Taken Condition
    rw [executeInstruction_of_halt hhalt, hhalt, hnone]
    exact iff_of_false Bool.false_ne_true id
  · rw [branchTaken_eq hhalt, fetch_reg, fetch_reg]
    exact outcome_iff

theorem branchAddr_eq (word : Word) :
    signExt (immOf word) <<< 2 = BitVec.ofInt 32 (4 * (immOf word).toInt) := by
  rw [BitVec.shiftLeft_eq_mul_twoPow, BitVec.mul_comm, BitVec.ofInt_mul, ← toInt_signExt,
    BitVec.ofInt_toInt]
  rfl

theorem jumpAddr_eq (a word : Word) :
    (a &&& 0xf0000000#32) ^^^ (extractBits word 25 0 <<< 2) =
      (a &&& 0xf0000000#32) ||| 4#32 * extractBits word 25 0 := by
  have hshift : extractBits word 25 0 <<< 2 = 4#32 * extractBits word 25 0 := by
    rw [BitVec.shiftLeft_eq_mul_twoPow, BitVec.mul_comm]
    rfl
  have hlt : (4#32 * extractBits word 25 0).toNat < 2 ^ 28 := by
    rw [BitVec.toNat_mul, toNat_extractBits _ (by decide)]
    change 4 * _ % 2 ^ 32 < _
    lia
  rw [hshift]
  apply BitVec.eq_of_toNat_eq
  rw [BitVec.toNat_xor, BitVec.toNat_or, toNat_and_region, xor_eq_add hlt,
    Nat.two_pow_add_eq_or_of_lt hlt]

/-!
## The step of the branch and the step of its delay slot
-/

section Branch

variable {e : Emulator}

theorem executeInstruction_PC_of_controlTransfer (hpending : e.encounteredBranch = false)
    (hbranch : ControlTransfer e.fetchedWord) :
    e.executeInstruction.2.PC = e.PC + 4#32 := by
  unfold ControlTransfer at hbranch
  cases hop : opOf e.fetchedWord with
  | none =>
      rw [hop] at hbranch
      exact hbranch.elim
  | some op =>
      rw [← fetch_PC hpending, executeInstruction_of_op hop]
      unfold execute
      dsimp only
      rw [decoded_op, hop]
      rw [hop] at hbranch
      cases op <;> dsimp only [branchIf] at hbranch ⊢
      case zero =>
          unfold executeOpZero
          dsimp only
          rw [decoded_fun, hbranch]
          rfl
      all_goals first
        | rfl
        | exact hbranch.elim
        | (split <;> rfl)

theorem executeInstruction_savedBranch (hpending : e.encounteredBranch = false)
    (htaken : e.Taken) : e.executeInstruction.2.savedBranch = e.target := by
  have houtcome := branchTaken_iff.mpr htaken
  unfold Taken Condition at htaken
  unfold target
  unfold branchTaken at houtcome
  cases hop : opOf e.fetchedWord with
  | none =>
      rw [hop] at htaken
      exact htaken.elim
  | some op =>
      rw [executeInstruction_of_op hop] at houtcome ⊢
      unfold execute at houtcome ⊢
      dsimp only at houtcome ⊢
      rw [decoded_op, hop] at houtcome ⊢
      rw [hop] at htaken
      cases op <;> dsimp only [branchIf] at htaken houtcome ⊢
      case zero =>
          unfold executeOpZero
          dsimp only
          rw [decoded_fun, htaken]
          exact fetch_reg e _
      case j =>
          rw [← fetch_PC hpending]
          exact jumpAddr_eq _ _
      case jal =>
          rw [← fetch_PC hpending]
          exact jumpAddr_eq _ _
      all_goals
        split at houtcome
        · rename_i hcondition
          rw [if_pos hcondition, ← fetch_PC hpending, ← branchAddr_eq]
          rfl
        · cases houtcome

theorem executeInstruction_link (hpending : e.encounteredBranch = false)
    (hop : opOf e.fetchedWord = some .jal) :
    e.executeInstruction.2.operand 31#5 = e.PC + 8#32 := by
  rw [operand_of_ne (by decide), executeInstruction_of_op hop]
  unfold execute
  dsimp only
  rw [decoded_op, hop, fetch_PC hpending]
  dsimp only
  rw [takeBranch_registers, setReg_registers, BitVec.add_assoc]
  exact Function.update_self _ _ _

theorem executeOpZero_PC_of_completes {info : InstructionInfo}
    (hcompletes : (executeOpZero info e).1.completes = true) :
    (executeOpZero info e).2.PC = e.PC := by
  unfold executeOpZero at hcompletes ⊢
  dsimp only at hcompletes ⊢
  cases hf : FunId.ofCode? info.funct with
  | none =>
      rfl
  | some f =>
      rw [hf] at hcompletes
      cases f <;> dsimp only at hcompletes ⊢ <;> first
        | rfl
        | (split at hcompletes
           · simp [InstructionInfo.completes] at hcompletes
           · rw [if_neg (by assumption)]
             rfl)

/-- The program counter behind an instruction that does not trap is the one of its fetch,
also for a branch. -/
theorem executeInstruction_PC_of_completes
    (hcompletes : e.executeInstruction.1.completes = true) :
    e.executeInstruction.2.PC = e.nextPC := by
  by_cases hhalt : e.fetchedWord = haltWord
  · rw [executeInstruction_of_halt hhalt]
    rfl
  · rw [executeInstruction_of_not_halt hhalt] at hcompletes ⊢
    change _ = e.fetch.2.PC
    unfold execute at hcompletes ⊢
    dsimp only at hcompletes ⊢
    rw [decoded_op] at hcompletes ⊢
    cases hop : opOf e.fetchedWord with
    | none =>
        rw [hop] at hcompletes
        simp [InstructionInfo.completes] at hcompletes
    | some op =>
        rw [hop] at hcompletes
        cases op <;> dsimp only [load, store, branchIf] at hcompletes ⊢
        case zero => exact executeOpZero_PC_of_completes hcompletes
        all_goals first
          | rfl
          | (split at hcompletes
             · simp [InstructionInfo.completes] at hcompletes
             · rw [if_neg (by assumption)]
               rfl)
          | (split <;> rfl)

theorem nextPC_behind_slot (hpending : e.encounteredBranch = false)
    (hbranch : ControlTransfer e.fetchedWord) :
    (e.Taken -> e.executeInstruction.2.nextPC = e.target) ∧
      (¬ e.Taken -> e.executeInstruction.2.nextPC = e.PC + 8#32) := by
  constructor
  · intro htaken
    have hflag : e.executeInstruction.2.encounteredBranch = true := branchTaken_iff.mpr htaken
    unfold nextPC
    rw [hflag, if_pos rfl, executeInstruction_savedBranch hpending htaken]
  · intro htaken
    have hflag : e.executeInstruction.2.encounteredBranch ≠ true :=
      fun h => htaken (branchTaken_iff.mp h)
    unfold nextPC
    rw [if_neg hflag, executeInstruction_PC_of_controlTransfer hpending hbranch,
      BitVec.add_assoc]
    rfl

end Branch

end Emulator

/-- With no branch pending, a branch or jump at `p` is followed by the instruction at
`p + 4`.  When that one does not trap and is no taken branch or jump, the instruction
after it is fetched at the target, or at `p + 8` if the branch is not taken, and no branch
is pending.  The delay slot of `JAL` finds `p + 8` in `$31`. -/
theorem delay_slot (e : Emulator) (hpending : e.encounteredBranch = false)
    (hbranch : Emulator.ControlTransfer e.fetchedWord) :
    e.executeInstruction.2.executeInstruction.1.pc = e.PC + 4#32 ∧
      (opOf e.fetchedWord = some .jal ->
        e.executeInstruction.2.operand 31#5 = e.PC + 8#32) ∧
      (e.executeInstruction.2.executeInstruction.1.completes = true ->
        ¬ e.executeInstruction.2.Taken ->
          e.executeInstruction.2.executeInstruction.2.encounteredBranch = false ∧
            (e.Taken ->
              e.executeInstruction.2.executeInstruction.2.executeInstruction.1.pc =
                e.target) ∧
            (¬ e.Taken ->
              e.executeInstruction.2.executeInstruction.2.executeInstruction.1.pc =
                e.PC + 8#32)) := by
  refine ⟨?_, Emulator.executeInstruction_link hpending, ?_⟩
  · rw [Emulator.executeInstruction_pc,
      Emulator.executeInstruction_PC_of_controlTransfer hpending hbranch]
  · intro hcompletes hslot
    have hflag : e.executeInstruction.2.executeInstruction.2.encounteredBranch = false := by
      rw [← Bool.not_eq_true]
      exact fun h => hslot (Emulator.branchTaken_iff.mp h)
    rw [Emulator.executeInstruction_pc,
      Emulator.executeInstruction_PC_of_completes hcompletes]
    exact ⟨hflag, Emulator.nextPC_behind_slot hpending hbranch⟩

/-- A jump back to itself: the word behind it is a shift that does nothing. -/
def Emulator.jumpBack : Emulator :=
  init (MemoryStore.ofImage (MemImage.ofWords [0x08000000#32]))

theorem delay_slot_jump_back :
    Emulator.jumpBack.executeInstruction.2.executeInstruction.2.executeInstruction.1.pc =
      Emulator.jumpBack.target := by
  have hword : Emulator.jumpBack.fetchedWord = 0x08000000#32 :=
    Emulator.fetchedWord_init_ofWords _
  have hop : opOf 0x08000000#32 = some .j := by decide
  have hbranch : Emulator.ControlTransfer Emulator.jumpBack.fetchedWord := by
    rw [hword, Emulator.ControlTransfer, hop]
    trivial
  have htaken : Emulator.jumpBack.Taken := by
    rw [Emulator.Taken, hword, Emulator.Condition, hop]
    trivial
  have hslot : ¬ Emulator.jumpBack.executeInstruction.2.Taken := by
    rw [← Emulator.branchTaken_iff]
    decide
  exact ((delay_slot Emulator.jumpBack rfl hbranch).2.2 (by decide) hslot).2.1 htaken

end PipeSim
