import PipeSim.Machine.Emulator

/-!
# What an executed instruction reports

The simulators look at the record that `executeInstruction` returns, and at
nothing else, to decide how to go on.  The switch only ever changes four members
of that record, so everything else about it is known from the fetch.
-/

namespace PipeSim
namespace Emulator

/-!
## The switch keeps the fetched members
-/

structure SameFetch (info info' : InstructionInfo) : Prop where
  pc : info'.pc = info.pc
  instruction : info'.instruction = info.instruction
  isHalt : info'.isHalt = info.isHalt

theorem SameFetch.refl (info : InstructionInfo) : SameFetch info info :=
  ⟨rfl, rfl, rfl⟩

/-- What the switch leaves alone: the fetched members, the opcode in the record and the
instruction counter. -/
structure SwitchFrame (info : InstructionInfo) (e : Emulator)
    (executed : InstructionInfo × Emulator) : Prop where
  sameFetch : SameFetch info executed.1
  opcode : executed.1.opcode = info.opcode
  din : executed.2.din = e.din

theorem executeOpZero_frame (info : InstructionInfo) (e : Emulator) :
    SwitchFrame info e (executeOpZero info e) := by
  unfold executeOpZero
  dsimp only
  cases FunId.ofCode? info.funct with
  | none =>
      exact ⟨⟨rfl, rfl, rfl⟩, rfl, rfl⟩
  | some f =>
      cases f <;> dsimp only <;> first
        | exact ⟨⟨rfl, rfl, rfl⟩, rfl, rfl⟩
        | (split <;> exact ⟨⟨rfl, rfl, rfl⟩, rfl, rfl⟩)

theorem execute_frame (info : InstructionInfo) (e : Emulator) :
    SwitchFrame info e (execute info e) := by
  unfold execute
  dsimp only
  cases OpId.ofCode? info.opcode with
  | none =>
      exact ⟨⟨rfl, rfl, rfl⟩, rfl, rfl⟩
  | some op =>
      cases op <;> dsimp only [load, store, branchIf] <;> first
        | exact ⟨⟨rfl, rfl, rfl⟩, rfl, rfl⟩
        | exact executeOpZero_frame info e
        | (split <;> exact ⟨⟨rfl, rfl, rfl⟩, rfl, rfl⟩)

theorem executeInstruction_of_halt {e : Emulator} (h : e.fetchedWord = haltWord) :
    e.executeInstruction = e.fetch := by
  unfold executeInstruction
  simp [fetch, h]

def decoded (e : Emulator) : InstructionInfo := decode e.fetch.1 e.fetch.2.PC

@[simp] theorem decoded_opcode (e : Emulator) :
    e.decoded.opcode = extractBits e.fetchedWord 31 26 := rfl

@[simp] theorem decoded_rs (e : Emulator) :
    e.decoded.rs = extractBits e.fetchedWord 25 21 := rfl

@[simp] theorem decoded_rt (e : Emulator) :
    e.decoded.rt = extractBits e.fetchedWord 20 16 := rfl

@[simp] theorem decoded_rd (e : Emulator) :
    e.decoded.rd = extractBits e.fetchedWord 15 11 := rfl

@[simp] theorem decoded_shamt (e : Emulator) :
    e.decoded.shamt = extractBits e.fetchedWord 10 6 := rfl

@[simp] theorem decoded_funct (e : Emulator) :
    e.decoded.funct = extractBits e.fetchedWord 5 0 := rfl

@[simp] theorem decoded_signExtImm (e : Emulator) :
    e.decoded.signExtImm = signExt ((extractBits e.fetchedWord 15 0).setWidth 16) := rfl

@[simp] theorem decoded_branchAddr (e : Emulator) :
    e.decoded.branchAddr =
      signExt ((extractBits e.fetchedWord 15 0).setWidth 16) <<< 2 := rfl

theorem executeInstruction_of_not_halt {e : Emulator} (h : e.fetchedWord ≠ haltWord) :
    e.executeInstruction = execute e.decoded e.fetch.2 := by
  unfold executeInstruction
  simp [fetch, h, decoded]

theorem executeInstruction_sameFetch (e : Emulator) :
    SameFetch e.fetch.1 e.executeInstruction.1 := by
  by_cases h : e.fetchedWord = haltWord
  · rw [executeInstruction_of_halt h]
    exact SameFetch.refl _
  · rw [executeInstruction_of_not_halt h]
    have hexec := (execute_frame e.decoded e.fetch.2).sameFetch
    exact ⟨hexec.pc, hexec.instruction, hexec.isHalt⟩

@[simp] theorem executeInstruction_instruction (e : Emulator) :
    e.executeInstruction.1.instruction = e.fetchedWord :=
  (executeInstruction_sameFetch e).instruction

@[simp] theorem executeInstruction_pc (e : Emulator) :
    e.executeInstruction.1.pc = e.PC :=
  (executeInstruction_sameFetch e).pc

@[simp] theorem executeInstruction_isHalt (e : Emulator) :
    e.executeInstruction.1.isHalt = (e.fetchedWord == haltWord) :=
  (executeInstruction_sameFetch e).isHalt

/-- The record shows the opcode of the word, except for the halt word, which is not
decoded. -/
theorem executeInstruction_opcode {e : Emulator} (h : e.fetchedWord ≠ haltWord) :
    e.executeInstruction.1.opcode = extractBits e.fetchedWord 31 26 := by
  rw [executeInstruction_of_not_halt h, (execute_frame e.decoded e.fetch.2).opcode,
    decoded_opcode]

theorem executeInstruction_completes_of_halt {e : Emulator}
    (h : e.executeInstruction.1.isHalt = true) :
    e.executeInstruction.1.completes = true := by
  rw [executeInstruction_isHalt] at h
  rw [executeInstruction_of_halt (by simpa using h)]
  rfl

/-!
## The exceptions
-/

theorem executeOpZero_isValid_of_isOverflow {info : InstructionInfo} {e : Emulator}
    (hinfo : info.isOverflow = false) (h : (executeOpZero info e).1.isOverflow = true) :
    (executeOpZero info e).1.isValid = info.isValid := by
  unfold executeOpZero at h ⊢
  dsimp only at h ⊢
  cases hf : FunId.ofCode? info.funct with
  | none =>
      rw [hf] at h
      exact absurd (hinfo.symm.trans h) Bool.false_ne_true
  | some f =>
      cases f <;> dsimp only <;> first
        | rfl
        | (split <;> rfl)

theorem execute_isValid_of_isOverflow {info : InstructionInfo} {e : Emulator}
    (hinfo : info.isOverflow = false) (h : (execute info e).1.isOverflow = true) :
    (execute info e).1.isValid = info.isValid := by
  unfold execute at h ⊢
  dsimp only at h ⊢
  cases hop : OpId.ofCode? info.opcode with
  | none =>
      rw [hop] at h
      exact absurd (hinfo.symm.trans h) Bool.false_ne_true
  | some op =>
      rw [hop] at h
      cases op <;> dsimp only [load, store, branchIf] at h ⊢ <;> first
        | rfl
        | exact executeOpZero_isValid_of_isOverflow hinfo h
        | (split <;> rfl)

theorem isValid_of_isOverflow {e : Emulator} (h : e.executeInstruction.1.isOverflow = true) :
    e.executeInstruction.1.isValid = true := by
  by_cases hhalt : e.fetchedWord = haltWord
  · rw [executeInstruction_of_halt hhalt]
    rfl
  · rw [executeInstruction_of_not_halt hhalt] at h ⊢
    exact execute_isValid_of_isOverflow rfl h

/-!
## The instruction counter
-/

theorem executeInstruction_din (e : Emulator) :
    e.executeInstruction.2.din = e.din + 1#32 := by
  by_cases h : e.fetchedWord = haltWord
  · rw [executeInstruction_of_halt h]
    rfl
  · rw [executeInstruction_of_not_halt h, (execute_frame e.decoded e.fetch.2).din]
    rfl

end Emulator
end PipeSim
