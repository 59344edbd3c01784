import PipeSim.Machine.Memory

/-!
# The instruction emulator

`Emulator.executeInstruction` is the one place where program state changes; the
functional and the cycle-accurate simulator both call it.  The source function
is cut here at its own seams: the fetch and the program-counter update, the
filling-in of the instruction fields, and the switch on the opcode.
-/

namespace PipeSim

/-- The state of an `Emulator` object.  `regData` is its register array. -/
structure Emulator where
  memory : MemoryStore
  PC : Word
  encounteredBranch : Bool
  savedBranch : Word
  registers : RegId -> Word
  din : Word

structure InstructionInfo where
  pc : Word := 0#32
  nextPC : Word := 0#32
  isHalt : Bool := false
  isValid : Bool := true
  isOverflow : Bool := false
  instructionID : Word := 0#32
  instruction : Word := 0#32
  opcode : Word := 0#32
  rs : Word := 0#32
  rt : Word := 0#32
  rd : Word := 0#32
  shamt : Word := 0#32
  funct : Word := 0#32
  immediate : BitVec 16 := 0#16
  address : Word := 0#32
  signExtImm : Word := 0#32
  zeroExtImm : Word := 0#32
  branchAddr : Word := 0#32
  jumpAddr : Word := 0#32
  loadAddress : Word := 0#32
  storeAddress : Word := 0#32

def InstructionInfo.completes (info : InstructionInfo) : Bool :=
  info.isValid && !info.isOverflow

def regOf (field : Word) : RegId := field.setWidth 5

def exceptionPC : Word := 0x8000#32

/-- The sign test for `a + b` on `int32_t` operands. -/
def addOverflows (a b : Word) : Bool :=
  (0 ≤ a.toInt ∧ 0 ≤ b.toInt ∧ (a + b).toInt < 0) ∨
    (a.toInt < 0 ∧ b.toInt < 0 ∧ 0 ≤ (a + b).toInt)

/-- The sign test for `a - b` on `int32_t` operands. -/
def subOverflows (a b : Word) : Bool :=
  (0 ≤ a.toInt ∧ b.toInt < 0 ∧ (a - b).toInt < 0) ∨
    (a.toInt < 0 ∧ 0 ≤ b.toInt ∧ 0 ≤ (a - b).toInt)

namespace Emulator

/-- `Emulator::Emulator` followed by `setMemory`. -/
def init (memory : MemoryStore) : Emulator where
  memory := memory
  PC := 0#32
  encounteredBranch := false
  savedBranch := 0#32
  registers := fun _ => 0#32
  din := 0#32

def reg (e : Emulator) (field : Word) : Word := e.registers (regOf field)

def setReg (e : Emulator) (field value : Word) : Emulator :=
  { e with registers := Function.update e.registers (regOf field) value }

def takeBranch (e : Emulator) (target : Word) : Emulator :=
  { e with encounteredBranch := true, savedBranch := target }

def raiseException (e : Emulator) : Emulator := { e with PC := exceptionPC }

def fetchedWord (e : Emulator) : Word :=
  (e.memory.getMemValue e.PC 0#32 wordSize).2

/-- The program counter after the increment, or the pending branch target. -/
def nextPC (e : Emulator) : Word :=
  if e.encounteredBranch then e.savedBranch else e.PC + 4#32

/-- Fetch, update the program counter, clear `$0` and count the instruction. -/
def fetch (e : Emulator) : InstructionInfo × Emulator :=
  ({ pc := e.PC
     instruction := e.fetchedWord
     nextPC := e.nextPC
     instructionID := e.din
     isHalt := e.fetchedWord == haltWord },
    { e with
      PC := e.nextPC
      encounteredBranch := false
      registers := Function.update e.registers 0#5 0#32
      din := e.din + 1#32 })

def decode (info : InstructionInfo) (PC : Word) : InstructionInfo :=
  let instruction := info.instruction
  let immediate : BitVec 16 := (extractBits instruction 15 0).setWidth 16
  let address := extractBits instruction 25 0
  { info with
    opcode := extractBits instruction 31 26
    rs := extractBits instruction 25 21
    rt := extractBits instruction 20 16
    rd := extractBits instruction 15 11
    shamt := extractBits instruction 10 6
    funct := extractBits instruction 5 0
    immediate := immediate
    address := address
    signExtImm := signExt immediate
    zeroExtImm := immediate.setWidth 32
    branchAddr := signExt immediate <<< 2
    jumpAddr := (PC &&& 0xf0000000#32) ^^^ (address <<< 2) }

/-- The inner switch, on the function code of an R-type instruction. -/
def executeOpZero (info : InstructionInfo) (e : Emulator) :
    InstructionInfo × Emulator :=
  let a := e.reg info.rs
  let b := e.reg info.rt
  match FunId.ofCode? info.funct with
  | some .add =>
      if addOverflows a b then
        ({ info with isOverflow := true }, e.raiseException)
      else (info, e.setReg info.rd (a + b))
  | some .addu => (info, e.setReg info.rd (a + b))
  | some .and => (info, e.setReg info.rd (a &&& b))
  | some .jr => (info, e.takeBranch a)
  | some .nor => (info, e.setReg info.rd (~~~(a ||| b)))
  | some .or => (info, e.setReg info.rd (a ||| b))
  | some .slt => (info, e.setReg info.rd (if a.toInt < b.toInt then 1#32 else 0#32))
  | some .sltu => (info, e.setReg info.rd (if a < b then 1#32 else 0#32))
  | some .sll => (info, e.setReg info.rd (b <<< info.shamt))
  | some .srl => (info, e.setReg info.rd (b >>> info.shamt))
  | some .sub => (info, e.setReg info.rd (a - b))
  | some .subu =>
      if subOverflows a b then
        ({ info with isOverflow := true }, e.raiseException)
      else (info, e.setReg info.rd (a - b))
  | none => ({ info with isValid := false }, e)

/-- `getMemValue` with `registers[rt]` as the reference argument. -/
def load (info : InstructionInfo) (e : Emulator) (size : Word) :
    InstructionInfo × Emulator :=
  let loadAddress := e.reg info.rs + info.signExtImm
  ({ info with loadAddress := loadAddress },
    e.setReg info.rt (e.memory.getMemValue loadAddress (e.reg info.rt) size).2)

/-- `setMemValue` at the address of a store, with its return code dropped. -/
def store (info : InstructionInfo) (e : Emulator) (value size : Word) :
    InstructionInfo × Emulator :=
  let storeAddress := e.reg info.rs + info.signExtImm
  ({ info with storeAddress := storeAddress },
    { e with memory := (e.memory.setMemValue storeAddress value size).2 })

/-- A conditional branch: `PC + branchAddr` is the target when it is taken. -/
def branchIf (info : InstructionInfo) (e : Emulator) (taken : Bool) :
    InstructionInfo × Emulator :=
  (info, if taken then e.takeBranch (e.PC + info.branchAddr) else e)

/-- The outer switch, on the opcode. -/
def execute (info : InstructionInfo) (e : Emulator) : InstructionInfo × Emulator :=
  let a := e.reg info.rs
  let b := e.reg info.rt
  match OpId.ofCode? info.opcode with
  | some .zero => executeOpZero info e
  | some .addi =>
      if addOverflows a info.signExtImm then
        ({ info with isOverflow := true }, e.raiseException)
      else (info, e.setReg info.rt (a + info.signExtImm))
  | some .addiu => (info, e.setReg info.rt (a + info.signExtImm))
  | some .andi => (info, e.setReg info.rt (a &&& info.zeroExtImm))
  | some .beq => branchIf info e (a == b)
  | some .bne => branchIf info e (a != b)
  | some .blez => branchIf info e (a == 0#32 || a &&& 0x80000000#32 != 0#32)
  | some .bgtz => branchIf info e (a &&& 0x80000000#32 == 0#32 && a != 0#32)
  | some .j => (info, e.takeBranch info.jumpAddr)
  | some .jal => (info, (e.setReg 31#32 (e.PC + 4#32)).takeBranch info.jumpAddr)
  | some .lbu => load info e byteSize
  | some .lhu => load info e halfSize
  | some .lui => (info, e.setReg info.rt (info.zeroExtImm <<< 16))
  | some .lw => load info e wordSize
  | some .ori => (info, e.setReg info.rt (a ||| info.zeroExtImm))
  | some .slti =>
      (info, e.setReg info.rt (if a.toInt < info.signExtImm.toInt then 1#32 else 0#32))
  | some .sltiu =>
      (info, e.setReg info.rt (if a < info.signExtImm then 1#32 else 0#32))
  | some .sb => store info e (extractBits b 7 0) byteSize
  | some .sh => store info e (extractBits b 15 0) halfSize
  | some .sw => store info e b wordSize
  | none => ({ info with isValid := false }, e.raiseException)

def executeInstruction (e : Emulator) : InstructionInfo × Emulator :=
  let fetched := e.fetch
  if fetched.1.isHalt then fetched
  else execute (decode fetched.1 fetched.2.PC) fetched.2

end Emulator

end PipeSim
