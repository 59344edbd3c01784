import PipeSim.Cache.Model
import PipeSim.Machine.Emulator

/-!
# State of the cycle simulator

The static variables of the cycle simulator become one record.  A pipeline slot
holds the instruction word of the source together with a tag that no computation
reads: the number of the `executeInstruction` call the word came from, absent
for a bubble.  The record also carries a log of what the simulator has done
towards the outside: instructions executed, cache accesses and dumped pipeline
lines.
-/

namespace PipeSim
namespace Cycle

/-- An instruction word in a pipeline stage, tagged with its execution. -/
structure Slot where
  instr : Word
  tag : Option Nat
deriving DecidableEq, Repr

def Slot.bubble : Slot := { instr := 0#32, tag := none }

structure PipeState where
  cycle : Word
  ifInstr : Slot
  idInstr : Slot
  exInstr : Slot
  memInstr : Slot
  wbInstr : Slot
deriving DecidableEq, Repr

def PipeState.empty : PipeState where
  cycle := 0#32
  ifInstr := Slot.bubble
  idInstr := Slot.bubble
  exInstr := Slot.bubble
  memInstr := Slot.bubble
  wbInstr := Slot.bubble

/-- The array `memAddresses`, indexed by pipeline stage. -/
structure MemAddresses where
  a0 : Word
  a1 : Word
  a2 : Word
  a3 : Word
  a4 : Word
deriving DecidableEq, Repr

/-- The value `-1` that marks an address buffer entry without an address. -/
def noAddress : Word := 0xffffffff#32

structure Log where
  infos : List InstructionInfo := []
  iAccesses : List Word := []
  dAccesses : List (Word × CacheOperation) := []
  lines : List PipeState := []

structure Sim where
  emulator : Emulator
  iCache : Cache
  dCache : Cache
  pipeState : PipeState
  cycleCount : Word
  iMiss : Word
  dMiss : Word
  dStall : Word
  xStall : Word
  except : Word
  memAddresses : MemAddresses
  log : Log

/-- `initSimulator`, over the initial values of the static variables. -/
def initSimulator (iCacheConfig dCacheConfig : CacheConfig) (mem : MemoryStore) : Sim where
  emulator := Emulator.init mem
  iCache := Cache.new iCacheConfig
  dCache := Cache.new dCacheConfig
  pipeState := PipeState.empty
  cycleCount := 0#32
  iMiss := 0#32
  dMiss := 0#32
  dStall := 0#32
  xStall := 0#32
  except := 0#32
  memAddresses := { a0 := 0#32, a1 := 0#32, a2 := 0#32, a3 := 0#32, a4 := 0#32 }
  log := {}

/-!
## Instruction classes

The simulator decodes instruction words on its own, independently of the
emulator's switch.
-/

def extract (instruction : Word) (start stop : Nat) : Word :=
  extractBits instruction start stop

def rs (target : Word) : Word := extract target 25 21

def rt (target : Word) : Word := extract target 20 16

def rd (target : Word) : Word := extract target 15 11

def opcode (target : Word) : Word := extract target 31 26

def funct (target : Word) : Word := extract target 5 0

def isLoad (target : Word) : Bool :=
  target != 0#32 &&
    (opcode target == OpId.lbu.code || opcode target == OpId.lhu.code ||
      opcode target == OpId.lw.code)

def isBranch (target : Word) : Bool :=
  target != 0#32 &&
    (opcode target == OpId.beq.code || opcode target == OpId.bne.code ||
      opcode target == OpId.blez.code || opcode target == OpId.bgtz.code)

def isStore (target : Word) : Bool :=
  target != 0#32 &&
    (opcode target == OpId.sb.code || opcode target == OpId.sh.code ||
      opcode target == OpId.sw.code)

def isImm (target : Word) : Bool :=
  opcode target == OpId.addi.code || opcode target == OpId.addiu.code ||
    opcode target == OpId.andi.code || opcode target == OpId.ori.code ||
    opcode target == OpId.slti.code || opcode target == OpId.sltiu.code

def isRop (target : Word) : Bool :=
  target != 0#32 &&
    (opcode target == OpId.zero.code && funct target != FunId.jr.code)

def isOp (target : Word) : Bool :=
  target != 0#32 && (isImm target || isRop target)

/-!
## Hazard detectors
-/

/-- The destination `op_branch` compares with: `rt` for immediates, else `rd`. -/
def opTarget (dep : Word) : Word := if isImm dep then rt dep else rd dep

/-- `op_branch`: a branch in need of the result of an operation. -/
def opBranch (use dep : Word) : Word :=
  if isBranch use && isOp dep && (rs use == opTarget dep || rt use == opTarget dep)
  then 1#32 else 0#32

/-- `load_branch`: a branch in need of a loaded value. -/
def loadBranch (use dep : Word) : Word :=
  if isBranch use && isLoad dep && (rs use == rt dep || rt use == rt dep)
  then 2#32 else 0#32

/-- `load_op`: an operation in need of a loaded value. -/
def loadOp (use dep : Word) : Word :=
  if isOp use && isLoad dep &&
      ((isImm use && rs use == rt dep) ||
        (!isImm use && (rs use == rt dep || rt use == rt dep)))
  then 1#32 else 0#32

end Cycle
end PipeSim
