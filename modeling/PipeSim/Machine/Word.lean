import Mathlib.Data.BitVec
import Mathlib.Logic.Function.Basic

/-!
# Machine words and instruction fields

Words are 32-bit and addresses, registers and counters of the simulators are
all words, so every sum wraps modulo `2 ^ 32` as `uint32_t` does.  The module
also holds the two field extractors of the repository and the opcode and
function-code enumerations they are compared with.
-/

namespace PipeSim

abbrev Word := BitVec 32

theorem toNat_eq_zero_iff {w : Word} : w.toNat = 0 <-> w = 0#32 :=
  ⟨fun h => BitVec.eq_of_toNat_eq h, fun h => by rw [h]; rfl⟩

theorem toNat_pos_iff {w : Word} : 0 < w.toNat <-> w ≠ 0#32 := by
  rw [Nat.pos_iff_ne_zero]
  exact not_congr toNat_eq_zero_iff

abbrev Byte := BitVec 8

abbrev RegId := BitVec 5

inductive Status where
  | success
  | error
  | halt
deriving DecidableEq, Repr

def haltWord : Word := 0xfeedfeed#32

/-- `Emulator::extractBits`: the bits from `start` down to `stop`. -/
def extractBits (instruction : Word) (start stop : Nat) : Word :=
  let bitsToExtract := start - stop + 1
  let mask : Word := (1#32 <<< bitsToExtract) - 1#32
  let clipped := instruction >>> stop
  clipped &&& mask

/-- `Emulator::signExt`: widen a 16-bit immediate by copying its sign bit. -/
def signExt (smol : BitVec 16) : Word :=
  let x : Word := smol.setWidth 32
  let extension : Word := 0xffff0000#32
  if smol &&& 0x8000#16 ≠ 0#16 then x ^^^ extension else x

inductive OpId where
  | zero
  | addi | addiu | andi | ori | slti | sltiu
  | lui
  | lbu | lhu | lw
  | sb | sh | sw
  | beq | bne | blez | bgtz
  | j | jal
deriving DecidableEq, Repr

namespace OpId

def code : OpId -> Word
  | zero => 0x0#32
  | addi => 0x8#32
  | addiu => 0x9#32
  | andi => 0xc#32
  | ori => 0xd#32
  | slti => 0xa#32
  | sltiu => 0xb#32
  | lui => 0xf#32
  | lbu => 0x24#32
  | lhu => 0x25#32
  | lw => 0x23#32
  | sb => 0x28#32
  | sh => 0x29#32
  | sw => 0x2b#32
  | beq => 0x4#32
  | bne => 0x5#32
  | blez => 0x6#32
  | bgtz => 0x7#32
  | j => 0x2#32
  | jal => 0x3#32

def all : List OpId :=
  [zero, addi, addiu, andi, ori, slti, sltiu, lui, lbu, lhu, lw, sb, sh, sw,
    beq, bne, blez, bgtz, j, jal]

def ofCode? (opcode : Word) : Option OpId :=
  all.find? fun op => op.code = opcode

theorem ofCode?_eq_some {opcode : Word} {op : OpId} :
    ofCode? opcode = some op <-> op.code = opcode := by
  constructor
  · intro h
    simpa using List.find?_some h
  · intro h
    subst h
    cases op <;> rfl

end OpId

inductive FunId where
  | add | addu | and | jr | nor | or | slt | sltu | sll | srl | sub | subu
deriving DecidableEq, Repr

namespace FunId

def code : FunId -> Word
  | add => 0x20#32
  | addu => 0x21#32
  | and => 0x24#32
  | jr => 0x08#32
  | nor => 0x27#32
  | or => 0x25#32
  | slt => 0x2a#32
  | sltu => 0x2b#32
  | sll => 0x00#32
  | srl => 0x02#32
  | sub => 0x22#32
  | subu => 0x23#32

def all : List FunId :=
  [add, addu, and, jr, nor, or, slt, sltu, sll, srl, sub, subu]

def ofCode? (funct : Word) : Option FunId :=
  all.find? fun f => f.code = funct

theorem ofCode?_eq_some {funct : Word} {f : FunId} :
    ofCode? funct = some f <-> f.code = funct := by
  constructor
  · intro h
    simpa using List.find?_some h
  · intro h
    subst h
    cases f <;> rfl

end FunId

end PipeSim
