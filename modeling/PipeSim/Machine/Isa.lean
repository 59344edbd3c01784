import PipeSim.Library.BigEndian
import Mathlib.Data.Fintype.Basic
import Mathlib.Logic.Function.Basic

/-!
# The instruction set over integers

The MIPS32 instructions of the emulator as the manual defines them, without machine words:
registers and memory hold natural numbers, sums are reduced modulo `2 ^ 32` and signed
operands are integers.  Additions and subtractions that trap are left out.
-/

namespace PipeSim

open Library

namespace Isa

abbrev Gpr := Fin 32

/-- The architectural state; `pending` is the target of the branch in whose delay slot the
next instruction stands. -/
@[ext]
structure State where
  registers : Gpr -> Nat
  memory : Nat -> Option Nat
  pc : Nat
  pending : Option Nat

/-- The number of 32 bits that is congruent to an integer. -/
def wrap (z : Int) : Nat := (z % 2 ^ 32).toNat

/-- A number of `bits` bits in two's complement. -/
def signed (bits n : Nat) : Int := if 2 * n < 2 ^ bits then n else n - 2 ^ bits

inductive Instruction where
  | addu (rd rs rt : Gpr)
  | and (rd rs rt : Gpr)
  | or (rd rs rt : Gpr)
  | nor (rd rs rt : Gpr)
  | slt (rd rs rt : Gpr)
  | sltu (rd rs rt : Gpr)
  | sll (rd rt : Gpr) (sa : Nat)
  | srl (rd rt : Gpr) (sa : Nat)
  | jr (rs : Gpr)
  | addiu (rt rs : Gpr) (immediate : Nat)
  | andi (rt rs : Gpr) (immediate : Nat)
  | ori (rt rs : Gpr) (immediate : Nat)
  | slti (rt rs : Gpr) (immediate : Nat)
  | sltiu (rt rs : Gpr) (immediate : Nat)
  | lui (rt : Gpr) (immediate : Nat)
  | load (size : Nat) (rt base : Gpr) (offset : Nat)
  | store (size : Nat) (rt base : Gpr) (offset : Nat)
  | beq (rs rt : Gpr) (offset : Nat)
  | bne (rs rt : Gpr) (offset : Nat)
  | blez (rs : Gpr) (offset : Nat)
  | bgtz (rs : Gpr) (offset : Nat)
  | j (index : Nat)
  | jal (index : Nat)
deriving DecidableEq, Repr

/-!
## Encoding
-/

section Encoding

variable (word : Nat)

def opcode : Nat := word / 2 ^ 26 % 2 ^ 6

def rs : Gpr := Fin.ofNat 32 (word / 2 ^ 21)

def rt : Gpr := Fin.ofNat 32 (word / 2 ^ 16)

def rd : Gpr := Fin.ofNat 32 (word / 2 ^ 11)

def sa : Nat := word / 2 ^ 6 % 2 ^ 5

def function : Nat := word % 2 ^ 6

def immediate : Nat := word % 2 ^ 16

def index : Nat := word % 2 ^ 26

def decodeSpecial : Option Instruction :=
  match function word with
  | 0x21 => some (.addu (rd word) (rs word) (rt word))
  | 0x24 => some (.and (rd word) (rs word) (rt word))
  | 0x25 => some (.or (rd word) (rs word) (rt word))
  | 0x27 => some (.nor (rd word) (rs word) (rt word))
  | 0x2a => some (.slt (rd word) (rs word) (rt word))
  | 0x2b => some (.sltu (rd word) (rs word) (rt word))
  | 0x00 => some (.sll (rd word) (rt word) (sa word))
  | 0x02 => some (.srl (rd word) (rt word) (sa word))
  | 0x08 => some (.jr (rs word))
  | _ => none

def decode : Option Instruction :=
  match opcode word with
  | 0x00 => decodeSpecial word
  | 0x02 => some (.j (index word))
  | 0x03 => some (.jal (index word))
  | 0x04 => some (.beq (rs word) (rt word) (immediate word))
  | 0x05 => some (.bne (rs word) (rt word) (immediate word))
  | 0x06 => some (.blez (rs word) (immediate word))
  | 0x07 => some (.bgtz (rs word) (immediate word))
  | 0x09 => some (.addiu (rt word) (rs word) (immediate word))
  | 0x0a => some (.slti (rt word) (rs word) (immediate word))
  | 0x0b => some (.sltiu (rt word) (rs word) (immediate word))
  | 0x0c => some (.andi (rt word) (rs word) (immediate word))
  | 0x0d => some (.ori (rt word) (rs word) (immediate word))
  | 0x0f => some (.lui (rt word) (immediate word))
  | 0x23 => some (.load 4 (rt word) (rs word) (immediate word))
  | 0x24 => some (.load 1 (rt word) (rs word) (immediate word))
  | 0x25 => some (.load 2 (rt word) (rs word) (immediate word))
  | 0x28 => some (.store 1 (rt word) (rs word) (immediate word))
  | 0x29 => some (.store 2 (rt word) (rs word) (immediate word))
  | 0x2b => some (.store 4 (rt word) (rs word) (immediate word))
  | _ => none

end Encoding

/-!
## Execution
-/

namespace State

/-- The state in which the instruction behind this one starts. -/
def advance (s : State) : State :=
  { s with
    pc := s.pending.getD ((s.pc + 4) % 2 ^ 32)
    pending := none }

def write (s : State) (r : Gpr) (value : Nat) : State :=
  if r = 0 then s else { s with registers := Function.update s.registers r value }

/-- Branch behind the delay slot. -/
def branch (s : State) (target : Nat) : State := { s with pending := some target }

def byte (s : State) (address : Nat) : Nat := (s.memory (address % 2 ^ 32)).getD 0

/-- The `size` bytes from an address on, most significant first. -/
def bytes (s : State) (address size : Nat) : Nat :=
  BigEndian.value 256 (fun i => s.byte (address + i)) size

def putBytes (s : State) (address size value : Nat) : State :=
  { s with
    memory := fun b =>
      if b < 2 ^ 32 ∧ wrap (b - address) < size then
        some (BigEndian.digit 256 size value (wrap (b - address)))
      else s.memory b }

def effective (s : State) (base : Gpr) (offset : Nat) : Nat :=
  wrap (s.registers base + signed 16 offset)

def branchTarget (s : State) (offset : Nat) : Nat := wrap (s.pc + 4 + 4 * signed 16 offset)

/-- The target of a jump in the 256 MB region of the delay slot. -/
def jumpTarget (s : State) (index : Nat) : Nat :=
  (s.pc + 4) % 2 ^ 32 / 2 ^ 28 * 2 ^ 28 + 4 * index

end State

def execute (instruction : Instruction) (s : State) : State :=
  let next := s.advance
  match instruction with
  | .addu rd rs rt => next.write rd (wrap (s.registers rs + s.registers rt))
  | .and rd rs rt => next.write rd (s.registers rs &&& s.registers rt)
  | .or rd rs rt => next.write rd (s.registers rs ||| s.registers rt)
  | .nor rd rs rt => next.write rd (2 ^ 32 - 1 - (s.registers rs ||| s.registers rt))
  | .slt rd rs rt =>
      next.write rd (if signed 32 (s.registers rs) < signed 32 (s.registers rt) then 1 else 0)
  | .sltu rd rs rt => next.write rd (if s.registers rs < s.registers rt then 1 else 0)
  | .sll rd rt sa => next.write rd (wrap (s.registers rt * 2 ^ sa))
  | .srl rd rt sa => next.write rd (s.registers rt / 2 ^ sa)
  | .jr rs => next.branch (s.registers rs)
  | .addiu rt rs immediate =>
      next.write rt (wrap (s.registers rs + signed 16 immediate))
  | .andi rt rs immediate => next.write rt (s.registers rs &&& immediate)
  | .ori rt rs immediate => next.write rt (s.registers rs ||| immediate)
  | .slti rt rs immediate =>
      next.write rt (if signed 32 (s.registers rs) < signed 16 immediate then 1 else 0)
  | .sltiu rt rs immediate =>
      next.write rt (if s.registers rs < wrap (signed 16 immediate) then 1 else 0)
  | .lui rt immediate => next.write rt (immediate * 2 ^ 16)
  | .load size rt base offset => next.write rt (s.bytes (s.effective base offset) size)
  | .store size rt base offset =>
      next.putBytes (s.effective base offset) size (s.registers rt)
  | .beq rs rt offset =>
      if s.registers rs = s.registers rt then next.branch (s.branchTarget offset) else next
  | .bne rs rt offset =>
      if s.registers rs ≠ s.registers rt then next.branch (s.branchTarget offset) else next
  | .blez rs offset =>
      if signed 32 (s.registers rs) ≤ 0 then next.branch (s.branchTarget offset) else next
  | .bgtz rs offset =>
      if 0 < signed 32 (s.registers rs) then next.branch (s.branchTarget offset) else next
  | .j index => next.branch (s.jumpTarget index)
  | .jal index => (next.write 31 (wrap (s.pc + 8))).branch (s.jumpTarget index)

end Isa

end PipeSim
