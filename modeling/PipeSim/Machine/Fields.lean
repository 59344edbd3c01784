import PipeSim.Machine.Registers

/-!
# Instruction fields and operands as integers

The bit operations of the decoder compute quotients and remainders of the instruction
word, and the sign extension of an immediate is its value as a signed number.
-/

namespace PipeSim

theorem toNat_extractBits (word : Word) {start stop : Nat} (h : start - stop + 1 < 32) :
    (extractBits word start stop).toNat = word.toNat / 2 ^ stop % 2 ^ (start - stop + 1) := by
  have hpos : 0 < 2 ^ (start - stop + 1) := Nat.two_pow_pos _
  have hlt : 2 ^ (start - stop + 1) < 2 ^ 32 := Nat.pow_lt_pow_right (by decide) h
  have hmask : ((1#32 <<< (start - stop + 1)) - 1#32).toNat = 2 ^ (start - stop + 1) - 1 := by
    have hone : (1#32 <<< (start - stop + 1)).toNat = 2 ^ (start - stop + 1) := by
      rw [BitVec.toNat_shiftLeft, Nat.shiftLeft_eq]
      change 1 * _ % _ = _
      rw [Nat.one_mul, Nat.mod_eq_of_lt hlt]
    have hle : 1#32 ≤ 1#32 <<< (start - stop + 1) := by
      rw [BitVec.le_def, hone]
      exact hpos
    rw [BitVec.toNat_sub_of_le hle, hone]
    rfl
  unfold extractBits
  dsimp only
  rw [BitVec.toNat_and, hmask, BitVec.toNat_ushiftRight, Nat.and_two_pow_sub_one_eq_mod,
    Nat.shiftRight_eq_div_pow]

theorem signExt_eq (smol : BitVec 16) : signExt smol = smol.signExtend 32 := by
  have hmask : 0x8000#16 = BitVec.twoPow 16 15 := by
    decide
  have hmsb : smol.msb = smol.getLsbD 15 := BitVec.msb_eq_getLsbD_last smol
  unfold signExt
  dsimp only
  rw [hmask, BitVec.and_twoPow]
  apply BitVec.eq_of_getLsbD_eq
  intro i hi
  have hextension : (0xffff0000#32).getLsbD i = decide (16 ≤ i) := by
    interval_cases i <;> rfl
  rw [BitVec.getLsbD_signExtend, hmsb]
  by_cases hlow : i < 16
  · have hoff : ¬ 16 ≤ i := by
      lia
    cases smol.getLsbD 15 with
    | true =>
        rw [if_pos rfl, if_pos (by decide), BitVec.getLsbD_xor, hextension,
          BitVec.getLsbD_setWidth]
        simp [hi, hlow, hoff]
    | false =>
        simp [hi, hlow]
  · have hon : 16 ≤ i := by
      lia
    have hhigh : smol.getLsbD i = false := BitVec.getLsbD_of_ge smol i hon
    cases smol.getLsbD 15 with
    | true =>
        rw [if_pos rfl, if_pos (by decide), BitVec.getLsbD_xor, hextension,
          BitVec.getLsbD_setWidth, hhigh]
        simp [hi, hlow, hon]
    | false =>
        simp [hi, hlow, hhigh]

theorem toInt_signExt (smol : BitVec 16) : (signExt smol).toInt = smol.toInt := by
  rw [signExt_eq]
  exact BitVec.toInt_signExtend_of_le (by decide)

def immOf (word : Word) : BitVec 16 := (extractBits word 15 0).setWidth 16

/-!
## Operands
-/

namespace Emulator

/-- The contents of a register, zero for `$0`. -/
def operand (e : Emulator) (r : RegId) : Word := if r = 0#5 then 0#32 else e.registers r

@[simp] theorem fetch_registers (e : Emulator) (r : RegId) :
    e.fetch.2.registers r = e.operand r := by
  unfold operand
  change Function.update e.registers 0#5 0#32 r = _
  by_cases hr : r = 0#5
  · rw [if_pos hr, hr, Function.update_self]
  · rw [if_neg hr, Function.update_of_ne hr]

theorem operand_of_ne {e : Emulator} {r : RegId} (hr : r ≠ 0#5) :
    e.operand r = e.registers r := if_neg hr

theorem fetch_reg (e : Emulator) (field : Word) :
    e.fetch.2.reg field = e.operand (regOf field) := fetch_registers e _

theorem executeInstruction_of_op {e : Emulator} {op : OpId}
    (h : opOf e.fetchedWord = some op) :
    e.executeInstruction = execute e.decoded e.fetch.2 := by
  apply executeInstruction_of_not_halt
  intro hhalt
  rw [hhalt] at h
  exact absurd h (by decide +revert)

end Emulator

end PipeSim
