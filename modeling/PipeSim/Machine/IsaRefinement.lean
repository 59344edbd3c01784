import PipeSim.Machine.FailedAccess
import PipeSim.Machine.Isa
import PipeSim.Machine.WriteHistory

/-!
# The emulator follows the instruction set

Read as numbers, the state behind an executed instruction is the one that the instruction
set over integers prescribes.
-/

namespace PipeSim

open Library

/-!
## Words as numbers
-/

section Words

variable (a b word : Word)

theorem ofInt_toNat : BitVec.ofInt 32 (a.toNat : Int) = a := by
  rw [BitVec.ofInt_natCast, BitVec.ofNat_toNat, BitVec.setWidth_eq]

theorem wrap_eq (z : Int) : Isa.wrap z = (BitVec.ofInt 32 z).toNat :=
  (BitVec.toNat_ofInt z).symm

theorem signed_toNat {n : Nat} (x : BitVec n) : Isa.signed n x.toNat = x.toInt :=
  (BitVec.toInt_eq_toNat_cond x).symm

theorem toNat_immOf : (immOf word).toNat = Isa.immediate word.toNat := by
  unfold immOf Isa.immediate
  rw [BitVec.toNat_setWidth, toNat_extractBits word (by decide), Nat.pow_zero, Nat.div_one]
  lia

theorem toInt_immOf : (immOf word).toInt = Isa.signed 16 (Isa.immediate word.toNat) := by
  rw [← toNat_immOf, signed_toNat]

theorem toNat_add : (a + b).toNat = Isa.wrap (a.toNat + b.toNat) := by
  rw [wrap_eq, BitVec.ofInt_add, ofInt_toNat, ofInt_toNat]

theorem wrap_mul_two_pow (n k : Nat) : Isa.wrap (n * 2 ^ k) = n * 2 ^ k % 2 ^ 32 := by
  unfold Isa.wrap
  norm_cast

theorem toNat_ofNat_sub {n : Nat} (h : n < 2 ^ 32) :
    (BitVec.ofNat 32 n - a).toNat = Isa.wrap (n - a.toNat) := by
  have hn : (BitVec.ofNat 32 n).toNat = n := Nat.mod_eq_of_lt h
  have hlt := a.isLt
  rw [BitVec.toNat_sub, hn]
  unfold Isa.wrap
  lia

theorem toNat_add_signExt :
    (a + signExt (immOf word)).toNat =
      Isa.wrap (a.toNat + Isa.signed 16 (Isa.immediate word.toNat)) := by
  rw [wrap_eq, BitVec.ofInt_add, ofInt_toNat, ← toInt_immOf, ← toInt_signExt, BitVec.ofInt_toInt]

theorem toNat_signExt :
    (signExt (immOf word)).toNat = Isa.wrap (Isa.signed 16 (Isa.immediate word.toNat)) := by
  rw [wrap_eq, ← toInt_immOf, ← toInt_signExt, BitVec.ofInt_toInt]

theorem toNat_branchTarget :
    (a + 4#32 + signExt (immOf word) <<< 2).toNat =
      Isa.wrap (a.toNat + 4 + 4 * Isa.signed 16 (Isa.immediate word.toNat)) := by
  have hshift : signExt (immOf word) <<< 2 = 4#32 * signExt (immOf word) := by
    rw [BitVec.shiftLeft_eq_mul_twoPow, BitVec.mul_comm]
    rfl
  rw [wrap_eq, BitVec.ofInt_add, BitVec.ofInt_add, BitVec.ofInt_mul, ofInt_toNat, ← toInt_immOf,
    ← toInt_signExt, BitVec.ofInt_toInt, hshift]
  rfl

theorem toNat_link : (a + 4#32 + 4#32).toNat = Isa.wrap (a.toNat + 8) := by
  have hsum : a + 4#32 + 4#32 = a + 8#32 := by
    rw [BitVec.add_assoc]
    rfl
  rw [wrap_eq, BitVec.ofInt_add, ofInt_toNat, hsum]
  rfl

theorem toNat_zeroExt : ((immOf word).setWidth 32).toNat = Isa.immediate word.toNat := by
  rw [BitVec.toNat_setWidth, toNat_immOf]
  unfold Isa.immediate
  lia

theorem xor_eq_add {i m n : Nat} (h : n < 2 ^ i) : (2 ^ i * m) ^^^ n = 2 ^ i * m + n := by
  apply Nat.eq_of_testBit_eq
  intro j
  rw [Nat.testBit_xor, Nat.testBit_two_pow_mul_add m h, Nat.testBit_two_pow_mul]
  by_cases hj : j < i
  · rw [if_pos hj, decide_eq_false (by lia), Bool.false_and, Bool.false_xor]
  · have hpow : 2 ^ i ≤ 2 ^ j := Nat.pow_le_pow_right (by decide) (by lia)
    rw [if_neg hj, decide_eq_true (by lia), Nat.testBit_lt_two_pow (Nat.lt_of_lt_of_le h hpow),
      Bool.true_and, Bool.xor_false]

theorem toNat_and_region : (a &&& 0xf0000000#32).toNat = 2 ^ 28 * (a.toNat / 2 ^ 28) := by
  have hshift : a &&& 0xf0000000#32 = (a >>> 28) <<< 28 := by
    apply BitVec.eq_of_getLsbD_eq
    intro i hi
    have hmask : (0xf0000000#32).getLsbD i = decide (28 ≤ i) := by
      interval_cases i <;> rfl
    rw [BitVec.getLsbD_and, hmask, BitVec.getLsbD_shiftLeft, BitVec.getLsbD_ushiftRight]
    by_cases hlow : i < 28
    · have hnot : ¬ 28 ≤ i := by
        lia
      simp [hlow, hnot]
    · have hsum : 28 + (i - 28) = i := by
        lia
      have hle : 28 ≤ i := by
        lia
      simp [hlow, hi, hsum, hle]
  have hlt := a.isLt
  rw [hshift, BitVec.toNat_shiftLeft, BitVec.toNat_ushiftRight, Nat.shiftLeft_eq,
    Nat.shiftRight_eq_div_pow]
  lia

theorem and_sign_eq_zero_iff : a &&& 0x80000000#32 = 0#32 <-> 0 ≤ a.toInt := by
  have hmask : 0x80000000#32 = BitVec.twoPow 32 31 := by
    decide
  have hsign : a.msb = decide (a.toInt < 0) := BitVec.msb_eq_toInt
  rw [BitVec.msb_eq_getLsbD_last] at hsign
  rw [hmask, BitVec.and_twoPow, hsign]
  by_cases hneg : a.toInt < 0
  · rw [decide_eq_true hneg]
    exact iff_of_false (by decide) (by lia)
  · rw [decide_eq_false hneg]
    exact iff_of_true rfl (by lia)

theorem toInt_eq_zero_iff : a.toInt = 0 <-> a = 0#32 := by
  rw [← BitVec.toInt_inj]
  rfl

theorem blez_test_iff : (a == 0#32 || a &&& 0x80000000#32 != 0#32) = true <-> a.toInt ≤ 0 := by
  rw [Bool.or_eq_true, beq_iff_eq, bne_iff_ne, ne_eq, and_sign_eq_zero_iff, ← toInt_eq_zero_iff]
  lia

theorem bgtz_test_iff : (a &&& 0x80000000#32 == 0#32 && a != 0#32) = true <-> 0 < a.toInt := by
  rw [Bool.and_eq_true, beq_iff_eq, bne_iff_ne, ne_eq, and_sign_eq_zero_iff, ← toInt_eq_zero_iff]
  lia

end Words

/-!
## Decoding
-/

def register (r : Isa.Gpr) : RegId := BitVec.ofNat 5 r.val

theorem register_inj {q r : Isa.Gpr} : register q = register r <-> q = r := by
  unfold register
  rw [← BitVec.toNat_inj, BitVec.toNat_ofNat, BitVec.toNat_ofNat, Fin.ext_iff]
  lia

theorem register_ofNat (n : Nat) : register (Fin.ofNat 32 n) = BitVec.ofNat 5 n := by
  unfold register
  apply BitVec.eq_of_toNat_eq
  rw [BitVec.toNat_ofNat, BitVec.toNat_ofNat, Fin.val_ofNat, Nat.mod_mod]

section Decoding

variable (word : Word)

theorem regOf_extractBits {start stop : Nat} (h : start - stop = 4) :
    regOf (extractBits word start stop) = BitVec.ofNat 5 (word.toNat / 2 ^ stop) := by
  unfold regOf
  apply BitVec.eq_of_toNat_eq
  rw [BitVec.toNat_setWidth, toNat_extractBits word (by lia), h, BitVec.toNat_ofNat, Nat.mod_mod]

theorem register_rs : register (Isa.rs word.toNat) = rsOf word :=
  (register_ofNat _).trans (regOf_extractBits word rfl).symm

theorem register_rt : register (Isa.rt word.toNat) = rtOf word :=
  (register_ofNat _).trans (regOf_extractBits word rfl).symm

theorem register_rd : register (Isa.rd word.toNat) = rdOf word :=
  (register_ofNat _).trans (regOf_extractBits word rfl).symm

variable {word}

theorem opcode_of_opOf {op : OpId} (h : opOf word = some op) :
    Isa.opcode word.toNat = op.code.toNat := by
  rw [OpId.ofCode?_eq_some.mp h, toNat_extractBits word (by decide)]
  rfl

theorem function_of_functOf {f : FunId} (h : functOf word = some f) :
    Isa.function word.toNat = f.code.toNat := by
  rw [FunId.ofCode?_eq_some.mp h, toNat_extractBits word (by decide), Nat.pow_zero, Nat.div_one]
  rfl

end Decoding

/-!
## The state as numbers
-/

namespace Emulator

def isaState (e : Emulator) : Isa.State where
  registers r := (e.operand (register r)).toNat
  memory b := if b < 2 ^ 32 then e.memory.contents (BitVec.ofNat 32 b) else none
  pc := e.PC.toNat
  pending := if e.encounteredBranch then some e.savedBranch.toNat else none

section Updates

variable (e : Emulator)

theorem isaState_byte (address : Nat) :
    e.isaState.byte address = (e.memory.contents (BitVec.ofNat 32 address)).getD 0 := by
  have hmod : BitVec.ofNat 32 (address % 2 ^ 32) = BitVec.ofNat 32 address := by
    apply BitVec.eq_of_toNat_eq
    rw [BitVec.toNat_ofNat, BitVec.toNat_ofNat, Nat.mod_mod]
  unfold Isa.State.byte isaState
  dsimp only
  rw [if_pos (Nat.mod_lt _ (by decide)), hmod]

theorem operand_fetch (r : RegId) : e.fetch.2.operand r = e.operand r := by
  by_cases hr : r = 0#5
  · rw [hr]
    rfl
  · rw [operand_of_ne hr, fetch_registers]

theorem isaState_fetch : e.fetch.2.isaState = e.isaState.advance := by
  unfold isaState
  simp only [operand_fetch]
  ext1
  · rfl
  · rfl
  · change e.nextPC.toNat = _
    unfold nextPC Isa.State.advance
    cases e.encounteredBranch with
    | true =>
        rfl
    | false =>
        rfl
  · rfl

section Writes

variable {field : Word} {r : Isa.Gpr}

theorem operand_setReg (hr : register r = regOf field) (value : Word) (q : Isa.Gpr) :
    (e.setReg field value).operand (register q) =
      if q = r ∧ q ≠ 0 then value else e.operand (register q) := by
  have hzero : register q = 0#5 <-> q = 0 := register_inj (r := 0)
  unfold operand
  rw [setReg_registers, ← hr]
  by_cases h : q = 0
  · rw [if_pos (hzero.mpr h), if_neg (fun hq => hq.2 h), if_pos (hzero.mpr h)]
  · have hne : register q ≠ 0#5 := fun hq => h (hzero.mp hq)
    rw [if_neg hne, if_neg hne]
    by_cases hq : q = r
    · rw [if_pos ⟨hq, h⟩, hq, Function.update_self]
    · rw [if_neg (fun hqr => hq hqr.1), Function.update_of_ne (fun hqr => hq (register_inj.mp hqr))]

theorem isaState_setReg (hr : register r = regOf field) (value : Word) :
    (e.setReg field value).isaState = e.isaState.write r value.toNat := by
  have hregisters : (e.setReg field value).isaState.registers =
      (e.isaState.write r value.toNat).registers := by
    funext q
    change ((e.setReg field value).operand (register q)).toNat = _
    rw [operand_setReg e hr]
    unfold Isa.State.write
    by_cases h : r = 0
    · rw [if_pos h, if_neg (fun hq => hq.2 (hq.1.trans h))]
      rfl
    · rw [if_neg h]
      dsimp only
      by_cases hq : q = r
      · rw [if_pos ⟨hq, by rw [hq]; exact h⟩, hq, Function.update_self]
      · rw [if_neg (fun hqr => hq hqr.1), Function.update_of_ne hq]
        rfl
  have hothers : (e.isaState.write r value.toNat).memory = e.isaState.memory ∧
      (e.isaState.write r value.toNat).pc = e.isaState.pc ∧
      (e.isaState.write r value.toNat).pending = e.isaState.pending := by
    unfold Isa.State.write
    split
    · exact ⟨rfl, rfl, rfl⟩
    · exact ⟨rfl, rfl, rfl⟩
  exact Isa.State.ext hregisters hothers.1.symm hothers.2.1.symm hothers.2.2.symm

end Writes

theorem isaState_takeBranch (target : Word) :
    (e.takeBranch target).isaState = e.isaState.branch target.toNat := rfl

end Updates

/-!
## Classes of instructions
-/

section Classes

variable {e : Emulator} {info : InstructionInfo}

theorem refines_write {field value : Word} {r : Isa.Gpr} {n : Nat}
    (h : e.executeInstruction = (info, e.fetch.2.setReg field value))
    (hr : register r = regOf field) (hvalue : value.toNat = n) :
    e.executeInstruction.2.isaState = e.isaState.advance.write r n := by
  rw [h, isaState_setReg _ hr, isaState_fetch, hvalue]

/-- Outside a delay slot the program counter behind the fetch is the address of the delay
slot. -/
theorem fetch_PC (hslot : e.encounteredBranch = false) : e.fetch.2.PC = e.PC + 4#32 := by
  change e.nextPC = _
  unfold nextPC
  rw [hslot]
  rfl

theorem refines_branchIf {taken : Bool} {P : Prop} [Decidable P]
    (h : e.executeInstruction = branchIf e.decoded e.fetch.2 taken)
    (hslot : e.encounteredBranch = false) (htaken : taken = true <-> P) :
    e.executeInstruction.2.isaState =
      if P then
        e.isaState.advance.branch
          (e.isaState.branchTarget (Isa.immediate e.fetchedWord.toNat))
      else e.isaState.advance := by
  rw [h]
  unfold branchIf
  dsimp only
  rw [fetch_PC hslot, decoded_branchAddr, ← immOf]
  by_cases hP : P
  · rw [if_pos hP, htaken.mpr hP, if_pos rfl, isaState_takeBranch, isaState_fetch,
      toNat_branchTarget]
    rfl
  · rw [if_neg hP, if_neg (fun ht => hP (htaken.mp ht)), isaState_fetch]

theorem toNat_jumpAddr (hslot : e.encounteredBranch = false) :
    e.decoded.jumpAddr.toNat = e.isaState.jumpTarget (Isa.index e.fetchedWord.toNat) := by
  have hjump : e.decoded.jumpAddr =
      (e.fetch.2.PC &&& 0xf0000000#32) ^^^ (extractBits e.fetchedWord 25 0 <<< 2) := rfl
  have hindex : (extractBits e.fetchedWord 25 0 <<< 2).toNat =
      4 * Isa.index e.fetchedWord.toNat := by
    unfold Isa.index
    rw [BitVec.toNat_shiftLeft, toNat_extractBits _ (by decide), Nat.shiftLeft_eq, Nat.pow_zero,
      Nat.div_one]
    lia
  have hlt : 4 * Isa.index e.fetchedWord.toNat < 2 ^ 28 := by
    unfold Isa.index
    lia
  unfold Isa.State.jumpTarget
  rw [hjump, fetch_PC hslot, BitVec.toNat_xor, toNat_and_region, hindex, xor_eq_add hlt,
    BitVec.toNat_add, Nat.mul_comm]
  rfl

theorem toNat_dataAddress :
    e.dataAddress.toNat =
      e.isaState.effective (Isa.rs e.fetchedWord.toNat) (Isa.immediate e.fetchedWord.toNat) := by
  unfold dataAddress Isa.State.effective
  rw [toNat_add_signExt, ← register_rs]
  rfl

theorem refines_load {op : OpId} {size : Word} (hm : e.memory.numEntries < 2 ^ 32)
    (hop : opOf e.fetchedWord = some op) (hload : op.loadSize? = some size)
    (hinside : e.memory.Inside e.dataAddress size) :
    e.executeInstruction.2.isaState =
      e.isaState.advance.write (Isa.rt e.fetchedWord.toNat)
        (e.isaState.bytes
          (e.isaState.effective (Isa.rs e.fetchedWord.toNat)
            (Isa.immediate e.fetchedWord.toNat)) size.toNat) := by
  have hread :
      (e.memory.getMemValue e.dataAddress (e.operand (rtOf e.fetchedWord)) size).1 = 0 := by
    rw [MemoryStore.getMemValue_code hm, MemoryStore.accessCode_eq_zero_iff]
    exact ⟨loadSize?_valid hload, hinside⟩
  have hrt : register (Isa.rt e.fetchedWord.toNat) = regOf e.decoded.rt :=
    register_rt e.fetchedWord
  rw [executeInstruction_of_load hop hload, isaState_setReg _ hrt, isaState_fetch,
    MemoryStore.getMemValue_contents hm hread, ← toNat_dataAddress]
  congr 1
  apply BigEndian.value_congr
  intro i _
  rw [isaState_byte, BitVec.ofNat_add, BitVec.ofNat_toNat, BitVec.setWidth_eq]

theorem refines_store {op : OpId} {size : Word} (hm : e.memory.numEntries < 2 ^ 32)
    (hop : opOf e.fetchedWord = some op) (hstore : op.storeSize? = some size)
    (hinside : e.memory.Inside e.dataAddress size) :
    e.executeInstruction.2.isaState =
      e.isaState.advance.putBytes
        (e.isaState.effective (Isa.rs e.fetchedWord.toNat)
          (Isa.immediate e.fetchedWord.toNat)) size.toNat
        (e.isaState.registers (Isa.rt e.fetchedWord.toNat)) := by
  have hwrite : (e.memory.setMemValue e.dataAddress
      (storedValue op (e.operand (rtOf e.fetchedWord))) size).1 = 0 := by
    rw [MemoryStore.setMemValue_code hm, MemoryStore.accessCode_eq_zero_iff]
    exact ⟨storeSize?_valid hstore, hinside⟩
  rw [executeInstruction_of_store hop hstore, ← isaState_fetch, ← toNat_dataAddress]
  ext1
  · rfl
  · funext b
    unfold isaState Isa.State.putBytes
    dsimp only
    by_cases hb : b < 2 ^ 32
    · have hdistance := toNat_ofNat_sub e.dataAddress hb
      rw [if_pos hb, if_pos hb, MemoryStore.contents_setMemValue hm hwrite, hdistance]
      by_cases hcovered : Isa.wrap (b - e.dataAddress.toNat) < size.toNat
      · rw [if_pos hcovered, if_pos ⟨hb, hcovered⟩, digit_storedValue hstore _ hcovered,
          register_rt]
      · rw [if_neg hcovered, if_neg (fun h => hcovered h.2)]
        rfl
    · rw [if_neg hb, if_neg hb, if_neg (fun h => hb h.1)]
  · rfl
  · rfl

end Classes

/-!
## Instructions
-/

/-- A supported instruction other than ADD, ADDI, SUB and SUBU. -/
def NonTrapping (word : Word) : Prop :=
  match opOf word with
  | none | some .addi => False
  | some .zero =>
      match functOf word with
      | none | some .add | some .sub | some .subu => False
      | some _ => True
  | some _ => True

def ControlTransfer (word : Word) : Prop :=
  match opOf word with
  | some .zero => functOf word = some .jr
  | some .beq | some .bne | some .blez | some .bgtz | some .j | some .jal => True
  | _ => False

def DataAccessInside (e : Emulator) : Prop :=
  forall op size, opOf e.fetchedWord = some op ->
    op.loadSize? = some size ∨ op.storeSize? = some size ->
      e.memory.Inside e.dataAddress size

/-- The instruction at the program counter does what the instruction set says. -/
def FollowsIsa (e : Emulator) : Prop :=
  exists instruction, Isa.decode e.fetchedWord.toNat = some instruction ∧
    e.executeInstruction.2.isaState = Isa.execute instruction e.isaState

section Instructions

variable {e : Emulator}

theorem registers_rs : e.isaState.registers (Isa.rs e.fetchedWord.toNat) =
    (e.operand (rsOf e.fetchedWord)).toNat := by
  rw [← register_rs]
  rfl

theorem registers_rt : e.isaState.registers (Isa.rt e.fetchedWord.toNat) =
    (e.operand (rtOf e.fetchedWord)).toNat := by
  rw [← register_rt]
  rfl

theorem toNat_ite {P Q : Prop} [Decidable P] [Decidable Q] (h : P <-> Q) :
    (if P then 1#32 else 0#32).toNat = if Q then 1 else 0 := by
  by_cases hP : P
  · rw [if_pos hP, if_pos (h.mp hP)]
    rfl
  · rw [if_neg hP, if_neg (fun hQ => hP (h.mpr hQ))]
    rfl

theorem toNat_decoded_shamt : e.decoded.shamt.toNat = Isa.sa e.fetchedWord.toNat := by
  rw [decoded_shamt, toNat_extractBits _ (by decide)]
  rfl

theorem special_followsIsa (hop : opOf e.fetchedWord = some .zero)
    (hsupported : NonTrapping e.fetchedWord) : e.FollowsIsa := by
  have hdecode : Isa.decode e.fetchedWord.toNat = Isa.decodeSpecial e.fetchedWord.toNat := by
    unfold Isa.decode
    rw [opcode_of_opOf hop]
    rfl
  have hrd : register (Isa.rd e.fetchedWord.toNat) = regOf e.decoded.rd :=
    register_rd e.fetchedWord
  have h := executeInstruction_of_op hop
  unfold execute at h
  rw [decoded_op, hop] at h
  dsimp only at h
  unfold executeOpZero at h
  rw [decoded_fun, fetch_reg, fetch_reg] at h
  unfold NonTrapping at hsupported
  rw [hop] at hsupported
  dsimp only at hsupported
  unfold FollowsIsa
  rw [hdecode]
  unfold Isa.decodeSpecial
  cases hf : functOf e.fetchedWord with
  | none =>
      rw [hf] at hsupported
      exact hsupported.elim
  | some f =>
      rw [hf] at hsupported h
      rw [function_of_functOf hf]
      cases f with
      | add | sub | subu =>
          exact hsupported.elim
      | addu =>
          refine ⟨_, rfl, refines_write h hrd ?_⟩
          rw [registers_rs, registers_rt]
          exact toNat_add _ _
      | and =>
          refine ⟨_, rfl, refines_write h hrd ?_⟩
          rw [registers_rs, registers_rt]
          exact BitVec.toNat_and _ _
      | jr =>
          refine ⟨_, rfl, ?_⟩
          rw [h]
          dsimp only
          rw [isaState_takeBranch, isaState_fetch]
          unfold Isa.execute
          dsimp only
          rw [registers_rs]
          rfl
      | nor =>
          refine ⟨_, rfl, refines_write h hrd ?_⟩
          rw [registers_rs, registers_rt]
          exact BitVec.toNat_not
      | or =>
          refine ⟨_, rfl, refines_write h hrd ?_⟩
          rw [registers_rs, registers_rt]
          exact BitVec.toNat_or _ _
      | slt =>
          refine ⟨_, rfl, refines_write h hrd ?_⟩
          rw [registers_rs, registers_rt, signed_toNat, signed_toNat]
          exact toNat_ite Iff.rfl
      | sltu =>
          refine ⟨_, rfl, refines_write h hrd ?_⟩
          rw [registers_rs, registers_rt]
          exact toNat_ite Iff.rfl
      | sll =>
          refine ⟨_, rfl, refines_write h hrd ?_⟩
          rw [registers_rt, ← toNat_decoded_shamt, wrap_mul_two_pow, BitVec.shiftLeft_eq',
            BitVec.toNat_shiftLeft, Nat.shiftLeft_eq]
          rfl
      | srl =>
          refine ⟨_, rfl, refines_write h hrd ?_⟩
          rw [registers_rt, ← toNat_decoded_shamt, BitVec.ushiftRight_eq',
            BitVec.toNat_ushiftRight, Nat.shiftRight_eq_div_pow]
          rfl

theorem op_followsIsa (hm : e.memory.numEntries < 2 ^ 32) {op : OpId}
    (hop : opOf e.fetchedWord = some op) (hzero : op ≠ .zero) (haddi : op ≠ .addi)
    (haccess : e.DataAccessInside)
    (hslot : ControlTransfer e.fetchedWord -> e.encounteredBranch = false) : e.FollowsIsa := by
  have hrt : register (Isa.rt e.fetchedWord.toNat) = regOf e.decoded.rt :=
    register_rt e.fetchedWord
  have hinside := haccess op
  have h := executeInstruction_of_op hop
  unfold execute at h
  rw [decoded_op, hop, fetch_reg, fetch_reg] at h
  unfold ControlTransfer at hslot
  rw [hop] at hslot
  unfold FollowsIsa Isa.decode
  rw [opcode_of_opOf hop]
  cases op with
  | zero =>
      exact absurd rfl hzero
  | addi =>
      exact absurd rfl haddi
  | addiu =>
      refine ⟨_, rfl, refines_write h hrt ?_⟩
      rw [registers_rs]
      exact toNat_add_signExt _ _
  | andi =>
      refine ⟨_, rfl, refines_write h hrt ?_⟩
      rw [registers_rs, ← toNat_zeroExt]
      exact BitVec.toNat_and _ _
  | ori =>
      refine ⟨_, rfl, refines_write h hrt ?_⟩
      rw [registers_rs, ← toNat_zeroExt]
      exact BitVec.toNat_or _ _
  | slti =>
      refine ⟨_, rfl, refines_write h hrt ?_⟩
      rw [registers_rs, signed_toNat, ← toInt_immOf, ← toInt_signExt]
      exact toNat_ite Iff.rfl
  | sltiu =>
      refine ⟨_, rfl, refines_write h hrt ?_⟩
      rw [registers_rs, ← toNat_signExt]
      exact toNat_ite Iff.rfl
  | lui =>
      refine ⟨_, rfl, refines_write h hrt ?_⟩
      have hzeroExt : e.decoded.zeroExtImm.toNat = Isa.immediate e.fetchedWord.toNat :=
        toNat_zeroExt _
      rw [BitVec.toNat_shiftLeft, hzeroExt, Nat.shiftLeft_eq, Nat.mod_eq_of_lt]
      unfold Isa.immediate
      lia
  | lbu =>
      exact ⟨_, rfl, refines_load hm hop rfl (hinside _ hop (Or.inl rfl))⟩
  | lhu =>
      exact ⟨_, rfl, refines_load hm hop rfl (hinside _ hop (Or.inl rfl))⟩
  | lw =>
      exact ⟨_, rfl, refines_load hm hop rfl (hinside _ hop (Or.inl rfl))⟩
  | sb =>
      exact ⟨_, rfl, refines_store hm hop rfl (hinside _ hop (Or.inr rfl))⟩
  | sh =>
      exact ⟨_, rfl, refines_store hm hop rfl (hinside _ hop (Or.inr rfl))⟩
  | sw =>
      exact ⟨_, rfl, refines_store hm hop rfl (hinside _ hop (Or.inr rfl))⟩
  | beq =>
      refine ⟨_, rfl, refines_branchIf h (hslot trivial) ?_⟩
      rw [registers_rs, registers_rt, BitVec.toNat_inj]
      exact beq_iff_eq
  | bne =>
      refine ⟨_, rfl, refines_branchIf h (hslot trivial) ?_⟩
      rw [registers_rs, registers_rt, ne_eq, BitVec.toNat_inj]
      exact bne_iff_ne
  | blez =>
      refine ⟨_, rfl, refines_branchIf h (hslot trivial) ?_⟩
      rw [registers_rs, signed_toNat]
      exact blez_test_iff _
  | bgtz =>
      refine ⟨_, rfl, refines_branchIf h (hslot trivial) ?_⟩
      rw [registers_rs, signed_toNat]
      exact bgtz_test_iff _
  | j =>
      refine ⟨_, rfl, ?_⟩
      rw [h]
      dsimp only
      rw [isaState_takeBranch, isaState_fetch, toNat_jumpAddr (hslot trivial)]
      rfl
  | jal =>
      refine ⟨_, rfl, ?_⟩
      rw [h]
      dsimp only
      rw [isaState_takeBranch, isaState_setReg _ (show register 31 = regOf 31#32 from rfl),
        isaState_fetch, toNat_jumpAddr (hslot trivial), fetch_PC (hslot trivial), toNat_link]
      rfl

end Instructions

end Emulator

/-- Executing a supported instruction that cannot trap is what the instruction set over integers
prescribes, as long as its data access is inside the memory and it is no branch or jump in a
delay slot. -/
theorem executeInstruction_refines_isa (e : Emulator) (hm : e.memory.numEntries < 2 ^ 32)
    (hsupported : Emulator.NonTrapping e.fetchedWord) (haccess : e.DataAccessInside)
    (hslot : Emulator.ControlTransfer e.fetchedWord -> e.encounteredBranch = false) :
    exists instruction, Isa.decode e.fetchedWord.toNat = some instruction ∧
      e.executeInstruction.2.isaState = Isa.execute instruction e.isaState := by
  cases hop : opOf e.fetchedWord with
  | none =>
      unfold Emulator.NonTrapping at hsupported
      rw [hop] at hsupported
      exact hsupported.elim
  | some op =>
      by_cases hzero : op = .zero
      · subst hzero
        exact Emulator.special_followsIsa hop hsupported
      · refine Emulator.op_followsIsa hm hop hzero ?_ haccess hslot
        intro haddi
        unfold Emulator.NonTrapping at hsupported
        rw [hop, haddi] at hsupported
        exact hsupported

/-- `lhu $2, -2($1)`, which reads the last two bytes of the second word. -/
def loadHalfState : Emulator :=
  { Emulator.init (MemoryStore.ofImage (MemImage.ofWords [0x9422fffe#32, 0x12348765#32])) with
    registers := Function.update (fun _ => 0#32) 1#5 8#32 }

theorem executeInstruction_refines_isa_load :
    loadHalfState.executeInstruction.2.isaState =
      Isa.execute (.load 2 2 1 0xfffe) loadHalfState.isaState := by
  have hop : opOf loadHalfState.fetchedWord = some .lhu := by
    decide
  have hinside : loadHalfState.DataAccessInside := by
    intro op size hop' hsize
    rw [hop] at hop'
    cases hop'
    rcases hsize with hload | hstore
    · cases hload
      decide
    · cases hstore
  have hsupported : Emulator.NonTrapping loadHalfState.fetchedWord := by
    unfold Emulator.NonTrapping
    rw [hop]
    trivial
  rcases executeInstruction_refines_isa loadHalfState (by decide) hsupported hinside
    (fun _ => rfl) with ⟨instruction, hdecode, hexecute⟩
  have hload : Isa.decode loadHalfState.fetchedWord.toNat = some (.load 2 2 1 0xfffe) := by
    decide
  rw [hload] at hdecode
  cases hdecode
  exact hexecute

end PipeSim
