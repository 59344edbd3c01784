import PipeSim.Library.SignedInt
import PipeSim.Machine.Traps

/-!
# The signed arithmetic of the emulator

`executeInstruction` computes on `uint32_t` nearly everywhere, where sums and shifts wrap.
The exceptions are the masks of the decoder, the shift of the sign-extended immediate, and
the diagnostics and sign tests of ADD, SUBU and ADDI.  Here these expressions are evaluated
under the rules of the language for signed numbers.
-/

namespace PipeSim

open Library Library.Evaluated

namespace Evaluation

/-- `Emulator::extractBits`; the count of bits and the mask are signed. -/
def extractBits (instruction : Word) (start stop : Nat) : Evaluated Word := do
  let span ← SignedInt.sub (BitVec.ofNat 32 start) (BitVec.ofNat 32 stop)
  let bitsToExtract ← SignedInt.add span 1#32
  let power ← SignedInt.shiftLeft 1#32 bitsToExtract.toNat
  let mask ← SignedInt.sub power 1#32
  let clipped := instruction >>> stop
  return clipped &&& mask

def decode (info : InstructionInfo) (PC : Word) : Evaluated InstructionInfo := do
  let instruction := info.instruction
  let opcode ← extractBits instruction 31 26
  let rs ← extractBits instruction 25 21
  let rt ← extractBits instruction 20 16
  let rd ← extractBits instruction 15 11
  let shamt ← extractBits instruction 10 6
  let funct ← extractBits instruction 5 0
  let immediateBits ← extractBits instruction 15 0
  let immediate : BitVec 16 := immediateBits.setWidth 16
  let address ← extractBits instruction 25 0
  let signExtImm := signExt immediate
  let branchAddr ← SignedInt.shiftLeft signExtImm 2
  return { info with
    opcode := opcode
    rs := rs
    rt := rt
    rd := rd
    shamt := shamt
    funct := funct
    immediate := immediate
    address := address
    signExtImm := signExtImm
    zeroExtImm := immediate.setWidth 32
    branchAddr := branchAddr
    jumpAddr := (PC &&& 0xf0000000#32) ^^^ (address <<< 2) }

/-- `(p && f(x)) || (q && g(x))`, for two tests `f` and `g` of one signed number. -/
def eitherTest (p q : Bool) (x : Evaluated Word) (f g : Word -> Bool) : Evaluated Bool :=
  orElse (guarded p do return f (← x)) (guarded q do return g (← x))

/-- `(a > 0 && b > 0 && a + b < 0) || (a < 0 && b < 0 && a + b > 0)`. -/
def printedTest (a b : Word) : Evaluated Bool :=
  eitherTest (0 < a.toInt ∧ 0 < b.toInt) (a.toInt < 0 ∧ b.toInt < 0) (SignedInt.add a b)
    (fun sum => sum.toInt < 0) (fun sum => 0 < sum.toInt)

/-- `((a >= 0) && (b >= 0) && (a+b < 0)) || ((a < 0) && (b < 0) && (a+b >= 0))`. -/
def addTest (a b : Word) : Evaluated Bool :=
  eitherTest (0 ≤ a.toInt ∧ 0 ≤ b.toInt) (a.toInt < 0 ∧ b.toInt < 0) (SignedInt.add a b)
    (fun sum => sum.toInt < 0) (fun sum => 0 ≤ sum.toInt)

/-- `((a >= 0) && (b < 0) && (a-b < 0)) || ((a < 0) && (b >= 0) && (a-b >= 0))`. -/
def subTest (a b : Word) : Evaluated Bool :=
  eitherTest (0 ≤ a.toInt ∧ b.toInt < 0) (a.toInt < 0 ∧ 0 ≤ b.toInt) (SignedInt.sub a b)
    (fun difference => difference.toInt < 0) (fun difference => 0 ≤ difference.toInt)

/-- The four numbers printed in front of a checked operation. -/
def diagnostics (a b : Word) : Evaluated (List Int) := do
  let sum ← SignedInt.add a b
  let overflow ← printedTest a b
  return [a.toInt, b.toInt, sum.toInt, if overflow then 1 else 0]

/-- What is left of the switch when the two operands of a checked operation are known: the
diagnostics, the sign test, and the trap or the state with the result written. -/
def trapOr (a b : Word) (overflows : Evaluated Bool) (info : InstructionInfo)
    (e written : Emulator) : Evaluated (List Int × (InstructionInfo × Emulator)) := do
  let printed ← diagnostics a b
  if ← overflows then return (printed, { info with isOverflow := true }, e.raiseException)
  else return (printed, info, written)

/-- The inner switch.  Only ADD and SUBU have signed operations; SUBU prints a sum too. -/
def executeOpZero (info : InstructionInfo) (e : Emulator) :
    Evaluated (List Int × (InstructionInfo × Emulator)) :=
  let a := e.reg info.rs
  let b := e.reg info.rt
  match FunId.ofCode? info.funct with
  | some .add => trapOr a b (addTest a b) info e (e.setReg info.rd (a + b))
  | some .subu => trapOr a b (subTest a b) info e (e.setReg info.rd (a - b))
  | _ => return ([], Emulator.executeOpZero info e)

def execute (info : InstructionInfo) (e : Emulator) :
    Evaluated (List Int × (InstructionInfo × Emulator)) :=
  let a := e.reg info.rs
  let b := e.reg info.rt
  match OpId.ofCode? info.opcode with
  | some .zero => executeOpZero info e
  | some .addi =>
      trapOr a info.signExtImm (addTest a info.signExtImm) info e
        (e.setReg info.rt (a + info.signExtImm))
  | some .sb => do return ([], Emulator.store info e (← extractBits b 7 0) byteSize)
  | some .sh => do return ([], Emulator.store info e (← extractBits b 15 0) halfSize)
  | _ => return ([], Emulator.execute info e)

/-- `Emulator::executeInstruction`: the numbers printed to the standard output, the record
and the state afterwards. -/
def executeInstruction (e : Emulator) :
    Evaluated (List Int × (InstructionInfo × Emulator)) :=
  let fetched := e.fetch
  if fetched.1.isHalt then return ([], fetched)
  else do
    let info ← decode fetched.1 fetched.2.PC
    execute info fetched.2

/-!
## Decoding
-/

theorem extractBits_eq (instruction : Word) {start stop : Nat} (hle : stop ≤ start)
    (hstart : start < 32) (hlt : start - stop < 30) :
    extractBits instruction start stop = .ok (PipeSim.extractBits instruction start stop) := by
  have hstart' : (BitVec.ofNat 32 start).toNat = start := by
    rw [BitVec.toNat_ofNat]
    lia
  have hstop : (BitVec.ofNat 32 stop).toNat = stop := by
    rw [BitVec.toNat_ofNat]
    lia
  have hspan : (BitVec.ofNat 32 start - BitVec.ofNat 32 stop).toNat = start - stop := by
    rw [BitVec.toNat_sub_of_le (by rw [BitVec.le_def, hstart', hstop]; exact hle), hstart',
      hstop]
  have hbits : (BitVec.ofNat 32 start - BitVec.ofNat 32 stop + 1#32).toNat =
      start - stop + 1 := by
    rw [BitVec.toNat_add, hspan]
    exact Nat.mod_eq_of_lt (by lia)
  have hpower : 2 ^ (start - stop + 1) < 2 ^ 31 := Nat.pow_lt_pow_right (by decide) (by lia)
  have hone : (1#32 <<< (start - stop + 1)).toNat = 2 ^ (start - stop + 1) := by
    rw [BitVec.toNat_shiftLeft, Nat.shiftLeft_eq]
    show 1 * 2 ^ (start - stop + 1) % 2 ^ 32 = _
    rw [Nat.one_mul]
    exact Nat.mod_eq_of_lt (Nat.lt_trans hpower (by decide))
  have hpos : 1 ≤ 2 ^ (start - stop + 1) := Nat.one_le_two_pow
  unfold extractBits
  rw [SignedInt.sub_of_le (by lia) (by lia), ok_bind, SignedInt.add_of_lt, ok_bind, hbits,
    SignedInt.shiftLeft_of_lt (by lia), ok_bind, SignedInt.sub_of_le, ok_bind]
  · rfl
  · rw [hone]
    exact hpos
  · rw [hone]
    exact hpower
  · show 1 * 2 ^ (start - stop + 1) < 2 ^ 31
    rw [Nat.one_mul]
    exact hpower
  · rw [hspan]
    show start - stop + 1 < 2 ^ 31
    lia

theorem shiftLeft_signExt {immediate : BitVec 16} (h : immediate.msb = false) :
    SignedInt.shiftLeft (signExt immediate) 2 = .ok (signExt immediate <<< 2) := by
  refine SignedInt.shiftLeft_of_lt (by decide) ?_
  have hlt := immediate.isLt
  rw [signExt_eq, BitVec.signExtend_eq_setWidth_of_msb_false h,
    BitVec.toNat_setWidth_of_le (by decide)]
  lia

theorem decode_of_msb_false {info : InstructionInfo} (PC : Word)
    (h : (immOf info.instruction).msb = false) :
    decode info PC = .ok (Emulator.decode info PC) := by
  have hshift := shiftLeft_signExt h
  unfold immOf at hshift
  unfold decode
  simp (disch := decide) only [extractBits_eq, ok_bind]
  rw [hshift]
  rfl

theorem decode_of_msb_true {info : InstructionInfo} (PC : Word)
    (h : (immOf info.instruction).msb = true) :
    decode info PC = .error .negativeShift := by
  have hshift : SignedInt.shiftLeft (signExt (immOf info.instruction)) 2 =
      .error .negativeShift := by
    refine SignedInt.shiftLeft_of_neg ?_
    rw [toInt_signExt]
    exact BitVec.toInt_neg_of_msb_true h
  unfold immOf at hshift
  unfold decode
  simp (disch := decide) only [extractBits_eq, ok_bind]
  rw [hshift]
  rfl

/-!
## The checked operations
-/

theorem inRange_iff (z : Int) : SignedInt.InRange 32 z <-> FitsInt32 z := by
  unfold SignedInt.InRange FitsInt32
  show -2 ^ 31 ≤ z ∧ z < 2 ^ 31 <-> _
  lia

section Tests

variable {a b : Word} {p q : Bool} {f g : Word -> Bool}

theorem eitherTest_ok (x : Word) :
    eitherTest p q (.ok x) f g = .ok (p && f x || q && g x) := by
  unfold eitherTest
  rw [ok_bind, ok_bind]
  show orElse (guarded p (.ok (f x))) (guarded q (.ok (g x))) = _
  rw [guarded_ok, guarded_ok, orElse_ok]

theorem eitherTest_error (u : Undefined) (h : p = true ∨ q = true) :
    eitherTest p q (.error u) f g = .error u := by
  unfold eitherTest
  rw [error_bind, error_bind]
  cases p with
  | true =>
      rfl
  | false =>
      rcases h with hp | rfl
      · cases hp
      · rfl

theorem add_of_fits (h : FitsInt32 (a.toInt + b.toInt)) : SignedInt.add a b = .ok (a + b) :=
  SignedInt.add_of_inRange ((inRange_iff _).mpr h)

theorem sub_of_fits (h : FitsInt32 (a.toInt - b.toInt)) : SignedInt.sub a b = .ok (a - b) :=
  SignedInt.sub_of_inRange ((inRange_iff _).mpr h)

theorem toInt_add_of_fits (h : FitsInt32 (a.toInt + b.toInt)) :
    (a + b).toInt = a.toInt + b.toInt :=
  SignedInt.toInt_add_of_inRange ((inRange_iff _).mpr h)

theorem toInt_sub_of_fits (h : FitsInt32 (a.toInt - b.toInt)) :
    (a - b).toInt = a.toInt - b.toInt :=
  SignedInt.toInt_sub_of_inRange ((inRange_iff _).mpr h)

theorem eitherTest_false {P Q : Prop} [Decidable P] [Decidable Q] {F G : Word -> Prop}
    [DecidablePred F] [DecidablePred G] {x : Word} (hp : P -> ¬ F x) (hq : Q -> ¬ G x) :
    eitherTest P Q (.ok x) (fun y => F y) (fun y => G y) = .ok false := by
  rw [eitherTest_ok]
  refine congrArg Except.ok ?_
  rw [Bool.or_eq_false_iff, Bool.and_eq_false_imp, Bool.and_eq_false_imp]
  refine ⟨?_, ?_⟩
  · intro hP
    exact decide_eq_false (hp (of_decide_eq_true hP))
  · intro hQ
    exact decide_eq_false (hq (of_decide_eq_true hQ))

theorem printedTest_of_fits (h : FitsInt32 (a.toInt + b.toInt)) :
    printedTest a b = .ok false := by
  unfold printedTest
  rw [add_of_fits h]
  refine eitherTest_false ?_ ?_
  · rw [toInt_add_of_fits h]
    lia
  · rw [toInt_add_of_fits h]
    lia

theorem addTest_of_fits (h : FitsInt32 (a.toInt + b.toInt)) : addTest a b = .ok false := by
  unfold addTest
  rw [add_of_fits h]
  refine eitherTest_false ?_ ?_
  · rw [toInt_add_of_fits h]
    lia
  · rw [toInt_add_of_fits h]
    lia

theorem subTest_of_fits (h : FitsInt32 (a.toInt - b.toInt)) : subTest a b = .ok false := by
  unfold subTest
  rw [sub_of_fits h]
  refine eitherTest_false ?_ ?_
  · rw [toInt_sub_of_fits h]
    lia
  · rw [toInt_sub_of_fits h]
    lia

/-- A difference that does not fit is one of numbers of different signs, and the test of
SUBU evaluates it. -/
theorem subTest_of_not_fits (h : ¬ FitsInt32 (a.toInt - b.toInt)) :
    subTest a b = .error .overflow := by
  have hrange : ¬ SignedInt.InRange 32 (a.toInt - b.toInt) := mt (inRange_iff _).mp h
  have hsign := SignedInt.sign_ne_of_sub_not_inRange hrange
  unfold subTest
  rw [SignedInt.sub_of_not_inRange hrange]
  refine eitherTest_error _ ?_
  rw [decide_eq_true_iff, decide_eq_true_iff]
  exact hsign

theorem diagnostics_of_fits (h : FitsInt32 (a.toInt + b.toInt)) :
    diagnostics a b = .ok [a.toInt, b.toInt, a.toInt + b.toInt, 0] := by
  unfold diagnostics
  rw [add_of_fits h, printedTest_of_fits h, ok_bind, ok_bind, toInt_add_of_fits h]
  rfl

theorem diagnostics_of_not_fits (h : ¬ FitsInt32 (a.toInt + b.toInt)) :
    diagnostics a b = .error .overflow := by
  unfold diagnostics
  rw [SignedInt.add_of_not_inRange (mt (inRange_iff _).mp h)]
  rfl

end Tests

/-!
## The switch
-/

/-- The evaluation is defined under a condition, and then it ends in `r`, without an overflow
in the record or in the printed flag. -/
structure DefinedWhen (condition : Prop) (x : Evaluated (List Int × (InstructionInfo × Emulator)))
    (r : InstructionInfo × Emulator) : Prop where
  defined : condition -> exists printed, x = .ok (printed, r) ∧ printed[3]? ≠ some 1 ∧
    r.1.isOverflow = false
  undefined : ¬ condition -> ¬ Defined x

section Switch

variable {a b : Word} {info : InstructionInfo} {e written : Emulator}
  {r : InstructionInfo × Emulator}

theorem definedWhen_silent (h : r.1.isOverflow = false) : DefinedWhen True (.ok ([], r)) r where
  defined := by
    intro _
    exact ⟨[], rfl, by decide, h⟩
  undefined := by
    intro hnot
    exact absurd trivial hnot

theorem trapOr_of_fits (h : FitsInt32 (a.toInt + b.toInt)) :
    trapOr a b (.ok false) info e written =
      .ok ([a.toInt, b.toInt, a.toInt + b.toInt, 0], info, written) := by
  unfold trapOr
  rw [diagnostics_of_fits h]
  rfl

theorem trapOr_of_not_fits (h : ¬ FitsInt32 (a.toInt + b.toInt)) (overflows : Evaluated Bool) :
    trapOr a b overflows info e written = .error .overflow := by
  unfold trapOr
  rw [diagnostics_of_not_fits h]
  rfl

theorem definedWhen_add (hinfo : info.isOverflow = false) :
    DefinedWhen (FitsInt32 (a.toInt + b.toInt)) (trapOr a b (addTest a b) info e written)
      (if addOverflows a b then ({ info with isOverflow := true }, e.raiseException)
        else (info, written)) where
  defined := by
    intro h
    rw [if_neg fun hover => (addOverflows_iff a b).mp hover h, addTest_of_fits h,
      trapOr_of_fits h]
    exact ⟨_, rfl, by simp, hinfo⟩
  undefined := by
    intro h
    rw [trapOr_of_not_fits h]
    exact not_defined_error _

/-- SUBU prints the sum and subtracts, so both have to fit. -/
theorem definedWhen_sub (hinfo : info.isOverflow = false) :
    DefinedWhen (FitsInt32 (a.toInt + b.toInt) ∧ FitsInt32 (a.toInt - b.toInt))
      (trapOr a b (subTest a b) info e written)
      (if subOverflows a b then ({ info with isOverflow := true }, e.raiseException)
        else (info, written)) where
  defined := by
    intro h
    rw [if_neg fun hover => (subOverflows_iff a b).mp hover h.2, subTest_of_fits h.2,
      trapOr_of_fits h.1]
    exact ⟨_, rfl, by simp, hinfo⟩
  undefined := by
    intro h
    by_cases hsum : FitsInt32 (a.toInt + b.toInt)
    · have hdifference : ¬ FitsInt32 (a.toInt - b.toInt) := fun hfits => h ⟨hsum, hfits⟩
      rw [subTest_of_not_fits hdifference]
      unfold trapOr
      rw [diagnostics_of_fits hsum]
      exact not_defined_error _
    · rw [trapOr_of_not_fits hsum]
      exact not_defined_error _

end Switch

end Evaluation

namespace Emulator

/-- The results of the checked R-type operation at the program counter fit into 32 bits; for
SUBU these are the sum and the difference. -/
def OpZeroResultsFit (e : Emulator) : Prop :=
  let word := e.fetchedWord
  let a := (e.operand (rsOf word)).toInt
  let b := (e.operand (rtOf word)).toInt
  match functOf word with
  | some .add => FitsInt32 (a + b)
  | some .subu => FitsInt32 (a + b) ∧ FitsInt32 (a - b)
  | _ => True

def ResultsFit (e : Emulator) : Prop :=
  let word := e.fetchedWord
  match opOf word with
  | some .zero => e.OpZeroResultsFit
  | some .addi => FitsInt32 ((e.operand (rsOf word)).toInt + (immOf word).toInt)
  | _ => True

/-- The word at the program counter is the halt word, or its bit 15 is clear and its results
fit. -/
def SignedArithmeticFits (e : Emulator) : Prop :=
  e.fetchedWord = haltWord ∨ ((immOf e.fetchedWord).msb = false ∧ e.ResultsFit)

end Emulator

namespace Evaluation

section Execute

variable {e : Emulator}

theorem executeOpZero_definedWhen (e : Emulator) :
    DefinedWhen e.OpZeroResultsFit (executeOpZero e.decoded e.fetch.2)
      (Emulator.executeOpZero e.decoded e.fetch.2) := by
  unfold Emulator.OpZeroResultsFit executeOpZero Emulator.executeOpZero
  dsimp only
  rw [Emulator.decoded_fun, Emulator.fetch_reg, Emulator.fetch_reg]
  cases functOf e.fetchedWord with
  | none =>
      exact definedWhen_silent rfl
  | some f =>
      cases f with
      | add =>
          exact definedWhen_add rfl
      | subu =>
          exact definedWhen_sub rfl
      | addu | and | jr | nor | or | slt | sltu | sll | srl | sub =>
          exact definedWhen_silent rfl

theorem execute_definedWhen (e : Emulator) :
    DefinedWhen e.ResultsFit (execute e.decoded e.fetch.2)
      (Emulator.execute e.decoded e.fetch.2) := by
  unfold Emulator.ResultsFit execute Emulator.execute
  dsimp only
  rw [Emulator.decoded_op, Emulator.fetch_reg, ← Emulator.toInt_decoded_signExtImm]
  cases opOf e.fetchedWord with
  | none =>
      exact definedWhen_silent rfl
  | some op =>
      cases op with
      | zero =>
          exact executeOpZero_definedWhen e
      | addi =>
          exact definedWhen_add rfl
      | sb | sh =>
          dsimp only
          rw [extractBits_eq _ (by decide) (by decide) (by decide)]
          exact definedWhen_silent rfl
      | addiu | andi | ori | slti | sltiu | lui | lbu | lhu | lw | sw | beq | bne | blez
      | bgtz | j | jal =>
          exact definedWhen_silent rfl

theorem executeInstruction_of_halt (h : e.fetchedWord = haltWord) :
    executeInstruction e = .ok ([], e.executeInstruction) := by
  have hflag : e.fetch.1.isHalt = true := beq_iff_eq.mpr h
  unfold executeInstruction
  dsimp only
  rw [if_pos hflag, Emulator.executeInstruction_of_halt h]
  rfl

theorem executeInstruction_of_not_halt (h : e.fetchedWord ≠ haltWord) :
    executeInstruction e =
      (decode e.fetch.1 e.fetch.2.PC >>= fun info => execute info e.fetch.2) := by
  have hflag : ¬ e.fetch.1.isHalt = true := fun hhalt => h (beq_iff_eq.mp hhalt)
  unfold executeInstruction
  dsimp only
  rw [if_neg hflag]

theorem executeInstruction_definedWhen (e : Emulator) :
    DefinedWhen e.SignedArithmeticFits (executeInstruction e) e.executeInstruction := by
  by_cases hhalt : e.fetchedWord = haltWord
  · have hoverflow : e.executeInstruction.1.isOverflow = false := by
      rw [Emulator.executeInstruction_of_halt hhalt]
      rfl
    rw [executeInstruction_of_halt hhalt]
    refine ⟨fun _ => (definedWhen_silent hoverflow).defined trivial, ?_⟩
    intro hnot
    exact absurd (Or.inl hhalt) hnot
  · rw [executeInstruction_of_not_halt hhalt, Emulator.executeInstruction_of_not_halt hhalt]
    have hexecute := execute_definedWhen e
    cases hmsb : (immOf e.fetch.1.instruction).msb with
    | true =>
        rw [decode_of_msb_true e.fetch.2.PC hmsb, error_bind]
        refine ⟨?_, fun _ => not_defined_error _⟩
        intro hfits
        rcases hfits with hword | ⟨hclear, _⟩
        · exact absurd hword hhalt
        · exact absurd (hclear.symm.trans hmsb) Bool.false_ne_true
    | false =>
        rw [decode_of_msb_false e.fetch.2.PC hmsb, ok_bind]
        refine ⟨?_, ?_⟩
        · intro hfits
          rcases hfits with hword | ⟨_, hresults⟩
          · exact absurd hword hhalt
          · exact hexecute.defined hresults
        · intro hnot
          refine hexecute.undefined ?_
          intro hresults
          exact hnot (Or.inr ⟨hmsb, hresults⟩)

end Execute

end Evaluation

/-- The signed arithmetic of an instruction is defined exactly when its results fit and, unless
it is the halt word, bit 15 of the word is clear.  Every defined evaluation ends in the result
of the instruction and finds no overflow. -/
theorem signed_arithmetic_defined_iff (e : Emulator) :
    (Defined (Evaluation.executeInstruction e) <-> e.SignedArithmeticFits) ∧
      forall printed r, Evaluation.executeInstruction e = .ok (printed, r) ->
        r = e.executeInstruction ∧ printed[3]? ≠ some 1 ∧ r.1.isOverflow = false := by
  have h := Evaluation.executeInstruction_definedWhen e
  refine ⟨⟨?_, ?_⟩, ?_⟩
  · intro hdefined
    by_contra hnot
    exact h.undefined hnot hdefined
  · intro hfits
    rcases h.defined hfits with ⟨printed, hvalue, _⟩
    rw [hvalue]
    exact defined_ok _
  · intro printed r hvalue
    have hfits : e.SignedArithmeticFits := by
      by_contra hnot
      exact h.undefined hnot ⟨_, hvalue⟩
    rcases h.defined hfits with ⟨printed', hvalue', hprinted, hoverflow⟩
    rw [hvalue] at hvalue'
    cases hvalue'
    exact ⟨rfl, hprinted, hoverflow⟩

/-- `lui $1, 0x4000; add $3, $1, $1`. -/
def signedOverflowProgram : List Word := [0x3c014000#32, 0x00211820#32]

/-- The sum printed in front of the test of ADD is `2 ^ 31`. -/
theorem signed_overflow_undefined :
    ¬ forall e : Emulator, Defined (Evaluation.executeInstruction e) := by
  intro h
  rcases h (Emulator.init (MemoryStore.ofImage (MemImage.ofWords
    signedOverflowProgram))).executeInstruction.2 with ⟨r, hr⟩
  have hok : Except.isOk _ = true := congrArg Except.isOk hr
  exact absurd hok (by decide)

end PipeSim
