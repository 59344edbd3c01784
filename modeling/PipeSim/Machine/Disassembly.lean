import PipeSim.Machine.Dependence
import PipeSim.Machine.Disassembler

/-!
# What a line of the trace tells

The format of a class of instructions leaves out some fields of the word.  Here a line is
taken apart into its words again: they name the instruction and give back every field that
the emulator looks at.
-/

namespace PipeSim

open Library

/-!
## The effect of a word
-/

namespace Emulator

def decodedWord (e : Emulator) (word : Word) : InstructionInfo :=
  decode { e.fetch.1 with instruction := word, isHalt := word == haltWord } e.fetch.2.PC

/-- `executeInstruction` with the word fetched replaced by the given one. -/
def executeWord (e : Emulator) (word : Word) : Emulator :=
  if word = haltWord then e.fetch.2 else (execute (e.decodedWord word) e.fetch.2).2

theorem executeInstruction_eq_executeWord (e : Emulator) :
    e.executeInstruction.2 = e.executeWord e.fetchedWord := by
  unfold executeWord
  by_cases hhalt : e.fetchedWord = haltWord
  · rw [if_pos hhalt, executeInstruction_of_halt hhalt]
  · rw [if_neg hhalt, executeInstruction_of_not_halt hhalt]
    rfl

section Fields

variable {w w' : Word} {e t : Emulator}

theorem decodedWord_op (e : Emulator) (word : Word) :
    OpId.ofCode? (e.decodedWord word).opcode = opOf word := rfl

theorem decodedWord_fun (e : Emulator) (word : Word) :
    FunId.ofCode? (e.decodedWord word).funct = functOf word := rfl

theorem reg_rs_congr (h : rsOf w = rsOf w') :
    t.reg (e.decodedWord w).rs = t.reg (e.decodedWord w').rs :=
  congrArg t.registers h

theorem reg_rt_congr (h : rtOf w = rtOf w') :
    t.reg (e.decodedWord w).rt = t.reg (e.decodedWord w').rt :=
  congrArg t.registers h

theorem setReg_congr {field field' : Word} (h : regOf field = regOf field') (value : Word) :
    t.setReg field value = t.setReg field' value := by
  unfold setReg
  rw [h]

theorem setReg_rt_congr (h : rtOf w = rtOf w') (value : Word) :
    t.setReg (e.decodedWord w).rt value = t.setReg (e.decodedWord w').rt value :=
  setReg_congr h value

theorem setReg_rd_congr (h : rdOf w = rdOf w') (value : Word) :
    t.setReg (e.decodedWord w).rd value = t.setReg (e.decodedWord w').rd value :=
  setReg_congr h value

theorem signExtImm_congr (h : immOf w = immOf w') :
    (e.decodedWord w).signExtImm = (e.decodedWord w').signExtImm :=
  congrArg signExt h

theorem zeroExtImm_congr (h : immOf w = immOf w') :
    (e.decodedWord w).zeroExtImm = (e.decodedWord w').zeroExtImm :=
  congrArg (fun i : BitVec 16 => i.setWidth 32) h

theorem branchAddr_congr (h : immOf w = immOf w') :
    (e.decodedWord w).branchAddr = (e.decodedWord w').branchAddr :=
  congrArg (fun i => signExt i <<< 2) h

theorem jumpAddr_congr (h : extractBits w 25 0 = extractBits w' 25 0) :
    (e.decodedWord w).jumpAddr = (e.decodedWord w').jumpAddr :=
  congrArg (fun a : Word => (e.fetch.2.PC &&& 0xf0000000#32) ^^^ (a <<< 2)) h

theorem shamt_congr (h : extractBits w 10 6 = extractBits w' 10 6) :
    (e.decodedWord w).shamt = (e.decodedWord w').shamt := h

end Fields

end Emulator

namespace Disassembler

inductive Operand where
  | register (r : RegId)
  | immediate (i : BitVec 16)
  | amount (n : Word)
  | address (offset : BitVec 16) (base : RegId)
  | target (index : Word)
deriving DecidableEq, Repr

def Operand.text : Operand -> List Char
  | .register r => (regName r).toList
  | .immediate i => '0' :: 'x' :: Nat.toDigits 16 i.toNat
  | .amount n => Numeral.signed n.toNat
  | .address offset base => Numeral.signed offset.toInt ++ '(' :: (regName base).toList ++ [')']
  | .target index => '0' :: 'x' :: Nat.toDigits 16 index.toNat

def operandWords : List Operand -> List (List Char)
  | [] => []
  | [operand] => [operand.text]
  | operand :: operands => (operand.text ++ [',']) :: operandWords operands

inductive Instruction where
  | halt
  | nop
  | special (f : PipeSim.FunId)
  | other (op : PipeSim.OpId)
deriving DecidableEq, Repr

namespace Instruction

def name : Instruction -> String
  | halt => "HALT"
  | nop => "nop"
  | special f => getFunString f.code
  | other .j => "j"
  | other .jal => "jal"
  | other op => getImmString op.code

def operands (instruction : Instruction) (word : Word) : List Operand :=
  match instruction with
  | halt | nop | other .zero => []
  | special .jr => [.register (rsOf word)]
  | special .sll | special .srl =>
      [.register (rdOf word), .register (rtOf word), .amount (extractBits word 10 6)]
  | special _ => [.register (rdOf word), .register (rsOf word), .register (rtOf word)]
  | other .addi | other .addiu | other .andi | other .ori | other .slti | other .sltiu =>
      [.register (rtOf word), .register (rsOf word), .immediate (immOf word)]
  | other .beq | other .bne =>
      [.register (rsOf word), .register (rtOf word), .immediate (immOf word)]
  | other .lbu | other .lhu | other .lw | other .sb | other .sh | other .sw =>
      [.register (rtOf word), .address (immOf word) (rsOf word)]
  | other .lui => [.register (rtOf word), .immediate (immOf word)]
  | other .blez | other .bgtz => [.register (rsOf word), .immediate (immOf word)]
  | other .j | other .jal => [.target (extractBits word 25 0)]

def words (instruction : Instruction) (word : Word) : List (List Char) :=
  instruction.name.toList :: operandWords (instruction.operands word)

end Instruction

inductive Encodes (word : Word) : Instruction -> Prop where
  | halt (hhalt : word = haltWord) : Encodes word .halt
  | nop (hzero : word = 0x0#32) : Encodes word .nop
  | special {f : PipeSim.FunId} (hhalt : word ≠ haltWord) (hzero : word ≠ 0x0#32)
      (hop : opOf word = some .zero) (hf : functOf word = some f) : Encodes word (.special f)
  | other {op : PipeSim.OpId} (hhalt : word ≠ haltWord) (hop : opOf word = some op)
      (hne : op ≠ .zero) : Encodes word (.other op)

theorem exists_encodes {word : Word} (hvalid : validWord word = true) :
    exists instruction, Encodes word instruction := by
  by_cases hhalt : word = haltWord
  · exact ⟨.halt, Encodes.halt hhalt⟩
  by_cases hzero : word = 0x0#32
  · exact ⟨.nop, Encodes.nop hzero⟩
  unfold validWord at hvalid
  rw [beq_eq_false_iff_ne.mpr hhalt, Bool.false_or] at hvalid
  cases hop : opOf word with
  | none =>
      rw [hop] at hvalid
      cases hvalid
  | some op =>
      rw [hop] at hvalid
      by_cases hne : op = .zero
      · subst hne
        rcases Option.isSome_iff_exists.mp hvalid with ⟨f, hf⟩
        exact ⟨.special f, Encodes.special hhalt hzero hop hf⟩
      · exact ⟨.other op, Encodes.other hhalt hop hne⟩

/-!
## What is shown decides the effect
-/

section Effect

variable {w w' : Word} {e t : Emulator}

open Emulator

theorem executeOpZero_congr {f : PipeSim.FunId} (hf : functOf w = some f)
    (hf' : functOf w' = some f)
    (hshown : (Instruction.special f).operands w = (Instruction.special f).operands w') :
    (executeOpZero (e.decodedWord w) t).2 = (executeOpZero (e.decodedWord w') t).2 := by
  unfold executeOpZero
  dsimp only
  rw [decodedWord_fun, decodedWord_fun, hf, hf']
  cases f <;>
    simp only [Instruction.operands, List.cons.injEq, Operand.register.injEq,
      Operand.amount.injEq, and_true] at hshown ⊢
  case jr =>
      rw [reg_rs_congr hshown]
  case sll | srl =>
      rcases hshown with ⟨hrd, hrt, hshamt⟩
      simp only [reg_rt_congr hrt, shamt_congr hshamt, setReg_rd_congr hrd]
  all_goals
    rcases hshown with ⟨hrd, hrs, hrt⟩
    simp only [reg_rs_congr hrs, reg_rt_congr hrt, setReg_rd_congr hrd, apply_ite Prod.snd]

theorem execute_congr {op : PipeSim.OpId} (hop : opOf w = some op) (hop' : opOf w' = some op)
    (hne : op ≠ .zero)
    (hshown : (Instruction.other op).operands w = (Instruction.other op).operands w') :
    (execute (e.decodedWord w) t).2 = (execute (e.decodedWord w') t).2 := by
  unfold execute
  dsimp only
  rw [decodedWord_op, decodedWord_op, hop, hop']
  cases op <;>
    simp only [Instruction.operands, List.cons.injEq, Operand.register.injEq,
      Operand.immediate.injEq, Operand.address.injEq, Operand.target.injEq, and_true]
      at hshown ⊢
  case zero =>
      exact absurd rfl hne
  case addi | addiu | andi | ori | slti | sltiu =>
      rcases hshown with ⟨hrt, hrs, himm⟩
      simp only [reg_rs_congr hrs, signExtImm_congr himm, zeroExtImm_congr himm,
        setReg_rt_congr hrt, apply_ite Prod.snd]
  case lui =>
      rcases hshown with ⟨hrt, himm⟩
      simp only [zeroExtImm_congr himm, setReg_rt_congr hrt]
  case lbu | lhu | lw | sb | sh | sw =>
      rcases hshown with ⟨hrt, himm, hrs⟩
      simp only [load, store, reg_rs_congr hrs, reg_rt_congr hrt, signExtImm_congr himm,
        setReg_rt_congr hrt]
  case beq | bne =>
      rcases hshown with ⟨hrs, hrt, himm⟩
      simp only [branchIf, reg_rs_congr hrs, reg_rt_congr hrt, branchAddr_congr himm]
  case blez | bgtz =>
      rcases hshown with ⟨hrs, himm⟩
      simp only [branchIf, reg_rs_congr hrs, branchAddr_congr himm]
  case j | jal =>
      rw [jumpAddr_congr hshown]

theorem executeWord_congr {instruction : Instruction} (h : Encodes w instruction)
    (h' : Encodes w' instruction)
    (hshown : instruction.operands w = instruction.operands w') :
    e.executeWord w = e.executeWord w' := by
  cases h with
  | halt hhalt =>
      cases h' with
      | halt hhalt' =>
          rw [hhalt, hhalt']
  | nop hzero =>
      cases h' with
      | nop hzero' =>
          rw [hzero, hzero']
  | special hhalt _ hop hf =>
      cases h' with
      | special hhalt' _ hop' hf' =>
          unfold executeWord
          rw [if_neg hhalt, if_neg hhalt']
          unfold execute
          dsimp only
          rw [decodedWord_op, decodedWord_op, hop, hop']
          exact executeOpZero_congr hf hf' hshown
  | other hhalt hop hne =>
      cases h' with
      | other hhalt' hop' _ =>
          unfold executeWord
          rw [if_neg hhalt, if_neg hhalt']
          exact execute_congr hop hop' hne hshown

end Effect

/-!
## The text of a line
-/

/-- The text consists of the given words, with a blank in front of and behind each. -/
def Renders (text : String) (words : List (List Char)) : Prop :=
  text.toList = ' ' :: words.flatMap fun word => word ++ [' ']

section Text

variable {word : Word} {op : PipeSim.OpId} {f : PipeSim.FunId}

theorem printInstr_of_op (hhalt : word ≠ haltWord) (hop : opOf word = some op) :
    printInstr word =
      match op with
      | .zero => handleOpZeroInst word
      | .j | .jal => handleJInst word
      | _ => handleImmInst word := by
  have hcode : getOpcode word = op.code := (OpId.ofCode?_eq_some.mp hop).symm
  have hstop : word ≠ 0xfeedfeed#32 := hhalt
  have hunknown : word ≠ 0xdeefdeef#32 := by
    intro heq
    subst heq
    have hnone : opOf 0xdeefdeef#32 = none := by
      decide
    rw [hnone] at hop
    cases hop
  unfold printInstr
  rw [if_neg hstop, if_neg hunknown, hcode]
  cases op <;> rfl

theorem handleJInst_renders (hop : opOf word = some op) (hj : op = .j ∨ op = .jal) :
    exists text, handleJInst word = leftAligned 25 text ∧
      Renders text ((Instruction.other op).words word) := by
  have hcode : (word >>> 26) &&& 0x3f#32 = op.code := (OpId.ofCode?_eq_some.mp hop).symm
  have hindex : word &&& 0x3ffffff#32 = extractBits word 25 0 := rfl
  unfold handleJInst
  dsimp only
  rw [hcode, hindex]
  rcases hj with rfl | rfl
  · refine ⟨" j " ++ "0x" ++ hexText (extractBits word 25 0).toNat ++ " ", rfl, ?_⟩
    unfold Renders Instruction.words hexText
    simp [operandWords, Operand.text, Instruction.name, Instruction.operands]
  · refine ⟨" jal " ++ "0x" ++ hexText (extractBits word 25 0).toNat ++ " ", rfl, ?_⟩
    unfold Renders Instruction.words hexText
    simp [operandWords, Operand.text, Instruction.name, Instruction.operands]

def ofOp : PipeSim.OpId -> OpId
  | .zero => .zero
  | .addi => .addi
  | .addiu => .addiu
  | .andi => .andi
  | .ori => .ori
  | .slti => .slti
  | .sltiu => .sltiu
  | .lui => .lui
  | .lbu => .lbu
  | .lhu => .lhu
  | .lw => .lw
  | .sb => .sb
  | .sh => .sh
  | .sw => .sw
  | .beq => .beq
  | .bne => .bne
  | .blez => .blez
  | .bgtz => .bgtz
  | .j => .j
  | .jal => .jal

theorem ofCode?_code (op : PipeSim.OpId) : OpId.ofCode? op.code = some (ofOp op) := by
  cases op <;> rfl

theorem regNameAt_rs (word : Word) :
    regNameAt ((word >>> 21) &&& 0x1f#32) = regName (rsOf word) := rfl

theorem regNameAt_rt (word : Word) :
    regNameAt ((word >>> 16) &&& 0x1f#32) = regName (rtOf word) := rfl

theorem regNameAt_rd (word : Word) :
    regNameAt ((word >>> 11) &&& 0x1f#32) = regName (rdOf word) := rfl

theorem handleImmInst_renders (hop : opOf word = some op) (hne : op ≠ .zero)
    (hj : ¬ (op = .j ∨ op = .jal)) :
    exists text, handleImmInst word = leftAligned 25 text ∧
      Renders text ((Instruction.other op).words word) := by
  have hcode : (word >>> 26) &&& 0x3f#32 = op.code := (OpId.ofCode?_eq_some.mp hop).symm
  have himm : (word &&& 0xffff#32).setWidth 16 = immOf word := rfl
  unfold handleImmInst
  dsimp only
  rw [hcode, himm, regNameAt_rs, regNameAt_rt, ofCode?_code]
  refine ⟨_, rfl, ?_⟩
  unfold Renders Instruction.words hexText decimalText
  cases op <;> dsimp only [ofOp, Instruction.name, Instruction.operands] <;> first
    | exact absurd rfl hne
    | exact absurd (Or.inl rfl) hj
    | exact absurd (Or.inr rfl) hj
    | simp [operandWords, Operand.text]

theorem handleOpZeroInst_renders (hzero : word ≠ 0x0#32) (hf : functOf word = some f) :
    exists text, handleOpZeroInst word = leftAligned 25 text ∧
      Renders text ((Instruction.special f).words word) := by
  have hcode : word &&& 0x3f#32 = f.code := (FunId.ofCode?_eq_some.mp hf).symm
  have hshamt : (word >>> 6) &&& 0x1f#32 = extractBits word 10 6 := rfl
  unfold handleOpZeroInst
  dsimp only
  rw [hcode, hshamt, regNameAt_rs, regNameAt_rt, regNameAt_rd, if_neg hzero]
  refine ⟨_, rfl, ?_⟩
  unfold Renders Instruction.words decimalText
  cases f <;> dsimp only [Instruction.name, Instruction.operands]
  case jr =>
      rw [if_pos (by decide)]
      simp [operandWords, Operand.text]
  case sll | srl =>
      rw [if_neg (by decide), if_pos (by decide)]
      simp [operandWords, Operand.text]
  all_goals
    rw [if_neg (by decide), if_neg (by decide)]
    simp [operandWords, Operand.text]

theorem printInstr_renders {instruction : Instruction} (h : Encodes word instruction) :
    exists text, printInstr word = leftAligned 25 text ∧
      Renders text (instruction.words word) := by
  cases h with
  | halt hhalt =>
      subst hhalt
      refine ⟨" HALT ", rfl, ?_⟩
      unfold Renders
      decide
  | nop hzero =>
      subst hzero
      refine ⟨" nop ", rfl, ?_⟩
      unfold Renders
      decide
  | special hhalt hzero hop hf =>
      rw [printInstr_of_op hhalt hop]
      exact handleOpZeroInst_renders hzero hf
  | @other op hhalt hop hne =>
      rw [printInstr_of_op hhalt hop]
      by_cases hj : op = .j ∨ op = .jal
      · have hline := handleJInst_renders hop hj
        rcases hj with rfl | rfl
        · exact hline
        · exact hline
      · have hline := handleImmInst_renders hop hne hj
        cases op <;> first
          | exact absurd rfl hne
          | exact hline
          | exact absurd (Or.inl rfl) hj
          | exact absurd (Or.inr rfl) hj

end Text

/-!
## Characters of a line
-/

/-- A character that is no blank and occurs in neither `ILLEGAL` nor `UNKNOWN` as a first
letter. -/
def Plain (c : Char) : Prop := c ≠ ' ' ∧ c ≠ 'I' ∧ c ≠ 'U'

instance (c : Char) : Decidable (Plain c) := by
  unfold Plain
  infer_instance

section Characters

variable {word : Word} {c : Char}

theorem plain_of_isDigit {b : Nat} (h : Numeral.isDigit b c = true) : Plain c := by
  have hne : forall {other}, Numeral.isDigit b other = false -> c ≠ other := by
    intro other hother heq
    subst heq
    exact Bool.false_ne_true (hother.symm.trans h)
  exact ⟨hne rfl, hne rfl, hne rfl⟩

theorem plain_of_mem_signed {z : Int} (h : c ∈ Numeral.signed z) : Plain c := by
  rcases Numeral.mem_signed h with hdigit | rfl
  · exact plain_of_isDigit hdigit
  · decide

theorem plain_of_mem_hex {n : Nat} (h : c ∈ '0' :: 'x' :: Nat.toDigits 16 n) : Plain c := by
  rw [List.mem_cons, List.mem_cons] at h
  rcases h with rfl | rfl | hdigit
  · decide
  · decide
  · exact plain_of_isDigit (Numeral.isDigit_of_mem_toDigits (by decide) (by decide) hdigit)

theorem plain_of_all {text : List Char} (h : (text.all fun c => decide (Plain c)) = true) :
    forall c, c ∈ text -> Plain c :=
  fun c hc => of_decide_eq_true (List.all_eq_true.mp h c hc)

theorem plain_regName (r : RegId) : forall c, c ∈ (regName r).toList -> Plain c := by
  apply plain_of_all
  revert r
  decide

theorem plain_of_mem_text {operand : Operand} (h : c ∈ operand.text) : Plain c := by
  cases operand with
  | register r =>
      exact plain_regName r c h
  | immediate i =>
      exact plain_of_mem_hex h
  | amount n =>
      exact plain_of_mem_signed h
  | address offset base =>
      unfold Operand.text at h
      rw [List.mem_append, List.mem_append, List.mem_cons, List.mem_singleton] at h
      rcases h with (hsigned | rfl | hname) | rfl
      · exact plain_of_mem_signed hsigned
      · decide
      · exact plain_regName base c hname
      · decide
  | target index =>
      exact plain_of_mem_hex h

theorem plain_of_mem_operandWords {operands : List Operand} {w : List Char}
    (hw : w ∈ operandWords operands) (hc : c ∈ w) : Plain c := by
  induction operands with
  | nil =>
      cases hw
  | cons operand operands ih =>
      cases operands with
      | nil =>
          rw [List.mem_singleton.mp hw] at hc
          exact plain_of_mem_text hc
      | cons next operands =>
          rcases List.mem_cons.mp hw with rfl | hw
          · rcases List.mem_append.mp hc with hc | hc
            · exact plain_of_mem_text hc
            · rw [List.mem_singleton.mp hc]
              decide
          · exact ih hw

theorem plain_name {instruction : Instruction} (h : Encodes word instruction) :
    forall c, c ∈ instruction.name.toList -> Plain c := by
  apply plain_of_all
  cases h with
  | halt _ =>
      decide
  | nop _ =>
      decide
  | @special f _ _ _ _ =>
      cases f <;> decide
  | @other op _ _ hne =>
      cases op <;> first
        | exact absurd rfl hne
        | decide

theorem plain_of_mem_words {instruction : Instruction} (h : Encodes word instruction)
    {w : List Char} (hw : w ∈ instruction.words word) (hc : c ∈ w) : Plain c := by
  rcases List.mem_cons.mp hw with rfl | hw
  · exact plain_name h c hc
  · exact plain_of_mem_operandWords hw hc

end Characters

/-!
## A line gives its words back
-/

def splitWords (text : String) : List (List Char) :=
  (text.toList.splitOn ' ').filter fun word => !word.isEmpty

theorem text_leftAligned (width : Nat) (text : String) :
    exists k, (leftAligned width text).toList = text.toList ++ List.replicate k ' ' :=
  ⟨width - text.length, by
    unfold leftAligned
    rw [String.toList_append, String.toList_ofList]⟩

theorem flatMap_replicate_nil (k : Nat) (c : Char) :
    ((List.replicate k []).flatMap fun word => word ++ [c]) = List.replicate k c := by
  induction k with
  | zero =>
      rfl
  | succ k ih =>
      rw [List.replicate_succ, List.flatMap_cons, ih]
      rfl

theorem splitWords_leftAligned {text : String} {words : List (List Char)}
    (h : Renders text words) (hwords : forall word, word ∈ words -> ' ' ∉ word ∧ word ≠ [])
    (width : Nat) : splitWords (leftAligned width text) = words := by
  rcases text_leftAligned width text with ⟨k, hk⟩
  have hsplit : (leftAligned width text).toList =
      (([] :: words) ++ List.replicate k []).flatMap fun word => word ++ [' '] := by
    rw [hk, h, List.flatMap_append, flatMap_replicate_nil]
    rfl
  have hblank : forall word, word ∈ ([] :: words) ++ List.replicate k [] -> ' ' ∉ word := by
    intro word hword
    rcases List.mem_append.mp hword with hword | hword
    · rcases List.mem_cons.mp hword with rfl | hword
      · exact List.not_mem_nil
      · exact (hwords word hword).1
    · rw [List.eq_of_mem_replicate hword]
      exact List.not_mem_nil
  have hkept : words.filter (fun word => !word.isEmpty) = words := by
    rw [List.filter_eq_self]
    intro word hword
    rw [Bool.not_eq_true', List.isEmpty_eq_false_iff]
    exact (hwords word hword).2
  have hdropped : (List.replicate k ([] : List Char)).filter (fun word => !word.isEmpty) = [] := by
    rw [List.filter_replicate_of_neg (by decide)]
  unfold splitWords
  rw [hsplit, Numeral.splitOn_terminated hblank, List.filter_append, List.filter_append, hdropped,
    List.append_nil]
  exact (List.append_nil _).trans hkept

theorem text_ne_nil (operand : Operand) : operand.text ≠ [] := by
  cases operand with
  | register r =>
      change (regName r).toList ≠ []
      revert r
      decide
  | immediate i =>
      exact List.cons_ne_nil _ _
  | amount n =>
      change Numeral.signed n.toNat ≠ []
      unfold Numeral.signed
      split
      · exact List.cons_ne_nil _ _
      · exact Nat.toDigits_ne_nil
  | address offset base =>
      change _ ++ [')'] ≠ []
      exact List.append_ne_nil_of_right_ne_nil _ (List.cons_ne_nil _ _)
  | target index =>
      exact List.cons_ne_nil _ _

theorem ne_nil_of_mem_operandWords {operands : List Operand} {w : List Char}
    (hw : w ∈ operandWords operands) : w ≠ [] := by
  induction operands with
  | nil =>
      cases hw
  | cons operand operands ih =>
      cases operands with
      | nil =>
          rw [List.mem_singleton.mp hw]
          exact text_ne_nil operand
      | cons next operands =>
          rcases List.mem_cons.mp hw with rfl | hw
          · exact List.append_ne_nil_of_right_ne_nil _ (List.cons_ne_nil _ _)
          · exact ih hw

theorem name_ne_nil (instruction : Instruction) : instruction.name.toList ≠ [] := by
  cases instruction with
  | halt =>
      decide
  | nop =>
      decide
  | special f =>
      cases f <;> decide
  | other op =>
      cases op <;> decide

theorem splitWords_printInstr {word : Word} {instruction : Instruction}
    (h : Encodes word instruction) :
    splitWords (printInstr word) = instruction.words word := by
  rcases printInstr_renders h with ⟨text, htext, hrenders⟩
  rw [htext]
  apply splitWords_leftAligned hrenders
  intro w hw
  constructor
  · intro hblank
    exact (plain_of_mem_words h hw hblank).1 rfl
  · rcases List.mem_cons.mp hw with rfl | hw
    · exact name_ne_nil instruction
    · exact ne_nil_of_mem_operandWords hw

/-!
## Names and operands are told apart
-/

def Instruction.all : List Instruction :=
  [.halt, .nop] ++ PipeSim.FunId.all.map .special ++ PipeSim.OpId.all.map .other

theorem Instruction.mem_all (instruction : Instruction) : instruction ∈ Instruction.all := by
  cases instruction with
  | halt =>
      decide
  | nop =>
      decide
  | special f =>
      cases f <;> decide
  | other op =>
      cases op <;> decide

theorem name_injective : Function.Injective Instruction.name := by
  have hall : (Instruction.all.all fun a => Instruction.all.all fun b =>
      a.name != b.name || decide (a = b)) = true := by
    decide +kernel
  intro a b h
  rw [List.all_eq_true] at hall
  have hb := List.all_eq_true.mp (hall a (Instruction.mem_all a)) b (Instruction.mem_all b)
  rw [h] at hb
  simpa using hb

theorem regName_injective : Function.Injective regName := by
  intro r r'
  revert r r'
  decide

def Operand.kind : Operand -> Nat
  | .register _ => 0
  | .immediate _ => 1
  | .amount _ => 2
  | .address _ _ => 3
  | .target _ => 4

theorem paren_not_mem_signed (z : Int) : '(' ∉ Numeral.signed z := by
  intro h
  rcases Numeral.mem_signed h with hdigit | heq
  · exact absurd hdigit (by decide)
  · exact absurd heq (by decide)

theorem hex_injective {m n : Nat}
    (h : '0' :: 'x' :: Nat.toDigits 16 m = '0' :: 'x' :: Nat.toDigits 16 n) : m = n :=
  Numeral.toDigits_injective (by decide) (by decide) (List.cons.inj (List.cons.inj h).2).2

theorem address_injective {offset offset' : BitVec 16} {base base' : RegId}
    (h : (Operand.address offset base).text = (Operand.address offset' base').text) :
    offset = offset' ∧ base = base' := by
  change Numeral.signed offset.toInt ++ '(' :: (regName base).toList ++ [')'] =
    Numeral.signed offset'.toInt ++ '(' :: (regName base').toList ++ [')'] at h
  rw [List.append_assoc, List.append_assoc, List.cons_append, List.cons_append] at h
  have hsplit := congrArg (List.splitOn '(') h
  rw [List.splitOn_append_cons_self_of_not_mem (paren_not_mem_signed _),
    List.splitOn_append_cons_self_of_not_mem (paren_not_mem_signed _)] at hsplit
  have hoffset := (List.cons.inj hsplit).1
  rw [hoffset] at h
  have hname := List.append_cancel_right (List.cons.inj (List.append_cancel_left h)).2
  exact ⟨BitVec.eq_of_toInt_eq (Numeral.signed_injective hoffset),
    regName_injective (String.toList_inj.mp hname)⟩

theorem text_injective {a b : Operand} (hkind : a.kind = b.kind) (h : a.text = b.text) :
    a = b := by
  cases a with
  | register r =>
      cases b <;> first
        | exact congrArg _ (regName_injective (String.toList_inj.mp h))
        | cases hkind
  | immediate i =>
      cases b <;> first
        | exact congrArg _ (BitVec.eq_of_toNat_eq (hex_injective h))
        | cases hkind
  | amount n =>
      cases b <;> first
        | exact congrArg _ (BitVec.eq_of_toNat_eq (Int.ofNat.inj (Numeral.signed_injective h)))
        | cases hkind
  | address offset base =>
      cases b <;> first
        | exact congrArg₂ _ (address_injective h).1 (address_injective h).2
        | cases hkind
  | target index =>
      cases b <;> first
        | exact congrArg _ (BitVec.eq_of_toNat_eq (hex_injective h))
        | cases hkind

theorem operandWords_injective {as bs : List Operand}
    (hkinds : as.map Operand.kind = bs.map Operand.kind)
    (h : operandWords as = operandWords bs) : as = bs := by
  induction as generalizing bs with
  | nil =>
      cases bs with
      | nil =>
          rfl
      | cons b bs =>
          cases hkinds
  | cons a as ih =>
      cases bs with
      | nil =>
          cases hkinds
      | cons b bs =>
          rw [List.map_cons, List.map_cons, List.cons.injEq] at hkinds
          cases as with
          | nil =>
              cases bs with
              | nil =>
                  rw [text_injective hkinds.1 (List.cons.inj h).1]
              | cons b' bs =>
                  exact absurd hkinds.2 (by simp)
          | cons a' as =>
              cases bs with
              | nil =>
                  exact absurd hkinds.2 (by simp)
              | cons b' bs =>
                  rcases List.cons.inj h with ⟨hfirst, hrest⟩
                  rw [text_injective hkinds.1 (List.append_cancel_right hfirst),
                    ih hkinds.2 hrest]

theorem kinds_operands (instruction : Instruction) (w w' : Word) :
    (instruction.operands w).map Operand.kind =
      (instruction.operands w').map Operand.kind := by
  cases instruction with
  | halt =>
      rfl
  | nop =>
      rfl
  | special f =>
      cases f <;> rfl
  | other op =>
      cases op <;> rfl

/-- Valid words with the same line have the same effect. -/
theorem executeWord_of_printInstr {w w' : Word} (hvalid : validWord w = true)
    (hvalid' : validWord w' = true) (h : printInstr w = printInstr w') (e : Emulator) :
    e.executeWord w = e.executeWord w' := by
  rcases exists_encodes hvalid with ⟨instruction, hencodes⟩
  rcases exists_encodes hvalid' with ⟨instruction', hencodes'⟩
  have hwords : instruction.words w = instruction'.words w' := by
    rw [← splitWords_printInstr hencodes, h, splitWords_printInstr hencodes']
  rcases List.cons.inj hwords with ⟨hname, hoperands⟩
  have hsame := name_injective (String.toList_inj.mp hname)
  subst hsame
  exact executeWord_congr hencodes hencodes'
    (operandWords_injective (kinds_operands instruction w w') hoperands)

theorem mem_printInstr {word : Word} (hvalid : validWord word = true) {c : Char}
    (hc : c ∈ (printInstr word).toList) : c = ' ' ∨ Plain c := by
  rcases exists_encodes hvalid with ⟨instruction, hencodes⟩
  rcases printInstr_renders hencodes with ⟨text, htext, hrenders⟩
  rcases text_leftAligned 25 text with ⟨k, hk⟩
  rw [htext, hk, hrenders] at hc
  rcases List.mem_append.mp hc with hc | hc
  · rcases List.mem_cons.mp hc with hc | hc
    · exact Or.inl hc
    · rcases List.mem_flatMap.mp hc with ⟨w, hw, hc⟩
      rcases List.mem_append.mp hc with hc | hc
      · exact Or.inr (plain_of_mem_words hencodes hw hc)
      · exact Or.inl (List.mem_singleton.mp hc)
  · exact Or.inl (List.eq_of_mem_replicate hc)

end Disassembler

/-- The line of a valid word never reports it as illegal or unknown, and it identifies what
the emulator does with the word in every state. -/
theorem disassembler_faithful (word : Word) (hvalid : validWord word = true) :
    (¬ "ILLEGAL".toList <:+: (Disassembler.printInstr word).toList ∧
        ¬ "UNKNOWN".toList <:+: (Disassembler.printInstr word).toList) ∧
      forall word', validWord word' = true ->
        Disassembler.printInstr word = Disassembler.printInstr word' ->
          forall e : Emulator, e.executeWord word = e.executeWord word' := by
  refine ⟨⟨?_, ?_⟩, fun word' hvalid' h e =>
    Disassembler.executeWord_of_printInstr hvalid hvalid' h e⟩
  · intro hillegal
    have hletter : 'I' ∈ "ILLEGAL".toList := by
      decide
    rcases Disassembler.mem_printInstr hvalid (hillegal.subset hletter) with hc | hc
    · exact absurd hc (by decide)
    · exact hc.2.1 rfl
  · intro hunknown
    have hletter : 'U' ∈ "UNKNOWN".toList := by
      decide
    rcases Disassembler.mem_printInstr hvalid (hunknown.subset hletter) with hc | hc
    · exact absurd hc (by decide)
    · exact hc.2.2 rfl

/-- `sll $v0, $v1, 4` with an unused field set and clear. -/
theorem disassembler_faithful_shift :
    ¬ "ILLEGAL".toList <:+: (Disassembler.printInstr 0x00231100#32).toList ∧
      forall e : Emulator, e.executeWord 0x00231100#32 = e.executeWord 0x00031100#32 :=
  ⟨(disassembler_faithful 0x00231100#32 (by decide)).1.1,
    (disassembler_faithful 0x00231100#32 (by decide)).2 0x00031100#32 (by decide)
      (by decide)⟩

end PipeSim
