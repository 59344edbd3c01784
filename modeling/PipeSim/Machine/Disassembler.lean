import PipeSim.Library.Numeral
import PipeSim.Machine.RegisterDump

/-!
# The disassembler

The trace of the pipeline shows each instruction word as a line of text.  The functions
that write it have enumerations, masks and a format for each class of instructions of their
own, and take nothing from the decoder of the emulator.
-/

namespace PipeSim

open Library

namespace Disassembler

inductive OpId where
  | zero
  | addi | addiu | andi | beq | bne | lbu | lhu | ll | lui | lw | ori | slti | sltiu
  | sb | sc | sh | sw | blez | bgtz
  | j | jal
deriving DecidableEq, Repr

namespace OpId

def code : OpId -> Word
  | zero => 0x0#32
  | addi => 0x8#32
  | addiu => 0x9#32
  | andi => 0xc#32
  | beq => 0x4#32
  | bne => 0x5#32
  | lbu => 0x24#32
  | lhu => 0x25#32
  | ll => 0x30#32
  | lui => 0xf#32
  | lw => 0x23#32
  | ori => 0xd#32
  | slti => 0xa#32
  | sltiu => 0xb#32
  | sb => 0x28#32
  | sc => 0x38#32
  | sh => 0x29#32
  | sw => 0x2b#32
  | blez => 0x6#32
  | bgtz => 0x7#32
  | j => 0x2#32
  | jal => 0x3#32

def all : List OpId :=
  [zero, addi, addiu, andi, beq, bne, lbu, lhu, ll, lui, lw, ori, slti, sltiu, sb, sc, sh, sw,
    blez, bgtz, j, jal]

def ofCode? (opcode : Word) : Option OpId := all.find? fun op => op.code = opcode

end OpId

inductive FunId where
  | add | addu | and | jr | nor | or | slt | sltu | sll | srl | sub | subu
deriving DecidableEq, Repr

namespace FunId

def code : FunId -> Word
  | add => 0x20#32
  | addu => 0x21#32
  | and => 0x24#32
  | jr => 0x08#32
  | nor => 0x27#32
  | or => 0x25#32
  | slt => 0x2a#32
  | sltu => 0x2b#32
  | sll => 0x00#32
  | srl => 0x02#32
  | sub => 0x22#32
  | subu => 0x23#32

def all : List FunId := [add, addu, and, jr, nor, or, slt, sltu, sll, srl, sub, subu]

def ofCode? (funct : Word) : Option FunId := all.find? fun f => f.code = funct

end FunId

def leftAligned (width : Nat) (text : String) : String :=
  text ++ String.ofList (List.replicate (width - text.length) ' ')

def hexText (n : Nat) : String := String.ofList (Nat.toDigits 16 n)

def decimalText (z : Int) : String := String.ofList (Numeral.signed z)

def regNameAt (field : Word) : String := regName (regOf field)

def getOpcode (instr : Word) : Word := (instr >>> 26) &&& 0x3f#32

def getFunString (funct : Word) : String :=
  match FunId.ofCode? funct with
  | some .add => "add"
  | some .addu => "addu"
  | some .and => "and"
  | some .jr => "jr"
  | some .nor => "nor"
  | some .or => "or"
  | some .slt => "slt"
  | some .sltu => "sltu"
  | some .sll => "sll"
  | some .srl => "srl"
  | some .sub => "sub"
  | some .subu => "subu"
  | none => "ILLEGAL"

def handleOpZeroInst (instr : Word) : String :=
  let rs := (instr >>> 21) &&& 0x1f#32
  let rt := (instr >>> 16) &&& 0x1f#32
  let rd := (instr >>> 11) &&& 0x1f#32
  let shamt := (instr >>> 6) &&& 0x1f#32
  let funct := instr &&& 0x3f#32
  let funName := getFunString funct
  let sb :=
    if funct = FunId.jr.code then
      " " ++ funName ++ " " ++ regNameAt rs ++ " "
    else if funct = FunId.sll.code ∨ funct = FunId.srl.code then
      if instr = 0x0#32 then " nop "
      else
        " " ++ funName ++ " " ++ regNameAt rd ++ ", " ++ regNameAt rt ++ ", " ++
          decimalText shamt.toNat ++ " "
    else
      " " ++ funName ++ " " ++ regNameAt rd ++ ", " ++ regNameAt rs ++ ", " ++ regNameAt rt ++
        " "
  leftAligned 25 sb

def getImmString (opcode : Word) : String :=
  match OpId.ofCode? opcode with
  | some .addi => "addi"
  | some .addiu => "addiu"
  | some .andi => "andi"
  | some .beq => "beq"
  | some .bne => "bne"
  | some .lbu => "lbu"
  | some .lhu => "lhu"
  | some .ll => "ll"
  | some .lui => "lui"
  | some .lw => "lw"
  | some .ori => "ori"
  | some .slti => "slti"
  | some .sltiu => "sltiu"
  | some .sb => "sb"
  | some .sc => "sc"
  | some .sh => "sh"
  | some .sw => "sw"
  | some .blez => "blez"
  | some .bgtz => "bgtz"
  | _ => "ILLEGAL"

def handleImmInst (instr : Word) : String :=
  let opcode := (instr >>> 26) &&& 0x3f#32
  let rs := (instr >>> 21) &&& 0x1f#32
  let rt := (instr >>> 16) &&& 0x1f#32
  let imm : BitVec 16 := (instr &&& 0xffff#32).setWidth 16
  let opString := getImmString opcode
  let sb :=
    match OpId.ofCode? opcode with
    | some .addi | some .addiu | some .andi | some .ori | some .slti | some .sltiu =>
        " " ++ opString ++ " " ++ regNameAt rt ++ ", " ++ regNameAt rs ++ ", " ++ "0x" ++
          hexText imm.toNat ++ " "
    | some .beq | some .bne =>
        " " ++ opString ++ " " ++ regNameAt rs ++ ", " ++ regNameAt rt ++ ", " ++ "0x" ++
          hexText imm.toNat ++ " "
    | some .lbu | some .lhu | some .ll | some .lw | some .sb | some .sc | some .sh | some .sw =>
        " " ++ opString ++ " " ++ regNameAt rt ++ ", " ++ decimalText imm.toInt ++ "(" ++
          regNameAt rs ++ ") "
    | some .lui =>
        " " ++ opString ++ " " ++ regNameAt rt ++ ", " ++ "0x" ++ hexText imm.toNat ++ " "
    | some .blez | some .bgtz =>
        " " ++ opString ++ " " ++ regNameAt rs ++ ", " ++ "0x" ++ hexText imm.toNat ++ " "
    | _ => "ILLEGAL"
  leftAligned 25 sb

def handleJInst (instr : Word) : String :=
  let opcode := (instr >>> 26) &&& 0x3f#32
  let addr := instr &&& 0x3ffffff#32
  let sb :=
    match OpId.ofCode? opcode with
    | some .jal => " jal " ++ "0x" ++ hexText addr.toNat ++ " "
    | some .j => " j " ++ "0x" ++ hexText addr.toNat ++ " "
    | _ => ""
  leftAligned 25 sb

def printInstr (curInst : Word) : String :=
  if curInst = 0xfeedfeed#32 then leftAligned 25 " HALT "
  else if curInst = 0xdeefdeef#32 then leftAligned 25 " UNKNOWN "
  else
    match OpId.ofCode? (getOpcode curInst) with
    | some .zero => handleOpZeroInst curInst
    | some .addi | some .addiu | some .andi | some .beq | some .bne | some .lbu | some .lhu
    | some .ll | some .lui | some .lw | some .ori | some .slti | some .sltiu | some .sb
    | some .sc | some .sh | some .sw | some .blez | some .bgtz => handleImmInst curInst
    | some .j | some .jal => handleJInst curInst
    | none => leftAligned 25 " ILLEGAL "

example : printInstr 0x8c220008#32 = " lw $v0, 8($at)          " := by decide

end Disassembler

end PipeSim
