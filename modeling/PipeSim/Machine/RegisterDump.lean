import PipeSim.Machine.Emulator
import Mathlib.Data.List.FinRange

/-!
# The register dump

The dump reads the register array through a structure that shares its memory, so the order
of the members of the structure decides which register a line shows.  The disassembler
takes the names of the registers from a table of its own.
-/

namespace PipeSim

structure RegisterInfo where
  zero : Word
  atReg : Word
  v : Fin 2 -> Word
  a : Fin 4 -> Word
  t : Fin 10 -> Word
  s : Fin 8 -> Word
  k : Fin 2 -> Word
  gp : Word
  sp : Word
  fp : Word
  ra : Word

/-- The member `reg` of `union REGS`: its words lie over the register array in the order in
which `RegisterInfo` declares them. -/
def RegisterInfo.ofRegisters (registers : RegId -> Word) : RegisterInfo where
  zero := registers 0#5
  atReg := registers 1#5
  v i := registers (BitVec.ofNat 5 (2 + i))
  a i := registers (BitVec.ofNat 5 (4 + i))
  t i := registers (BitVec.ofNat 5 (8 + i))
  s i := registers (BitVec.ofNat 5 (18 + i))
  k i := registers (BitVec.ofNat 5 (26 + i))
  gp := registers 28#5
  sp := registers 29#5
  fp := registers 30#5
  ra := registers 31#5

inductive DumpLine where
  | text (line : String)
  | register (name : String) (value : Word)
deriving Repr

def dumpArray (name : String) {n : Nat} (values : Fin n -> Word) : List DumpLine :=
  (List.finRange n).map fun i => .register (name ++ toString i.val) (values i)

def dumpRegisterState (reg : RegisterInfo) : List DumpLine :=
  [.text "---------------------", .text "Begin Register Values",
    .text "---------------------", .register "$at" reg.atReg, .text ""] ++
  dumpArray "$v" reg.v ++ [.text ""] ++
  dumpArray "$a" reg.a ++ [.text ""] ++
  dumpArray "$t" reg.t ++ [.text ""] ++
  dumpArray "$s" reg.s ++ [.text ""] ++
  dumpArray "$k" reg.k ++ [.text ""] ++
  [.register "$gp" reg.gp, .register "$sp" reg.sp, .register "$fp" reg.fp,
    .register "$ra" reg.ra, .text "---------------------", .text "End Register Values",
    .text "---------------------"]

def Emulator.dumpRegisters (e : Emulator) : List DumpLine :=
  dumpRegisterState (RegisterInfo.ofRegisters e.registers)

def printedValue (name : String) : List DumpLine -> Option Word
  | [] => none
  | .text _ :: lines => printedValue name lines
  | .register name' value :: lines =>
      if name' = name then some value else printedValue name lines

def regNames : List String :=
  ["$zero", "$at", "$v0", "$v1", "$a0", "$a1", "$a2", "$a3", "$t0", "$t1", "$t2",
    "$t3", "$t4", "$t5", "$t6", "$t7", "$s0", "$s1", "$s2", "$s3", "$s4", "$s5",
    "$s6", "$s7", "$t8", "$t9", "$k0", "$k1", "$gp", "$sp", "$fp", "$ra"]

def regName (r : RegId) : String := regNames.getD r.toNat ""

/-!
## The register behind a name
-/

/-- The register whose value the dump prints under the name of `r`. -/
def dumpedRegister (r : RegId) : RegId :=
  if 16#5 ≤ r ∧ r < 24#5 then r + 2#5
  else if r = 24#5 ∨ r = 25#5 then r - 8#5
  else r

def DumpLine.mapValue (f : Word -> Word) : DumpLine -> DumpLine
  | .text line => .text line
  | .register name value => .register name (f value)

section Values

variable (f : Word -> Word)

theorem dumpArray_map (name : String) {n : Nat} (values : Fin n -> Word) :
    (dumpArray name values).map (DumpLine.mapValue f) =
      dumpArray name fun i => f (values i) := by
  unfold dumpArray
  rw [List.map_map]
  rfl

theorem dumpRegisterState_map (registers : RegId -> Word) :
    (dumpRegisterState (RegisterInfo.ofRegisters registers)).map (DumpLine.mapValue f) =
      dumpRegisterState (RegisterInfo.ofRegisters fun r => f (registers r)) := by
  unfold dumpRegisterState
  simp only [List.map_append, dumpArray_map]
  rfl

theorem printedValue_map (name : String) (lines : List DumpLine) :
    printedValue name (lines.map (DumpLine.mapValue f)) = (printedValue name lines).map f := by
  induction lines with
  | nil =>
      rfl
  | cons line lines ih =>
      cases line with
      | text _ =>
          exact ih
      | register name' value =>
          simp only [List.map_cons, DumpLine.mapValue, printedValue]
          split
          · rfl
          · exact ih

end Values

theorem printedValue_numbers {r : RegId} (hr : r ≠ 0#5) :
    printedValue (regName r)
        (dumpRegisterState (RegisterInfo.ofRegisters fun r => r.setWidth 32)) =
      some ((dumpedRegister r).setWidth 32) := by
  revert r
  decide

theorem printedValue_regName (registers : RegId -> Word) {r : RegId} (hr : r ≠ 0#5) :
    printedValue (regName r) (dumpRegisterState (RegisterInfo.ofRegisters registers)) =
      some (registers (dumpedRegister r)) := by
  have hnumber : forall q : RegId, (q.setWidth 32).setWidth 5 = q := by
    intro q
    simp
  have hdump := dumpRegisterState_map (fun n => registers (n.setWidth 5))
    fun r => r.setWidth 32
  simp only [hnumber] at hdump
  rw [← hdump, printedValue_map, printedValue_numbers hr, Option.map_some, hnumber]

/-- The dump prints a register under its name exactly when the register is none of 16 to 25,
or the one that is printed there holds the same value. -/
theorem register_dump_names_iff (e : Emulator) (r : RegId) (hr : r ≠ 0#5) :
    printedValue (regName r) e.dumpRegisters = some (e.registers r) <->
      (16#5 ≤ r -> r ≤ 23#5 -> e.registers (r + 2#5) = e.registers r) ∧
        (24#5 ≤ r -> r ≤ 25#5 -> e.registers (r - 8#5) = e.registers r) := by
  unfold Emulator.dumpRegisters
  rw [printedValue_regName _ hr, Option.some_inj]
  unfold dumpedRegister
  split
  · rename_i hs
    have hnot : ¬ 24#5 ≤ r := by
      bv_omega
    have hle : r ≤ 23#5 := by
      bv_omega
    exact ⟨fun h => ⟨fun _ _ => h, fun hge => absurd hge hnot⟩, fun h => h.1 hs.1 hle⟩
  · rename_i hs
    split
    · rename_i ht
      have hnot : ¬ r ≤ 23#5 := by
        rcases ht with rfl | rfl
        · decide
        · decide
      have hrange : 24#5 ≤ r ∧ r ≤ 25#5 := by
        rcases ht with rfl | rfl
        · decide
        · decide
      exact ⟨fun h => ⟨fun _ hle => absurd hle hnot, fun _ _ => h⟩,
        fun h => h.2 hrange.1 hrange.2⟩
    · rename_i ht
      refine iff_of_true rfl ⟨fun hge hle => absurd ⟨hge, by bv_omega⟩ hs, fun hge hle => ?_⟩
      exact absurd (show r = 24#5 ∨ r = 25#5 by bv_omega) ht

def afterInstruction (word : Word) : Emulator :=
  (Emulator.init (MemoryStore.ofImage (MemImage.ofWords [word]))).executeInstruction.2

/-- `addiu $t0, $0, 1` shows in the line of `$t0`. -/
theorem register_dump_names_temporary :
    printedValue "$t0" (afterInstruction 0x24080001#32).dumpRegisters =
      some ((afterInstruction 0x24080001#32).registers 8#5) :=
  (register_dump_names_iff (afterInstruction 0x24080001#32) 8#5 (by decide)).mpr
    ⟨fun h => absurd h (by decide), fun h => absurd h (by decide)⟩

/-- `addiu $s0, $0, 1` leaves the line of `$s0` at zero. -/
theorem register_dump_saved_misnamed :
    regName 16#5 = "$s0" ∧
      printedValue (regName 16#5) (afterInstruction 0x24100001#32).dumpRegisters ≠
        some ((afterInstruction 0x24100001#32).registers 16#5) := by
  decide

end PipeSim
