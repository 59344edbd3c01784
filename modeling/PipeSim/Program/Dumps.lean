import PipeSim.Cycle.Simulator
import PipeSim.Library.InStream
import PipeSim.Library.Lines
import PipeSim.Machine.Disassembler
import PipeSim.Machine.DumpRange
import PipeSim.Machine.RegisterDump

/-!
# The dump files

The texts that the simulators leave behind: the registers, a range of the memory and the
statistics.  Two machines that leave the same texts hold the same values in the registers and
in the range.
-/

namespace PipeSim

open Library

/-!
## The register file
-/

def regOutputWidth : Nat := 8

def DumpLine.write : DumpLine -> List Char
  | .text line => line.toList
  | .register name value =>
      name.toList ++ " = ".toList ++ "0x".toList ++
        Numeral.padded 16 regOutputWidth value.toNat

def registerFile (lines : List DumpLine) : List Char := Lines.unlines (lines.map DumpLine.write)

def parseDumpLine (line : List Char) : DumpLine :=
  match line.splitOn ' ' with
  | [name, ['='], '0' :: 'x' :: digits] =>
      .register (String.ofList name) (BitVec.ofNat 32 (Numeral.value 16 digits))
  | _ => .text (String.ofList line)

/-- The line is told apart from lines of the other kind. -/
def DumpLine.Readable : DumpLine -> Prop
  | .text line => '\n' ∉ line.toList ∧ '=' ∉ line.toList
  | .register name _ => '\n' ∉ name.toList ∧ ' ' ∉ name.toList

instance (line : DumpLine) : Decidable line.Readable := by
  cases line with
  | text line =>
      unfold DumpLine.Readable
      infer_instance
  | register name value =>
      unfold DumpLine.Readable
      infer_instance

section Registers

variable {line : DumpLine}

theorem not_mem_padded {c : Char} (hc : Numeral.isDigit 16 c = false) (width n : Nat) :
    c ∉ Numeral.padded 16 width n := by
  intro hmem
  have hdigit := Numeral.isDigit_of_mem_padded (by decide) (by decide) hmem
  rw [hc] at hdigit
  cases hdigit

theorem newline_not_mem_write (h : line.Readable) : '\n' ∉ line.write := by
  cases line with
  | text line =>
      exact h.1
  | register name value =>
      have hdigits := not_mem_padded (c := '\n') rfl regOutputWidth value.toNat
      have hequals : '\n' ∉ " = ".toList := by decide
      have hfront : '\n' ∉ "0x".toList := by decide
      unfold DumpLine.write
      simp only [List.mem_append, not_or]
      exact ⟨⟨⟨h.1, hequals⟩, hfront⟩, hdigits⟩

theorem splitOn_register {name : String} (hname : ' ' ∉ name.toList) (value : Word) :
    (DumpLine.register name value).write.splitOn ' ' =
      [name.toList, ['='], '0' :: 'x' :: Numeral.padded 16 regOutputWidth value.toNat] := by
  have hequals : " = ".toList = [' ', '=', ' '] := rfl
  have hfront : "0x".toList = ['0', 'x'] := rfl
  have hdigits : ' ' ∉ '0' :: 'x' :: Numeral.padded 16 regOutputWidth value.toNat := by
    rw [List.mem_cons, List.mem_cons, not_or, not_or]
    exact ⟨by decide, by decide, not_mem_padded rfl _ _⟩
  have hword : ' ' ∉ ['='] := by decide
  have htext : (DumpLine.register name value).write =
      name.toList ++ ' ' :: (['='] ++ ' ' ::
        ('0' :: 'x' :: Numeral.padded 16 regOutputWidth value.toNat)) := by
    unfold DumpLine.write
    rw [hequals, hfront]
    simp
  rw [htext, List.splitOn_append_cons_self_of_not_mem hname,
    List.splitOn_append_cons_self_of_not_mem hword, List.splitOn_eq_singleton hdigits]

theorem parseDumpLine_write (h : line.Readable) : parseDumpLine line.write = line := by
  cases line with
  | text line =>
      unfold parseDumpLine DumpLine.write
      split
      · rename_i hsplit
        have hline : [' '].intercalate (line.toList.splitOn ' ') = line.toList :=
          List.intercalate_splitOn ' '
        rw [hsplit] at hline
        exact absurd (hline ▸ by simp [List.intercalate]) h.2
      · rw [String.ofList_toList]
  | register name value =>
      unfold parseDumpLine
      rw [splitOn_register h.2]
      show DumpLine.register (String.ofList name.toList) (BitVec.ofNat 32 (Numeral.value 16
        (Numeral.padded 16 regOutputWidth value.toNat))) = _
      rw [String.ofList_toList, Numeral.value_padded (by decide) (by decide), BitVec.ofNat_toNat,
        BitVec.setWidth_eq]

theorem readable_mapValue (f : Word -> Word) :
    (line.mapValue f).Readable <-> line.Readable := by
  cases line <;> exact Iff.rfl

theorem readable_numbers :
    forall line, line ∈ dumpRegisterState (RegisterInfo.ofRegisters fun r => r.setWidth 32) ->
      line.Readable := by
  decide

theorem readable_dump (registers : RegId -> Word) :
    forall line, line ∈ dumpRegisterState (RegisterInfo.ofRegisters registers) ->
      line.Readable := by
  have hdump := dumpRegisterState_map (fun n => registers (n.setWidth 5))
    fun r => r.setWidth 32
  have hnumber : forall q : RegId, (q.setWidth 32).setWidth 5 = q := by
    intro q
    simp
  simp only [hnumber] at hdump
  rw [← hdump]
  intro line hline
  rcases List.mem_map.mp hline with ⟨numbered, hnumbered, rfl⟩
  exact (readable_mapValue _).mpr (readable_numbers numbered hnumbered)

theorem read_registerFile (registers : RegId -> Word) :
    Lines.read (fun line => some (parseDumpLine line))
        (registerFile (dumpRegisterState (RegisterInfo.ofRegisters registers))) =
      some (dumpRegisterState (RegisterInfo.ofRegisters registers)) := by
  unfold registerFile
  have hreadable := readable_dump registers
  have hread : Lines.read (fun line => some (parseDumpLine line)) _ = some (List.map id _) :=
    Lines.read_unlines (fun line hline => newline_not_mem_write (hreadable line hline))
      fun line hline => congrArg some (parseDumpLine_write (hreadable line hline))
  rw [List.map_id] at hread
  exact hread

theorem exists_dumpedRegister {r : RegId} (hr : r ≠ 0#5) :
    exists q, q ≠ 0#5 ∧ dumpedRegister q = r := by
  revert r
  decide

/-- Equal register files come from equal registers, `$0` apart. -/
theorem registers_of_registerFile {registers registers' : RegId -> Word}
    (h : registerFile (dumpRegisterState (RegisterInfo.ofRegisters registers)) =
      registerFile (dumpRegisterState (RegisterInfo.ofRegisters registers'))) {r : RegId}
    (hr : r ≠ 0#5) : registers r = registers' r := by
  have hread := congrArg (Lines.read fun line => some (parseDumpLine line)) h
  rw [read_registerFile, read_registerFile] at hread
  rcases exists_dumpedRegister hr with ⟨q, hq, rfl⟩
  have hprinted := congrArg (printedValue (regName q)) (Option.some.inj hread)
  rw [printedValue_regName _ hq, printedValue_regName _ hq] at hprinted
  exact Option.some.inj hprinted

end Registers

/-!
## The memory file
-/

/-- The range that `dumpMemoryState` takes from the file `print_mem_range`, if there is one. -/
def printMemRange (file : Option (List Char)) : Word × Word :=
  match file with
  | none => (0#32, 0x1f4#32)
  | some text =>
      let (memRange, startAddr) := (InStream.ofFile (some text)).extractHex 0#32
      let (_, endAddr) := memRange.extractHex 0x1f4#32
      (startAddr, endAddr)

def rule : List Char := "---------------------".toList

def memoryFileOf (printed : List Char) : List Char :=
  Lines.unlines [rule, "Begin Memory State".toList, rule] ++ printed ++
    Lines.unlines [rule, "End Memory State".toList, rule]

def memoryFile (m : MemoryStore) (startAddr endAddr : Word) : Option (List Char) :=
  (m.printMemArray (m.numEntries + 1) startAddr endAddr wordSize 5#32).map
    fun printed => memoryFileOf printed.2

theorem memoryFileOf_injective : Function.Injective memoryFileOf := by
  intro printed printed' h
  unfold memoryFileOf at h
  exact List.append_cancel_left (List.append_cancel_right h)

section Memory

variable {m m' : MemoryStore} {startAddr endAddr : Word}

theorem exists_memoryFile (hm : m.numEntries < 2 ^ 32) (startAddr endAddr : Word) :
    exists text, memoryFile m startAddr endAddr = some text := by
  have hword : 0 < wordSize.toNat := by decide
  have hrow : 0 < (5#32 : Word).toNat := by decide
  rcases MemoryStore.exists_printRows hm hword hrow (startAddr - m.startAddr)
    (Nat.lt_succ_of_le (Nat.sub_le _ _)) startAddr with ⟨code, text, hrun, _⟩
  refine ⟨memoryFileOf text, ?_⟩
  unfold memoryFile MemoryStore.printMemArray
  rw [if_pos (by decide), hrun]
  rfl

theorem memoryFile_inside (hm : m.numEntries < 2 ^ 32) (hle : startAddr ≤ endAddr)
    (hinside : m.offset startAddr +
      MemoryStore.entryCount startAddr endAddr wordSize * wordSize.toNat ≤ m.numEntries) :
    exists rows, memoryFile m startAddr endAddr = some (memoryFileOf (dumpText rows)) ∧
      parseDump wordSize.toNat (dumpText rows) = some rows ∧
      rows.flatMap DumpRow.bytes = m.bytesFrom (m.offset startAddr)
        (MemoryStore.entryCount startAddr endAddr wordSize * wordSize.toNat) := by
  have hremaining := MemoryStore.remaining_entryCount hm (by decide) hle hinside
  have hfuel : MemoryStore.entryCount startAddr endAddr wordSize < m.numEntries + 1 := by
    change _ + _ * 4 ≤ _ at hinside
    lia
  have hrow : 0 < (5#32 : Word).toNat := by decide
  rcases MemoryStore.printRows_eq hm hrow hremaining hfuel startAddr with
    ⟨rows, hrun, hwell, hbytes, _⟩
  refine ⟨rows, ?_, parseDump_dumpText hwell, hbytes⟩
  unfold memoryFile MemoryStore.printMemArray
  rw [if_pos (by decide), hrun]
  rfl

theorem byteAt_of_bytesFrom {rel count : Nat} (h : m.bytesFrom rel count = m'.bytesFrom rel count)
    {i : Nat} (hi : i < count) : m.byteAt (rel + i) = m'.byteAt (rel + i) := by
  unfold MemoryStore.bytesFrom at h
  rw [List.map_inj_left] at h
  exact h i (List.mem_range.mpr hi)

end Memory

/-!
## The statistics file
-/

structure SimulationStats where
  dynamicInstructions : Word
  totalCycles : Word
  icHits : Word
  icMisses : Word
  dcHits : Word
  dcMisses : Word
  loadUseStalls : Word
deriving DecidableEq, Repr

/-- The aggregate of two members; the initialization leaves the others at zero. -/
def SimulationStats.ofCounts (dynamicInstructions totalCycles : Word) : SimulationStats where
  dynamicInstructions := dynamicInstructions
  totalCycles := totalCycles
  icHits := 0#32
  icMisses := 0#32
  dcHits := 0#32
  dcMisses := 0#32
  loadUseStalls := 0#32

def statsLine (label : String) (number : Word) : List Char :=
  (Disassembler.leftAligned 23 label).toList ++ Nat.toDigits 10 number.toNat

def statsFile (stats : SimulationStats) : List Char :=
  Lines.unlines
    [statsLine "Dynamic instructions: " stats.dynamicInstructions,
      statsLine "Total cycles: " stats.totalCycles,
      statsLine "I-cache hits: " stats.icHits,
      statsLine "I-cache misses: " stats.icMisses,
      statsLine "D-cache hits: " stats.dcHits,
      statsLine "D-cache misses: " stats.dcMisses,
      statsLine "Load-use stalls: " stats.loadUseStalls]

section Stats

variable {label : String} {number : Word}

end Stats

/-- When two emulators leave the same register file and the same file of a range inside their
memories, all registers but `$0` and all bytes of the range are the same. -/
theorem dump_files_identify_state (e e' : Emulator) (startAddr endAddr : Word)
    (hm : e.memory.numEntries < 2 ^ 32) (hbase : e'.memory.startAddr = e.memory.startAddr)
    (hentries : e'.memory.numEntries = e.memory.numEntries) (hle : startAddr ≤ endAddr)
    (hinside : e.memory.offset startAddr +
      MemoryStore.entryCount startAddr endAddr wordSize * wordSize.toNat ≤ e.memory.numEntries)
    (hregisters : registerFile e.dumpRegisters = registerFile e'.dumpRegisters)
    (hmemory : memoryFile e.memory startAddr endAddr = memoryFile e'.memory startAddr endAddr) :
    (forall r : RegId, r ≠ 0#5 -> e.registers r = e'.registers r) ∧
      forall i, i < MemoryStore.entryCount startAddr endAddr wordSize * wordSize.toNat ->
        e.memory.byteAt (e.memory.offset startAddr + i) =
          e'.memory.byteAt (e.memory.offset startAddr + i) := by
  have hoffset : e'.memory.offset startAddr = e.memory.offset startAddr := by
    unfold MemoryStore.offset
    rw [hbase]
  rcases memoryFile_inside hm hle hinside with ⟨rows, hfile, hparse, hbytes⟩
  rcases memoryFile_inside (hentries.symm ▸ hm) hle (by rw [hoffset, hentries]; exact hinside)
    with ⟨rows', hfile', hparse', hbytes'⟩
  refine ⟨fun r hr => registers_of_registerFile hregisters hr, ?_⟩
  rw [hfile, hfile'] at hmemory
  rw [memoryFileOf_injective (Option.some.inj hmemory), hparse'] at hparse
  rw [← Option.some.inj hparse, hbytes', hoffset] at hbytes
  exact fun i hi => (byteAt_of_bytesFrom hbytes hi).symm

/-- An emulator with a value in `$4` and a word at address 8. -/
def Emulator.dumped : Emulator :=
  (Emulator.init ((MemoryStore.cleared 0#32 memorySize).setMemValue 8#32 0x12345678#32
    wordSize).2).setReg 4#32 7#32

/-- The same but for `$0` and a byte behind the range. -/
def Emulator.dumpedElsewhere : Emulator :=
  { (Emulator.dumped.setReg 0#32 1#32) with
    memory := (Emulator.dumped.memory.setMemValue 64#32 0xff#32 byteSize).2 }

theorem dump_files_identify_state_word :
    (forall r : RegId, r ≠ 0#5 ->
        Emulator.dumped.registers r = Emulator.dumpedElsewhere.registers r) ∧
      (forall i, i < 16 ->
        Emulator.dumped.memory.byteAt i = Emulator.dumpedElsewhere.memory.byteAt i) ∧
      Emulator.dumped.registers 0#5 ≠ Emulator.dumpedElsewhere.registers 0#5 ∧
      Emulator.dumped.memory.byteAt 64 ≠ Emulator.dumpedElsewhere.memory.byteAt 64 := by
  rcases dump_files_identify_state Emulator.dumped Emulator.dumpedElsewhere 0#32 16#32
    (by decide +kernel) (by decide +kernel) (by decide +kernel) (by decide) (by decide +kernel)
    (by decide +kernel) (by decide +kernel) with ⟨hregisters, hbytes⟩
  refine ⟨hregisters, ?_, by decide +kernel, by decide +kernel⟩
  intro i hi
  have hoffset : Emulator.dumped.memory.offset 0#32 + i = i := Nat.zero_add i
  have hcount : MemoryStore.entryCount 0#32 16#32 wordSize * wordSize.toNat = 16 := by
    decide +kernel
  rw [← hoffset]
  exact hbytes i (by rw [hcount]; exact hi)

end PipeSim
