import PipeSim.Program.Outputs
import Mathlib.Data.List.GetD

/-!
# Executions without an end

A program file that cannot be opened is reported and then taken for an empty one.  The
simulators execute the zeros of the memory, and behind them those that failed reads return,
and never come to a halt word.
-/

namespace PipeSim

open Library

def MemoryStore.AllZero (m : MemoryStore) : Prop := forall b, (m.contents b).getD 0 = 0

namespace MemoryStore

section AllZero

variable {m : MemoryStore}

theorem readBytes_of_zero {bytes : Word -> Option Nat} (h : forall b, (bytes b).getD 0 = 0)
    (address size : Word) : m.readBytes bytes address size = 0 := by
  have hzeros : m.readBytes bytes address size =
      BigEndian.value 256 (fun i => if i < 0 then 0 else 0) (0 + size.toNat) := by
    unfold readBytes
    rw [Nat.zero_add]
    apply BigEndian.value_congr
    intro i _
    rw [h]
    split
    · rfl
    · rfl
  rw [hzeros, value_zeros (fun _ => 0) 0]
  exact Nat.zero_mul _

theorem AllZero.getMemValue (h : m.AllZero) (hm : m.numEntries < 2 ^ 32) {size : Word}
    (hsize : validSize size = true) (address value : Word) :
    (m.getMemValue address value size).2 = 0#32 := by
  rw [getMemValue_readBytes hm hsize, readBytes_of_zero h]

theorem allZero_cleared (startAddr : Word) (numEntries : Nat) :
    (cleared startAddr numEntries).AllZero := by
  intro b
  unfold contents byteAt
  split
  · rfl
  · rfl

theorem AllZero.loadBytes (h : m.AllZero) (hm : m.numEntries < 2 ^ 32) {buf : List Byte}
    (hbuf : forall b, b ∈ buf -> b = 0#8) {memLength : Nat} (hlength : memLength < 2 ^ 32) :
    (MemoryStore.loadBytes buf memLength m).AllZero := by
  intro b
  rw [contents_loadBytes buf hm hlength]
  split
  · rw [Option.getD_some]
    by_cases hb : b.toNat < buf.length
    · have hmem := hbuf _ (List.getElem_mem hb)
      rw [List.getD_eq_getElem _ _ hb, hmem]
      rfl
    · rw [List.getD_eq_default _ _ (Nat.le_of_not_lt hb)]
      rfl
  · exact h b

end AllZero

end MemoryStore

namespace Functional

section Zeros

variable {e : Emulator}

theorem fetchedWord_of_allZero (h : e.memory.AllZero) (hm : e.memory.numEntries < 2 ^ 32) :
    e.fetchedWord = 0#32 :=
  h.getMemValue hm rfl _ _

theorem after_memory_of_allZero (h : e.memory.AllZero) (hm : e.memory.numEntries < 2 ^ 32)
    (n : Nat) : (machine.after n e).memory = e.memory := by
  induction n with
  | zero =>
      rfl
  | succ n ih =>
      have hword := fetchedWord_of_allZero (ih ▸ h) (ih ▸ hm)
      have hstore : (machine.after n e).storeOf = none := by
        unfold Emulator.storeOf
        rw [hword]
        rfl
      change (machine.after n e).executeInstruction.2.memory = _
      rw [Emulator.executeInstruction_memory, hstore, ih]
      rfl

theorem instruction_of_allZero (h : e.memory.AllZero) (hm : e.memory.numEntries < 2 ^ 32) {n : Nat}
    {info : InstructionInfo} (hinfo : info ∈ Cycle.executed n e) : info.instruction = 0#32 := by
  rcases List.mem_map.mp hinfo with ⟨k, _, rfl⟩
  have hmemory := after_memory_of_allZero h hm k
  rw [Emulator.executeInstruction_instruction]
  exact fetchedWord_of_allZero (hmemory ▸ h) (hmemory ▸ hm)

/-- A memory of zeros holds no program that halts. -/
theorem not_haltsAfter_of_allZero (h : e.memory.AllZero) (hm : e.memory.numEntries < 2 ^ 32)
    (n : Nat) (e' : Emulator) : ¬ HaltsAfter n e e' := by
  intro hhalts
  rcases hhalts with ⟨k, u, rfl, hreach, hlast⟩
  have hmemory := after_memory_of_allZero h hm k
  rw [← hreach.eq_after] at hmemory
  have hhalt : u.executeInstruction.1.isHalt = true := congrArg Prod.fst hlast
  rw [Emulator.executeInstruction_isHalt, fetchedWord_of_allZero (hmemory ▸ h) (hmemory ▸ hm)]
    at hhalt
  exact absurd hhalt (by decide)

end Zeros

end Functional

namespace Executables

/-- The program file is not there, or holds less than `2 ^ 31` bytes, all of them zero. -/
def Blank (files : Files) (inputFile : Path) : Prop :=
  forall text, files inputFile = some text ->
    text.length < 2 ^ 31 ∧ forall b, b ∈ bytesOf text -> b = 0#8

theorem exists_initialMemory_of_blank {files : Files} {inputFile : Path}
    (hinit : files "init_mem_image".toList = none) (h : Blank files inputFile) :
    exists mem, initialMemory files inputFile = some mem ∧ mem.AllZero := by
  have hcleared := MemoryStore.allZero_cleared 0#32 memorySize
  have hprepare : prepareMemory (imageFuel none) none (MemoryStore.cleared 0#32 memorySize) =
      some (0, MemoryStore.cleared 0#32 memorySize) := rfl
  unfold initialMemory
  dsimp only
  rw [hinit, hprepare, Option.bind_some, if_neg (not_not.mpr rfl)]
  cases hfile : files inputFile with
  | none =>
      exact ⟨_, rfl, hcleared⟩
  | some text =>
      rcases h text hfile with ⟨hlength, hbytes⟩
      have hshort : (bytesOf text).length < 2 ^ 31 := by
        unfold bytesOf
        rw [List.length_map]
        exact hlength
      rw [Option.map_some, MemoryStore.loadFromFile_of_short hshort]
      exact ⟨_, rfl, hcleared.loadBytes (by decide) hbytes
        (Nat.lt_trans hshort (by decide))⟩

end Executables

open Executables

/-- Without an initial image and a program, or with a program of zeros, and with a valid
configuration, neither executable comes to an end: both execute the zero word for ever. -/
theorem executables_run_forever (writable : Path -> Bool) (fuel : Nat)
    (name inputFile cacheFile : Path) (rest : List Path) (files : Files) (ic dc : ValidConfig)
    (hinit : files "init_mem_image".toList = none) (hblank : Blank files inputFile)
    (hconfig : Configures files cacheFile ic dc) :
    (exists mem, initialMemory files inputFile = some mem ∧
        (forall n info, info ∈ Cycle.executed n (Functional.initEmulator mem) ->
          info.instruction = 0#32) ∧
        forall n s,
          Cycle.machine.Reaches n (Cycle.initSimulator ic.toCacheConfig dc.toCacheConfig mem) s ->
            forall info, info ∈ s.log.infos -> info.instruction = 0#32) ∧
      functMain writable fuel (name :: inputFile :: rest) files = none ∧
      cycleMain writable fuel [name, inputFile, cacheFile] files = none := by
  rcases exists_initialMemory_of_blank hinit hblank with ⟨mem, hmem, hzero⟩
  have hentries : mem.numEntries < 2 ^ 32 := by
    rw [numEntries_initialMemory hmem]
    decide
  have hwords : forall n info, info ∈ Cycle.executed n (Functional.initEmulator mem) ->
      info.instruction = 0#32 :=
    fun _ _ hinfo => Functional.instruction_of_allZero hzero hentries hinfo
  have hnever := fun n e => Functional.not_haltsAfter_of_allZero
    (e := Functional.initEmulator mem) hzero hentries n e
  refine ⟨⟨mem, hmem, hwords, ?_⟩, ?_, ?_⟩
  · intro n s hreach info hinfo
    rw [(Cycle.reaches_executes hreach).infos] at hinfo
    exact hwords _ info hinfo
  · apply Option.eq_none_iff_forall_ne_some.mpr
    intro r hrun
    rcases (functMain_returns_iff hmem).mp ⟨fuel, hrun⟩ with ⟨n, e, _, hhalts, _⟩
    exact hnever n e hhalts
  · apply Option.eq_none_iff_forall_ne_some.mpr
    intro r hrun
    rcases (cycleMain_returns_iff hconfig hmem).mp ⟨fuel, hrun⟩ with ⟨n, s, _, hhalts, _⟩
    exact hnever _ _ (Cycle.haltsAfter_executed hhalts).1

def Executables.configOnly : Files := fun path =>
  if path = "config".toList then some "8\n8\n1\n5\n8\n8\n1\n5\n".toList else none

theorem executables_run_forever_missing :
    (exists mem, initialMemory configOnly "typo.bin".toList = some mem ∧
        forall n info, info ∈ Cycle.executed n (Functional.initEmulator mem) ->
          info.instruction = 0#32) ∧
      functMain (fun _ => true) 1000000 ["sim_funct".toList, "typo.bin".toList] configOnly =
        none ∧
      cycleMain (fun _ => true) 1000000 ["sim_cycle".toList, "typo.bin".toList,
        "config".toList] configOnly = none := by
  have hconfig : Configures configOnly "config".toList (ValidConfig.oneBlock 5#32)
      (ValidConfig.oneBlock 5#32) := ⟨_, rfl, rfl⟩
  have hblank : Blank configOnly "typo.bin".toList := by
    intro text htext
    cases htext
  rcases executables_run_forever (fun _ => true) 1000000 "sim_cycle".toList "typo.bin".toList
    "config".toList [] configOnly _ _ rfl hblank hconfig with ⟨_, _, hcycle⟩
  rcases executables_run_forever (fun _ => true) 1000000 "sim_funct".toList "typo.bin".toList
    "config".toList [] configOnly _ _ rfl hblank hconfig with ⟨⟨mem, hmem, hwords, _⟩, hfunct, _⟩
  exact ⟨⟨mem, hmem, hwords⟩, hfunct, hcycle⟩

end PipeSim
