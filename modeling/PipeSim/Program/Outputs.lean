import PipeSim.Cycle.Accounting
import PipeSim.Cycle.Refinement
import PipeSim.Functional.StoreLog
import PipeSim.Machine.ImageErrors
import PipeSim.Program.Executables

/-!
# What the executables leave behind

An execution that comes to its end is a run of the simulator on the memory that the files
describe, and the dumps of the state in which the run ends.  The paths of the dumps are told
apart from each other and from the files that are read by how they end.
-/

namespace PipeSim

open Library

namespace Executables

/-!
## Paths
-/

def output (inputFile : Path) (simulator dump : String) : Path :=
  getBaseFilename inputFile ++ simulator.toList ++ dump.toList

def functDumps : List String := ["_reg_state.out", "_mem_state.out", "_sim_stats.out"]

def cycleDumps : List String := "_pipe_state.out" :: functDumps

section Paths

variable {inputFile path : Path} {simulator simulator' dump dump' : String}

theorem output_ne_of_not_suffix (h : ¬ dump.toList <:+ path) :
    output inputFile simulator dump ≠ path := by
  intro heq
  apply h
  rw [← heq]
  exact List.suffix_append _ _

theorem output_ne_simulator :
    output inputFile "_funct" dump ≠ output inputFile "_cycle" dump' := by
  intro heq
  unfold output at heq
  rw [List.append_assoc, List.append_assoc] at heq
  have htail := congrArg List.tail (List.append_cancel_left heq)
  have hhead : some 'f' = some 'c' := congrArg List.head? htail
  exact absurd hhead (by decide)

theorem getBaseFilename_eq (inputFile : Path) :
    getBaseFilename inputFile = inputFile ∨
      exists extension, inputFile = getBaseFilename inputFile ++ '.' :: extension := by
  unfold getBaseFilename
  split
  · rename_i hdot
    apply Or.inr
    have hne : (inputFile.rdropWhile fun c => c != '.') ≠ [] := by
      intro hnil
      exact absurd (List.rdropWhile_eq_nil_iff.mp hnil '.' hdot) (by decide)
    have hlast : (inputFile.rdropWhile fun c => c != '.').getLast hne = '.' := by
      have hstop := List.rdropWhile_last_not (fun c => c != '.') inputFile hne
      rw [bne_iff_ne, not_not] at hstop
      exact hstop
    rcases List.rdropWhile_prefix (fun c => c != '.') (l := inputFile) with ⟨extension, hsplit⟩
    refine ⟨extension, ?_⟩
    rw [← List.dropLast_append_getLast hne, hlast, List.append_assoc] at hsplit
    exact hsplit.symm
  · exact Or.inl rfl

theorem output_ne_inputFile (h : simulator.toList.head? = some '_') :
    output inputFile simulator dump ≠ inputFile := by
  intro heq
  have hfirst : (simulator.toList ++ dump.toList).head? = some '_' := by
    rw [List.head?_append, h]
    rfl
  unfold output at heq
  rw [List.append_assoc] at heq
  rcases getBaseFilename_eq inputFile with hbase | ⟨extension, hinput⟩
  · rw [hbase] at heq
    rw [List.append_right_eq_self.mp heq] at hfirst
    cases hfirst
  · have htail := List.append_cancel_left (heq.trans hinput)
    rw [htail] at hfirst
    have hdot : '.' = '_' := Option.some.inj hfirst
    exact absurd hdot (by decide)

end Paths

/-!
## Writing
-/

def written (writable : Path -> Bool) (path : Path) (text : List Char) (files : Files) : Files :=
  if writable path then Function.update files path (some text) else files

section Writing

variable {writable : Path -> Bool} {path path' : Path} {text : List Char} {files : Files}

theorem written_self (h : writable path = true) :
    written writable path text files path = some text := by
  unfold written
  rw [if_pos h, Function.update_self]

theorem written_of_ne (h : path ≠ path') : written writable path' text files path = files path := by
  unfold written
  split
  · exact Function.update_of_ne h _ _
  · rfl

theorem written_written (text' : List Char) :
    written writable path text' (written writable path text files) =
      written writable path text' files := by
  unfold written
  split
  · exact Function.update_idem _ _ _
  · rfl

theorem writeFile_apply (writable : Path -> Bool) (path : Path) (text : List Char)
    (files : Files) :
    exists status, writeFile writable path text files =
      some (status, written writable path text files) := by
  unfold writeFile written
  split
  · exact ⟨.success, rfl⟩
  · exact ⟨.error, rfl⟩

theorem appendFile_apply (h : writable path = true -> files path = some text)
    (line : List Char) :
    exists status, appendFile writable path line files =
      some (status, written writable path (text ++ line) files) := by
  unfold appendFile
  rw [Program.bind_apply, Program.readAt_apply, Option.bind_some]
  dsimp only
  cases hpath : writable path with
  | true =>
      rw [h hpath]
      exact writeFile_apply _ _ _ _
  | false =>
      unfold writeFile written
      rw [hpath]
      exact ⟨.error, rfl⟩

theorem dumpPipeStates_append {base : Path} (lines : List Cycle.PipeState)
    (hpath : path = base ++ "_pipe_state.out".toList)
    (h : writable path = true -> files path = some text) :
    dumpPipeStates writable true base lines files =
      some ((), if lines = [] then files
        else written writable path (text ++ Cycle.pipeTrace lines) files) := by
  induction lines generalizing files text with
  | nil =>
      rfl
  | cons state lines ih =>
      have hcall : dumpPipeState writable true state base =
          appendFile writable path (Cycle.dumpPipeState state) := by
        rw [hpath]
        rfl
      rcases appendFile_apply h (Cycle.dumpPipeState state) with ⟨status, happend⟩
      have htrace : Cycle.pipeTrace (state :: lines) =
          Cycle.dumpPipeState state ++ Cycle.pipeTrace lines := rfl
      unfold dumpPipeStates
      rw [Program.bind_apply, hcall, happend, Option.bind_some, ih written_self, htrace,
        if_neg (List.cons_ne_nil _ _), written_written, ← List.append_assoc]
      split
      · rename_i hnil
        subst hnil
        unfold Cycle.pipeTrace
        rw [List.flatMap_nil, List.append_nil]
      · rfl

theorem dumpPipeStates_apply {base : Path} {lines : List Cycle.PipeState} (hlines : lines ≠ []) :
    dumpPipeStates writable false base lines files =
      some ((), written writable (base ++ "_pipe_state.out".toList) (Cycle.pipeTrace lines)
        files) := by
  cases lines with
  | nil =>
      exact absurd rfl hlines
  | cons state lines =>
      have hcall : dumpPipeState writable false state base =
          writeFile writable (base ++ "_pipe_state.out".toList) (Cycle.dumpPipeState state) := rfl
      rcases writeFile_apply writable (base ++ "_pipe_state.out".toList)
        (Cycle.dumpPipeState state) files with ⟨status, hwrite⟩
      have htrace : Cycle.pipeTrace (state :: lines) =
          Cycle.dumpPipeState state ++ Cycle.pipeTrace lines := rfl
      unfold dumpPipeStates
      rw [Program.bind_apply, hcall, hwrite, Option.bind_some,
        dumpPipeStates_append lines rfl written_self, htrace, written_written]
      split
      · rename_i hnil
        subst hnil
        unfold Cycle.pipeTrace
        rw [List.flatMap_nil, List.append_nil]
      · rfl

def dumped (writable : Path -> Bool) (inputFile : Path) (simulator : String) (e : Emulator)
    (memoryText : List Char) (stats : SimulationStats) (files : Files) : Files :=
  written writable (output inputFile simulator "_sim_stats.out") (statsFile stats)
    (written writable (output inputFile simulator "_mem_state.out") memoryText
      (written writable (output inputFile simulator "_reg_state.out")
        (registerFile e.dumpRegisters) files))

def memoryText (files : Files) (m : MemoryStore) : Option (List Char) :=
  memoryFile m (printMemRange (files "print_mem_range".toList)).1
    (printMemRange (files "print_mem_range".toList)).2

section Dumps

variable {inputFile : Path} {simulator : String} {e : Emulator} {memText : List Char}
  {stats : SimulationStats}

theorem dumpRegMem_apply (hmemory : memoryText files e.memory = some memText) :
    dumpRegMem writable e (getBaseFilename inputFile ++ simulator.toList) files =
      some ((), written writable (output inputFile simulator "_mem_state.out") memText
        (written writable (output inputFile simulator "_reg_state.out")
          (registerFile e.dumpRegisters) files)) := by
  rcases writeFile_apply writable (output inputFile simulator "_reg_state.out")
    (registerFile e.dumpRegisters) files with ⟨status, hregisters⟩
  have hrange : written writable (output inputFile simulator "_reg_state.out")
      (registerFile e.dumpRegisters) files "print_mem_range".toList =
        files "print_mem_range".toList :=
    written_of_ne fun heq => output_ne_of_not_suffix (by decide) heq.symm
  rcases writeFile_apply writable (output inputFile simulator "_mem_state.out") memText
    (written writable (output inputFile simulator "_reg_state.out")
      (registerFile e.dumpRegisters) files) with ⟨status', hmem⟩
  unfold memoryText at hmemory
  unfold dumpRegMem dumpRegisterState dumpMemoryState
  unfold output at hregisters hrange hmem ⊢
  rw [Program.bind_apply, hregisters, Option.bind_some, Program.bind_apply, Program.readAt_apply,
    Option.bind_some]
  dsimp only
  rw [hrange, Program.bind_apply, Program.ofOption_apply, hmemory, Option.map_some,
    Option.bind_some, Program.bind_apply, hmem]
  rfl

theorem dumps_apply (hmemory : memoryText files e.memory = some memText) :
    (do
      dumpRegMem writable e (getBaseFilename inputFile ++ simulator.toList)
      let _ <- dumpSimStats writable stats (getBaseFilename inputFile ++ simulator.toList)
      return .success : FileProgram Status) files =
      some (.success, dumped writable inputFile simulator e memText stats files) := by
  rcases writeFile_apply writable (output inputFile simulator "_sim_stats.out") (statsFile stats)
    (written writable (output inputFile simulator "_mem_state.out") memText
      (written writable (output inputFile simulator "_reg_state.out")
        (registerFile e.dumpRegisters) files)) with ⟨status, hstats⟩
  unfold dumpSimStats
  unfold output at hstats
  rw [Program.bind_apply, dumpRegMem_apply hmemory, Option.bind_some, Program.bind_apply]
  unfold output
  dsimp only
  rw [hstats]
  rfl

theorem finalizeEmulator_apply (hmemory : memoryText files e.memory = some memText) :
    finalizeEmulator writable e (getBaseFilename inputFile ++ simulator.toList) files =
      some (.success, dumped writable inputFile simulator e memText
        (SimulationStats.ofCounts e.din 0#32) files) :=
  dumps_apply hmemory

theorem finalizeSimulator_apply {s : Cycle.Sim}
    (hmemory : memoryText files s.emulator.memory = some memText) :
    finalizeSimulator writable s (getBaseFilename inputFile ++ simulator.toList) files =
      some (.success, dumped writable inputFile simulator s.emulator memText
        (SimulationStats.ofCounts s.emulator.din s.cycleCount) files) :=
  dumps_apply hmemory

end Dumps

end Writing

/-!
## Loading
-/

/-- The memory that the files describe, if it is built. -/
def initialMemory (files : Files) (inputFile : Path) : Option MemoryStore :=
  let initMem := files "init_mem_image".toList
  (prepareMemory (imageFuel initMem) initMem (MemoryStore.cleared 0#32 memorySize)).bind
    fun prepared => if prepared.1 ≠ 0 then none
      else (prepared.2.loadFromFile ((files inputFile).map bytesOf)).map Prod.snd

section Loading

variable {files : Files} {inputFile : Path} {mem : MemoryStore}

theorem exists_prepareMemory (initMem : Option (List Char)) (mem : MemoryStore) :
    exists result, prepareMemory (imageFuel initMem) initMem mem = some result := by
  have hlength : (InStream.ofFile initMem).rest.length = (initMem.getD []).length := by
    cases initMem with
    | none =>
        rfl
    | some text =>
        rfl
  exact exists_prepareMemoryLoop (Nat.le_of_eq (congrArg (· + 2) hlength)) mem

theorem newMemoryStore_apply (files : Files) (inputFile : Path) :
    newMemoryStore inputFile files = some (initialMemory files inputFile, files) := by
  rcases exists_prepareMemory (files "init_mem_image".toList)
    (MemoryStore.cleared 0#32 memorySize) with ⟨⟨ret, mem⟩, hprepare⟩
  unfold newMemoryStore initialMemory
  rw [Program.bind_apply, Program.readAt_apply, Option.bind_some, Program.bind_apply,
    Program.ofOption_apply]
  dsimp only
  rw [hprepare, Option.map_some, Option.bind_some, Option.bind_some]
  dsimp only
  split
  · rfl
  · rfl

theorem loadFromFile_numEntries {m m' : MemoryStore} {file : Option (List Byte)} {status : Status}
    (hm : m.numEntries < 2 ^ 32) (h : m.loadFromFile file = some (status, m')) :
    m'.numEntries = m.numEntries := by
  unfold MemoryStore.loadFromFile at h
  cases file with
  | none =>
      cases h
      rfl
  | some buf =>
      dsimp only at h
      split at h
      · cases h
      · cases h
        refine forLoop_induction (fun _ (t : MemoryStore) => t.numEntries = m.numEntries) rfl ?_
        intro i t _ ht
        rw [MemoryStore.setMemValue_numEntries (by rw [ht]; exact hm), ht]

theorem numEntries_initialMemory (h : initialMemory files inputFile = some mem) :
    mem.numEntries = memorySize := by
  unfold initialMemory at h
  rcases Option.bind_eq_some_iff.mp h with ⟨prepared, hprepare, hload⟩
  have hprepared := prepareMemoryLoop_numEntries (by decide) hprepare
  split at hload
  · cases hload
  · rcases Option.map_eq_some_iff.mp hload with ⟨⟨status, mem'⟩, hloaded, rfl⟩
    exact (loadFromFile_numEntries (by rw [hprepared]; decide) hloaded).trans hprepared

theorem exists_memoryText (files : Files) {m : MemoryStore} (hm : m.numEntries = memorySize) :
    exists text, memoryText files m = some text :=
  exists_memoryFile (by rw [hm]; decide) _ _

end Loading

/-!
## Executions
-/

section Executions

variable {writable : Path -> Bool} {files : Files} {name inputFile cacheFile : Path}
  {rest : List Path} {mem : MemoryStore} {r : Exit × Files}

theorem numEntries_of_haltsAfter {n : Nat} {e : Emulator} (hmem : mem.numEntries = memorySize)
    (h : Functional.HaltsAfter n (Functional.initEmulator mem) e) :
    e.memory.numEntries = memorySize := by
  rcases h with ⟨k, u, rfl, hreach, hlast⟩
  have hm : (Functional.initEmulator mem).memory.numEntries < 2 ^ 32 := by
    change mem.numEntries < _
    rw [hmem]
    decide
  have he : e = Functional.machine.after (k + 1) (Functional.initEmulator mem) := by
    rw [Machine.after, ← hreach.eq_after, hlast]
  rw [he, Functional.after_numEntries hm]
  exact hmem

theorem functMain_of_none (writable : Path -> Bool) (name : Path) (rest : List Path) (fuel : Nat)
    (h : initialMemory files inputFile = none) :
    functMain writable fuel (name :: inputFile :: rest) files = some (.aborted, files) := by
  unfold functMain
  dsimp only
  rw [Program.bind_apply, newMemoryStore_apply, h]
  rfl

theorem functMain_returns_iff (h : initialMemory files inputFile = some mem) :
    (exists fuel, functMain writable fuel (name :: inputFile :: rest) files = some r) <->
      exists n e memText, Functional.HaltsAfter n (Functional.initEmulator mem) e ∧
        memoryText files e.memory = some memText ∧
        r = (.exited .halt, dumped writable inputFile "_funct" e memText
          (SimulationStats.ofCounts e.din 0#32) files) := by
  have happly : forall fuel, functMain writable fuel (name :: inputFile :: rest) files =
      (Functional.runTillHalt fuel (Functional.initEmulator mem)).bind fun run =>
        (finalizeEmulator writable run.2 (getBaseFilename inputFile ++ "_funct".toList) files).map
          fun final => (.exited run.1, final.2) := by
    intro fuel
    unfold functMain
    dsimp only
    rw [Program.bind_apply, newMemoryStore_apply, h]
    dsimp only [Option.bind_some]
    rw [Program.bind_apply, Program.ofOption_apply]
    cases Functional.runTillHalt fuel (Functional.initEmulator mem) with
    | none =>
        rfl
    | some run =>
        rw [Option.map_some, Option.bind_some, Option.bind_some, Program.bind_apply]
        cases finalizeEmulator writable run.2 _ files with
        | none =>
            rfl
        | some final =>
            rfl
  constructor
  · intro hex
    rcases hex with ⟨fuel, hrun⟩
    rw [happly] at hrun
    rcases Option.bind_eq_some_iff.mp hrun with ⟨⟨status, e⟩, hhalt, hdump⟩
    rw [Functional.runTillHalt_eq_runFuel] at hhalt
    rcases Option.map_eq_some_iff.mp hhalt with ⟨_, hrunFuel, heq⟩
    cases heq
    rcases Machine.finishesIn_of_runFuel hrunFuel with ⟨n, _, hfinish⟩
    rcases exists_memoryText files
      (numEntries_of_haltsAfter (numEntries_initialMemory h) hfinish) with ⟨memText, hmemory⟩
    rw [finalizeEmulator_apply hmemory] at hdump
    cases hdump
    exact ⟨n, e, memText, hfinish, hmemory, rfl⟩
  · intro hex
    rcases hex with ⟨n, e, memText, hfinish, hmemory, rfl⟩
    rcases Functional.haltsAfter_iff_runTillHalt.mp ⟨n, hfinish⟩ with ⟨fuel, hfuel⟩
    refine ⟨fuel, ?_⟩
    rw [happly, hfuel, Option.bind_some, finalizeEmulator_apply hmemory]
    rfl

theorem parseArgs_apply {text : List Char} (hfile : files cacheFile = some text) :
    parseArgs [name, inputFile, cacheFile] files =
      some ((Config.parseConfigs (InStream.ofFile (some text))).map
        fun configs => (inputFile, configs), files) := by
  unfold parseArgs
  dsimp only
  rw [Program.bind_apply, Program.readAt_apply, Option.bind_some]
  dsimp only
  rw [hfile]
  rfl

theorem initSimulator_of_valid (ic dc : ValidConfig) (mem : MemoryStore) :
    initSimulator ic.toCacheConfig dc.toCacheConfig mem =
      some (Cycle.initSimulator ic.toCacheConfig dc.toCacheConfig mem) :=
  if_pos ⟨⟨ic.ways_pos, ic.blockSize_pos, ic.numSets_pos⟩,
    ⟨dc.ways_pos, dc.blockSize_pos, dc.numSets_pos⟩⟩

/-- The configuration file describes two caches. -/
def Configures (files : Files) (cacheFile : Path) (ic dc : ValidConfig) : Prop :=
  exists text, files cacheFile = some text ∧
    Config.parseConfigs (InStream.ofFile (some text)) = .ok (ic.toCacheConfig, dc.toCacheConfig)

variable {ic dc : ValidConfig}

theorem cycleMain_apply (hconfig : Configures files cacheFile ic dc) (fuel : Nat) :
    cycleMain writable fuel [name, inputFile, cacheFile] files =
      match initialMemory files inputFile with
      | none => some (.aborted, files)
      | some mem =>
          (Cycle.runTillHalt fuel
              (Cycle.initSimulator ic.toCacheConfig dc.toCacheConfig mem)).bind fun run =>
            ((do
              dumpPipeStates writable false (getBaseFilename inputFile ++ "_cycle".toList)
                run.2.log.lines
              finalizeSimulator writable run.2 (getBaseFilename inputFile ++ "_cycle".toList) :
                FileProgram Status) files).map fun final => (.exited run.1, final.2) := by
  rcases hconfig with ⟨text, hfile, hparse⟩
  unfold cycleMain
  rw [Program.bind_apply, parseArgs_apply hfile, hparse]
  dsimp only [Except.map, Option.bind_some]
  rw [Program.bind_apply, newMemoryStore_apply]
  dsimp only [Option.bind_some]
  cases initialMemory files inputFile with
  | none =>
      rfl
  | some mem =>
      dsimp only
      rw [Program.bind_apply, initSimulator_of_valid, Program.ofOption_apply, Option.map_some,
        Option.bind_some, Program.bind_apply, Program.ofOption_apply]
      dsimp only
      cases Cycle.runTillHalt fuel
        (Cycle.initSimulator ic.toCacheConfig dc.toCacheConfig mem) with
      | none =>
          rfl
      | some run =>
          rw [Option.map_some, Option.bind_some, Option.bind_some, Program.bind_apply,
            Program.bind_apply]
          cases dumpPipeStates writable false _ run.2.log.lines files with
          | none =>
              rfl
          | some traced =>
              rw [Option.bind_some, Option.bind_some, Program.bind_apply]
              cases finalizeSimulator writable run.2 _ traced.2 with
              | none =>
                  rfl
              | some final =>
                  rfl

def cycleFiles (writable : Path -> Bool) (inputFile : Path) (s : Cycle.Sim)
    (memText : List Char) (files : Files) : Files :=
  dumped writable inputFile "_cycle" s.emulator memText
    (SimulationStats.ofCounts s.emulator.din s.cycleCount)
    (written writable (output inputFile "_cycle" "_pipe_state.out")
      (Cycle.pipeTrace s.log.lines) files)

theorem cycleMain_returns_iff (hconfig : Configures files cacheFile ic dc)
    (h : initialMemory files inputFile = some mem) :
    (exists fuel, cycleMain writable fuel [name, inputFile, cacheFile] files = some r) <->
      exists n s memText,
        Cycle.HaltsAfter n (Cycle.initSimulator ic.toCacheConfig dc.toCacheConfig mem) s ∧
        memoryText files s.emulator.memory = some memText ∧
        r = (.exited .halt, cycleFiles writable inputFile s memText files) := by
  have hdumps : forall {n : Nat} {s : Cycle.Sim} {memText : List Char},
      Cycle.HaltsAfter n (Cycle.initSimulator ic.toCacheConfig dc.toCacheConfig mem) s ->
      memoryText files s.emulator.memory = some memText ->
        (do
          dumpPipeStates writable false (getBaseFilename inputFile ++ "_cycle".toList) s.log.lines
          finalizeSimulator writable s (getBaseFilename inputFile ++ "_cycle".toList) :
            FileProgram Status) files =
          some (.success, cycleFiles writable inputFile s memText files) := by
    intro n s memText hfinish hmemory
    have hlines : s.log.lines ≠ [] := by
      apply List.ne_nil_of_length_pos
      rw [(Cycle.haltsAfter_numbered hfinish).length]
      exact Nat.succ_pos _
    have hrange : memoryText (written writable (output inputFile "_cycle" "_pipe_state.out")
        (Cycle.pipeTrace s.log.lines) files) s.emulator.memory = some memText := by
      unfold memoryText
      rw [written_of_ne fun heq => output_ne_of_not_suffix (by decide) heq.symm]
      exact hmemory
    rw [Program.bind_apply, dumpPipeStates_apply hlines, Option.bind_some]
    exact finalizeSimulator_apply hrange
  constructor
  · intro hex
    rcases hex with ⟨fuel, hrun⟩
    rw [cycleMain_apply hconfig, h] at hrun
    rcases Option.bind_eq_some_iff.mp hrun with ⟨⟨status, s⟩, hhalt, hdump⟩
    rw [Cycle.runTillHalt_eq_runFuel] at hhalt
    rcases Option.map_eq_some_iff.mp hhalt with ⟨_, hrunFuel, heq⟩
    cases heq
    rcases Machine.finishesIn_of_runFuel hrunFuel with ⟨n, _, hfinish⟩
    rcases exists_memoryText files (numEntries_of_haltsAfter (numEntries_initialMemory h)
      (Cycle.haltsAfter_executed hfinish).1) with ⟨memText, hmemory⟩
    dsimp only at hdump
    rw [hdumps hfinish hmemory] at hdump
    cases hdump
    exact ⟨n, s, memText, hfinish, hmemory, rfl⟩
  · intro hex
    rcases hex with ⟨n, s, memText, hfinish, hmemory, rfl⟩
    rcases Cycle.haltsAfter_iff_runTillHalt.mp ⟨n, hfinish⟩ with ⟨fuel, hfuel⟩
    refine ⟨fuel, ?_⟩
    rw [cycleMain_apply hconfig, h]
    dsimp only
    rw [hfuel, Option.bind_some, hdumps hfinish hmemory]
    rfl

end Executions

/-!
## A program with a trap
-/

/-- `addiu $1, $0, 5` and an illegal word in the program; behind the exception vector
`sw $1, 256($0)` and the halt word in the initial image; a configuration with a block in each
cache. -/
def trapFiles : Files := fun path =>
  if path = "trap.bin".toList then
    some ([0x24, 0x01, 0x00, 0x05, 0xfc, 0x00, 0x00, 0x00].map Char.ofNat)
  else if path = "init_mem_image".toList then some "0x8000 0xac010100 0x8004 0xfeedfeed".toList
  else if path = "config".toList then some "8\n8\n1\n5\n8\n8\n1\n7\n".toList
  else none

theorem trapFiles_configures : Configures trapFiles "config".toList (ValidConfig.oneBlock 5#32)
    (ValidConfig.oneBlock 7#32) := ⟨_, rfl, rfl⟩

/-- The run of that program: the last of four instructions halts, and one of them traps. -/
def TrapRun (mem : MemoryStore) : Prop :=
  (forall k, k < 3 ->
      (Functional.machine (Functional.machine.after k (Functional.initEmulator mem))).1 = false) ∧
    (Functional.machine (Functional.machine.after 3 (Functional.initEmulator mem))).1 = true ∧
    ((Cycle.executed 4 (Functional.initEmulator mem)).filter InstructionInfo.completes).map
        InstructionInfo.instruction =
      [0x24010005#32, 0xac010100#32, haltWord]

instance (mem : MemoryStore) : Decidable (TrapRun mem) := by
  unfold TrapRun
  infer_instance

theorem trapFiles_memory : exists mem, initialMemory trapFiles "trap.bin".toList = some mem ∧
    Functional.HaltsAfter 4 (Functional.initEmulator mem)
      (Functional.machine.after 4 (Functional.initEmulator mem)) ∧ TrapRun mem := by
  have hany : (initialMemory trapFiles "trap.bin".toList).any (fun mem => decide (TrapRun mem)) =
      true := by
    decide +kernel
  rcases (Option.any_eq_true _ _).mp hany with ⟨mem, hmem, hdecide⟩
  have hrun := of_decide_eq_true hdecide
  exact ⟨mem, hmem, Machine.finishesIn_after hrun.1 hrun.2.1, hrun⟩

theorem functMain_trapFiles : exists fuel files,
    functMain (fun _ => true) fuel ["sim_funct".toList, "trap.bin".toList] trapFiles =
      some (.exited .halt, files) := by
  rcases trapFiles_memory with ⟨mem, hmem, hrun, _⟩
  rcases exists_memoryText trapFiles (numEntries_of_haltsAfter (numEntries_initialMemory hmem)
    hrun) with ⟨memText, hmemory⟩
  rcases (functMain_returns_iff hmem).mpr ⟨4, _, memText, hrun, hmemory, rfl⟩ with ⟨fuel, hfunct⟩
  exact ⟨fuel, _, hfunct⟩

theorem cycleMain_trapFiles : exists fuel files,
    cycleMain (fun _ => true) fuel ["sim_cycle".toList, "trap.bin".toList, "config".toList]
      trapFiles = some (.exited .halt, files) := by
  rcases trapFiles_memory with ⟨mem, hmem, hrun, _⟩
  rcases exists_memoryText trapFiles (numEntries_of_haltsAfter (numEntries_initialMemory hmem)
    hrun) with ⟨memText, hmemory⟩
  rcases Cycle.exists_haltsAfter_of_functional (ValidConfig.oneBlock 5#32).toCacheConfig
    (ValidConfig.oneBlock 7#32).toCacheConfig mem hrun with ⟨n, s, hcycle, hemulator⟩
  rw [← hemulator] at hmemory
  rcases (cycleMain_returns_iff trapFiles_configures hmem).mpr
    ⟨n, s, memText, hcycle, hmemory, rfl⟩ with ⟨fuel, hmain⟩
  exact ⟨fuel, _, hmain⟩

end Executables

end PipeSim
