import PipeSim.Cycle.Simulator
import PipeSim.Library.Footprint
import PipeSim.Machine.ImageFile
import PipeSim.Machine.Loading
import PipeSim.Program.Config
import PipeSim.Program.Dumps
import PipeSim.Program.PipeTrace
import Mathlib.Data.List.DropRight

/-!
# The two executables

The `main` functions of the simulators, on a store of files.  A file is known by the path it
is given by and is a list of characters, one for each byte; what goes to the terminal is left
out.  Some files may not be writable, then nothing is dumped into them.
-/

namespace PipeSim

open Library

abbrev Path := List Char

abbrev Files := Path -> Option (List Char)

/-- What is done with files; there is no result when it goes on for ever or is not defined. -/
abbrev FileProgram (ω : Type) := Program Path (Option (List Char)) ω

/-- How an executable ends: with a status, or by `abort`. -/
inductive Exit where
  | exited (status : Status)
  | aborted
deriving DecidableEq, Repr

namespace Executables

/-- `getBaseFilename`: the path up to its last dot. -/
def getBaseFilename (inputPath : Path) : Path :=
  if '.' ∈ inputPath then (inputPath.rdropWhile fun c => c != '.').dropLast else inputPath

/-!
## Writing
-/

section Writing

variable (writable : Path -> Bool)

def writeFile (path : Path) (text : List Char) : FileProgram Status := do
  if writable path then
    Program.writeAt path (some text)
    return .success
  else return .error

/-- An `ofstream` on the path that keeps what is there. -/
def appendFile (path : Path) (text : List Char) : FileProgram Status := do
  let contents <- Program.readAt path
  writeFile writable path (contents.getD [] ++ text)

def dumpRegisterState (lines : List DumpLine) (base : Path) : FileProgram Status :=
  writeFile writable (base ++ "_reg_state.out".toList) (registerFile lines)

def dumpMemoryState (mem : MemoryStore) (base : Path) : FileProgram Unit := do
  let memRange <- Program.readAt "print_mem_range".toList
  let (startAddr, endAddr) := printMemRange memRange
  let text <- Program.ofOption (memoryFile mem startAddr endAddr)
  let _ <- writeFile writable (base ++ "_mem_state.out".toList) text
  return ()

def dumpRegMem (e : Emulator) (base : Path) : FileProgram Unit := do
  let _ <- dumpRegisterState writable e.dumpRegisters base
  dumpMemoryState writable e.memory base

def dumpSimStats (stats : SimulationStats) (base : Path) : FileProgram Status :=
  writeFile writable (base ++ "_sim_stats.out".toList) (statsFile stats)

/-- `dumpPipeState`; the static flag `fileInit` tells whether it has been called before. -/
def dumpPipeState (fileInit : Bool) (state : Cycle.PipeState) (base : Path) :
    FileProgram Status :=
  let path := base ++ "_pipe_state.out".toList
  let line := Cycle.dumpPipeState state
  if fileInit then appendFile writable path line else writeFile writable path line

def dumpPipeStates (fileInit : Bool) (base : Path) : List Cycle.PipeState -> FileProgram Unit
  | [] => return ()
  | state :: states => do
      let _ <- dumpPipeState writable fileInit state base
      dumpPipeStates true base states

end Writing

/-!
## Loading
-/

def bytesOf (text : List Char) : List Byte := text.map fun c => BitVec.ofNat 8 c.toNat

def imageFuel (initMem : Option (List Char)) : Nat := (initMem.getD []).length + 2

/-- `new MemoryStore(0, MEMORY_SIZE, fileName)`; no memory when the process is aborted. -/
def newMemoryStore (fileName : Path) : FileProgram (Option MemoryStore) := do
  let initMem <- Program.readAt "init_mem_image".toList
  let (ret, mem) <- Program.ofOption
    (prepareMemory (imageFuel initMem) initMem (MemoryStore.cleared 0#32 memorySize))
  if ret ≠ 0 then return none
  else
    let infile <- Program.readAt fileName
    return (mem.loadFromFile (infile.map bytesOf)).map Prod.snd

/-!
## The functional simulator
-/

def finalizeEmulator (writable : Path -> Bool) (e : Emulator) (output : Path) :
    FileProgram Status := do
  dumpRegMem writable e output
  let _ <- dumpSimStats writable (SimulationStats.ofCounts e.din 0#32) output
  return .success

/-- The `main` function of `sim_funct`. -/
def functMain (writable : Path -> Bool) (fuel : Nat) : List Path -> FileProgram Exit
  | _ :: inputFile :: _ => do
      let baseFilename := getBaseFilename inputFile ++ "_funct".toList
      let mem <- newMemoryStore inputFile
      match mem with
      | none => return .aborted
      | some mem =>
          let (status, e) <- Program.ofOption
            (Functional.runTillHalt fuel (Functional.initEmulator mem))
          let _ <- finalizeEmulator writable e baseFilename
          return .exited status
  | _ => return .exited .error

/-!
## The cycle simulator
-/

def usage (argv : List Path) : String :=
  "Usage: " ++ String.ofList (argv.headD []) ++ " <file.bin> <cache_config.txt>\nNote:\n" ++
    "The sim_cycle binary should take two command-line arguments indicating the name of the " ++
    "binary file to be read and the cache configuration file to be used. [See detail in " ++
    "project description document]."

/-- `parseArgs`; an error ends the process with `ERROR`. -/
def parseArgs (argv : List Path) :
    FileProgram (Except String (Path × CacheConfig × CacheConfig)) :=
  match argv with
  | [_, inputFile, cacheFile] => do
      let file <- Program.readAt cacheFile
      match file with
      | none =>
          return .error ("Failed to open cache config file: " ++ String.ofList cacheFile)
      | some text =>
          return (Config.parseConfigs (InStream.ofFile (some text))).map
            fun configs => (inputFile, configs)
  | _ => return .error (usage argv)

/-- The tables of the cache are not empty and their number is defined. -/
def Defined (config : CacheConfig) : Prop :=
  1 ≤ config.ways.toNat ∧ 1 ≤ config.blockSize.toNat ∧ 1 ≤ config.numSets.toNat

instance (config : CacheConfig) : Decidable (Defined config) := by
  unfold Defined
  infer_instance

/-- `initSimulator`; without a result for caches that are not defined. -/
def initSimulator (iCacheConfig dCacheConfig : CacheConfig) (mem : MemoryStore) :
    Option Cycle.Sim :=
  if Defined iCacheConfig ∧ Defined dCacheConfig then
    some (Cycle.initSimulator iCacheConfig dCacheConfig mem)
  else none

def finalizeSimulator (writable : Path -> Bool) (s : Cycle.Sim) (output : Path) :
    FileProgram Status := do
  dumpRegMem writable s.emulator output
  let stats := Cycle.finalizeSimulator s
  let _ <- dumpSimStats writable
    (SimulationStats.ofCounts stats.dynamicInstructions stats.totalCycles) output
  return .success

/-- The `main` function of `sim_cycle`. -/
def cycleMain (writable : Path -> Bool) (fuel : Nat) (argv : List Path) : FileProgram Exit := do
  let simArgs <- parseArgs argv
  match simArgs with
  | .error _ => return .exited .error
  | .ok (inputFile, iCacheConfig, dCacheConfig) =>
      let baseFilename := getBaseFilename inputFile ++ "_cycle".toList
      let mem <- newMemoryStore inputFile
      match mem with
      | none => return .aborted
      | some mem =>
          let s <- Program.ofOption (initSimulator iCacheConfig dCacheConfig mem)
          let (status, s) <- Program.ofOption (Cycle.runTillHalt fuel s)
          dumpPipeStates writable false baseFilename s.log.lines
          let _ <- finalizeSimulator writable s baseFilename
          return .exited status

end Executables

end PipeSim
