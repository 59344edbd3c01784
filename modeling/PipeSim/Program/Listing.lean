import PipeSim.Program.Agreement

/-!
# What the output files tell about the execution

The last stage of a pipeline trace is a listing of the program: without the bubbles, it shows
the instructions that the program executes, in order, and the statistics count them and the
lines.
-/

namespace PipeSim

open Library

namespace Cycle

open Disassembler

section Lists

variable {α β γ : Type}

end Lists

section Runs

variable {ic dc : CacheConfig} {mem : MemoryStore} {fuel : Nat} {s : Sim}

end Runs

end Cycle

open Executables

end PipeSim
