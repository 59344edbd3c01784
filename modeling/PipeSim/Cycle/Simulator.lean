import PipeSim.Cycle.State
import PipeSim.Library.Transition

/-!
# The cycle simulator

One iteration of the loop of `runCycles` takes one of four paths: it serves a
pending exception bubble, it serves a stall, it fetches an instruction that
raises an exception, or it fetches an instruction that enters the pipeline.  The
halt word is fetched on the last path, which then drains the pipeline and leaves
the loop.
-/

namespace PipeSim

open Library

namespace Cycle

def dump (s : Sim) : Sim :=
  { s with log := { s.log with lines := s.log.lines ++ [s.pipeState] } }

def ingestBuffer (input : Word) (s : Sim) : Sim :=
  { s with
    memAddresses :=
      { a0 := input
        a1 := s.memAddresses.a0
        a2 := s.memAddresses.a1
        a3 := s.memAddresses.a2
        a4 := s.memAddresses.a3 } }

def ingestPipeline (input : Slot) (s : Sim) : Sim :=
  { s with
    pipeState :=
      { cycle := s.cycleCount
        ifInstr := input
        idInstr := s.pipeState.ifInstr
        exInstr := s.pipeState.idInstr
        memInstr := s.pipeState.exInstr
        wbInstr := s.pipeState.memInstr } }

def ingestBubble (s : Sim) : Sim :=
  ingestBuffer noAddress (ingestPipeline Slot.bubble s)

/-- The shuffle of an `xStall` cycle: a bubble enters EX. -/
def bubbleEx (s : Sim) : Sim :=
  { s with
    pipeState :=
      { s.pipeState with
        wbInstr := s.pipeState.memInstr
        memInstr := s.pipeState.exInstr
        exInstr := Slot.bubble }
    memAddresses :=
      { s.memAddresses with
        a4 := s.memAddresses.a3
        a3 := s.memAddresses.a2
        a2 := noAddress } }

/-- The shuffle of a `dStall` or `iMiss` cycle: a bubble enters ID. -/
def bubbleId (s : Sim) : Sim :=
  { s with
    pipeState :=
      { s.pipeState with
        wbInstr := s.pipeState.memInstr
        memInstr := s.pipeState.exInstr
        exInstr := s.pipeState.idInstr
        idInstr := Slot.bubble }
    memAddresses :=
      { s.memAddresses with
        a4 := s.memAddresses.a3
        a3 := s.memAddresses.a2
        a2 := s.memAddresses.a1
        a1 := noAddress } }

/-- The shuffle of a `dMiss` cycle: WB is wiped and everything else waits. -/
def freeze (s : Sim) : Sim :=
  { s with pipeState := { s.pipeState with wbInstr := Slot.bubble } }

def shuffle (s : Sim) : Sim :=
  if s.dMiss = 0#32 then
    if 0#32 < s.xStall then bubbleEx s
    else if 0#32 < s.dStall ∨ 0#32 < s.iMiss then bubbleId s
    else s
  else freeze s

def countDown (counter : Word) : Word :=
  if 0#32 < counter then counter - 1#32 else counter

def countDownAll (s : Sim) : Sim :=
  { s with
    iMiss := countDown s.iMiss
    dMiss := countDown s.dMiss
    dStall := countDown s.dStall
    xStall := countDown s.xStall }

/-- The delay of a cache access: `access(..) ? 0 : config.missLatency`. -/
def missDelay (accessed : Bool × Cache) : Word :=
  if accessed.1 then 0#32 else accessed.2.config.missLatency

def accessData (address : Word) (operation : CacheOperation) (s : Sim) : Sim :=
  let accessed := s.dCache.access address operation
  { s with
    dCache := accessed.2
    dMiss := s.dMiss + missDelay accessed
    log := { s.log with dAccesses := s.log.dAccesses ++ [(address, operation)] } }

def probeLoad (s : Sim) : Sim :=
  if isLoad s.pipeState.memInstr.instr ∧ s.memAddresses.a3 ≠ noAddress then
    accessData s.memAddresses.a3 .read s
  else s

def probeStore (s : Sim) : Sim :=
  if isStore s.pipeState.memInstr.instr ∧ s.memAddresses.a3 ≠ noAddress then
    accessData s.memAddresses.a3 .write s
  else s

/-- Present the instruction in MEM to the data cache. -/
def probeData (s : Sim) : Sim := probeStore (probeLoad s)

def Stalled (s : Sim) : Prop :=
  0#32 < s.iMiss ∨ 0#32 < s.dMiss ∨ 0#32 < s.dStall ∨ 0#32 < s.xStall

instance (s : Sim) : Decidable (Stalled s) := by
  unfold Stalled
  infer_instance

def StallsOn (s : Sim) : Prop :=
  0#32 < s.iMiss ∨ 0#32 < s.dStall ∨ 0#32 < s.xStall

instance (s : Sim) : Decidable (StallsOn s) := by
  unfold StallsOn
  infer_instance

/-- The body of the loop while `except` is positive. -/
def exceptPath (s : Sim) : Sim :=
  ingestBubble { s with except := s.except - 1#32 }

/-- The body of the loop while some stall counter is positive. -/
def stallPath (s : Sim) : Sim :=
  let s := countDownAll (shuffle s)
  if StallsOn s then probeData s else s

def fetchInstruction (s : Sim) : Sim :=
  { s with
    emulator := s.emulator.executeInstruction.2
    log := { s.log with
      infos := s.log.infos ++ [s.emulator.executeInstruction.1] } }

/-- The body of the loop after an instruction that raised an exception; `bubbles`
cycles of bubbles follow. -/
def trapPath (bubbles : Word) (s : Sim) : Sim :=
  ingestBubble { s with except := bubbles }

def bufferedAddress (info : InstructionInfo) : Word :=
  if isLoad info.instruction then info.loadAddress
  else if isStore info.instruction then info.storeAddress
  else noAddress

def accessInstruction (address : Word) (s : Sim) : Sim :=
  let accessed := s.iCache.access address .read
  { s with
    iCache := accessed.2
    iMiss := missDelay accessed
    log := { s.log with iAccesses := s.log.iAccesses ++ [address] } }

/-- The nested test that sets `dStall`; a load right in front of the branch overrides
one a stage further on. -/
def branchStall (fin din xin dStall : Word) : Word :=
  if loadBranch fin din = loadBranch fin xin ∧ loadBranch fin din = 2#32 then 2#32
  else if loadBranch fin din = 2#32 ∨ loadBranch fin xin = 2#32 then
    loadBranch fin din + loadBranch fin xin / 2#32
  else dStall

def detectHazards (s : Sim) : Sim :=
  let fin := s.pipeState.ifInstr.instr
  let din := s.pipeState.idInstr.instr
  let xin := s.pipeState.exInstr.instr
  { s with
    xStall := opBranch din xin + loadOp din xin
    dStall := branchStall fin din xin s.dStall }

def slotOf (info : InstructionInfo) (execution : Nat) : Slot where
  instr := info.instruction
  tag := some execution

/-- The body of the loop after an instruction that completes, up to the test for
the halt word. -/
def normalPath (info : InstructionInfo) (execution : Nat) (s : Sim) : Sim :=
  let s := ingestPipeline (slotOf info execution) s
  let s := ingestBuffer (bufferedAddress info) s
  detectHazards (probeData (accessInstruction info.pc s))

/-- One iteration of the loop that flushes the pipeline behind the halt word. -/
def drainStep (s : Sim) : Sim :=
  let s := dump s
  let s := { s with cycleCount := s.cycleCount + 1#32 }
  ingestBubble s

def haltDrain (s : Sim) : Sim := forLoop 4 (fun _ => drainStep) s

def stampCycle (s : Sim) : Sim :=
  { s with pipeState := { s.pipeState with cycle := s.cycleCount } }

/-- One iteration of the loop of `runCycles`; status `halt` stands for its
`break`. -/
def cycleBody (s : Sim) : Status × Sim :=
  let s := stampCycle s
  if 0#32 < s.except then (.success, exceptPath s)
  else if Stalled s then (.success, stallPath s)
  else
    let info := s.emulator.executeInstruction.1
    let execution := s.log.infos.length
    let s := fetchInstruction s
    if info.isOverflow then (.success, trapPath 2#32 s)
    else if !info.isValid then (.success, trapPath 1#32 s)
    else
      let s := normalPath info execution s
      if info.isHalt then (.halt, haltDrain s) else (.success, s)

/-- The code of `runCycles` after its loop. -/
def finishCycle (s : Sim) : Sim :=
  let s := dump s
  { s with cycleCount := s.cycleCount + 1#32 }

/-- The loop of `runCycles`; `none` when the fuel runs out. -/
def runCyclesLoop (cycles : Word) : Nat -> Word -> Sim -> Option (Status × Sim)
  | 0, _, _ => none
  | fuel + 1, count, s =>
      if cycles = 0#32 ∨ count < cycles then
        match cycleBody s with
        | (.halt, s') => some (.halt, s')
        | (_, s') => runCyclesLoop cycles fuel (count + 1#32) s'
      else some (.success, s)

def runCycles (fuel : Nat) (cycles : Word) (s : Sim) : Option (Status × Sim) :=
  (runCyclesLoop cycles fuel 0#32 s).map fun r => (r.1, finishCycle r.2)

def runTillHalt : Nat -> Sim -> Option (Status × Sim)
  | 0, _ => none
  | fuel + 1, s =>
      match runCycles 2 1#32 s with
      | some (.halt, s') => some (.halt, s')
      | some (_, s') => runTillHalt fuel s'
      | none => none

structure SimulationStats where
  dynamicInstructions : Word
  totalCycles : Word
deriving DecidableEq, Repr

def finalizeSimulator (s : Sim) : SimulationStats where
  dynamicInstructions := s.emulator.din
  totalCycles := s.cycleCount

/-!
## One call of `runCycles(1)`

`runTillHalt` only ever asks for a single cycle.  Such a call is one step of a
machine, finishing when the status is `halt`.
-/

/-- One call of `runCycles(1)`. -/
def machine : Machine Sim := fun s =>
  (decide ((cycleBody s).1 = .halt), finishCycle (cycleBody s).2)

theorem cycleBody_status (s : Sim) :
    (cycleBody s).1 = .success ∨ (cycleBody s).1 = .halt := by
  unfold cycleBody
  dsimp only
  split
  · exact Or.inl rfl
  · split
    · exact Or.inl rfl
    · split
      · exact Or.inl rfl
      · split
        · exact Or.inl rfl
        · split
          · exact Or.inr rfl
          · exact Or.inl rfl

theorem runCycles_one (s : Sim) :
    runCycles 2 1#32 s = some ((cycleBody s).1, finishCycle (cycleBody s).2) := by
  unfold runCycles
  rw [runCyclesLoop]
  cases hbody : cycleBody s with
  | mk status s' =>
      have hstatus := cycleBody_status s
      rw [hbody] at hstatus
      rcases hstatus with hsuccess | hhalt
      · dsimp only at hsuccess
        subst hsuccess
        simp [runCyclesLoop]
      · dsimp only at hhalt
        subst hhalt
        simp

theorem runTillHalt_eq_runFuel (fuel : Nat) (s : Sim) :
    runTillHalt fuel s = (machine.runFuel fuel s).map fun s' => (.halt, s') := by
  induction fuel generalizing s with
  | zero =>
      rfl
  | succ fuel ih =>
      rw [runTillHalt, runCycles_one, Machine.runFuel]
      rcases cycleBody_status s with hsuccess | hhalt
      · simp [machine, hsuccess, ih]
      · simp [machine, hhalt]

def HaltsAfter (n : Nat) (s s' : Sim) : Prop :=
  machine.FinishesIn n s s'

theorem haltsAfter_iff_runTillHalt {s s' : Sim} :
    (exists n, HaltsAfter n s s') <->
      exists fuel, runTillHalt fuel s = some (.halt, s') :=
  Machine.exists_finishesIn_iff_driver runTillHalt_eq_runFuel

theorem exists_runTillHalt_after {s : Sim} {n : Nat}
    (h : forall k, k < n -> (machine (machine.after k s)).1 = false)
    (hlast : (machine (machine.after n s)).1 = true) :
    exists fuel, runTillHalt fuel s = some (.halt, machine.after (n + 1) s) :=
  haltsAfter_iff_runTillHalt.mp ⟨n + 1, Machine.finishesIn_after h hlast⟩

end Cycle
end PipeSim
