import PipeSim.Cycle.Effects
import PipeSim.Cycle.Refinement

/-!
# Cycle accounting

Every call of `runCycles(1)` dumps one line and counts one cycle, except for the last one,
which does so five times.  A call executes an instruction, serves a stall or feeds in a
bubble behind an exception.
-/

namespace PipeSim

open Library

namespace Cycle

/-!
## Executed instructions
-/

def executed (n : Nat) (e : Emulator) : List InstructionInfo :=
  (List.range n).map fun k => (Functional.machine.after k e).executeInstruction.1

theorem executed_succ (n : Nat) (e : Emulator) :
    executed (n + 1) e =
      executed n e ++ [(Functional.machine.after n e).executeInstruction.1] := by
  unfold executed
  rw [List.range_succ, List.map_append]
  rfl

/-- A state of the cycle simulator and the instructions executed in front of it. -/
structure Executes (e : Emulator) (s : Sim) : Prop where
  reaches : Functional.machine.Reaches s.log.infos.length e s.emulator
  infos : s.log.infos = executed s.log.infos.length e

theorem functional_step {s : Sim} (hhalt : (nextInfo s).isHalt = false) :
    Functional.machine s.emulator = (false, s.emulator.executeInstruction.2) :=
  Prod.ext hhalt rfl

theorem isHalt_of_trap {s : Sim} (htrap : (nextInfo s).completes = false) :
    (nextInfo s).isHalt = false := by
  cases hhalt : (nextInfo s).isHalt with
  | true =>
      rw [completes_of_isHalt hhalt] at htrap
      cases htrap
  | false =>
      rfl

theorem Executes.infos_append {e : Emulator} {s : Sim} (h : Executes e s) :
    s.log.infos ++ [nextInfo s] = executed (s.log.infos.length + 1) e := by
  rw [executed_succ, ← h.infos, ← h.reaches.eq_after]
  rfl

theorem Executes.snoc {e : Emulator} {s s' : Sim} (h : Executes e s)
    (hhalt : (nextInfo s).isHalt = false)
    (hemulator : s'.emulator = s.emulator.executeInstruction.2)
    (hinfos : s'.log.infos = s.log.infos ++ [nextInfo s]) : Executes e s' := by
  have hlength : s'.log.infos.length = s.log.infos.length + 1 := by
    rw [hinfos, List.length_append]
    rfl
  constructor
  · rw [hlength, hemulator]
    exact h.reaches.tail (functional_step hhalt)
  · rw [hlength, hinfos]
    exact h.infos_append

theorem step_executes {e : Emulator} {s s' : Sim} (h : Executes e s) (hstep : Step s false s') :
    Executes e s' := by
  cases hstep with
  | except _ =>
      exact ⟨h.reaches, h.infos⟩
  | stall _ _ =>
      constructor
      · rw [stallStep_infos, stallStep_emulator]
        exact h.reaches
      · rw [stallStep_infos]
        exact h.infos
  | trap _ htrap =>
      exact h.snoc (isHalt_of_trap htrap) rfl rfl
  | fetch _ _ hhalt =>
      apply h.snoc hhalt (fetchStep_emulator s)
      unfold fetchStep
      rw [finishCycle_infos, fetchPath_infos]

section Runs

variable {ic dc : CacheConfig} {mem : MemoryStore} {n : Nat} {s : Sim}

theorem reaches_executes (h : machine.Reaches n (initSimulator ic dc mem) s) :
    Executes (Functional.initEmulator mem) s :=
  h.invariant (fun _ _ hs hstep => step_executes hs (step_of_machine hstep))
    ⟨Machine.Reaches.refl _, rfl⟩

/-- A finished run has executed the instructions of the functional run. -/
theorem haltsAfter_executed (h : HaltsAfter n (initSimulator ic dc mem) s) :
    Functional.HaltsAfter s.log.infos.length (Functional.initEmulator mem) s.emulator ∧
      s.log.infos = executed s.log.infos.length (Functional.initEmulator mem) := by
  rcases haltsAfter_last h with ⟨k, u, _, hreach, _, hhalt, rfl⟩
  have hexecutes := reaches_executes hreach
  have hlength : (haltStep u).log.infos.length = u.log.infos.length + 1 := by
    rw [haltStep_infos, List.length_append]
    rfl
  rw [hlength, haltStep_infos, haltStep_emulator]
  exact ⟨⟨_, u.emulator, rfl, hexecutes.reaches, Prod.ext hhalt rfl⟩, hexecutes.infos_append⟩

end Runs

/-!
## Dumped lines
-/

def lineCycles (s : Sim) : List Word := s.log.lines.map fun line => line.cycle

theorem step_cycle {s s' : Sim} (h : Step s false s') : s'.pipeState.cycle = s.cycleCount := by
  cases h with
  | except _ =>
      rfl
  | stall _ hstalled =>
      rcases stallStep_shuffle hstalled with ⟨t, hcases, hpipe, _⟩
      rw [hpipe]
      cases hcases with
      | freeze _ =>
          rfl
      | bubbleEx _ _ =>
          rfl
      | bubbleId _ _ =>
          rfl
  | trap _ _ =>
      rfl
  | fetch _ _ _ =>
      unfold fetchStep
      rw [finishCycle_pipeState, fetchPath_pipeState]
      rfl

theorem haltStep_lineCycles (s : Sim) :
    (haltStep s).cycleCount = s.cycleCount + 5#32 ∧
      lineCycles (haltStep s) =
        lineCycles s ++ (List.range 5).map fun i => s.cycleCount + BitVec.ofNat 32 i := by
  have hcycle : (fetchPath s).pipeState.cycle = s.cycleCount := by
    rw [fetchPath_pipeState]
    rfl
  unfold lineCycles
  rw [← fetchPath_lines s]
  have hcount := fetchPath_cycleCount s
  unfold haltStep
  generalize fetchPath s = t at hcycle hcount
  rw [← hcount]
  rw [← hcount] at hcycle
  constructor
  · change t.cycleCount + 1#32 + 1#32 + 1#32 + 1#32 + 1#32 = t.cycleCount + 5#32
    rw [BitVec.add_assoc, BitVec.add_assoc, BitVec.add_assoc, BitVec.add_assoc]
    rfl
  · simp [finishCycle, haltDrain, forLoop, drainStep, dump, ingestBubble, ingestBuffer,
      ingestPipeline, hcycle, List.range_succ, BitVec.add_assoc]

/-- Line `i` shows cycle `i`, and the counter shows the number of lines, both modulo
`2 ^ 32`. -/
structure Numbered (n : Nat) (s : Sim) : Prop where
  cycles : lineCycles s = (List.range n).map fun i => BitVec.ofNat 32 i
  cycleCount : s.cycleCount = BitVec.ofNat 32 n

theorem Numbered.length {n : Nat} {s : Sim} (h : Numbered n s) : s.log.lines.length = n := by
  have hlength := congrArg List.length h.cycles
  unfold lineCycles at hlength
  rw [List.length_map, List.length_map, List.length_range] at hlength
  exact hlength

theorem step_numbered {n : Nat} {s s' : Sim} (h : Numbered n s) (hstep : Step s false s') :
    Numbered (n + 1) s' := by
  constructor
  · unfold lineCycles
    rw [step_lines hstep, List.range_succ, List.map_append, List.map_append, ← h.cycles,
      List.map_singleton, step_cycle hstep, h.cycleCount]
    rfl
  · rw [step_cycleCount hstep, h.cycleCount, BitVec.ofNat_add]

section Counts

variable {ic dc : CacheConfig} {mem : MemoryStore} {n : Nat} {s : Sim}

theorem reaches_numbered (h : machine.Reaches n (initSimulator ic dc mem) s) :
    Numbered n s := by
  generalize hs₀ : initSimulator ic dc mem = s₀ at h
  induction h with
  | refl _ =>
      subst hs₀
      exact ⟨rfl, rfl⟩
  | tail _ hlast ih =>
      exact step_numbered (ih hs₀) (step_of_machine hlast)

/-- The cycles that a run takes are its dumped lines. -/
theorem haltsAfter_numbered (h : HaltsAfter n (initSimulator ic dc mem) s) :
    Numbered (n + 4) s := by
  rcases haltsAfter_last h with ⟨k, u, rfl, hreach, _, _, rfl⟩
  have hnumbered := reaches_numbered hreach
  rcases haltStep_lineCycles u with ⟨hcount, hcycles⟩
  constructor
  · rw [hcycles, hnumbered.cycles, hnumbered.cycleCount, Nat.add_assoc, List.range_add,
      List.map_append, List.map_map]
    congr 2
    funext i
    exact (BitVec.ofNat_add k i).symm
  · rw [hcount, hnumbered.cycleCount, Nat.add_assoc, BitVec.ofNat_add]

end Counts

/-!
## Calls by path
-/

def TakesStallPath (s : Sim) : Prop := s.except = 0#32 ∧ Stalled s

instance (s : Sim) : Decidable (TakesStallPath s) := by
  unfold TakesStallPath
  infer_instance

theorem Fetches.not_takesStallPath {s : Sim} (h : Fetches s) : ¬ TakesStallPath s :=
  fun hstall => h.notStalled hstall.2

def overflowTraps (infos : List InstructionInfo) : Nat :=
  infos.countP fun info => info.isOverflow

def illegalTraps (infos : List InstructionInfo) : Nat :=
  infos.countP fun info => !info.isValid

theorem overflowTraps_append (as bs : List InstructionInfo) :
    overflowTraps (as ++ bs) = overflowTraps as + overflowTraps bs :=
  List.countP_append

theorem illegalTraps_append (as bs : List InstructionInfo) :
    illegalTraps (as ++ bs) = illegalTraps as + illegalTraps bs :=
  List.countP_append

theorem trap_counts {s : Sim} (htrap : (nextInfo s).completes = false) :
    (trapBubbles (nextInfo s)).toNat =
      2 * overflowTraps [nextInfo s] + illegalTraps [nextInfo s] := by
  unfold overflowTraps illegalTraps trapBubbles
  rw [List.countP_singleton, List.countP_singleton]
  cases hoverflow : (nextInfo s).isOverflow with
  | true =>
      have hvalid : (nextInfo s).isValid = true := Emulator.isValid_of_isOverflow hoverflow
      rw [hvalid]
      rfl
  | false =>
      have hvalid : (nextInfo s).isValid = false := by
        unfold InstructionInfo.completes at htrap
        rw [hoverflow] at htrap
        simpa using htrap
      rw [hvalid]
      rfl

theorem completes_counts {s : Sim} (h : (nextInfo s).completes = true) :
    overflowTraps [nextInfo s] = 0 ∧ illegalTraps [nextInfo s] = 0 := by
  unfold InstructionInfo.completes at h
  rw [Bool.and_eq_true, Bool.not_eq_true'] at h
  unfold overflowTraps illegalTraps
  rw [List.countP_singleton, List.countP_singleton, h.1, h.2]
  exact ⟨rfl, rfl⟩

/-- The calls so far by what they were spent on; `except` bubbles are still to come. -/
def CallsByPath (n stalls : Nat) (s : Sim) : Prop :=
  n + s.except.toNat =
    s.log.infos.length + stalls + 2 * overflowTraps s.log.infos + illegalTraps s.log.infos

theorem step_callsByPath {n stalls : Nat} {s s' : Sim} (h : CallsByPath n stalls s)
    (hstep : Step s false s') :
    CallsByPath (n + 1) (stalls + if TakesStallPath s then 1 else 0) s' := by
  unfold CallsByPath at h ⊢
  cases hstep with
  | except hexcept =>
      have hne : s.except ≠ 0#32 := by
        intro hzero
        rw [hzero] at hexcept
        exact absurd hexcept (by decide)
      have hpath : ¬ TakesStallPath s := fun hstall => hne hstall.1
      rw [if_neg hpath, exceptStep_infos, exceptStep_except]
      have hpos : 1 ≤ s.except.toNat := word_pos_iff.mp hexcept
      rw [BitVec.toNat_sub_of_le (by rw [BitVec.le_def]; exact hpos)]
      change n + 1 + (s.except.toNat - 1) = _
      lia
  | stall hexcept hstalled =>
      have hpath : TakesStallPath s := ⟨hexcept, hstalled⟩
      rw [if_pos hpath, stallStep_infos, stallStep_except]
      lia
  | trap hfetch htrap =>
      have hbubbles := trap_counts htrap
      rw [if_neg hfetch.not_takesStallPath, trapStep_infos, trapStep_except,
        List.length_append, overflowTraps_append, illegalTraps_append, hbubbles]
      rw [hfetch.except] at h
      change n + 0 = _ at h
      change n + 1 + _ = s.log.infos.length + 1 + _ + _ + _
      lia
  | fetch hfetch hcompletes _ =>
      rcases completes_counts hcompletes with ⟨hoverflow, hillegal⟩
      unfold fetchStep
      rw [if_neg hfetch.not_takesStallPath, finishCycle_infos, fetchPath_infos,
        finishCycle_except, fetchPath_except, List.length_append, overflowTraps_append,
        illegalTraps_append, hoverflow, hillegal]
      change n + 1 + _ = s.log.infos.length + 1 + _ + _ + _
      lia

theorem reaches_callsByPath {ic dc : CacheConfig} {mem : MemoryStore} {n : Nat} {s : Sim}
    (h : machine.Reaches n (initSimulator ic dc mem) s) :
    CallsByPath n (machine.visits TakesStallPath n (initSimulator ic dc mem)) s := by
  generalize hs₀ : initSimulator ic dc mem = s₀ at h ⊢
  induction h with
  | refl _ =>
      subst hs₀
      rfl
  | tail hprev hlast ih =>
      rw [hprev.visits_succ TakesStallPath]
      exact step_callsByPath (ih hs₀) (step_of_machine hlast)

theorem haltsAfter_accounted {ic dc : CacheConfig} {mem : MemoryStore} {n : Nat} {s : Sim}
    (h : HaltsAfter n (initSimulator ic dc mem) s) :
    s.log.lines.length =
      s.log.infos.length + machine.visits TakesStallPath n (initSimulator ic dc mem) +
        2 * overflowTraps s.log.infos + illegalTraps s.log.infos + 4 := by
  rw [(haltsAfter_numbered h).length]
  rcases haltsAfter_last h with ⟨k, u, rfl, hreach, hfetch, hhalt, rfl⟩
  have haccounted := reaches_callsByPath hreach
  rcases completes_counts (completes_of_isHalt hhalt) with ⟨hoverflow, hillegal⟩
  unfold CallsByPath at haccounted
  rw [hfetch.except] at haccounted
  rw [hreach.visits_succ TakesStallPath, if_neg hfetch.not_takesStallPath, haltStep_infos,
    List.length_append, overflowTraps_append, illegalTraps_append, hoverflow, hillegal]
  change k + 0 = _ at haccounted
  change k + 1 + 4 = u.log.infos.length + 1 + _ + _ + _ + _
  lia

end Cycle

/-- The dumped lines are numbered consecutively, and as many as the executed instructions, the
calls taken by the stall path, two for each overflow, one for each illegal instruction and four
behind the halt word.  The counters show these numbers modulo `2 ^ 32`. -/
theorem cycle_accounting (image : MemImage) (ic dc : ValidConfig) {fuel : Nat} {s : Cycle.Sim}
    (h : Cycle.runTillHalt fuel (Cycle.initSimulator ic.toCacheConfig dc.toCacheConfig
      (MemoryStore.ofImage image)) = some (.halt, s)) :
    exists calls,
      Cycle.HaltsAfter calls (Cycle.initSimulator ic.toCacheConfig dc.toCacheConfig
        (MemoryStore.ofImage image)) s ∧
      s.log.lines.map (fun line => line.cycle.toNat) =
        (List.range s.log.lines.length).map (fun i => i % 2 ^ 32) ∧
      (Cycle.finalizeSimulator s).totalCycles.toNat = s.log.lines.length % 2 ^ 32 ∧
      (Cycle.finalizeSimulator s).dynamicInstructions.toNat = s.log.infos.length % 2 ^ 32 ∧
      s.log.lines.length =
        s.log.infos.length +
          Cycle.machine.visits Cycle.TakesStallPath calls
            (Cycle.initSimulator ic.toCacheConfig dc.toCacheConfig (MemoryStore.ofImage image)) +
          2 * Cycle.overflowTraps s.log.infos + Cycle.illegalTraps s.log.infos + 4 := by
  rcases Cycle.haltsAfter_iff_runTillHalt.mpr ⟨fuel, h⟩ with ⟨n, hrun⟩
  have hnumbered := Cycle.haltsAfter_numbered hrun
  refine ⟨n, hrun, ?_, ?_, ?_, ?_⟩
  · have hcycles := congrArg (List.map BitVec.toNat) hnumbered.cycles
    unfold Cycle.lineCycles at hcycles
    rw [List.map_map, List.map_map] at hcycles
    rw [hnumbered.length]
    exact hcycles
  · rw [hnumbered.length]
    unfold Cycle.finalizeSimulator
    dsimp only
    rw [hnumbered.cycleCount, BitVec.toNat_ofNat]
  · have hdin := Functional.haltsAfter_din (Cycle.haltsAfter_executed hrun).1
    unfold Cycle.finalizeSimulator
    dsimp only
    rw [hdin, BitVec.toNat_ofNat]
  · exact Cycle.haltsAfter_accounted hrun

theorem cycle_accounting_increment :
    exists fuel s,
      Cycle.runTillHalt fuel
          (Cycle.initSimulator (ValidConfig.oneBlock 3#32).toCacheConfig
            (ValidConfig.oneBlock 2#32).toCacheConfig
            (MemoryStore.ofImage (MemImage.ofWords incrementProgram))) = some (.halt, s) ∧
        (Cycle.finalizeSimulator s).totalCycles.toNat = s.log.lines.length % 2 ^ 32 := by
  have hrun : Cycle.HaltsAfter 5
      (Cycle.initSimulator (ValidConfig.oneBlock 3#32).toCacheConfig
        (ValidConfig.oneBlock 2#32).toCacheConfig
        (MemoryStore.ofImage (MemImage.ofWords incrementProgram))) _ :=
    Machine.finishesIn_after (by decide) (by decide +kernel)
  rcases Cycle.haltsAfter_iff_runTillHalt.mp ⟨_, hrun⟩ with ⟨fuel, hfuel⟩
  rcases cycle_accounting _ (ValidConfig.oneBlock 3#32) (ValidConfig.oneBlock 2#32) hfuel with
    ⟨_, _, _, htotal, _, _⟩
  exact ⟨fuel, _, hfuel, htotal⟩

/-- The counting program takes more cycles than the cycle counter can show. -/
theorem counting_program_exceeds_cycleCount :
    exists (image : MemImage) (ic dc : ValidConfig) (fuel : Nat) (s : Cycle.Sim),
      Cycle.runTillHalt fuel (Cycle.initSimulator ic.toCacheConfig dc.toCacheConfig
          (MemoryStore.ofImage image)) = some (.halt, s) ∧
        (Cycle.finalizeSimulator s).totalCycles.toNat ≠ s.log.lines.length := by
  rcases Cycle.exists_haltsAfter_of_functional (ValidConfig.oneBlock 0#32).toCacheConfig
    (ValidConfig.oneBlock 0#32).toCacheConfig _ CountingProgram.halts with ⟨m, s, hrun, _⟩
  rcases Cycle.haltsAfter_iff_runTillHalt.mp ⟨m, hrun⟩ with ⟨fuel, hfuel⟩
  have hexecuted := ((Cycle.haltsAfter_executed hrun).1.unique CountingProgram.halts).1
  have haccounted := Cycle.haltsAfter_accounted hrun
  have hlt := (Cycle.finalizeSimulator s).totalCycles.isLt
  refine ⟨_, ValidConfig.oneBlock 0#32, ValidConfig.oneBlock 0#32, fuel, s, hfuel, ?_⟩
  lia

end PipeSim
