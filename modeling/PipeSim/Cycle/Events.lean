import PipeSim.Cycle.Accounting
import PipeSim.Functional.Untouched

/-!
# The timing depends on the events

Of an executed instruction the pipeline is told where it was fetched, its word, the address
it accesses and whether it raised an exception.  Two programs with the same events take the
same cycles and leave the same traces and caches, whatever is in their registers and in
their memories.  In particular bytes that do not matter to a run do not matter to its cycles.
-/

namespace PipeSim

open Library

namespace Cycle

/-- What the pipeline is told of an executed instruction. -/
structure Event where
  pc : Word
  instruction : Word
  address : Word
  isValid : Bool
  isOverflow : Bool
deriving DecidableEq, Repr

def eventOf (info : InstructionInfo) : Event where
  pc := info.pc
  instruction := info.instruction
  address := bufferedAddress info
  isValid := info.isValid
  isOverflow := info.isOverflow

def Sim.withExecution (e : Emulator) (infos : List InstructionInfo) (s : Sim) : Sim :=
  { s with emulator := e, log := { s.log with infos := infos } }

/-- The states agree on everything but the emulator and the records of its instructions, of
which there are equally many. -/
structure SameTiming (s t : Sim) : Prop where
  iCache : t.iCache = s.iCache
  dCache : t.dCache = s.dCache
  pipeState : t.pipeState = s.pipeState
  cycleCount : t.cycleCount = s.cycleCount
  iMiss : t.iMiss = s.iMiss
  dMiss : t.dMiss = s.dMiss
  dStall : t.dStall = s.dStall
  xStall : t.xStall = s.xStall
  except : t.except = s.except
  memAddresses : t.memAddresses = s.memAddresses
  executions : t.log.infos.length = s.log.infos.length
  iAccesses : t.log.iAccesses = s.log.iAccesses
  dAccesses : t.log.dAccesses = s.log.dAccesses
  lines : t.log.lines = s.log.lines

theorem SameTiming.eq {s t : Sim} (h : SameTiming s t) :
    t = s.withExecution t.emulator t.log.infos := by
  rcases s with ⟨_, _, _, _, _, _, _, _, _, _, _, ⟨_, _, _, _⟩⟩
  rcases t with ⟨_, _, _, _, _, _, _, _, _, _, _, ⟨_, _, _, _⟩⟩
  rcases h with ⟨h1, h2, h3, h4, h5, h6, h7, h8, h9, h10, _, h12, h13, h14⟩
  dsimp only at h1 h2 h3 h4 h5 h6 h7 h8 h9 h10 h12 h13 h14
  subst h1 h2 h3 h4 h5 h6 h7 h8 h9 h10 h12 h13 h14
  rfl

theorem sameTiming_withExecution {s : Sim} {e : Emulator} {infos : List InstructionInfo}
    (h : infos.length = s.log.infos.length) : SameTiming s (s.withExecution e infos) :=
  ⟨rfl, rfl, rfl, rfl, rfl, rfl, rfl, rfl, rfl, rfl, h, rfl, rfl, rfl⟩

/-!
## The steps do not look at the emulator
-/

section Commute

variable (e : Emulator) (infos : List InstructionInfo) (s : Sim)

theorem shuffle_withExecution :
    shuffle (s.withExecution e infos) = (shuffle s).withExecution e infos := by
  unfold shuffle
  change (if s.dMiss = 0#32 then
    if 0#32 < s.xStall then bubbleEx (s.withExecution e infos)
    else if 0#32 < s.dStall ∨ 0#32 < s.iMiss then bubbleId (s.withExecution e infos)
    else s.withExecution e infos
    else freeze (s.withExecution e infos)) = _
  split
  · split
    · rfl
    · split
      · rfl
      · rfl
  · rfl

theorem probeData_withExecution :
    probeData (s.withExecution e infos) = (probeData s).withExecution e infos := by
  have hpipeState : (s.withExecution e infos).pipeState = s.pipeState := rfl
  have hmemAddresses : (s.withExecution e infos).memAddresses = s.memAddresses := rfl
  rw [probeData_eq, probeData_eq, hpipeState, hmemAddresses]
  cases operation? s.pipeState.memInstr.instr with
  | none =>
      rfl
  | some operation =>
      dsimp only
      split
      · rfl
      · rfl

theorem stallPath_withExecution :
    stallPath (s.withExecution e infos) = (stallPath s).withExecution e infos := by
  unfold stallPath
  rw [shuffle_withExecution]
  show (if StallsOn (countDownAll (shuffle s)) then
      probeData ((countDownAll (shuffle s)).withExecution e infos)
      else (countDownAll (shuffle s)).withExecution e infos) =
    Sim.withExecution e infos (if StallsOn (countDownAll (shuffle s)) then
      probeData (countDownAll (shuffle s)) else countDownAll (shuffle s))
  rw [probeData_withExecution]
  exact (apply_ite (Sim.withExecution e infos) _ _ _).symm

theorem stallStep_withExecution :
    stallStep (s.withExecution e infos) = (stallStep s).withExecution e infos := by
  unfold stallStep
  change finishCycle (stallPath ((stampCycle s).withExecution e infos)) = _
  rw [stallPath_withExecution]
  rfl

theorem exceptStep_withExecution :
    exceptStep (s.withExecution e infos) = (exceptStep s).withExecution e infos := rfl

theorem normalPath_withExecution (info : InstructionInfo) (execution : Nat) :
    normalPath info execution (s.withExecution e infos) =
      (normalPath info execution s).withExecution e infos := by
  unfold normalPath
  dsimp only
  change detectHazards (probeData ((accessInstruction info.pc
    (ingestBuffer (bufferedAddress info)
      (ingestPipeline (slotOf info execution) s))).withExecution e infos)) = _
  rw [probeData_withExecution]
  rfl

theorem haltDrain_withExecution :
    haltDrain (s.withExecution e infos) = (haltDrain s).withExecution e infos := rfl

end Commute

theorem normalPath_congr {info info' : InstructionInfo} (h : eventOf info = eventOf info')
    (execution : Nat) (s : Sim) : normalPath info execution s = normalPath info' execution s := by
  injection h with hpc hinstruction haddress _ _
  unfold normalPath slotOf
  rw [hpc, hinstruction, haddress]

theorem fetchPath_withExecution {s : Sim} {e : Emulator} {infos : List InstructionInfo}
    (hlength : infos.length = s.log.infos.length)
    (h : eventOf (nextInfo s) = eventOf e.executeInstruction.1) :
    fetchPath (s.withExecution e infos) =
      (fetchPath s).withExecution e.executeInstruction.2 (infos ++ [e.executeInstruction.1]) := by
  change normalPath e.executeInstruction.1 infos.length
    ((fetchInstruction (stampCycle s)).withExecution e.executeInstruction.2
      (infos ++ [e.executeInstruction.1])) = _
  rw [normalPath_withExecution, ← normalPath_congr h, hlength]
  rfl

/-!
## Equal events, equal steps
-/

section Runs

variable {s t : Sim}

theorem eventOf_completes {info info' : InstructionInfo} (h : eventOf info = eventOf info') :
    info.completes = info'.completes := by
  injection h with _ _ _ hvalid hoverflow
  unfold InstructionInfo.completes
  rw [hvalid, hoverflow]

theorem eventOf_isHalt (h : eventOf (nextInfo s) = eventOf (nextInfo t)) :
    (nextInfo s).isHalt = (nextInfo t).isHalt := by
  injection h with _ hinstruction _ _ _
  unfold nextInfo at hinstruction ⊢
  rw [Emulator.executeInstruction_instruction, Emulator.executeInstruction_instruction]
    at hinstruction
  rw [Emulator.executeInstruction_isHalt, Emulator.executeInstruction_isHalt, hinstruction]

theorem SameTiming.fetches (h : SameTiming s t) (hfetch : Fetches s) : Fetches t := by
  rw [h.eq]
  exact ⟨hfetch.except, hfetch.notStalled⟩

theorem length_append_singleton {infos infos' : List InstructionInfo}
    {info info' : InstructionInfo} (h : infos'.length = infos.length) :
    (infos' ++ [info']).length = (infos ++ [info]).length := by
  rw [List.length_append, List.length_append, h]
  rfl

theorem SameTiming.fetchPath (h : SameTiming s t)
    (hevent : eventOf (nextInfo s) = eventOf (nextInfo t)) :
    fetchPath t = (fetchPath s).withExecution t.emulator.executeInstruction.2
      (t.log.infos ++ [nextInfo t]) := by
  conv_lhs => rw [h.eq]
  exact fetchPath_withExecution h.executions hevent

theorem SameTiming.step (h : SameTiming s t)
    (hevent : Fetches s -> eventOf (nextInfo s) = eventOf (nextInfo t)) {finished : Bool}
    {s' : Sim} (hstep : Step s finished s') :
    exists t', Step t finished t' ∧ SameTiming s' t' := by
  cases hstep with
  | except hexcept =>
      refine ⟨exceptStep t, Step.except (h.except.symm ▸ hexcept), ?_⟩
      rw [h.eq, exceptStep_withExecution]
      exact sameTiming_withExecution h.executions
  | stall hexcept hstalled =>
      have hstalled' : Stalled t := by
        rw [h.eq]
        exact hstalled
      refine ⟨stallStep t, Step.stall (h.except.trans hexcept) hstalled', ?_⟩
      rw [h.eq, stallStep_withExecution]
      apply sameTiming_withExecution
      dsimp only [stallStep, finishCycle, dump]
      rw [(stallPath_frame s).infos, shuffled_log]
      exact h.executions
  | trap hfetch htrap =>
      have hsame := hevent hfetch
      have htrap' : (nextInfo t).completes = false := (eventOf_completes hsame).symm.trans htrap
      refine ⟨trapStep t, Step.trap (h.fetches hfetch) htrap', ?_⟩
      have hbubbles : trapBubbles (nextInfo t) = trapBubbles (nextInfo s) := by
        injection hsame with _ _ _ _ hoverflow
        unfold trapBubbles
        rw [hoverflow]
      have heq : trapStep t =
          (trapStep s).withExecution t.emulator.executeInstruction.2
            (t.log.infos ++ [nextInfo t]) := by
        unfold trapStep
        rw [hbubbles]
        conv_lhs => rw [h.eq]
        rfl
      rw [heq]
      exact sameTiming_withExecution (length_append_singleton h.executions)
  | fetch hfetch hcompletes hhalt =>
      have hsame := hevent hfetch
      refine ⟨fetchStep t, Step.fetch (h.fetches hfetch)
        ((eventOf_completes hsame).symm.trans hcompletes)
        ((eventOf_isHalt hsame).symm.trans hhalt), ?_⟩
      unfold fetchStep
      rw [h.fetchPath hsame]
      apply sameTiming_withExecution
      rw [finishCycle_infos, fetchPath_infos]
      exact length_append_singleton h.executions
  | halt hfetch hhalt =>
      have hsame := hevent hfetch
      refine ⟨haltStep t, Step.halt (h.fetches hfetch)
        ((eventOf_isHalt hsame).symm.trans hhalt), ?_⟩
      have heq : haltStep t =
          (haltStep s).withExecution t.emulator.executeInstruction.2
            (t.log.infos ++ [nextInfo t]) := by
        unfold haltStep
        rw [h.fetchPath hsame, haltDrain_withExecution]
        rfl
      rw [heq]
      apply sameTiming_withExecution
      rw [haltStep_infos]
      exact length_append_singleton h.executions

end Runs

/-!
## Two runs with the same events
-/

section Programs

variable {ic dc : CacheConfig} {mem mem' : MemoryStore} {s t : Sim}

/-- The program in the second memory has the events of the program in the first one, as far as
the latter runs. -/
def SameEvents (mem mem' : MemoryStore) : Prop :=
  forall k e, Functional.machine.Reaches k (Functional.initEmulator mem) e ->
    eventOf e.executeInstruction.1 =
      eventOf (Functional.machine.after k (Functional.initEmulator mem')).executeInstruction.1

theorem sameEvents_of_executed {n : Nat} {e : Emulator}
    (hhalts : Functional.HaltsAfter n (Functional.initEmulator mem) e)
    (hevents : (executed n (Functional.initEmulator mem)).map eventOf =
      (executed n (Functional.initEmulator mem')).map eventOf) : SameEvents mem mem' := by
  intro k u hreach
  unfold executed at hevents
  rw [List.map_map, List.map_map, List.map_inj_left] at hevents
  rw [hreach.eq_after]
  exact hevents k (List.mem_range.mpr (hhalts.lt_of_reaches hreach))

/-- Both simulators have executed a part of their programs and agree in their timing. -/
structure Parallel (mem mem' : MemoryStore) (s t : Sim) : Prop where
  first : Executes (Functional.initEmulator mem) s
  second : Executes (Functional.initEmulator mem') t
  sameTiming : SameTiming s t

theorem Parallel.event (h : Parallel mem mem' s t) (hevents : SameEvents mem mem') :
    eventOf (nextInfo s) = eventOf (nextInfo t) := by
  have hsecond := h.second.reaches.eq_after
  rw [h.sameTiming.executions] at hsecond
  unfold nextInfo
  rw [hsecond]
  exact hevents _ _ h.first.reaches

theorem Parallel.step (hevents : SameEvents mem mem') (h : Parallel mem mem' s t) :
    Machine.StepTogether machine machine (Parallel mem mem') SameTiming s t := by
  cases hmachine : machine s with
  | mk finished s' =>
      have hstep := step_of_machine hmachine
      rcases h.sameTiming.step (fun _ => h.event hevents) hstep with ⟨t', hstep', hsame⟩
      cases finished with
      | false =>
          exact Or.inl ⟨s', t', hmachine, hstep'.machine_eq,
            ⟨step_executes h.first hstep, step_executes h.second hstep', hsame⟩⟩
      | true =>
          exact Or.inr ⟨s', t', hmachine, hstep'.machine_eq, hsame⟩

theorem sameEvents_of_agreesOn {P : Word -> Prop} (hm : mem.numEntries < 2 ^ 32)
    (hagree : mem.AgreesOn P mem') {n : Nat} {e : Emulator}
    (hhalts : Functional.HaltsAfter n (Functional.initEmulator mem) e)
    (hfirst : Functional.StoresFirst P (Functional.initEmulator mem) n) :
    executed n (Functional.initEmulator mem') = executed n (Functional.initEmulator mem) ∧
      SameEvents mem mem' := by
  have hinfos : executed n (Functional.initEmulator mem') =
      executed n (Functional.initEmulator mem) := by
    unfold executed
    rw [List.map_inj_left]
    intro k hk
    exact Functional.info_withMemory hagree hm hfirst (List.mem_range.mp hk)
  exact ⟨hinfos, sameEvents_of_executed hhalts (congrArg _ hinfos.symm)⟩

theorem haltsAfter_of_sameEvents (hevents : SameEvents mem mem') {n : Nat}
    (h : HaltsAfter n (initSimulator ic dc mem) s) :
    exists m s', HaltsAfter m (initSimulator ic dc mem') s' ∧ SameTiming s s' := by
  have hstart : Parallel mem mem' (initSimulator ic dc mem) (initSimulator ic dc mem') :=
    ⟨⟨Machine.Reaches.refl _, rfl⟩, ⟨Machine.Reaches.refl _, rfl⟩, sameTiming_withExecution rfl⟩
  exact Machine.FinishesIn.simulate (μ := fun _ => (0 : Nat))
    (fun _ _ hst => Or.inr (Parallel.step hevents hst)) hstart h

end Programs

end Cycle

/-- When two programs have the same events up to the first HALT, the simulator takes the same
cycles for both, dumps the same lines, makes the same references and leaves the same caches. -/
theorem timing_depends_on_events (ic dc : CacheConfig) (mem mem' : MemoryStore) {fuel : Nat}
    {s : Cycle.Sim} (h : Cycle.runTillHalt fuel (Cycle.initSimulator ic dc mem) = some (.halt, s))
    (hevents : (Cycle.executed s.log.infos.length (Functional.initEmulator mem)).map
        Cycle.eventOf =
      (Cycle.executed s.log.infos.length (Functional.initEmulator mem')).map Cycle.eventOf) :
    exists fuel' s',
      Cycle.runTillHalt fuel' (Cycle.initSimulator ic dc mem') = some (.halt, s') ∧
        s'.log.lines = s.log.lines ∧ s'.cycleCount = s.cycleCount ∧
        s'.log.iAccesses = s.log.iAccesses ∧ s'.log.dAccesses = s.log.dAccesses ∧
        s'.iCache = s.iCache ∧ s'.dCache = s.dCache := by
  rcases Cycle.haltsAfter_iff_runTillHalt.mpr ⟨fuel, h⟩ with ⟨n, hn⟩
  have hsame := Cycle.sameEvents_of_executed (Cycle.haltsAfter_executed hn).1 hevents
  rcases Cycle.haltsAfter_of_sameEvents hsame hn with ⟨m, s', hm, htiming⟩
  rcases Cycle.haltsAfter_iff_runTillHalt.mp ⟨m, hm⟩ with ⟨fuel', hfuel'⟩
  exact ⟨fuel', s', hfuel', htiming.lines, htiming.cycleCount, htiming.iAccesses,
    htiming.dAccesses, htiming.iCache, htiming.dCache⟩

/-- `lw $1, 12($0); sw $1, 16($0)` and the halt word in front of a datum. -/
def copyDatumProgram (datum : Word) : List Word :=
  [0x8c01000c#32, 0xac010010#32, haltWord, datum]

theorem timing_depends_on_events_copy_datum :
    exists fuel fuel' s s',
      Cycle.runTillHalt fuel (Cycle.initSimulator (ValidConfig.oneBlock 0#32).toCacheConfig
          (ValidConfig.oneBlock 2#32).toCacheConfig
          (MemoryStore.ofImage (MemImage.ofWords (copyDatumProgram 5#32)))) =
          some (.halt, s) ∧
        Cycle.runTillHalt fuel' (Cycle.initSimulator (ValidConfig.oneBlock 0#32).toCacheConfig
          (ValidConfig.oneBlock 2#32).toCacheConfig
          (MemoryStore.ofImage (MemImage.ofWords (copyDatumProgram 7#32)))) =
          some (.halt, s') ∧
        s'.log.lines = s.log.lines := by
  have hrun : Cycle.HaltsAfter 3
      (Cycle.initSimulator (ValidConfig.oneBlock 0#32).toCacheConfig
        (ValidConfig.oneBlock 2#32).toCacheConfig
        (MemoryStore.ofImage (MemImage.ofWords (copyDatumProgram 5#32)))) _ :=
    Machine.finishesIn_after (by decide) (by decide)
  rcases Cycle.haltsAfter_iff_runTillHalt.mp ⟨_, hrun⟩ with ⟨fuel, hfuel⟩
  rcases timing_depends_on_events _ _ _
    (MemoryStore.ofImage (MemImage.ofWords (copyDatumProgram 7#32))) hfuel (by decide) with
    ⟨fuel', s', hfuel', hlines, _⟩
  exact ⟨fuel, fuel', _, s', hfuel, hfuel', hlines⟩

/-- A run of the simulator is not influenced by bytes of the initial memory that it touches only
behind a store to them: it executes the same instructions in the same cycles, dumps the same
lines and statistics, and leaves the same caches and registers. -/
theorem untouched_bytes_keep_cycles (ic dc : CacheConfig) (mem mem' : MemoryStore)
    (P : Word -> Prop) (hm : mem.numEntries < 2 ^ 32) (hagree : mem.AgreesOn P mem')
    {fuel : Nat} {s : Cycle.Sim}
    (h : Cycle.runTillHalt fuel (Cycle.initSimulator ic dc mem) = some (.halt, s))
    (hfirst : Functional.StoresFirst P (Functional.initEmulator mem) s.log.infos.length) :
    exists fuel' s',
      Cycle.runTillHalt fuel' (Cycle.initSimulator ic dc mem') = some (.halt, s') ∧
        s'.log = s.log ∧ s'.iCache = s.iCache ∧ s'.dCache = s.dCache ∧
        Cycle.finalizeSimulator s' = Cycle.finalizeSimulator s ∧
        s'.emulator = s.emulator.withMemory s'.emulator.memory := by
  rcases Cycle.haltsAfter_iff_runTillHalt.mpr ⟨fuel, h⟩ with ⟨n, hn⟩
  rcases Cycle.haltsAfter_executed hn with ⟨hhalts, hinfos⟩
  rcases Cycle.sameEvents_of_agreesOn hm hagree hhalts hfirst with ⟨hexecuted, hevents⟩
  rcases Cycle.haltsAfter_of_sameEvents hevents hn with ⟨m, s', hm', htiming⟩
  rcases Cycle.haltsAfter_executed hm' with ⟨hhalts', hinfos'⟩
  rcases Cycle.haltsAfter_iff_runTillHalt.mp ⟨m, hm'⟩ with ⟨fuel', hfuel'⟩
  rw [htiming.executions] at hhalts' hinfos'
  have hemulator : s'.emulator = s.emulator.withMemory s'.emulator.memory := by
    rw [hhalts'.eq_after, hhalts.eq_after]
    exact (Functional.after_withMemory hagree hm hfirst).1
  have hlog : s'.log = s.log := by
    rw [htiming.eq, hinfos', hexecuted, ← hinfos]
    rfl
  have hstats : Cycle.finalizeSimulator s' = Cycle.finalizeSimulator s := by
    unfold Cycle.finalizeSimulator
    rw [htiming.cycleCount, hemulator]
    rfl
  exact ⟨fuel', s', hfuel', hlog, htiming.iCache, htiming.dCache, hstats, hemulator⟩

theorem untouched_bytes_keep_cycles_clear_load :
    exists (mem' : MemoryStore) (fuel fuel' : Nat) (s s' : Cycle.Sim),
      mem'.contents 19#32 = some 7 ∧
        Cycle.runTillHalt fuel (Cycle.initSimulator (ValidConfig.oneBlock 0#32).toCacheConfig
          (ValidConfig.oneBlock 2#32).toCacheConfig clearLoadStart.memory) =
          some (.halt, s) ∧
        Cycle.runTillHalt fuel' (Cycle.initSimulator (ValidConfig.oneBlock 0#32).toCacheConfig
          (ValidConfig.oneBlock 2#32).toCacheConfig mem') = some (.halt, s') ∧
        s'.log.lines = s.log.lines := by
  have hm : clearLoadStart.memory.numEntries < 2 ^ 32 := by decide
  have hagree := MemoryStore.agreesOn_setMemValue hm clearedDatum rfl
  have hrun : Cycle.HaltsAfter 3 (Cycle.initSimulator (ValidConfig.oneBlock 0#32).toCacheConfig
      (ValidConfig.oneBlock 2#32).toCacheConfig clearLoadStart.memory) _ :=
    Machine.finishesIn_after (by decide) (by decide)
  rcases Cycle.haltsAfter_iff_runTillHalt.mp ⟨_, hrun⟩ with ⟨fuel, hfuel⟩
  rcases untouched_bytes_keep_cycles _ _ _ _ _ hm hagree hfuel clearLoad_storesFirst with
    ⟨fuel', s', hfuel', hlog, _⟩
  refine ⟨_, fuel, fuel', _, s', ?_, hfuel, hfuel', congrArg _ hlog⟩
  rw [MemoryStore.contents_setMemValue_storedByte hm clearedDatum rfl]
  rfl

end PipeSim
