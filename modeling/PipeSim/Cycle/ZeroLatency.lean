import PipeSim.Cycle.Hazards

/-!
# Runs without cache delays

When both miss latencies are zero, `iMiss` and `dMiss` stay zero and the pipeline
is never frozen.  The only way left to lose a stall is a trap, and a trap behind a
hazard always loses it.
-/

namespace PipeSim

open Library

namespace Cycle

/-- No data cache delay is pending and none will come. -/
structure Undelayed (s : Sim) : Prop where
  dMiss : s.dMiss = 0#32
  latency : s.dCache.config.missLatency = 0#32

theorem missDelay_of_zero {accessed : Bool × Cache}
    (h : accessed.2.config.missLatency = 0#32) : missDelay accessed = 0#32 := by
  unfold missDelay
  rw [h, ite_self]

theorem referenceDelay_of_zero {c : Cache} (h : c.config.missLatency = 0#32)
    (reference : Option (Word × CacheOperation)) : referenceDelay c reference = 0#32 := by
  cases reference with
  | none =>
      rfl
  | some r =>
      have hlatency : (c.access r.1 r.2).2.config.missLatency = 0#32 := h
      exact missDelay_of_zero hlatency

theorem referenceServed_config (c : Cache) (reference : Option (Word × CacheOperation)) :
    (referenceServed c reference).config = c.config := by
  cases reference with
  | none =>
      rfl
  | some r =>
      rfl

theorem Undelayed.stallStep {s : Sim} (h : Undelayed s) : Undelayed (stallStep s) := by
  constructor
  · rw [stallStep_dMiss, h.dMiss, referenceDelay_of_zero h.latency, ite_self]
    rfl
  · rw [stallStep_dCache]
    split
    · rw [referenceServed_config]
      exact h.latency
    · exact h.latency

theorem Undelayed.fetchStep {s : Sim} (h : Undelayed s) : Undelayed (fetchStep s) := by
  unfold Cycle.fetchStep
  constructor
  · rw [finishCycle_dMiss, fetchPath_dMiss, referenceDelay_of_zero h.latency, h.dMiss]
    rfl
  · rw [finishCycle_dCache, fetchPath_dCache, referenceServed_config]
    exact h.latency

/-- Neither cache ever asks for a stall. -/
structure NoDelay (s : Sim) : Prop where
  iLatency : s.iCache.config.missLatency = 0#32
  dLatency : s.dCache.config.missLatency = 0#32
  iMiss : s.iMiss = 0#32
  dMiss : s.dMiss = 0#32

theorem NoDelay.undelayed {s : Sim} (h : NoDelay s) : Undelayed s :=
  ⟨h.dMiss, h.dLatency⟩

theorem NoDelay.step {s s' : Sim} (h : NoDelay s) (hstep : Step s false s') :
    NoDelay s' := by
  cases hstep with
  | except _ =>
      exact ⟨h.iLatency, h.dLatency, h.iMiss, h.dMiss⟩
  | stall _ _ =>
      have hdata := h.undelayed.stallStep
      refine ⟨?_, hdata.latency, ?_, hdata.dMiss⟩
      · rw [stallStep_iCache]
        exact h.iLatency
      · rw [stallStep_iMiss, h.iMiss]
        rfl
  | trap _ _ =>
      exact ⟨h.iLatency, h.dLatency, h.iMiss, h.dMiss⟩
  | fetch _ _ _ =>
      have hdata := h.undelayed.fetchStep
      have hserved : (s.iCache.access s.emulator.PC .read).2.config.missLatency = 0#32 :=
        h.iLatency
      refine ⟨?_, hdata.latency, ?_, hdata.dMiss⟩
      · unfold fetchStep
        rw [finishCycle_iCache, fetchPath_iCache]
        exact hserved
      · unfold fetchStep
        rw [finishCycle_iMiss, fetchPath_iMiss]
        exact missDelay_of_zero hserved

theorem noDelay_of_reaches {ic dc : CacheConfig} {mem : MemoryStore} {k : Nat} {s : Sim}
    (hi : ic.missLatency = 0#32) (hd : dc.missLatency = 0#32)
    (h : machine.Reaches k (initSimulator ic dc mem) s) : NoDelay s :=
  Machine.Reaches.invariant
    (fun _ _ hs hstep => NoDelay.step hs (step_of_machine hstep))
    ⟨hi, hd, rfl, rfl⟩ h

theorem NoDelay.freezeKeepsStalls {s : Sim} (h : NoDelay s) : FreezeKeepsStalls s where
  opBranch := fun hdMiss => absurd h.dMiss hdMiss
  loadOp := fun hdMiss => absurd h.dMiss hdMiss
  near := fun hdMiss => absurd h.dMiss hdMiss
  far := fun hdMiss => absurd h.dMiss hdMiss

/-!
## Traps
-/

/-- The bubbles due between neighbouring instructions have been inserted. -/
structure NoNearHazardInEx (p : PipeState) : Prop where
  noLoadOp : loadOp p.exInstr.instr p.memInstr.instr = 0#32
  noOpBranch : opBranch p.exInstr.instr p.memInstr.instr = 0#32
  noLoadBranch : loadBranch p.exInstr.instr p.memInstr.instr = 0#32

instance (p : PipeState) : Decidable (NoNearHazardInEx p) :=
  decidable_of_iff
    (loadOp p.exInstr.instr p.memInstr.instr = 0#32 ∧
      opBranch p.exInstr.instr p.memInstr.instr = 0#32 ∧
      loadBranch p.exInstr.instr p.memInstr.instr = 0#32)
    ⟨fun h => ⟨h.1, h.2.1, h.2.2⟩, fun h => ⟨h.noLoadOp, h.noOpBranch, h.noLoadBranch⟩⟩

/-- The second cycle behind a trap: the instruction that was in IF is in EX, and the one
that was in ID is in MEM. -/
theorem exceptStep_trapStep_pipeState {s : Sim} :
    (exceptStep (trapStep s)).pipeState.exInstr = s.pipeState.ifInstr ∧
      (exceptStep (trapStep s)).pipeState.memInstr = s.pipeState.idInstr := by
  rw [exceptStep_pipeState]
  exact ⟨congrArg PipeState.idInstr (trapStep_pipeState s),
    congrArg PipeState.exInstr (trapStep_pipeState s)⟩

theorem trapKeepsStalls_of_forall {s₀ s : Sim} {k : Nat}
    (hreach : machine.Reaches k s₀ s)
    (h : forall j t, machine.Reaches j s₀ t -> NoNearHazardInEx t.pipeState) :
    TrapKeepsStalls s := by
  intro hexcept hidle htrap
  have htrapped := hreach.tail (Step.trap ⟨hexcept, hidle⟩ htrap).machine_eq
  have hpos : 0#32 < (trapStep s).except := by
    rw [trapStep_except]
    exact trapBubbles_pos _
  have hbubble := htrapped.tail (Step.except hpos).machine_eq
  have hnear := h _ _ hbubble
  rcases exceptStep_trapStep_pipeState (s := s) with ⟨hex, hmem⟩
  have hop := hnear.noOpBranch
  have hload := hnear.noLoadOp
  rw [hex, hmem] at hop hload
  exact ⟨hop, hload⟩

end Cycle

/-- Without cache delays, the bubbles due between older instructions are always
inserted exactly when no trap is raised while IF and ID hold an operation, or a load, and
an instruction in need of its result. -/
theorem trap_keeps_older_stalls_iff (image : MemImage) (ic dc : ValidConfig)
    (hi : ic.missLatency = 0#32) (hd : dc.missLatency = 0#32) :
    (forall k s,
      Cycle.machine.Reaches k
          (Cycle.initSimulator ic.toCacheConfig dc.toCacheConfig
            (MemoryStore.ofImage image)) s -> Cycle.NoNearHazardInEx s.pipeState) <->
      forall k s,
        Cycle.machine.Reaches k
          (Cycle.initSimulator ic.toCacheConfig dc.toCacheConfig
            (MemoryStore.ofImage image)) s -> Cycle.TrapKeepsStalls s := by
  constructor
  · intro h k s hreach
    exact Cycle.trapKeepsStalls_of_forall hreach h
  · intro h k s hreach
    have hinvariant := Cycle.stallsOwed_of_reaches hreach fun j t _ ht =>
      ⟨(Cycle.noDelay_of_reaches hi hd ht).freezeKeepsStalls, h j t ht⟩
    exact ⟨hinvariant.inEx.noLoadOp, hinvariant.inEx.noOpBranch,
      hinvariant.inEx.noLoadBranch⟩

/-- The words from address 0 on, and halt words behind the exception vector. -/
def trapImage (words : List Word) : MemImage := fun i =>
  if i.val < 0x8000 then MemImage.ofWords words i
  else (haltWord >>> MemoryStore.byteShift 4 (i.val % 4)).setWidth 8

/-- `lw $1, 0($0); nop; addu $2, $1, $1` and a word that is not an instruction. -/
def spacedTrapProgram : List Word := [0x8c010000#32, 0x0#32, 0x00211021#32, 0xfc000000#32]

theorem trap_keeps_older_stalls_spaced_load :
    (exists fuel s,
      Cycle.runTillHalt fuel
        (Cycle.initSimulator (ValidConfig.oneBlock 0#32).toCacheConfig
          (ValidConfig.oneBlock 0#32).toCacheConfig
          (MemoryStore.ofImage (trapImage spacedTrapProgram))) = some (.halt, s) ∧
        s.log.infos.map InstructionInfo.completes = [true, true, true, false, true]) ∧
      forall k s,
        Cycle.machine.Reaches k
            (Cycle.initSimulator (ValidConfig.oneBlock 0#32).toCacheConfig
              (ValidConfig.oneBlock 0#32).toCacheConfig
              (MemoryStore.ofImage (trapImage spacedTrapProgram))) s ->
          Cycle.NoNearHazardInEx s.pipeState := by
  have hrun : Cycle.HaltsAfter 6
      (Cycle.initSimulator (ValidConfig.oneBlock 0#32).toCacheConfig
        (ValidConfig.oneBlock 0#32).toCacheConfig
        (MemoryStore.ofImage (trapImage spacedTrapProgram))) _ :=
    Machine.finishesIn_after (by decide +kernel) (by decide +kernel)
  rcases Cycle.haltsAfter_iff_runTillHalt.mp ⟨_, hrun⟩ with ⟨fuel, hfuel⟩
  refine ⟨⟨fuel, _, hfuel, by decide +kernel⟩, ?_⟩
  exact (trap_keeps_older_stalls_iff _ (ValidConfig.oneBlock 0#32)
    (ValidConfig.oneBlock 0#32) rfl rfl).mpr (hrun.forall_reaches (by decide +kernel))

/-- `lw $1, 0($0); addu $2, $1, $1` and a word that is not an instruction. -/
def loadUseTrapProgram : List Word := [0x8c010000#32, 0x00211021#32, 0xfc000000#32]

theorem trap_drops_load_use_stall :
    exists (image : MemImage) (ic dc : ValidConfig),
      ic.missLatency = 0#32 ∧ dc.missLatency = 0#32 ∧
        exists k s,
          Cycle.machine.Reaches k
              (Cycle.initSimulator ic.toCacheConfig dc.toCacheConfig
                (MemoryStore.ofImage image)) s ∧
            ¬ Cycle.NoNearHazardInEx s.pipeState :=
  ⟨MemImage.ofWords loadUseTrapProgram, ValidConfig.oneBlock 0#32,
    ValidConfig.oneBlock 0#32, rfl, rfl, 4, _, Machine.reaches_after (by decide),
    by decide⟩

end PipeSim
