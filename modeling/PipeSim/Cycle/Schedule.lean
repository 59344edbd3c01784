import PipeSim.Cycle.Accounting
import PipeSim.Cycle.Pace

/-!
# How long a program takes

The length of a run is a sum over its instructions.  Without data cache delays an instruction
adds what its own fetch and the hazards with the two words in front of it ask for.
-/

namespace PipeSim

open Library

namespace Cycle

/-!
## Schedules
-/

/-- How many cycles an instruction adds, behind what the instructions in front of it have
left, and what it leaves itself. -/
structure Schedule (φ : Type) where
  cycles : φ -> InstructionInfo -> Nat
  next : φ -> InstructionInfo -> φ

namespace Schedule

variable {φ : Type}

def total (schedule : Schedule φ) : φ -> List InstructionInfo -> Nat
  | _, [] => 0
  | f, info :: infos => schedule.cycles f info + schedule.total (schedule.next f info) infos

/-- From a fetch that meets `f` the simulator takes the cycles of the schedule to the next
one. -/
structure Governs (schedule : Schedule φ) (Meets : φ -> Sim -> Prop) : Prop where
  fetches : forall f s, Meets f s -> Fetches s
  halt : forall f s, Meets f s -> (nextInfo s).isHalt = true ->
    schedule.cycles f (nextInfo s) = 5
  instruction : forall f s, Meets f s -> (nextInfo s).isHalt = false ->
    exists t, machine.Reaches (schedule.cycles f (nextInfo s)) s t ∧
      Meets (schedule.next f (nextInfo s)) t ∧ t.emulator = s.emulator.executeInstruction.2

end Schedule

theorem after_succ_head (n : Nat) (e : Emulator) :
    Functional.machine.after (n + 1) e =
      Functional.machine.after n e.executeInstruction.2 := by
  induction n with
  | zero =>
      rfl
  | succ n ih =>
      exact congrArg (fun e' => (Functional.machine e').2) ih

theorem executed_succ_head (n : Nat) (e : Emulator) :
    executed (n + 1) e = e.executeInstruction.1 :: executed n e.executeInstruction.2 := by
  unfold executed
  rw [List.range_succ_eq_map, List.map_cons, List.map_map]
  congr 1
  apply List.map_congr_left
  intro k _
  show (Functional.machine.after (k + 1) e).executeInstruction.1 = _
  rw [after_succ_head]

section Governs

variable {φ : Type} {schedule : Schedule φ} {Meets : φ -> Sim -> Prop}

theorem Schedule.Governs.haltsAfter (h : schedule.Governs Meets) {f : φ} {s : Sim} {n : Nat}
    {e : Emulator} (hmeets : Meets f s) (hrun : Functional.HaltsAfter n s.emulator e) :
    exists m t, HaltsAfter m s t ∧ m + 4 = schedule.total f (executed n s.emulator) := by
  induction n generalizing f s with
  | zero =>
      rcases hrun with ⟨k, _, hk, _⟩
      lia
  | succ n ih =>
      rw [executed_succ_head]
      change exists m t, _ ∧ m + 4 = schedule.cycles f (nextInfo s) +
        schedule.total (schedule.next f (nextInfo s))
          (executed n s.emulator.executeInstruction.2)
      cases hhalt : (nextInfo s).isHalt with
      | true =>
          have hlast : Functional.HaltsAfter 1 s.emulator s.emulator.executeInstruction.2 :=
            ⟨0, _, rfl, Machine.Reaches.refl _, Prod.ext hhalt rfl⟩
          have hn : n = 0 := Nat.succ.inj (hrun.unique hlast).1
          subst hn
          refine ⟨1, haltStep s, ⟨0, s, rfl, Machine.Reaches.refl s,
            (Step.halt (h.fetches f s hmeets) hhalt).machine_eq⟩, ?_⟩
          rw [h.halt f s hmeets hhalt]
          rfl
      | false =>
          rcases h.instruction f s hmeets hhalt with ⟨t, hreach, hnext, hemulator⟩
          have hrest : Functional.HaltsAfter n t.emulator e := by
            rw [hemulator]
            exact hrun.of_head (functional_step hhalt)
          rcases ih hnext hrest with ⟨m, u, hhalts, hlength⟩
          rw [hemulator] at hlength
          refine ⟨_, u, hhalts.of_reaches hreach, ?_⟩
          rw [← hlength, Nat.add_assoc]

/-- A run that a schedule governs from its start dumps and counts the scheduled cycles. -/
theorem Schedule.Governs.cycles_eq (h : schedule.Governs Meets) {ic dc : CacheConfig}
    {mem : MemoryStore} {f : φ} (hmeets : Meets f (initSimulator ic dc mem)) {n : Nat} {s : Sim}
    (hrun : HaltsAfter n (initSimulator ic dc mem) s) :
    s.log.lines.length = schedule.total f s.log.infos ∧
      (finalizeSimulator s).totalCycles = BitVec.ofNat 32 (schedule.total f s.log.infos) := by
  rcases haltsAfter_executed hrun with ⟨hfunctional, hinfos⟩
  have hnumbered := haltsAfter_numbered hrun
  rcases h.haltsAfter hmeets hfunctional with ⟨m, t, hhalts, hlength⟩
  have hlines : n + 4 = schedule.total f s.log.infos := by
    rw [hinfos, (hrun.unique hhalts).1]
    exact hlength
  rw [hnumbered.length, ← hlines]
  exact ⟨rfl, hnumbered.cycleCount⟩

end Governs

/-!
## Without data cache delays
-/

/-- What the next fetch meets: the addresses that have been fetched and the words in IF and
ID. -/
structure Front where
  seen : List Word
  fin : Word
  din : Word
deriving DecidableEq, Repr

def Front.start : Front where
  seen := []
  fin := 0#32
  din := 0#32

/-- How long IF is held for the fetch itself and for a branch behind a load. -/
def Front.heldInIf (config : CacheConfig) (f : Front) (info : InstructionInfo) : Nat :=
  max (Cache.delayAfter config f.seen info.pc)
    (branchStall info.instruction f.fin f.din 0#32).toNat

def Front.heldInId (f : Front) : Nat := (exDelay f.fin f.din).toNat

def Front.cycles (config : CacheConfig) (f : Front) (info : InstructionInfo) : Nat :=
  if info.isHalt then 5
  else if info.completes then 1 + max (f.heldInIf config info) f.heldInId
  else if info.isOverflow then 3
  else 2

/-- A fetch that is held longer than ID leaves a bubble behind, and an exception two. -/
def Front.next (config : CacheConfig) (f : Front) (info : InstructionInfo) : Front :=
  if info.completes then
    { seen := f.seen ++ [info.pc]
      fin := info.instruction
      din := if f.heldInIf config info ≤ f.heldInId then f.fin else 0#32 }
  else { f with fin := 0#32, din := 0#32 }

def fetchSchedule (config : CacheConfig) : Schedule Front where
  cycles := Front.cycles config
  next := Front.next config

structure Meets (config : CacheConfig) (f : Front) (s : Sim) : Prop where
  fetches : Fetches s
  undelayed : Undelayed s
  iCache : s.iCache.Models config f.seen
  fin : s.pipeState.ifInstr.instr = f.fin
  din : s.pipeState.idInstr.instr = f.din

section Meets

variable {config : ValidConfig} {f : Front} {s : Sim}

theorem Meets.counters (h : Meets config.toCacheConfig f s) :
    max (fetchStep s).iMiss.toNat (fetchStep s).dStall.toNat =
        f.heldInIf config.toCacheConfig (nextInfo s) ∧
      (fetchStep s).xStall.toNat = f.heldInId := by
  have hpc : (nextInfo s).pc = s.emulator.PC := Emulator.executeInstruction_pc s.emulator
  rcases fetchStep_hazards h.fetches with ⟨hdStall, hxStall⟩
  unfold Front.heldInIf Front.heldInId
  rw [(fetchStep_fields s).2.1, toNat_missDelay h.iCache config.ways_pos, hdStall, hxStall,
    h.fin, h.din, hpc]
  exact ⟨rfl, rfl⟩

theorem Meets.fetch (h : Meets config.toCacheConfig f s)
    (hcompletes : (nextInfo s).completes = true) (hhalt : (nextInfo s).isHalt = false) :
    exists t, machine.Reaches (f.cycles config.toCacheConfig (nextInfo s)) s t ∧
      Meets config.toCacheConfig (f.next config.toCacheConfig (nextInfo s)) t ∧
      t.emulator = s.emulator.executeInstruction.2 := by
  have hstep := (Step.fetch h.fetches hcompletes hhalt).machine_eq
  rcases exists_stallEnd (fetchStep s)
    ((fetchStep_fields s).2.2.1.trans h.fetches.except) with
    ⟨n, t, hreach, hfetch, hend, hprompt⟩
  have hprompt := hprompt h.undelayed.fetchStep
  have hpc : (nextInfo s).pc = s.emulator.PC := Emulator.executeInstruction_pc s.emulator
  rcases h.counters with ⟨hheldInIf, hheldInId⟩
  have hlong : max (f.heldInIf config.toCacheConfig (nextInfo s)) f.heldInId ≤ n := by
    rw [← hheldInIf, ← hheldInId]
    exact Nat.max_le.mpr ⟨Nat.max_le.mpr ⟨hend.iMiss, hend.dStall⟩, hend.xStall⟩
  have hshort : n ≤ max (f.heldInIf config.toCacheConfig (nextInfo s)) f.heldInId := by
    rw [← hheldInIf, ← hheldInId]
    exact hprompt.length
  have hlength : f.cycles config.toCacheConfig (nextInfo s) = n + 1 := by
    unfold Front.cycles
    rw [hhalt, if_neg Bool.false_ne_true, if_pos hcompletes, Nat.le_antisymm hlong hshort,
      Nat.add_comm]
  have hnext : f.next config.toCacheConfig (nextInfo s) =
      { seen := f.seen ++ [s.emulator.PC]
        fin := (nextInfo s).instruction
        din := if f.heldInIf config.toCacheConfig (nextInfo s) ≤ f.heldInId then f.fin
          else 0#32 } := by
    unfold Front.next
    rw [if_pos hcompletes, hpc]
  rw [hlength, hnext]
  refine ⟨t, hreach.head hstep, ⟨hfetch, hprompt.undelayed, ?_, ?_, ?_⟩, ?_⟩
  · rw [hend.iCache, (fetchStep_fields s).1]
    exact (h.iCache.access config.ways_pos _ _).2
  · rw [hend.ifInstr, (fetchStep_fields s).2.2.2.1]
  · -- ID keeps its instruction exactly if it is held itself until the fetch is done.
    dsimp only
    by_cases hheld : f.heldInIf config.toCacheConfig (nextInfo s) ≤ f.heldInId
    · rw [if_pos hheld]
      rcases hend.idInstr with hkept | ⟨_, hlonger⟩
      · rw [hkept, (fetchStep_fields s).2.2.2.2.1, h.fin]
      · lia
    · rw [if_neg hheld]
      rcases hprompt.idInstr with hle | hbubble
      · lia
      · rw [hbubble]
        rfl
  · rw [hend.emulator, fetchStep_emulator]

theorem Meets.trap (h : Meets config.toCacheConfig f s)
    (htrap : (nextInfo s).completes = false) :
    exists t, machine.Reaches (f.cycles config.toCacheConfig (nextInfo s)) s t ∧
      Meets config.toCacheConfig (f.next config.toCacheConfig (nextInfo s)) t ∧
      t.emulator = s.emulator.executeInstruction.2 := by
  have hend := trapEnd_spec h.fetches
  have hlength : f.cycles config.toCacheConfig (nextInfo s) = trapLength s := by
    unfold Front.cycles
    rw [isHalt_of_trap htrap, htrap, if_neg Bool.false_ne_true, if_neg Bool.false_ne_true]
    rfl
  have hnext : f.next config.toCacheConfig (nextInfo s) =
      { f with fin := 0#32, din := 0#32 } := by
    unfold Front.next
    rw [htrap, if_neg Bool.false_ne_true]
  rw [hlength, hnext]
  refine ⟨trapEnd s, trap_reaches h.fetches htrap,
    ⟨hend.fetches, ⟨hend.dMiss.trans h.undelayed.dMiss, ?_⟩, ?_, ?_, ?_⟩, hend.emulator⟩
  · rw [hend.dCache]
    exact h.undelayed.latency
  · rw [hend.iCache]
    exact h.iCache
  · rw [hend.ifInstr]
    rfl
  · rw [hend.idInstr]
    rfl

end Meets

theorem fetchSchedule_governs (config : ValidConfig) :
    (fetchSchedule config.toCacheConfig).Governs (Meets config.toCacheConfig) where
  fetches _ _ h := h.fetches
  halt _ _ _ hhalt := if_pos hhalt
  instruction := by
    intro f s h hhalt
    cases hcompletes : (nextInfo s).completes with
    | true =>
        exact h.fetch hcompletes hhalt
    | false =>
        exact h.trap hcompletes

theorem meets_start (ic dc : CacheConfig) (mem : MemoryStore) (hd : dc.missLatency = 0#32) :
    Meets ic Front.start (initSimulator ic dc mem) where
  fetches := fetches_initSimulator ic dc mem
  undelayed := ⟨rfl, hd⟩
  iCache := Cache.models_new ic
  fin := rfl
  din := rfl

end Cycle

/-- Without data cache latency a run takes the cycles of its schedule: over the executed
instructions, one cycle each and the longest of its fetch delay and its hazards with the two
words in front of it, the bubbles of its exception and the drain behind the halt word. -/
theorem cycles_of_fetchSchedule (image : MemImage) (ic dc : ValidConfig)
    (hundelayed : dc.missLatency = 0#32) {fuel : Nat} {s : Cycle.Sim}
    (h : Cycle.runTillHalt fuel (Cycle.initSimulator ic.toCacheConfig dc.toCacheConfig
      (MemoryStore.ofImage image)) = some (.halt, s)) :
    s.log.lines.length =
        (Cycle.fetchSchedule ic.toCacheConfig).total Cycle.Front.start s.log.infos ∧
      (Cycle.finalizeSimulator s).totalCycles =
        BitVec.ofNat 32
          ((Cycle.fetchSchedule ic.toCacheConfig).total Cycle.Front.start s.log.infos) := by
  rcases Cycle.haltsAfter_iff_runTillHalt.mpr ⟨fuel, h⟩ with ⟨n, hrun⟩
  exact (Cycle.fetchSchedule_governs ic).cycles_eq
    (Cycle.meets_start ic.toCacheConfig dc.toCacheConfig _ hundelayed) hrun

theorem cycles_of_fetchSchedule_increment :
    exists fuel s,
      Cycle.runTillHalt fuel
          (Cycle.initSimulator (ValidConfig.oneBlock 3#32).toCacheConfig
            (ValidConfig.oneBlock 0#32).toCacheConfig
            (MemoryStore.ofImage (MemImage.ofWords incrementProgram))) = some (.halt, s) ∧
        s.log.lines.length =
          (Cycle.fetchSchedule (ValidConfig.oneBlock 3#32).toCacheConfig).total
            Cycle.Front.start s.log.infos := by
  have hrun : Cycle.HaltsAfter 5
      (Cycle.initSimulator (ValidConfig.oneBlock 3#32).toCacheConfig
        (ValidConfig.oneBlock 0#32).toCacheConfig
        (MemoryStore.ofImage (MemImage.ofWords incrementProgram))) _ :=
    Machine.finishesIn_after (by decide) (by decide)
  rcases Cycle.haltsAfter_iff_runTillHalt.mp ⟨_, hrun⟩ with ⟨fuel, hfuel⟩
  exact ⟨fuel, _, hfuel, (cycles_of_fetchSchedule _ (ValidConfig.oneBlock 3#32)
    (ValidConfig.oneBlock 0#32) rfl hfuel).1⟩

end PipeSim
