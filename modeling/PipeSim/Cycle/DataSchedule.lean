import PipeSim.Cycle.Monotone
import PipeSim.Cycle.Schedule

/-!
# How long a program takes with data cache delays

In a run that loses neither a probe nor a stall, the stall behind a fetch is a function of the
delay of the fetch, the hazard in front of EX and the references on their way to MEM.  These
are known from the instructions, so that the whole run follows a schedule.
-/

namespace PipeSim

open Library

namespace Cycle

/-- The length of the stall behind a fetch and the view at its end, for the delays `i` of the
fetch, `x` in front of EX and `d` in MEM. -/
def stallBehind (config : CacheConfig) (i x d : Nat) (v : View) : Nat × View :=
  if x = 0 then
    if i ≤ d then (d, v)
    else if i ≤ d + 1 + v.delay config then (d + 1 + v.delay config, v.shift)
    else (max i (d + 1 + v.delay config + 1 + v.shift.delay config), v.shift.shift)
  else if i ≤ 1 + v.delay config then (1 + v.delay config, v.skip)
  else (i, v.skip.shift)

theorem Segment.eq_stallBehind {config : CacheConfig} {i x d n : Nat} {v w : View}
    (h : Segment config i x d v n w) : stallBehind config i x d v = (n, w) := by
  unfold stallBehind
  cases h with
  | kept hx hi =>
      rw [if_pos hx, if_pos hi]
  | moved hx hd hi _ =>
      rw [if_pos hx, if_neg (Nat.not_le.mpr hd), if_pos hi]
  | emptied hx hi =>
      rw [if_pos hx, if_neg (by lia), if_neg (by lia)]
  | skipped hx hd hi =>
      rw [if_neg (by lia), if_pos hi]
  | skippedEmptied hx hd hi _ =>
      rw [if_neg (by lia), if_neg (by lia)]

/-- What the next fetch meets: the addresses that have been fetched, the word and the reference
in IF, and the view of the stages behind it. -/
structure Traffic where
  fetched : List Word
  fin : Word
  finRef : Option (Word × CacheOperation)
  view : View

def Traffic.start : Traffic where
  fetched := []
  fin := 0#32
  finRef := none
  view := View.bubbles []

def Traffic.stall (ic dc : CacheConfig) (f : Traffic) (info : InstructionInfo) : Nat × View :=
  stallBehind dc (Cache.delayAfter ic f.fetched info.pc) (exDelay f.fin f.view.din).toNat
    (f.view.delay dc) (f.view.fetch f.fin f.finRef)

def Traffic.cycles (ic dc : CacheConfig) (f : Traffic) (info : InstructionInfo) : Nat :=
  if info.isHalt then 5
  else if info.completes then 1 + (f.stall ic dc info).1
  else if info.isOverflow then 3
  else 2

def Traffic.next (ic dc : CacheConfig) (f : Traffic) (info : InstructionInfo) : Traffic :=
  if info.completes then
    { fetched := f.fetched ++ [info.pc]
      fin := info.instruction
      finRef := referenceOf info.instruction (bufferedAddress info)
      view := (f.stall ic dc info).2 }
  else
    { fetched := f.fetched
      fin := 0#32
      finRef := none
      view := f.view.trap (if info.isOverflow then none else f.finRef) }

def dataSchedule (ic dc : CacheConfig) : Schedule Traffic where
  cycles := Traffic.cycles ic dc
  next := Traffic.next ic dc

/-- The state is in front of a fetch that meets `f`, and nothing will be lost. -/
structure MeetsTraffic (ic dc : CacheConfig) (f : Traffic) (s : Sim) : Prop where
  waits : Waits dc s 0 0 0 f.view
  iCache : s.iCache.Models ic f.fetched
  fin : s.pipeState.ifInstr.instr = f.fin
  finRef : references s 0 = f.finRef
  keeps : KeepsAllDelays s

section MeetsTraffic

variable {ic dc : ValidConfig} {f : Traffic} {s : Sim}

theorem MeetsTraffic.fetch (h : MeetsTraffic ic.toCacheConfig dc.toCacheConfig f s)
    (hcompletes : (nextInfo s).completes = true) (hhalt : (nextInfo s).isHalt = false) :
    exists t, machine.Reaches (f.cycles ic.toCacheConfig dc.toCacheConfig (nextInfo s)) s t ∧
      MeetsTraffic ic.toCacheConfig dc.toCacheConfig
        (f.next ic.toCacheConfig dc.toCacheConfig (nextInfo s)) t ∧
      t.emulator = s.emulator.executeInstruction.2 := by
  have hfetch := h.waits.fetches
  have hstep := (Step.fetch hfetch hcompletes hhalt).machine_eq
  have hkeeps := h.keeps.of_reaches (Machine.Reaches.one hstep)
  have hpc : (nextInfo s).pc = s.emulator.PC := Emulator.executeInstruction_pc s.emulator
  rcases h.waits.exists_segment dc.ways_pos hkeeps with ⟨n, t, w, hsegment, hrun, hwaits⟩
  have hstall : f.stall ic.toCacheConfig dc.toCacheConfig (nextInfo s) = (n, w) := by
    have hlength := hsegment.eq_stallBehind
    rw [(fetchStep_fields s).2.1, toNat_missDelay h.iCache ic.ways_pos, h.fin, h.finRef,
      ← hpc] at hlength
    exact hlength
  have hcycles : f.cycles ic.toCacheConfig dc.toCacheConfig (nextInfo s) = n + 1 := by
    unfold Traffic.cycles
    rw [hhalt, if_neg Bool.false_ne_true, if_pos hcompletes, hstall, Nat.add_comm]
  have hnext : f.next ic.toCacheConfig dc.toCacheConfig (nextInfo s) =
      { fetched := f.fetched ++ [s.emulator.PC]
        fin := (nextInfo s).instruction
        finRef := referenceOf (nextInfo s).instruction (bufferedAddress (nextInfo s))
        view := w } := by
    unfold Traffic.next
    rw [if_pos hcompletes, hstall, hpc]
  rw [hcycles, hnext]
  refine ⟨t, hrun.reaches.head hstep, ⟨hwaits, ?_, ?_, ?_, hkeeps.of_reaches hrun.reaches⟩, ?_⟩
  · rw [hrun.iCache, (fetchStep_fields s).1]
    exact (h.iCache.access ic.ways_pos _ _).2
  · rw [hrun.ifInstr, (fetchStep_fields s).2.2.2.1]
  · rw [hrun.ifRef, (fetchStep_moved s).reference (Nat.zero_le 3), Conveyor.advance_self]
    rfl
  · rw [hrun.emulator, fetchStep_emulator]

theorem MeetsTraffic.trap (h : MeetsTraffic ic.toCacheConfig dc.toCacheConfig f s)
    (htrap : (nextInfo s).completes = false) :
    exists t, machine.Reaches (f.cycles ic.toCacheConfig dc.toCacheConfig (nextInfo s)) s t ∧
      MeetsTraffic ic.toCacheConfig dc.toCacheConfig
        (f.next ic.toCacheConfig dc.toCacheConfig (nextInfo s)) t ∧
      t.emulator = s.emulator.executeInstruction.2 := by
  have hend := trapEnd_spec h.waits.fetches
  have hreach := trap_reaches h.waits.fetches htrap
  rcases h.waits.trap h.keeps htrap with ⟨hifRef, hwaits⟩
  have hcycles : f.cycles ic.toCacheConfig dc.toCacheConfig (nextInfo s) = trapLength s := by
    unfold Traffic.cycles
    rw [isHalt_of_trap htrap, htrap, if_neg Bool.false_ne_true, if_neg Bool.false_ne_true]
    rfl
  have hnext : f.next ic.toCacheConfig dc.toCacheConfig (nextInfo s) =
      { fetched := f.fetched
        fin := 0#32
        finRef := none
        view := f.view.trap (if (nextInfo s).isOverflow then none else f.finRef) } := by
    unfold Traffic.next
    rw [htrap, if_neg Bool.false_ne_true]
  rw [hcycles, hnext, ← h.finRef]
  refine ⟨trapEnd s, hreach, ⟨hwaits, ?_, ?_, hifRef, h.keeps.of_reaches hreach⟩, hend.emulator⟩
  · rw [hend.iCache]
    exact h.iCache
  · rw [hend.ifInstr]
    rfl

end MeetsTraffic

theorem dataSchedule_governs (ic dc : ValidConfig) :
    (dataSchedule ic.toCacheConfig dc.toCacheConfig).Governs
      (MeetsTraffic ic.toCacheConfig dc.toCacheConfig) where
  fetches _ _ h := h.waits.fetches
  halt _ _ _ hhalt := if_pos hhalt
  instruction := by
    intro f s h hhalt
    cases hcompletes : (nextInfo s).completes with
    | true =>
        exact h.fetch hcompletes hhalt
    | false =>
        exact h.trap hcompletes

theorem meetsTraffic_start (ic dc : CacheConfig) (mem : MemoryStore)
    (hkeeps : KeepsAllDelays (initSimulator ic dc mem)) :
    MeetsTraffic ic dc Traffic.start (initSimulator ic dc mem) where
  waits := waits_initSimulator ic dc mem
  iCache := Cache.models_new ic
  fin := rfl
  finRef := rfl
  keeps := hkeeps

end Cycle

/-- A run that loses neither a probe nor a stall takes the cycles of its schedule, whatever the
two caches: a function of the executed instructions, their addresses and their data
references. -/
theorem cycles_of_dataSchedule (image : MemImage) (ic dc : ValidConfig)
    (hkeeps : Cycle.KeepsAllDelays (Cycle.initSimulator ic.toCacheConfig dc.toCacheConfig
      (MemoryStore.ofImage image)))
    {fuel : Nat} {s : Cycle.Sim}
    (h : Cycle.runTillHalt fuel (Cycle.initSimulator ic.toCacheConfig dc.toCacheConfig
      (MemoryStore.ofImage image)) = some (.halt, s)) :
    s.log.lines.length =
        (Cycle.dataSchedule ic.toCacheConfig dc.toCacheConfig).total Cycle.Traffic.start
          s.log.infos ∧
      (Cycle.finalizeSimulator s).totalCycles =
        BitVec.ofNat 32 ((Cycle.dataSchedule ic.toCacheConfig dc.toCacheConfig).total
          Cycle.Traffic.start s.log.infos) := by
  rcases Cycle.haltsAfter_iff_runTillHalt.mpr ⟨fuel, h⟩ with ⟨n, hrun⟩
  exact (Cycle.dataSchedule_governs ic dc).cycles_eq
    (Cycle.meetsTraffic_start ic.toCacheConfig dc.toCacheConfig _ hkeeps) hrun

theorem cycles_of_dataSchedule_block_store :
    exists fuel s,
      Cycle.runTillHalt fuel
          (Cycle.initSimulator (ValidConfig.oneBlock 2#32).toCacheConfig
            (ValidConfig.oneBlock 2#32).toCacheConfig
            (MemoryStore.ofImage (MemImage.ofWords blockStoreProgram))) = some (.halt, s) ∧
        s.log.lines.length =
          (Cycle.dataSchedule (ValidConfig.oneBlock 2#32).toCacheConfig
            (ValidConfig.oneBlock 2#32).toCacheConfig).total Cycle.Traffic.start
            s.log.infos := by
  have hrun : Cycle.HaltsAfter 16
      (Cycle.initSimulator (ValidConfig.oneBlock 2#32).toCacheConfig
        (ValidConfig.oneBlock 2#32).toCacheConfig
        (MemoryStore.ofImage (MemImage.ofWords blockStoreProgram))) _ :=
    Machine.finishesIn_after (by decide +kernel) (by decide +kernel)
  rcases Cycle.haltsAfter_iff_runTillHalt.mp ⟨_, hrun⟩ with ⟨fuel, hfuel⟩
  refine ⟨fuel, _, hfuel, (cycles_of_dataSchedule _ (ValidConfig.oneBlock 2#32)
    (ValidConfig.oneBlock 2#32) ?_ hfuel).1⟩
  exact hrun.forall_reaches (P := Cycle.KeepsDelays) (by decide +kernel)

end PipeSim
