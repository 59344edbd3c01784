import PipeSim.Cycle.Accounting

/-!
# Fetches and the instruction cache

An instruction that raises an exception leaves the loop before the instruction cache is
asked for it.  All other fetches go through the cache once, in the order of execution.
-/

namespace PipeSim

open Library

namespace Cycle

/-- The addresses of the executed instructions that raised no exception. -/
def completedFetches (infos : List InstructionInfo) : List Word :=
  (infos.filter fun info => info.completes).map fun info => info.pc

theorem completedFetches_append (as bs : List InstructionInfo) :
    completedFetches (as ++ bs) = completedFetches as ++ completedFetches bs := by
  unfold completedFetches
  rw [List.filter_append, List.map_append]

theorem completedFetches_eq_iff (infos : List InstructionInfo) :
    completedFetches infos = infos.map (fun info => info.pc) <->
      forall info, info ∈ infos -> info.completes = true := by
  unfold completedFetches
  constructor
  · intro h
    have hlength := congrArg List.length h
    rw [List.length_map, List.length_map] at hlength
    exact List.length_filter_eq_length_iff.mp hlength
  · intro h
    rw [List.filter_eq_self.mpr h]

/-!
## The accesses of a run
-/

/-- The accesses to the instruction cache so far, and its counters. -/
structure FetchesCompleted (s : Sim) : Prop where
  iAccesses : s.log.iAccesses = completedFetches s.log.infos
  counters : s.iCache.hits + s.iCache.misses = BitVec.ofNat 32 s.log.iAccesses.length

theorem access_counters (c : Cache) (address : Word) (operation : CacheOperation) :
    (c.access address operation).2.hits + (c.access address operation).2.misses =
      c.hits + c.misses + 1#32 := by
  unfold Cache.access
  dsimp only
  split
  · rw [BitVec.add_zero, BitVec.add_assoc, BitVec.add_comm 1#32, ← BitVec.add_assoc]
  · rw [BitVec.add_zero, BitVec.add_assoc]

theorem fetchPath_iAccesses (s : Sim) :
    (fetchPath s).log.iAccesses = s.log.iAccesses ++ [(nextInfo s).pc] := by
  rw [fetchPath_eq]
  dsimp only [detectHazards]
  rw [(probeData_frame (fetched s)).iAccesses]
  rfl

theorem stallStep_iAccesses (s : Sim) : (stallStep s).log.iAccesses = s.log.iAccesses := by
  unfold stallStep
  rw [finishCycle_iAccesses, (stallPath_frame s).iAccesses, shuffled_log]

theorem FetchesCompleted.snoc {s t : Sim} (h : FetchesCompleted s)
    (hcompletes : (nextInfo s).completes = true)
    (hinfos : t.log.infos = s.log.infos ++ [nextInfo s])
    (hiAccesses : t.log.iAccesses = s.log.iAccesses ++ [(nextInfo s).pc])
    (hiCache : t.iCache = (s.iCache.access s.emulator.PC .read).2) : FetchesCompleted t := by
  constructor
  · have hlast : completedFetches [nextInfo s] = [(nextInfo s).pc] := by
      unfold completedFetches
      rw [List.filter_cons_of_pos hcompletes]
      rfl
    rw [hinfos, hiAccesses, completedFetches_append, hlast, h.iAccesses]
  · rw [hiCache, access_counters, h.counters, hiAccesses, List.length_append, BitVec.ofNat_add]
    rfl

theorem step_fetchesCompleted {s s' : Sim} (h : FetchesCompleted s)
    (hstep : Step s false s') : FetchesCompleted s' := by
  cases hstep with
  | except _ =>
      exact ⟨h.iAccesses, h.counters⟩
  | stall _ _ =>
      constructor
      · rw [stallStep_iAccesses, stallStep_infos]
        exact h.iAccesses
      · rw [stallStep_iAccesses, stallStep_iCache]
        exact h.counters
  | trap _ htrap =>
      have hlast : completedFetches [nextInfo s] = [] := by
        unfold completedFetches
        rw [List.filter_cons_of_neg (by rw [htrap]; decide)]
        rfl
      constructor
      · rw [trapStep_infos, completedFetches_append, hlast, List.append_nil]
        exact h.iAccesses
      · exact h.counters
  | fetch _ hcompletes _ =>
      unfold fetchStep
      apply h.snoc hcompletes
      · rw [finishCycle_infos, fetchPath_infos]
      · rw [finishCycle_iAccesses, fetchPath_iAccesses]
      · rw [finishCycle_iCache, fetchPath_iCache]

theorem haltDrain_fetches (s : Sim) :
    (haltDrain s).log.iAccesses = s.log.iAccesses ∧ (haltDrain s).iCache = s.iCache := by
  unfold haltDrain
  apply forLoop_induction
    (fun (_ : Nat) (t : Sim) => t.log.iAccesses = s.log.iAccesses ∧ t.iCache = s.iCache)
  · exact ⟨rfl, rfl⟩
  · intro _ t _ ht
    exact ht

section Runs

variable {ic dc : CacheConfig} {mem : MemoryStore} {n : Nat} {s : Sim}

theorem haltsAfter_fetchesCompleted (h : HaltsAfter n (initSimulator ic dc mem) s) :
    FetchesCompleted s := by
  rcases haltsAfter_last h with ⟨k, u, _, hreach, _, hhalt, rfl⟩
  have hu : FetchesCompleted u :=
    hreach.invariant (fun _ _ hs hstep => step_fetchesCompleted hs (step_of_machine hstep))
      ⟨rfl, rfl⟩
  apply hu.snoc (completes_of_isHalt hhalt) (haltStep_infos u)
  · unfold haltStep
    rw [finishCycle_iAccesses, (haltDrain_fetches _).1, fetchPath_iAccesses]
  · unfold haltStep
    rw [finishCycle_iCache, (haltDrain_fetches _).2, fetchPath_iCache]

theorem haltsAfter_forall_infos (h : HaltsAfter n (initSimulator ic dc mem) s)
    (P : InstructionInfo -> Prop) :
    (forall info, info ∈ s.log.infos -> P info) <->
      forall k e, Functional.machine.Reaches k (Functional.initEmulator mem) e ->
        P e.executeInstruction.1 := by
  rcases haltsAfter_executed h with ⟨hfunctional, hinfos⟩
  generalize s.log.infos.length = m at hfunctional hinfos
  rw [hinfos]
  unfold executed
  constructor
  · intro hall k e hreach
    have hk := hfunctional.lt_of_reaches hreach
    rw [hreach.eq_after]
    exact hall _ (List.mem_map.mpr ⟨k, List.mem_range.mpr hk, rfl⟩)
  · intro hall info hinfo
    rcases List.mem_map.mp hinfo with ⟨k, hk, rfl⟩
    rcases hfunctional with ⟨j, u, rfl, hreach, _⟩
    exact hall k _ (hreach.take (Nat.le_of_lt_succ (List.mem_range.mp hk)))

end Runs

end Cycle

/-- Every executed instruction is fetched through the instruction cache exactly once, in order,
if and only if no instruction of the program's run overflows or is illegal. -/
theorem fetches_accessed_once_iff (image : MemImage) (ic dc : ValidConfig) {fuel : Nat}
    {s : Cycle.Sim}
    (h : Cycle.runTillHalt fuel (Cycle.initSimulator ic.toCacheConfig dc.toCacheConfig
      (MemoryStore.ofImage image)) = some (.halt, s)) :
    (s.log.iAccesses = s.log.infos.map (fun info => info.pc) ∧
        s.iCache.hits + s.iCache.misses = s.emulator.din) <->
      forall k e,
        Functional.machine.Reaches k (Functional.initEmulator (MemoryStore.ofImage image)) e ->
          e.executeInstruction.1.completes = true := by
  rcases Cycle.haltsAfter_iff_runTillHalt.mpr ⟨fuel, h⟩ with ⟨n, hrun⟩
  have hfetches := Cycle.haltsAfter_fetchesCompleted hrun
  have hdin := Functional.haltsAfter_din (Cycle.haltsAfter_executed hrun).1
  rw [← Cycle.haltsAfter_forall_infos hrun fun info => info.completes = true,
    ← Cycle.completedFetches_eq_iff, hfetches.counters, hfetches.iAccesses, hdin]
  constructor
  · intro haccesses
    exact haccesses.1
  · intro hcompleted
    rw [hcompleted, List.length_map]
    exact ⟨rfl, rfl⟩

theorem fetches_accessed_once_increment :
    exists fuel s,
      Cycle.runTillHalt fuel
          (Cycle.initSimulator (ValidConfig.oneBlock 3#32).toCacheConfig
            (ValidConfig.oneBlock 2#32).toCacheConfig
            (MemoryStore.ofImage (MemImage.ofWords incrementProgram))) = some (.halt, s) ∧
        s.log.iAccesses = s.log.infos.map (fun info => info.pc) := by
  have hrun : Cycle.HaltsAfter 5
      (Cycle.initSimulator (ValidConfig.oneBlock 3#32).toCacheConfig
        (ValidConfig.oneBlock 2#32).toCacheConfig
        (MemoryStore.ofImage (MemImage.ofWords incrementProgram))) _ :=
    Machine.finishesIn_after (by decide) (by decide +kernel)
  have hfunctional : Functional.HaltsAfter 2
      (Functional.initEmulator (MemoryStore.ofImage (MemImage.ofWords incrementProgram))) _ :=
    Machine.finishesIn_after (by decide) (by decide +kernel)
  rcases Cycle.haltsAfter_iff_runTillHalt.mp ⟨_, hrun⟩ with ⟨fuel, hfuel⟩
  refine ⟨fuel, _, hfuel, ((fetches_accessed_once_iff _ (ValidConfig.oneBlock 3#32)
    (ValidConfig.oneBlock 2#32) hfuel).mpr ?_).1⟩
  exact hfunctional.forall_reaches
    (P := fun e : Emulator => e.executeInstruction.1.completes = true) (by decide)

/-- An unknown opcode at address 0 in a memory full of halt words. -/
def illegalOpcodeImage : MemImage := fun i =>
  ((if i.val < 4 then 0xfc000000#32 else haltWord) >>>
    MemoryStore.byteShift 4 (i.val % 4)).setWidth 8

/-- The fetch of the unknown opcode does not go through the instruction cache. -/
theorem illegal_fetch_not_accessed :
    exists (image : MemImage) (ic dc : ValidConfig) (fuel : Nat) (s : Cycle.Sim),
      Cycle.runTillHalt fuel (Cycle.initSimulator ic.toCacheConfig dc.toCacheConfig
          (MemoryStore.ofImage image)) = some (.halt, s) ∧
        s.log.infos.map (fun info => info.pc) = [0#32, 0x8000#32] ∧
        s.log.iAccesses = [0x8000#32] ∧
        s.iCache.hits + s.iCache.misses ≠ s.emulator.din := by
  have hrun : Cycle.HaltsAfter 3
      (Cycle.initSimulator (ValidConfig.oneBlock 3#32).toCacheConfig
        (ValidConfig.oneBlock 2#32).toCacheConfig
        (MemoryStore.ofImage illegalOpcodeImage)) _ :=
    Machine.finishesIn_after (by decide) (by decide +kernel)
  rcases Cycle.haltsAfter_iff_runTillHalt.mp ⟨_, hrun⟩ with ⟨fuel, hfuel⟩
  exact ⟨illegalOpcodeImage, ValidConfig.oneBlock 3#32, ValidConfig.oneBlock 2#32, fuel, _, hfuel,
    by decide, by decide +kernel, by decide +kernel⟩

end PipeSim
