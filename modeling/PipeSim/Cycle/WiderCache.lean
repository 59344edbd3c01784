import Mathlib.Data.Bool.Count
import PipeSim.Cache.Inclusion
import PipeSim.Cycle.Fetching
import PipeSim.Cycle.Monotone

/-!
# The instruction cache of a program

What the instruction cache is asked for depends on the program alone: neither the data cache
nor any miss latency changes a hit into a miss.  More ways therefore do not add misses, and
without data cache delays they do not add cycles either.
-/

namespace PipeSim

open Library

namespace Cache

section Counts

variable {config config' : ValidConfig}

theorem widens_of_sameShape (h : config.SameShape config'.toCacheConfig) :
    config.Widens config'.toCacheConfig := by
  refine ⟨h.blockSize, ?_, ?_⟩
  · unfold CacheConfig.numSets
    rw [h.cacheSize, h.ways, h.blockSize]
  · rw [h.ways]
    exact BitVec.le_refl _

theorem length_accessAll (c : Cache) (as : List (Word × CacheOperation)) :
    (c.accessAll as).1.length = as.length := by
  induction as generalizing c with
  | nil =>
      rfl
  | cons a as ih =>
      rw [accessAll, List.length_cons, List.length_cons, ih]

theorem accessAll_new_counters (config : CacheConfig) (as : List (Word × CacheOperation)) :
    ((new config).accessAll as).2.hits =
        BitVec.ofNat 32 (((new config).accessAll as).1.count true) ∧
      ((new config).accessAll as).2.misses =
        BitVec.ofNat 32 (((new config).accessAll as).1.count false) := by
  rw [accessAll_hits, accessAll_misses]
  exact ⟨BitVec.zero_add _, BitVec.zero_add _⟩

theorem count_of_widens (h : config.Widens config'.toCacheConfig)
    (as : List (Word × CacheOperation)) :
    ((new config'.toCacheConfig).accessAll as).1.count false ≤
        ((new config.toCacheConfig).accessAll as).1.count false ∧
      ((new config.toCacheConfig).accessAll as).1.count true ≤
        ((new config'.toCacheConfig).accessAll as).1.count true := by
  have hmisses : ((new config'.toCacheConfig).accessAll as).1.count false ≤
      ((new config.toCacheConfig).accessAll as).1.count false :=
    Lru.count_false_le (forall₂_accessAll_of_widens config.ways_pos h as)
  have hall := List.count_true_add_count_false ((new config.toCacheConfig).accessAll as).1
  have hall' := List.count_true_add_count_false ((new config'.toCacheConfig).accessAll as).1
  rw [length_accessAll] at hall hall'
  exact ⟨hmisses, by lia⟩

theorem counters_of_widens (h : config.Widens config'.toCacheConfig)
    {as : List (Word × CacheOperation)} (hshort : as.length < 2 ^ 32) :
    ((new config'.toCacheConfig).accessAll as).2.misses ≤
        ((new config.toCacheConfig).accessAll as).2.misses ∧
      ((new config.toCacheConfig).accessAll as).2.hits ≤
        ((new config'.toCacheConfig).accessAll as).2.hits := by
  rcases accessAll_new_counters config.toCacheConfig as with ⟨hhits, hmisses⟩
  rcases accessAll_new_counters config'.toCacheConfig as with ⟨hhits', hmisses'⟩
  rcases count_of_widens h as with ⟨hfewer, hmore⟩
  have hlength :=
    List.count_le_length (a := false) (l := ((new config.toCacheConfig).accessAll as).1)
  have hlength' :=
    List.count_le_length (a := true) (l := ((new config'.toCacheConfig).accessAll as).1)
  rw [length_accessAll] at hlength hlength'
  rw [hhits, hmisses, hhits', hmisses', BitVec.le_def, BitVec.le_def, BitVec.toNat_ofNat,
    BitVec.toNat_ofNat, BitVec.toNat_ofNat, BitVec.toNat_ofNat, Nat.mod_eq_of_lt (by lia),
    Nat.mod_eq_of_lt (by lia), Nat.mod_eq_of_lt (by lia), Nat.mod_eq_of_lt (by lia)]
  exact ⟨hfewer, hmore⟩

theorem counters_of_sameShape (h : config.SameShape config'.toCacheConfig)
    (as : List (Word × CacheOperation)) :
    ((new config'.toCacheConfig).accessAll as).2.misses =
        ((new config.toCacheConfig).accessAll as).2.misses ∧
      ((new config'.toCacheConfig).accessAll as).2.hits =
        ((new config.toCacheConfig).accessAll as).2.hits := by
  have hback : config'.SameShape config.toCacheConfig :=
    ⟨h.cacheSize.symm, h.blockSize.symm, h.ways.symm⟩
  rcases accessAll_new_counters config.toCacheConfig as with ⟨hhits, hmisses⟩
  rcases accessAll_new_counters config'.toCacheConfig as with ⟨hhits', hmisses'⟩
  rcases count_of_widens (widens_of_sameShape h) as with ⟨hfewer, hmore⟩
  rcases count_of_widens (widens_of_sameShape hback) as with ⟨hfewer', hmore'⟩
  rw [hhits, hmisses, hhits', hmisses', Nat.le_antisymm hfewer hfewer',
    Nat.le_antisymm hmore hmore']
  exact ⟨rfl, rfl⟩

end Counts

def reads (addresses : List Word) : List (Word × CacheOperation) :=
  addresses.map fun address => (address, .read)

theorem accessAll_append (c : Cache) (as bs : List (Word × CacheOperation)) :
    c.accessAll (as ++ bs) =
      ((c.accessAll as).1 ++ ((c.accessAll as).2.accessAll bs).1,
        ((c.accessAll as).2.accessAll bs).2) := by
  induction as generalizing c with
  | nil =>
      rfl
  | cons a as ih =>
      rw [List.cons_append, accessAll, accessAll, ih]
      rfl

theorem accessAll_reads_append (c : Cache) (addresses : List Word) (address : Word) :
    (c.accessAll (reads (addresses ++ [address]))).2 =
      ((c.accessAll (reads addresses)).2.access address .read).2 := by
  unfold reads
  rw [List.map_append, accessAll_append]
  rfl

end Cache

namespace Cycle

/-- The instruction cache behind the accesses in the log. -/
def ICacheOf (config : CacheConfig) (s : Sim) : Prop :=
  s.iCache = ((Cache.new config).accessAll (Cache.reads s.log.iAccesses)).2

section Runs

variable {ic dc : CacheConfig} {mem : MemoryStore} {n : Nat} {s s' : Sim}

theorem ICacheOf.fetch (h : ICacheOf ic s)
    (hiAccesses : s'.log.iAccesses = s.log.iAccesses ++ [(nextInfo s).pc])
    (hiCache : s'.iCache = (s.iCache.access s.emulator.PC .read).2) : ICacheOf ic s' := by
  have hpc : (nextInfo s).pc = s.emulator.PC := Emulator.executeInstruction_pc s.emulator
  unfold ICacheOf at h ⊢
  rw [hiCache, hiAccesses, hpc, Cache.accessAll_reads_append, ← h]

theorem step_iCacheOf (h : ICacheOf ic s) (hstep : Step s false s') : ICacheOf ic s' := by
  cases hstep with
  | except _ =>
      exact h
  | stall _ _ =>
      unfold ICacheOf
      rw [stallStep_iAccesses, stallStep_iCache]
      exact h
  | trap _ _ =>
      exact h
  | fetch _ _ _ =>
      apply h.fetch
      · unfold fetchStep
        rw [finishCycle_iAccesses, fetchPath_iAccesses]
      · unfold fetchStep
        rw [finishCycle_iCache, fetchPath_iCache]

theorem iCacheOf_initSimulator (ic dc : CacheConfig) (mem : MemoryStore) :
    ICacheOf ic (initSimulator ic dc mem) := rfl

theorem haltsAfter_iCacheOf (h : HaltsAfter n (initSimulator ic dc mem) s) :
    ICacheOf ic s := by
  rcases haltsAfter_last h with ⟨k, u, _, hreach, _, _, rfl⟩
  have hu : ICacheOf ic u :=
    hreach.invariant (fun _ _ hs hstep => step_iCacheOf hs (step_of_machine hstep))
      (iCacheOf_initSimulator ic dc mem)
  apply hu.fetch
  · unfold haltStep
    rw [finishCycle_iAccesses, (haltDrain_fetches _).1, fetchPath_iAccesses]
  · unfold haltStep
    rw [finishCycle_iCache, (haltDrain_fetches _).2, fetchPath_iCache]

theorem haltsAfter_infos_eq {ic' dc' : CacheConfig} {n' : Nat}
    (h : HaltsAfter n (initSimulator ic dc mem) s)
    (h' : HaltsAfter n' (initSimulator ic' dc' mem) s') : s'.log.infos = s.log.infos := by
  rcases haltsAfter_executed h with ⟨hfunctional, hinfos⟩
  rcases haltsAfter_executed h' with ⟨hfunctional', hinfos'⟩
  rw [hinfos', hinfos, (hfunctional'.unique hfunctional).1]

theorem haltsAfter_totalCycles_le {ic' dc' : CacheConfig} {n' : Nat} (hle : n' ≤ n)
    (h' : HaltsAfter n' (initSimulator ic' dc' mem) s')
    (h : HaltsAfter n (initSimulator ic dc mem) s) :
    s'.log.lines.length ≤ s.log.lines.length ∧
      (s.log.lines.length < 2 ^ 32 ->
        (finalizeSimulator s').totalCycles ≤ (finalizeSimulator s).totalCycles) := by
  have hnumbered := haltsAfter_numbered h
  have hnumbered' := haltsAfter_numbered h'
  rw [hnumbered.length, hnumbered'.length]
  refine ⟨Nat.add_le_add_right hle 4, ?_⟩
  intro hwrap
  show s'.cycleCount ≤ s.cycleCount
  rw [hnumbered.cycleCount, hnumbered'.cycleCount, BitVec.le_def, BitVec.toNat_ofNat,
    BitVec.toNat_ofNat, Nat.mod_eq_of_lt hwrap, Nat.mod_eq_of_lt (by lia)]
  exact Nat.add_le_add_right hle 4

end Runs

end Cycle

/-- The instruction cache is asked for the instructions that raise no exception, in the order
of the program.  Its counters therefore depend on its shape only, whatever the data cache and
the miss latencies, and more ways do not add misses or take hits away. -/
theorem instruction_cache_of_program (image : MemImage) (ic dc ic' dc' : ValidConfig)
    {fuel fuel' : Nat} {s s' : Cycle.Sim}
    (h : Cycle.runTillHalt fuel (Cycle.initSimulator ic.toCacheConfig dc.toCacheConfig
      (MemoryStore.ofImage image)) = some (.halt, s))
    (h' : Cycle.runTillHalt fuel' (Cycle.initSimulator ic'.toCacheConfig dc'.toCacheConfig
      (MemoryStore.ofImage image)) = some (.halt, s')) :
    s.iCache = ((Cache.new ic.toCacheConfig).accessAll
        (Cache.reads (Cycle.completedFetches s.log.infos))).2 ∧
      s'.log.infos = s.log.infos ∧
      (ic.SameShape ic'.toCacheConfig ->
        s'.iCache.misses = s.iCache.misses ∧ s'.iCache.hits = s.iCache.hits) ∧
      (ic.Widens ic'.toCacheConfig -> s.log.infos.length < 2 ^ 32 ->
        s'.iCache.misses ≤ s.iCache.misses ∧ s.iCache.hits ≤ s'.iCache.hits) := by
  rcases Cycle.haltsAfter_iff_runTillHalt.mpr ⟨fuel, h⟩ with ⟨m, hm⟩
  rcases Cycle.haltsAfter_iff_runTillHalt.mpr ⟨fuel', h'⟩ with ⟨n, hn⟩
  have hiCache := Cycle.haltsAfter_iCacheOf hm
  have hiCache' := Cycle.haltsAfter_iCacheOf hn
  have hinfos := Cycle.haltsAfter_infos_eq hm hn
  unfold Cycle.ICacheOf at hiCache hiCache'
  rw [(Cycle.haltsAfter_fetchesCompleted hm).iAccesses] at hiCache
  rw [(Cycle.haltsAfter_fetchesCompleted hn).iAccesses, hinfos] at hiCache'
  refine ⟨hiCache, hinfos, ?_, ?_⟩
  · intro hshape
    rw [hiCache, hiCache']
    exact Cache.counters_of_sameShape hshape _
  · intro hwider hshort
    rw [hiCache, hiCache']
    apply Cache.counters_of_widens hwider
    unfold Cache.reads Cycle.completedFetches
    rw [List.length_map, List.length_map]
    exact Nat.lt_of_le_of_lt (List.length_filter_le _ _) hshort

theorem exists_increment_runs :
    (exists fuel s, Cycle.runTillHalt fuel
        (Cycle.initSimulator (ValidConfig.oneBlock 3#32).toCacheConfig
          (ValidConfig.oneBlock 2#32).toCacheConfig
          (MemoryStore.ofImage (MemImage.ofWords incrementProgram))) = some (.halt, s) ∧
      s.log.infos.length < 2 ^ 32 ∧ s.log.lines.length < 2 ^ 32) ∧
      exists fuel s, Cycle.runTillHalt fuel
        (Cycle.initSimulator (ValidConfig.twoWays 3#32).toCacheConfig
          (ValidConfig.oneBlock 0#32).toCacheConfig
          (MemoryStore.ofImage (MemImage.ofWords incrementProgram))) = some (.halt, s) := by
  have hrun : Cycle.HaltsAfter 5
      (Cycle.initSimulator (ValidConfig.oneBlock 3#32).toCacheConfig
        (ValidConfig.oneBlock 2#32).toCacheConfig
        (MemoryStore.ofImage (MemImage.ofWords incrementProgram))) _ :=
    Machine.finishesIn_after (by decide) (by decide +kernel)
  have hrun' : Cycle.HaltsAfter 5
      (Cycle.initSimulator (ValidConfig.twoWays 3#32).toCacheConfig
        (ValidConfig.oneBlock 0#32).toCacheConfig
        (MemoryStore.ofImage (MemImage.ofWords incrementProgram))) _ :=
    Machine.finishesIn_after (by decide) (by decide +kernel)
  rcases Cycle.haltsAfter_iff_runTillHalt.mp ⟨_, hrun⟩ with ⟨fuel, hfuel⟩
  rcases Cycle.haltsAfter_iff_runTillHalt.mp ⟨_, hrun'⟩ with ⟨fuel', hfuel'⟩
  exact ⟨⟨fuel, _, hfuel, by decide +kernel, by decide +kernel⟩, fuel', _, hfuel'⟩

theorem instruction_cache_of_program_two_ways :
    exists fuel fuel' s s',
      Cycle.runTillHalt fuel (Cycle.initSimulator (ValidConfig.oneBlock 3#32).toCacheConfig
          (ValidConfig.oneBlock 2#32).toCacheConfig
          (MemoryStore.ofImage (MemImage.ofWords incrementProgram))) = some (.halt, s) ∧
        Cycle.runTillHalt fuel' (Cycle.initSimulator (ValidConfig.twoWays 3#32).toCacheConfig
          (ValidConfig.oneBlock 0#32).toCacheConfig
          (MemoryStore.ofImage (MemImage.ofWords incrementProgram))) = some (.halt, s') ∧
        s'.iCache.misses ≤ s.iCache.misses := by
  rcases exists_increment_runs with ⟨⟨fuel, s, h, hshort, _⟩, fuel', s', h'⟩
  exact ⟨fuel, fuel', s, s', h, h',
    ((instruction_cache_of_program _ (ValidConfig.oneBlock 3#32) (ValidConfig.oneBlock 2#32)
      (ValidConfig.twoWays 3#32) (ValidConfig.oneBlock 0#32) h h').2.2.2
      (widens_twoWays 3#32 3#32) hshort).1⟩

/-- Without data cache latency in the run with the wider instruction cache, that run takes no
more cycles: more ways never cost time when their miss latency is not larger. -/
theorem wider_instruction_cache_not_slower (image : MemImage) (ic dc ic' dc' : ValidConfig)
    (hwider : ic.Widens ic'.toCacheConfig) (hlatency : ic'.missLatency ≤ ic.missLatency)
    (hundelayed : dc'.missLatency = 0#32) {fuel fuel' : Nat} {s s' : Cycle.Sim}
    (h : Cycle.runTillHalt fuel (Cycle.initSimulator ic.toCacheConfig dc.toCacheConfig
      (MemoryStore.ofImage image)) = some (.halt, s))
    (h' : Cycle.runTillHalt fuel' (Cycle.initSimulator ic'.toCacheConfig dc'.toCacheConfig
      (MemoryStore.ofImage image)) = some (.halt, s')) :
    s'.log.lines.length ≤ s.log.lines.length ∧
      (s.log.lines.length < 2 ^ 32 ->
        (Cycle.finalizeSimulator s').totalCycles ≤ (Cycle.finalizeSimulator s).totalCycles) := by
  rcases Cycle.haltsAfter_iff_runTillHalt.mpr ⟨fuel, h⟩ with ⟨m, hm⟩
  rcases Cycle.haltsAfter_iff_runTillHalt.mpr ⟨fuel', h'⟩ with ⟨n, hn⟩
  have hfaster : Cache.NoSlower ic'.toCacheConfig ic.toCacheConfig :=
    Cache.noSlower_of_widens hwider hlatency
  have hpace := Cycle.pace_initSimulator ic'.toCacheConfig ic.toCacheConfig dc'.toCacheConfig
    dc.toCacheConfig (MemoryStore.ofImage image) hundelayed
  have hnm : n ≤ m := hpace.le_of_noSlower hfaster hn hm
  exact Cycle.haltsAfter_totalCycles_le hnm hn hm

theorem wider_instruction_cache_not_slower_two_ways :
    exists fuel fuel' s s',
      Cycle.runTillHalt fuel (Cycle.initSimulator (ValidConfig.oneBlock 3#32).toCacheConfig
          (ValidConfig.oneBlock 2#32).toCacheConfig
          (MemoryStore.ofImage (MemImage.ofWords incrementProgram))) = some (.halt, s) ∧
        Cycle.runTillHalt fuel' (Cycle.initSimulator (ValidConfig.twoWays 3#32).toCacheConfig
          (ValidConfig.oneBlock 0#32).toCacheConfig
          (MemoryStore.ofImage (MemImage.ofWords incrementProgram))) = some (.halt, s') ∧
        s'.log.lines.length ≤ s.log.lines.length := by
  rcases exists_increment_runs with ⟨⟨fuel, s, h, _⟩, fuel', s', h'⟩
  exact ⟨fuel, fuel', s, s', h, h',
    (wider_instruction_cache_not_slower _ (ValidConfig.oneBlock 3#32)
      (ValidConfig.oneBlock 2#32) (ValidConfig.twoWays 3#32) (ValidConfig.oneBlock 0#32)
      (widens_twoWays 3#32 3#32) (by decide) rfl h h').1⟩

end PipeSim
