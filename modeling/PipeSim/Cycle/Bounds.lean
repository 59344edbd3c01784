import PipeSim.Cycle.Accounting
import PipeSim.Cycle.StallLength

/-!
# The number of cycles of a program

Each instruction takes at least one cycle and at most one more than the longest stall that can
stand behind it, whatever the caches and whatever is lost on the way.
-/

namespace PipeSim

open Library

namespace Cycle

def cyclesPerInstruction (ic dc : CacheConfig) : Nat :=
  1 + max ic.missLatency.toNat 2 + dc.missLatency.toNat

/-- A state of a run in front of a fetch, with the emulator of the functional simulator. -/
structure Fetching (ic dc : CacheConfig) (mem : MemoryStore) (s : Sim) (e : Emulator) :
    Prop where
  fetches : Fetches s
  reaches : exists k, machine.Reaches k (initSimulator ic dc mem) s
  emulator : s.emulator = e

theorem leaves_emulator {n : Nat} {s t : Sim} (h : machine.Leaves TakesStallPath n s t) :
    machine.Reaches n s t ∧ t.emulator = s.emulator := by
  induction h with
  | now _ =>
      exact ⟨Machine.Reaches.refl _, rfl⟩
  | later hpath hstep _ ih =>
      have hstall := (Step.stall hpath.1 hpath.2).machine_eq.symm.trans hstep
      cases hstall
      exact ⟨ih.1.head hstep, ih.2.trans (stallStep_emulator _)⟩

section Fetching

variable {ic dc : ValidConfig} {mem : MemoryStore} {s : Sim} {e : Emulator}

theorem Fetching.lap (h : Fetching ic.toCacheConfig dc.toCacheConfig mem s e) :
    (machine s).1 = true ∨
      exists j s' e', j ≤ cyclesPerInstruction ic.toCacheConfig dc.toCacheConfig ∧
        machine.Reaches j s s' ∧ Functional.machine e = (false, e') ∧
        Fetching ic.toCacheConfig dc.toCacheConfig mem s' e' := by
  rcases h.reaches with ⟨k, hreach⟩
  rw [← h.emulator]
  cases hhalt : (nextInfo s).isHalt with
  | true =>
      rw [(Step.halt h.fetches hhalt).machine_eq]
      exact Or.inl rfl
  | false =>
      refine Or.inr ?_
      cases hcompletes : (nextInfo s).completes with
      | true =>
          have hstep := (Step.fetch h.fetches hcompletes hhalt).machine_eq
          have hbounds := stallBounds_of_reaches dc.ways_pos hreach
          rcases (hbounds.fetchStep dc.ways_pos h.fetches).exists_leaves dc.ways_pos
            ((fetchStep_fields s).2.2.1.trans h.fetches.except) with ⟨n, t, hleaves, ht, hle⟩
          rcases leaves_emulator hleaves with ⟨hstall, hemulator⟩
          have hlap := hstall.head hstep
          have hlong := hbounds.stallBound_fetchStep dc.ways_pos h.fetches
          refine ⟨n + 1, t, _, ?_, hlap, functional_step hhalt, ht, ⟨_, hreach.trans hlap⟩,
            hemulator.trans (fetchStep_emulator s)⟩
          unfold cyclesPerInstruction
          lia
      | false =>
          have hlap := trap_reaches h.fetches hcompletes
          have hend := trapEnd_spec h.fetches
          refine ⟨trapLength s, trapEnd s, _, ?_, hlap, functional_step hhalt, hend.fetches,
            ⟨_, hreach.trans hlap⟩, hend.emulator⟩
          unfold trapLength cyclesPerInstruction
          split
          · lia
          · lia

theorem fetching_initSimulator (ic dc : CacheConfig) (mem : MemoryStore) :
    Fetching ic dc mem (initSimulator ic dc mem) (Functional.initEmulator mem) where
  fetches := ⟨rfl, not_stalled_iff.mpr ⟨rfl, rfl, rfl, rfl⟩⟩
  reaches := ⟨0, Machine.Reaches.refl _⟩
  emulator := rfl

end Fetching

end Cycle

/-- A program that the functional simulator runs to its halt word in `n` instructions takes at
least `n + 4` cycles, and four more at most than `n` times one cycle, the larger one of the
instruction miss latency and two, and the data miss latency. -/
theorem cycles_within_bounds (image : MemImage) (ic dc : ValidConfig) {n : Nat} {e : Emulator}
    (h : Functional.HaltsAfter n (Functional.initEmulator (MemoryStore.ofImage image)) e) :
    exists fuel s,
      Cycle.runTillHalt fuel (Cycle.initSimulator ic.toCacheConfig dc.toCacheConfig
          (MemoryStore.ofImage image)) = some (.halt, s) ∧
        n + 4 ≤ s.log.lines.length ∧
        s.log.lines.length ≤
          n * (1 + max ic.missLatency.toNat 2 + dc.missLatency.toNat) + 4 := by
  rcases Cycle.exists_haltsAfter_of_functional ic.toCacheConfig dc.toCacheConfig _ h with
    ⟨m, s, hrun, _⟩
  rcases Cycle.haltsAfter_iff_runTillHalt.mp ⟨m, hrun⟩ with ⟨fuel, hfuel⟩
  have hexecuted := ((Cycle.haltsAfter_executed hrun).1.unique h).1
  have haccounted := Cycle.haltsAfter_accounted hrun
  have hlines := (Cycle.haltsAfter_numbered hrun).length
  have hmost : m ≤ n * Cycle.cyclesPerInstruction ic.toCacheConfig dc.toCacheConfig := by
    refine Machine.FinishesIn.le_mul_of_laps ?_ (fun _ _ hlap => Cycle.Fetching.lap hlap)
      (Cycle.fetching_initSimulator ic.toCacheConfig dc.toCacheConfig _) hrun h
    unfold Cycle.cyclesPerInstruction
    lia
  refine ⟨fuel, s, hfuel, by lia, ?_⟩
  rw [hlines]
  exact Nat.add_le_add_right hmost 4

theorem cycles_within_bounds_increment :
    exists fuel s,
      Cycle.runTillHalt fuel (Cycle.initSimulator (ValidConfig.oneBlock 3#32).toCacheConfig
          (ValidConfig.oneBlock 2#32).toCacheConfig
          (MemoryStore.ofImage (MemImage.ofWords incrementProgram))) = some (.halt, s) ∧
        6 ≤ s.log.lines.length ∧ s.log.lines.length ≤ 16 := by
  have hrun : Functional.HaltsAfter 2
      (Functional.initEmulator (MemoryStore.ofImage (MemImage.ofWords incrementProgram))) _ :=
    Machine.finishesIn_after (by decide) (by decide)
  exact cycles_within_bounds _ (ValidConfig.oneBlock 3#32) (ValidConfig.oneBlock 2#32) hrun

end PipeSim
