import PipeSim.Cycle.Segments

/-!
# Two runs of one program

Runs of the same program with different miss latencies execute the same
instructions and meet the same hits and misses in the instruction cache, so they can be
compared fetch by fetch.  A run without data cache delays is never behind a run
whose miss latencies are at least as large: where the faster run still has an
instruction in ID that the slower one has already moved on, the slower one has
spent a cycle on it.
-/

namespace PipeSim

open Library

namespace Cycle

/-!
## The same fetch in both runs
-/

structure SameFetch (ic ic' : CacheConfig) (s t : Sim) : Prop where
  first : Fetches s
  second : Fetches t
  emulator : t.emulator = s.emulator
  ifInstr : t.pipeState.ifInstr.instr = s.pipeState.ifInstr.instr
  iCache : exists as, s.iCache.Models ic as ∧ t.iCache.Models ic' as

section SameFetch

variable {ic ic' : ValidConfig} {s t : Sim}

theorem SameFetch.nextInfo (h : SameFetch ic.toCacheConfig ic'.toCacheConfig s t) :
    nextInfo t = nextInfo s := by
  unfold Cycle.nextInfo
  rw [h.emulator]

theorem SameFetch.iMiss (h : SameFetch ic.toCacheConfig ic'.toCacheConfig s t)
    (hshape : ic.SameShape ic'.toCacheConfig) :
    ((fetchStep s).iMiss.toNat = 0 ∧ (fetchStep t).iMiss.toNat = 0) ∨
      ((fetchStep s).iMiss.toNat = ic.missLatency.toNat ∧
        (fetchStep t).iMiss.toNat = ic'.missLatency.toNat) := by
  rcases h.iCache with ⟨as, hs, ht⟩
  rw [(fetchStep_fields s).2.1, (fetchStep_fields t).2.1, h.emulator,
    toNat_missDelay hs ic.ways_pos, toNat_missDelay ht ic'.ways_pos]
  exact Cache.delayAfter_sameShape hshape as _

theorem SameFetch.iMiss_le (h : SameFetch ic.toCacheConfig ic'.toCacheConfig s t)
    (hfaster : Cache.NoSlower ic.toCacheConfig ic'.toCacheConfig) :
    (fetchStep s).iMiss.toNat ≤ (fetchStep t).iMiss.toNat := by
  rcases h.iCache with ⟨as, hs, ht⟩
  rw [(fetchStep_fields s).2.1, (fetchStep_fields t).2.1, h.emulator,
    toNat_missDelay hs ic.ways_pos, toNat_missDelay ht ic'.ways_pos]
  exact hfaster as _

theorem SameFetch.next (h : SameFetch ic.toCacheConfig ic'.toCacheConfig s t) {s' t' : Sim}
    (hs : StallFrame (fetchStep s) s') (ht : StallFrame (fetchStep t) t') (hs' : Fetches s')
    (ht' : Fetches t') :
    SameFetch ic.toCacheConfig ic'.toCacheConfig s' t' := by
  rcases h.iCache with ⟨as, hsModels, htModels⟩
  refine ⟨hs', ht', ?_, ?_, as ++ [s.emulator.PC], ?_, ?_⟩
  · rw [hs.emulator, ht.emulator, fetchStep_emulator, fetchStep_emulator, h.emulator]
  · rw [hs.ifInstr, ht.ifInstr, (fetchStep_fields s).2.2.2.1, (fetchStep_fields t).2.2.2.1,
      h.nextInfo]
  · rw [hs.iCache, (fetchStep_fields s).1]
    exact (hsModels.access ic.ways_pos _ _).2
  · rw [ht.iCache, (fetchStep_fields t).1, h.emulator]
    exact (htModels.access ic'.ways_pos _ _).2

theorem SameFetch.trap (h : SameFetch ic.toCacheConfig ic'.toCacheConfig s t) :
    SameFetch ic.toCacheConfig ic'.toCacheConfig (trapEnd s) (trapEnd t) := by
  have hs := trapEnd_spec h.first
  have ht := trapEnd_spec h.second
  refine ⟨hs.fetches, ht.fetches, ?_, ?_, ?_⟩
  · rw [hs.emulator, ht.emulator, h.emulator]
  · rw [hs.ifInstr, ht.ifInstr]
  · rw [hs.iCache, ht.iCache]
    exact h.iCache

theorem SameFetch.trapLength (h : SameFetch ic.toCacheConfig ic'.toCacheConfig s t) :
    trapLength t = trapLength s := by
  unfold Cycle.trapLength
  rw [h.nextInfo]

theorem fetches_initSimulator (ic dc : CacheConfig) (mem : MemoryStore) :
    Fetches (initSimulator ic dc mem) :=
  ⟨rfl, not_stalled_iff.mpr ⟨rfl, rfl, rfl, rfl⟩⟩

theorem sameFetch_initSimulator (ic ic' dc dc' : CacheConfig) (mem : MemoryStore) :
    SameFetch ic ic' (initSimulator ic dc mem) (initSimulator ic' dc' mem) where
  first := fetches_initSimulator ic dc mem
  second := fetches_initSimulator ic' dc' mem
  emulator := rfl
  ifInstr := rfl
  iCache := ⟨[], Cache.models_new ic, Cache.models_new ic'⟩

end SameFetch

/-!
## A first run without data cache delays
-/

/-- The second run is `lag` cycles behind, and at least one if it has a bubble in ID where
the first run has an instruction. -/
structure Pace (ic ic' : CacheConfig) (lag : Nat) (s t : Sim) : Prop where
  same : SameFetch ic ic' s t
  undelayed : Undelayed s
  idInstr : s.pipeState.idInstr.instr = 0#32 ∨
    t.pipeState.idInstr.instr = s.pipeState.idInstr.instr ∨
    (t.pipeState.idInstr.instr = 0#32 ∧ 1 ≤ lag)

section Pace

variable {ic ic' : ValidConfig} {lag : Nat} {s t : Sim}

theorem Pace.counters (h : Pace ic.toCacheConfig ic'.toCacheConfig lag s t)
    (hfaster : Cache.NoSlower ic.toCacheConfig ic'.toCacheConfig) :
    (fetchStep s).iMiss.toNat ≤ (fetchStep t).iMiss.toNat ∧
      (fetchStep s).dStall.toNat ≤ max (fetchStep t).dStall.toNat lag ∧
      (fetchStep s).xStall.toNat ≤ max (fetchStep t).xStall.toNat lag ∧
      (fetchStep s).dStall.toNat ≤ max (fetchStep t).dStall.toNat 1 ∧
      (fetchStep s).xStall.toNat ≤ 1 := by
  rcases fetchStep_hazards h.same.first with ⟨hsStall, hsDelay⟩
  rcases fetchStep_hazards h.same.second with ⟨htStall, htDelay⟩
  rw [hsStall, hsDelay, htStall, htDelay, h.same.nextInfo, h.same.ifInstr]
  have hbounds := branchStall_bounds (nextInfo s).instruction s.pipeState.ifInstr.instr
    s.pipeState.idInstr.instr
  have hbounds' := branchStall_bounds (nextInfo s).instruction s.pipeState.ifInstr.instr
    t.pipeState.idInstr.instr
  have hone := exDelay_le_one s.pipeState.ifInstr.instr s.pipeState.idInstr.instr
  refine ⟨h.same.iMiss_le hfaster, ?_, ?_, by lia, hone⟩
  · rcases h.idInstr with hzero | heq | ⟨_, hlag⟩
    · rw [hzero]
      lia
    · rw [heq]
      lia
    · lia
  · rcases h.idInstr with hzero | heq | ⟨_, hlag⟩
    · rw [hzero, exDelay_zero_right]
      exact Nat.zero_le _
    · rw [heq]
      lia
    · lia

theorem Pace.fetch (h : Pace ic.toCacheConfig ic'.toCacheConfig lag s t)
    (hfaster : Cache.NoSlower ic.toCacheConfig ic'.toCacheConfig)
    (hcompletes : (nextInfo s).completes = true) (hhalt : (nextInfo s).isHalt = false) :
    Machine.Lap machine machine (Pace ic.toCacheConfig ic'.toCacheConfig) lag s t := by
  have hnext := h.same.nextInfo
  have hsStep := (Step.fetch h.same.first hcompletes hhalt).machine_eq
  have htStep := (Step.fetch h.same.second (hnext.symm ▸ hcompletes)
    (hnext.symm ▸ hhalt)).machine_eq
  rcases exists_stallEnd (fetchStep s)
    ((fetchStep_fields s).2.2.1.trans h.same.first.except) with ⟨m, s', hs, hsFetch, hsEnd, hprompt⟩
  rcases exists_stallEnd (fetchStep t)
    ((fetchStep_fields t).2.2.1.trans h.same.second.except) with ⟨n, t', ht, htFetch, htEnd, _⟩
  have hsPrompt := hprompt h.undelayed.fetchStep
  rcases h.counters hfaster with ⟨hiMiss, hdStall, hxStall, hdStall', hxStall'⟩
  have hlength := hsPrompt.length
  have hiMiss' := htEnd.iMiss
  have hdStallLe := htEnd.dStall
  have hxStallLe := htEnd.xStall
  have hmn : m ≤ n + lag := by
    lia
  refine ⟨m + 1, n + 1, n + lag - m, s', t', Nat.succ_pos m, hs.head hsStep, ht.head htStep,
    ⟨h.same.next hsEnd.toStallFrame htEnd.toStallFrame hsFetch htFetch, hsPrompt.undelayed,
      ?_⟩, by lia⟩
  rcases hsPrompt.idInstr with hserved | hbubble
  · rcases hsEnd.idInstr with hkept | ⟨hbubble, _⟩
    · rw [hkept, (fetchStep_fields s).2.2.2.2.1]
      rcases htEnd.idInstr with hkept' | ⟨hbubble', hlong⟩
      · rw [hkept', (fetchStep_fields t).2.2.2.2.1]
        exact Or.inr (Or.inl h.same.ifInstr)
      · rw [hbubble']
        refine Or.inr (Or.inr ⟨rfl, ?_⟩)
        lia
    · rw [hbubble]
      exact Or.inl rfl
  · rw [hbubble]
    exact Or.inl rfl

theorem Pace.trap (h : Pace ic.toCacheConfig ic'.toCacheConfig lag s t)
    (htrap : (nextInfo s).completes = false) :
    Machine.Lap machine machine (Pace ic.toCacheConfig ic'.toCacheConfig) lag s t := by
  have hs := trapEnd_spec h.same.first
  refine ⟨trapLength s, trapLength t, lag, trapEnd s, trapEnd t, trapLength_pos s,
    trap_reaches h.same.first htrap,
    trap_reaches h.same.second (h.same.nextInfo.symm ▸ htrap), ⟨h.same.trap, ?_, ?_⟩, ?_⟩
  · exact ⟨hs.dMiss.trans h.undelayed.dMiss, by rw [hs.dCache]; exact h.undelayed.latency⟩
  · rw [hs.idInstr]
    exact Or.inl rfl
  · rw [h.same.trapLength]

theorem Pace.le_of_noSlower {m n : Nat} {s' t' : Sim}
    (h : Pace ic.toCacheConfig ic'.toCacheConfig lag s t)
    (hfaster : Cache.NoSlower ic.toCacheConfig ic'.toCacheConfig)
    (hs : HaltsAfter m s s') (ht : HaltsAfter n t t') : m ≤ n + lag := by
  refine Machine.FinishesIn.le_of_laps ?_ h hs ht
  intro lag s t h
  cases hcompletes : (nextInfo s).completes with
  | false =>
      exact Or.inr (h.trap hcompletes)
  | true =>
      cases hhalt : (nextInfo s).isHalt with
      | false =>
          exact Or.inr (h.fetch hfaster hcompletes hhalt)
      | true =>
          rw [(Step.halt h.same.first hhalt).machine_eq]
          exact Or.inl rfl

/-- A run without data cache delays is never behind one with larger miss latencies. -/
theorem Pace.le {m n : Nat} {s' t' : Sim}
    (h : Pace ic.toCacheConfig ic'.toCacheConfig lag s t)
    (hshape : ic.SameShape ic'.toCacheConfig)
    (hle : ic.missLatency.toNat ≤ ic'.missLatency.toNat)
    (hs : HaltsAfter m s s') (ht : HaltsAfter n t t') : m ≤ n + lag :=
  h.le_of_noSlower (Cache.noSlower_of_sameShape hshape hle) hs ht

end Pace

end Cycle
end PipeSim
