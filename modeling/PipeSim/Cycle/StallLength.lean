import PipeSim.Cycle.Accounting
import PipeSim.Cycle.Timing

/-!
# The length of a stall

A stall cycle counts every counter down, but a probe in it may raise `dMiss` again.  It
can do so only while another counter is positive, and an instruction that is frozen in
MEM hits when it is probed again, so `dMiss` never exceeds one miss latency.  The
stall therefore lasts for the longest of the other counters and at most one miss latency
behind it.
-/

namespace PipeSim

open Library

namespace Cycle

/-!
## Probes
-/

/-- The probe of the coming stall cycle, if it takes place, hits. -/
def StallProbeHits (s : Sim) : Prop :=
  StallsOn (shuffled s) -> forall r, r ∈ memReference (shuffled s) ->
    ((shuffled s).dCache.access r.1 r.2).1 = true

instance (s : Sim) : Decidable (StallProbeHits s) := by
  unfold StallProbeHits
  infer_instance

/-- The delay that a probe in this state adds to `dMiss` does not lead beyond `latency`. -/
def ProbeFits (latency : Word) (s : Sim) : Prop :=
  s.dMiss.toNat + (referenceDelay s.dCache (memReference s)).toNat ≤ latency.toNat

theorem delayOf_le (config : CacheConfig) (seen : List Word)
    (reference : Option (Word × CacheOperation)) :
    delayOf config seen reference ≤ config.missLatency.toNat := by
  cases reference with
  | none =>
      exact Nat.zero_le _
  | some r =>
      change Cache.delayAfter config seen r.1 ≤ _
      rcases Cache.delayAfter_cases config seen r.1 with hzero | hmiss
      · rw [hzero]
        exact Nat.zero_le _
      · exact Nat.le_of_eq hmiss

theorem StallProbeHits.stallStep_dMiss {s : Sim} (h : StallProbeHits s) :
    (stallStep s).dMiss = countDown s.dMiss := by
  rw [Cycle.stallStep_dMiss, ← memReference_shuffled]
  unfold StallProbeHits at h
  rw [shuffled_dCache] at h
  by_cases hon : StallsOn (shuffled s)
  · rw [if_pos hon]
    cases href : memReference (shuffled s) with
    | none =>
        exact BitVec.add_zero _
    | some r =>
        have hhit := h hon r href
        change _ + missDelay (s.dCache.access r.1 r.2) = _
        unfold missDelay
        rw [hhit]
        exact BitVec.add_zero _
  · rw [if_neg hon, BitVec.add_zero]

/-!
## The invariant
-/

/-- What holds in front of every cycle.  A delay in MEM is that of the last access to the
data cache. -/
structure StallBounds (ic dc : CacheConfig) (s : Sim) : Prop where
  iCache : s.iCache.config = ic
  dMiss : s.dMiss.toNat ≤ dc.missLatency.toNat
  idle : 0#32 < s.except -> ¬ Stalled s
  dCache : exists seen, s.dCache.Models dc seen ∧
    (s.dMiss ≠ 0#32 -> exists before, seen = before ++ addressOf (memReference s))

section Invariant

variable {ic dc : CacheConfig} {s : Sim}

theorem stallBounds_initSimulator (ic dc : CacheConfig) (mem : MemoryStore) :
    StallBounds ic dc (initSimulator ic dc mem) := by
  refine ⟨rfl, Nat.zero_le _, ?_, [], Cache.models_new dc, ?_⟩
  · intro h
    cases h
  · intro h
    exact absurd rfl h

theorem StallBounds.of_not_stalled {t : Sim} (h : StallBounds ic dc s) (hidle : ¬ Stalled s)
    (hiCache : t.iCache = s.iCache) (hdCache : t.dCache = s.dCache)
    (hiMiss : t.iMiss = s.iMiss) (hdMiss : t.dMiss = s.dMiss) (hdStall : t.dStall = s.dStall)
    (hxStall : t.xStall = s.xStall) : StallBounds ic dc t := by
  have hzero := (counters_of_not_stalled hidle).2.1
  rcases h.dCache with ⟨seen, hmodels, _⟩
  refine ⟨?_, ?_, ?_, seen, ?_, ?_⟩
  · rw [hiCache]
    exact h.iCache
  · rw [hdMiss]
    exact h.dMiss
  · intro _
    rw [not_stalled_iff, hiMiss, hdMiss, hdStall, hxStall]
    exact counters_of_not_stalled hidle
  · rw [hdCache]
    exact hmodels
  · intro hne
    exact absurd (hdMiss.trans hzero) hne

theorem except_pos_absurd {t : Sim} (h : t.except = 0#32) : ¬ 0#32 < t.except := by
  rw [h]
  decide

theorem StallBounds.fetchStep (h : StallBounds ic dc s) (hways : 1 ≤ dc.ways.toNat)
    (hfetch : Fetches s) : StallBounds ic dc (fetchStep s) := by
  rcases fetchStep_fields s with ⟨hiCache, _, hexcept, _⟩
  have hmem : memReference (Cycle.fetchStep s) =
      referenceOf s.pipeState.exInstr.instr s.memAddresses.a2 :=
    (fetchStep_moved s).reference (i := 3) (Nat.le_refl 3)
  have hzero : s.dMiss = 0#32 := (counters_of_not_stalled hfetch.notStalled).2.1
  rcases h.dCache with ⟨seen, hmodels, _⟩
  rcases referenceDelay_of_models hmodels hways
    (referenceOf s.pipeState.exInstr.instr s.memAddresses.a2) with ⟨hdelay, hserved⟩
  refine ⟨?_, ?_, ?_,
    seen ++ addressOf (referenceOf s.pipeState.exInstr.instr s.memAddresses.a2), ?_, ?_⟩
  · rw [hiCache]
    exact h.iCache
  · unfold Cycle.fetchStep
    rw [finishCycle_dMiss, fetchPath_dMiss, hzero, BitVec.zero_add, hdelay]
    exact delayOf_le dc seen _
  · intro hpos
    exact absurd hpos (except_pos_absurd (hexcept.trans hfetch.except))
  · unfold Cycle.fetchStep
    rw [finishCycle_dCache, fetchPath_dCache]
    exact hserved
  · intro _
    exact ⟨seen, by rw [hmem]⟩

theorem StallBounds.probe_again (h : StallBounds ic dc s) (hways : 1 ≤ dc.ways.toNat)
    (hdMiss : s.dMiss ≠ 0#32) :
    exists before,
      s.dCache.Models dc (before ++ addressOf (memReference (stallStep s))) ∧
      referenceDelay s.dCache (memReference (stallStep s)) = 0#32 ∧
      (referenceServed s.dCache (memReference (stallStep s))).Models dc
        (before ++ addressOf (memReference (stallStep s))) := by
  rcases h.dCache with ⟨_, hmodels, hlast⟩
  rcases hlast hdMiss with ⟨before, rfl⟩
  rw [memReference_stallStep_of_freeze hdMiss]
  exact ⟨before, hmodels, referenceDelay_again hmodels hways⟩

theorem StallBounds.stallStep (h : StallBounds ic dc s) (hways : 1 ≤ dc.ways.toNat)
    (hexcept : s.except = 0#32) : StallBounds ic dc (stallStep s) := by
  have hafter : ¬ 0#32 < (Cycle.stallStep s).except :=
    except_pos_absurd ((stallStep_except s).trans hexcept)
  have hiCache : (Cycle.stallStep s).iCache.config = ic := by
    rw [stallStep_iCache]
    exact h.iCache
  by_cases hdMiss : s.dMiss = 0#32
  · rcases h.dCache with ⟨seen, hmodels, _⟩
    rcases referenceDelay_of_models hmodels hways (memReference (Cycle.stallStep s)) with
      ⟨hdelay, hserved⟩
    by_cases hon : StallsOn (shuffled s)
    · refine ⟨hiCache, ?_, fun hpos => absurd hpos hafter, _, ?_, fun _ => ⟨seen, rfl⟩⟩
      · rw [stallStep_dMiss, if_pos hon, hdMiss, countDown_zero, BitVec.zero_add, hdelay]
        exact delayOf_le dc seen _
      · rw [stallStep_dCache, if_pos hon]
        exact hserved
    · have hzero : (Cycle.stallStep s).dMiss = 0#32 := by
        rw [stallStep_dMiss, if_neg hon, hdMiss]
        rfl
      refine ⟨hiCache, ?_, fun hpos => absurd hpos hafter, seen, ?_,
        fun hne => absurd hzero hne⟩
      · rw [hzero]
        exact Nat.zero_le _
      · rw [stallStep_dCache, if_neg hon]
        exact hmodels
  · rcases h.probe_again hways hdMiss with ⟨before, hmodels, hdelay, hserved⟩
    refine ⟨hiCache, ?_, fun hpos => absurd hpos hafter, _, ?_, fun _ => ⟨before, rfl⟩⟩
    · have hle := h.dMiss
      rw [stallStep_dMiss, hdelay, ite_self, BitVec.add_zero, toNat_countDown]
      lia
    · rw [stallStep_dCache]
      split
      · exact hserved
      · exact hmodels

theorem StallBounds.step {s' : Sim} (h : StallBounds ic dc s) (hways : 1 ≤ dc.ways.toNat)
    (hstep : Step s false s') : StallBounds ic dc s' := by
  cases hstep with
  | except hexcept =>
      exact h.of_not_stalled (h.idle hexcept) (exceptStep_iCache s) (exceptStep_dCache s)
        (exceptStep_iMiss s) (exceptStep_dMiss s) (exceptStep_dStall s) (exceptStep_xStall s)
  | stall hexcept _ =>
      exact h.stallStep hways hexcept
  | trap hfetch _ =>
      exact h.of_not_stalled hfetch.notStalled (trapStep_iCache s) (trapStep_dCache s)
        (trapStep_iMiss s) (trapStep_dMiss s) (trapStep_dStall s) (trapStep_xStall s)
  | fetch hfetch _ _ =>
      exact h.fetchStep hways hfetch

theorem stallBounds_of_reaches {mem : MemoryStore} {k : Nat} (hways : 1 ≤ dc.ways.toNat)
    (h : machine.Reaches k (initSimulator ic dc mem) s) : StallBounds ic dc s :=
  h.invariant (fun _ _ hs hstep => StallBounds.step hs hways (step_of_machine hstep))
    (stallBounds_initSimulator ic dc mem)

theorem StallBounds.stallProbeHits (h : StallBounds ic dc s) (hways : 1 ≤ dc.ways.toNat)
    (hdMiss : s.dMiss ≠ 0#32) : StallProbeHits s := by
  intro _ r href
  rcases h.probe_again hways hdMiss with ⟨before, hmodels, _, _⟩
  rw [← memReference_shuffled, href] at hmodels
  rw [shuffled_dCache]
  exact (Cache.Models.repeat_access hmodels hways r.2).1

theorem StallBounds.probeFits_shuffled (h : StallBounds ic dc s) (hways : 1 ≤ dc.ways.toNat) :
    ProbeFits dc.missLatency (shuffled s) := by
  unfold ProbeFits
  rw [shuffled_dMiss, shuffled_dCache, toNat_countDown, memReference_shuffled]
  by_cases hdMiss : s.dMiss = 0#32
  · rcases h.dCache with ⟨seen, hmodels, _⟩
    have hdelay := (referenceDelay_of_models hmodels hways (memReference (Cycle.stallStep s))).1
    have hle := delayOf_le dc seen (memReference (Cycle.stallStep s))
    have hzero := toNat_eq_zero_iff.mpr hdMiss
    lia
  · rcases h.probe_again hways hdMiss with ⟨_, _, hdelay, _⟩
    have hle := h.dMiss
    have hzero := toNat_eq_zero_iff.mpr hdelay
    lia

theorem StallBounds.probeFits_fetched (h : StallBounds ic dc s) (hways : 1 ≤ dc.ways.toNat)
    (hfetch : Fetches s) : ProbeFits dc.missLatency (fetched s) := by
  rcases h.dCache with ⟨seen, hmodels, _⟩
  have hzero : s.dMiss.toNat = 0 :=
    toNat_eq_zero_iff.mpr (counters_of_not_stalled hfetch.notStalled).2.1
  have hdelay := (referenceDelay_of_models hmodels hways (memReference (fetched s))).1
  have hle := delayOf_le dc seen (memReference (fetched s))
  change s.dMiss.toNat + (referenceDelay s.dCache (memReference (fetched s))).toNat ≤ _
  lia

end Invariant

/-!
## The stall behind a fetch
-/

def othersDue (s : Sim) : Nat := max s.iMiss.toNat (max s.dStall.toNat s.xStall.toNat)

def longestCounter (s : Sim) : Nat :=
  max (max s.iMiss.toNat s.dMiss.toNat) (max s.dStall.toNat s.xStall.toNat)

def stallBound (latency : Nat) (s : Sim) : Nat :=
  othersDue s + if othersDue s = 0 then s.dMiss.toNat else latency

theorem othersDue_stallStep (s : Sim) : othersDue (stallStep s) = othersDue s - 1 := by
  unfold othersDue
  rw [stallStep_iMiss, stallStep_dStall, stallStep_xStall, toNat_countDown, toNat_countDown,
    toNat_countDown]
  lia

theorem longestCounter_pos {s : Sim} (h : Stalled s) : 0 < longestCounter s := by
  rw [stalled_iff] at h
  have hdMiss : s.dMiss ≠ 0#32 -> 0 < s.dMiss.toNat := toNat_pos_iff.mpr
  unfold longestCounter
  lia

theorem longestCounter_stallStep {s : Sim} (hstalled : Stalled s) (hhits : StallProbeHits s) :
    longestCounter s = longestCounter (stallStep s) + 1 := by
  have hpos := longestCounter_pos hstalled
  unfold longestCounter at hpos ⊢
  rw [stallStep_iMiss, hhits.stallStep_dMiss, stallStep_dStall, stallStep_xStall,
    toNat_countDown, toNat_countDown, toNat_countDown, toNat_countDown]
  lia

theorem longestCounter_of_fetches {s : Sim} (h : Fetches s) : longestCounter s = 0 := by
  rcases counters_of_not_stalled h.notStalled with ⟨hiMiss, hdMiss, hdStall, hxStall⟩
  unfold longestCounter
  rw [hiMiss, hdMiss, hdStall, hxStall]
  rfl

theorem stallBound_stallStep {latency : Nat} {s : Sim} (hstalled : Stalled s)
    (hle : (stallStep s).dMiss.toNat ≤ latency) :
    stallBound latency (stallStep s) < stallBound latency s := by
  unfold stallBound
  rw [othersDue_stallStep]
  by_cases hothers : othersDue s = 0
  · have hnot : ¬ StallsOn s := by
      rw [stallsOn_iff]
      unfold othersDue at hothers
      lia
    have hpos : 0 < s.dMiss.toNat := word_pos_iff.mp (dMiss_pos_of_stalled hstalled hnot)
    rw [stallStep_dMiss_of_not_stallsOn hnot, toNat_countDown, hothers]
    simp only [Nat.zero_sub, if_true]
    lia
  · rw [if_neg hothers]
    split
    · lia
    · lia

section Stall

variable {ic dc : CacheConfig} {s : Sim}

/-- A stall ends with a fetch. -/
theorem StallBounds.exists_leaves (h : StallBounds ic dc s) (hways : 1 ≤ dc.ways.toNat)
    (hexcept : s.except = 0#32) :
    exists n t, machine.Leaves TakesStallPath n s t ∧ Fetches t ∧
      n ≤ stallBound dc.missLatency.toNat s := by
  have hstep : forall u, (StallBounds ic dc u ∧ u.except = 0#32) -> TakesStallPath u ->
      exists v, machine u = (false, v) ∧ (StallBounds ic dc v ∧ v.except = 0#32) ∧
        stallBound dc.missLatency.toNat v < stallBound dc.missLatency.toNat u := by
    intro u hu hstall
    rcases hu with ⟨hu, hzero⟩
    rcases hstall with ⟨_, hstalled⟩
    have hnext := hu.stallStep hways hzero
    exact ⟨Cycle.stallStep u, (Step.stall hzero hstalled).machine_eq,
      ⟨hnext, (stallStep_except u).trans hzero⟩, stallBound_stallStep hstalled hnext.dMiss⟩
  rcases Machine.exists_leaves _ hstep ⟨h, hexcept⟩ with ⟨n, t, hleaves, ⟨_, hzero⟩, hle⟩
  refine ⟨n, t, hleaves, ⟨hzero, ?_⟩, hle⟩
  intro hstalled
  exact hleaves.not_mem ⟨hzero, hstalled⟩

theorem length_of_stallProbeHits {n : Nat} {t : Sim}
    (h : machine.Leaves TakesStallPath n s t) (ht : Fetches t)
    (hhits : forall j u, j < n -> machine.Reaches j s u -> StallProbeHits u) :
    longestCounter s = n := by
  apply h.length_eq longestCounter (C := StallProbeHits) ?_ (longestCounter_of_fetches ht) hhits
  intro u v hpath hu hstep
  have hstall := (Step.stall hpath.1 hpath.2).machine_eq.symm.trans hstep
  cases hstall
  exact longestCounter_stallStep hpath.2 hu

theorem missDelay_le {c : Cache} (hconfig : c.config = ic) (address : Word)
    (operation : CacheOperation) :
    (missDelay (c.access address operation)).toNat ≤ ic.missLatency.toNat := by
  have hlatency : (c.access address operation).2.config.missLatency = ic.missLatency :=
    congrArg CacheConfig.missLatency hconfig
  unfold missDelay
  split
  · exact Nat.zero_le _
  · rw [hlatency]

theorem StallBounds.othersDue_fetchStep (h : StallBounds ic dc s) (hfetch : Fetches s) :
    othersDue (Cycle.fetchStep s) ≤ max ic.missLatency.toNat 2 := by
  rcases fetchStep_fields s with ⟨_, hiMiss, _⟩
  rcases fetchStep_hazards hfetch with ⟨hdStall, hxStall⟩
  have hile := missDelay_le h.iCache s.emulator.PC .read
  have hdle := branchStall_le_two (nextInfo s).instruction s.pipeState.ifInstr.instr
    s.pipeState.idInstr.instr
  have hxle := exDelay_le_one s.pipeState.ifInstr.instr s.pipeState.idInstr.instr
  unfold othersDue
  rw [hiMiss, hdStall, hxStall]
  lia

theorem StallBounds.stallBound_fetchStep (h : StallBounds ic dc s) (hways : 1 ≤ dc.ways.toNat)
    (hfetch : Fetches s) :
    stallBound dc.missLatency.toNat (Cycle.fetchStep s) ≤
      max ic.missLatency.toNat 2 + dc.missLatency.toNat := by
  have hothers := h.othersDue_fetchStep hfetch
  have hdMiss := (h.fetchStep hways hfetch).dMiss
  unfold stallBound
  split
  · lia
  · lia

end Stall

end Cycle

/-- In front of every cycle of a run, `dMiss` is at most one miss latency, no probe adds to
it beyond that, and a probe of an instruction that is frozen in MEM hits.  A fetch is
followed by the next one after as many stall cycles as the longest of its four counters
says, unless a probe among them misses, and at any rate after at most
`max(iMissLatency, 2) + 3 * dMissLatency`.  An exception meets no stall. -/
theorem stall_episodes (image : MemImage) (ic dc : ValidConfig) {k : Nat} {s : Cycle.Sim}
    (h : Cycle.machine.Reaches k (Cycle.initSimulator ic.toCacheConfig dc.toCacheConfig
      (MemoryStore.ofImage image)) s) :
    (s.dMiss.toNat ≤ dc.missLatency.toNat ∧
      (Cycle.TakesStallPath s -> Cycle.ProbeFits dc.missLatency (Cycle.shuffled s)) ∧
      (Cycle.Fetches s -> Cycle.ProbeFits dc.missLatency (Cycle.fetched s)) ∧
      (Cycle.TakesStallPath s -> s.dMiss ≠ 0#32 ->
        Cycle.StallProbeHits s ∧ (Cycle.stallStep s).dMiss = Cycle.countDown s.dMiss)) ∧
    (Cycle.Fetches s -> (Cycle.nextInfo s).completes = true ->
      (Cycle.nextInfo s).isHalt = false ->
      Cycle.machine s = (false, Cycle.fetchStep s) ∧
      exists n t,
        Cycle.machine.Leaves Cycle.TakesStallPath n (Cycle.fetchStep s) t ∧
        Cycle.Fetches t ∧
        ((forall j u, j < n -> Cycle.machine.Reaches j (Cycle.fetchStep s) u ->
            Cycle.StallProbeHits u) ->
          n = max (max (Cycle.fetchStep s).iMiss.toNat (Cycle.fetchStep s).dMiss.toNat)
            (max (Cycle.fetchStep s).dStall.toNat (Cycle.fetchStep s).xStall.toNat)) ∧
        n ≤ max ic.missLatency.toNat 2 + 3 * dc.missLatency.toNat) ∧
    (0#32 < s.except ->
      s.iMiss = 0#32 ∧ s.dMiss = 0#32 ∧ s.dStall = 0#32 ∧ s.xStall = 0#32) := by
  have hbounds := Cycle.stallBounds_of_reaches dc.ways_pos h
  refine ⟨⟨hbounds.dMiss, ?_, ?_, ?_⟩, ?_, ?_⟩
  · intro _
    exact hbounds.probeFits_shuffled dc.ways_pos
  · intro hfetch
    exact hbounds.probeFits_fetched dc.ways_pos hfetch
  · intro _ hdMiss
    have hhits := hbounds.stallProbeHits dc.ways_pos hdMiss
    exact ⟨hhits, hhits.stallStep_dMiss⟩
  · intro hfetch hcompletes hhalt
    have hnext := hbounds.fetchStep dc.ways_pos hfetch
    have hexcept := (Cycle.fetchStep_fields s).2.2.1.trans hfetch.except
    rcases hnext.exists_leaves dc.ways_pos hexcept with ⟨n, t, hleaves, ht, hle⟩
    have hbound := hbounds.stallBound_fetchStep dc.ways_pos hfetch
    refine ⟨(Cycle.Step.fetch hfetch hcompletes hhalt).machine_eq, n, t, hleaves, ht, ?_, ?_⟩
    · intro hhits
      exact (Cycle.length_of_stallProbeHits hleaves ht hhits).symm
    · lia
  · intro hexcept
    exact Cycle.counters_of_not_stalled (hbounds.idle hexcept)

/-- `lw $1, 0($0)`, three words that do nothing, `lw $2, 4($0)` and three more of them in front of
the halt word. -/
def twoLoadsProgram : List Word :=
  [0x8c010000#32, 0x0#32, 0x0#32, 0x0#32, 0x8c020004#32, 0x0#32, 0x0#32, 0x0#32, haltWord]

/-- While the word at address 24 is fetched for three cycles, the second load is probed and
hits. -/
theorem stall_episodes_two_loads :
    exists s t, Cycle.machine.Reaches 15
        (Cycle.initSimulator (ValidConfig.oneBlock 3#32).toCacheConfig
          (ValidConfig.oneBlock 2#32).toCacheConfig
          (MemoryStore.ofImage (MemImage.ofWords twoLoadsProgram))) s ∧
      Cycle.machine.Leaves Cycle.TakesStallPath 3 (Cycle.fetchStep s) t ∧
      (Cycle.stallStep (Cycle.fetchStep s)).log.dAccesses.length =
        (Cycle.fetchStep s).log.dAccesses.length + 1 := by
  have hreach := Machine.reaches_after (M := Cycle.machine) (n := 15)
    (s := Cycle.initSimulator (ValidConfig.oneBlock 3#32).toCacheConfig
      (ValidConfig.oneBlock 2#32).toCacheConfig
      (MemoryStore.ofImage (MemImage.ofWords twoLoadsProgram))) (by decide +kernel)
  rcases (stall_episodes (MemImage.ofWords twoLoadsProgram) (ValidConfig.oneBlock 3#32)
    (ValidConfig.oneBlock 2#32) hreach).2.1 ⟨by decide +kernel, by decide +kernel⟩
    (by decide +kernel) (by decide +kernel) with ⟨_, n, t, hleaves, _, hexact, hle⟩
  have hhits : forall j, j < 9 -> Cycle.StallProbeHits (Cycle.machine.after j
      (Cycle.fetchStep (Cycle.machine.after 15
        (Cycle.initSimulator (ValidConfig.oneBlock 3#32).toCacheConfig
          (ValidConfig.oneBlock 2#32).toCacheConfig
          (MemoryStore.ofImage (MemImage.ofWords twoLoadsProgram)))))) := by
    decide +kernel
  have hlength : n = 3 := by
    refine (hexact ?_).trans (by decide +kernel)
    intro j u hj hu
    rw [hu.eq_after]
    exact hhits j (Nat.lt_of_lt_of_le hj hle)
  rw [hlength] at hleaves
  exact ⟨_, t, hreach, hleaves, by decide +kernel⟩

end PipeSim
