import PipeSim.Cycle.Accounting

/-!
# How a run is cut into calls

The dump of a line and the increment of the cycle counter stand behind the loop of
`runCycles`, not in it, so a call counts one cycle however many it simulates.  Everything
else does not depend on how a run is cut into calls.
-/

namespace PipeSim

open Library

namespace Cycle

/-!
## States up to cycle numbers
-/

def renumber (cycle stamp : Word) (lines : List PipeState) (s : Sim) : Sim :=
  { s with
    pipeState := { s.pipeState with cycle := stamp }
    cycleCount := cycle
    log := { s.log with lines := lines } }

/-- The two states agree in everything but cycle numbers and dumped lines. -/
def SameButCycles (s t : Sim) : Prop :=
  exists cycle stamp lines, t = renumber cycle stamp lines s

section SameButCycles

variable {s t u : Sim}

theorem SameButCycles.refl (s : Sim) : SameButCycles s s :=
  ⟨s.cycleCount, s.pipeState.cycle, s.log.lines, rfl⟩

theorem SameButCycles.symm (h : SameButCycles s t) : SameButCycles t s := by
  rcases h with ⟨_, _, _, rfl⟩
  exact ⟨s.cycleCount, s.pipeState.cycle, s.log.lines, rfl⟩

theorem SameButCycles.trans (h : SameButCycles s t) (h' : SameButCycles t u) :
    SameButCycles s u := by
  rcases h with ⟨_, _, _, rfl⟩
  rcases h' with ⟨cycle, stamp, lines, rfl⟩
  exact ⟨cycle, stamp, lines, rfl⟩

theorem sameButCycles_finishCycle (s : Sim) : SameButCycles s (finishCycle s) :=
  ⟨_, s.pipeState.cycle, _, rfl⟩

theorem SameButCycles.stampCycle (h : SameButCycles s t) :
    SameButCycles (stampCycle s) (stampCycle t) := by
  rcases h with ⟨cycle, stamp, lines, rfl⟩
  exact ⟨cycle, cycle, lines, rfl⟩

theorem SameButCycles.ingestPipeline (h : SameButCycles s t) (slot : Slot) :
    SameButCycles (ingestPipeline slot s) (ingestPipeline slot t) := by
  rcases h with ⟨cycle, stamp, lines, rfl⟩
  exact ⟨cycle, cycle, lines, rfl⟩

theorem SameButCycles.ingestBuffer (h : SameButCycles s t) (address : Word) :
    SameButCycles (ingestBuffer address s) (ingestBuffer address t) := by
  rcases h with ⟨cycle, stamp, lines, rfl⟩
  exact ⟨cycle, stamp, lines, rfl⟩

theorem SameButCycles.ingestBubble (h : SameButCycles s t) :
    SameButCycles (ingestBubble s) (ingestBubble t) :=
  (h.ingestPipeline Slot.bubble).ingestBuffer noAddress

theorem SameButCycles.exceptPath (h : SameButCycles s t) :
    SameButCycles (exceptPath s) (exceptPath t) := by
  apply SameButCycles.ingestBubble
  rcases h with ⟨cycle, stamp, lines, rfl⟩
  exact ⟨cycle, stamp, lines, rfl⟩

theorem SameButCycles.trapPath (h : SameButCycles s t) (bubbles : Word) :
    SameButCycles (trapPath bubbles s) (trapPath bubbles t) := by
  apply SameButCycles.ingestBubble
  rcases h with ⟨cycle, stamp, lines, rfl⟩
  exact ⟨cycle, stamp, lines, rfl⟩

theorem SameButCycles.shuffle (h : SameButCycles s t) :
    SameButCycles (shuffle s) (shuffle t) := by
  rcases h with ⟨cycle, stamp, lines, rfl⟩
  refine ⟨cycle, stamp, lines, ?_⟩
  unfold Cycle.shuffle
  change (if s.dMiss = 0#32 then
      if 0#32 < s.xStall then _ else if 0#32 < s.dStall ∨ 0#32 < s.iMiss then _ else _
    else _) = _
  split
  · split
    · rfl
    · split
      · rfl
      · rfl
  · rfl

theorem SameButCycles.countDownAll (h : SameButCycles s t) :
    SameButCycles (countDownAll s) (countDownAll t) := by
  rcases h with ⟨cycle, stamp, lines, rfl⟩
  exact ⟨cycle, stamp, lines, rfl⟩

theorem SameButCycles.accessData (h : SameButCycles s t) (address : Word)
    (operation : CacheOperation) :
    SameButCycles (accessData address operation s) (accessData address operation t) := by
  rcases h with ⟨cycle, stamp, lines, rfl⟩
  exact ⟨cycle, stamp, lines, rfl⟩

theorem SameButCycles.memReference (h : SameButCycles s t) :
    memReference t = memReference s := by
  rcases h with ⟨_, _, _, rfl⟩
  rfl

theorem SameButCycles.probeData (h : SameButCycles s t) :
    SameButCycles (probeData s) (probeData t) := by
  rw [probeData_eq_memReference, probeData_eq_memReference, h.memReference]
  cases Cycle.memReference s with
  | none =>
      exact h
  | some r =>
      exact h.accessData r.1 r.2

theorem SameButCycles.stallsOn (h : SameButCycles s t) : StallsOn t <-> StallsOn s := by
  rcases h with ⟨_, _, _, rfl⟩
  exact Iff.rfl

theorem SameButCycles.stallPath (h : SameButCycles s t) :
    SameButCycles (stallPath s) (stallPath t) := by
  have hcounted := h.shuffle.countDownAll
  unfold Cycle.stallPath
  dsimp only
  by_cases hon : StallsOn (Cycle.countDownAll (Cycle.shuffle s))
  · rw [if_pos hon, if_pos (hcounted.stallsOn.mpr hon)]
    exact hcounted.probeData
  · rw [if_neg hon, if_neg (fun hon' => hon (hcounted.stallsOn.mp hon'))]
    exact hcounted

theorem SameButCycles.fetchInstruction (h : SameButCycles s t) :
    SameButCycles (fetchInstruction s) (fetchInstruction t) := by
  rcases h with ⟨cycle, stamp, lines, rfl⟩
  exact ⟨cycle, stamp, lines, rfl⟩

theorem SameButCycles.accessInstruction (h : SameButCycles s t) (address : Word) :
    SameButCycles (accessInstruction address s) (accessInstruction address t) := by
  rcases h with ⟨cycle, stamp, lines, rfl⟩
  exact ⟨cycle, stamp, lines, rfl⟩

theorem SameButCycles.detectHazards (h : SameButCycles s t) :
    SameButCycles (detectHazards s) (detectHazards t) := by
  rcases h with ⟨cycle, stamp, lines, rfl⟩
  exact ⟨cycle, stamp, lines, rfl⟩

theorem SameButCycles.normalPath (h : SameButCycles s t) (info : InstructionInfo)
    (execution : Nat) :
    SameButCycles (normalPath info execution s) (normalPath info execution t) :=
  (((h.ingestPipeline _).ingestBuffer _).accessInstruction _).probeData.detectHazards

theorem SameButCycles.drainStep (h : SameButCycles s t) :
    SameButCycles (drainStep s) (drainStep t) := by
  apply SameButCycles.ingestBubble
  rcases h with ⟨cycle, stamp, lines, rfl⟩
  exact ⟨cycle + 1#32, stamp, _, rfl⟩

theorem SameButCycles.haltDrain (h : SameButCycles s t) :
    SameButCycles (haltDrain s) (haltDrain t) :=
  h.drainStep.drainStep.drainStep.drainStep

theorem SameButCycles.except (h : SameButCycles s t) : t.except = s.except := by
  rcases h with ⟨_, _, _, rfl⟩
  rfl

theorem SameButCycles.stalled (h : SameButCycles s t) : Stalled t <-> Stalled s := by
  rcases h with ⟨_, _, _, rfl⟩
  exact Iff.rfl

theorem SameButCycles.nextInfo (h : SameButCycles s t) : nextInfo t = nextInfo s := by
  rcases h with ⟨_, _, _, rfl⟩
  rfl

theorem SameButCycles.infos (h : SameButCycles s t) : t.log.infos = s.log.infos := by
  rcases h with ⟨_, _, _, rfl⟩
  rfl

theorem SameButCycles.cycleBody (h : SameButCycles s t) :
    (cycleBody t).1 = (cycleBody s).1 ∧ SameButCycles (cycleBody s).2 (cycleBody t).2 := by
  have hstamped := h.stampCycle
  unfold Cycle.cycleBody
  dsimp only
  generalize Cycle.stampCycle s = u at hstamped
  generalize Cycle.stampCycle t = v at hstamped
  have hinfo : v.emulator.executeInstruction.1 = u.emulator.executeInstruction.1 :=
    hstamped.nextInfo
  rw [hstamped.except, hinfo, hstamped.infos]
  by_cases hexcept : 0#32 < u.except
  · rw [if_pos hexcept, if_pos hexcept]
    exact ⟨rfl, hstamped.exceptPath⟩
  · rw [if_neg hexcept, if_neg hexcept]
    by_cases hstalled : Stalled u
    · rw [if_pos hstalled, if_pos (hstamped.stalled.mpr hstalled)]
      exact ⟨rfl, hstamped.stallPath⟩
    · rw [if_neg hstalled, if_neg (fun hv => hstalled (hstamped.stalled.mp hv))]
      have hfetched := hstamped.fetchInstruction
      generalize Cycle.fetchInstruction u = x at hfetched
      generalize Cycle.fetchInstruction v = y at hfetched
      split
      · exact ⟨rfl, hfetched.trapPath _⟩
      · split
        · exact ⟨rfl, hfetched.trapPath _⟩
        · split
          · exact ⟨rfl, (hfetched.normalPath _ _).haltDrain⟩
          · exact ⟨rfl, hfetched.normalPath _ _⟩

end SameButCycles

/-!
## The loop of one call
-/

/-- One iteration of the loop of `runCycles`. -/
def loopMachine : Machine Sim := fun s =>
  (decide ((cycleBody s).1 = .halt), (cycleBody s).2)

theorem loopMachine_lockstep : Machine.Lockstep loopMachine loopMachine SameButCycles := by
  intro s t h
  rcases h.cycleBody with ⟨hstatus, hrelated⟩
  unfold loopMachine
  exact ⟨by rw [hstatus], hrelated⟩

theorem machine_lockstep : Machine.Lockstep machine loopMachine SameButCycles := by
  intro s t h
  rcases h.cycleBody with ⟨hstatus, hrelated⟩
  unfold machine loopMachine
  exact ⟨by rw [hstatus], (sameButCycles_finishCycle _).symm.trans hrelated⟩

theorem cycleBody_of_loopMachine {s t : Sim} {finished : Bool}
    (h : loopMachine s = (finished, t)) :
    cycleBody s = (if finished then .halt else .success, t) := by
  have hflag := congrArg Prod.fst h
  have hstate := congrArg Prod.snd h
  unfold loopMachine at hflag hstate
  dsimp only at hflag hstate
  apply Prod.ext
  · cases finished with
    | true =>
        exact of_decide_eq_true hflag
    | false =>
        exact (cycleBody_status s).resolve_right (of_decide_eq_false hflag)
  · exact hstate

section Calls

variable {cycles count : Word} {s t : Sim}

theorem runCyclesLoop_done (h : ¬ (cycles = 0#32 ∨ count < cycles)) (fuel : Nat) :
    runCyclesLoop cycles (fuel + 1) count s = some (.success, s) := by
  rw [runCyclesLoop, if_neg h]

theorem runCyclesLoop_next (h : cycles = 0#32 ∨ count < cycles)
    (hbody : loopMachine s = (false, t)) (fuel : Nat) :
    runCyclesLoop cycles (fuel + 1) count s = runCyclesLoop cycles fuel (count + 1#32) t := by
  rw [runCyclesLoop, if_pos h, cycleBody_of_loopMachine hbody]
  rfl

theorem runCyclesLoop_halt (h : cycles = 0#32 ∨ count < cycles)
    (hbody : loopMachine s = (true, t)) (fuel : Nat) :
    runCyclesLoop cycles (fuel + 1) count s = some (.halt, t) := by
  rw [runCyclesLoop, if_pos h, cycleBody_of_loopMachine hbody]
  rfl

theorem count_lt (k : Nat) (h : cycles = 0#32 ∨ count.toNat + (k + 1) ≤ cycles.toNat) :
    cycles = 0#32 ∨ count + BitVec.ofNat 32 k < cycles := by
  rcases h with hzero | hle
  · exact Or.inl hzero
  · have hcycles := cycles.isLt
    apply Or.inr
    rw [BitVec.lt_def, BitVec.toNat_add, BitVec.toNat_ofNat]
    lia

theorem runCyclesLoop_of_reaches {k : Nat} (h : loopMachine.Reaches k s t)
    (hcount : cycles = 0#32 ∨ count.toNat + k ≤ cycles.toNat) (fuel : Nat) :
    runCyclesLoop cycles (k + fuel) count s =
      runCyclesLoop cycles fuel (count + BitVec.ofNat 32 k) t := by
  induction h generalizing fuel with
  | refl _ =>
      rw [Nat.zero_add, BitVec.add_zero]
  | @tail k _ t u _ hlast ih =>
      have hprev := ih (hcount.imp_right fun hle => by lia) (1 + fuel)
      rw [Nat.add_assoc, hprev, Nat.add_comm 1 fuel,
        runCyclesLoop_next (count_lt k hcount) hlast, BitVec.ofNat_add, ← BitVec.add_assoc]

theorem runCycles_of_reaches (hcycles : 0#32 < cycles)
    (h : loopMachine.Reaches cycles.toNat s t) :
    runCycles (cycles.toNat + 1) cycles s = some (.success, finishCycle t) := by
  have hdone : ¬ (cycles = 0#32 ∨ cycles < cycles) := by
    intro hor
    rcases hor with hzero | hlt
    · rw [hzero] at hcycles
      exact absurd hcycles (by decide)
    · exact absurd hlt (BitVec.lt_irrefl cycles)
  have hcount : cycles = 0#32 ∨ (0#32).toNat + cycles.toNat ≤ cycles.toNat :=
    Or.inr (Nat.le_of_eq (Nat.zero_add _))
  have hloop := runCyclesLoop_of_reaches h hcount 1
  unfold runCycles
  rw [hloop, BitVec.ofNat_toNat, BitVec.setWidth_eq, BitVec.zero_add, runCyclesLoop_done hdone]
  rfl

theorem runCycles_of_finishesIn {n : Nat} (hcycles : cycles = 0#32 ∨ n ≤ cycles.toNat)
    (h : loopMachine.FinishesIn n s t) :
    runCycles n cycles s = some (.halt, finishCycle t) := by
  rcases h with ⟨k, u, rfl, hreach, hlast⟩
  have hcount : cycles = 0#32 ∨ (0#32).toNat + (k + 1) ≤ cycles.toNat :=
    hcycles.imp_right fun hle => by change 0 + (k + 1) ≤ _; lia
  have hfront : cycles = 0#32 ∨ (0#32).toNat + k ≤ cycles.toNat :=
    hcount.imp_right fun hle => by lia
  have hloop := runCyclesLoop_of_reaches hreach hfront 1
  unfold runCycles
  rw [hloop, runCyclesLoop_halt (count_lt k hcount) hlast]
  rfl

end Calls

/-!
## What a call counts
-/

theorem loopMachine_cycleCount {s t : Sim} {finished : Bool}
    (h : loopMachine s = (finished, t)) :
    t.cycleCount = if finished then s.cycleCount + 4#32 else s.cycleCount := by
  have hmachine : machine s = ((loopMachine s).1, finishCycle (loopMachine s).2) := rfl
  rw [h] at hmachine
  have hfinish : (finishCycle t).cycleCount = t.cycleCount + 1#32 := rfl
  have hstep := step_of_machine hmachine
  generalize finishCycle t = t' at hfinish hstep
  cases finished with
  | true =>
      cases hstep with
      | halt _ _ =>
          rw [(haltStep_lineCycles s).1] at hfinish
          change t.cycleCount = s.cycleCount + 4#32
          grind
  | false =>
      rw [step_cycleCount hstep] at hfinish
      change t.cycleCount = s.cycleCount
      grind

theorem reaches_cycleCount {k : Nat} {s t : Sim} (h : loopMachine.Reaches k s t) :
    t.cycleCount = s.cycleCount := by
  induction h with
  | refl _ =>
      rfl
  | tail _ hlast ih =>
      rw [loopMachine_cycleCount hlast]
      exact ih

def callCount (status : Status) : Word := if status = .halt then 5#32 else 1#32

theorem runCyclesLoop_cycleCount {cycles count : Word} {fuel : Nat} {s : Sim}
    {r : Status × Sim} (h : runCyclesLoop cycles fuel count s = some r) :
    r.2.cycleCount + 1#32 = s.cycleCount + callCount r.1 := by
  induction fuel generalizing count s with
  | zero =>
      cases h
  | succ fuel ih =>
      by_cases hcount : cycles = 0#32 ∨ count < cycles
      · cases hbody : loopMachine s with
        | mk finished t =>
            have hcycleCount := loopMachine_cycleCount hbody
            cases finished with
            | true =>
                rw [runCyclesLoop_halt hcount hbody] at h
                cases h
                change t.cycleCount + 1#32 = s.cycleCount + 5#32
                rw [hcycleCount]
                change s.cycleCount + 4#32 + 1#32 = _
                rw [BitVec.add_assoc]
                rfl
            | false =>
                rw [runCyclesLoop_next hcount hbody] at h
                rw [ih h, hcycleCount]
                rfl
      · rw [runCyclesLoop_done hcount] at h
        cases h
        rfl

theorem runCycles_cycleCount {cycles : Word} {fuel : Nat} {s : Sim} {r : Status × Sim}
    (h : runCycles fuel cycles s = some r) :
    r.2.cycleCount = s.cycleCount + callCount r.1 := by
  unfold runCycles at h
  rcases Option.map_eq_some_iff.mp h with ⟨r', hloop, rfl⟩
  exact runCyclesLoop_cycleCount hloop

/-!
## One call and two
-/

section Split

variable {m n : Word} {s t : Sim}

theorem callCount_ne (c : Word) (status status' : Status) :
    c + 1#32 + callCount status ≠ c + callCount status' := by
  unfold callCount
  split
  · split
    · grind
    · grind
  · split
    · grind
    · grind

theorem exists_runCycles_split (hn : 0#32 < n) (hwrap : m.toNat + n.toNat < 2 ^ 32)
    (h : loopMachine.Reaches m.toNat s t) :
    exists fuel fuel' r r', runCycles fuel n (finishCycle t) = some r ∧
      runCycles fuel' (m + n) s = some r' ∧ r.1 = r'.1 ∧ SameButCycles r.2 r'.2 := by
  have hsum := BitVec.toNat_add_of_lt hwrap
  have hsame := sameButCycles_finishCycle t
  rcases loopMachine.reaches_or_finishesIn n.toNat t with ⟨u, hu⟩ | ⟨k, u, hk, hu⟩
  · rcases hu.lockstep loopMachine_lockstep hsame with ⟨v, hv, huv⟩
    have hwhole : loopMachine.Reaches (m + n).toNat s u := by
      rw [hsum]
      exact h.trans hu
    have hpos : 0#32 < m + n := by
      rw [word_pos_iff] at hn ⊢
      lia
    refine ⟨_, _, _, _, runCycles_of_reaches hn hv, runCycles_of_reaches hpos hwhole, rfl, ?_⟩
    exact ((sameButCycles_finishCycle v).symm.trans huv.symm).trans (sameButCycles_finishCycle u)
  · rcases hu.lockstep loopMachine_lockstep hsame with ⟨v, hv, huv⟩
    have hwhole : loopMachine.FinishesIn (m.toNat + k) s u := hu.of_reaches h
    refine ⟨_, _, _, _, runCycles_of_finishesIn (Or.inr hk) hv,
      runCycles_of_finishesIn (Or.inr (by lia)) hwhole, rfl, ?_⟩
    exact ((sameButCycles_finishCycle v).symm.trans huv.symm).trans (sameButCycles_finishCycle u)

end Split

end Cycle

/-- Two calls never end in the state of a single one, because they count one cycle more, and the
unbounded call ends in the state of the single steps exactly when it takes one cycle, modulo
`2 ^ 32`.  Everything but cycle numbers is the same. -/
theorem runCycles_granularity (image : MemImage) (ic dc : ValidConfig) (s : Cycle.Sim)
    (m n : Word) (hm : 0#32 < m) (hn : 0#32 < n) :
    (forall t, Cycle.loopMachine.Reaches m.toNat s t ->
      (exists fuel, Cycle.runCycles fuel m s = some (.success, Cycle.finishCycle t)) ∧
      (forall fuel fuel' r r',
        Cycle.runCycles fuel n (Cycle.finishCycle t) = some r ->
          Cycle.runCycles fuel' (m + n) s = some r' -> r.2.cycleCount ≠ r'.2.cycleCount) ∧
      (m.toNat + n.toNat < 2 ^ 32 ->
        exists fuel fuel' r r',
          Cycle.runCycles fuel n (Cycle.finishCycle t) = some r ∧
            Cycle.runCycles fuel' (m + n) s = some r' ∧ r.1 = r'.1 ∧
            Cycle.SameButCycles r.2 r'.2 ∧ r.2.cycleCount = r'.2.cycleCount + 1#32)) ∧
    (forall fuel s',
      Cycle.runTillHalt fuel (Cycle.initSimulator ic.toCacheConfig dc.toCacheConfig
          (MemoryStore.ofImage image)) = some (.halt, s') ->
        exists calls fuel' r,
          Cycle.HaltsAfter calls (Cycle.initSimulator ic.toCacheConfig dc.toCacheConfig
            (MemoryStore.ofImage image)) s' ∧
          Cycle.runCycles fuel' 0#32 (Cycle.initSimulator ic.toCacheConfig dc.toCacheConfig
            (MemoryStore.ofImage image)) = some (.halt, r) ∧
          Cycle.SameButCycles r s' ∧
          (r.cycleCount = s'.cycleCount <-> calls % 2 ^ 32 = 1)) := by
  constructor
  · intro t hreach
    have hcount : (Cycle.finishCycle t).cycleCount = s.cycleCount + 1#32 := by
      change t.cycleCount + 1#32 = _
      rw [Cycle.reaches_cycleCount hreach]
    refine ⟨⟨_, Cycle.runCycles_of_reaches hm hreach⟩, ?_, ?_⟩
    · intro fuel fuel' r r' hr hr'
      rw [Cycle.runCycles_cycleCount hr, Cycle.runCycles_cycleCount hr', hcount]
      exact Cycle.callCount_ne _ _ _
    · intro hwrap
      rcases Cycle.exists_runCycles_split hn hwrap hreach with
        ⟨fuel, fuel', r, r', hr, hr', hstatus, hsame⟩
      refine ⟨fuel, fuel', r, r', hr, hr', hstatus, hsame, ?_⟩
      rw [Cycle.runCycles_cycleCount hr, Cycle.runCycles_cycleCount hr', hcount, hstatus]
      grind
  · intro fuel s' h
    rcases Cycle.haltsAfter_iff_runTillHalt.mpr ⟨fuel, h⟩ with ⟨calls, hrun⟩
    rcases hrun.lockstep Cycle.machine_lockstep (Cycle.SameButCycles.refl _) with
      ⟨t, hloop, hsame⟩
    have hcall := Cycle.runCycles_of_finishesIn (Or.inl rfl) hloop
    refine ⟨calls, _, _, hrun, hcall,
      (Cycle.sameButCycles_finishCycle t).symm.trans hsame.symm, ?_⟩
    have hcount := Cycle.runCycles_cycleCount hcall
    dsimp only at hcount
    rw [hcount, (Cycle.haltsAfter_numbered hrun).cycleCount, ← BitVec.toNat_inj,
      BitVec.toNat_ofNat]
    change 5 = (calls + 4) % 2 ^ 32 <-> _
    lia

/-- Two words that do nothing, by two calls and by one, and the halt word at address 0. -/
theorem runCycles_granularity_halt :
    (exists fuel fuel' fuel'' t r r',
      Cycle.runCycles fuel 1#32
          (Cycle.initSimulator (ValidConfig.oneBlock 0#32).toCacheConfig
            (ValidConfig.oneBlock 0#32).toCacheConfig
            (MemoryStore.ofImage (MemImage.ofWords [0#32, 0#32, haltWord]))) =
          some (.success, t) ∧
        Cycle.runCycles fuel' 1#32 t = some r ∧
        Cycle.runCycles fuel'' 2#32
          (Cycle.initSimulator (ValidConfig.oneBlock 0#32).toCacheConfig
            (ValidConfig.oneBlock 0#32).toCacheConfig
            (MemoryStore.ofImage (MemImage.ofWords [0#32, 0#32, haltWord]))) = some r' ∧
        r.2.cycleCount = r'.2.cycleCount + 1#32) ∧
    exists fuel fuel' r s',
      Cycle.runTillHalt fuel (Cycle.initSimulator (ValidConfig.oneBlock 3#32).toCacheConfig
          (ValidConfig.oneBlock 2#32).toCacheConfig
          (MemoryStore.ofImage (MemImage.ofWords [haltWord]))) = some (.halt, s') ∧
        Cycle.runCycles fuel' 0#32
          (Cycle.initSimulator (ValidConfig.oneBlock 3#32).toCacheConfig
            (ValidConfig.oneBlock 2#32).toCacheConfig
            (MemoryStore.ofImage (MemImage.ofWords [haltWord]))) = some (.halt, r) ∧
        r.cycleCount = s'.cycleCount := by
  constructor
  · have hreach := Machine.reaches_after (M := Cycle.loopMachine) (n := 1)
      (s := Cycle.initSimulator (ValidConfig.oneBlock 0#32).toCacheConfig
        (ValidConfig.oneBlock 0#32).toCacheConfig
        (MemoryStore.ofImage (MemImage.ofWords [0#32, 0#32, haltWord]))) (by decide +kernel)
    have hgranularity := runCycles_granularity (MemImage.ofWords [0#32, 0#32, haltWord])
      (ValidConfig.oneBlock 0#32) (ValidConfig.oneBlock 0#32)
      (Cycle.initSimulator (ValidConfig.oneBlock 0#32).toCacheConfig
        (ValidConfig.oneBlock 0#32).toCacheConfig
        (MemoryStore.ofImage (MemImage.ofWords [0#32, 0#32, haltWord]))) 1#32 1#32
      (by decide) (by decide)
    rcases hgranularity.1 _ hreach with ⟨⟨fuel, hfirst⟩, _, hsplit⟩
    rcases hsplit (by decide) with ⟨fuel', fuel'', r, r', hr, hr', _, _, hcount⟩
    exact ⟨fuel, fuel', fuel'', _, r, r', hfirst, hr, hr', hcount⟩
  · have hrun : Cycle.HaltsAfter 1
        (Cycle.initSimulator (ValidConfig.oneBlock 3#32).toCacheConfig
          (ValidConfig.oneBlock 2#32).toCacheConfig
          (MemoryStore.ofImage (MemImage.ofWords [haltWord]))) _ :=
      Machine.finishesIn_after (by decide) (by decide +kernel)
    rcases Cycle.haltsAfter_iff_runTillHalt.mp ⟨_, hrun⟩ with ⟨fuel, hfuel⟩
    have hgranularity := runCycles_granularity (MemImage.ofWords [haltWord])
      (ValidConfig.oneBlock 3#32) (ValidConfig.oneBlock 2#32)
      (Cycle.initSimulator (ValidConfig.oneBlock 3#32).toCacheConfig
        (ValidConfig.oneBlock 2#32).toCacheConfig
        (MemoryStore.ofImage (MemImage.ofWords [haltWord]))) 1#32 1#32 (by decide) (by decide)
    rcases hgranularity.2 fuel _ hfuel with ⟨calls, fuel', r, hcalls, hcall, _, hiff⟩
    have hone := (hcalls.unique hrun).1
    exact ⟨fuel, fuel', r, _, hfuel, hcall, hiff.mpr (by rw [hone]; decide)⟩

/-- Two instructions simulated by two calls and by one, and a run to the halt word by single
steps and by one unbounded call. -/
theorem runCycles_granularity_counts :
    let s := Cycle.initSimulator (ValidConfig.oneBlock 0#32).toCacheConfig
      (ValidConfig.oneBlock 0#32).toCacheConfig
      (MemoryStore.ofImage (MemImage.ofWords [0#32, 0#32, haltWord]))
    let count := fun r : Status × Cycle.Sim => (r.1, r.2.cycleCount)
    ((Cycle.runCycles 2 1#32 s).bind fun r => Cycle.runCycles 2 1#32 r.2).map count =
        some (.success, 2#32) ∧
      (Cycle.runCycles 3 2#32 s).map count = some (.success, 1#32) ∧
      (Cycle.runTillHalt 3 s).map count = some (.halt, 7#32) ∧
      (Cycle.runCycles 3 0#32 s).map count = some (.halt, 5#32) := by
  decide

end PipeSim
