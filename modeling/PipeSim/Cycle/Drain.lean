import PipeSim.Cycle.Hazards
import PipeSim.Cycle.Occupancy
import PipeSim.Cycle.References

/-!
# The drain behind the halt word

Behind the halt word the simulator shifts the pipeline four times.  The rules of the
other cycles would serve the stalls that are still pending, fetch bubbles, probe
what enters MEM and look for hazards.  The reference drain below does so until the
halt word is in WB, and the two are compared.
-/

namespace PipeSim

open Library

namespace Cycle

/-!
## The reference drain
-/

def bubblePath (s : Sim) : Sim := detectHazards (probeData (ingestBubble s))

/-- One cycle under the ordinary rules when only bubbles are fetched. -/
def bubbleCycle (s : Sim) : Sim :=
  if Stalled s then stallStep s else finishCycle (bubblePath (stampCycle s))

/-- The reference drain, which finishes when `slot` enters WB. -/
def bubbleMachine (slot : Slot) : Machine Sim := fun s =>
  (decide ((bubbleCycle s).pipeState.wbInstr = slot), bubbleCycle s)

/-- The state behind the fetch of the halt word.  Whether the delay of that fetch itself
is served is left open. -/
def drainStart (serveFetch : Bool) (s : Sim) : Sim :=
  if serveFetch then fetchStep s else { fetchStep s with iMiss := 0#32 }

def haltSlot (s : Sim) : Slot := slotOf (nextInfo s) s.log.infos.length

/-- The data reference of an instruction on its way to MEM, whatever its address. -/
def dueReference (slot : Slot) (address : Word) : List (Word × CacheOperation) :=
  ((operation? slot.instr).map fun operation => (address, operation)).toList

/-- The drain shows the lines and takes the cycles of the reference drain, and it presents
the loads and stores left in EX and ID to the data cache. -/
def DrainFollowsRules (serveFetch : Bool) (s : Sim) : Prop :=
  (exists n r, (bubbleMachine (haltSlot s)).FinishesIn n (drainStart serveFetch s) r ∧
      (haltStep s).log.lines = r.log.lines ∧ (haltStep s).cycleCount = r.cycleCount) ∧
    (haltStep s).log.dAccesses =
      (fetchPath s).log.dAccesses ++
        (dueReference s.pipeState.idInstr s.memAddresses.a1 ++
          dueReference s.pipeState.ifInstr s.memAddresses.a0)

/-- Nothing is left to be served behind the halt word: no load or store in IF or ID, no
operation in ID whose result a branch in IF needs, no data cache delay for the
instruction in EX, and none for the fetch of the halt word where that one counts. -/
structure DrainIdle (serveFetch : Bool) (s : Sim) : Prop where
  ifInstr : operation? s.pipeState.ifInstr.instr = none
  idInstr : operation? s.pipeState.idInstr.instr = none
  opBranch : opBranch s.pipeState.ifInstr.instr s.pipeState.idInstr.instr = 0#32
  exInstr : referenceDelay s.dCache
    (referenceOf s.pipeState.exInstr.instr s.memAddresses.a2) = 0#32
  fetch : serveFetch = true -> missDelay (s.iCache.access s.emulator.PC .read) = 0#32

/-!
## One cycle of both drains
-/

/-- The reference drain is one `dump` ahead of the loop of the simulator and has no stall
pending. -/
structure SameDrain (r t : Sim) : Prop where
  pipeState : r.pipeState = t.pipeState
  lines : r.log.lines = t.log.lines ++ [t.pipeState]
  cycleCount : r.cycleCount = t.cycleCount + 1#32
  idle : ¬ Stalled r

theorem probeData_of_no_operation {s : Sim}
    (h : operation? s.pipeState.memInstr.instr = none) : probeData s = s := by
  rw [probeData_eq, h]

theorem branchStall_zero (din xin dStall : Word) : branchStall 0#32 din xin dStall = dStall := by
  unfold branchStall
  rw [loadBranch_zero_left, loadBranch_zero_left, if_neg (by decide), if_neg (by decide)]

theorem bubblePath_of_no_operation {s : Sim}
    (hex : operation? s.pipeState.exInstr.instr = none) :
    bubblePath (stampCycle s) = detectHazards (ingestBubble (stampCycle s)) := by
  unfold bubblePath
  rw [probeData_of_no_operation]
  exact hex

theorem SameDrain.step {r t : Sim} (h : SameDrain r t)
    (hex : operation? r.pipeState.exInstr.instr = none)
    (hdelay : exDelay r.pipeState.ifInstr.instr r.pipeState.idInstr.instr = 0#32) :
    SameDrain (bubbleCycle r) (drainStep t) := by
  have hcycle : bubbleCycle r = finishCycle (detectHazards (ingestBubble (stampCycle r))) := by
    unfold bubbleCycle
    rw [if_neg h.idle, bubblePath_of_no_operation hex]
  have hpipe : (bubbleCycle r).pipeState = (drainStep t).pipeState := by
    rw [hcycle]
    change (ingestPipeline Slot.bubble r).pipeState =
      { cycle := t.cycleCount + 1#32
        ifInstr := Slot.bubble
        idInstr := t.pipeState.ifInstr
        exInstr := t.pipeState.idInstr
        memInstr := t.pipeState.exInstr
        wbInstr := t.pipeState.memInstr }
    unfold ingestPipeline
    rw [h.cycleCount, h.pipeState]
  refine ⟨hpipe, ?_, ?_, ?_⟩
  · have hlines : (bubbleCycle r).log.lines = r.log.lines ++ [(bubbleCycle r).pipeState] := by
      rw [hcycle]
      rfl
    rw [hlines, hpipe, h.lines]
    rfl
  · rw [hcycle]
    change r.cycleCount + 1#32 = (t.cycleCount + 1#32) + 1#32
    rw [h.cycleCount]
  · rcases counters_of_not_stalled h.idle with ⟨hiMiss, hdMiss, hdStall, _⟩
    have hdStall' : (bubbleCycle r).dStall = 0#32 := by
      rw [hcycle]
      change branchStall 0#32 r.pipeState.ifInstr.instr r.pipeState.idInstr.instr r.dStall = _
      rw [branchStall_zero, hdStall]
    have hxStall : (bubbleCycle r).xStall = 0#32 := by
      rw [hcycle]
      exact hdelay
    have hiMiss' : (bubbleCycle r).iMiss = 0#32 := by
      rw [hcycle]
      exact hiMiss
    have hdMiss' : (bubbleCycle r).dMiss = 0#32 := by
      rw [hcycle]
      exact hdMiss
    unfold Stalled
    rw [hiMiss', hdMiss', hdStall', hxStall]
    decide

theorem isHalt_word {s : Sim} (h : (nextInfo s).isHalt = true) :
    (nextInfo s).instruction = haltWord := by
  unfold nextInfo at h ⊢
  rw [Emulator.executeInstruction_instruction]
  simpa using h

theorem exDelay_haltWord (dep : Word) : exDelay haltWord dep = 0#32 := by
  have hbranch : isBranch haltWord = false := by decide
  have hop : isOp haltWord = false := by decide
  unfold exDelay
  rw [opBranch_of_not_isBranch hbranch, loadOp_of_not_isOp hop]
  rfl

theorem drainStart_fields (serveFetch : Bool) (s : Sim) :
    (drainStart serveFetch s).pipeState = (fetchPath s).pipeState ∧
      (drainStart serveFetch s).log.lines =
        (fetchPath s).log.lines ++ [(fetchPath s).pipeState] ∧
      (drainStart serveFetch s).cycleCount = (fetchPath s).cycleCount + 1#32 := by
  unfold drainStart fetchStep
  generalize fetchPath s = t
  cases serveFetch with
  | true => exact ⟨rfl, rfl, rfl⟩
  | false => exact ⟨rfl, rfl, rfl⟩

theorem not_stalled_drainStart (serveFetch : Bool) (s : Sim) :
    ¬ Stalled (drainStart serveFetch s) <->
      (serveFetch = true -> (fetchPath s).iMiss = 0#32) ∧ (fetchPath s).dMiss = 0#32 ∧
        (fetchPath s).dStall = 0#32 ∧ (fetchPath s).xStall = 0#32 := by
  rw [not_stalled_iff]
  unfold drainStart fetchStep
  generalize fetchPath s = t
  cases serveFetch with
  | true => simp
  | false => simp

theorem not_stalled_drainStart_iff (serveFetch : Bool) {s : Sim} (hfetch : Fetches s)
    (hhalt : (nextInfo s).isHalt = true) :
    ¬ Stalled (drainStart serveFetch s) <->
      (serveFetch = true -> missDelay (s.iCache.access s.emulator.PC .read) = 0#32) ∧
        referenceDelay s.dCache
            (referenceOf s.pipeState.exInstr.instr s.memAddresses.a2) = 0#32 ∧
        exDelay s.pipeState.ifInstr.instr s.pipeState.idInstr.instr = 0#32 := by
  rcases counters_of_not_stalled hfetch.notStalled with ⟨_, hdMiss, hdStall, _⟩
  have hbranch : forall dep, loadBranch haltWord dep = 0#32 := by
    intro dep
    have hno : isBranch haltWord = false := by decide
    unfold loadBranch
    rw [hno]
    rfl
  have hdStall' : (fetchPath s).dStall = 0#32 := by
    rw [fetchPath_dStall, isHalt_word hhalt]
    unfold branchStall
    rw [hbranch, hbranch, if_neg (by decide), if_neg (by decide), hdStall]
  rw [not_stalled_drainStart, fetchPath_iMiss, fetchPath_dMiss, hdMiss, BitVec.zero_add,
    hdStall', fetchPath_xStall]
  simp [exDelay]

/-!
## Both directions
-/

section Drain

variable {serveFetch : Bool} {s : Sim}

theorem SameDrain.start (hidle : ¬ Stalled (drainStart serveFetch s)) :
    SameDrain (drainStart serveFetch s) (fetchPath s) := by
  rcases drainStart_fields serveFetch s with ⟨hpipe, hlines, hcount⟩
  exact ⟨hpipe, hlines, hcount, hidle⟩

theorem SameDrain.finish {r t : Sim} (h : SameDrain r t) :
    (finishCycle t).log.lines = r.log.lines ∧ (finishCycle t).cycleCount = r.cycleCount := by
  rw [h.lines, h.cycleCount]
  exact ⟨rfl, rfl⟩

theorem ne_haltSlot {slot : Slot} (h : Accounted s.log.infos slot) : slot ≠ haltSlot s := by
  intro heq
  subst heq
  rcases h with hbubble | ⟨n, info, htag, hinfo, _, _⟩
  · have htag := congrArg Slot.tag hbubble
    cases htag
  · cases htag
    exact Nat.lt_irrefl _ (List.getElem?_eq_some_iff.mp hinfo).1

structure SlotsAre (p : PipeState) (fin din xin min : Slot) : Prop where
  ifInstr : p.ifInstr = fin
  idInstr : p.idInstr = din
  exInstr : p.exInstr = xin
  memInstr : p.memInstr = min

theorem SameDrain.step_slots {r t : Sim} {fin din xin min : Slot} (h : SameDrain r t)
    (hslots : SlotsAre r.pipeState fin din xin min) (hxin : operation? xin.instr = none)
    (hdelay : exDelay fin.instr din.instr = 0#32) (slot : Slot) :
    SameDrain (bubbleCycle r) (drainStep t) ∧
      SlotsAre (bubbleCycle r).pipeState Slot.bubble fin din xin ∧
      bubbleMachine slot r = (decide (min = slot), bubbleCycle r) := by
  have hstep : SameDrain (bubbleCycle r) (drainStep t) := by
    apply h.step
    · rw [hslots.exInstr]
      exact hxin
    · rw [hslots.ifInstr, hslots.idInstr]
      exact hdelay
  have hpipe : (bubbleCycle r).pipeState = (drainStep t).pipeState := hstep.pipeState
  have hold : r.pipeState = t.pipeState := h.pipeState
  rw [hold] at hslots
  refine ⟨hstep, ?_, ?_⟩
  · rw [hpipe]
    exact ⟨rfl, hslots.ifInstr, hslots.idInstr, hslots.exInstr⟩
  · unfold bubbleMachine
    rw [hpipe]
    change (decide (t.pipeState.memInstr = slot), _) = _
    rw [hslots.memInstr]

theorem operation?_haltWord : operation? haltWord = none := by decide

theorem drainFollowsRules_of_idle (htracked : Tracked s) (hfetch : Fetches s)
    (hhalt : (nextInfo s).isHalt = true) (hidle : DrainIdle serveFetch s) :
    DrainFollowsRules serveFetch s := by
  have hload : isLoad s.pipeState.idInstr.instr = false := by
    have hnone := hidle.idInstr
    unfold operation? at hnone
    by_contra hload
    rw [if_pos (Bool.eq_true_of_not_eq_false hload)] at hnone
    cases hnone
  have hdelay : exDelay s.pipeState.ifInstr.instr s.pipeState.idInstr.instr = 0#32 := by
    unfold exDelay loadOp
    rw [hidle.opBranch, hload, Bool.and_false]
    rfl
  have hstalled : ¬ Stalled (drainStart serveFetch s) :=
    (not_stalled_drainStart_iff serveFetch hfetch hhalt).mpr
      ⟨hidle.fetch, hidle.exInstr, hdelay⟩
  have hword : (haltSlot s).instr = haltWord := isHalt_word hhalt
  have hslots : SlotsAre (drainStart serveFetch s).pipeState (haltSlot s)
      s.pipeState.ifInstr s.pipeState.idInstr s.pipeState.exInstr := by
    rw [(drainStart_fields serveFetch s).1, fetchPath_pipeState]
    exact ⟨rfl, rfl, rfl, rfl⟩
  have hxin : s.pipeState.exInstr ≠ haltSlot s := ne_haltSlot (htracked.current 2 (by decide))
  have hdin : s.pipeState.idInstr ≠ haltSlot s := ne_haltSlot (htracked.current 1 (by decide))
  have hfin : s.pipeState.ifInstr ≠ haltSlot s := ne_haltSlot (htracked.current 0 (by decide))
  rcases (SameDrain.start hstalled).step_slots hslots hidle.idInstr
    (by rw [hword]; exact exDelay_haltWord _) (haltSlot s) with ⟨h1, hslots1, hm1⟩
  rcases h1.step_slots hslots1 hidle.ifInstr (exDelay_zero_left _) (haltSlot s) with
    ⟨h2, hslots2, hm2⟩
  rcases h2.step_slots hslots2 (by rw [hword]; exact operation?_haltWord)
    (exDelay_zero_left _) (haltSlot s) with ⟨h3, hslots3, hm3⟩
  rcases h3.step_slots hslots3 rfl (exDelay_zero_left _) (haltSlot s) with ⟨h4, _, hm4⟩
  rw [decide_eq_false hxin] at hm1
  rw [decide_eq_false hdin] at hm2
  rw [decide_eq_false hfin] at hm3
  rw [decide_eq_true rfl] at hm4
  have hreach : (bubbleMachine (haltSlot s)).Reaches 3 (drainStart serveFetch s) _ :=
    ((Machine.Reaches.one hm1).tail hm2).tail hm3
  refine ⟨⟨4, _, ⟨3, _, rfl, hreach, hm4⟩, h4.finish.1, h4.finish.2⟩, ?_⟩
  unfold haltStep dueReference
  rw [finishCycle_dAccesses, haltDrain_dAccesses, hidle.idInstr, hidle.ifInstr]
  exact (List.append_nil _).symm

theorem bubbleCycle_lines (r : Sim) :
    (bubbleCycle r).log.lines = r.log.lines ++ [(bubbleCycle r).pipeState] := by
  unfold bubbleCycle
  split
  · dsimp only [stallStep, finishCycle, dump]
    rw [(stallPath_frame r).lines, shuffled_log]
  · dsimp only [finishCycle, dump, bubblePath, detectHazards]
    rw [(probeData_frame _).lines]
    rfl

theorem lines_of_finishesIn {slot : Slot} {n : Nat} {r r' : Sim}
    (h : (bubbleMachine slot).FinishesIn n r r') :
    (bubbleCycle r).log.lines <+: r'.log.lines := by
  rcases h with ⟨k, u, _, hreach, hlast⟩
  have hend : bubbleCycle u = r' := congrArg Prod.snd hlast
  rw [← hend]
  refine hreach.invariant (P := fun t =>
    (bubbleCycle r).log.lines <+: (bubbleCycle t).log.lines) ?_ (List.prefix_refl _)
  intro t t' hprefix hstep
  have hnext : bubbleCycle t = t' := congrArg Prod.snd hstep
  rw [← hnext, bubbleCycle_lines (bubbleCycle t)]
  exact hprefix.trans (List.prefix_append _ _)

/-- A stall that is due keeps the halt word in IF for a cycle, while the drain moves
it. -/
theorem not_stalled_of_lines {n : Nat} {r : Sim}
    (h : (bubbleMachine (haltSlot s)).FinishesIn n (drainStart serveFetch s) r)
    (hlines : (haltStep s).log.lines = r.log.lines) :
    ¬ Stalled (drainStart serveFetch s) := by
  intro hstalled
  have hprefix := lines_of_finishesIn h
  rcases haltStep_lines s with ⟨rest, hrest⟩
  rcases drainStart_fields serveFetch s with ⟨hpipe, hstart, _⟩
  have hcycle : bubbleCycle (drainStart serveFetch s) = stallStep (drainStart serveFetch s) := by
    unfold bubbleCycle
    rw [if_pos hstalled]
  rw [← hlines, hrest, bubbleCycle_lines, hstart, fetchPath_lines, List.append_assoc,
    List.prefix_append_right_inj] at hprefix
  have hsame : (bubbleCycle (drainStart serveFetch s)).pipeState =
      (drainStep (fetchPath s)).pipeState := by
    simpa using hprefix
  have hslot := (stallStep_moved hstalled).slots 0 (by decide)
  rw [Conveyor.advance_of_lt _ _ (stallStage_pos _), ← hcycle, hsame, hpipe] at hslot
  have htag := congrArg Slot.tag hslot
  rw [show (fetchPath s).pipeState.slot 0 = (fetchPath s).pipeState.ifInstr from rfl,
    fetchPath_ifInstr_tag] at htag
  cases htag

theorem idle_of_drainFollowsRules (hfetch : Fetches s) (hhalt : (nextInfo s).isHalt = true)
    (h : DrainFollowsRules serveFetch s) : DrainIdle serveFetch s := by
  rcases h with ⟨⟨n, r, hfinishes, hlines, _⟩, haccesses⟩
  rcases (not_stalled_drainStart_iff serveFetch hfetch hhalt).mp
    (not_stalled_of_lines hfinishes hlines) with ⟨hiMiss, hdMiss, hdelay⟩
  unfold haltStep at haccesses
  rw [finishCycle_dAccesses, haltDrain_dAccesses, List.self_eq_append_right,
    List.append_eq_nil_iff] at haccesses
  unfold dueReference at haccesses
  rw [Option.toList_eq_nil_iff, Option.toList_eq_nil_iff, Option.map_eq_none_iff,
    Option.map_eq_none_iff] at haccesses
  exact ⟨haccesses.2, haccesses.1, (exDelay_eq_zero hdelay).1, hdMiss, hiMiss⟩

end Drain

end Cycle

/-- In every run, when the halt word is fetched, the drain follows the timing rules of the
other cycles exactly when nothing is left to be served: no load or store is in IF or ID,
no branch in IF needs the operation in ID, and the instruction in EX (and the fetch of
the halt word, where it counts) meets no cache delay. -/
theorem halt_drain_follows_rules_iff (image : MemImage) (ic dc : ValidConfig)
    (serveFetch : Bool) {k : Nat} {s : Cycle.Sim}
    (hreach : Cycle.machine.Reaches k
      (Cycle.initSimulator ic.toCacheConfig dc.toCacheConfig (MemoryStore.ofImage image)) s)
    (hfetch : Cycle.Fetches s) (hhalt : (Cycle.nextInfo s).isHalt = true) :
    Cycle.DrainFollowsRules serveFetch s <-> Cycle.DrainIdle serveFetch s := by
  have htracked := (Cycle.runInvariant_of_reaches (Cycle.tracked_initSimulator _ _ _) rfl rfl
    hreach).tracked
  exact ⟨Cycle.idle_of_drainFollowsRules hfetch hhalt,
    Cycle.drainFollowsRules_of_idle htracked hfetch hhalt⟩

/-- `lw $1, 0($0)`, three `nop` and the halt word. -/
def servedLoadProgram : List Word :=
  [0x8c010000#32, 0x00000000#32, 0x00000000#32, 0x00000000#32, haltWord]

theorem halt_drain_follows_rules_served_load :
    Cycle.DrainFollowsRules true
      (Cycle.machine.after 6
        (Cycle.initSimulator (ValidConfig.oneBlock 0#32).toCacheConfig
          (ValidConfig.oneBlock 2#32).toCacheConfig
          (MemoryStore.ofImage (MemImage.ofWords servedLoadProgram)))) := by
  have hreach := Machine.reaches_after (M := Cycle.machine) (n := 6)
    (s := Cycle.initSimulator (ValidConfig.oneBlock 0#32).toCacheConfig
      (ValidConfig.oneBlock 2#32).toCacheConfig
      (MemoryStore.ofImage (MemImage.ofWords servedLoadProgram))) (by decide +kernel)
  refine (halt_drain_follows_rules_iff _ (ValidConfig.oneBlock 0#32) (ValidConfig.oneBlock 2#32)
    true hreach ⟨by decide +kernel, by decide +kernel⟩ (by decide +kernel)).mpr
    ⟨by decide +kernel, by decide +kernel, by decide +kernel, by decide +kernel,
      by decide +kernel⟩

/-- `lw $1, 0($0)` and the halt word. -/
def loadHaltProgram : List Word := [0x8c010000#32, haltWord]

/-- The load in front of the halt word passes MEM unserved, whichever way the delay of the
halt word's own fetch is counted. -/
theorem halt_drain_skips_load :
    exists (image : MemImage) (ic dc : ValidConfig) (k : Nat) (s : Cycle.Sim),
      Cycle.machine.Reaches k
          (Cycle.initSimulator ic.toCacheConfig dc.toCacheConfig
            (MemoryStore.ofImage image)) s ∧
        Cycle.Fetches s ∧ (Cycle.nextInfo s).isHalt = true ∧
        forall serveFetch, ¬ Cycle.DrainFollowsRules serveFetch s := by
  have hfetch : Cycle.Fetches (Cycle.machine.after 1
      (Cycle.initSimulator (ValidConfig.oneBlock 0#32).toCacheConfig
        (ValidConfig.oneBlock 2#32).toCacheConfig
        (MemoryStore.ofImage (MemImage.ofWords loadHaltProgram)))) :=
    ⟨by decide, by decide⟩
  refine ⟨MemImage.ofWords loadHaltProgram, ValidConfig.oneBlock 0#32,
    ValidConfig.oneBlock 2#32, 1, _, Machine.reaches_after (by decide), hfetch,
    by decide, ?_⟩
  intro serveFetch h
  have hidle := Cycle.idle_of_drainFollowsRules hfetch (by decide) h
  exact absurd hidle.ifInstr (by decide)

end PipeSim
