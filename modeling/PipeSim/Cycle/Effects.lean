import PipeSim.Cycle.Steps
import PipeSim.Library.Conveyor
import Mathlib.Tactic.IntervalCases

/-!
# The effect of each step

Member by member, what the five steps do to the pipeline, the address buffer,
the caches, the counters and the log.  Invariants are proved from these lemmas.
-/

namespace PipeSim

open Library

namespace Cycle

/-!
## The end of a cycle
-/

@[simp] theorem finishCycle_iCache (s : Sim) : (finishCycle s).iCache = s.iCache := rfl

@[simp] theorem finishCycle_dCache (s : Sim) : (finishCycle s).dCache = s.dCache := rfl

@[simp] theorem finishCycle_pipeState (s : Sim) : (finishCycle s).pipeState = s.pipeState := rfl

@[simp] theorem finishCycle_iMiss (s : Sim) : (finishCycle s).iMiss = s.iMiss := rfl

@[simp] theorem finishCycle_dMiss (s : Sim) : (finishCycle s).dMiss = s.dMiss := rfl

@[simp] theorem finishCycle_dStall (s : Sim) : (finishCycle s).dStall = s.dStall := rfl

@[simp] theorem finishCycle_xStall (s : Sim) : (finishCycle s).xStall = s.xStall := rfl

@[simp] theorem finishCycle_except (s : Sim) : (finishCycle s).except = s.except := rfl

@[simp] theorem finishCycle_infos (s : Sim) :
    (finishCycle s).log.infos = s.log.infos := rfl

@[simp] theorem finishCycle_iAccesses (s : Sim) :
    (finishCycle s).log.iAccesses = s.log.iAccesses := rfl

@[simp] theorem finishCycle_dAccesses (s : Sim) :
    (finishCycle s).log.dAccesses = s.log.dAccesses := rfl

/-!
## Cycle count and dumped lines
-/

@[simp] theorem stallStep_cycleCount (s : Sim) :
    (stallStep s).cycleCount = s.cycleCount + 1#32 := by
  dsimp only [stallStep, finishCycle, dump]
  rw [(stallPath_frame s).cycleCount]
  congr 1
  exact (shuffle_frame (stampCycle s)).cycleCount

@[simp] theorem fetchPath_cycleCount (s : Sim) :
    (fetchPath s).cycleCount = s.cycleCount := by
  rw [fetchPath_eq]
  dsimp only [detectHazards]
  rw [(probeData_frame (fetched s)).cycleCount]
  rfl

theorem step_cycleCount {s s' : Sim} (h : Step s false s') :
    s'.cycleCount = s.cycleCount + 1#32 := by
  cases h with
  | except _ =>
      rfl
  | stall _ _ =>
      exact stallStep_cycleCount s
  | trap _ _ =>
      rfl
  | fetch _ _ _ =>
      dsimp only [fetchStep, finishCycle, dump]
      rw [fetchPath_cycleCount]

@[simp] theorem fetchPath_lines (s : Sim) :
    (fetchPath s).log.lines = s.log.lines := by
  rw [fetchPath_eq]
  dsimp only [detectHazards]
  rw [(probeData_frame (fetched s)).lines]
  rfl

theorem step_lines {s s' : Sim} (h : Step s false s') :
    s'.log.lines = s.log.lines ++ [s'.pipeState] := by
  cases h with
  | except _ =>
      rfl
  | stall _ _ =>
      dsimp only [stallStep, finishCycle, dump]
      rw [(stallPath_frame s).lines, shuffled_log]
  | trap _ _ =>
      rfl
  | fetch _ _ _ =>
      dsimp only [fetchStep, finishCycle, dump]
      rw [fetchPath_lines]

/-!
## Probes
-/

/-- The data reference that an instruction word and its buffered address stand
for in the eyes of the simulator. -/
def referenceOf (instr address : Word) : Option (Word × CacheOperation) :=
  match operation? instr with
  | some operation => if address = noAddress then none else some (address, operation)
  | none => none

def memReference (s : Sim) : Option (Word × CacheOperation) :=
  referenceOf s.pipeState.memInstr.instr s.memAddresses.a3

theorem probeData_eq_memReference (s : Sim) :
    probeData s =
      match memReference s with
      | some r => accessData r.1 r.2 s
      | none => s := by
  rw [probeData_eq]
  unfold memReference referenceOf
  cases operation? s.pipeState.memInstr.instr with
  | none =>
      rfl
  | some operation =>
      dsimp only
      split
      · rfl
      · rfl

@[simp] theorem probeData_dAccesses (s : Sim) :
    (probeData s).log.dAccesses = s.log.dAccesses ++ (memReference s).toList := by
  rw [probeData_eq_memReference]
  cases memReference s with
  | none =>
      exact (List.append_nil _).symm
  | some r =>
      rfl

def referenceDelay (c : Cache) (reference : Option (Word × CacheOperation)) : Word :=
  match reference with
  | some r => missDelay (c.access r.1 r.2)
  | none => 0#32

def referenceServed (c : Cache) (reference : Option (Word × CacheOperation)) : Cache :=
  match reference with
  | some r => (c.access r.1 r.2).2
  | none => c

theorem probeData_dMiss (s : Sim) :
    (probeData s).dMiss = s.dMiss + referenceDelay s.dCache (memReference s) := by
  rw [probeData_eq_memReference]
  cases memReference s with
  | none =>
      exact (BitVec.add_zero _).symm
  | some r =>
      rfl

theorem probeData_dCache (s : Sim) :
    (probeData s).dCache = referenceServed s.dCache (memReference s) := by
  rw [probeData_eq_memReference]
  cases memReference s with
  | none =>
      rfl
  | some r =>
      rfl

/-!
## The exception step
-/

@[simp] theorem exceptStep_pipeState (s : Sim) :
    (exceptStep s).pipeState = (ingestPipeline Slot.bubble s).pipeState := rfl

@[simp] theorem exceptStep_memAddresses (s : Sim) :
    (exceptStep s).memAddresses = (ingestBuffer noAddress s).memAddresses := rfl

@[simp] theorem exceptStep_infos (s : Sim) :
    (exceptStep s).log.infos = s.log.infos := rfl

@[simp] theorem exceptStep_dAccesses (s : Sim) :
    (exceptStep s).log.dAccesses = s.log.dAccesses := rfl

@[simp] theorem exceptStep_iCache (s : Sim) : (exceptStep s).iCache = s.iCache := rfl

@[simp] theorem exceptStep_dCache (s : Sim) : (exceptStep s).dCache = s.dCache := rfl

@[simp] theorem exceptStep_iMiss (s : Sim) : (exceptStep s).iMiss = s.iMiss := rfl

@[simp] theorem exceptStep_dMiss (s : Sim) : (exceptStep s).dMiss = s.dMiss := rfl

@[simp] theorem exceptStep_dStall (s : Sim) : (exceptStep s).dStall = s.dStall := rfl

@[simp] theorem exceptStep_xStall (s : Sim) : (exceptStep s).xStall = s.xStall := rfl

/-!
## The trap step
-/

@[simp] theorem trapStep_pipeState (s : Sim) :
    (trapStep s).pipeState = (ingestPipeline Slot.bubble s).pipeState := rfl

@[simp] theorem trapStep_memAddresses (s : Sim) :
    (trapStep s).memAddresses = (ingestBuffer noAddress s).memAddresses := rfl

@[simp] theorem trapStep_infos (s : Sim) :
    (trapStep s).log.infos = s.log.infos ++ [nextInfo s] := rfl

@[simp] theorem trapStep_dAccesses (s : Sim) :
    (trapStep s).log.dAccesses = s.log.dAccesses := rfl

@[simp] theorem trapStep_except (s : Sim) :
    (trapStep s).except = trapBubbles (nextInfo s) := rfl

@[simp] theorem trapStep_iCache (s : Sim) : (trapStep s).iCache = s.iCache := rfl

@[simp] theorem trapStep_dCache (s : Sim) : (trapStep s).dCache = s.dCache := rfl

@[simp] theorem trapStep_iMiss (s : Sim) : (trapStep s).iMiss = s.iMiss := rfl

@[simp] theorem trapStep_dMiss (s : Sim) : (trapStep s).dMiss = s.dMiss := rfl

@[simp] theorem trapStep_dStall (s : Sim) : (trapStep s).dStall = s.dStall := rfl

@[simp] theorem trapStep_xStall (s : Sim) : (trapStep s).xStall = s.xStall := rfl

/-!
## The stall step
-/

@[simp] theorem stallStep_pipeState (s : Sim) :
    (stallStep s).pipeState = (shuffle (stampCycle s)).pipeState := by
  dsimp only [stallStep, finishCycle, dump]
  rw [(stallPath_frame s).pipeState]
  rfl

@[simp] theorem stallStep_memAddresses (s : Sim) :
    (stallStep s).memAddresses = (shuffle (stampCycle s)).memAddresses := by
  dsimp only [stallStep, finishCycle, dump]
  rw [(stallPath_frame s).memAddresses]
  rfl

theorem stallStep_shuffle {s : Sim} (h : Stalled s) :
    exists t, Shuffle (stampCycle s) t ∧ (stallStep s).pipeState = t.pipeState ∧
      (stallStep s).memAddresses = t.memAddresses :=
  ⟨shuffle (stampCycle s), shuffle_cases ((stalled_stampCycle s).mpr h),
    stallStep_pipeState s, stallStep_memAddresses s⟩

@[simp] theorem stallStep_infos (s : Sim) :
    (stallStep s).log.infos = s.log.infos := by
  dsimp only [stallStep, finishCycle, dump]
  rw [(stallPath_frame s).infos, shuffled_log]

@[simp] theorem stallStep_iCache (s : Sim) : (stallStep s).iCache = s.iCache := by
  dsimp only [stallStep, finishCycle, dump]
  rw [(stallPath_frame s).iCache]
  exact (shuffle_frame (stampCycle s)).iCache

theorem memReference_congr {s s' : Sim} (hpipe : s'.pipeState = s.pipeState)
    (hbuffer : s'.memAddresses = s.memAddresses) : memReference s' = memReference s := by
  unfold memReference
  rw [hpipe, hbuffer]

theorem memReference_finishCycle (s : Sim) :
    memReference (finishCycle s) = memReference s := rfl

theorem memReference_shuffled (s : Sim) :
    memReference (shuffled s) = memReference (stallStep s) := by
  have hframe := stallPath_frame s
  unfold stallStep
  rw [memReference_finishCycle]
  exact (memReference_congr hframe.pipeState hframe.memAddresses).symm

/-- The `dMiss` behind a stall cycle: the probe takes place as long as another counter is
still positive. -/
theorem stallStep_dMiss (s : Sim) :
    (stallStep s).dMiss =
      countDown s.dMiss +
        if StallsOn (shuffled s) then referenceDelay s.dCache (memReference (stallStep s))
        else 0#32 := by
  rw [← memReference_shuffled]
  dsimp only [stallStep, finishCycle, dump]
  rw [stallPath_eq]
  split
  · rw [probeData_dMiss, shuffled_dMiss, shuffled_dCache]
  · rw [shuffled_dMiss, BitVec.add_zero]

theorem stallStep_dCache (s : Sim) :
    (stallStep s).dCache =
      if StallsOn (shuffled s) then referenceServed s.dCache (memReference (stallStep s))
      else s.dCache := by
  rw [← memReference_shuffled]
  dsimp only [stallStep, finishCycle, dump]
  rw [stallPath_eq]
  split
  · rw [probeData_dCache, shuffled_dCache]
  · rw [shuffled_dCache]

/-!
## The fetch step
-/

@[simp] theorem fetchPath_pipeState (s : Sim) :
    (fetchPath s).pipeState =
      (ingestPipeline (slotOf (nextInfo s) s.log.infos.length) s).pipeState := by
  rw [fetchPath_eq]
  dsimp only [detectHazards]
  rw [(probeData_frame (fetched s)).pipeState]
  rfl

@[simp] theorem fetchPath_memAddresses (s : Sim) :
    (fetchPath s).memAddresses =
      (ingestBuffer (bufferedAddress (nextInfo s)) s).memAddresses := by
  rw [fetchPath_eq]
  dsimp only [detectHazards]
  rw [(probeData_frame (fetched s)).memAddresses]
  rfl

@[simp] theorem fetchPath_infos (s : Sim) :
    (fetchPath s).log.infos = s.log.infos ++ [nextInfo s] := by
  rw [fetchPath_eq]
  dsimp only [detectHazards]
  rw [(probeData_frame (fetched s)).infos]
  rfl

@[simp] theorem fetchPath_iCache (s : Sim) :
    (fetchPath s).iCache = (s.iCache.access s.emulator.PC .read).2 := by
  rw [fetchPath_eq]
  dsimp only [detectHazards]
  rw [(probeData_frame (fetched s)).iCache]
  change (s.iCache.access (nextInfo s).pc .read).2 = _
  rw [nextInfo, Emulator.executeInstruction_pc]

@[simp] theorem fetchPath_iMiss (s : Sim) :
    (fetchPath s).iMiss = missDelay (s.iCache.access s.emulator.PC .read) := by
  rw [fetchPath_eq]
  dsimp only [detectHazards]
  rw [(probeData_frame (fetched s)).iMiss]
  change missDelay (s.iCache.access (nextInfo s).pc .read) = _
  rw [nextInfo, Emulator.executeInstruction_pc]

theorem fetchPath_dMiss (s : Sim) :
    (fetchPath s).dMiss =
      s.dMiss +
        referenceDelay s.dCache (referenceOf s.pipeState.exInstr.instr s.memAddresses.a2) := by
  rw [fetchPath_eq]
  dsimp only [detectHazards]
  rw [probeData_dMiss]
  rfl

theorem fetchPath_dCache (s : Sim) :
    (fetchPath s).dCache =
      referenceServed s.dCache (referenceOf s.pipeState.exInstr.instr s.memAddresses.a2) := by
  rw [fetchPath_eq]
  dsimp only [detectHazards]
  rw [probeData_dCache]
  rfl

/-- The `dStall` a fetch sets, from the instruction fetched and those about to enter ID
and EX. -/
@[simp] theorem fetchPath_dStall (s : Sim) :
    (fetchPath s).dStall =
      branchStall (nextInfo s).instruction s.pipeState.ifInstr.instr
        s.pipeState.idInstr.instr s.dStall := by
  rw [fetchPath_eq]
  dsimp only [detectHazards]
  rw [(probeData_frame (fetched s)).pipeState, (probeData_frame (fetched s)).dStall]
  rfl

@[simp] theorem fetchPath_xStall (s : Sim) :
    (fetchPath s).xStall =
      opBranch s.pipeState.ifInstr.instr s.pipeState.idInstr.instr +
        loadOp s.pipeState.ifInstr.instr s.pipeState.idInstr.instr := by
  rw [fetchPath_eq]
  dsimp only [detectHazards]
  rw [(probeData_frame (fetched s)).pipeState]
  rfl

/-!
## The halting step
-/

theorem haltDrain_infos (s : Sim) : (haltDrain s).log.infos = s.log.infos := by
  unfold haltDrain
  apply forLoop_induction (fun (_ : Nat) (t : Sim) => t.log.infos = s.log.infos)
  · rfl
  · intro _ t _ ht
    exact ht

@[simp] theorem haltStep_infos (s : Sim) :
    (haltStep s).log.infos = s.log.infos ++ [nextInfo s] := by
  unfold haltStep
  rw [finishCycle_infos, haltDrain_infos, fetchPath_infos]

/-!
## Executed instructions
-/

theorem step_infos_extends {s s' : Sim} (h : Step s false s') :
    s.log.infos <+: s'.log.infos := by
  cases h with
  | except _ =>
      exact List.prefix_refl _
  | stall _ _ =>
      rw [stallStep_infos]
  | trap _ _ =>
      exact List.prefix_append _ _
  | fetch _ _ _ =>
      unfold fetchStep
      rw [finishCycle_infos, fetchPath_infos]
      exact List.prefix_append _ _

theorem infos_prefix_of_reaches {n : Nat} {s s' : Sim} (h : machine.Reaches n s s') :
    s.log.infos <+: s'.log.infos := by
  induction h with
  | refl _ =>
      exact List.prefix_refl _
  | tail _ hstep ih =>
      exact ih.trans (step_infos_extends (step_of_machine hstep))

def NoTrap (s : Sim) : Prop := forall info, info ∈ s.log.infos -> info.completes = true

instance (s : Sim) : Decidable (NoTrap s) := by
  unfold NoTrap
  infer_instance

theorem NoTrap.of_reaches {n : Nat} {s t : Sim} (h : NoTrap s)
    (hreach : machine.Reaches n t s) : NoTrap t :=
  fun info hinfo => h info ((infos_prefix_of_reaches hreach).subset hinfo)

theorem NoTrap.completes {n : Nat} {s t : Sim} (h : NoTrap s)
    (hreach : machine.Reaches (n + 1) t s) (hfetch : Fetches t) :
    (nextInfo t).completes = true := by
  rcases hreach.exists_head with ⟨t', hstep, hrest⟩
  cases hcompletes : (nextInfo t).completes with
  | true =>
      rfl
  | false =>
      have htrap := (Step.trap hfetch hcompletes).machine_eq
      rw [htrap] at hstep
      cases hstep
      have hmem := (h.of_reaches hrest) (nextInfo t)
        (List.mem_append_right _ (List.mem_singleton_self _))
      rw [hcompletes] at hmem
      exact hmem

/-!
## The pipeline as a conveyor belt

Every step moves the pipeline, from IF on when something is fed in and from a
later stage on during a stall.  The address buffer moves along with the stages
up to MEM.
-/

/-- The slots of the pipeline by stage, IF being stage 0 and WB stage 4. -/
def PipeState.slot (p : PipeState) : Nat -> Slot
  | 0 => p.ifInstr
  | 1 => p.idInstr
  | 2 => p.exInstr
  | 3 => p.memInstr
  | _ => p.wbInstr

def MemAddresses.get (m : MemAddresses) : Nat -> Word
  | 0 => m.a0
  | 1 => m.a1
  | 2 => m.a2
  | 3 => m.a3
  | _ => m.a4

/-- One move from stage `m` on, of the pipeline and the address buffer. -/
structure Moved (m : Nat) (slot : Slot) (address : Word) (s s' : Sim) : Prop where
  slots : forall i, i ≤ 4 ->
    s'.pipeState.slot i = Conveyor.advance m slot s.pipeState.slot i
  addresses : forall i, i ≤ 3 ->
    s'.memAddresses.get i = Conveyor.advance m address s.memAddresses.get i

theorem Moved.dump {m : Nat} {slot : Slot} {address : Word} {s s' : Sim}
    (h : Moved m slot address s s') : Moved m slot address s (dump s') :=
  ⟨h.slots, h.addresses⟩

theorem Moved.finishCycle {m : Nat} {slot : Slot} {address : Word} {s s' : Sim}
    (h : Moved m slot address s s') : Moved m slot address s (finishCycle s') :=
  ⟨h.slots, h.addresses⟩

theorem moved_ingest {slot : Slot} {address : Word} {s s' : Sim}
    (hpipe : s'.pipeState = (ingestPipeline slot s).pipeState)
    (hbuffer : s'.memAddresses = (ingestBuffer address s).memAddresses) :
    Moved 0 slot address s s' := by
  constructor
  · intro i hi
    rw [hpipe]
    interval_cases i <;> rfl
  · intro i hi
    rw [hbuffer]
    interval_cases i <;> rfl

theorem exceptStep_moved (s : Sim) :
    Moved 0 Slot.bubble noAddress s (exceptStep s) :=
  moved_ingest (exceptStep_pipeState s) (exceptStep_memAddresses s)

theorem trapStep_moved (s : Sim) : Moved 0 Slot.bubble noAddress s (trapStep s) :=
  moved_ingest (trapStep_pipeState s) (trapStep_memAddresses s)

theorem fetchPath_moved (s : Sim) :
    Moved 0 (slotOf (nextInfo s) s.log.infos.length) (bufferedAddress (nextInfo s)) s
      (fetchPath s) :=
  moved_ingest (fetchPath_pipeState s) (fetchPath_memAddresses s)

theorem fetchStep_moved (s : Sim) :
    Moved 0 (slotOf (nextInfo s) s.log.infos.length) (bufferedAddress (nextInfo s)) s
      (fetchStep s) :=
  (fetchPath_moved s).finishCycle

def stallStage (s : Sim) : Nat :=
  if s.dMiss ≠ 0#32 then 4 else if 0#32 < s.xStall then 2 else 1

theorem stallStage_of_freeze {s : Sim} (hdMiss : s.dMiss ≠ 0#32) : stallStage s = 4 :=
  if_pos hdMiss

theorem stallStage_of_xStall {s : Sim} (hdMiss : s.dMiss = 0#32) (hxStall : 0#32 < s.xStall) :
    stallStage s = 2 := by
  unfold stallStage
  rw [if_neg (not_not_intro hdMiss), if_pos hxStall]

theorem stallStage_of_zero {s : Sim} (hdMiss : s.dMiss = 0#32) (hxStall : s.xStall = 0#32) :
    stallStage s = 1 := by
  unfold stallStage
  rw [if_neg (not_not_intro hdMiss), hxStall]
  rfl

theorem stallStep_moved {s : Sim} (h : Stalled s) :
    Moved (stallStage s) Slot.bubble noAddress s (stallStep s) := by
  rcases stallStep_shuffle h with ⟨t, hcases, hpipe, hbuffer⟩
  unfold stallStage
  cases hcases with
  | freeze hdMiss =>
      rw [if_pos (show s.dMiss ≠ 0#32 from hdMiss)]
      constructor
      · intro i hi
        rw [hpipe]
        interval_cases i <;> rfl
      · intro i hi
        rw [hbuffer]
        interval_cases i <;> rfl
  | bubbleEx hdMiss hxStall =>
      rw [if_neg (not_not_intro (show s.dMiss = 0#32 from hdMiss)),
        if_pos (show 0#32 < s.xStall from hxStall)]
      constructor
      · intro i hi
        rw [hpipe]
        interval_cases i <;> rfl
      · intro i hi
        rw [hbuffer]
        interval_cases i <;> rfl
  | bubbleId hdMiss hxStall =>
      have hnot : ¬ 0#32 < s.xStall := by
        have hzero : s.xStall = 0#32 := hxStall
        rw [hzero]
        decide
      rw [if_neg (not_not_intro (show s.dMiss = 0#32 from hdMiss)), if_neg hnot]
      constructor
      · intro i hi
        rw [hpipe]
        interval_cases i <;> rfl
      · intro i hi
        rw [hbuffer]
        interval_cases i <;> rfl

theorem stallStage_pos (s : Sim) : 0 < stallStage s := by
  unfold stallStage
  split
  · decide
  · split
    · decide
    · decide

theorem stallStage_le (s : Sim) : stallStage s ≤ 4 := by
  unfold stallStage
  split
  · decide
  · split
    · decide
    · decide

theorem drainStep_moved (s : Sim) : Moved 0 Slot.bubble noAddress s (drainStep s) := by
  constructor
  · intro i hi
    interval_cases i <;> rfl
  · intro i hi
    interval_cases i <;> rfl

end Cycle
end PipeSim
