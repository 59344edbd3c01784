import PipeSim.Cycle.Decoding
import PipeSim.Cycle.Effects

/-!
# Data references

A load or store is presented to the data cache by the probe of the cycle in which
it enters MEM.  Seen as a queue of references, the pipeline hands every reference
to the cache in turn as long as each step probes exactly when a reference
enters MEM; the conditions on the steps are collected here, and the queue
invariant carries them to whole runs.
-/

namespace PipeSim

open Library

namespace Cycle

def dataReference (info : InstructionInfo) : Option (Word × CacheOperation) :=
  if info.completes then
    match OpId.ofCode? info.opcode with
    | some op =>
        if op.isLoad then some (info.loadAddress, .read)
        else if op.isStore then some (info.storeAddress, .write)
        else none
    | none => none
  else none

theorem dataReference_of_not_completes {info : InstructionInfo}
    (h : info.completes = false) : dataReference info = none := by
  unfold dataReference
  rw [h]
  rfl

theorem dataReference_nextInfo {s : Sim} (h : (nextInfo s).completes = true) :
    dataReference (nextInfo s) =
      (operation? (nextInfo s).instruction).map fun operation =>
        (bufferedAddress (nextInfo s), operation) := by
  unfold dataReference
  rw [if_pos h]
  unfold operation? bufferedAddress
  simp only [isLoad_eq, isStore_eq]
  unfold nextInfo at h ⊢
  by_cases hhalt : s.emulator.fetchedWord = haltWord
  · have hword : opOf haltWord = none := by decide
    have hzero : OpId.ofCode? (0#32) = some .zero := by decide
    rw [Emulator.executeInstruction_instruction, hhalt, hword,
      Emulator.executeInstruction_of_halt hhalt]
    dsimp only [Emulator.fetch]
    rw [hzero]
    rfl
  · rw [Emulator.executeInstruction_opcode hhalt, Emulator.executeInstruction_instruction]
    change (match opOf s.emulator.fetchedWord with
      | some op => _
      | none => none) = _
    cases opOf s.emulator.fetchedWord with
    | none =>
        rfl
    | some op =>
        dsimp only [Option.any]
        split
        · rfl
        · split
          · rfl
          · rfl

/-!
## The queue of references
-/

def references (s : Sim) : Nat -> Option (Word × CacheOperation) := fun i =>
  referenceOf (s.pipeState.slot i).instr (s.memAddresses.get i)

theorem referenceOf_of_operation?_eq_none {instr : Word} (h : operation? instr = none)
    (address : Word) : referenceOf instr address = none := by
  unfold referenceOf
  rw [h]

theorem Moved.reference {m : Nat} {slot : Slot} {address : Word} {s s' : Sim}
    (h : Moved m slot address s s') {i : Nat} (hi : i ≤ 3) :
    references s' i =
      Conveyor.advance m (referenceOf slot.instr address) (references s) i := by
  unfold references
  rw [h.slots i (by lia), h.addresses i hi]
  unfold Conveyor.advance
  split
  · rfl
  · split
    · rfl
    · rfl

/-- The reference that enters MEM was the first of the queue, and a reference that
enters the pipeline becomes the last. -/
theorem Moved.queue {m : Nat} {slot : Slot} {address : Word} {s s' : Sim}
    (h : Moved m slot address s s') (hm : m ≤ 3)
    (hinput : 0 < m -> referenceOf slot.instr address = none) :
    (memReference s').toList ++ Conveyor.contents 3 (references s') =
      Conveyor.contents 3 (references s) ++ (referenceOf slot.instr address).toList := by
  rw [← Conveyor.contents_succ_advance hm hinput (references s)]
  exact Conveyor.contents_congr (n := 4) fun i hi => h.reference (Nat.le_of_lt_succ hi)

theorem Moved.queue_of_freeze {slot : Slot} {address : Word} {s s' : Sim}
    (h : Moved 4 slot address s s') :
    Conveyor.contents 3 (references s') = Conveyor.contents 3 (references s) := by
  apply Conveyor.contents_congr
  intro i hi
  rw [h.reference (by lia)]
  exact Conveyor.advance_of_lt _ _ (by lia)

theorem memReference_stallStep_of_freeze {s : Sim} (hdMiss : s.dMiss ≠ 0#32) :
    memReference (stallStep s) = memReference s := by
  have hpos : 0#32 < s.dMiss := by
    by_contra hnot
    exact hdMiss (word_eq_zero_of_not_pos hnot)
  have hmoved := stallStep_moved (s := s) (Or.inr (Or.inl hpos))
  rw [stallStage_of_freeze hdMiss] at hmoved
  change references (stallStep s) 3 = references s 3
  rw [hmoved.reference (Nat.le_refl 3)]
  exact Conveyor.advance_of_lt _ _ (by decide)

/-!
## Steps that probe in turn
-/

/-- A counter other than `dMiss` is positive after the next stall cycle too. -/
def KeepsStalling (s : Sim) : Prop :=
  1#32 < s.iMiss ∨ 1#32 < s.dStall ∨ 1#32 < s.xStall

instance (s : Sim) : Decidable (KeepsStalling s) := by
  unfold KeepsStalling
  infer_instance

theorem stallsOn_shuffled (s : Sim) : StallsOn (shuffled s) <-> KeepsStalling s := by
  rw [stallsOn_iff]
  unfold KeepsStalling
  simp only [shuffled_iMiss, shuffled_dStall, shuffled_xStall, toNat_countDown,
    BitVec.lt_def, BitVec.toNat_ofNat, Nat.reducePow, Nat.reduceMod]
  lia

/-- The coming step loses no probe: an exception bubble or a trap finds no reference in EX,
and a stall cycle that moves one into MEM is not the last one. -/
structure KeepsProbes (s : Sim) : Prop where
  except : 0#32 < s.except -> operation? s.pipeState.exInstr.instr = none
  stall : s.except = 0#32 -> Stalled s -> s.dMiss = 0#32 ->
    operation? s.pipeState.exInstr.instr ≠ none -> KeepsStalling s
  trap : s.except = 0#32 -> ¬ Stalled s -> (nextInfo s).completes = false ->
    operation? s.pipeState.exInstr.instr = none

instance (s : Sim) : Decidable (KeepsProbes s) :=
  decidable_of_iff
    ((0#32 < s.except -> operation? s.pipeState.exInstr.instr = none) ∧
      (s.except = 0#32 -> Stalled s -> s.dMiss = 0#32 ->
        operation? s.pipeState.exInstr.instr ≠ none -> KeepsStalling s) ∧
      (s.except = 0#32 -> ¬ Stalled s -> (nextInfo s).completes = false ->
        operation? s.pipeState.exInstr.instr = none))
    ⟨fun h => ⟨h.1, h.2.1, h.2.2⟩, fun h => ⟨h.except, h.stall, h.trap⟩⟩

/-- The coming step presents the reference that enters MEM to the cache, and no other: no
probe is lost, a frozen cycle does not repeat one, no address equals the mark of an
entry without address, and the halt word finds no reference in IF and ID. -/
structure ProbesInTurn (s : Sim) : Prop extends KeepsProbes s where
  freeze : s.except = 0#32 -> s.dMiss ≠ 0#32 ->
    operation? s.pipeState.memInstr.instr ≠ none -> ¬ KeepsStalling s
  address : s.except = 0#32 -> ¬ Stalled s ->
    operation? (nextInfo s).instruction ≠ none -> bufferedAddress (nextInfo s) ≠ noAddress
  halt : s.except = 0#32 -> ¬ Stalled s -> (nextInfo s).isHalt = true ->
    operation? s.pipeState.ifInstr.instr = none ∧
      operation? s.pipeState.idInstr.instr = none

instance (s : Sim) : Decidable (ProbesInTurn s) :=
  decidable_of_iff
    (KeepsProbes s ∧
      (s.except = 0#32 -> s.dMiss ≠ 0#32 ->
        operation? s.pipeState.memInstr.instr ≠ none -> ¬ KeepsStalling s) ∧
      (s.except = 0#32 -> ¬ Stalled s -> operation? (nextInfo s).instruction ≠ none ->
        bufferedAddress (nextInfo s) ≠ noAddress) ∧
      (s.except = 0#32 -> ¬ Stalled s -> (nextInfo s).isHalt = true ->
        operation? s.pipeState.ifInstr.instr = none ∧
          operation? s.pipeState.idInstr.instr = none))
    ⟨fun h => ⟨h.1, h.2.1, h.2.2.1, h.2.2.2⟩,
      fun h => ⟨h.toKeepsProbes, h.freeze, h.address, h.halt⟩⟩

/-- The invariant: the references executed so far are those the cache has seen,
followed by those in the pipeline in front of MEM. -/
def InTurn (s : Sim) : Prop :=
  s.log.dAccesses ++ Conveyor.contents 3 (references s) =
    s.log.infos.filterMap dataReference

theorem InTurn.moved {m : Nat} {slot : Slot} {address : Word} {s s' : Sim}
    (h : InTurn s) (more : List InstructionInfo) (hmoved : Moved m slot address s s')
    (hm : m ≤ 3) (hinput : 0 < m -> referenceOf slot.instr address = none)
    (hprobe : s'.log.dAccesses = s.log.dAccesses ++ (memReference s').toList)
    (hinfos : s'.log.infos = s.log.infos ++ more)
    (hmore : more.filterMap dataReference = (referenceOf slot.instr address).toList) :
    InTurn s' := by
  unfold InTurn at h ⊢
  rw [hprobe, hinfos, List.filterMap_append, hmore, ← h, List.append_assoc,
    hmoved.queue hm hinput, List.append_assoc]

theorem memReference_of_moved {m : Nat} {slot : Slot} {address : Word} {s s' : Sim}
    (h : Moved m slot address s s') (hm : m ≤ 2)
    (hex : operation? s.pipeState.exInstr.instr = none) : memReference s' = none := by
  have hmem := h.reference (i := 3) (Nat.le_refl 3)
  rw [Conveyor.advance_succ _ _ hm] at hmem
  exact hmem.trans (referenceOf_of_operation?_eq_none hex _)

theorem fetchPath_dAccesses (s : Sim) :
    (fetchPath s).log.dAccesses = s.log.dAccesses ++ (memReference (fetchPath s)).toList := by
  have hframe := probeData_frame (fetched s)
  rw [fetchPath_eq]
  dsimp only [detectHazards, memReference]
  rw [probeData_dAccesses, hframe.pipeState, hframe.memAddresses]
  rfl

theorem stallStep_dAccesses (s : Sim) :
    (stallStep s).log.dAccesses =
      s.log.dAccesses ++
        if KeepsStalling s then (memReference (stallStep s)).toList else [] := by
  rw [← memReference_shuffled]
  dsimp only [stallStep, finishCycle, dump]
  rw [stallPath_eq]
  by_cases hkeeps : KeepsStalling s
  · rw [if_pos hkeeps, if_pos ((stallsOn_shuffled s).mpr hkeeps), probeData_dAccesses,
      shuffled_log]
  · rw [if_neg hkeeps, if_neg fun h => hkeeps ((stallsOn_shuffled s).mp h), shuffled_log,
      List.append_nil]

theorem filterMap_nextInfo {s : Sim} (hcompletes : (nextInfo s).completes = true)
    (haddress : operation? (nextInfo s).instruction ≠ none ->
      bufferedAddress (nextInfo s) ≠ noAddress) (execution : Nat) :
    [nextInfo s].filterMap dataReference =
      (referenceOf (slotOf (nextInfo s) execution).instr
        (bufferedAddress (nextInfo s))).toList := by
  rw [List.filterMap_cons, dataReference_nextInfo hcompletes]
  change _ = (referenceOf (nextInfo s).instruction (bufferedAddress (nextInfo s))).toList
  unfold referenceOf
  cases hop : operation? (nextInfo s).instruction with
  | none =>
      rfl
  | some operation =>
      have hne := haddress (by rw [hop]; exact Option.some_ne_none _)
      dsimp only [Option.map]
      rw [if_neg hne]
      rfl

theorem InTurn.finishCycle {s : Sim} (h : InTurn s) : InTurn (finishCycle s) := h

theorem InTurn.fetchPath {s : Sim} (h : InTurn s) (hturn : ProbesInTurn s)
    (hfetch : Fetches s) (hcompletes : (nextInfo s).completes = true) :
    InTurn (fetchPath s) := by
  refine h.moved [nextInfo s] (fetchPath_moved s) (Nat.zero_le 3) ?_ (fetchPath_dAccesses s)
    (fetchPath_infos s)
    (filterMap_nextInfo hcompletes (hturn.address hfetch.except hfetch.notStalled) _)
  intro hpos
  cases hpos

theorem InTurn.step {s s' : Sim} (h : InTurn s) (hturn : ProbesInTurn s)
    (hstep : Step s false s') : InTurn s' := by
  cases hstep with
  | except hexcept =>
      refine h.moved [] (exceptStep_moved s) (Nat.zero_le 3)
        (fun _ => rfl) ?_ (List.append_nil _).symm rfl
      rw [memReference_of_moved (exceptStep_moved s) (Nat.zero_le 2) (hturn.except hexcept),
        exceptStep_dAccesses]
      exact (List.append_nil _).symm
  | stall hexcept hstalled =>
      have hmoved := stallStep_moved hstalled
      by_cases hdMiss : s.dMiss = 0#32
      · have hstage : stallStage s ≤ 2 := by
          unfold stallStage
          rw [if_neg (not_not_intro hdMiss)]
          split
          · exact Nat.le_refl 2
          · exact Nat.le_succ 1
        refine h.moved [] hmoved (Nat.le_succ_of_le hstage)
          (fun _ => rfl) ?_ ?_ rfl
        · rw [stallStep_dAccesses]
          by_cases hex : operation? s.pipeState.exInstr.instr = none
          · rw [memReference_of_moved hmoved hstage hex]
            split
            · rfl
            · rfl
          · rw [if_pos (hturn.stall hexcept hstalled hdMiss hex)]
        · rw [stallStep_infos, List.append_nil]
      · rw [stallStage_of_freeze hdMiss] at hmoved
        have hmem := memReference_stallStep_of_freeze hdMiss
        have hprobe : (stallStep s).log.dAccesses = s.log.dAccesses := by
          rw [stallStep_dAccesses, hmem]
          by_cases hop : operation? s.pipeState.memInstr.instr = none
          · have hnone : memReference s = none := referenceOf_of_operation?_eq_none hop _
            rw [hnone]
            split
            · exact List.append_nil _
            · exact List.append_nil _
          · rw [if_neg (hturn.freeze hexcept hdMiss hop), List.append_nil]
        unfold InTurn at h ⊢
        rw [hprobe, hmoved.queue_of_freeze, stallStep_infos, h]
  | trap hfetch htrap =>
      refine h.moved [nextInfo s] (trapStep_moved s) (Nat.zero_le 3)
        (fun _ => rfl) ?_ rfl ?_
      · rw [memReference_of_moved (trapStep_moved s) (Nat.zero_le 2)
          (hturn.trap hfetch.except hfetch.notStalled htrap), trapStep_dAccesses]
        exact (List.append_nil _).symm
      · rw [List.filterMap_cons, dataReference_of_not_completes htrap]
        rfl
  | fetch hfetch hcompletes _ =>
      exact (h.fetchPath hturn hfetch hcompletes).finishCycle

/-!
## Whole runs
-/

theorem haltDrain_dAccesses (s : Sim) :
    (haltDrain s).log.dAccesses = s.log.dAccesses := by
  unfold haltDrain
  apply forLoop_induction
    (fun (_ : Nat) (t : Sim) => t.log.dAccesses = s.log.dAccesses)
  · rfl
  · intro _ t _ ht
    exact ht

/-- The drain behind the halt word does not probe, which is right when no reference is
left in front of MEM. -/
theorem InTurn.haltStep {s : Sim} (h : InTurn s) (hturn : ProbesInTurn s)
    (hfetch : Fetches s) (hhalt : (nextInfo s).isHalt = true) :
    (haltStep s).log.dAccesses = (haltStep s).log.infos.filterMap dataReference := by
  have hfetched := h.fetchPath hturn hfetch (completes_of_isHalt hhalt)
  rcases hturn.halt hfetch.except hfetch.notStalled hhalt with ⟨hif, hid⟩
  have hword : operation? (nextInfo s).instruction = none := by
    have hw : s.emulator.fetchedWord = haltWord := by
      unfold nextInfo at hhalt
      simpa using hhalt
    unfold nextInfo
    rw [Emulator.executeInstruction_instruction, hw]
    decide
  have hqueue : Conveyor.contents 3 (references (Cycle.fetchPath s)) = [] := by
    apply Conveyor.contents_eq_nil
    intro i hi
    rw [(fetchPath_moved s).reference (by lia)]
    cases i with
    | zero =>
        exact referenceOf_of_operation?_eq_none hword _
    | succ i =>
        cases i with
        | zero =>
            exact referenceOf_of_operation?_eq_none hif _
        | succ i =>
            cases i with
            | zero =>
                exact referenceOf_of_operation?_eq_none hid _
            | succ i =>
                lia
  unfold InTurn at hfetched
  rw [hqueue, List.append_nil] at hfetched
  unfold Cycle.haltStep
  rw [finishCycle_dAccesses, finishCycle_infos, haltDrain_dAccesses, haltDrain_infos, hfetched]

theorem inTurn_initSimulator (ic dc : CacheConfig) (mem : MemoryStore) :
    InTurn (initSimulator ic dc mem) := rfl

theorem inTurn_of_reaches {ic dc : CacheConfig} {mem : MemoryStore} {k : Nat} {s : Sim}
    (h : machine.Reaches k (initSimulator ic dc mem) s)
    (hturn : forall j t, machine.Reaches j (initSimulator ic dc mem) t -> ProbesInTurn t) :
    InTurn s := by
  apply Machine.Reaches.invariant_of_forall (C := ProbesInTurn)
    (fun s t hs hC hstep => InTurn.step hs hC (step_of_machine hstep))
    (inTurn_initSimulator ic dc mem) h
  intro j t _ hreach
  exact hturn j t hreach

end Cycle

/-- In a halting run all of whose steps probe in turn, the data cache sees the references
of the executed loads and stores, each of them once and in execution order. -/
theorem data_references_in_turn (image : MemImage) (ic dc : ValidConfig)
    {fuel : Nat} {s : Cycle.Sim}
    (h : Cycle.runTillHalt fuel
      (Cycle.initSimulator ic.toCacheConfig dc.toCacheConfig
        (MemoryStore.ofImage image)) = some (.halt, s))
    (hturn : forall k t,
      Cycle.machine.Reaches k
        (Cycle.initSimulator ic.toCacheConfig dc.toCacheConfig
          (MemoryStore.ofImage image)) t -> Cycle.ProbesInTurn t) :
    s.log.dAccesses = s.log.infos.filterMap Cycle.dataReference := by
  rcases Cycle.exists_haltStep_of_runTillHalt h with ⟨k, u, hreach, hfetch, hhalt, rfl⟩
  exact (Cycle.inTurn_of_reaches hreach hturn).haltStep (hturn k u hreach) hfetch hhalt

/-- `lw $1, 0($0); sw $1, 4($0); nop; nop` and the halt word. -/
def loadStoreProgram : List Word :=
  [0x8c010000#32, 0xac010004#32, 0x00000000#32, 0x00000000#32, haltWord]

theorem data_references_in_turn_load_store :
    exists fuel s,
      Cycle.runTillHalt fuel
          (Cycle.initSimulator (ValidConfig.oneBlock 0#32).toCacheConfig
            (ValidConfig.oneBlock 2#32).toCacheConfig
            (MemoryStore.ofImage (MemImage.ofWords loadStoreProgram))) =
          some (.halt, s) ∧
        s.log.dAccesses = s.log.infos.filterMap Cycle.dataReference := by
  have hrun : Cycle.HaltsAfter 7
      (Cycle.initSimulator (ValidConfig.oneBlock 0#32).toCacheConfig
        (ValidConfig.oneBlock 2#32).toCacheConfig
        (MemoryStore.ofImage (MemImage.ofWords loadStoreProgram))) _ :=
    Machine.finishesIn_after (by decide +kernel) (by decide +kernel)
  rcases Cycle.haltsAfter_iff_runTillHalt.mp ⟨_, hrun⟩ with ⟨fuel, hfuel⟩
  exact ⟨fuel, _, hfuel, data_references_in_turn _ (ValidConfig.oneBlock 0#32)
    (ValidConfig.oneBlock 2#32) hfuel (hrun.forall_reaches (by decide +kernel))⟩

/-- A load two instructions in front of the halt word is not presented to the cache. -/
theorem load_before_halt_not_probed :
    exists (image : MemImage) (ic dc : ValidConfig) (fuel : Nat) (s : Cycle.Sim),
      Cycle.runTillHalt fuel
          (Cycle.initSimulator ic.toCacheConfig dc.toCacheConfig
            (MemoryStore.ofImage image)) = some (.halt, s) ∧
        s.log.dAccesses ≠ s.log.infos.filterMap Cycle.dataReference := by
  have hrun := Cycle.exists_runTillHalt_after (n := 1)
    (s := Cycle.initSimulator (ValidConfig.oneBlock 0#32).toCacheConfig
      (ValidConfig.oneBlock 0#32).toCacheConfig
      (MemoryStore.ofImage (MemImage.ofWords [0x8c010000#32, haltWord])))
    (by decide) (by decide)
  rcases hrun with ⟨fuel, hrun⟩
  exact ⟨_, _, _, fuel, _, hrun, by decide⟩

end PipeSim
