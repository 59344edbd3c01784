import PipeSim.Cycle.Granularity
import PipeSim.Cycle.References
import PipeSim.Machine.Fields

/-!
# The address buffer is aligned with the pipeline

The words in the pipeline and the addresses in the buffer are moved by separate code.  Seen
as two belts that make the same moves they stay aligned: next to a load or store stands the
effective address of its execution, in every stage up to MEM, and the data cache is only
presented with pairs of that kind.
-/

namespace PipeSim

open Library

namespace Emulator

def after (e : Emulator) (n : Nat) : Emulator := (fun e => e.executeInstruction.2)^[n] e

theorem after_succ (e : Emulator) (n : Nat) :
    e.after (n + 1) = (e.after n).executeInstruction.2 :=
  Function.iterate_succ_apply' _ n e

/-- The address that a load or store at the program counter accesses: the contents of its
base register and its sign-extended immediate. -/
def effectiveAddress (e : Emulator) : Word :=
  e.operand (rsOf e.fetchedWord) + signExt (immOf e.fetchedWord)

theorem executeInstruction_loadAddress {e : Emulator} {op : OpId}
    (hop : opOf e.fetchedWord = some op) (hload : op.isLoad = true) :
    e.executeInstruction.1.loadAddress = e.effectiveAddress := by
  rw [executeInstruction_of_op hop]
  unfold execute
  rw [decoded_op, hop]
  cases op with
  | lbu | lhu | lw =>
      dsimp only [load]
      rw [fetch_reg]
      rfl
  | _ =>
      cases hload

theorem executeInstruction_storeAddress {e : Emulator} {op : OpId}
    (hop : opOf e.fetchedWord = some op) (hstore : op.isStore = true) :
    e.executeInstruction.1.storeAddress = e.effectiveAddress := by
  rw [executeInstruction_of_op hop]
  unfold execute
  rw [decoded_op, hop]
  cases op with
  | sb | sh | sw =>
      dsimp only [store]
      rw [fetch_reg]
      rfl
  | _ =>
      cases hstore

end Emulator

namespace Cycle

theorem exists_op_of_isLoad {target : Word} (h : isLoad target = true) :
    exists op, opOf target = some op ∧ op.isLoad = true := by
  rw [isLoad_eq] at h
  exact (Option.any_eq_true _ _).mp h

theorem exists_op_of_isStore {target : Word} (h : isStore target = true) :
    exists op, opOf target = some op ∧ op.isStore = true := by
  rw [isStore_eq] at h
  exact (Option.any_eq_true _ _).mp h

theorem bufferedAddress_nextInfo {s : Sim} (h : operation? (nextInfo s).instruction ≠ none) :
    bufferedAddress (nextInfo s) = s.emulator.effectiveAddress := by
  have hword : (nextInfo s).instruction = s.emulator.fetchedWord :=
    Emulator.executeInstruction_instruction _
  unfold operation? at h
  unfold bufferedAddress
  rw [hword] at h ⊢
  cases hload : isLoad s.emulator.fetchedWord with
  | true =>
      rcases exists_op_of_isLoad hload with ⟨op, hop, hisLoad⟩
      exact Emulator.executeInstruction_loadAddress hop hisLoad
  | false =>
      cases hstore : isStore s.emulator.fetchedWord with
      | true =>
          rcases exists_op_of_isStore hstore with ⟨op, hop, hisStore⟩
          exact Emulator.executeInstruction_storeAddress hop hisStore
      | false =>
          rw [hload, hstore] at h
          exact absurd rfl h

/-!
## The invariant
-/

/-- The slot holds the instruction that `e₀` executes after `n` others, and `address` is the
effective address of that execution. -/
structure AddressOf (e₀ : Emulator) (n : Nat) (slot : Slot) (address : Word) : Prop where
  tag : slot.tag = some n
  instr : slot.instr = (e₀.after n).fetchedWord
  address : address = (e₀.after n).effectiveAddress

/-- If the slot holds a load or store, it comes from one of the executions `infos` from `e₀`
on, and `address` is the effective address of that execution. -/
def Addressed (e₀ : Emulator) (infos : List InstructionInfo) (slot : Slot) (address : Word) :
    Prop :=
  operation? slot.instr ≠ none -> exists n,
    infos[n]? = some (e₀.after n).executeInstruction.1 ∧ AddressOf e₀ n slot address

structure Aligned (e₀ : Emulator) (s : Sim) : Prop where
  emulator : s.emulator = e₀.after s.log.infos.length
  addressed : forall i, i ≤ 3 ->
    Addressed e₀ s.log.infos (s.pipeState.slot i) (s.memAddresses.get i)

section Aligned

variable {e₀ : Emulator} {infos : List InstructionInfo} {slot : Slot} {address : Word}
  {s s' : Sim}

theorem addressed_bubble : Addressed e₀ infos Slot.bubble address := by
  intro hop
  exact absurd (by decide) hop

theorem Addressed.append (h : Addressed e₀ infos slot address) (more : List InstructionInfo) :
    Addressed e₀ (infos ++ more) slot address := by
  intro hop
  rcases h hop with ⟨n, hinfo, haddress⟩
  have hlt := (List.getElem?_eq_some_iff.mp hinfo).1
  rw [← List.getElem?_append_left hlt] at hinfo
  exact ⟨n, hinfo, haddress⟩

theorem Aligned.fetched (h : Aligned e₀ s) :
    Addressed e₀ (s.log.infos ++ [nextInfo s]) (slotOf (nextInfo s) s.log.infos.length)
      (bufferedAddress (nextInfo s)) := by
  intro hop
  refine ⟨s.log.infos.length, ?_, rfl, ?_, ?_⟩
  · rw [List.getElem?_append_right (Nat.le_refl _), Nat.sub_self, ← h.emulator]
    rfl
  · rw [← h.emulator]
    exact Emulator.executeInstruction_instruction _
  · rw [← h.emulator]
    exact bufferedAddress_nextInfo hop

theorem Aligned.moved {m : Nat} (h : Aligned e₀ s) (more : List InstructionInfo)
    (hmoved : Moved m slot address s s') (hinfos : s'.log.infos = s.log.infos ++ more)
    (hemulator : s'.emulator = e₀.after s'.log.infos.length)
    (hinput : Addressed e₀ (s.log.infos ++ more) slot address) : Aligned e₀ s' := by
  refine ⟨hemulator, ?_⟩
  intro i hi
  rw [hinfos, hmoved.slots i (by lia), hmoved.addresses i hi]
  exact Conveyor.advance_related hinput (fun j hj => (h.addressed j hj).append more) i hi

theorem Aligned.exceptStep (h : Aligned e₀ s) : Aligned e₀ (exceptStep s) :=
  h.moved [] (exceptStep_moved s) (List.append_nil _).symm h.emulator addressed_bubble

theorem Aligned.stallStep (h : Aligned e₀ s) (hstalled : Stalled s) :
    Aligned e₀ (stallStep s) := by
  refine h.moved [] (stallStep_moved hstalled) ?_ ?_ addressed_bubble
  · rw [stallStep_infos, List.append_nil]
  · rw [stallStep_emulator, stallStep_infos]
    exact h.emulator

theorem Aligned.executed (h : Aligned e₀ s) :
    s.emulator.executeInstruction.2 = e₀.after (s.log.infos ++ [nextInfo s]).length := by
  rw [List.length_append, List.length_singleton, Emulator.after_succ, ← h.emulator]

theorem Aligned.trapStep (h : Aligned e₀ s) : Aligned e₀ (trapStep s) :=
  h.moved [nextInfo s] (trapStep_moved s) (trapStep_infos s) h.executed addressed_bubble

theorem Aligned.fetchPath (h : Aligned e₀ s) : Aligned e₀ (fetchPath s) := by
  refine h.moved [nextInfo s] (fetchPath_moved s) (fetchPath_infos s) ?_ h.fetched
  rw [fetchPath_emulator, fetchPath_infos]
  exact h.executed

theorem Aligned.drainStep (h : Aligned e₀ s) : Aligned e₀ (drainStep s) :=
  h.moved [] (drainStep_moved s) (List.append_nil _).symm h.emulator addressed_bubble

theorem Aligned.haltDrain (h : Aligned e₀ s) : Aligned e₀ (haltDrain s) := by
  unfold Cycle.haltDrain
  apply forLoop_induction (fun (_ : Nat) (t : Sim) => Aligned e₀ t)
  · exact h
  · intro _ t _ ht
    exact ht.drainStep

theorem Aligned.finishCycle (h : Aligned e₀ s) : Aligned e₀ (finishCycle s) :=
  ⟨h.emulator, h.addressed⟩

theorem Aligned.step {finished : Bool} (h : Aligned e₀ s) (hstep : Step s finished s') :
    Aligned e₀ s' := by
  cases hstep with
  | except _ =>
      exact h.exceptStep
  | stall _ hstalled =>
      exact h.stallStep hstalled
  | trap _ _ =>
      exact h.trapStep
  | fetch _ _ _ =>
      exact h.fetchPath.finishCycle
  | halt _ _ =>
      exact h.fetchPath.haltDrain.finishCycle

theorem step_cycleBody (s : Sim) :
    Step s (decide ((cycleBody s).1 = .halt)) (finishCycle (cycleBody s).2) := by
  apply step_of_machine
  rfl

theorem Aligned.cycleBody (h : Aligned e₀ s) : Aligned e₀ (cycleBody s).2 := by
  have hstep := h.step (step_cycleBody s)
  exact ⟨hstep.emulator, hstep.addressed⟩

end Aligned

/-!
## Accesses by slot
-/

/-- An access to the data cache, with the slot in MEM that it is made for. -/
structure DataAccess where
  slot : Slot
  address : Word
  operation : CacheOperation

def DataAccess.reference (a : DataAccess) : Word × CacheOperation := (a.address, a.operation)

def probeAccess (s : Sim) : List DataAccess :=
  (memReference s).toList.map fun r =>
    { slot := s.pipeState.memInstr, address := r.1, operation := r.2 }

def bodyAccesses (s : Sim) : List DataAccess :=
  if 0#32 < s.except then []
  else if Stalled s then
    if StallsOn (shuffled s) then probeAccess (shuffled s) else []
  else if (nextInfo s).completes then probeAccess (fetched s)
  else []

def loopAccesses (cycles : Word) : Nat -> Word -> Sim -> List DataAccess
  | 0, _, _ => []
  | fuel + 1, count, s =>
      if cycles = 0#32 ∨ count < cycles then
        match cycleBody s with
        | (.halt, _) => bodyAccesses s
        | (_, s') => bodyAccesses s ++ loopAccesses cycles fuel (count + 1#32) s'
      else []

/-- Calls of `runCycles` lead from `s₀` to `s` and make these accesses to the data cache. -/
inductive Calls (s₀ : Sim) : List DataAccess -> Sim -> Prop where
  | start : Calls s₀ [] s₀
  | call {accesses : List DataAccess} {s : Sim} {fuel : Nat} {cycles : Word}
      {r : Status × Sim} : Calls s₀ accesses s -> runCycles fuel cycles s = some r ->
      Calls s₀ (accesses ++ loopAccesses cycles fuel 0#32 s) r.2

theorem probeData_accesses (s : Sim) :
    (probeData s).log.dAccesses =
      s.log.dAccesses ++ (probeAccess s).map DataAccess.reference := by
  rw [probeData_dAccesses]
  unfold probeAccess
  cases memReference s with
  | none =>
      rfl
  | some r =>
      rfl

section Accesses

variable {e₀ : Emulator} {s s' : Sim} {a : DataAccess}

theorem probeAccess_congr (hpipe : s'.pipeState = s.pipeState)
    (hbuffer : s'.memAddresses = s.memAddresses) : probeAccess s' = probeAccess s := by
  unfold probeAccess
  rw [memReference_congr hpipe hbuffer, hpipe]

theorem probeAccess_finishCycle (s : Sim) : probeAccess (finishCycle s) = probeAccess s := rfl

theorem probeAccess_stallStep (s : Sim) :
    probeAccess (stallStep s) = probeAccess (shuffled s) := by
  have hframe := stallPath_frame s
  unfold stallStep
  rw [probeAccess_finishCycle]
  exact probeAccess_congr hframe.pipeState hframe.memAddresses

theorem probeAccess_fetchPath (s : Sim) :
    probeAccess (fetchPath s) = probeAccess (fetched s) := by
  have hframe := probeData_frame (fetched s)
  rw [fetchPath_eq]
  dsimp only [detectHazards, probeAccess, memReference]
  rw [hframe.pipeState, hframe.memAddresses]

theorem not_except_pos (h : s.except = 0#32) : ¬ 0#32 < s.except := by
  rw [h]
  decide

theorem bodyAccesses_of_stall (hexcept : s.except = 0#32) (hstalled : Stalled s) :
    bodyAccesses s = if StallsOn (shuffled s) then probeAccess (shuffled s) else [] := by
  unfold bodyAccesses
  rw [if_neg (not_except_pos hexcept), if_pos hstalled]

theorem bodyAccesses_of_trap (hfetch : Fetches s) (htrap : (nextInfo s).completes = false) :
    bodyAccesses s = [] := by
  unfold bodyAccesses
  rw [if_neg (not_except_pos hfetch.except), if_neg hfetch.notStalled, htrap]
  rfl

theorem bodyAccesses_of_fetch (hfetch : Fetches s) (hcompletes : (nextInfo s).completes = true) :
    bodyAccesses s = probeAccess (fetched s) := by
  unfold bodyAccesses
  rw [if_neg (not_except_pos hfetch.except), if_neg hfetch.notStalled, if_pos hcompletes]

theorem fetchPath_accesses (s : Sim) :
    (fetchPath s).log.dAccesses =
      s.log.dAccesses ++ (probeAccess (fetched s)).map DataAccess.reference :=
  probeData_accesses (fetched s)

theorem step_dAccesses {finished : Bool} (h : Step s finished s') :
    s'.log.dAccesses = s.log.dAccesses ++ (bodyAccesses s).map DataAccess.reference := by
  cases h with
  | except hexcept =>
      unfold bodyAccesses
      rw [if_pos hexcept]
      exact (List.append_nil _).symm
  | stall hexcept hstalled =>
      rw [bodyAccesses_of_stall hexcept hstalled]
      dsimp only [stallStep, finishCycle, dump]
      rw [stallPath_eq]
      split
      · rw [probeData_accesses, shuffled_log]
      · rw [shuffled_log]
        exact (List.append_nil _).symm
  | trap hfetch htrap =>
      rw [bodyAccesses_of_trap hfetch htrap]
      exact (List.append_nil _).symm
  | fetch hfetch hcompletes _ =>
      rw [bodyAccesses_of_fetch hfetch hcompletes]
      exact fetchPath_accesses s
  | halt hfetch hhalt =>
      rw [bodyAccesses_of_fetch hfetch (completes_of_isHalt hhalt)]
      unfold haltStep
      rw [finishCycle_dAccesses, haltDrain_dAccesses]
      exact fetchPath_accesses s

/-- The access is made for a load or store, at its own effective address. -/
structure ForMemory (e₀ : Emulator) (a : DataAccess) : Prop where
  operation : operation? a.slot.instr = some a.operation
  address : exists n, AddressOf e₀ n a.slot a.address

theorem Aligned.probeAccess (h : Aligned e₀ s) (ha : a ∈ probeAccess s) : ForMemory e₀ a := by
  unfold Cycle.probeAccess memReference referenceOf at ha
  cases hop : operation? s.pipeState.memInstr.instr with
  | none =>
      rw [hop] at ha
      cases ha
  | some operation =>
      rw [hop] at ha
      dsimp only at ha
      split at ha
      · cases ha
      · have heq := List.mem_singleton.mp ha
        subst heq
        rcases h.addressed 3 (Nat.le_refl 3) (by rw [PipeState.slot, hop]; simp) with
          ⟨n, _, haddress⟩
        exact ⟨hop, n, haddress⟩

theorem Aligned.bodyAccesses (h : Aligned e₀ s) (ha : a ∈ bodyAccesses s) : ForMemory e₀ a := by
  unfold Cycle.bodyAccesses at ha
  split at ha
  · cases ha
  · split at ha
    · rename_i hstalled
      split at ha
      · rw [← probeAccess_stallStep] at ha
        exact (h.stallStep hstalled).probeAccess ha
      · cases ha
    · split at ha
      · rw [← probeAccess_fetchPath] at ha
        exact h.fetchPath.probeAccess ha
      · cases ha

end Accesses

/-!
## Whole runs
-/

section Runs

variable {e₀ : Emulator} {s t : Sim} {accesses : List DataAccess}

structure InOrder (e₀ : Emulator) (accesses : List DataAccess) (s : Sim) : Prop
    extends Aligned e₀ s where
  logged : s.log.dAccesses = accesses.map DataAccess.reference
  forMemory : forall a, a ∈ accesses -> ForMemory e₀ a

theorem InOrder.finishCycle (h : InOrder e₀ accesses s) : InOrder e₀ accesses (finishCycle s) :=
  ⟨h.toAligned.finishCycle, h.logged, h.forMemory⟩

theorem InOrder.cycleBody (h : InOrder e₀ accesses s) :
    InOrder e₀ (accesses ++ bodyAccesses s) (cycleBody s).2 where
  toAligned := h.toAligned.cycleBody
  logged := by
    have hlog := step_dAccesses (step_cycleBody s)
    rw [finishCycle_dAccesses] at hlog
    rw [hlog, h.logged, List.map_append]
  forMemory := by
    intro a ha
    rcases List.mem_append.mp ha with hold | hnew
    · exact h.forMemory a hold
    · exact h.toAligned.bodyAccesses hnew

theorem InOrder.runCyclesLoop {cycles count : Word} {fuel : Nat} {r : Status × Sim}
    (h : InOrder e₀ accesses s) (hrun : runCyclesLoop cycles fuel count s = some r) :
    InOrder e₀ (accesses ++ loopAccesses cycles fuel count s) r.2 := by
  induction fuel generalizing accesses count s with
  | zero =>
      cases hrun
  | succ fuel ih =>
      have hbody := h.cycleBody
      rw [Cycle.runCyclesLoop] at hrun
      rw [loopAccesses]
      split at hrun
      · rename_i hmore
        rw [if_pos hmore]
        cases hcycle : Cycle.cycleBody s with
        | mk status s' =>
            rw [hcycle] at hrun hbody
            cases status with
            | halt =>
                cases hrun
                exact hbody
            | success | error =>
                have hrest := ih hbody hrun
                rw [List.append_assoc] at hrest
                exact hrest
      · rename_i hdone
        rw [if_neg hdone, List.append_nil]
        cases hrun
        exact h

theorem InOrder.runCycles {cycles : Word} {fuel : Nat} {r : Status × Sim}
    (h : InOrder e₀ accesses s) (hrun : runCycles fuel cycles s = some r) :
    InOrder e₀ (accesses ++ loopAccesses cycles fuel 0#32 s) r.2 := by
  unfold Cycle.runCycles at hrun
  rcases Option.map_eq_some_iff.mp hrun with ⟨r', hloop, rfl⟩
  exact (h.runCyclesLoop hloop).finishCycle

theorem inOrder_initSimulator (ic dc : CacheConfig) (mem : MemoryStore) :
    InOrder (Emulator.init mem) [] (initSimulator ic dc mem) where
  emulator := rfl
  addressed := by
    intro i hi
    interval_cases i <;> exact addressed_bubble
  logged := rfl
  forMemory := by
    intro a ha
    cases ha

theorem inOrder_of_calls {ic dc : CacheConfig} {mem : MemoryStore}
    (h : Calls (initSimulator ic dc mem) accesses s) :
    InOrder (Emulator.init mem) accesses s := by
  induction h with
  | start =>
      exact inOrder_initSimulator ic dc mem
  | call _ hrun ih =>
      exact ih.runCycles hrun

end Runs

end Cycle

/-- In every state that calls of `runCycles` reach, and in every stage up to MEM, the buffer
holds next to a load or store the effective address that its execution computed.  For any
other slot no access to the data cache is made, in whatever run. -/
theorem address_buffer_aligned (ic dc : ValidConfig) (mem : MemoryStore)
    {accesses : List Cycle.DataAccess} {s : Cycle.Sim}
    (h : Cycle.Calls (Cycle.initSimulator ic.toCacheConfig dc.toCacheConfig mem) accesses s)
    {k : Nat} (hk : k ≤ 3) :
    (Cycle.operation? (s.pipeState.slot k).instr ≠ none ->
      exists n, s.log.infos[n]? = some ((Emulator.init mem).after n).executeInstruction.1 ∧
        Cycle.AddressOf (Emulator.init mem) n (s.pipeState.slot k) (s.memAddresses.get k)) ∧
    (Cycle.operation? (s.pipeState.slot k).instr = none ->
      forall accesses' t,
        Cycle.Calls (Cycle.initSimulator ic.toCacheConfig dc.toCacheConfig mem) accesses' t ->
          t.log.dAccesses = accesses'.map Cycle.DataAccess.reference ∧
            forall a, a ∈ accesses' -> a.slot ≠ s.pipeState.slot k) := by
  refine ⟨(Cycle.inOrder_of_calls h).addressed k hk, ?_⟩
  intro hnone accesses' t hcalls
  have hinOrder := Cycle.inOrder_of_calls hcalls
  refine ⟨hinOrder.logged, ?_⟩
  intro a ha heq
  have hoperation := (hinOrder.forMemory a ha).operation
  rw [heq, hnone] at hoperation
  cases hoperation

/-- The load is in EX after three cycles. -/
theorem address_buffer_aligned_load :
    exists accesses s n,
      Cycle.Calls (Cycle.initSimulator (ValidConfig.oneBlock 0#32).toCacheConfig
          (ValidConfig.oneBlock 2#32).toCacheConfig
          (MemoryStore.ofImage (MemImage.ofWords loadStoreProgram))) accesses s ∧
        Cycle.AddressOf (Emulator.init (MemoryStore.ofImage (MemImage.ofWords
          loadStoreProgram))) n (s.pipeState.slot 2) (s.memAddresses.get 2) := by
  have hcalls : Cycle.Calls (Cycle.initSimulator (ValidConfig.oneBlock 0#32).toCacheConfig
      (ValidConfig.oneBlock 2#32).toCacheConfig
      (MemoryStore.ofImage (MemImage.ofWords loadStoreProgram))) _ _ :=
    ((Cycle.Calls.start.call (Cycle.runCycles_one _)).call (Cycle.runCycles_one _)).call
      (Cycle.runCycles_one _)
  have haligned := address_buffer_aligned (ValidConfig.oneBlock 0#32)
    (ValidConfig.oneBlock 2#32) (MemoryStore.ofImage (MemImage.ofWords loadStoreProgram))
    hcalls (k := 2) (by decide)
  rcases haligned.1 (by decide) with ⟨n, _, haddress⟩
  exact ⟨_, _, n, hcalls, haddress⟩

end PipeSim
