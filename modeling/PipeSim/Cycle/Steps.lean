import PipeSim.Cycle.Simulator
import PipeSim.Machine.Execution

/-!
# The paths of one cycle

Every call of `runCycles(1)` is one of five steps.  The steps are functions of
the state before the cycle, and the inversion theorem says under which guard each
is taken.  The rest of the module describes the steps member by member, so that
the invariants of the development never unfold the loop body.
-/

namespace PipeSim

open Library

namespace Cycle

/-!
## The five steps
-/

def exceptStep (s : Sim) : Sim := finishCycle (exceptPath (stampCycle s))

def stallStep (s : Sim) : Sim := finishCycle (stallPath (stampCycle s))

def nextInfo (s : Sim) : InstructionInfo := s.emulator.executeInstruction.1

def trapBubbles (info : InstructionInfo) : Word := if info.isOverflow then 2#32 else 1#32

theorem trapBubbles_pos (info : InstructionInfo) : 0#32 < trapBubbles info := by
  unfold trapBubbles
  split
  · decide
  · decide

def trapStep (s : Sim) : Sim :=
  finishCycle (trapPath (trapBubbles (nextInfo s)) (fetchInstruction (stampCycle s)))

/-- The fetch of an instruction that completes, before the end of the cycle. -/
def fetchPath (s : Sim) : Sim :=
  normalPath (nextInfo s) s.log.infos.length (fetchInstruction (stampCycle s))

def fetchStep (s : Sim) : Sim := finishCycle (fetchPath s)

def haltStep (s : Sim) : Sim := finishCycle (haltDrain (fetchPath s))

/-- A fetch takes place: no exception bubble and no stall is pending. -/
structure Fetches (s : Sim) : Prop where
  except : s.except = 0#32
  notStalled : ¬ Stalled s

/-- The guards of the five steps. -/
inductive Step (s : Sim) : Bool -> Sim -> Prop where
  | except (hexcept : 0#32 < s.except) : Step s false (exceptStep s)
  | stall (hexcept : s.except = 0#32) (hstalled : Stalled s) : Step s false (stallStep s)
  | trap (hfetch : Fetches s) (htrap : (nextInfo s).completes = false) :
      Step s false (trapStep s)
  | fetch (hfetch : Fetches s) (hcompletes : (nextInfo s).completes = true)
      (hhalt : (nextInfo s).isHalt = false) : Step s false (fetchStep s)
  | halt (hfetch : Fetches s) (hhalt : (nextInfo s).isHalt = true) :
      Step s true (haltStep s)

theorem word_pos_iff {w : Word} : 0#32 < w <-> 0 < w.toNat := by
  rw [BitVec.lt_def]
  rfl

theorem word_eq_zero_of_not_pos {w : Word} (h : ¬ 0#32 < w) : w = 0#32 := by
  apply BitVec.eq_of_toNat_eq
  have hle := BitVec.not_lt.mp h
  rw [BitVec.le_def] at hle
  simpa using hle

theorem stalled_stampCycle (s : Sim) : Stalled (stampCycle s) <-> Stalled s :=
  Iff.rfl

/-- One call of `runCycles(1)` is one of the five steps, under its guard. -/
theorem step_of_machine {s s' : Sim} {finished : Bool}
    (h : machine s = (finished, s')) : Step s finished s' := by
  unfold machine cycleBody at h
  dsimp only at h
  split at h
  · rename_i hexcept
    cases h
    exact Step.except hexcept
  · rename_i hexcept
    have hzero : s.except = 0#32 := word_eq_zero_of_not_pos hexcept
    split at h
    · rename_i hstalled
      cases h
      exact Step.stall hzero hstalled
    · rename_i hstalled
      have hfetch : Fetches s := ⟨hzero, hstalled⟩
      split at h
      · rename_i hoverflow
        cases h
        have hbubbles : trapBubbles (nextInfo s) = 2#32 := if_pos hoverflow
        have htrap : (nextInfo s).completes = false := by
          have hover : (nextInfo s).isOverflow = true := hoverflow
          simp [InstructionInfo.completes, hover]
        have hstep := Step.trap hfetch htrap
        unfold trapStep at hstep
        rw [hbubbles] at hstep
        exact hstep
      · rename_i hoverflow
        have hover : (nextInfo s).isOverflow = false :=
          Bool.eq_false_iff.mpr hoverflow
        split at h
        · rename_i hvalid
          cases h
          have hbubbles : trapBubbles (nextInfo s) = 1#32 := if_neg hoverflow
          have htrap : (nextInfo s).completes = false := by
            have hinvalid : (nextInfo s).isValid = false :=
              (Bool.not_eq_true' _).mp hvalid
            simp [InstructionInfo.completes, hinvalid]
          have hstep := Step.trap hfetch htrap
          unfold trapStep at hstep
          rw [hbubbles] at hstep
          exact hstep
        · rename_i hvalid
          have hisValid : (nextInfo s).isValid = true :=
            Bool.eq_true_of_not_eq_false fun hfalse =>
              hvalid ((Bool.not_eq_true' _).mpr hfalse)
          split at h
          · rename_i hhalt
            cases h
            exact Step.halt hfetch hhalt
          · rename_i hhalt
            cases h
            have hcompletes : (nextInfo s).completes = true := by
              simp [InstructionInfo.completes, hisValid, hover]
            exact Step.fetch hfetch hcompletes (Bool.eq_false_iff.mpr hhalt)

/-- The guards exclude each other, so they determine the step. -/
theorem Step.machine_eq {s s' : Sim} {finished : Bool} (h : Step s finished s') :
    machine s = (finished, s') := by
  cases hmachine : machine s with
  | mk finished' t =>
      have h' := step_of_machine hmachine
      have hexclusive : s.except = 0#32 -> ¬ 0#32 < s.except := by
        intro hzero
        rw [hzero]
        decide
      have hcompletes : (nextInfo s).isHalt = true -> (nextInfo s).completes = true :=
        Emulator.executeInstruction_completes_of_halt
      cases h with
      | except hexcept =>
          cases h' with
          | except _ => rfl
          | stall hzero _ => exact absurd hexcept (hexclusive hzero)
          | trap hfetch _ => exact absurd hexcept (hexclusive hfetch.except)
          | fetch hfetch _ _ => exact absurd hexcept (hexclusive hfetch.except)
          | halt hfetch _ => exact absurd hexcept (hexclusive hfetch.except)
      | stall hzero hstalled =>
          cases h' with
          | except hexcept => exact absurd hexcept (hexclusive hzero)
          | stall _ _ => rfl
          | trap hfetch _ => exact absurd hstalled hfetch.notStalled
          | fetch hfetch _ _ => exact absurd hstalled hfetch.notStalled
          | halt hfetch _ => exact absurd hstalled hfetch.notStalled
      | trap hfetch htrap =>
          cases h' with
          | except hexcept => exact absurd hexcept (hexclusive hfetch.except)
          | stall _ hstalled => exact absurd hstalled hfetch.notStalled
          | trap _ _ => rfl
          | fetch _ hdone _ => exact absurd (htrap.symm.trans hdone) Bool.false_ne_true
          | halt _ hhalt =>
              exact absurd (htrap.symm.trans (hcompletes hhalt)) Bool.false_ne_true
      | fetch hfetch hdone hnot =>
          cases h' with
          | except hexcept => exact absurd hexcept (hexclusive hfetch.except)
          | stall _ hstalled => exact absurd hstalled hfetch.notStalled
          | trap _ htrap => exact absurd (htrap.symm.trans hdone) Bool.false_ne_true
          | fetch _ _ _ => rfl
          | halt _ hhalt => exact absurd (hnot.symm.trans hhalt) Bool.false_ne_true
      | halt hfetch hhalt =>
          cases h' with
          | except hexcept => exact absurd hexcept (hexclusive hfetch.except)
          | stall _ hstalled => exact absurd hstalled hfetch.notStalled
          | trap _ htrap =>
              exact absurd (htrap.symm.trans (hcompletes hhalt)) Bool.false_ne_true
          | fetch _ _ hnot => exact absurd (hnot.symm.trans hhalt) Bool.false_ne_true
          | halt _ _ => rfl

theorem Step.halts {s s' : Sim} (h : Step s true s') :
    Fetches s ∧ (nextInfo s).isHalt = true ∧ s' = haltStep s := by
  cases h with
  | halt hfetch hhalt =>
      exact ⟨hfetch, hhalt, rfl⟩

theorem haltsAfter_last {n : Nat} {s₀ s' : Sim} (h : HaltsAfter n s₀ s') :
    exists k s, n = k + 1 ∧ machine.Reaches k s₀ s ∧ Fetches s ∧
      (nextInfo s).isHalt = true ∧ s' = haltStep s := by
  rcases h with ⟨k, s, hn, hreach, hlast⟩
  rcases (step_of_machine hlast).halts with ⟨hfetch, hhalt, heq⟩
  exact ⟨k, s, hn, hreach, hfetch, hhalt, heq⟩

/-- A run of `runTillHalt` ends with the fetch of the halt word. -/
theorem exists_haltStep_of_runTillHalt {fuel : Nat} {s₀ s' : Sim}
    (h : runTillHalt fuel s₀ = some (.halt, s')) :
    exists k s, machine.Reaches k s₀ s ∧ Fetches s ∧ (nextInfo s).isHalt = true ∧
      s' = haltStep s := by
  rcases haltsAfter_iff_runTillHalt.mpr ⟨fuel, h⟩ with ⟨n, hrun⟩
  rcases haltsAfter_last hrun with ⟨k, s, _, hlast⟩
  exact ⟨k, s, hlast⟩

theorem completes_of_isHalt {s : Sim} (h : (nextInfo s).isHalt = true) :
    (nextInfo s).completes = true :=
  Emulator.executeInstruction_completes_of_halt h

/-!
## Probes

A probe touches the data cache, `dMiss` and the log of data accesses.  At most
one of the two probes of a cycle takes place, because no word is both a load and
a store.
-/

def operation? (target : Word) : Option CacheOperation :=
  if isLoad target then some .read
  else if isStore target then some .write
  else none

structure ProbeFrame (s t : Sim) : Prop where
  emulator : t.emulator = s.emulator
  iCache : t.iCache = s.iCache
  pipeState : t.pipeState = s.pipeState
  cycleCount : t.cycleCount = s.cycleCount
  iMiss : t.iMiss = s.iMiss
  dStall : t.dStall = s.dStall
  xStall : t.xStall = s.xStall
  except : t.except = s.except
  memAddresses : t.memAddresses = s.memAddresses
  infos : t.log.infos = s.log.infos
  iAccesses : t.log.iAccesses = s.log.iAccesses
  lines : t.log.lines = s.log.lines

theorem ProbeFrame.refl (s : Sim) : ProbeFrame s s :=
  ⟨rfl, rfl, rfl, rfl, rfl, rfl, rfl, rfl, rfl, rfl, rfl, rfl⟩

theorem accessData_frame (address : Word) (operation : CacheOperation) (s : Sim) :
    ProbeFrame s (accessData address operation s) :=
  ⟨rfl, rfl, rfl, rfl, rfl, rfl, rfl, rfl, rfl, rfl, rfl, rfl⟩

theorem opcode_of_isLoad {target : Word} (h : isLoad target = true) :
    opcode target = OpId.lbu.code ∨ opcode target = OpId.lhu.code ∨
      opcode target = OpId.lw.code := by
  unfold isLoad at h
  simp only [Bool.and_eq_true, Bool.or_eq_true, beq_iff_eq] at h
  exact or_assoc.mp h.2

theorem not_isStore_of_isLoad {target : Word} (h : isLoad target = true) :
    isStore target = false := by
  unfold isStore
  rcases opcode_of_isLoad h with hop | hop | hop
  · simp [hop, OpId.code]
  · simp [hop, OpId.code]
  · simp [hop, OpId.code]

theorem probeData_eq (s : Sim) :
    probeData s =
      match operation? s.pipeState.memInstr.instr with
      | some operation =>
          if s.memAddresses.a3 = noAddress then s
          else accessData s.memAddresses.a3 operation s
      | none => s := by
  unfold probeData probeStore probeLoad operation?
  by_cases haddress : s.memAddresses.a3 = noAddress
  · cases isLoad s.pipeState.memInstr.instr <;>
      cases isStore s.pipeState.memInstr.instr <;>
      simp [haddress]
  · cases hload : isLoad s.pipeState.memInstr.instr with
    | true =>
        have hstore := not_isStore_of_isLoad hload
        simp [haddress, hstore, accessData]
    | false =>
        cases hstore : isStore s.pipeState.memInstr.instr <;>
          simp [haddress, hstore]

theorem probeData_frame (s : Sim) : ProbeFrame s (probeData s) := by
  rw [probeData_eq]
  cases operation? s.pipeState.memInstr.instr with
  | none =>
      exact ProbeFrame.refl s
  | some operation =>
      dsimp only
      split
      · exact ProbeFrame.refl s
      · exact accessData_frame _ operation s

/-!
## The stall step
-/

structure ShuffleFrame (s t : Sim) : Prop where
  emulator : t.emulator = s.emulator
  iCache : t.iCache = s.iCache
  dCache : t.dCache = s.dCache
  cycleCount : t.cycleCount = s.cycleCount
  iMiss : t.iMiss = s.iMiss
  dMiss : t.dMiss = s.dMiss
  dStall : t.dStall = s.dStall
  xStall : t.xStall = s.xStall
  except : t.except = s.except
  log : t.log = s.log

/-- The three shuffles of the stall path, under the counters that select them. -/
inductive Shuffle (s : Sim) : Sim -> Prop where
  | freeze (hdMiss : s.dMiss ≠ 0#32) : Shuffle s (freeze s)
  | bubbleEx (hdMiss : s.dMiss = 0#32) (hxStall : 0#32 < s.xStall) :
      Shuffle s (bubbleEx s)
  | bubbleId (hdMiss : s.dMiss = 0#32) (hxStall : s.xStall = 0#32) :
      Shuffle s (bubbleId s)

theorem shuffle_cases {s : Sim} (h : Stalled s) : Shuffle s (shuffle s) := by
  unfold shuffle
  by_cases hdMiss : s.dMiss = 0#32
  · rw [if_pos hdMiss]
    by_cases hxStall : 0#32 < s.xStall
    · rw [if_pos hxStall]
      exact Shuffle.bubbleEx hdMiss hxStall
    · rw [if_neg hxStall]
      have hother : 0#32 < s.dStall ∨ 0#32 < s.iMiss := by
        rcases h with hi | hd | hd | hx
        · exact Or.inr hi
        · rw [hdMiss] at hd
          exact absurd hd (by decide)
        · exact Or.inl hd
        · exact absurd hx hxStall
      rw [if_pos hother]
      exact Shuffle.bubbleId hdMiss (word_eq_zero_of_not_pos hxStall)
  · rw [if_neg hdMiss]
    exact Shuffle.freeze hdMiss

theorem shuffle_frame (s : Sim) : ShuffleFrame s (shuffle s) := by
  unfold shuffle
  split
  · split
    · exact ⟨rfl, rfl, rfl, rfl, rfl, rfl, rfl, rfl, rfl, rfl⟩
    · split
      · exact ⟨rfl, rfl, rfl, rfl, rfl, rfl, rfl, rfl, rfl, rfl⟩
      · exact ⟨rfl, rfl, rfl, rfl, rfl, rfl, rfl, rfl, rfl, rfl⟩
  · exact ⟨rfl, rfl, rfl, rfl, rfl, rfl, rfl, rfl, rfl, rfl⟩

theorem toNat_countDown (counter : Word) :
    (countDown counter).toNat = counter.toNat - 1 := by
  unfold countDown
  split
  · rename_i hpos
    have hone : 1 ≤ counter.toNat := word_pos_iff.mp hpos
    rw [BitVec.toNat_sub_of_le (by rw [BitVec.le_def]; simpa using hone)]
    rfl
  · rename_i hpos
    rw [word_eq_zero_of_not_pos hpos]
    rfl

theorem countDown_zero : countDown 0#32 = 0#32 := rfl

theorem dMiss_pos_of_stalled {s : Sim} (h : Stalled s) (hothers : ¬ StallsOn s) :
    0#32 < s.dMiss := by
  rcases h with hi | hd | hdx
  · exact absurd (Or.inl hi) hothers
  · exact hd
  · exact absurd (Or.inr hdx) hothers

/-- The state of a stall cycle after the counters went down and before the
probe. -/
def shuffled (s : Sim) : Sim := countDownAll (shuffle (stampCycle s))

@[simp] theorem shuffled_iMiss (s : Sim) :
    (shuffled s).iMiss = countDown s.iMiss :=
  congrArg countDown (shuffle_frame (stampCycle s)).iMiss

@[simp] theorem shuffled_dMiss (s : Sim) :
    (shuffled s).dMiss = countDown s.dMiss :=
  congrArg countDown (shuffle_frame (stampCycle s)).dMiss

@[simp] theorem shuffled_dStall (s : Sim) :
    (shuffled s).dStall = countDown s.dStall :=
  congrArg countDown (shuffle_frame (stampCycle s)).dStall

@[simp] theorem shuffled_xStall (s : Sim) :
    (shuffled s).xStall = countDown s.xStall :=
  congrArg countDown (shuffle_frame (stampCycle s)).xStall

@[simp] theorem shuffled_emulator (s : Sim) : (shuffled s).emulator = s.emulator :=
  (shuffle_frame (stampCycle s)).emulator

@[simp] theorem shuffled_except (s : Sim) : (shuffled s).except = s.except :=
  (shuffle_frame (stampCycle s)).except

@[simp] theorem shuffled_dCache (s : Sim) : (shuffled s).dCache = s.dCache :=
  (shuffle_frame (stampCycle s)).dCache

@[simp] theorem shuffled_log (s : Sim) : (shuffled s).log = s.log :=
  (shuffle_frame (stampCycle s)).log

theorem stallPath_eq (s : Sim) :
    stallPath (stampCycle s) =
      if StallsOn (shuffled s) then probeData (shuffled s) else shuffled s := rfl

theorem stallPath_frame (s : Sim) :
    ProbeFrame (shuffled s) (stallPath (stampCycle s)) := by
  rw [stallPath_eq]
  split
  · exact probeData_frame _
  · exact ProbeFrame.refl _

@[simp] theorem stallStep_emulator (s : Sim) : (stallStep s).emulator = s.emulator := by
  dsimp only [stallStep, finishCycle, dump]
  rw [(stallPath_frame s).emulator, shuffled_emulator]

@[simp] theorem stallStep_except (s : Sim) : (stallStep s).except = s.except := by
  dsimp only [stallStep, finishCycle, dump]
  rw [(stallPath_frame s).except, shuffled_except]

@[simp] theorem stallStep_iMiss (s : Sim) : (stallStep s).iMiss = countDown s.iMiss := by
  dsimp only [stallStep, finishCycle, dump]
  rw [(stallPath_frame s).iMiss, shuffled_iMiss]

@[simp] theorem stallStep_dStall (s : Sim) : (stallStep s).dStall = countDown s.dStall := by
  dsimp only [stallStep, finishCycle, dump]
  rw [(stallPath_frame s).dStall, shuffled_dStall]

@[simp] theorem stallStep_xStall (s : Sim) : (stallStep s).xStall = countDown s.xStall := by
  dsimp only [stallStep, finishCycle, dump]
  rw [(stallPath_frame s).xStall, shuffled_xStall]

theorem stallsOn_iff (s : Sim) :
    StallsOn s <-> 0 < s.iMiss.toNat + s.dStall.toNat + s.xStall.toNat := by
  unfold StallsOn
  simp only [word_pos_iff]
  lia

theorem stallStep_dMiss_of_not_stallsOn {s : Sim} (h : ¬ StallsOn s) :
    (stallStep s).dMiss = countDown s.dMiss := by
  have hshuffled : ¬ StallsOn (shuffled s) := by
    rw [stallsOn_iff] at h ⊢
    simp only [shuffled_iMiss, shuffled_dStall, shuffled_xStall, toNat_countDown]
    lia
  dsimp only [stallStep, finishCycle, dump]
  rw [stallPath_eq, if_neg hshuffled, shuffled_dMiss]

/-!
## The exception and trap steps
-/

@[simp] theorem exceptStep_emulator (s : Sim) :
    (exceptStep s).emulator = s.emulator := rfl

@[simp] theorem exceptStep_except (s : Sim) :
    (exceptStep s).except = s.except - 1#32 := rfl

@[simp] theorem trapStep_emulator (s : Sim) :
    (trapStep s).emulator = s.emulator.executeInstruction.2 := rfl

/-!
## The fetch step
-/

/-- The state of a fetch cycle before the probe. -/
def fetched (s : Sim) : Sim :=
  accessInstruction (nextInfo s).pc
    (ingestBuffer (bufferedAddress (nextInfo s))
      (ingestPipeline (slotOf (nextInfo s) s.log.infos.length)
        (fetchInstruction (stampCycle s))))

theorem fetchPath_eq (s : Sim) : fetchPath s = detectHazards (probeData (fetched s)) := rfl

@[simp] theorem fetchPath_emulator (s : Sim) :
    (fetchPath s).emulator = s.emulator.executeInstruction.2 := by
  rw [fetchPath_eq]
  dsimp only [detectHazards]
  rw [(probeData_frame (fetched s)).emulator]
  rfl

@[simp] theorem fetchPath_except (s : Sim) : (fetchPath s).except = s.except := by
  rw [fetchPath_eq]
  dsimp only [detectHazards]
  rw [(probeData_frame (fetched s)).except]
  rfl

@[simp] theorem finishCycle_emulator (s : Sim) :
    (finishCycle s).emulator = s.emulator := rfl

@[simp] theorem haltDrain_emulator (s : Sim) :
    (haltDrain s).emulator = s.emulator := by
  unfold haltDrain
  apply forLoop_induction (fun (_ : Nat) (t : Sim) => t.emulator = s.emulator)
  · rfl
  · intro _ t _ ht
    exact ht

@[simp] theorem fetchStep_emulator (s : Sim) :
    (fetchStep s).emulator = s.emulator.executeInstruction.2 := by
  unfold fetchStep
  rw [finishCycle_emulator, fetchPath_emulator]

@[simp] theorem haltStep_emulator (s : Sim) :
    (haltStep s).emulator = s.emulator.executeInstruction.2 := by
  unfold haltStep
  rw [finishCycle_emulator, haltDrain_emulator, fetchPath_emulator]

end Cycle
end PipeSim
