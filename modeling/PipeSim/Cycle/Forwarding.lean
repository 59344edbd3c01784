import PipeSim.Cycle.Decoding
import PipeSim.Cycle.ZeroLatency

/-!
# What the detectors see and what they miss

Without cache delays the detectors order a bubble for every dependence that they
recognise.  Here the dependences that the emulator really has are compared with
those.  Two kinds go unrecognised: the base register of a load or store right behind a
load, and the sources of a branch right behind `lui` or `jal`.
-/

namespace PipeSim

open Library

namespace Cycle

/-!
## Dependences the detectors recognise
-/

theorem destination?_of_isLoad {dep : Word} (h : isLoad dep = true) :
    destination? dep = some (rtOf dep) := by
  rw [isLoad_eq] at h
  unfold destination?
  cases hop : opOf dep with
  | none =>
      rw [hop] at h
      cases h
  | some op =>
      rw [hop] at h
      cases op <;> first
        | rfl
        | cases h

theorem loadOp_of_mem_operands {use dep : Word} {r : RegId} (hload : isLoad dep = true)
    (hdest : destination? dep = some r) (hr : r ≠ 0#5) (hmem : r ∈ operands use)
    (huse : isLoad use = false) (hstore : isStore use = false) :
    loadOp use dep = 1#32 := by
  rw [destination?_of_isLoad hload] at hdest
  have hrt : rtOf dep = r := Option.some.inj hdest
  have hfields : isOp use = true ∧
      ((isImm use && rs use == rt dep) ||
        (!isImm use && (rs use == rt dep || rt use == rt dep))) = true := by
    unfold operands at hmem
    unfold isOp
    rw [isLoad_eq] at huse
    rw [isStore_eq] at hstore
    rw [isRop_eq, isImm_eq]
    cases hop : opOf use with
    | none =>
        rw [hop] at hmem
        cases hmem
    | some op =>
        rw [hop] at hmem huse hstore
        by_cases hzero : op = .zero
        · subst hzero
          have hnot : use ≠ 0#32 := by
            intro heq
            subst heq
            have hrt0 : operands 0#32 = [0#5] := by decide
            unfold operands at hrt0
            rw [hop] at hrt0
            rw [hrt0] at hmem
            exact hr (List.mem_singleton.mp hmem)
          dsimp only at hmem
          cases hf : functOf use with
          | none =>
              rw [hf] at hmem
              cases hmem
          | some f =>
              rw [hf] at hmem
              have hsource : f ≠ .jr ∧ (r = rsOf use ∨ r = rtOf use) := by
                cases f <;> simp at hmem ⊢ <;> first
                  | exact hmem
                  | exact Or.inr hmem
              have hfield : rs use = rt dep ∨ rt use = rt dep := by
                rw [rs_eq_rt, rt_eq_rt, hrt]
                exact hsource.2.imp Eq.symm Eq.symm
              simp [OpId.isImm, hnot, hsource.1, hfield]
        · have hnot := ne_zero_of_opOf hop hzero
          have hfield : r = rsOf use -> rs use = rt dep := by
            intro heq
            rw [rs_eq_rt, hrt, heq]
          cases op
          case zero => exact absurd rfl hzero
          all_goals
            simp [OpId.isLoad, OpId.isStore] at hmem huse hstore <;>
              simp [OpId.isImm, hnot, hfield hmem]
  unfold loadOp
  rw [hfields.1, hload, hfields.2]
  rfl

theorem branchSources_subset {word : Word} {r : RegId} (h : r ∈ Emulator.branchSources word) :
    isBranch word = true ∧ (r = rsOf word ∨ r = rtOf word) := by
  rw [isBranch_eq]
  unfold Emulator.branchSources at h
  cases hop : opOf word with
  | none =>
      rw [hop] at h
      cases h
  | some op =>
      rw [hop] at h
      cases op <;> simp [OpId.isBranch] at h ⊢ <;> first
        | exact h.2
        | exact Or.inl h

theorem loadBranch_of_outcomeDependsOn {use dep : Word} {r : RegId}
    (huse : Emulator.OutcomeDependsOn use r) (hload : isLoad dep = true)
    (hdest : destination? dep = some r) : loadBranch use dep = 2#32 := by
  rw [destination?_of_isLoad hload] at hdest
  have hrt : rtOf dep = r := Option.some.inj hdest
  rcases branchSources_subset (Emulator.outcomeDependsOn_iff.mp huse).2 with
    ⟨hbranch, hsource⟩
  have hfield : rs use = rt dep ∨ rt use = rt dep := by
    rw [rs_eq_rt, rt_eq_rt, hrt]
    exact hsource.imp Eq.symm Eq.symm
  unfold loadBranch
  rw [if_pos]
  simp [hbranch, hload, hfield]

/-- The instruction writes a register but is neither a load nor an operation in the eyes
of the detectors. -/
def EscapesDetection (word : Word) : Prop := opOf word = some .lui ∨ opOf word = some .jal

instance (word : Word) : Decidable (EscapesDetection word) := by
  unfold EscapesDetection
  infer_instance

theorem opBranch_of_outcomeDependsOn {use dep : Word} {r : RegId}
    (huse : Emulator.OutcomeDependsOn use r) (hdest : destination? dep = some r)
    (hload : isLoad dep = false) (hescapes : ¬ EscapesDetection dep) :
    opBranch use dep = 1#32 := by
  rcases Emulator.outcomeDependsOn_iff.mp huse with ⟨hr, hmem⟩
  rcases branchSources_subset hmem with ⟨hbranch, hsource⟩
  have hop : isOp dep = true ∧ (rs use = opTarget dep ∨ rt use = opTarget dep) := by
    unfold EscapesDetection at hescapes
    rw [isLoad_eq] at hload
    unfold isOp opTarget
    rw [isRop_eq, isImm_eq]
    cases hop : opOf dep with
    | none =>
        unfold destination? at hdest
        rw [hop] at hdest
        cases hdest
    | some op =>
        rw [hop] at hescapes hload
        by_cases hzero : op = .zero
        · subst hzero
          have hnot : dep ≠ 0#32 := by
            intro heq
            subst heq
            have hzeroDest : destination? 0#32 = some 0#5 := by decide
            rw [hzeroDest] at hdest
            exact hr (Option.some.inj hdest).symm
          unfold destination? at hdest
          rw [hop] at hdest
          dsimp only at hdest
          cases hf : functOf dep with
          | none =>
              rw [hf] at hdest
              cases hdest
          | some f =>
              rw [hf] at hdest
              have hrd : f ≠ .jr ∧ rdOf dep = r := by
                cases f <;> simp at hdest ⊢ <;> exact hdest
              have hfield : rs use = rd dep ∨ rt use = rd dep := by
                rw [rs_eq_rd, rt_eq_rd, hrd.2]
                exact hsource.imp Eq.symm Eq.symm
              simp [OpId.isImm, hnot, hrd.1, hfield]
        · have hnot := ne_zero_of_opOf hop hzero
          unfold destination? at hdest
          rw [hop] at hdest
          have hfield : rtOf dep = r -> rs use = rt dep ∨ rt use = rt dep := by
            intro heq
            rw [rs_eq_rt, rt_eq_rt, heq]
            exact hsource.imp Eq.symm Eq.symm
          cases op
          case zero => exact absurd rfl hzero
          all_goals
            simp [OpId.isLoad] at hdest hload hescapes <;>
              simp [OpId.isImm, hnot, hfield hdest]
  unfold opBranch
  rw [if_pos]
  simp [hbranch, hop.1, hop.2]

/-!
## How a pair of neighbours gets into EX and MEM
-/

theorem NoDelay.stall_pair {s : Sim} (h : NoDelay s) (hstalled : Stalled s) :
    (0#32 < s.xStall ∧ (stallStep s).pipeState.exInstr = Slot.bubble) ∨
      ((stallStep s).pipeState.exInstr = s.pipeState.idInstr ∧
        (stallStep s).pipeState.memInstr = s.pipeState.exInstr) := by
  rcases stallStep_shuffle hstalled with ⟨t, hcases, hpipe, _⟩
  rw [hpipe]
  cases hcases with
  | freeze hdMiss =>
      exact absurd h.dMiss hdMiss
  | bubbleEx _ hxStall =>
      exact Or.inl ⟨hxStall, rfl⟩
  | bubbleId _ _ =>
      exact Or.inr ⟨rfl, rfl⟩

/-- Without cache delays, what enters EX is a bubble or comes from ID, with the contents
of EX going on to MEM. -/
theorem NoDelay.pair_origin {s s' : Sim} (h : NoDelay s) (hstep : Step s false s') :
    s'.pipeState.exInstr = Slot.bubble ∨
      (s'.pipeState.exInstr = s.pipeState.idInstr ∧
        s'.pipeState.memInstr = s.pipeState.exInstr) := by
  cases hstep with
  | except _ =>
      exact Or.inr ⟨rfl, rfl⟩
  | stall _ hstalled =>
      rcases h.stall_pair hstalled with ⟨_, hbubble⟩ | hmoves
      · exact Or.inl hbubble
      · exact Or.inr hmoves
  | trap _ _ =>
      exact Or.inr ⟨rfl, rfl⟩
  | fetch _ _ _ =>
      unfold fetchStep
      rw [finishCycle_pipeState, fetchPath_pipeState]
      exact Or.inr ⟨rfl, rfl⟩

theorem NoDelay.pair_moves {s s' : Sim} (h : NoDelay s) (howed : StallsOwed s)
    (hdelay : exDelay s.pipeState.idInstr.instr s.pipeState.exInstr.instr = 0#32)
    (hstep : Step s false s') :
    s'.pipeState.exInstr = s.pipeState.idInstr ∧
      s'.pipeState.memInstr = s.pipeState.exInstr := by
  cases hstep with
  | except _ =>
      exact ⟨rfl, rfl⟩
  | stall _ hstalled =>
      rcases h.stall_pair hstalled with ⟨hpos, _⟩ | hmoves
      · have hzero : s.xStall = 0#32 := howed.xStall.trans hdelay
        rw [hzero] at hpos
        exact absurd hpos (by decide)
      · exact hmoves
  | trap _ _ =>
      exact ⟨rfl, rfl⟩
  | fetch _ _ _ =>
      unfold fetchStep
      rw [finishCycle_pipeState, fetchPath_pipeState]
      exact ⟨rfl, rfl⟩

theorem stallsOwed_of_noTrap {ic dc : CacheConfig} {mem : MemoryStore} {k : Nat} {s : Sim}
    (hi : ic.missLatency = 0#32) (hd : dc.missLatency = 0#32)
    (h : machine.Reaches k (initSimulator ic dc mem) s) (hnotrap : NoTrap s) :
    StallsOwed s :=
  stallsOwed_of_reaches h fun _ _ hj hreach =>
    ⟨(noDelay_of_reaches hi hd hreach).freezeKeepsStalls,
      hnotrap.trapKeepsStalls h hreach hj⟩

/-!
## Loads and their users
-/

/-- No instruction in EX computes from the register that a load in MEM is writing. -/
def LoadUseSeparated (p : PipeState) : Prop :=
  forall r, r ≠ 0#5 -> isLoad p.memInstr.instr = true ->
    destination? p.memInstr.instr = some r -> r ∉ operands p.exInstr.instr

/-- A load in EX writes the base register of a load or store in ID. -/
def LoadFeedsAddress (p : PipeState) : Prop :=
  isLoad p.exInstr.instr = true ∧
    (isLoad p.idInstr.instr = true ∨ isStore p.idInstr.instr = true) ∧
    rtOf p.exInstr.instr ≠ 0#5 ∧ rsOf p.idInstr.instr = rtOf p.exInstr.instr

instance (p : PipeState) : Decidable (LoadFeedsAddress p) := by
  unfold LoadFeedsAddress
  infer_instance

theorem operands_of_memory {use : Word} (h : isLoad use = true ∨ isStore use = true) :
    operands use = [rsOf use] := by
  rw [isLoad_eq, isStore_eq] at h
  unfold operands
  cases hop : opOf use with
  | none =>
      rw [hop] at h
      simp at h
  | some op =>
      rw [hop] at h
      cases op <;> first
        | rfl
        | simp [OpId.isLoad, OpId.isStore] at h

theorem LoadFeedsAddress.exDelay {p : PipeState} (h : LoadFeedsAddress p) :
    exDelay p.idInstr.instr p.exInstr.instr = 0#32 := by
  rcases h.2.1 with hload | hstore
  · exact exDelay_of_isLoad hload _
  · exact exDelay_of_isStore hstore _

/-!
## Branches and their sources
-/

/-- No branch in EX is decided by a register that the instruction in MEM, or a load in WB,
is writing. -/
def BranchSourcesReady (p : PipeState) : Prop :=
  forall r, Emulator.OutcomeDependsOn p.exInstr.instr r ->
    destination? p.memInstr.instr ≠ some r ∧
      (isLoad p.wbInstr.instr = true -> destination? p.wbInstr.instr ≠ some r)

/-- `lui` or `jal` in EX writes a register that decides a branch in ID. -/
def EscapeFeedsBranch (p : PipeState) : Prop :=
  EscapesDetection p.exInstr.instr ∧
    exists r, r ∈ Emulator.branchSources p.idInstr.instr ∧
      r ≠ 0#5 ∧ destination? p.exInstr.instr = some r

instance (p : PipeState) : Decidable (EscapeFeedsBranch p) := by
  unfold EscapeFeedsBranch
  infer_instance

theorem EscapesDetection.not_detected {dep : Word} (h : EscapesDetection dep) :
    isLoad dep = false ∧ isOp dep = false := by
  unfold isOp
  rw [isLoad_eq, isImm_eq, isRop_eq]
  rcases h with hop | hop
  · rw [hop]
    exact ⟨rfl, by simp [OpId.isImm]⟩
  · rw [hop]
    exact ⟨rfl, by simp [OpId.isImm]⟩

theorem EscapeFeedsBranch.exDelay {p : PipeState} (h : EscapeFeedsBranch p) :
    exDelay p.idInstr.instr p.exInstr.instr = 0#32 := by
  rcases h.1.not_detected with ⟨hload, hop⟩
  unfold Cycle.exDelay opBranch loadOp
  rw [hload, hop]
  simp

theorem StallsOwed.branchSourcesReady {s : Sim} (h : StallsOwed s)
    (hescape : forall r, Emulator.OutcomeDependsOn s.pipeState.exInstr.instr r ->
      EscapesDetection s.pipeState.memInstr.instr ->
      destination? s.pipeState.memInstr.instr ≠ some r) :
    BranchSourcesReady s.pipeState := by
  intro r huse
  constructor
  · intro hdest
    by_cases hescapes : EscapesDetection s.pipeState.memInstr.instr
    · exact hescape r huse hescapes hdest
    · cases hload : isLoad s.pipeState.memInstr.instr with
      | true =>
          have htwo := loadBranch_of_outcomeDependsOn huse hload hdest
          rw [h.inEx.noLoadBranch] at htwo
          cases htwo
      | false =>
          have hone := opBranch_of_outcomeDependsOn huse hdest hload hescapes
          rw [h.inEx.noOpBranch] at hone
          cases hone
  · intro hload hdest
    have htwo := loadBranch_of_outcomeDependsOn huse hload hdest
    rw [h.inEx.noLoadBranchFar] at htwo
    cases htwo

end Cycle

/-- Without cache delays and exceptions, every user of a loaded register other than a
branch is separated from the load exactly when the run never goes on from a state in
which a load in EX writes the base register of a load or store in ID. -/
theorem load_use_separated_iff (image : MemImage) (ic dc : ValidConfig)
    (hi : ic.missLatency = 0#32) (hd : dc.missLatency = 0#32) :
    (forall k s,
      Cycle.machine.Reaches k
          (Cycle.initSimulator ic.toCacheConfig dc.toCacheConfig
            (MemoryStore.ofImage image)) s ->
        Cycle.NoTrap s -> Cycle.LoadUseSeparated s.pipeState) <->
      forall k s s',
        Cycle.machine.Reaches k
            (Cycle.initSimulator ic.toCacheConfig dc.toCacheConfig
              (MemoryStore.ofImage image)) s ->
          Cycle.machine s = (false, s') -> Cycle.NoTrap s' ->
            ¬ Cycle.LoadFeedsAddress s.pipeState := by
  constructor
  · intro h k s s' hreach hlast hnotrap hfeeds
    have hdelay := hfeeds.exDelay
    rcases hfeeds with ⟨hload, huse, hr, hbase⟩
    have hnotrap' := hnotrap.of_reaches (Machine.Reaches.one hlast)
    have howed := Cycle.stallsOwed_of_noTrap hi hd hreach hnotrap'
    rcases (Cycle.noDelay_of_reaches hi hd hreach).pair_moves howed hdelay
      (Cycle.step_of_machine hlast) with ⟨hex, hmemSlot⟩
    have hseparated := h _ s' (hreach.tail hlast) hnotrap _ hr
    rw [hex, hmemSlot, Cycle.operands_of_memory huse, hbase] at hseparated
    exact hseparated hload (Cycle.destination?_of_isLoad hload) (List.mem_singleton_self _)
  · intro h k s hreach hnotrap r hr hload hdest hmem
    have howed := Cycle.stallsOwed_of_noTrap hi hd hreach hnotrap
    by_cases huse : Cycle.isLoad s.pipeState.exInstr.instr = true ∨
      Cycle.isStore s.pipeState.exInstr.instr = true
    · cases hreach with
      | refl _ =>
          cases hload
      | tail hprev hlast =>
          rcases (Cycle.noDelay_of_reaches hi hd hprev).pair_origin
            (Cycle.step_of_machine hlast) with hbubble | ⟨hex, hmemSlot⟩
          · rw [hbubble] at huse
            rcases huse with hfalse | hfalse
            · cases hfalse
            · cases hfalse
          · rw [hex] at huse hmem
            rw [hmemSlot] at hload hdest
            rw [Cycle.destination?_of_isLoad hload] at hdest
            cases hdest
            rw [Cycle.operands_of_memory huse, List.mem_singleton] at hmem
            exact h _ _ s hprev hlast hnotrap ⟨hload, huse, hr, hmem.symm⟩
    · rw [not_or, Bool.not_eq_true, Bool.not_eq_true] at huse
      have hone := Cycle.loadOp_of_mem_operands hload hdest hr hmem huse.1 huse.2
      rw [howed.inEx.noLoadOp] at hone
      cases hone

/-- `lw $1, 0($0); nop; lw $2, 0($1); nop; nop` and the halt word. -/
def spacedLoadsProgram : List Word :=
  [0x8c010000#32, 0x00000000#32, 0x8c220000#32, 0x00000000#32, 0x00000000#32, haltWord]

theorem load_use_separated_spaced_loads :
    (exists fuel s,
      Cycle.runTillHalt fuel
        (Cycle.initSimulator (ValidConfig.oneBlock 0#32).toCacheConfig
          (ValidConfig.oneBlock 0#32).toCacheConfig
          (MemoryStore.ofImage (MemImage.ofWords spacedLoadsProgram))) = some (.halt, s)) ∧
      forall k s,
        Cycle.machine.Reaches k
            (Cycle.initSimulator (ValidConfig.oneBlock 0#32).toCacheConfig
              (ValidConfig.oneBlock 0#32).toCacheConfig
              (MemoryStore.ofImage (MemImage.ofWords spacedLoadsProgram))) s ->
          Cycle.NoTrap s -> Cycle.LoadUseSeparated s.pipeState := by
  have hrun : Cycle.HaltsAfter 6
      (Cycle.initSimulator (ValidConfig.oneBlock 0#32).toCacheConfig
        (ValidConfig.oneBlock 0#32).toCacheConfig
        (MemoryStore.ofImage (MemImage.ofWords spacedLoadsProgram))) _ :=
    Machine.finishesIn_after (by decide +kernel) (by decide +kernel)
  have hall := hrun.forall_reaches (P := fun s => ¬ Cycle.LoadFeedsAddress s.pipeState)
    (by decide +kernel)
  rcases Cycle.haltsAfter_iff_runTillHalt.mp ⟨_, hrun⟩ with ⟨fuel, hfuel⟩
  refine ⟨⟨fuel, _, hfuel⟩, ?_⟩
  exact (load_use_separated_iff _ (ValidConfig.oneBlock 0#32) (ValidConfig.oneBlock 0#32)
    rfl rfl).mpr fun k s _ hreach _ _ => hall k s hreach

/-- `lw $1, 0($0); lw $2, 0($1); nop; nop` and the halt word. -/
def loadAddressProgram : List Word :=
  [0x8c010000#32, 0x8c220000#32, 0x00000000#32, 0x00000000#32, haltWord]

/-- No bubble separates a load from a load whose address it provides. -/
theorem load_feeds_address_without_bubble :
    exists (image : MemImage) (ic dc : ValidConfig),
      ic.missLatency = 0#32 ∧ dc.missLatency = 0#32 ∧
        exists k s,
          Cycle.machine.Reaches k
              (Cycle.initSimulator ic.toCacheConfig dc.toCacheConfig
                (MemoryStore.ofImage image)) s ∧
            Cycle.NoTrap s ∧ ¬ Cycle.LoadUseSeparated s.pipeState := by
  refine ⟨MemImage.ofWords loadAddressProgram, ValidConfig.oneBlock 0#32,
    ValidConfig.oneBlock 0#32, rfl, rfl, 4, _, Machine.reaches_after (by decide +kernel),
    by decide +kernel, ?_⟩
  intro h
  exact h 1#5 (by decide) (by decide +kernel) (by decide +kernel) (by decide +kernel)

/-- Without cache delays and exceptions, no branch is in EX before its sources are ready
exactly when the run never goes on from a state in which `lui` or `jal` in EX writes a
register that decides a branch in ID. -/
theorem branch_sources_ready_iff (image : MemImage) (ic dc : ValidConfig)
    (hi : ic.missLatency = 0#32) (hd : dc.missLatency = 0#32) :
    (forall k s,
      Cycle.machine.Reaches k
          (Cycle.initSimulator ic.toCacheConfig dc.toCacheConfig
            (MemoryStore.ofImage image)) s ->
        Cycle.NoTrap s -> Cycle.BranchSourcesReady s.pipeState) <->
      forall k s s',
        Cycle.machine.Reaches k
            (Cycle.initSimulator ic.toCacheConfig dc.toCacheConfig
              (MemoryStore.ofImage image)) s ->
          Cycle.machine s = (false, s') -> Cycle.NoTrap s' ->
            ¬ Cycle.EscapeFeedsBranch s.pipeState := by
  constructor
  · intro h k s s' hreach hlast hnotrap hfeeds
    have hdelay := hfeeds.exDelay
    rcases hfeeds with ⟨_, r, hsource, hr, hdest⟩
    have hnotrap' := hnotrap.of_reaches (Machine.Reaches.one hlast)
    have howed := Cycle.stallsOwed_of_noTrap hi hd hreach hnotrap'
    rcases (Cycle.noDelay_of_reaches hi hd hreach).pair_moves howed hdelay
      (Cycle.step_of_machine hlast) with ⟨hex, hmemSlot⟩
    have hready := h _ s' (hreach.tail hlast) hnotrap r
    rw [hex, hmemSlot] at hready
    exact (hready (Emulator.outcomeDependsOn_iff.mpr ⟨hr, hsource⟩)).1 hdest
  · intro h k s hreach hnotrap
    apply (Cycle.stallsOwed_of_noTrap hi hd hreach hnotrap).branchSourcesReady
    intro r huse hescapes hdest
    cases hreach with
    | refl _ =>
        have hbubble : ¬ Cycle.EscapesDetection 0#32 := by decide
        exact absurd hescapes hbubble
    | tail hprev hlast =>
        rcases (Cycle.noDelay_of_reaches hi hd hprev).pair_origin
          (Cycle.step_of_machine hlast) with hbubble | ⟨hex, hmemSlot⟩
        · rw [hbubble] at huse
          cases (Emulator.outcomeDependsOn_iff.mp huse).2
        · rw [hex] at huse
          rw [hmemSlot] at hescapes hdest
          rcases Emulator.outcomeDependsOn_iff.mp huse with ⟨hr, hsource⟩
          exact h _ _ s hprev hlast hnotrap ⟨hescapes, r, hsource, hr, hdest⟩

/-- `lui $1, 1; nop; beq $1, $0, 1; nop` and the halt word. -/
def spacedLuiBranchProgram : List Word :=
  [0x3c010001#32, 0x00000000#32, 0x10200001#32, 0x00000000#32, haltWord]

theorem branch_sources_ready_spaced_lui :
    (exists fuel s,
      Cycle.runTillHalt fuel
        (Cycle.initSimulator (ValidConfig.oneBlock 0#32).toCacheConfig
          (ValidConfig.oneBlock 0#32).toCacheConfig
          (MemoryStore.ofImage (MemImage.ofWords spacedLuiBranchProgram))) = some (.halt, s)) ∧
      forall k s,
        Cycle.machine.Reaches k
            (Cycle.initSimulator (ValidConfig.oneBlock 0#32).toCacheConfig
              (ValidConfig.oneBlock 0#32).toCacheConfig
              (MemoryStore.ofImage (MemImage.ofWords spacedLuiBranchProgram))) s ->
          Cycle.NoTrap s -> Cycle.BranchSourcesReady s.pipeState := by
  have hrun : Cycle.HaltsAfter 5
      (Cycle.initSimulator (ValidConfig.oneBlock 0#32).toCacheConfig
        (ValidConfig.oneBlock 0#32).toCacheConfig
        (MemoryStore.ofImage (MemImage.ofWords spacedLuiBranchProgram))) _ :=
    Machine.finishesIn_after (by decide +kernel) (by decide +kernel)
  have hall := hrun.forall_reaches (P := fun s => ¬ Cycle.EscapeFeedsBranch s.pipeState)
    (by decide +kernel)
  rcases Cycle.haltsAfter_iff_runTillHalt.mp ⟨_, hrun⟩ with ⟨fuel, hfuel⟩
  refine ⟨⟨fuel, _, hfuel⟩, ?_⟩
  exact (branch_sources_ready_iff _ (ValidConfig.oneBlock 0#32) (ValidConfig.oneBlock 0#32)
    rfl rfl).mpr fun k s _ hreach _ _ => hall k s hreach

/-- `lui $1, 1; beq $1, $0, 1; nop; nop` and the halt word. -/
def luiBranchProgram : List Word :=
  [0x3c010001#32, 0x10200001#32, 0x00000000#32, 0x00000000#32, haltWord]

/-- No bubble separates `lui` from a branch on its result. -/
theorem lui_feeds_branch_without_bubble :
    exists (image : MemImage) (ic dc : ValidConfig),
      ic.missLatency = 0#32 ∧ dc.missLatency = 0#32 ∧
        exists k s,
          Cycle.machine.Reaches k
              (Cycle.initSimulator ic.toCacheConfig dc.toCacheConfig
                (MemoryStore.ofImage image)) s ∧
            Cycle.NoTrap s ∧ ¬ Cycle.BranchSourcesReady s.pipeState := by
  refine ⟨MemImage.ofWords luiBranchProgram, ValidConfig.oneBlock 0#32,
    ValidConfig.oneBlock 0#32, rfl, rfl, 4, _, Machine.reaches_after (by decide +kernel),
    by decide +kernel, ?_⟩
  intro h
  exact (h 1#5 (Emulator.outcomeDependsOn_iff.mpr
    ⟨by decide, by decide +kernel⟩)).1 (by decide +kernel)

end PipeSim
