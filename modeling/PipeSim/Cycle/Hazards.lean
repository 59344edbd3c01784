import PipeSim.Cycle.Effects

/-!
# Hazards and their bubbles

The detectors look at the instructions in IF, ID and EX and set `xStall` and
`dStall`.  The invariant below says what these counters still owe: as long as no
stall is lost, every hazard in the pipeline has its bubbles coming, and no consumer
enters EX too early.  A stall can be lost in two ways, both excluded by a condition on
the coming step: a frozen pipeline counts it down without inserting a bubble, and
a trap skips the detectors.
-/

namespace PipeSim

open Library

namespace Cycle

/-!
## The detectors
-/

@[simp] theorem isLoad_zero : isLoad 0#32 = false := rfl

@[simp] theorem isBranch_zero : isBranch 0#32 = false := rfl

@[simp] theorem isOp_zero : isOp 0#32 = false := rfl

@[simp] theorem opBranch_zero_left (dep : Word) : opBranch 0#32 dep = 0#32 := by
  unfold opBranch
  rw [isBranch_zero]
  rfl

@[simp] theorem opBranch_zero_right (use : Word) : opBranch use 0#32 = 0#32 := by
  unfold opBranch
  rw [isOp_zero, Bool.and_false]
  rfl

@[simp] theorem loadOp_zero_left (dep : Word) : loadOp 0#32 dep = 0#32 := by
  unfold loadOp
  rw [isOp_zero]
  rfl

@[simp] theorem loadOp_zero_right (use : Word) : loadOp use 0#32 = 0#32 := by
  unfold loadOp
  rw [isLoad_zero, Bool.and_false]
  rfl

@[simp] theorem loadBranch_zero_left (dep : Word) : loadBranch 0#32 dep = 0#32 := by
  unfold loadBranch
  rw [isBranch_zero]
  rfl

@[simp] theorem loadBranch_zero_right (use : Word) : loadBranch use 0#32 = 0#32 := by
  unfold loadBranch
  rw [isLoad_zero, Bool.and_false]
  rfl

theorem loadBranch_bubble_ne (use : Word) : loadBranch use 0#32 ≠ 2#32 := by
  rw [loadBranch_zero_right]
  decide

theorem loadBranch_cases (use dep : Word) :
    loadBranch use dep = 0#32 ∨ loadBranch use dep = 2#32 := by
  unfold loadBranch
  split
  · exact Or.inr rfl
  · exact Or.inl rfl

theorem loadBranch_eq_zero_of_ne {use dep : Word} (h : loadBranch use dep ≠ 2#32) :
    loadBranch use dep = 0#32 :=
  (loadBranch_cases use dep).resolve_right h

theorem isLoad_of_loadBranch {use dep : Word} (h : loadBranch use dep = 2#32) :
    isLoad dep = true := by
  unfold loadBranch at h
  split at h
  · rename_i hcondition
    simp only [Bool.and_eq_true] at hcondition
    exact hcondition.1.2
  · cases h

/-- No word is both a load and a branch or an operation. -/
theorem isBranch_of_isLoad {target : Word} (h : isLoad target = true) :
    isBranch target = false ∧ isOp target = false := by
  unfold isBranch isOp isImm isRop
  rcases opcode_of_isLoad h with hop | hop | hop
  · simp [hop, OpId.code]
  · simp [hop, OpId.code]
  · simp [hop, OpId.code]

theorem isOp_of_isBranch {target : Word} (h : isBranch target = true) :
    isOp target = false := by
  unfold isBranch at h
  unfold isOp isImm isRop
  generalize opcode target = op at h
  simp only [Bool.and_eq_true, Bool.or_eq_true, beq_iff_eq] at h
  rcases h with ⟨_, ((hop | hop) | hop) | hop⟩ <;>
    subst hop <;>
    simp [OpId.code]

theorem opBranch_of_not_isBranch {use : Word} (h : isBranch use = false) (dep : Word) :
    opBranch use dep = 0#32 := by
  unfold opBranch
  rw [h]
  rfl

theorem loadOp_of_not_isOp {use : Word} (h : isOp use = false) (dep : Word) :
    loadOp use dep = 0#32 := by
  unfold loadOp
  rw [h]
  rfl

def exDelay (use dep : Word) : Word := opBranch use dep + loadOp use dep

theorem exDelay_of_isLoad {use : Word} (h : isLoad use = true) (dep : Word) :
    exDelay use dep = 0#32 := by
  rcases isBranch_of_isLoad h with ⟨hbranch, hop⟩
  unfold exDelay
  rw [opBranch_of_not_isBranch hbranch, loadOp_of_not_isOp hop]
  rfl

theorem exDelay_of_isStore {use : Word} (h : isStore use = true) (dep : Word) :
    exDelay use dep = 0#32 := by
  have hclass : isBranch use = false ∧ isOp use = false := by
    unfold isStore at h
    unfold isBranch isOp isImm isRop
    generalize opcode use = op at h
    simp only [Bool.and_eq_true, Bool.or_eq_true, beq_iff_eq] at h
    rcases h with ⟨_, (hop | hop) | hop⟩ <;>
      subst hop <;>
      simp [OpId.code]
  unfold exDelay
  rw [opBranch_of_not_isBranch hclass.1, loadOp_of_not_isOp hclass.2]
  rfl

theorem operation?_eq_none_of_exDelay {use dep : Word} (h : exDelay use dep ≠ 0#32) :
    operation? use = none := by
  unfold operation?
  cases hload : isLoad use with
  | true =>
      exact absurd (exDelay_of_isLoad hload dep) h
  | false =>
      cases hstore : isStore use with
      | true =>
          exact absurd (exDelay_of_isStore hstore dep) h
      | false =>
          rfl

@[simp] theorem exDelay_zero_left (dep : Word) : exDelay 0#32 dep = 0#32 := by
  simp [exDelay]

@[simp] theorem exDelay_zero_right (use : Word) : exDelay use 0#32 = 0#32 := by
  simp [exDelay]

/-- At most one of the two detectors of `xStall` responds. -/
theorem exDelay_cases (use dep : Word) :
    (exDelay use dep = 0#32 ∧ opBranch use dep = 0#32 ∧ loadOp use dep = 0#32) ∨
      exDelay use dep = 1#32 := by
  unfold exDelay
  have hbranch : opBranch use dep = 0#32 ∨ opBranch use dep = 1#32 := by
    unfold opBranch
    split
    · exact Or.inr rfl
    · exact Or.inl rfl
  have hload : loadOp use dep = 0#32 ∨ loadOp use dep = 1#32 := by
    unfold loadOp
    split
    · exact Or.inr rfl
    · exact Or.inl rfl
  cases huse : isBranch use with
  | true =>
      rw [loadOp_of_not_isOp (isOp_of_isBranch huse)]
      rcases hbranch with hzero | hone
      · exact Or.inl ⟨by rw [hzero]; rfl, hzero, rfl⟩
      · exact Or.inr (by rw [hone]; rfl)
  | false =>
      rw [opBranch_of_not_isBranch huse]
      rcases hload with hzero | hone
      · exact Or.inl ⟨by rw [hzero]; rfl, rfl, hzero⟩
      · exact Or.inr (by rw [hone]; rfl)

theorem exDelay_eq_zero {use dep : Word} (h : exDelay use dep = 0#32) :
    opBranch use dep = 0#32 ∧ loadOp use dep = 0#32 := by
  rcases exDelay_cases use dep with ⟨_, hboth⟩ | hone
  · exact hboth
  · rw [hone] at h
    cases h

/-!
## The invariant
-/

/-- No consumer is in EX while its producer is one stage ahead, or two for a branch behind
a load. -/
structure NoHazardInEx (p : PipeState) : Prop where
  noLoadOp : loadOp p.exInstr.instr p.memInstr.instr = 0#32
  noOpBranch : opBranch p.exInstr.instr p.memInstr.instr = 0#32
  noLoadBranch : loadBranch p.exInstr.instr p.memInstr.instr = 0#32
  noLoadBranchFar : loadBranch p.exInstr.instr p.wbInstr.instr = 0#32

instance (p : PipeState) : Decidable (NoHazardInEx p) :=
  decidable_of_iff
    (loadOp p.exInstr.instr p.memInstr.instr = 0#32 ∧
      opBranch p.exInstr.instr p.memInstr.instr = 0#32 ∧
      loadBranch p.exInstr.instr p.memInstr.instr = 0#32 ∧
      loadBranch p.exInstr.instr p.wbInstr.instr = 0#32)
    ⟨fun h => ⟨h.1, h.2.1, h.2.2.1, h.2.2.2⟩,
      fun h => ⟨h.noLoadOp, h.noOpBranch, h.noLoadBranch, h.noLoadBranchFar⟩⟩

/-- At least `n` further stall cycles with a bubble behind IF are due. -/
def Owes (s : Sim) (n : Nat) : Prop := n ≤ s.iMiss.toNat ∨ n ≤ s.dStall.toNat

/-- What the counters owe to the hazards in the pipeline. -/
structure StallsOwed (s : Sim) : Prop where
  inEx : NoHazardInEx s.pipeState
  xStall : s.xStall = exDelay s.pipeState.idInstr.instr s.pipeState.exInstr.instr
  loadBranchId : loadBranch s.pipeState.idInstr.instr s.pipeState.exInstr.instr = 0#32
  loadBranchIdFar : loadBranch s.pipeState.idInstr.instr s.pipeState.memInstr.instr = 0#32
  loadBranchIf : loadBranch s.pipeState.ifInstr.instr s.pipeState.idInstr.instr = 2#32 ->
    Owes s 2
  loadBranchIfFar : loadBranch s.pipeState.ifInstr.instr s.pipeState.exInstr.instr = 2#32 ->
    Owes s 1
  exceptIdle : 0#32 < s.except -> ¬ Stalled s
  exceptIf : 0#32 < s.except -> s.pipeState.ifInstr.instr = 0#32

/-- The coming step, if it is a frozen one, loses no stall: no bubble is due in front of
EX, and those due behind IF outlast the freeze through `iMiss`. -/
structure FreezeKeepsStalls (s : Sim) : Prop where
  opBranch : s.dMiss ≠ 0#32 ->
    opBranch s.pipeState.idInstr.instr s.pipeState.exInstr.instr = 0#32
  loadOp : s.dMiss ≠ 0#32 ->
    loadOp s.pipeState.idInstr.instr s.pipeState.exInstr.instr = 0#32
  near : s.dMiss ≠ 0#32 ->
    loadBranch s.pipeState.ifInstr.instr s.pipeState.idInstr.instr = 2#32 ->
      2 + s.dMiss.toNat ≤ s.iMiss.toNat
  far : s.dMiss ≠ 0#32 ->
    loadBranch s.pipeState.ifInstr.instr s.pipeState.exInstr.instr = 2#32 ->
      1 + s.dMiss.toNat ≤ s.iMiss.toNat

instance (s : Sim) : Decidable (FreezeKeepsStalls s) :=
  decidable_of_iff
    ((s.dMiss ≠ 0#32 -> opBranch s.pipeState.idInstr.instr s.pipeState.exInstr.instr = 0#32) ∧
      (s.dMiss ≠ 0#32 -> loadOp s.pipeState.idInstr.instr s.pipeState.exInstr.instr = 0#32) ∧
      (s.dMiss ≠ 0#32 ->
        loadBranch s.pipeState.ifInstr.instr s.pipeState.idInstr.instr = 2#32 ->
          2 + s.dMiss.toNat ≤ s.iMiss.toNat) ∧
      (s.dMiss ≠ 0#32 ->
        loadBranch s.pipeState.ifInstr.instr s.pipeState.exInstr.instr = 2#32 ->
          1 + s.dMiss.toNat ≤ s.iMiss.toNat))
    ⟨fun h => ⟨h.1, h.2.1, h.2.2.1, h.2.2.2⟩,
      fun h => ⟨h.opBranch, h.loadOp, h.near, h.far⟩⟩

/-- The coming fetch, if it raises an exception, finds no hazard between IF and ID. -/
def TrapKeepsStalls (s : Sim) : Prop :=
  s.except = 0#32 -> ¬ Stalled s -> (nextInfo s).completes = false ->
    opBranch s.pipeState.ifInstr.instr s.pipeState.idInstr.instr = 0#32 ∧
      loadOp s.pipeState.ifInstr.instr s.pipeState.idInstr.instr = 0#32

instance (s : Sim) : Decidable (TrapKeepsStalls s) := by
  unfold TrapKeepsStalls
  infer_instance

/-- The coming step loses no stall. -/
structure KeepsStalls (s : Sim) : Prop where
  freeze : FreezeKeepsStalls s
  trap : TrapKeepsStalls s

theorem stallsOwed_initSimulator (ic dc : CacheConfig) (mem : MemoryStore) :
    StallsOwed (initSimulator ic dc mem) where
  inEx := ⟨rfl, rfl, rfl, rfl⟩
  xStall := rfl
  loadBranchId := rfl
  loadBranchIdFar := rfl
  loadBranchIf := by
    intro h
    cases h
  loadBranchIfFar := by
    intro h
    cases h
  exceptIdle := by
    intro h
    cases h
  exceptIf := fun _ => rfl

section Steps

variable {s : Sim}

theorem counters_of_not_stalled (h : ¬ Stalled s) :
    s.iMiss = 0#32 ∧ s.dMiss = 0#32 ∧ s.dStall = 0#32 ∧ s.xStall = 0#32 := by
  unfold Stalled at h
  rw [not_or, not_or, not_or] at h
  exact ⟨word_eq_zero_of_not_pos h.1, word_eq_zero_of_not_pos h.2.1,
    word_eq_zero_of_not_pos h.2.2.1, word_eq_zero_of_not_pos h.2.2.2⟩

theorem not_stalled_iff :
    ¬ Stalled s <-> s.iMiss = 0#32 ∧ s.dMiss = 0#32 ∧ s.dStall = 0#32 ∧ s.xStall = 0#32 := by
  constructor
  · exact counters_of_not_stalled
  · intro h
    rcases h with ⟨hiMiss, hdMiss, hdStall, hxStall⟩
    unfold Stalled
    rw [hiMiss, hdMiss, hdStall, hxStall]
    decide

theorem not_owes_of_not_stalled (h : ¬ Stalled s) {n : Nat} (hn : 0 < n) : ¬ Owes s n := by
  rcases counters_of_not_stalled h with ⟨hiMiss, _, hdStall, _⟩
  unfold Owes
  rw [hiMiss, hdStall]
  intro h
  rcases h with hle | hle
  · exact Nat.not_lt.mpr hle hn
  · exact Nat.not_lt.mpr hle hn

/-- The hazards in the pipeline when no stall is pending: none between ID and EX, and
none between IF and a load. -/
theorem StallsOwed.of_not_stalled (h : StallsOwed s) (hidle : ¬ Stalled s) :
    opBranch s.pipeState.idInstr.instr s.pipeState.exInstr.instr = 0#32 ∧
      loadOp s.pipeState.idInstr.instr s.pipeState.exInstr.instr = 0#32 ∧
      loadBranch s.pipeState.ifInstr.instr s.pipeState.idInstr.instr = 0#32 ∧
      loadBranch s.pipeState.ifInstr.instr s.pipeState.exInstr.instr = 0#32 := by
  have hxStall := h.xStall
  rw [(counters_of_not_stalled hidle).2.2.2] at hxStall
  rcases exDelay_eq_zero hxStall.symm with ⟨hop, hload⟩
  exact ⟨hop, hload,
    loadBranch_eq_zero_of_ne fun heq =>
      not_owes_of_not_stalled hidle (by decide) (h.loadBranchIf heq),
    loadBranch_eq_zero_of_ne fun heq =>
      not_owes_of_not_stalled hidle (by decide) (h.loadBranchIfFar heq)⟩

theorem StallsOwed.ingest (h : StallsOwed s) (hidle : ¬ Stalled s) (input : Slot) :
    NoHazardInEx (ingestPipeline input s).pipeState := by
  rcases h.of_not_stalled hidle with ⟨hop, hload, _, _⟩
  exact ⟨hload, hop, h.loadBranchId, h.loadBranchIdFar⟩

theorem owes_stallStep {n : Nat} (h : Owes s (n + 1)) : Owes (stallStep s) n := by
  unfold Owes at h ⊢
  rw [stallStep_iMiss, stallStep_dStall, toNat_countDown, toNat_countDown]
  lia

theorem StallsOwed.ingestBubble {t : Sim} (h : StallsOwed s) (hidle : ¬ Stalled s)
    (hdelay : exDelay s.pipeState.ifInstr.instr s.pipeState.idInstr.instr = 0#32)
    (hpipe : t.pipeState = (ingestPipeline Slot.bubble s).pipeState)
    (hiMiss : t.iMiss = s.iMiss) (hdMiss : t.dMiss = s.dMiss) (hdStall : t.dStall = s.dStall)
    (hxStall : t.xStall = s.xStall) : StallsOwed t := by
  rcases h.of_not_stalled hidle with ⟨_, _, hif, hifFar⟩
  constructor
  · rw [hpipe]
    exact h.ingest hidle Slot.bubble
  · rw [hxStall, hpipe, (counters_of_not_stalled hidle).2.2.2]
    exact hdelay.symm
  · rw [hpipe]
    exact hif
  · rw [hpipe]
    exact hifFar
  · rw [hpipe]
    intro heq
    change loadBranch 0#32 _ = _ at heq
    rw [loadBranch_zero_left] at heq
    cases heq
  · rw [hpipe]
    intro heq
    change loadBranch 0#32 _ = _ at heq
    rw [loadBranch_zero_left] at heq
    cases heq
  · intro _
    unfold Stalled
    rw [hiMiss, hdMiss, hdStall, hxStall]
    exact hidle
  · intro _
    rw [hpipe]
    rfl

theorem StallsOwed.exceptStep (h : StallsOwed s) (hexcept : 0#32 < s.except) :
    StallsOwed (exceptStep s) := by
  refine h.ingestBubble (h.exceptIdle hexcept) ?_ rfl rfl rfl rfl rfl
  rw [h.exceptIf hexcept, exDelay_zero_left]

theorem StallsOwed.trapStep (h : StallsOwed s) (hkeeps : KeepsStalls s) (hfetch : Fetches s)
    (htrap : (nextInfo s).completes = false) : StallsOwed (trapStep s) := by
  refine h.ingestBubble hfetch.notStalled ?_ rfl rfl rfl rfl rfl
  rcases hkeeps.trap hfetch.except hfetch.notStalled htrap with ⟨hop, hload⟩
  unfold exDelay
  rw [hop, hload]
  rfl

theorem owes_fetchPath (s : Sim) :
    (loadBranch (nextInfo s).instruction s.pipeState.ifInstr.instr = 2#32 ->
        Owes (fetchPath s) 2) ∧
      (loadBranch (nextInfo s).instruction s.pipeState.idInstr.instr = 2#32 ->
        Owes (fetchPath s) 1) := by
  unfold Owes
  rw [fetchPath_dStall]
  unfold branchStall
  rcases loadBranch_cases (nextInfo s).instruction s.pipeState.ifInstr.instr with
    hnear | hnear <;>
    rcases loadBranch_cases (nextInfo s).instruction s.pipeState.idInstr.instr with
      hfar | hfar <;>
    rw [hnear, hfar] <;>
    simp

theorem StallsOwed.fetchPath (h : StallsOwed s) (hfetch : Fetches s) :
    StallsOwed (fetchPath s) := by
  rcases h.of_not_stalled hfetch.notStalled with ⟨_, _, hif, hifFar⟩
  rcases owes_fetchPath s with ⟨howes, howesFar⟩
  have hexcept : ¬ 0#32 < (Cycle.fetchPath s).except := by
    rw [fetchPath_except, hfetch.except]
    decide
  constructor
  · rw [fetchPath_pipeState]
    exact h.ingest hfetch.notStalled _
  · rw [fetchPath_xStall, fetchPath_pipeState]
    rfl
  · rw [fetchPath_pipeState]
    exact hif
  · rw [fetchPath_pipeState]
    exact hifFar
  · rw [fetchPath_pipeState]
    exact howes
  · rw [fetchPath_pipeState]
    exact howesFar
  · intro hpos
    exact absurd hpos hexcept
  · intro hpos
    exact absurd hpos hexcept

theorem StallsOwed.freeze (h : StallsOwed s) (hkeeps : KeepsStalls s)
    (hexcept : s.except = 0#32) (hdMiss : s.dMiss ≠ 0#32)
    (hpipe : (stallStep s).pipeState = (freeze (stampCycle s)).pipeState) :
    StallsOwed (stallStep s) := by
  have hpos : 0 < s.dMiss.toNat := toNat_pos_iff.mpr hdMiss
  have hidle : ¬ 0#32 < (stallStep s).except := by
    rw [stallStep_except, hexcept]
    decide
  constructor
  · rw [hpipe]
    exact ⟨h.inEx.noLoadOp, h.inEx.noOpBranch, h.inEx.noLoadBranch,
      loadBranch_zero_right _⟩
  · have hdelay : exDelay s.pipeState.idInstr.instr s.pipeState.exInstr.instr = 0#32 := by
      unfold exDelay
      rw [hkeeps.freeze.opBranch hdMiss, hkeeps.freeze.loadOp hdMiss]
      rfl
    rw [stallStep_xStall, hpipe, h.xStall, hdelay]
    exact hdelay.symm
  · rw [hpipe]
    exact h.loadBranchId
  · rw [hpipe]
    exact h.loadBranchIdFar
  · rw [hpipe]
    intro heq
    have hle := hkeeps.freeze.near hdMiss heq
    exact owes_stallStep (Or.inl (by lia))
  · rw [hpipe]
    intro heq
    have hle := hkeeps.freeze.far hdMiss heq
    exact owes_stallStep (Or.inl (by lia))
  · intro hexceptPos
    exact absurd hexceptPos hidle
  · intro hexceptPos
    exact absurd hexceptPos hidle

theorem StallsOwed.bubbleEx (h : StallsOwed s) (hexcept : s.except = 0#32)
    (hxStall : 0#32 < s.xStall)
    (hpipe : (stallStep s).pipeState = (bubbleEx (stampCycle s)).pipeState) :
    StallsOwed (stallStep s) := by
  have hidle : ¬ 0#32 < (stallStep s).except := by
    rw [stallStep_except, hexcept]
    decide
  constructor
  · rw [hpipe]
    exact ⟨loadOp_zero_left _, opBranch_zero_left _, loadBranch_zero_left _,
      loadBranch_zero_left _⟩
  · have hone : s.xStall = 1#32 := by
      rcases exDelay_cases s.pipeState.idInstr.instr s.pipeState.exInstr.instr with
        ⟨hzero, _⟩ | hone
      · rw [h.xStall, hzero] at hxStall
        exact absurd hxStall (by decide)
      · rw [h.xStall, hone]
    rw [stallStep_xStall, hone, hpipe]
    exact (exDelay_zero_right _).symm
  · rw [hpipe]
    exact loadBranch_zero_right _
  · rw [hpipe]
    exact h.loadBranchId
  · rw [hpipe]
    intro heq
    have hload : isLoad s.pipeState.idInstr.instr = true := isLoad_of_loadBranch heq
    rw [h.xStall, exDelay_of_isLoad hload] at hxStall
    exact absurd hxStall (by decide)
  · rw [hpipe]
    intro heq
    exact absurd heq (loadBranch_bubble_ne _)
  · intro hexceptPos
    exact absurd hexceptPos hidle
  · intro hexceptPos
    exact absurd hexceptPos hidle

theorem StallsOwed.bubbleId (h : StallsOwed s) (hexcept : s.except = 0#32)
    (hxStall : s.xStall = 0#32)
    (hpipe : (stallStep s).pipeState = (bubbleId (stampCycle s)).pipeState) :
    StallsOwed (stallStep s) := by
  have hidle : ¬ 0#32 < (stallStep s).except := by
    rw [stallStep_except, hexcept]
    decide
  have hdelay := h.xStall
  rw [hxStall] at hdelay
  rcases exDelay_eq_zero hdelay.symm with ⟨hop, hload⟩
  constructor
  · rw [hpipe]
    exact ⟨hload, hop, h.loadBranchId, h.loadBranchIdFar⟩
  · rw [stallStep_xStall, hxStall, hpipe]
    exact (exDelay_zero_left _).symm
  · rw [hpipe]
    exact loadBranch_zero_left _
  · rw [hpipe]
    exact loadBranch_zero_left _
  · rw [hpipe]
    intro heq
    exact absurd heq (loadBranch_bubble_ne _)
  · rw [hpipe]
    intro heq
    exact owes_stallStep (h.loadBranchIf heq)
  · intro hexceptPos
    exact absurd hexceptPos hidle
  · intro hexceptPos
    exact absurd hexceptPos hidle

theorem StallsOwed.stallStep (h : StallsOwed s) (hkeeps : KeepsStalls s)
    (hexcept : s.except = 0#32) (hstalled : Stalled s) : StallsOwed (stallStep s) := by
  rcases stallStep_shuffle hstalled with ⟨t, hcases, hpipe, _⟩
  cases hcases with
  | freeze hdMiss =>
      exact h.freeze hkeeps hexcept hdMiss hpipe
  | bubbleEx _ hxStall =>
      exact h.bubbleEx hexcept hxStall hpipe
  | bubbleId _ hxStall =>
      exact h.bubbleId hexcept hxStall hpipe

theorem StallsOwed.finishCycle (h : StallsOwed s) : StallsOwed (finishCycle s) where
  inEx := h.inEx
  xStall := h.xStall
  loadBranchId := h.loadBranchId
  loadBranchIdFar := h.loadBranchIdFar
  loadBranchIf := h.loadBranchIf
  loadBranchIfFar := h.loadBranchIfFar
  exceptIdle := h.exceptIdle
  exceptIf := h.exceptIf

end Steps

theorem StallsOwed.step {s s' : Sim} (h : StallsOwed s) (hkeeps : KeepsStalls s)
    (hstep : Step s false s') : StallsOwed s' := by
  cases hstep with
  | except hexcept =>
      exact h.exceptStep hexcept
  | stall hexcept hstalled =>
      exact h.stallStep hkeeps hexcept hstalled
  | trap hfetch htrap =>
      exact h.trapStep hkeeps hfetch htrap
  | fetch hfetch _ _ =>
      exact (h.fetchPath hfetch).finishCycle

theorem stallsOwed_of_reaches {ic dc : CacheConfig} {mem : MemoryStore} {k : Nat} {s : Sim}
    (h : machine.Reaches k (initSimulator ic dc mem) s)
    (hkeeps : forall j t, j < k -> machine.Reaches j (initSimulator ic dc mem) t ->
      KeepsStalls t) : StallsOwed s :=
  Machine.Reaches.invariant_of_forall (C := KeepsStalls)
    (fun _ _ hs hC hstep => StallsOwed.step hs hC (step_of_machine hstep))
    (stallsOwed_initSimulator ic dc mem) h hkeeps

theorem NoTrap.trapKeepsStalls {s₀ s t : Sim} {j k : Nat} (hnotrap : NoTrap s)
    (h : machine.Reaches k s₀ s) (hreach : machine.Reaches j s₀ t) (hj : j < k) :
    TrapKeepsStalls t := by
  intro hexcept hidle htrap
  have hlength : j + ((k - j - 1) + 1) = k := by lia
  rw [← hlength] at h
  have hcompletes := hnotrap.completes (h.drop hreach) ⟨hexcept, hidle⟩
  rw [htrap] at hcompletes
  cases hcompletes

end Cycle

/-- As long as no instruction raises an exception and no frozen cycle loses a stall, no
consumer is in EX too close to its producer. -/
theorem hazard_bubbles_inserted (image : MemImage) (ic dc : ValidConfig)
    {k : Nat} {s : Cycle.Sim}
    (h : Cycle.machine.Reaches k
      (Cycle.initSimulator ic.toCacheConfig dc.toCacheConfig
        (MemoryStore.ofImage image)) s)
    (hnotrap : Cycle.NoTrap s)
    (hfreeze : forall j t, j < k ->
      Cycle.machine.Reaches j
        (Cycle.initSimulator ic.toCacheConfig dc.toCacheConfig
          (MemoryStore.ofImage image)) t -> Cycle.FreezeKeepsStalls t) :
    Cycle.NoHazardInEx s.pipeState := by
  refine (Cycle.stallsOwed_of_reaches h ?_).inEx
  intro j t hj hreach
  exact ⟨hfreeze j t hj hreach, hnotrap.trapKeepsStalls h hreach hj⟩

/-- `lw $1, 0($0)`, three words that do nothing, `lw $2, 4($0); addu $3, $2, $2; nop; nop` and
the halt word. -/
def frozenLoadsProgram : List Word :=
  [0x8c010000#32, 0x0#32, 0x0#32, 0x0#32, 0x8c020004#32, 0x00421821#32, 0x0#32, 0x0#32, haltWord]

/-- The first load misses and freezes the pipeline; `addu` waits for the second one. -/
theorem hazard_bubbles_inserted_frozen_loads :
    (Cycle.machine.after 4
        (Cycle.initSimulator (ValidConfig.oneBlock 0#32).toCacheConfig
          (ValidConfig.oneBlock 2#32).toCacheConfig
          (MemoryStore.ofImage (MemImage.ofWords frozenLoadsProgram)))).dMiss = 2#32 ∧
      Cycle.NoHazardInEx
        (Cycle.machine.after 11
          (Cycle.initSimulator (ValidConfig.oneBlock 0#32).toCacheConfig
            (ValidConfig.oneBlock 2#32).toCacheConfig
            (MemoryStore.ofImage (MemImage.ofWords frozenLoadsProgram)))).pipeState := by
  have hreach := Machine.reaches_after (M := Cycle.machine) (n := 11)
    (s := Cycle.initSimulator (ValidConfig.oneBlock 0#32).toCacheConfig
      (ValidConfig.oneBlock 2#32).toCacheConfig
      (MemoryStore.ofImage (MemImage.ofWords frozenLoadsProgram))) (by decide +kernel)
  have hfreeze : forall j, j < 11 -> Cycle.FreezeKeepsStalls
      (Cycle.machine.after j
        (Cycle.initSimulator (ValidConfig.oneBlock 0#32).toCacheConfig
          (ValidConfig.oneBlock 2#32).toCacheConfig
          (MemoryStore.ofImage (MemImage.ofWords frozenLoadsProgram)))) := by
    decide +kernel
  refine ⟨by decide +kernel, hazard_bubbles_inserted _ (ValidConfig.oneBlock 0#32)
    (ValidConfig.oneBlock 2#32) hreach (by decide +kernel) ?_⟩
  intro j t hj ht
  rw [ht.eq_after]
  exact hfreeze j hj

/-- `lw $1, 0($0); lw $2, 4($0); addu $3, $2, $2; nop; nop` and the halt word. -/
def loadsUseProgram : List Word :=
  [0x8c010000#32, 0x8c020004#32, 0x00421821#32, 0x00000000#32, 0x00000000#32, haltWord]

/-- With one cycle of data cache latency the freeze for the first load uses up the stall
for the second. -/
theorem load_use_stall_lost_in_freeze :
    exists (image : MemImage) (ic dc : ValidConfig) (k : Nat) (s : Cycle.Sim),
      Cycle.machine.Reaches k
          (Cycle.initSimulator ic.toCacheConfig dc.toCacheConfig
            (MemoryStore.ofImage image)) s ∧
        Cycle.NoTrap s ∧ ¬ Cycle.NoHazardInEx s.pipeState := by
  refine ⟨MemImage.ofWords loadsUseProgram, ValidConfig.oneBlock 0#32,
    ValidConfig.oneBlock 1#32, 6, _, Machine.reaches_after (by decide +kernel),
    by decide +kernel, by decide +kernel⟩

end PipeSim
