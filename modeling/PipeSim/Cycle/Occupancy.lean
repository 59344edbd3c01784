import PipeSim.Cycle.Effects

/-!
# The pipeline conveys every instruction

Seen through the tags of its slots the pipeline is a conveyor belt with five
stages.  The instructions that complete are the items it takes in, in execution
order, and a halting run ends with only the halt word left, in WB.
-/

namespace PipeSim

open Library

namespace Cycle

def PipeState.tags (p : PipeState) : Nat -> Option Nat := fun i => (p.slot i).tag

/-- The numbers of the executions that did not raise an exception, in order. -/
def completing (infos : List InstructionInfo) : List Nat :=
  (List.range infos.length).filter fun n => infos[n]?.any InstructionInfo.completes

theorem mem_completing {infos : List InstructionInfo} {n : Nat} :
    n ∈ completing infos <->
      exists info, infos[n]? = some info ∧ info.completes = true := by
  unfold completing
  rw [List.mem_filter, List.mem_range]
  constructor
  · intro h
    rcases h with ⟨_, hany⟩
    cases hinfo : infos[n]? with
    | none =>
        rw [hinfo] at hany
        cases hany
    | some info =>
        rw [hinfo] at hany
        exact ⟨info, rfl, hany⟩
  · intro h
    rcases h with ⟨info, hinfo, hcompletes⟩
    rw [hinfo]
    exact ⟨(List.getElem?_eq_some_iff.mp hinfo).1, hcompletes⟩

theorem nodup_completing (infos : List InstructionInfo) : (completing infos).Nodup :=
  List.nodup_range.filter _

theorem completing_append (infos : List InstructionInfo) (info : InstructionInfo) :
    completing (infos ++ [info]) =
      completing infos ++ if info.completes then [infos.length] else [] := by
  unfold completing
  rw [List.length_append, List.length_singleton, List.range_succ, List.filter_append]
  congr 1
  · apply List.filter_congr
    intro n hn
    rw [List.getElem?_append_left (List.mem_range.mp hn)]
  · simp [List.filter_singleton]

/-- A slot holds the bubble or the word of an execution that did not raise an
exception. -/
def Accounted (infos : List InstructionInfo) (slot : Slot) : Prop :=
  slot = Slot.bubble ∨
    exists n info, slot.tag = some n ∧ infos[n]? = some info ∧
      info.completes = true ∧ slot.instr = info.instruction

theorem Accounted.append {infos : List InstructionInfo} {slot : Slot}
    (h : Accounted infos slot) (more : List InstructionInfo) :
    Accounted (infos ++ more) slot := by
  rcases h with hbubble | ⟨n, info, htag, hinfo, hcompletes, hinstr⟩
  · exact Or.inl hbubble
  · have hlt := (List.getElem?_eq_some_iff.mp hinfo).1
    rw [← List.getElem?_append_left hlt] at hinfo
    exact Or.inr ⟨n, info, htag, hinfo, hcompletes, hinstr⟩

/-- The invariant: the dumped lines are the history of a belt that takes in the
completing executions, and every slot shows the word of its execution. -/
structure Tracked (s : Sim) : Prop where
  history : Conveyor.History 4 (s.log.lines.map PipeState.tags) s.pipeState.tags
    (completing s.log.infos)
  accounted : forall line, line ∈ s.log.lines -> forall i, i ≤ 4 ->
    Accounted s.log.infos (line.slot i)
  current : forall i, i ≤ 4 -> Accounted s.log.infos (s.pipeState.slot i)

theorem tracked_initSimulator (ic dc : CacheConfig) (mem : MemoryStore) :
    Tracked (initSimulator ic dc mem) where
  history := by
    apply Conveyor.History.start
    intro i hi
    interval_cases i <;> rfl
  accounted := by
    intro line hline
    cases hline
  current := by
    intro i hi
    exact Or.inl (by interval_cases i <;> rfl)

theorem Tracked.moved {s s' : Sim} {m : Nat} {slot : Slot} {address : Word}
    (h : Tracked s) (more : List InstructionInfo) (hmoved : Moved m slot address s s')
    (hm : m ≤ 4) (hslot : 0 < m -> slot.tag = none)
    (hlines : s'.log.lines = s.log.lines ++ [s'.pipeState])
    (hinfos : s'.log.infos = s.log.infos ++ more)
    (hcompleting : completing (s.log.infos ++ more) =
      completing s.log.infos ++ slot.tag.toList)
    (haccounted : Accounted (s.log.infos ++ more) slot) : Tracked s' := by
  have hcurrent : forall i, i ≤ 4 ->
      Accounted (s.log.infos ++ more) (s'.pipeState.slot i) := by
    intro i hi
    rw [hmoved.slots i hi]
    rcases Nat.lt_trichotomy i m with hlt | heq | hgt
    · rw [Conveyor.advance_of_lt slot _ hlt]
      exact (h.current i hi).append more
    · subst heq
      rw [Conveyor.advance_self]
      exact haccounted
    · cases i with
      | zero =>
          lia
      | succ j =>
          rw [Conveyor.advance_succ slot _ (by lia)]
          exact (h.current j (by lia)).append more
  constructor
  · rw [hlines, hinfos, hcompleting, List.map_append]
    refine Conveyor.History.move h.history hm hslot ?_
    intro i hi
    unfold PipeState.tags
    rw [hmoved.slots i hi]
    exact Conveyor.map_advance Slot.tag m slot s.pipeState.slot i
  · rw [hlines, hinfos]
    intro line hline
    rcases List.mem_append.mp hline with hold | hnew
    · intro i hi
      exact (h.accounted line hold i hi).append more
    · rw [List.mem_singleton.mp hnew]
      exact hcurrent
  · rw [hinfos]
    exact hcurrent

theorem Tracked.moved_bubble {s s' : Sim} {m : Nat} (h : Tracked s)
    (hmoved : Moved m Slot.bubble noAddress s s') (hm : m ≤ 4)
    (hlines : s'.log.lines = s.log.lines ++ [s'.pipeState])
    (hinfos : s'.log.infos = s.log.infos) : Tracked s' := by
  refine h.moved [] hmoved hm (fun _ => rfl) hlines ?_ ?_ (Or.inl rfl)
  · rw [hinfos, List.append_nil]
  · exact congrArg completing (List.append_nil _) |>.trans (List.append_nil _).symm

theorem accounted_slotOf {s : Sim} (h : (nextInfo s).completes = true) :
    Accounted (s.log.infos ++ [nextInfo s])
      (slotOf (nextInfo s) s.log.infos.length) := by
  refine Or.inr ⟨s.log.infos.length, nextInfo s, rfl, ?_, h, rfl⟩
  rw [List.getElem?_append_right (Nat.le_refl _), Nat.sub_self]
  rfl

theorem Tracked.finishCycle {s : Sim} (h : Tracked (dump s)) : Tracked (finishCycle s) :=
  ⟨h.history, h.accounted, h.current⟩

theorem Tracked.dump_fetchPath {s : Sim} (h : Tracked s)
    (hcompletes : (nextInfo s).completes = true) : Tracked (dump (fetchPath s)) := by
  refine h.moved [nextInfo s] (fetchPath_moved s).dump (Nat.zero_le 4) ?_ ?_ ?_ ?_
    (accounted_slotOf hcompletes)
  · intro hpos
    cases hpos
  · dsimp only [dump]
    rw [fetchPath_lines]
  · dsimp only [dump]
    rw [fetchPath_infos]
  · rw [completing_append, if_pos hcompletes]
    rfl

theorem Tracked.step {s s' : Sim} (h : Tracked s) (hstep : Step s false s') :
    Tracked s' := by
  have hlines := step_lines hstep
  cases hstep with
  | except _ =>
      exact h.moved_bubble (exceptStep_moved s) (Nat.zero_le 4) hlines rfl
  | stall _ hstalled =>
      exact h.moved_bubble (stallStep_moved hstalled) (stallStage_le s) hlines
        (stallStep_infos s)
  | trap _ htrap =>
      refine h.moved [nextInfo s] (trapStep_moved s) (Nat.zero_le 4) ?_ hlines rfl ?_
        (Or.inl rfl)
      · intro _
        rfl
      · rw [completing_append, htrap]
        rfl
  | fetch _ hcompletes _ =>
      exact (h.dump_fetchPath hcompletes).finishCycle

/-!
## The drain
-/

theorem Tracked.dump_drainStep {t : Sim} (h : Tracked (dump t)) :
    Tracked (dump (drainStep t)) := by
  have hmoved : Moved 0 Slot.bubble noAddress (dump t) (dump (drainStep t)) :=
    ⟨(drainStep_moved t).slots, (drainStep_moved t).addresses⟩
  exact h.moved_bubble hmoved (Nat.zero_le 4) rfl rfl

theorem Tracked.haltStep {s : Sim} (h : Tracked s)
    (hcompletes : (nextInfo s).completes = true) : Tracked (haltStep s) := by
  have hdrained : Tracked (dump (haltDrain (fetchPath s))) := by
    unfold haltDrain
    apply forLoop_induction (fun (_ : Nat) (t : Sim) => Tracked (dump t))
    · exact h.dump_fetchPath hcompletes
    · intro _ t _ ht
      exact ht.dump_drainStep
  exact hdrained.finishCycle

theorem haltDrain_slot (s : Sim) {i : Nat} (hi : i < 4) :
    (haltDrain s).pipeState.slot i = Slot.bubble := by
  unfold haltDrain
  have hloop := @forLoop_induction _ 4 (fun _ => drainStep) s
    (fun (k : Nat) (t : Sim) => forall j, j < k -> t.pipeState.slot j = Slot.bubble)
    (fun j hj => by cases hj)
    (by
      intro k t hk ht j hj
      rw [(drainStep_moved t).slots j (by lia)]
      cases j with
      | zero =>
          exact Conveyor.advance_self 0 _ _
      | succ j =>
          rw [Conveyor.advance_succ _ _ (Nat.zero_le j)]
          exact ht j (by lia))
  exact hloop i hi

/-!
## The fetch of an execution
-/

/-- Execution `n` belongs to a fetch of the run: in the state `t` in front of it `n`
instructions had been executed, and when it completes it is in IF in the line dumped
at the end of that cycle. -/
def FetchedAt (s₀ : Sim) (infos : List InstructionInfo) (lines : List PipeState)
    (n : Nat) (t : Sim) : Prop :=
  machine.Reaches t.log.lines.length s₀ t ∧ Fetches t ∧ t.log.infos.length = n ∧
    infos[n]? = some (nextInfo t) ∧ t.log.lines <+: lines ∧
    ((nextInfo t).completes = true ->
      exists line, lines[t.log.lines.length]? = some line ∧ line.ifInstr.tag = some n)

theorem FetchedAt.append {s₀ : Sim} {infos : List InstructionInfo}
    {lines : List PipeState} {n : Nat} {t : Sim} (h : FetchedAt s₀ infos lines n t)
    (moreInfos : List InstructionInfo) (moreLines : List PipeState) :
    FetchedAt s₀ (infos ++ moreInfos) (lines ++ moreLines) n t := by
  rcases h with ⟨hreach, hfetch, hlength, hinfo, hprefix, hline⟩
  refine ⟨hreach, hfetch, hlength, ?_, ?_, ?_⟩
  · rw [List.getElem?_append_left (List.getElem?_eq_some_iff.mp hinfo).1, hinfo]
  · exact hprefix.trans (List.prefix_append _ _)
  · intro hcompletes
    rcases hline hcompletes with ⟨line, hget, htag⟩
    refine ⟨line, ?_, htag⟩
    rw [List.getElem?_append_left (List.getElem?_eq_some_iff.mp hget).1, hget]

theorem fetchedAt_next {s₀ s : Sim} {line : PipeState} {lines : List PipeState}
    (hreach : machine.Reaches s.log.lines.length s₀ s) (hfetch : Fetches s)
    (htag : (nextInfo s).completes = true -> line.ifInstr.tag = some s.log.infos.length) :
    FetchedAt s₀ (s.log.infos ++ [nextInfo s]) (s.log.lines ++ line :: lines)
      s.log.infos.length s := by
  refine ⟨hreach, hfetch, rfl, ?_, List.prefix_append _ _, ?_⟩
  · rw [List.getElem?_append_right (Nat.le_refl _), Nat.sub_self]
    rfl
  · intro hcompletes
    refine ⟨line, ?_, htag hcompletes⟩
    rw [List.getElem?_append_right (Nat.le_refl _), Nat.sub_self]
    rfl

def AllFetched (s₀ s : Sim) : Prop :=
  forall n, n < s.log.infos.length ->
    exists t, FetchedAt s₀ s.log.infos s.log.lines n t

theorem AllFetched.append_lines {s₀ s s' : Sim} (h : AllFetched s₀ s)
    {lines : List PipeState} (hinfos : s'.log.infos = s.log.infos)
    (hlines : s'.log.lines = s.log.lines ++ lines) : AllFetched s₀ s' := by
  intro n hn
  rw [hinfos] at hn ⊢
  rw [hlines]
  rcases h n hn with ⟨t, ht⟩
  have happend := ht.append [] lines
  rw [List.append_nil] at happend
  exact ⟨t, happend⟩

theorem AllFetched.append_info {s₀ s s' : Sim} (h : AllFetched s₀ s)
    (hreach : machine.Reaches s.log.lines.length s₀ s) (hfetch : Fetches s)
    {line : PipeState} {lines : List PipeState}
    (hinfos : s'.log.infos = s.log.infos ++ [nextInfo s])
    (hlines : s'.log.lines = s.log.lines ++ line :: lines)
    (htag : (nextInfo s).completes = true -> line.ifInstr.tag = some s.log.infos.length) :
    AllFetched s₀ s' := by
  intro n hn
  rw [hinfos, List.length_append, List.length_singleton] at hn
  rw [hinfos, hlines]
  rcases Nat.lt_succ_iff_lt_or_eq.mp hn with hlt | heq
  · rcases h n hlt with ⟨t, ht⟩
    exact ⟨t, ht.append _ _⟩
  · subst heq
    exact ⟨s, fetchedAt_next hreach hfetch htag⟩

theorem fetchPath_ifInstr_tag (s : Sim) :
    (fetchPath s).pipeState.ifInstr.tag = some s.log.infos.length := by
  rw [fetchPath_pipeState]
  rfl

theorem AllFetched.step {s₀ s s' : Sim} (h : AllFetched s₀ s)
    (hreach : machine.Reaches s.log.lines.length s₀ s) (hstep : Step s false s') :
    AllFetched s₀ s' := by
  have hlines := step_lines hstep
  cases hstep with
  | except _ =>
      exact h.append_lines rfl hlines
  | stall _ _ =>
      exact h.append_lines (stallStep_infos s) hlines
  | trap hfetch htrap =>
      refine h.append_info hreach hfetch rfl hlines ?_
      intro hcompletes
      rw [hcompletes] at htrap
      cases htrap
  | fetch hfetch _ _ =>
      exact h.append_info hreach hfetch (fetchPath_infos s) hlines
        fun _ => fetchPath_ifInstr_tag s

theorem haltStep_lines (s : Sim) :
    exists lines, (haltStep s).log.lines =
      s.log.lines ++ (fetchPath s).pipeState ::
        (drainStep (fetchPath s)).pipeState :: lines := by
  refine ⟨[(drainStep (drainStep (fetchPath s))).pipeState,
    (drainStep (drainStep (drainStep (fetchPath s)))).pipeState,
    (haltDrain (fetchPath s)).pipeState], ?_⟩
  rw [← fetchPath_lines s]
  unfold haltStep
  generalize fetchPath s = t
  simp [finishCycle, haltDrain, forLoop, drainStep, dump, ingestBubble, ingestBuffer,
    ingestPipeline]

/-!
## Whole runs
-/

structure RunInvariant (s₀ : Sim) (k : Nat) (s : Sim) : Prop where
  tracked : Tracked s
  fetched : AllFetched s₀ s
  length : s.log.lines.length = k

theorem runInvariant_of_reaches {s₀ s : Sim} {k : Nat} (h₀ : Tracked s₀)
    (hinfos : s₀.log.infos = []) (hlines : s₀.log.lines = [])
    (h : machine.Reaches k s₀ s) : RunInvariant s₀ k s := by
  induction h with
  | refl _ =>
      refine ⟨h₀, ?_, ?_⟩
      · intro n hn
        rw [hinfos] at hn
        cases hn
      · rw [hlines]
        rfl
  | @tail k s₁ s s' hprev hlast ih =>
      have hbefore := ih h₀ hinfos hlines
      have hstep := step_of_machine hlast
      have hreach : machine.Reaches s.log.lines.length s₁ s := by
        rw [hbefore.length]
        exact hprev
      refine ⟨hbefore.tracked.step hstep, hbefore.fetched.step hreach hstep, ?_⟩
      rw [step_lines hstep, List.length_append, hbefore.length]
      rfl

theorem tracked_of_runTillHalt {ic dc : CacheConfig} {mem : MemoryStore} {fuel : Nat}
    {s : Sim} (h : runTillHalt fuel (initSimulator ic dc mem) = some (.halt, s)) :
    Tracked s ∧ AllFetched (initSimulator ic dc mem) s ∧
      forall i, i < 4 -> s.pipeState.slot i = Slot.bubble := by
  rcases exists_haltStep_of_runTillHalt h with ⟨k, u, hreach, hfetch, hhalt, rfl⟩
  have hcompletes := completes_of_isHalt hhalt
  have hinvariant := runInvariant_of_reaches (tracked_initSimulator ic dc mem) rfl rfl hreach
  refine ⟨hinvariant.tracked.haltStep hcompletes, ?_, ?_⟩
  · rcases haltStep_lines u with ⟨lines, hlines⟩
    rw [← hinvariant.length] at hreach
    exact hinvariant.fetched.append_info hreach hfetch (haltStep_infos u) hlines
      fun _ => fetchPath_ifInstr_tag u
  · intro i hi
    exact haltDrain_slot (fetchPath u) hi

theorem Tracked.exists_journey {s₀ s : Sim} (h : Tracked s) (hfetched : AllFetched s₀ s)
    (hempty : forall i, i < 4 -> s.pipeState.slot i = Slot.bubble)
    (h₀ : Tracked s₀) (hinfos : s₀.log.infos = []) (hlines : s₀.log.lines = [])
    {n : Nat} {info : InstructionInfo} (hinfo : s.log.infos[n]? = some info)
    (hcompletes : info.completes = true) :
    exists a b stage t,
      Conveyor.Journey 4 (s.log.lines.map PipeState.tags) n a b stage ∧ stage b = 4 ∧
        machine.Reaches a s₀ t ∧ Fetches t ∧ t.log.infos.length = n := by
  have hmem : n ∈ completing s.log.infos := mem_completing.mpr ⟨info, hinfo, hcompletes⟩
  rcases h.history.exists_journey (nodup_completing _) hmem with
    ⟨a, b, stage, hjourney, hwhere⟩
  have hretired : stage b = 4 := by
    rcases hwhere with hb | hb
    · have hlast := h.history.getElem?_last (Nat.zero_lt_of_lt hjourney.lt_length)
      rw [← hb, Nat.add_sub_cancel] at hlast
      have htag := (hjourney.occupies b _ hlast (stage b) hjourney.le_last).mpr
        ⟨hjourney.le, Nat.le_refl b, rfl⟩
      have hle := hjourney.le_last
      rcases Nat.lt_or_ge (stage b) 4 with hlt | hge
      · unfold PipeState.tags at htag
        rw [hempty (stage b) hlt] at htag
        cases htag
      · lia
    · exact hb
  rcases hfetched n (List.getElem?_eq_some_iff.mp hinfo).1 with
    ⟨t, hreach, hfetch, hlength, hnext, hprefix, hline⟩
  have hinvariant := runInvariant_of_reaches h₀ hinfos hlines hreach
  have hnextCompletes : (nextInfo t).completes = true := by
    rw [hinfo] at hnext
    cases hnext
    exact hcompletes
  rcases hline hnextCompletes with ⟨line, hget, htag⟩
  have hstart : a = t.log.lines.length := by
    have hshown : (s.log.lines.map PipeState.tags)[t.log.lines.length]? = some line.tags := by
      rw [List.getElem?_map, hget]
      rfl
    apply hjourney.start_eq hshown
    · exact htag
    · intro j l hj hl
      rw [List.getElem?_map] at hl
      rcases hprefix with ⟨rest, hrest⟩
      rw [← hrest, List.getElem?_append_left hj, ← List.getElem?_map] at hl
      have hfresh : n ∉ completing t.log.infos := by
        intro hold
        rcases mem_completing.mp hold with ⟨_, hold, _⟩
        have hlt := (List.getElem?_eq_some_iff.mp hold).1
        lia
      exact (hinvariant.tracked.history.absent hfresh).2 l (List.mem_of_getElem? hl)
  subst hstart
  exact ⟨_, b, stage, t, hjourney, hretired, hreach, hfetch, hlength⟩

end Cycle

/-- In every halting run each instruction that completes, the halt word included, is
conveyed from IF in the line of its fetch to exactly one line in WB, the instructions
in WB appear in execution order, an instruction that raised an exception is in no line,
and every slot shows the bubble or the word of its instruction. -/
theorem pipeline_conveys_instructions (image : MemImage) (ic dc : ValidConfig)
    {fuel : Nat} {s : Cycle.Sim}
    (h : Cycle.runTillHalt fuel
      (Cycle.initSimulator ic.toCacheConfig dc.toCacheConfig
        (MemoryStore.ofImage image)) = some (.halt, s)) :
    (forall n info, s.log.infos[n]? = some info -> info.completes = true ->
      exists a b stage t,
        Conveyor.Journey 4 (s.log.lines.map Cycle.PipeState.tags) n a b stage ∧
          stage b = 4 ∧
          Cycle.machine.Reaches a
            (Cycle.initSimulator ic.toCacheConfig dc.toCacheConfig
              (MemoryStore.ofImage image)) t ∧
          Cycle.Fetches t ∧ t.log.infos.length = n) ∧
      s.log.lines.filterMap (fun line => line.wbInstr.tag) =
        Cycle.completing s.log.infos ∧
      (forall n info, s.log.infos[n]? = some info -> info.completes = false ->
        forall line, line ∈ s.log.lines -> forall i, i ≤ 4 ->
          (line.slot i).tag ≠ some n) ∧
      forall line, line ∈ s.log.lines -> forall i, i ≤ 4 ->
        Cycle.Accounted s.log.infos (line.slot i) := by
  rcases Cycle.tracked_of_runTillHalt h with ⟨htracked, hfetched, hempty⟩
  refine ⟨?_, ?_, ?_, htracked.accounted⟩
  · intro n info hinfo hcompletes
    exact htracked.exists_journey hfetched hempty (Cycle.tracked_initSimulator _ _ _) rfl rfl
      hinfo hcompletes
  · have hfifo := htracked.history.fifo
    rw [Conveyor.contents_eq_nil, List.append_nil, List.filterMap_map] at hfifo
    · exact hfifo
    · intro i hi
      unfold Cycle.PipeState.tags
      rw [hempty i hi]
      rfl
  · intro n info hinfo htrap line hline i hi
    have hfresh : n ∉ Cycle.completing s.log.infos := by
      intro hmem
      rcases Cycle.mem_completing.mp hmem with ⟨info', hinfo', hcompletes⟩
      rw [hinfo] at hinfo'
      cases hinfo'
      rw [htrap] at hcompletes
      cases hcompletes
    exact (htracked.history.absent hfresh).2 _ (List.mem_map_of_mem hline) i hi

/-- `lw $1, 0($0); addu $2, $1, $1` and the halt word. -/
def loadUseProgram : List Word := [0x8c010000#32, 0x00211021#32, haltWord]

theorem pipeline_conveys_load_use :
    exists fuel s,
      Cycle.runTillHalt fuel
          (Cycle.initSimulator (ValidConfig.oneBlock 3#32).toCacheConfig
            (ValidConfig.oneBlock 2#32).toCacheConfig
            (MemoryStore.ofImage (MemImage.ofWords loadUseProgram))) =
          some (.halt, s) ∧
        s.log.lines.filterMap (fun line => line.wbInstr.tag) = [0, 1, 2] := by
  have hrun := Cycle.exists_runTillHalt_after (n := 5)
    (s := Cycle.initSimulator (ValidConfig.oneBlock 3#32).toCacheConfig
      (ValidConfig.oneBlock 2#32).toCacheConfig
      (MemoryStore.ofImage (MemImage.ofWords loadUseProgram)))
    (by decide) (by decide +kernel)
  rcases hrun with ⟨fuel, hrun⟩
  refine ⟨fuel, _, hrun, ?_⟩
  rw [(pipeline_conveys_instructions _ (ValidConfig.oneBlock 3#32)
    (ValidConfig.oneBlock 2#32) hrun).2.1]
  decide

end PipeSim
