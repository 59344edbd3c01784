import PipeSim.Cache.Latency
import PipeSim.Cycle.Refinement
import PipeSim.Cycle.ZeroLatency

/-!
# From fetch to fetch

A run is a sequence of segments that begin with a fetch.  Behind it come the stall
cycles, as many as the largest counter asks for, or the bubbles of an exception.
-/

namespace PipeSim

open Library

namespace Cycle

/-!
## Stall cycles up to the next fetch
-/

structure StallFrame (s t : Sim) : Prop where
  emulator : t.emulator = s.emulator
  iCache : t.iCache = s.iCache
  ifInstr : t.pipeState.ifInstr = s.pipeState.ifInstr

theorem StallFrame.refl (s : Sim) : StallFrame s s := ⟨rfl, rfl, rfl⟩

theorem StallFrame.trans {s t u : Sim} (hst : StallFrame s t) (htu : StallFrame t u) :
    StallFrame s u :=
  ⟨htu.emulator.trans hst.emulator, htu.iCache.trans hst.iCache,
    htu.ifInstr.trans hst.ifInstr⟩

/-- The state `t` in front of the next fetch, `n` stall cycles behind `s`.  A bubble comes
into ID only in a cycle that serves no `xStall`. -/
structure StallEnd (s : Sim) (n : Nat) (t : Sim) : Prop extends StallFrame s t where
  iMiss : s.iMiss.toNat ≤ n
  dStall : s.dStall.toNat ≤ n
  xStall : s.xStall.toNat ≤ n
  idInstr : t.pipeState.idInstr = s.pipeState.idInstr ∨
    t.pipeState.idInstr = Slot.bubble ∧ s.xStall.toNat + 1 ≤ n

/-- Without data cache delays the largest counter gives the number of stall cycles, and
those that serve no `xStall` bring a bubble into ID. -/
structure PromptEnd (s : Sim) (n : Nat) (t : Sim) : Prop where
  undelayed : Undelayed t
  length : n ≤ max (max s.iMiss.toNat s.dStall.toNat) s.xStall.toNat
  idInstr : max s.iMiss.toNat s.dStall.toNat ≤ s.xStall.toNat ∨
    t.pipeState.idInstr = Slot.bubble

theorem stallStep_front {s : Sim} (h : Stalled s) :
    (stallStep s).pipeState.ifInstr = s.pipeState.ifInstr ∧
      (((s.dMiss ≠ 0#32 ∨ 0 < s.xStall.toNat) ∧
          (stallStep s).pipeState.idInstr = s.pipeState.idInstr) ∨
        (s.dMiss = 0#32 ∧ s.xStall.toNat = 0 ∧
          (stallStep s).pipeState.idInstr = Slot.bubble)) := by
  rcases stallStep_shuffle h with ⟨t, hcases, hpipe, _⟩
  rw [hpipe]
  cases hcases with
  | freeze hdMiss =>
      exact ⟨rfl, Or.inl ⟨Or.inl hdMiss, rfl⟩⟩
  | bubbleEx hdMiss hxStall =>
      exact ⟨rfl, Or.inl ⟨Or.inr (word_pos_iff.mp hxStall), rfl⟩⟩
  | bubbleId hdMiss hxStall =>
      have hzero : s.xStall = 0#32 := hxStall
      exact ⟨rfl, Or.inr ⟨hdMiss, by rw [hzero]; rfl, rfl⟩⟩

theorem stallFrame_stallStep {s : Sim} (h : Stalled s) : StallFrame s (stallStep s) :=
  ⟨stallStep_emulator s, stallStep_iCache s, (stallStep_front h).1⟩

theorem stalled_iff (s : Sim) :
    Stalled s <->
      0 < s.iMiss.toNat ∨ s.dMiss ≠ 0#32 ∨ 0 < s.dStall.toNat ∨ 0 < s.xStall.toNat := by
  unfold Stalled
  simp only [word_pos_iff]
  rw [toNat_pos_iff (w := s.dMiss)]

theorem stallEnd_of_fetches {s : Sim} (h : ¬ Stalled s) : StallEnd s 0 s := by
  rcases counters_of_not_stalled h with ⟨hiMiss, _, hdStall, hxStall⟩
  exact ⟨StallFrame.refl s, by rw [hiMiss]; decide, by rw [hdStall]; decide,
    by rw [hxStall]; decide, Or.inl rfl⟩

theorem StallEnd.head {s t : Sim} {n : Nat} (hstalled : Stalled s)
    (h : StallEnd (stallStep s) n t) : StallEnd s (n + 1) t := by
  have hid := (stallStep_front hstalled).2
  have hiMiss := h.iMiss
  have hdStall := h.dStall
  have hxStall := h.xStall
  rw [stallStep_iMiss, toNat_countDown] at hiMiss
  rw [stallStep_dStall, toNat_countDown] at hdStall
  rw [stallStep_xStall, toNat_countDown] at hxStall
  refine ⟨(stallFrame_stallStep hstalled).trans h.toStallFrame, by lia, by lia, by lia, ?_⟩
  rcases hid with ⟨_, hkept⟩ | ⟨_, hzero, hbubble⟩
  · rcases h.idInstr with hlast | ⟨hlast, hlong⟩
    · exact Or.inl (hlast.trans hkept)
    · rw [stallStep_xStall, toNat_countDown] at hlong
      exact Or.inr ⟨hlast, by lia⟩
  · refine Or.inr ⟨?_, by lia⟩
    rcases h.idInstr with hlast | ⟨hlast, _⟩
    · exact hlast.trans hbubble
    · exact hlast

theorem PromptEnd.head {s t : Sim} {n : Nat} (hstalled : Stalled s) (hundelayed : Undelayed s)
    (hend : StallEnd (stallStep s) n t) (h : PromptEnd (stallStep s) n t) :
    PromptEnd s (n + 1) t := by
  have hlength := h.length
  have hidEnd := h.idInstr
  have hcounter : 0 < s.iMiss.toNat ∨ 0 < s.dStall.toNat ∨ 0 < s.xStall.toNat := by
    rcases (stalled_iff s).mp hstalled with hpos | hne | hpos
    · exact Or.inl hpos
    · exact absurd hundelayed.dMiss hne
    · exact Or.inr hpos
  simp only [stallStep_iMiss, stallStep_dStall, stallStep_xStall, toNat_countDown] at hlength hidEnd
  refine ⟨h.undelayed, by lia, ?_⟩
  rcases (stallStep_front hstalled).2 with ⟨hwhy, _⟩ | ⟨_, _, hbubble⟩
  · have hpos := hwhy.resolve_left (not_not_intro hundelayed.dMiss)
    rcases hidEnd with hle | hlast
    · exact Or.inl (by lia)
    · exact Or.inr hlast
  · rcases hend.idInstr with hlast | ⟨hlast, _⟩
    · exact Or.inr (hlast.trans hbubble)
    · exact Or.inr hlast

theorem exists_stallEnd (s : Sim) (hexcept : s.except = 0#32) :
    exists n t, machine.Reaches n s t ∧ Fetches t ∧ StallEnd s n t ∧
      (Undelayed s -> PromptEnd s n t) := by
  generalize hmeasure : stallMeasure s = a
  induction a using (WellFoundedRelation.wf (α := Nat × Nat × Nat)).induction generalizing s with
  | _ a ih =>
      by_cases hstalled : Stalled s
      · have hlt := stallStep_measure_lt hstalled
        rw [hmeasure] at hlt
        have hexcept' : (stallStep s).except = 0#32 := (stallStep_except s).trans hexcept
        rcases ih _ hlt (stallStep s) hexcept' rfl with ⟨n, t, hreach, hfetch, hend, hprompt⟩
        have hstep := (Step.stall hexcept hstalled).machine_eq
        exact ⟨n + 1, t, hreach.head hstep, hfetch, hend.head hstalled,
          fun hundelayed => (hprompt hundelayed.stallStep).head hstalled hundelayed hend⟩
      · refine ⟨0, s, Machine.Reaches.refl s, ⟨hexcept, hstalled⟩, stallEnd_of_fetches hstalled,
          fun hundelayed => ⟨hundelayed, Nat.zero_le _, Or.inl ?_⟩⟩
        rcases counters_of_not_stalled hstalled with ⟨hiMiss, _, hdStall, _⟩
        rw [hiMiss, hdStall]
        exact Nat.zero_le _

/-!
## The bubbles behind an exception
-/

def trapEnd (s : Sim) : Sim :=
  if (nextInfo s).isOverflow then exceptStep (exceptStep (trapStep s))
  else exceptStep (trapStep s)

def trapLength (s : Sim) : Nat := if (nextInfo s).isOverflow then 3 else 2

theorem trapLength_pos (s : Sim) : 0 < trapLength s := by
  unfold trapLength
  split
  · decide
  · decide

theorem trap_reaches {s : Sim} (hfetch : Fetches s) (htrap : (nextInfo s).completes = false) :
    machine.Reaches (trapLength s) s (trapEnd s) := by
  have hfirst := (Step.trap hfetch htrap).machine_eq
  have hexcept : (trapStep s).except = trapBubbles (nextInfo s) := trapStep_except s
  unfold trapBubbles at hexcept
  unfold trapLength trapEnd
  generalize trapStep s = t at hfirst hexcept
  by_cases hoverflow : (nextInfo s).isOverflow = true
  · rw [if_pos hoverflow] at hexcept
    rw [if_pos hoverflow, if_pos hoverflow]
    have hsecond : (exceptStep t).except = 1#32 := by
      rw [exceptStep_except, hexcept]
      rfl
    exact ((Machine.Reaches.one hfirst).tail
      (Step.except (by rw [hexcept]; decide)).machine_eq).tail
      (Step.except (by rw [hsecond]; decide)).machine_eq
  · rw [if_neg hoverflow] at hexcept
    rw [if_neg hoverflow, if_neg hoverflow]
    exact (Machine.Reaches.one hfirst).tail
      (Step.except (by rw [hexcept]; decide)).machine_eq

/-- Bubbles are in IF and ID behind an exception, and no counter has changed. -/
structure TrapEnd (s t : Sim) : Prop where
  fetches : Fetches t
  emulator : t.emulator = s.emulator.executeInstruction.2
  iCache : t.iCache = s.iCache
  dCache : t.dCache = s.dCache
  dMiss : t.dMiss = s.dMiss
  ifInstr : t.pipeState.ifInstr = Slot.bubble
  idInstr : t.pipeState.idInstr = Slot.bubble

theorem trapEnd_spec {s : Sim} (hfetch : Fetches s) : TrapEnd s (trapEnd s) := by
  have hidle : forall t : Sim, t.iMiss = s.iMiss -> t.dMiss = s.dMiss -> t.dStall = s.dStall ->
      t.xStall = s.xStall -> ¬ Stalled t := by
    intro t hiMiss hdMiss hdStall hxStall
    unfold Stalled
    rw [hiMiss, hdMiss, hdStall, hxStall]
    exact hfetch.notStalled
  have hexcept : (trapStep s).except = trapBubbles (nextInfo s) := trapStep_except s
  unfold trapBubbles at hexcept
  unfold trapEnd
  by_cases hoverflow : (nextInfo s).isOverflow = true
  · rw [if_pos hoverflow] at hexcept
    rw [if_pos hoverflow]
    refine ⟨⟨?_, hidle _ rfl rfl rfl rfl⟩, rfl, rfl, rfl, rfl, rfl, rfl⟩
    rw [exceptStep_except, exceptStep_except, hexcept]
    rfl
  · rw [if_neg hoverflow] at hexcept
    rw [if_neg hoverflow]
    refine ⟨⟨?_, hidle _ rfl rfl rfl rfl⟩, rfl, rfl, rfl, rfl, rfl, rfl⟩
    rw [exceptStep_except, hexcept]
    rfl

/-!
## The counters behind a fetch
-/

theorem fetchStep_fields (s : Sim) :
    (fetchStep s).iCache = (s.iCache.access s.emulator.PC .read).2 ∧
      (fetchStep s).iMiss = missDelay (s.iCache.access s.emulator.PC .read) ∧
      (fetchStep s).except = s.except ∧
      (fetchStep s).pipeState.ifInstr.instr = (nextInfo s).instruction ∧
      (fetchStep s).pipeState.idInstr = s.pipeState.ifInstr ∧
      (fetchStep s).pipeState.exInstr = s.pipeState.idInstr := by
  unfold fetchStep
  rw [finishCycle_iCache, finishCycle_iMiss, finishCycle_except, finishCycle_pipeState,
    fetchPath_iCache, fetchPath_iMiss, fetchPath_except, fetchPath_pipeState]
  exact ⟨rfl, rfl, rfl, rfl, rfl, rfl⟩

theorem fetchStep_hazards {s : Sim} (hfetch : Fetches s) :
    (fetchStep s).dStall =
        branchStall (nextInfo s).instruction s.pipeState.ifInstr.instr
          s.pipeState.idInstr.instr 0#32 ∧
      (fetchStep s).xStall = exDelay s.pipeState.ifInstr.instr s.pipeState.idInstr.instr := by
  unfold fetchStep
  rw [finishCycle_dStall, finishCycle_xStall, fetchPath_dStall, fetchPath_xStall,
    (counters_of_not_stalled hfetch.notStalled).2.2.1]
  exact ⟨rfl, rfl⟩

theorem exDelay_le_one (use dep : Word) : (exDelay use dep).toNat ≤ 1 := by
  rcases exDelay_cases use dep with ⟨hzero, _⟩ | hone
  · rw [hzero]
    decide
  · rw [hone]
    decide

theorem branchStall_le_two (fin din xin : Word) : (branchStall fin din xin 0#32).toNat ≤ 2 := by
  unfold branchStall
  rcases loadBranch_cases fin din with hnear | hnear
  · rcases loadBranch_cases fin xin with hfar | hfar
    · rw [hnear, hfar]
      decide
    · rw [hnear, hfar]
      decide
  · rcases loadBranch_cases fin xin with hfar | hfar
    · rw [hnear, hfar]
      decide
    · rw [hnear, hfar]
      decide

/-- A load in EX asks for at most one stall cycle on top of those that the instruction in ID
asks for. -/
theorem branchStall_bounds (fin din xin : Word) :
    (branchStall fin din 0#32 0#32).toNat ≤ (branchStall fin din xin 0#32).toNat ∧
      (branchStall fin din xin 0#32).toNat ≤ max (branchStall fin din 0#32 0#32).toNat 1 := by
  unfold branchStall
  rw [loadBranch_zero_right]
  rcases loadBranch_cases fin din with hnear | hnear <;>
    rcases loadBranch_cases fin xin with hfar | hfar <;>
    rw [hnear, hfar] <;>
    decide

theorem toNat_missDelay {c : Cache} {config : CacheConfig} {as : List Word}
    (h : c.Models config as) (hways : 1 ≤ config.ways.toNat) (address : Word)
    (operation : CacheOperation) :
    (missDelay (c.access address operation)).toNat = Cache.delayAfter config as address := by
  have hlatency : (c.access address operation).2.config.missLatency = config.missLatency :=
    congrArg CacheConfig.missLatency h.built
  unfold missDelay Cache.delayAfter
  rw [h.access_hit hways, hlatency]
  split
  · rfl
  · rfl

end Cycle
end PipeSim
