import PipeSim.Cycle.References
import PipeSim.Cycle.Segments
import PipeSim.Cycle.ZeroLatency

/-!
# The length of a segment

In a run that loses neither a probe nor a stall, the stall cycles behind a fetch follow
from the delay of the fetch and the delays of the data references on their way to
MEM: a data cache delay freezes the pipeline, and in between the references move
on, one a cycle, as long as the fetch is not served.
-/

namespace PipeSim

open Library

namespace Cycle

/-- The coming step loses neither a probe nor a stall. -/
structure KeepsDelays (s : Sim) : Prop where
  probes : KeepsProbes s
  stalls : KeepsStalls s

instance (s : Sim) : Decidable (KeepsDelays s) :=
  decidable_of_iff (KeepsProbes s ∧ FreezeKeepsStalls s ∧ TrapKeepsStalls s)
    ⟨fun h => ⟨h.1, h.2.1, h.2.2⟩, fun h => ⟨h.probes, h.stalls.freeze, h.stalls.trap⟩⟩

/-!
## Views
-/

def addressOf (reference : Option (Word × CacheOperation)) : List Word :=
  (reference.map Prod.fst).toList

def delayOf (config : CacheConfig) (seen : List Word)
    (reference : Option (Word × CacheOperation)) : Nat :=
  match reference with
  | some r => Cache.delayAfter config seen r.1
  | none => 0

/-- What the timing of the coming cycles depends on: the instruction and the reference in
ID, the reference in EX and the addresses presented to the data cache so far. -/
structure View where
  din : Word
  dinRef : Option (Word × CacheOperation)
  exRef : Option (Word × CacheOperation)
  seen : List Word

def View.delay (config : CacheConfig) (v : View) : Nat := delayOf config v.seen v.exRef

theorem View.delay_of_none (config : CacheConfig) {v : View} (h : v.exRef = none) :
    v.delay config = 0 := by
  unfold View.delay
  rw [h]
  rfl

def View.skip (v : View) : View where
  din := v.din
  dinRef := v.dinRef
  exRef := none
  seen := v.seen ++ addressOf v.exRef

def View.shift (v : View) : View where
  din := 0#32
  dinRef := none
  exRef := v.dinRef
  seen := v.seen ++ addressOf v.exRef

def View.fetch (v : View) (fin : Word) (finRef : Option (Word × CacheOperation)) : View where
  din := fin
  dinRef := finRef
  exRef := v.dinRef
  seen := v.seen ++ addressOf v.exRef

/-- A state in a stall, `i`, `x` and `d` being the delays that are still to be served for
the fetch, in front of EX and in MEM. -/
structure Waits (config : CacheConfig) (s : Sim) (i x d : Nat) (v : View) : Prop where
  except : s.except = 0#32
  iMiss : s.iMiss.toNat = i
  dStall : s.dStall.toNat ≤ i
  xStall : s.xStall.toNat = x
  dMiss : s.dMiss.toNat = d
  idInstr : s.pipeState.idInstr.instr = v.din
  idRef : references s 1 = v.dinRef
  exRef : references s 2 = v.exRef
  dCache : exists before, v.seen = before ++ addressOf (memReference s) ∧
    s.dCache.Models config v.seen

/-!
## One stall cycle
-/

/-- Stall cycles, which leave what is in IF and the emulator alone. -/
structure StallRun (n : Nat) (s t : Sim) : Prop extends StallFrame s t where
  reaches : machine.Reaches n s t
  ifRef : references t 0 = references s 0

theorem StallRun.refl (s : Sim) : StallRun 0 s s :=
  ⟨StallFrame.refl s, Machine.Reaches.refl s, rfl⟩

theorem StallRun.trans {m n : Nat} {s t u : Sim} (hst : StallRun m s t)
    (htu : StallRun n t u) : StallRun (m + n) s u :=
  ⟨hst.toStallFrame.trans htu.toStallFrame, hst.reaches.trans htu.reaches,
    htu.ifRef.trans hst.ifRef⟩

theorem stallRun_one {s : Sim} (hexcept : s.except = 0#32) (hstalled : Stalled s) :
    StallRun 1 s (stallStep s) := by
  refine ⟨stallFrame_stallStep hstalled,
    Machine.Reaches.one (Step.stall hexcept hstalled).machine_eq, ?_⟩
  rw [(stallStep_moved hstalled).reference (Nat.zero_le 3)]
  exact Conveyor.advance_of_lt _ _ (stallStage_pos s)

section Waits

variable {config : CacheConfig} {s : Sim} {i x d : Nat} {v : View}

theorem Waits.stalled (h : Waits config s i x d v) (hpos : 0 < i + x + d) : Stalled s := by
  rw [stalled_iff]
  rcases Nat.eq_zero_or_pos d with hzero | hd
  · rw [h.iMiss, h.xStall]
    lia
  · refine Or.inr (Or.inl ?_)
    intro hzero
    have hdMiss := h.dMiss
    rw [toNat_eq_zero_iff.mpr hzero] at hdMiss
    lia

theorem Waits.fetches (h : Waits config s 0 0 0 v) : Fetches s := by
  refine ⟨h.except, not_stalled_iff.mpr ⟨?_, ?_, ?_, ?_⟩⟩
  · exact toNat_eq_zero_iff.mp h.iMiss
  · exact toNat_eq_zero_iff.mp h.dMiss
  · exact toNat_eq_zero_iff.mp (Nat.le_zero.mp h.dStall)
  · exact toNat_eq_zero_iff.mp h.xStall

theorem referenceDelay_of_models {c : Cache} {seen : List Word} (h : c.Models config seen)
    (hways : 1 ≤ config.ways.toNat) (reference : Option (Word × CacheOperation)) :
    (referenceDelay c reference).toNat = delayOf config seen reference ∧
      (referenceServed c reference).Models config (seen ++ addressOf reference) := by
  cases reference with
  | none =>
      refine ⟨rfl, ?_⟩
      change c.Models config (seen ++ [])
      rw [List.append_nil]
      exact h
  | some r =>
      exact ⟨toNat_missDelay h hways r.1 r.2, (h.access hways r.1 r.2).2⟩

theorem referenceDelay_again {c : Cache} {before : List Word}
    {reference : Option (Word × CacheOperation)}
    (h : c.Models config (before ++ addressOf reference)) (hways : 1 ≤ config.ways.toNat) :
    referenceDelay c reference = 0#32 ∧
      (referenceServed c reference).Models config (before ++ addressOf reference) := by
  cases reference with
  | none =>
      exact ⟨rfl, h⟩
  | some r =>
      rcases Cache.Models.repeat_access h hways r.2 with ⟨hhit, hmodels⟩
      refine ⟨?_, hmodels⟩
      change missDelay (c.access r.1 r.2) = 0#32
      unfold missDelay
      rw [hhit]
      rfl

theorem Waits.freeze (h : Waits config s i x (d + 1) v) (hways : 1 ≤ config.ways.toNat) :
    Waits config (stallStep s) (i - 1) (x - 1) d v := by
  have hstalled := h.stalled (by lia)
  have hdMiss : s.dMiss ≠ 0#32 := by
    intro hzero
    have hsucc := h.dMiss
    rw [toNat_eq_zero_iff.mpr hzero] at hsucc
    lia
  have hmoved := stallStep_moved hstalled
  rw [stallStage_of_freeze hdMiss] at hmoved
  have hmem := memReference_stallStep_of_freeze hdMiss
  rcases h.dCache with ⟨before, hseen, hmodels⟩
  have hagain := hmodels
  rw [hseen] at hagain
  rcases referenceDelay_again hagain hways with ⟨hzero, hserved⟩
  refine ⟨(stallStep_except s).trans h.except, ?_, ?_, ?_, ?_, ?_, ?_, ?_, before, ?_, ?_⟩
  · rw [stallStep_iMiss, toNat_countDown, h.iMiss]
  · have hle := h.dStall
    rw [stallStep_dStall, toNat_countDown]
    lia
  · rw [stallStep_xStall, toNat_countDown, h.xStall]
  · rw [stallStep_dMiss, hmem, hzero, ite_self, BitVec.add_zero, toNat_countDown, h.dMiss]
    rfl
  · have hslot := hmoved.slots 1 (by decide)
    rw [Conveyor.advance_of_lt _ _ (by decide)] at hslot
    exact (congrArg Slot.instr hslot).trans h.idInstr
  · rw [hmoved.reference (by decide), Conveyor.advance_of_lt _ _ (by decide)]
    exact h.idRef
  · rw [hmoved.reference (by decide), Conveyor.advance_of_lt _ _ (by decide)]
    exact h.exRef
  · rw [hmem]
    exact hseen
  · rw [stallStep_dCache, hmem]
    split
    · rw [hseen]
      exact hserved
    · exact hmodels

theorem references_eq_none {k : Nat} (h : operation? (s.pipeState.slot k).instr = none) :
    references s k = none :=
  referenceOf_of_operation?_eq_none h _

theorem Waits.exRef_eq_none (h : Waits config s i x 0 v) (hkeeps : KeepsProbes s)
    (hstalled : Stalled s) (hlast : i ≤ 1) (hx : x ≤ 1) : v.exRef = none := by
  rw [← h.exRef]
  apply references_eq_none
  by_contra hop
  have hdMiss : s.dMiss = 0#32 := toNat_eq_zero_iff.mp h.dMiss
  have hiMiss := h.iMiss
  have hdStall := h.dStall
  have hxStall := h.xStall
  have hkeepsStalling := hkeeps.stall h.except hstalled hdMiss hop
  unfold KeepsStalling at hkeepsStalling
  simp only [BitVec.lt_def, BitVec.toNat_ofNat, Nat.reducePow, Nat.reduceMod] at hkeepsStalling
  lia

theorem Waits.served (h : Waits config s i x 0 v) (hkeeps : KeepsProbes s)
    (hways : 1 ≤ config.ways.toNat) (hx : x ≤ 1) (hpos : 0 < i + x)
    (hmem : memReference (stallStep s) = v.exRef) :
    (stallStep s).dMiss.toNat = v.delay config ∧
      (stallStep s).dCache.Models config (v.seen ++ addressOf v.exRef) := by
  have hstalled := h.stalled (by lia)
  rcases h.dCache with ⟨_, _, hmodels⟩
  have hdMiss : s.dMiss = 0#32 := toNat_eq_zero_iff.mp h.dMiss
  rw [stallStep_dMiss, stallStep_dCache, hdMiss, countDown_zero, BitVec.zero_add, hmem]
  rcases referenceDelay_of_models hmodels hways v.exRef with ⟨hdelay, hserved⟩
  by_cases hon : StallsOn (shuffled s)
  · rw [if_pos hon, if_pos hon]
    exact ⟨hdelay, hserved⟩
  · rw [if_neg hon, if_neg hon]
    have hlast : i ≤ 1 := by
      have hiMiss := h.iMiss
      rw [stallsOn_iff] at hon
      simp only [shuffled_iMiss, toNat_countDown] at hon
      lia
    have hnone := h.exRef_eq_none hkeeps hstalled hlast hx
    rw [View.delay_of_none config hnone, hnone]
    refine ⟨rfl, ?_⟩
    change s.dCache.Models config (v.seen ++ [])
    rw [List.append_nil]
    exact hmodels

theorem Waits.shift (h : Waits config s (i + 1) 0 0 v) (hkeeps : KeepsProbes s)
    (hways : 1 ≤ config.ways.toNat) :
    Waits config (stallStep s) i 0 (v.delay config) v.shift := by
  have hstalled := h.stalled (by lia)
  have hdMiss : s.dMiss = 0#32 := toNat_eq_zero_iff.mp h.dMiss
  have hxStall : s.xStall = 0#32 := toNat_eq_zero_iff.mp h.xStall
  have hmoved := stallStep_moved hstalled
  rw [stallStage_of_zero hdMiss hxStall] at hmoved
  have hmem : memReference (stallStep s) = v.exRef := by
    rw [← h.exRef]
    exact hmoved.reference (i := 3) (Nat.le_refl 3)
  rcases h.served hkeeps hways (by decide) (by lia) hmem with ⟨hdelay, hserved⟩
  refine ⟨(stallStep_except s).trans h.except, ?_, ?_, ?_, hdelay, ?_, ?_, ?_,
    v.seen, ?_, hserved⟩
  · rw [stallStep_iMiss, toNat_countDown, h.iMiss]
    rfl
  · have hle := h.dStall
    rw [stallStep_dStall, toNat_countDown]
    lia
  · rw [stallStep_xStall, hxStall]
    rfl
  · exact congrArg Slot.instr (hmoved.slots 1 (by decide))
  · exact hmoved.reference (i := 1) (by decide)
  · exact (hmoved.reference (i := 2) (by decide)).trans h.idRef
  · rw [hmem]
    rfl

theorem Waits.skip (h : Waits config s i 1 0 v) (hkeeps : KeepsProbes s)
    (hways : 1 ≤ config.ways.toNat) :
    Waits config (stallStep s) (i - 1) 0 (v.delay config) v.skip := by
  have hstalled := h.stalled (by lia)
  have hdMiss : s.dMiss = 0#32 := toNat_eq_zero_iff.mp h.dMiss
  have hpos : 0#32 < s.xStall := by
    rw [word_pos_iff, h.xStall]
    decide
  have hmoved := stallStep_moved hstalled
  rw [stallStage_of_xStall hdMiss hpos] at hmoved
  have hmem : memReference (stallStep s) = v.exRef := by
    rw [← h.exRef]
    exact hmoved.reference (i := 3) (Nat.le_refl 3)
  rcases h.served hkeeps hways (by decide) (by lia) hmem with ⟨hdelay, hserved⟩
  refine ⟨(stallStep_except s).trans h.except, ?_, ?_, ?_, hdelay, ?_, ?_, ?_,
    v.seen, ?_, hserved⟩
  · rw [stallStep_iMiss, toNat_countDown, h.iMiss]
  · have hle := h.dStall
    rw [stallStep_dStall, toNat_countDown]
    lia
  · rw [stallStep_xStall, toNat_countDown, h.xStall]
  · exact (congrArg Slot.instr (hmoved.slots 1 (by decide))).trans h.idInstr
  · exact (hmoved.reference (i := 1) (by decide)).trans h.idRef
  · exact hmoved.reference (i := 2) (by decide)
  · rw [hmem]
    rfl

/-!
## All stall cycles of a segment
-/

def KeepsAllDelays (s : Sim) : Prop := forall k t, machine.Reaches k s t -> KeepsDelays t

theorem KeepsAllDelays.now (h : KeepsAllDelays s) : KeepsDelays s :=
  h 0 s (Machine.Reaches.refl s)

theorem KeepsAllDelays.of_reaches {n : Nat} {t : Sim} (h : KeepsAllDelays s)
    (hreach : machine.Reaches n s t) : KeepsAllDelays t :=
  fun _ u hu => h _ u (hreach.trans hu)

theorem Waits.freezeAll (h : Waits config s i x d v) (hways : 1 ≤ config.ways.toNat) :
    exists t, StallRun d s t ∧ Waits config t (i - d) (x - d) 0 v := by
  induction d generalizing s i x with
  | zero =>
      exact ⟨s, StallRun.refl s, h⟩
  | succ d ih =>
      rcases ih (h.freeze hways) with ⟨t, hrun, ht⟩
      have hfirst := stallRun_one h.except (h.stalled (by lia))
      refine ⟨t, ?_, ?_⟩
      · rw [Nat.add_comm]
        exact hfirst.trans hrun
      · rw [Nat.sub_sub, Nat.sub_sub, Nat.add_comm 1 d] at ht
        exact ht

def View.bubbles (seen : List Word) : View where
  din := 0#32
  dinRef := none
  exRef := none
  seen := seen

theorem Waits.drain {seen : List Word} (h : Waits config s i 0 0 (View.bubbles seen))
    (hkeeps : KeepsAllDelays s) (hways : 1 ≤ config.ways.toNat) :
    exists t, StallRun i s t ∧ Waits config t 0 0 0 (View.bubbles seen) := by
  induction i generalizing s with
  | zero =>
      exact ⟨s, StallRun.refl s, h⟩
  | succ i ih =>
      have hfirst := stallRun_one h.except (h.stalled (by lia))
      have hnext := h.shift hkeeps.now.probes hways
      have hsame : (View.bubbles seen).shift = View.bubbles seen := by
        unfold View.shift View.bubbles addressOf
        simp
      rw [hsame, View.delay_of_none config rfl] at hnext
      rcases ih hnext (hkeeps.of_reaches hfirst.reaches) with ⟨t, hrun, ht⟩
      refine ⟨t, ?_, ht⟩
      rw [Nat.add_comm]
      exact hfirst.trans hrun

/-- The possible lengths of the stall behind a fetch, with the view at its end.  The delay
`d` in MEM is served first.  Then EX and ID move on, one stage a cycle, as long as the
delay `i` of the fetch is not over, and each reference that enters MEM may add its
delay.  A stall in front of EX holds ID back for its cycle. -/
inductive Segment (config : CacheConfig) (i x d : Nat) (v : View) : Nat -> View -> Prop where
  | kept (hx : x = 0) (hi : i ≤ d) : Segment config i x d v d v
  | moved (hx : x = 0) (hd : d < i) (hi : i ≤ d + 1 + v.delay config)
      (hprobe : v.delay config = 0 ∨ d + 2 ≤ i) :
      Segment config i x d v (d + 1 + v.delay config) v.shift
  | emptied (hx : x = 0) (hi : d + 1 + v.delay config < i) :
      Segment config i x d v
        (max i (d + 1 + v.delay config + 1 + v.shift.delay config)) v.shift.shift
  | skipped (hx : x = 1) (hd : d = 0) (hi : i ≤ 1 + v.delay config) :
      Segment config i x d v (1 + v.delay config) v.skip
  | skippedEmptied (hx : x = 1) (hd : d = 0) (hi : 1 + v.delay config < i)
      (hdin : v.dinRef = none) : Segment config i x d v i v.skip.shift

theorem Waits.segment_of_zero (h : Waits config s i 0 d v) (hkeeps : KeepsAllDelays s)
    (hways : 1 ≤ config.ways.toNat) :
    exists n t v', Segment config i 0 d v n v' ∧ StallRun n s t ∧
      Waits config t 0 0 0 v' := by
  rcases h.freezeAll hways with ⟨t₁, hrun₁, h₁⟩
  rw [Nat.zero_sub] at h₁
  have hkeeps₁ := hkeeps.of_reaches hrun₁.reaches
  cases hi₁ : i - d with
  | zero =>
      rw [hi₁] at h₁
      exact ⟨d, t₁, v, Segment.kept rfl (by lia), hrun₁, h₁⟩
  | succ i₁ =>
      rw [hi₁] at h₁
      have hstalled₁ := h₁.stalled (by lia)
      have hstep₁ := hrun₁.trans (stallRun_one h₁.except hstalled₁)
      rcases (h₁.shift hkeeps₁.now.probes hways).freezeAll hways with ⟨t₂, hrun₂, h₂⟩
      have hrun := hstep₁.trans hrun₂
      have hkeeps₂ := hkeeps.of_reaches hrun.reaches
      rw [Nat.zero_sub] at h₂
      cases hi₂ : i₁ - v.delay config with
      | zero =>
          rw [hi₂] at h₂
          refine ⟨_, t₂, v.shift, Segment.moved rfl (by lia) (by lia) ?_, hrun, h₂⟩
          by_cases hlast : i₁ = 0
          · have hnone := h₁.exRef_eq_none hkeeps₁.now.probes hstalled₁ (by lia) (by decide)
            exact Or.inl (View.delay_of_none config hnone)
          · exact Or.inr (by lia)
      | succ i₂ =>
          rw [hi₂] at h₂
          have hstep₂ := hrun.trans (stallRun_one h₂.except (h₂.stalled (by lia)))
          rcases (h₂.shift hkeeps₂.now.probes hways).freezeAll hways with ⟨t₃, hrun₃, h₃⟩
          rw [Nat.zero_sub] at h₃
          have hall := hstep₂.trans hrun₃
          rcases Waits.drain h₃ (hkeeps.of_reaches hall.reaches) hways with ⟨t₄, hrun₄, h₄⟩
          refine ⟨_, t₄, v.shift.shift, Segment.emptied rfl (by lia), ?_, h₄⟩
          have hlength : max i (d + 1 + v.delay config + 1 + v.shift.delay config) =
              d + 1 + v.delay config + 1 + v.shift.delay config +
                (i₂ - v.shift.delay config) := by
            lia
          rw [hlength]
          exact hall.trans hrun₄

theorem Waits.segment_of_one (h : Waits config s i 1 0 v) (hkeeps : KeepsAllDelays s)
    (hways : 1 ≤ config.ways.toNat) (hdin : v.dinRef = none) :
    exists n t v', Segment config i 1 0 v n v' ∧ StallRun n s t ∧
      Waits config t 0 0 0 v' := by
  have hfirst := stallRun_one h.except (h.stalled (by lia))
  rcases (h.skip hkeeps.now.probes hways).freezeAll hways with ⟨t₁, hrun₁, h₁⟩
  have hrun := hfirst.trans hrun₁
  have hkeeps₁ := hkeeps.of_reaches hrun.reaches
  rw [Nat.zero_sub] at h₁
  cases hi₁ : i - 1 - v.delay config with
  | zero =>
      rw [hi₁] at h₁
      exact ⟨_, t₁, v.skip, Segment.skipped rfl rfl (by lia), hrun, h₁⟩
  | succ i₁ =>
      rw [hi₁] at h₁
      have hstep := hrun.trans (stallRun_one h₁.except (h₁.stalled (by lia)))
      have h₂ := h₁.shift hkeeps₁.now.probes hways
      have hbubbles : v.skip.shift = View.bubbles v.skip.shift.seen := by
        unfold View.shift View.bubbles View.skip
        rw [hdin]
      rw [hbubbles] at h₂
      rcases Waits.drain h₂ (hkeeps.of_reaches hstep.reaches) hways with ⟨t₃, hrun₃, h₃⟩
      rw [← hbubbles] at h₃
      refine ⟨i, t₃, v.skip.shift, Segment.skippedEmptied rfl rfl (by lia) hdin, ?_, h₃⟩
      have hlength : i = 1 + v.delay config + 1 + i₁ := by
        lia
      rw [hlength]
      exact hstep.trans hrun₃

end Waits

/-!
## The stall behind a branch

A load that a branch needs is probed in the stall that separates them.  As long as no
probe is lost, the delay of the fetch outlasts this stall.
-/

theorem operation?_of_isLoad {target : Word} (h : isLoad target = true) :
    operation? target ≠ none := by
  unfold operation?
  rw [if_pos h]
  exact Option.some_ne_none _

theorem keepsStalling_iff (s : Sim) :
    KeepsStalling s <->
      1 < s.iMiss.toNat ∨ 1 < s.dStall.toNat ∨ 1 < s.xStall.toNat := by
  unfold KeepsStalling
  simp only [BitVec.lt_def, BitVec.toNat_ofNat, Nat.reducePow, Nat.reduceMod]

section BranchStall

variable {s : Sim}

theorem one_lt_iMiss_of_far (hkeeps : KeepsDelays s) (hexcept : s.except = 0#32)
    (hfar : loadBranch s.pipeState.ifInstr.instr s.pipeState.exInstr.instr = 2#32)
    (hdStall : s.dStall.toNat = 1) (hxStall : s.xStall.toNat ≤ 1) : 1 < s.iMiss.toNat := by
  have hstalled : Stalled s := (stalled_iff s).mpr (Or.inr (Or.inr (Or.inl (by lia))))
  by_cases hdMiss : s.dMiss = 0#32
  · have hprobe := hkeeps.probes.stall hexcept hstalled hdMiss
      (operation?_of_isLoad (isLoad_of_loadBranch hfar))
    rw [keepsStalling_iff] at hprobe
    lia
  · have hfrozen := hkeeps.stalls.freeze.far hdMiss hfar
    have hpos : 0 < s.dMiss.toNat := toNat_pos_iff.mpr hdMiss
    lia

theorem two_le_iMiss_of_near (hkeeps : KeepsAllDelays s) (hexcept : s.except = 0#32)
    (hnear : loadBranch s.pipeState.ifInstr.instr s.pipeState.idInstr.instr = 2#32)
    (hdStall : s.dStall.toNat = 2)
    (hxStall : s.xStall = exDelay s.pipeState.idInstr.instr s.pipeState.exInstr.instr) :
    2 ≤ s.iMiss.toNat := by
  have hstalled : Stalled s := (stalled_iff s).mpr (Or.inr (Or.inr (Or.inl (by lia))))
  by_cases hdMiss : s.dMiss = 0#32
  · rw [exDelay_of_isLoad (isLoad_of_loadBranch hnear)] at hxStall
    have hmoved := stallStep_moved hstalled
    rw [stallStage_of_zero hdMiss hxStall] at hmoved
    have hex : (stallStep s).pipeState.exInstr = s.pipeState.idInstr :=
      hmoved.slots 2 (by decide)
    have hkeepsNext := (hkeeps.of_reaches (stallRun_one hexcept hstalled).reaches).now
    have hone := one_lt_iMiss_of_far hkeepsNext ((stallStep_except s).trans hexcept)
      (by rw [(stallStep_front hstalled).1, hex]; exact hnear)
      (by rw [stallStep_dStall, toNat_countDown, hdStall])
      (by rw [stallStep_xStall, hxStall]; decide)
    rw [stallStep_iMiss, toNat_countDown] at hone
    lia
  · have hfrozen := hkeeps.now.stalls.freeze.near hdMiss hnear
    lia

theorem dStall_le_iMiss (hkeeps : KeepsAllDelays s) (hexcept : s.except = 0#32)
    (hdStall : s.dStall = branchStall s.pipeState.ifInstr.instr s.pipeState.idInstr.instr
      s.pipeState.exInstr.instr 0#32)
    (hxStall : s.xStall = exDelay s.pipeState.idInstr.instr s.pipeState.exInstr.instr) :
    s.dStall.toNat ≤ s.iMiss.toNat := by
  have hxOne : s.xStall.toNat ≤ 1 := by
    rw [hxStall]
    exact exDelay_le_one _ _
  unfold branchStall at hdStall
  rcases loadBranch_cases s.pipeState.ifInstr.instr s.pipeState.idInstr.instr with
    hnear | hnear
  · rcases loadBranch_cases s.pipeState.ifInstr.instr s.pipeState.exInstr.instr with
      hfar | hfar
    · rw [hnear, hfar] at hdStall
      rw [hdStall]
      exact Nat.zero_le _
    · rw [hnear, hfar] at hdStall
      have hone : s.dStall.toNat = 1 := by
        rw [hdStall]
        decide
      have hlt := one_lt_iMiss_of_far hkeeps.now hexcept hfar hone hxOne
      lia
  · have htwo : s.dStall.toNat = 2 := by
      rw [hdStall, hnear]
      rcases loadBranch_cases s.pipeState.ifInstr.instr s.pipeState.exInstr.instr with
        hfar | hfar
      · rw [hfar]
        decide
      · rw [hfar]
        decide
    rw [htwo]
    exact two_le_iMiss_of_near hkeeps hexcept hnear htwo hxStall

end BranchStall

/-!
## From fetch to fetch
-/

section Fetch

variable {config : CacheConfig} {s : Sim} {v : View}

theorem Waits.fetch (h : Waits config s 0 0 0 v) (hways : 1 ≤ config.ways.toNat)
    (hkeeps : KeepsAllDelays (fetchStep s)) :
    Waits config (fetchStep s) (fetchStep s).iMiss.toNat
      (exDelay s.pipeState.ifInstr.instr v.din).toNat (v.delay config)
      (v.fetch s.pipeState.ifInstr.instr (references s 0)) := by
  have hfetch := h.fetches
  have hmoved := fetchStep_moved s
  have hmem : memReference (fetchStep s) = v.exRef := by
    rw [← h.exRef]
    exact hmoved.reference (i := 3) (Nat.le_refl 3)
  rcases fetchStep_fields s with ⟨_, _, hexcept, hif, hid, hex⟩
  rcases fetchStep_hazards hfetch with ⟨hdStall, hxStall⟩
  have hdMiss : s.dMiss = 0#32 := toNat_eq_zero_iff.mp h.dMiss
  rcases h.dCache with ⟨_, _, hmodels⟩
  rcases referenceDelay_of_models hmodels hways v.exRef with ⟨hdelay, hserved⟩
  have hreference : referenceOf s.pipeState.exInstr.instr s.memAddresses.a2 = v.exRef := h.exRef
  refine ⟨hexcept.trans h.except, rfl, ?_, ?_, ?_, ?_, ?_, ?_, v.seen, ?_, ?_⟩
  · apply dStall_le_iMiss hkeeps (hexcept.trans h.except)
    · rw [hdStall, hif, hid, hex]
    · rw [hxStall, hid, hex]
  · rw [hxStall, h.idInstr]
  · unfold fetchStep
    rw [finishCycle_dMiss, fetchPath_dMiss, hreference, hdMiss, BitVec.zero_add]
    exact hdelay
  · exact congrArg Slot.instr hid
  · exact hmoved.reference (i := 1) (by decide)
  · exact (hmoved.reference (i := 2) (by decide)).trans h.idRef
  · rw [hmem]
    rfl
  · unfold fetchStep
    rw [finishCycle_dCache, fetchPath_dCache, hreference]
    exact hserved

/-- The segment of an instruction that completes. -/
theorem Waits.exists_segment (h : Waits config s 0 0 0 v) (hways : 1 ≤ config.ways.toNat)
    (hkeeps : KeepsAllDelays (fetchStep s)) :
    exists n t v',
      Segment config (fetchStep s).iMiss.toNat
          (exDelay s.pipeState.ifInstr.instr v.din).toNat (v.delay config)
          (v.fetch s.pipeState.ifInstr.instr (references s 0)) n v' ∧
        StallRun n (fetchStep s) t ∧ Waits config t 0 0 0 v' := by
  have hwaits := h.fetch hways hkeeps
  rcases exDelay_cases s.pipeState.ifInstr.instr v.din with ⟨hzero, _⟩ | hone
  · rw [hzero] at hwaits ⊢
    exact hwaits.segment_of_zero hkeeps hways
  · have hdelay : v.delay config = 0 := by
      by_contra hpos
      have hdMiss : (fetchStep s).dMiss ≠ 0#32 := by
        intro hzero
        have hlength := hwaits.dMiss
        rw [hzero] at hlength
        exact hpos hlength.symm
      have hfreeze := hkeeps.now.stalls.freeze
      have hxStall := (fetchStep_hazards h.fetches).2
      rcases fetchStep_fields s with ⟨_, _, _, _, hid, hex⟩
      have hop := hfreeze.opBranch hdMiss
      have hload := hfreeze.loadOp hdMiss
      rw [hid, hex, h.idInstr] at hop hload
      unfold exDelay at hone
      rw [hop, hload] at hone
      cases hone
    have hnone : references s 0 = none := by
      have hdelayed : exDelay s.pipeState.ifInstr.instr v.din ≠ 0#32 := by
        rw [hone]
        decide
      exact references_eq_none (operation?_eq_none_of_exDelay hdelayed)
    rw [hone, hdelay] at hwaits ⊢
    exact hwaits.segment_of_one hkeeps hways hnone

def View.trap (v : View) (fin : Option (Word × CacheOperation)) : View where
  din := 0#32
  dinRef := none
  exRef := fin
  seen := v.seen

theorem Waits.trap_references (h : Waits config s 0 0 0 v) (hkeeps : KeepsAllDelays s)
    (htrap : (nextInfo s).completes = false) :
    v.exRef = none ∧ v.dinRef = none ∧
      ((nextInfo s).isOverflow = true -> references s 0 = none) := by
  have hfetch := h.fetches
  have hfirst := (Step.trap hfetch htrap).machine_eq
  have htrapped := Machine.Reaches.one hfirst
  have hexcept : (trapStep s).except = trapBubbles (nextInfo s) := trapStep_except s
  have hpos : 0#32 < (trapStep s).except := by
    rw [hexcept]
    exact trapBubbles_pos _
  refine ⟨?_, ?_, ?_⟩
  · rw [← h.exRef]
    exact references_eq_none (hkeeps.now.probes.trap hfetch.except hfetch.notStalled htrap)
  · rw [← h.idRef]
    exact references_eq_none ((hkeeps _ _ htrapped).probes.except hpos)
  · intro hoverflow
    have hbubble := htrapped.tail (Step.except hpos).machine_eq
    have hpos' : 0#32 < (exceptStep (trapStep s)).except := by
      rw [exceptStep_except, hexcept]
      unfold trapBubbles
      rw [if_pos hoverflow]
      decide
    exact references_eq_none ((hkeeps _ _ hbubble).probes.except hpos')

theorem Waits.trap (h : Waits config s 0 0 0 v) (hkeeps : KeepsAllDelays s)
    (htrap : (nextInfo s).completes = false) :
    references (trapEnd s) 0 = none ∧
      Waits config (trapEnd s) 0 0 0
        (v.trap (if (nextInfo s).isOverflow then none else references s 0)) := by
  rcases h.trap_references hkeeps htrap with ⟨_, hdinRef, hifRef⟩
  have hend := trapEnd_spec h.fetches
  rcases counters_of_not_stalled hend.fetches.notStalled with ⟨hiMiss, hdMiss, hdStall, hxStall⟩
  rcases h.dCache with ⟨_, _, hmodels⟩
  have hidRef : references s 1 = none := h.idRef.trans hdinRef
  have hreferences : references (trapEnd s) 0 = none ∧ references (trapEnd s) 1 = none ∧
      references (trapEnd s) 2 =
        (if (nextInfo s).isOverflow then none else references s 0) ∧
      memReference (trapEnd s) = none := by
    unfold trapEnd
    by_cases hoverflow : (nextInfo s).isOverflow = true
    · rw [if_pos hoverflow, if_pos hoverflow]
      exact ⟨rfl, rfl, rfl, hifRef hoverflow⟩
    · rw [if_neg hoverflow, if_neg hoverflow]
      exact ⟨rfl, rfl, rfl, hidRef⟩
  rcases hreferences with ⟨href, hid, hex, hmem⟩
  refine ⟨href, hend.fetches.except, ?_, ?_, ?_, ?_, ?_, hid, hex, v.seen, ?_, ?_⟩
  · rw [hiMiss]
    rfl
  · rw [hdStall]
    exact Nat.zero_le _
  · rw [hxStall]
    rfl
  · rw [hdMiss]
    rfl
  · exact congrArg Slot.instr hend.idInstr
  · rw [hmem]
    exact (List.append_nil _).symm
  · rw [hend.dCache]
    exact hmodels

end Fetch

end Cycle
end PipeSim
