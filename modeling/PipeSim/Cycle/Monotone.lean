import PipeSim.Cycle.Accounting
import PipeSim.Cycle.Pace
import PipeSim.Cycle.Timing

/-!
# Larger miss latencies do not shorten a run

Two runs that lose neither a probe nor a stall are compared segment by segment.
When the instruction cache is the slower one in the second run, the references of the
second run may be ahead of those of the first one on their way to MEM, but only by
cycles it has spent on them.  When the data cache is the slower one and every data
cache delay outlasts the delay of a fetch, the references of both runs move together.
-/

namespace PipeSim

open Library

namespace Cycle

/-!
## Views on their way
-/

section View

variable (v : View)

@[simp] theorem View.skip_skip : v.skip.skip = v.skip := by
  unfold View.skip addressOf
  simp

@[simp] theorem View.skip_shift : v.skip.shift = v.shift := by
  unfold View.shift View.skip addressOf
  simp

@[simp] theorem View.skip_fetch (fin : Word) (finRef : Option (Word × CacheOperation)) :
    v.skip.fetch fin finRef = v.fetch fin finRef := by
  unfold View.fetch View.skip addressOf
  simp

@[simp] theorem View.shift_fetch (fin : Word) (finRef : Option (Word × CacheOperation)) :
    v.shift.fetch fin finRef = (v.fetch fin finRef).skip := by
  unfold View.fetch View.shift View.skip
  rfl

@[simp] theorem View.skip_delay (config : CacheConfig) : v.skip.delay config = 0 :=
  View.delay_of_none config rfl

theorem View.delay_cases (config : CacheConfig) :
    v.delay config = 0 ∨ v.delay config = config.missLatency.toNat := by
  unfold View.delay delayOf
  cases v.exRef with
  | none =>
      exact Or.inl rfl
  | some r =>
      exact Cache.delayAfter_cases config v.seen r.1

/-- Nothing is left in ID when a stall in front of EX is over, apart from an instruction
without reference. -/
theorem View.shift_delay_of_none (config : CacheConfig) (h : v.dinRef = none) :
    v.shift.delay config = 0 :=
  View.delay_of_none config h

end View

/-!
## A slower instruction cache
-/

/-- The second view is ahead of the first one on the way to MEM, and the second run has spent
`lag` cycles more, at least those the first one still needs to get there.  `L` and `L'` are the
delays of a fetch. -/
inductive Behind (config : CacheConfig) (L L' lag : Nat) (v : View) : View -> Prop where
  | level : Behind config L L' lag v v
  | skip (hlatency : L ≤ 1 ∨ config.missLatency.toNat < L')
      (hlag : 1 + v.delay config ≤ lag) : Behind config L L' lag v v.skip
  | shift (hlatency : L ≤ 1 ∨ config.missLatency.toNat < L')
      (hlag : 1 + v.delay config ≤ lag) : Behind config L L' lag v v.shift
  | shiftTwice (hlatency : L ≤ 1 ∨ config.missLatency.toNat < L')
      (hlag : 1 + v.delay config + 1 + v.shift.delay config ≤ lag) :
      Behind config L L' lag v v.shift.shift

section Behind

variable {config : CacheConfig} {L L' lag i i' x d d' n n' : Nat} {u w w' : View}

/-- Of two segments from one view, let the second one have at least as much of its fetch delay
left behind the delay in MEM.  It ends where the first one ends, or one or two moves further
on, and it has spent the cycles of these moves. -/
theorem Segment.further (hs : Segment config i x d u n w) (ht : Segment config i' x d' u n' w')
    (hleft : i + d' ≤ i' + d) :
    (w' = w ∧ n + d' ≤ n' + d) ∨
      (exists q, i ≤ q ∧ q + d' < i' + d ∧ (q = d ∨ q = d + 1 + u.delay config)) ∧
        ((w' = w.shift ∧ n + d' + (1 + w.delay config) ≤ n' + d) ∨
          (w' = w.shift.shift ∧
            n + d' + (1 + w.delay config + 1 + w.shift.delay config) ≤ n' + d)) := by
  cases hs with
  | kept hx hkept =>
      cases ht with
      | kept _ _ => exact Or.inl ⟨rfl, by lia⟩
      | moved _ _ _ _ =>
          exact Or.inr ⟨⟨d, hkept, by lia, Or.inl rfl⟩, Or.inl ⟨rfl, by lia⟩⟩
      | emptied _ _ =>
          exact Or.inr ⟨⟨d, hkept, by lia, Or.inl rfl⟩, Or.inr ⟨rfl, by lia⟩⟩
      | skipped _ _ _ => lia
      | skippedEmptied _ _ _ _ => lia
  | moved hx hmoved hlast _ =>
      cases ht with
      | kept _ _ => lia
      | moved _ _ _ _ => exact Or.inl ⟨rfl, by lia⟩
      | emptied _ _ =>
          exact Or.inr ⟨⟨_, hlast, by lia, Or.inr rfl⟩, Or.inl ⟨rfl, by lia⟩⟩
      | skipped _ _ _ => lia
      | skippedEmptied _ _ _ _ => lia
  | emptied hx hemptied =>
      cases ht with
      | kept _ _ => lia
      | moved _ _ _ _ => lia
      | emptied _ _ => exact Or.inl ⟨rfl, by lia⟩
      | skipped _ _ _ => lia
      | skippedEmptied _ _ _ _ => lia
  | skipped hx hd hskipped =>
      cases ht with
      | kept _ _ => lia
      | moved _ _ _ _ => lia
      | emptied _ _ => lia
      | skipped _ _ _ => exact Or.inl ⟨rfl, by lia⟩
      | skippedEmptied _ _ _ _ =>
          rw [View.skip_delay]
          exact Or.inr ⟨⟨1 + u.delay config, hskipped, by lia, by lia⟩, Or.inl ⟨rfl, by lia⟩⟩
  | skippedEmptied hx hd hemptied hdin =>
      cases ht with
      | kept _ _ => lia
      | moved _ _ _ _ => lia
      | emptied _ _ => lia
      | skipped _ _ _ => lia
      | skippedEmptied _ _ _ _ => exact Or.inl ⟨rfl, by lia⟩

theorem Segment.level (hs : Segment config i x d u n w) (ht : Segment config i' x d u n' w')
    (hi : (i = 0 ∧ i' = 0) ∨ (i = L ∧ i' = L')) (hL : L ≤ L')
    (hd : d = 0 ∨ d = config.missLatency.toNat) :
    exists lag', Behind config L L' lag' w w' ∧ n + lag' ≤ n' + lag := by
  rcases hs.further ht (by lia) with ⟨rfl, hn⟩ | ⟨⟨q, hq, hq', hcases⟩, hfurther⟩
  · exact ⟨lag, Behind.level, by lia⟩
  · have hlatency : L ≤ 1 ∨ config.missLatency.toNat < L' := by
      have he := u.delay_cases config
      lia
    rcases hfurther with ⟨rfl, hn⟩ | ⟨rfl, hn⟩
    · exact ⟨_, Behind.shift hlatency (Nat.le_refl _), by lia⟩
    · exact ⟨_, Behind.shiftTwice hlatency (Nat.le_refl _), by lia⟩

/-- The reference in EX of the first run has been served in the second one, which meets no
delay in MEM. -/
theorem Segment.skip (hs : Segment config i x d u n w) (ht : Segment config i' x 0 u n' w')
    (hi : i ≤ i') (hlatency : L ≤ 1 ∨ config.missLatency.toNat < L') (hlag : 1 + d ≤ lag) :
    exists lag', Behind config L L' lag' w w' ∧ n + lag' ≤ n' + lag := by
  rcases hs.further ht (by lia) with ⟨rfl, hn⟩ | ⟨_, ⟨rfl, hn⟩ | ⟨rfl, hn⟩⟩
  · exact ⟨0, Behind.level, by lia⟩
  · exact ⟨_, Behind.shift hlatency (Nat.le_refl _), by lia⟩
  · exact ⟨_, Behind.shiftTwice hlatency (Nat.le_refl _), by lia⟩

/-- The reference that is in EX in the first run is in MEM in the second one, with its delay
`d'` ahead or over. -/
theorem Segment.ahead (hs : Segment config i x d u n w)
    (ht : Segment config i' 0 d' u.skip n' w')
    (hi : (i = 0 ∧ i' = 0) ∨ (i = L ∧ i' = L')) (hL : L ≤ L')
    (hlatency : L ≤ 1 ∨ config.missLatency.toNat < L')
    (hlag : (d' = u.delay config ∧ 1 + d ≤ lag) ∨
      (d' = 0 ∧ 1 + d + 1 + u.delay config ≤ lag)) :
    exists lag', Behind config L L' lag' w w' ∧ n + lag' ≤ n' + lag := by
  have he := u.delay_cases config
  cases hs with
  | kept hx hkept =>
      cases ht with
      | kept _ _ => exact ⟨_, Behind.skip hlatency (Nat.le_refl _), by lia⟩
      | moved _ _ _ _ =>
          rw [View.skip_shift]
          exact ⟨_, Behind.shift hlatency (Nat.le_refl _), by lia⟩
      | emptied _ _ =>
          rw [View.skip_shift]
          exact ⟨_, Behind.shiftTwice hlatency (Nat.le_refl _), by lia⟩
      | skipped hx' _ _ => cases hx'
      | skippedEmptied hx' _ _ _ => cases hx'
  | moved hx hmoved hlast hprobe =>
      cases ht with
      | kept _ _ => lia
      | moved _ _ _ _ =>
          rw [View.skip_shift, View.skip_delay]
          exact ⟨0, Behind.level, by lia⟩
      | emptied _ _ =>
          rw [View.skip_shift, View.skip_delay]
          exact ⟨_, Behind.shift hlatency (Nat.le_refl _), by lia⟩
      | skipped hx' _ _ => cases hx'
      | skippedEmptied hx' _ _ _ => cases hx'
  | emptied hx hemptied =>
      cases ht with
      | kept _ _ => lia
      | moved _ _ hlast' _ =>
          rw [View.skip_delay] at hlast'
          lia
      | emptied _ _ =>
          rw [View.skip_shift, View.skip_delay]
          exact ⟨0, Behind.level, by lia⟩
      | skipped hx' _ _ => cases hx'
      | skippedEmptied hx' _ _ _ => cases hx'
  | skipped hx hd hskipped =>
      cases ht with
      | kept _ _ => exact ⟨0, Behind.level, by lia⟩
      | moved _ _ _ _ =>
          rw [View.skip_delay]
          refine ⟨_, Behind.shift hlatency (Nat.le_refl _), ?_⟩
          rw [View.skip_delay]
          lia
      | emptied _ _ =>
          refine ⟨_, Behind.shiftTwice hlatency (Nat.le_refl _), ?_⟩
          rw [View.skip_delay, View.skip_shift]
          lia
      | skipped hx' _ _ => cases hx'
      | skippedEmptied hx' _ _ _ => cases hx'
  | skippedEmptied hx hd hemptied hdin =>
      have hnone := u.shift_delay_of_none config hdin
      cases ht with
      | kept _ _ => lia
      | moved _ _ hlast' _ =>
          rw [View.skip_delay] at hlast'
          lia
      | emptied _ _ =>
          refine ⟨_, Behind.shift hlatency (Nat.le_refl _), ?_⟩
          rw [View.skip_shift, hnone]
          lia
      | skipped hx' _ _ => cases hx'
      | skippedEmptied hx' _ _ _ => cases hx'

theorem Behind.segment {v v' : View} {fin : Word} {finRef : Option (Word × CacheOperation)}
    (h : Behind config L L' lag v v') (hi : (i = 0 ∧ i' = 0) ∨ (i = L ∧ i' = L'))
    (hL : L ≤ L')
    (hs : Segment config i (exDelay fin v.din).toNat (v.delay config) (v.fetch fin finRef) n w)
    (ht : Segment config i' (exDelay fin v'.din).toNat (v'.delay config)
      (v'.fetch fin finRef) n' w') :
    exists lag', Behind config L L' lag' w w' ∧ n + lag' ≤ n' + lag := by
  have hle : i ≤ i' := by
    lia
  have hzero : (exDelay fin 0#32).toNat = 0 := by
    rw [exDelay_zero_right]
    rfl
  have hdelay : (v.fetch fin finRef).delay config = v.shift.delay config := rfl
  cases h with
  | level =>
      exact hs.level ht hi hL (v.delay_cases config)
  | skip hlatency hlag =>
      rw [View.skip_delay, View.skip_fetch] at ht
      exact hs.skip ht hle hlatency hlag
  | shift hlatency hlag =>
      rw [View.shift_fetch, show v.shift.din = 0#32 from rfl, hzero] at ht
      exact hs.ahead ht hi hL hlatency (Or.inl ⟨rfl, hlag⟩)
  | shiftTwice hlatency hlag =>
      have hnone : v.shift.shift.delay config = 0 := View.delay_of_none config rfl
      have hfetch : v.shift.shift.fetch fin finRef = (v.fetch fin finRef).skip := by
        rw [View.shift_fetch, View.shift_fetch, View.skip_skip]
      rw [hfetch, hnone, show v.shift.shift.din = 0#32 from rfl, hzero] at ht
      exact hs.ahead ht hi hL hlatency (Or.inr ⟨rfl, by rw [hdelay]; exact hlag⟩)

end Behind

/-!
## A slower data cache
-/

section Delayed

variable {config config' : CacheConfig} {i x d d' n n' : Nat} {u w w' : View}

theorem View.delay_sameShape (v : View) (hshape : config.SameShape config') :
    (v.delay config = 0 ∧ v.delay config' = 0) ∨
      (v.delay config = config.missLatency.toNat ∧
        v.delay config' = config'.missLatency.toNat) := by
  unfold View.delay delayOf
  cases v.exRef with
  | none =>
      exact Or.inl ⟨rfl, rfl⟩
  | some r =>
      exact Cache.delayAfter_sameShape hshape v.seen r.1

theorem Segment.delayed (hs : Segment config i x d u n w) (ht : Segment config' i x d' u n' w')
    (hshape : config.SameShape config')
    (hle : config.missLatency.toNat ≤ config'.missLatency.toNat)
    (hi : i ≤ config.missLatency.toNat)
    (hd : (d = 0 ∧ d' = 0) ∨
      (d = config.missLatency.toNat ∧ d' = config'.missLatency.toNat)) :
    w' = w ∧ n ≤ n' := by
  have he := u.delay_sameShape hshape
  have hf := u.shift.delay_sameShape hshape
  cases hs with
  | kept hx hkept =>
      cases ht with
      | kept _ _ => exact ⟨rfl, by lia⟩
      | moved _ _ _ _ => lia
      | emptied _ _ => lia
      | skipped _ _ _ => lia
      | skippedEmptied _ _ _ _ => lia
  | moved hx hmoved hlast _ =>
      cases ht with
      | kept _ _ => lia
      | moved _ _ _ _ => exact ⟨rfl, by lia⟩
      | emptied _ _ => lia
      | skipped _ _ _ => lia
      | skippedEmptied _ _ _ _ => lia
  | emptied hx hemptied =>
      cases ht with
      | kept _ _ => lia
      | moved _ _ _ _ => lia
      | emptied _ _ => exact ⟨rfl, by lia⟩
      | skipped _ _ _ => lia
      | skippedEmptied _ _ _ _ => lia
  | skipped hx hd hskipped =>
      cases ht with
      | kept _ _ => lia
      | moved _ _ _ _ => lia
      | emptied _ _ => lia
      | skipped _ _ _ => exact ⟨rfl, by lia⟩
      | skippedEmptied _ _ _ _ => lia
  | skippedEmptied hx hd hemptied hdin =>
      cases ht with
      | kept _ _ => lia
      | moved _ _ _ _ => lia
      | emptied _ _ => lia
      | skipped _ _ _ => lia
      | skippedEmptied _ _ _ _ => exact ⟨rfl, by lia⟩

end Delayed

/-!
## Two runs that lose no delay
-/

/-- A relation between views that both runs keep up, segment by segment.  Only the views of the
first run matter behind an exception, where no reference is on its way. -/
structure KeptUp (ic ic' dc dc' : CacheConfig) (R : Nat -> View -> View -> Prop) : Prop where
  level : forall lag v, R lag v v
  seen : forall lag v v', R lag v v' -> v.exRef = none -> v.dinRef = none -> v'.seen = v.seen
  segment : forall lag v v' fin finRef i i' n n' w w', R lag v v' ->
    ((i = 0 ∧ i' = 0) ∨ (i = ic.missLatency.toNat ∧ i' = ic'.missLatency.toNat)) ->
    Segment dc i (exDelay fin v.din).toNat (v.delay dc) (v.fetch fin finRef) n w ->
    Segment dc' i' (exDelay fin v'.din).toNat (v'.delay dc') (v'.fetch fin finRef) n' w' ->
    exists lag', R lag' w w' ∧ n + lag' ≤ n' + lag

theorem keptUp_behind {ic ic' : CacheConfig} (dc : CacheConfig)
    (hle : ic.missLatency.toNat ≤ ic'.missLatency.toNat) :
    KeptUp ic ic' dc dc (Behind dc ic.missLatency.toNat ic'.missLatency.toNat) where
  level := fun _ _ => Behind.level
  seen := by
    intro lag v v' h hex hdin
    have haddress : addressOf none = [] := rfl
    cases h with
    | level =>
        rfl
    | skip _ _ =>
        unfold View.skip
        rw [hex, haddress, List.append_nil]
    | shift _ _ =>
        unfold View.shift
        rw [hex, haddress, List.append_nil]
    | shiftTwice _ _ =>
        unfold View.shift
        rw [hex, hdin, haddress, List.append_nil, List.append_nil]
  segment := fun _ _ _ _ _ _ _ _ _ _ _ h hi hs ht => h.segment hi hle hs ht

theorem keptUp_eq (ic : CacheConfig) {dc dc' : CacheConfig} (hshape : dc.SameShape dc')
    (hle : dc.missLatency.toNat ≤ dc'.missLatency.toNat)
    (houtlasts : ic.missLatency.toNat ≤ dc.missLatency.toNat) :
    KeptUp ic ic dc dc' (fun _ v v' => v' = v) where
  level := fun _ _ => rfl
  seen := by
    intro lag v v' h _ _
    rw [h]
  segment := by
    intro lag v v' fin finRef i i' n n' w w' h hi hs ht
    subst h
    have hsame : i' = i := by
      lia
    subst hsame
    rcases hs.delayed ht hshape hle (by lia) (v'.delay_sameShape hshape) with ⟨hw, hn⟩
    exact ⟨lag, hw, by lia⟩

/-- Both runs are in front of the same fetch, and their views are related. -/
structure Abreast (ic ic' dc dc' : CacheConfig) (R : Nat -> View -> View -> Prop) (lag : Nat)
    (s t : Sim) : Prop where
  same : SameFetch ic ic' s t
  ifRef : references t 0 = references s 0
  views : exists v v', Waits dc s 0 0 0 v ∧ Waits dc' t 0 0 0 v' ∧ R lag v v'
  first : KeepsAllDelays s
  second : KeepsAllDelays t

section Abreast

variable {ic ic' dc dc' : ValidConfig} {R : Nat -> View -> View -> Prop} {lag : Nat} {s t : Sim}

theorem Abreast.fetch
    (h : Abreast ic.toCacheConfig ic'.toCacheConfig dc.toCacheConfig dc'.toCacheConfig R lag s t)
    (hR : KeptUp ic.toCacheConfig ic'.toCacheConfig dc.toCacheConfig dc'.toCacheConfig R)
    (hshape : ic.SameShape ic'.toCacheConfig) (hcompletes : (nextInfo s).completes = true)
    (hhalt : (nextInfo s).isHalt = false) :
    Machine.Lap machine machine
      (Abreast ic.toCacheConfig ic'.toCacheConfig dc.toCacheConfig dc'.toCacheConfig R)
      lag s t := by
  have hnext := h.same.nextInfo
  have hsStep := (Step.fetch h.same.first hcompletes hhalt).machine_eq
  have htStep := (Step.fetch h.same.second (hnext.symm ▸ hcompletes)
    (hnext.symm ▸ hhalt)).machine_eq
  have hsKeeps := h.first.of_reaches (Machine.Reaches.one hsStep)
  have htKeeps := h.second.of_reaches (Machine.Reaches.one htStep)
  rcases h.views with ⟨v, v', hv, hv', hRel⟩
  rcases hv.exists_segment dc.ways_pos hsKeeps with ⟨n, s', w, hsSegment, hsRun, hw⟩
  rcases hv'.exists_segment dc'.ways_pos htKeeps with ⟨n', t', w', htSegment, htRun, hw'⟩
  rw [h.same.ifInstr, h.ifRef] at htSegment
  rcases hR.segment lag v v' _ _ _ _ n n' w w' hRel (h.same.iMiss hshape) hsSegment htSegment with
    ⟨lag', hRel', hlag⟩
  refine ⟨n + 1, n' + 1, lag', s', t', Nat.succ_pos n, hsRun.reaches.head hsStep,
    htRun.reaches.head htStep,
    ⟨h.same.next hsRun.toStallFrame htRun.toStallFrame hw.fetches hw'.fetches, ?_,
      ⟨w, w', hw, hw', hRel'⟩, hsKeeps.of_reaches hsRun.reaches,
      htKeeps.of_reaches htRun.reaches⟩, by lia⟩
  rw [hsRun.ifRef, htRun.ifRef, (fetchStep_moved s).reference (Nat.zero_le 3),
    (fetchStep_moved t).reference (Nat.zero_le 3), Conveyor.advance_self, Conveyor.advance_self,
    hnext]
  rfl

theorem Abreast.trap
    (h : Abreast ic.toCacheConfig ic'.toCacheConfig dc.toCacheConfig dc'.toCacheConfig R lag s t)
    (hR : KeptUp ic.toCacheConfig ic'.toCacheConfig dc.toCacheConfig dc'.toCacheConfig R)
    (htrap : (nextInfo s).completes = false) :
    Machine.Lap machine machine
      (Abreast ic.toCacheConfig ic'.toCacheConfig dc.toCacheConfig dc'.toCacheConfig R)
      lag s t := by
  have hnext := h.same.nextInfo
  rcases h.views with ⟨v, v', hv, hv', hRel⟩
  have htrap' : (nextInfo t).completes = false := hnext.symm ▸ htrap
  rcases hv.trap_references h.first htrap with ⟨hexRef, hdinRef, _⟩
  rcases hv.trap h.first htrap with ⟨hifRef, hw⟩
  rcases hv'.trap h.second htrap' with ⟨hifRef', hw'⟩
  have hseen := hR.seen lag v v' hRel hexRef hdinRef
  have hs := trap_reaches h.same.first htrap
  have ht := trap_reaches h.same.second htrap'
  refine ⟨trapLength s, trapLength t, lag, trapEnd s, trapEnd t, trapLength_pos s, hs, ht,
    ⟨h.same.trap, hifRef'.trans hifRef.symm, ⟨_, _, hw, hw', ?_⟩, h.first.of_reaches hs,
      h.second.of_reaches ht⟩, ?_⟩
  · rw [hnext, h.ifRef]
    unfold View.trap
    rw [hseen]
    exact hR.level lag _
  · rw [h.same.trapLength]

/-- A run that keeps up is no longer. -/
theorem Abreast.le {m n : Nat} {s' t' : Sim}
    (h : Abreast ic.toCacheConfig ic'.toCacheConfig dc.toCacheConfig dc'.toCacheConfig R lag s t)
    (hR : KeptUp ic.toCacheConfig ic'.toCacheConfig dc.toCacheConfig dc'.toCacheConfig R)
    (hshape : ic.SameShape ic'.toCacheConfig) (hs : HaltsAfter m s s')
    (ht : HaltsAfter n t t') : m ≤ n + lag := by
  refine Machine.FinishesIn.le_of_laps ?_ h hs ht
  intro lag s t h
  cases hcompletes : (nextInfo s).completes with
  | false =>
      exact Or.inr (h.trap hR hcompletes)
  | true =>
      cases hhalt : (nextInfo s).isHalt with
      | false =>
          exact Or.inr (h.fetch hR hshape hcompletes hhalt)
      | true =>
          rw [(Step.halt h.same.first hhalt).machine_eq]
          exact Or.inl rfl

end Abreast

/-!
## Whole runs
-/

theorem waits_initSimulator (ic dc : CacheConfig) (mem : MemoryStore) :
    Waits dc (initSimulator ic dc mem) 0 0 0 (View.bubbles []) where
  except := rfl
  iMiss := rfl
  dStall := Nat.le_refl 0
  xStall := rfl
  dMiss := rfl
  idInstr := rfl
  idRef := rfl
  exRef := rfl
  dCache := ⟨[], rfl, Cache.models_new dc⟩

theorem abreast_initSimulator {ic ic' dc dc' : CacheConfig} {mem : MemoryStore}
    {R : Nat -> View -> View -> Prop} (hR : KeptUp ic ic' dc dc' R)
    (hs : KeepsAllDelays (initSimulator ic dc mem))
    (ht : KeepsAllDelays (initSimulator ic' dc' mem)) :
    Abreast ic ic' dc dc' R 0 (initSimulator ic dc mem) (initSimulator ic' dc' mem) where
  same := sameFetch_initSimulator ic ic' dc dc' mem
  ifRef := rfl
  views := ⟨_, _, waits_initSimulator ic dc mem, waits_initSimulator ic' dc' mem, hR.level 0 _⟩
  first := hs
  second := ht

theorem pace_initSimulator (ic ic' dc dc' : CacheConfig) (mem : MemoryStore)
    (hd : dc.missLatency = 0#32) :
    Pace ic ic' 0 (initSimulator ic dc mem) (initSimulator ic' dc' mem) where
  same := sameFetch_initSimulator ic ic' dc dc' mem
  undelayed := ⟨rfl, hd⟩
  idInstr := Or.inl rfl

end Cycle

/-- Exactly one of the miss latencies is larger in the second pair of configurations. -/
def OneLatencyLarger (ic dc ic' dc' : CacheConfig) : Prop :=
  (ic.missLatency < ic'.missLatency ∧ dc'.missLatency = dc.missLatency) ∨
    (ic'.missLatency = ic.missLatency ∧ dc.missLatency < dc'.missLatency)

theorem OneLatencyLarger.ic_le {ic dc ic' dc' : CacheConfig}
    (h : OneLatencyLarger ic dc ic' dc') : ic.missLatency.toNat ≤ ic'.missLatency.toNat := by
  rcases h with ⟨hlarger, _⟩ | ⟨hsame, _⟩
  · exact BitVec.le_of_lt hlarger
  · rw [hsame]

/-- Raising one miss latency does not shorten a run that had no data cache latency, nor a run
when no delay is lost before or after; in the latter case a data cache latency that is raised
must not have been below that of the instruction cache. -/
theorem larger_latency_not_faster (image : MemImage) (ic dc ic' dc' : ValidConfig)
    (hi : ic.SameShape ic'.toCacheConfig) (hd : dc.SameShape dc'.toCacheConfig)
    (hlarger : OneLatencyLarger ic.toCacheConfig dc.toCacheConfig ic'.toCacheConfig
      dc'.toCacheConfig)
    (hdelays : dc.missLatency = 0#32 ∨
      (Cycle.KeepsAllDelays (Cycle.initSimulator ic.toCacheConfig dc.toCacheConfig
          (MemoryStore.ofImage image)) ∧
        Cycle.KeepsAllDelays (Cycle.initSimulator ic'.toCacheConfig dc'.toCacheConfig
          (MemoryStore.ofImage image)) ∧
        (dc.missLatency < dc'.missLatency -> ic.missLatency ≤ dc.missLatency)))
    {fuel fuel' : Nat} {s s' : Cycle.Sim}
    (h : Cycle.runTillHalt fuel (Cycle.initSimulator ic.toCacheConfig dc.toCacheConfig
      (MemoryStore.ofImage image)) = some (.halt, s))
    (h' : Cycle.runTillHalt fuel' (Cycle.initSimulator ic'.toCacheConfig dc'.toCacheConfig
      (MemoryStore.ofImage image)) = some (.halt, s')) :
    s.log.lines.length ≤ s'.log.lines.length ∧
      (s'.log.lines.length < 2 ^ 32 ->
        (Cycle.finalizeSimulator s).totalCycles ≤ (Cycle.finalizeSimulator s').totalCycles) := by
  rcases Cycle.haltsAfter_iff_runTillHalt.mpr ⟨fuel, h⟩ with ⟨m, hm⟩
  rcases Cycle.haltsAfter_iff_runTillHalt.mpr ⟨fuel', h'⟩ with ⟨n, hn⟩
  have hlines := (Cycle.haltsAfter_numbered hm).length
  have hlines' := (Cycle.haltsAfter_numbered hn).length
  have hcount := (Cycle.haltsAfter_numbered hm).cycleCount
  have hcount' := (Cycle.haltsAfter_numbered hn).cycleCount
  have hmn : m ≤ n := by
    rcases hdelays with hzero | ⟨hkeeps, hkeeps', houtlasts⟩
    · exact (Cycle.pace_initSimulator _ _ _ _ _ hzero).le hi hlarger.ic_le hm hn
    · rcases hlarger with ⟨hic, hdc⟩ | ⟨hic, hdc⟩
      · have hsame := hd.eq_of_missLatency hdc
        rw [hsame] at hkeeps' hn
        have hkept := Cycle.keptUp_behind dc.toCacheConfig (BitVec.le_of_lt hic)
        exact (Cycle.abreast_initSimulator hkept hkeeps hkeeps').le hkept hi hm hn
      · have hsame := hi.eq_of_missLatency hic
        rw [hsame] at hkeeps' hn
        have hkept := Cycle.keptUp_eq ic.toCacheConfig hd (BitVec.le_of_lt hdc)
          (houtlasts hdc)
        exact (Cycle.abreast_initSimulator hkept hkeeps hkeeps').le hkept
          ⟨rfl, rfl, rfl⟩ hm hn
  refine ⟨by lia, ?_⟩
  intro hwrap
  unfold Cycle.finalizeSimulator
  dsimp only
  rw [hcount, hcount', BitVec.le_def, BitVec.toNat_ofNat, BitVec.toNat_ofNat,
    Nat.mod_eq_of_lt (by lia), Nat.mod_eq_of_lt (by lia)]
  lia

/-- `lw $1, 0($0); sw $1, 8($0)`, three `nop`s and the halt word. -/
def blockStoreProgram : List Word :=
  [0x8c010000#32, 0xac010008#32, 0x00000000#32, 0x00000000#32, 0x00000000#32, haltWord]

theorem larger_latency_not_faster_block_store :
    exists fuel fuel' s s',
      Cycle.runTillHalt fuel
          (Cycle.initSimulator (ValidConfig.oneBlock 2#32).toCacheConfig
            (ValidConfig.oneBlock 2#32).toCacheConfig
            (MemoryStore.ofImage (MemImage.ofWords blockStoreProgram))) = some (.halt, s) ∧
        Cycle.runTillHalt fuel'
            (Cycle.initSimulator (ValidConfig.oneBlock 2#32).toCacheConfig
              (ValidConfig.oneBlock 3#32).toCacheConfig
              (MemoryStore.ofImage (MemImage.ofWords blockStoreProgram))) = some (.halt, s') ∧
          s.log.lines.length ≤ s'.log.lines.length := by
  have hrun : Cycle.HaltsAfter 16
      (Cycle.initSimulator (ValidConfig.oneBlock 2#32).toCacheConfig
        (ValidConfig.oneBlock 2#32).toCacheConfig
        (MemoryStore.ofImage (MemImage.ofWords blockStoreProgram))) _ :=
    Machine.finishesIn_after (by decide +kernel) (by decide +kernel)
  have hrun' : Cycle.HaltsAfter 19
      (Cycle.initSimulator (ValidConfig.oneBlock 2#32).toCacheConfig
        (ValidConfig.oneBlock 3#32).toCacheConfig
        (MemoryStore.ofImage (MemImage.ofWords blockStoreProgram))) _ :=
    Machine.finishesIn_after (by decide +kernel) (by decide +kernel)
  rcases Cycle.haltsAfter_iff_runTillHalt.mp ⟨_, hrun⟩ with ⟨fuel, hfuel⟩
  rcases Cycle.haltsAfter_iff_runTillHalt.mp ⟨_, hrun'⟩ with ⟨fuel', hfuel'⟩
  refine ⟨fuel, fuel', _, _, hfuel, hfuel', ?_⟩
  refine (larger_latency_not_faster _ (ValidConfig.oneBlock 2#32) (ValidConfig.oneBlock 2#32)
    (ValidConfig.oneBlock 2#32) (ValidConfig.oneBlock 3#32) ⟨rfl, rfl, rfl⟩ ⟨rfl, rfl, rfl⟩
    (Or.inr ⟨rfl, by decide⟩) (Or.inr ⟨?_, ?_, fun _ => by decide⟩) hfuel hfuel').1
  · exact hrun.forall_reaches (P := Cycle.KeepsDelays) (by decide +kernel)
  · exact hrun'.forall_reaches (P := Cycle.KeepsDelays) (by decide +kernel)

/-- `lw $1, 0($0); j 28; lw $2, 8($0)`, where the instruction behind the target is the first
one of the next block. -/
def jumpBlockProgram : List Word :=
  [0x8c010000#32, 0x08000007#32, 0x8c020008#32, 0x00000000#32, 0x00000000#32, 0x00000000#32,
    0x00000000#32, 0x00000000#32, 0x00000000#32, haltWord]

/-- No delay is lost in either run, but with the larger latency the second load is still in
front of MEM when the fetch of the last block misses, and their delays overlap. -/
theorem larger_latency_faster_jump_block :
    exists (image : MemImage) (ic dc ic' dc' : ValidConfig),
      ic.SameShape ic'.toCacheConfig ∧ dc.SameShape dc'.toCacheConfig ∧
        OneLatencyLarger ic.toCacheConfig dc.toCacheConfig ic'.toCacheConfig
          dc'.toCacheConfig ∧
        Cycle.KeepsAllDelays (Cycle.initSimulator ic.toCacheConfig dc.toCacheConfig
          (MemoryStore.ofImage image)) ∧
        Cycle.KeepsAllDelays (Cycle.initSimulator ic'.toCacheConfig dc'.toCacheConfig
          (MemoryStore.ofImage image)) ∧
        exists fuel fuel' s s',
          Cycle.runTillHalt fuel (Cycle.initSimulator ic.toCacheConfig dc.toCacheConfig
              (MemoryStore.ofImage image)) = some (.halt, s) ∧
            Cycle.runTillHalt fuel' (Cycle.initSimulator ic'.toCacheConfig dc'.toCacheConfig
              (MemoryStore.ofImage image)) = some (.halt, s') ∧
            (Cycle.finalizeSimulator s').totalCycles <
              (Cycle.finalizeSimulator s).totalCycles := by
  have hrun : Cycle.HaltsAfter 22
      (Cycle.initSimulator (ValidConfig.wideBlock 5#32).toCacheConfig
        (ValidConfig.oneBlock 2#32).toCacheConfig
        (MemoryStore.ofImage (MemImage.ofWords jumpBlockProgram))) _ :=
    Machine.finishesIn_after (by decide +kernel) (by decide +kernel)
  have hrun' : Cycle.HaltsAfter 21
      (Cycle.initSimulator (ValidConfig.wideBlock 5#32).toCacheConfig
        (ValidConfig.oneBlock 4#32).toCacheConfig
        (MemoryStore.ofImage (MemImage.ofWords jumpBlockProgram))) _ :=
    Machine.finishesIn_after (by decide +kernel) (by decide +kernel)
  rcases Cycle.haltsAfter_iff_runTillHalt.mp ⟨_, hrun⟩ with ⟨fuel, hfuel⟩
  rcases Cycle.haltsAfter_iff_runTillHalt.mp ⟨_, hrun'⟩ with ⟨fuel', hfuel'⟩
  exact ⟨_, ValidConfig.wideBlock 5#32, ValidConfig.oneBlock 2#32, ValidConfig.wideBlock 5#32,
    ValidConfig.oneBlock 4#32, ⟨rfl, rfl, rfl⟩, ⟨rfl, rfl, rfl⟩, Or.inr ⟨rfl, by decide⟩,
    hrun.forall_reaches (P := Cycle.KeepsDelays) (by decide +kernel),
    hrun'.forall_reaches (P := Cycle.KeepsDelays) (by decide +kernel),
    fuel, fuel', _, _, hfuel, hfuel', by decide +kernel⟩

end PipeSim
