import Mathlib.Data.List.Nodup
import Mathlib.Logic.Function.Basic
import Mathlib.Tactic.Common

/-!
# Conveyor belts

A belt assigns an item, or a gap, to each of its stages `0`, `1`, ..., `last`.
One move leaves the stages below some stage `m` alone, puts an input at stage `m`
and carries every later item one stage on, the item in the last stage leaving
the belt.  Items only enter at stage 0; a move from a later stage inserts a gap.

The first result is that a belt is a queue.  The second is that every item makes
one uninterrupted journey from the first stage to the last.
-/

namespace PipeSim
namespace Library
namespace Conveyor

variable {α β : Type}

/-- The belt `p` after a move from stage `m` on. -/
def advance (m : Nat) (input : α) (p : Nat -> α) : Nat -> α := fun i =>
  if i < m then p i else if i = m then input else p (i - 1)

theorem map_advance (f : α -> β) (m : Nat) (input : α) (p : Nat -> α) (i : Nat) :
    f (advance m input p i) = advance m (f input) (fun j => f (p j)) i := by
  unfold advance
  split
  · rfl
  · split
    · rfl
    · rfl

theorem advance_of_lt {m i : Nat} (input : α) (p : Nat -> α) (h : i < m) :
    advance m input p i = p i := if_pos h

theorem advance_self (m : Nat) (input : α) (p : Nat -> α) :
    advance m input p m = input := by
  unfold advance
  rw [if_neg (Nat.lt_irrefl m), if_pos rfl]

theorem advance_succ {m i : Nat} (input : α) (p : Nat -> α) (h : m ≤ i) :
    advance m input p (i + 1) = p i := by
  unfold advance
  rw [if_neg (by lia), if_neg (by lia)]
  rfl

theorem advance_related {R : α -> β -> Prop} {m last : Nat} {a : α} {b : β}
    {p : Nat -> α} {q : Nat -> β} (hinput : R a b)
    (h : forall i, i ≤ last -> R (p i) (q i)) :
    forall i, i ≤ last -> R (advance m a p i) (advance m b q i) := by
  intro i hi
  unfold advance
  split
  · exact h i hi
  · split
    · exact hinput
    · exact h (i - 1) (by lia)

/-!
## The belt as a queue
-/

/-- The items in the stages below `n`, the one furthest along first. -/
def contents : Nat -> (Nat -> Option α) -> List α
  | 0, _ => []
  | n + 1, p => (p n).toList ++ contents n p

theorem contents_congr {n : Nat} {p q : Nat -> Option α}
    (h : forall i, i < n -> p i = q i) : contents n p = contents n q := by
  induction n with
  | zero =>
      rfl
  | succ n ih =>
      rw [contents, contents, h n (Nat.lt_succ_self n),
        ih fun i hi => h i (Nat.lt_succ_of_lt hi)]

theorem contents_eq_nil {n : Nat} {p : Nat -> Option α}
    (h : forall i, i < n -> p i = none) : contents n p = [] := by
  induction n with
  | zero =>
      rfl
  | succ n ih =>
      rw [contents, h n (Nat.lt_succ_self n), ih fun i hi => h i (Nat.lt_succ_of_lt hi)]
      rfl

/-- What one move does to the queue: the item in front arrives in stage `n`, and
the input joins at the back. -/
theorem contents_succ_advance {m n : Nat} (hm : m ≤ n) {input : Option α}
    (hinput : 0 < m -> input = none) (p : Nat -> Option α) :
    contents (n + 1) (advance m input p) = contents n p ++ input.toList := by
  induction n with
  | zero =>
      have hzero : m = 0 := by lia
      subst hzero
      change (advance 0 input p 0).toList ++ [] = input.toList
      rw [advance_self, List.append_nil]
  | succ n ih =>
      rcases Nat.lt_or_ge n m with hlt | hge
      · have heq : m = n + 1 := by lia
        subst heq
        have hnone := hinput (Nat.succ_pos n)
        subst hnone
        rw [contents, advance_self]
        change contents (n + 1) _ = contents (n + 1) p ++ []
        rw [List.append_nil]
        exact contents_congr fun i hi => advance_of_lt none p hi
      · rw [contents, advance_succ input p hge, ih hge, contents, List.append_assoc]

/-!
## Histories

A history records the belt after every move, together with all the items that
have entered.
-/

/-- `History last lines p entered`: the moves of a belt with stages `0` to `last`
that was empty at first show the belts `lines`, end in `p` and bring in the items
`entered`. -/
inductive History (last : Nat) :
    List (Nat -> Option α) -> (Nat -> Option α) -> List α -> Prop where
  | start {p : Nat -> Option α} (hempty : forall i, i ≤ last -> p i = none) :
      History last [] p []
  | move {lines : List (Nat -> Option α)} {p p' : Nat -> Option α} {entered : List α}
      {m : Nat} {input : Option α} :
      History last lines p entered -> m ≤ last -> (0 < m -> input = none) ->
      (forall i, i ≤ last -> p' i = advance m input p i) ->
      History last (lines ++ [p']) p' (entered ++ input.toList)

theorem History.fifo {last : Nat} {lines : List (Nat -> Option α)}
    {p : Nat -> Option α} {entered : List α} (h : History last lines p entered) :
    lines.filterMap (fun line => line last) ++ contents last p = entered := by
  induction h with
  | start hempty =>
      exact contents_eq_nil fun i hi => hempty i (Nat.le_of_lt hi)
  | @move lines p p' entered m input _ hm hinput hp' ih =>
      have hqueue : (p' last).toList ++ contents last p' = contents last p ++ input.toList := by
        rw [← contents_succ_advance hm hinput p]
        exact contents_congr fun i hi => hp' i (Nat.le_of_lt_succ hi)
      rw [List.filterMap_append, List.append_assoc, ← ih, List.append_assoc, ← hqueue]
      cases hlast : p' last with
      | none =>
          simp [hlast]
      | some t =>
          simp [hlast]

def Absent (last : Nat) (t : α) (p : Nat -> Option α) : Prop :=
  forall i, i ≤ last -> p i ≠ some t

theorem mem_advance {last m i : Nat} {input : Option α} {p p' : Nat -> Option α} {t : α}
    (hm : m ≤ last) (hp' : forall i, i ≤ last -> p' i = advance m input p i)
    (hi : i ≤ last) (ht : p' i = some t) :
    (i = m ∧ input = some t) ∨
      exists j, j < last ∧ p j = some t ∧ i = if j < m then j else j + 1 := by
  rw [hp' i hi] at ht
  rcases Nat.lt_trichotomy i m with hlt | heq | hgt
  · rw [advance_of_lt input p hlt] at ht
    exact Or.inr ⟨i, by lia, ht, (if_pos hlt).symm⟩
  · subst heq
    rw [advance_self] at ht
    exact Or.inl ⟨rfl, ht⟩
  · cases i with
    | zero =>
        lia
    | succ j =>
        have hmj : m ≤ j := by lia
        rw [advance_succ input p hmj] at ht
        exact Or.inr ⟨j, by lia, ht, (if_neg (by lia)).symm⟩

theorem advance_mem {last m j : Nat} {input : Option α} {p p' : Nat -> Option α} {t : α}
    (hp' : forall i, i ≤ last -> p' i = advance m input p i)
    (hj : j < last) (ht : p j = some t) :
    p' (if j < m then j else j + 1) = some t := by
  split
  · rename_i hlt
    rw [hp' j (by lia), advance_of_lt input p hlt, ht]
  · rename_i hge
    rw [hp' (j + 1) (by lia), advance_succ input p (by lia), ht]

theorem History.absent {last : Nat} {lines : List (Nat -> Option α)}
    {p : Nat -> Option α} {entered : List α} (h : History last lines p entered)
    {t : α} (ht : t ∉ entered) :
    Absent last t p ∧ forall line, line ∈ lines -> Absent last t line := by
  induction h with
  | start hempty =>
      constructor
      · intro i hi hsome
        rw [hempty i hi] at hsome
        cases hsome
      · intro line hline
        cases hline
  | @move lines p p' entered m input _ hm _ hp' ih =>
      rw [List.mem_append, not_or] at ht
      rcases ih ht.1 with ⟨hp, hlines⟩
      have habsent : Absent last t p' := by
        intro i hi hsome
        rcases mem_advance hm hp' hi hsome with ⟨_, hinput⟩ | ⟨j, hj, hpj, _⟩
        · rw [hinput] at ht
          simp at ht
        · exact hp j (Nat.le_of_lt hj) hpj
      refine ⟨habsent, ?_⟩
      intro line hline
      rcases List.mem_append.mp hline with hold | hnew
      · exact hlines line hold
      · rw [List.mem_singleton.mp hnew]
        exact habsent

theorem History.getElem?_last {last : Nat} {lines : List (Nat -> Option α)}
    {p : Nat -> Option α} {entered : List α} (h : History last lines p entered)
    (hpos : 0 < lines.length) : lines[lines.length - 1]? = some p := by
  cases h with
  | start _ =>
      cases hpos
  | move _ _ _ _ =>
      simp

/-!
## Journeys
-/

/-- The item `t` is on the belt in the lines from `a` to `b` and in no other one:
in line `k` it is in stage `stage k` and nowhere else, it starts in stage 0, and
between two lines it stays or moves on by one stage.  It is in the last stage in
no line before `b`. -/
structure Journey (last : Nat) (lines : List (Nat -> Option α)) (t : α) (a b : Nat)
    (stage : Nat -> Nat) : Prop where
  le : a ≤ b
  lt_length : b < lines.length
  enters : stage a = 0
  advances : forall k, a ≤ k -> k < b ->
    stage (k + 1) = stage k ∨ stage (k + 1) = stage k + 1
  before_last : forall k, a ≤ k -> k < b -> stage k < last
  le_last : stage b ≤ last
  occupies : forall k line, lines[k]? = some line -> forall i, i ≤ last ->
    (line i = some t <-> a ≤ k ∧ k ≤ b ∧ stage k = i)

theorem Journey.start_eq {last : Nat} {lines : List (Nat -> Option α)} {t : α}
    {a b k : Nat} {stage : Nat -> Nat} (h : Journey last lines t a b stage)
    {line : Nat -> Option α} (hline : lines[k]? = some line) (hfirst : line 0 = some t)
    (hbefore : forall j l, j < k -> lines[j]? = some l -> Absent last t l) : a = k := by
  rcases (h.occupies k line hline 0 (Nat.zero_le _)).mp hfirst with ⟨hak, _, _⟩
  rcases Nat.lt_or_ge a k with hlt | hge
  · have ha : a < lines.length := Nat.lt_of_le_of_lt h.le h.lt_length
    have hget : lines[a]? = some lines[a] := List.getElem?_eq_getElem ha
    have hzero := (h.occupies a _ hget 0 (Nat.zero_le _)).mpr
      ⟨Nat.le_refl a, h.le, h.enters⟩
    exact absurd hzero (hbefore a _ hlt hget 0 (Nat.zero_le _))
  · lia

theorem Journey.append {last : Nat} {lines : List (Nat -> Option α)} {t : α} {a b : Nat}
    {stage : Nat -> Nat} (h : Journey last lines t a b stage) {line : Nat -> Option α}
    (habsent : Absent last t line) : Journey last (lines ++ [line]) t a b stage where
  le := h.le
  lt_length := by
    have hlt := h.lt_length
    rw [List.length_append]
    lia
  enters := h.enters
  advances := h.advances
  before_last := h.before_last
  le_last := h.le_last
  occupies := by
    intro k line' hline' i hi
    rcases Nat.lt_or_ge k lines.length with hlt | hge
    · rw [List.getElem?_append_left hlt] at hline'
      exact h.occupies k line' hline' i hi
    · rw [List.getElem?_append_right hge, List.getElem?_singleton] at hline'
      split at hline'
      · cases hline'
        constructor
        · intro hsome
          exact absurd hsome (habsent i hi)
        · intro h
          rcases h with ⟨_, hkb, _⟩
          have hlt := h.lt_length
          lia
      · cases hline'

theorem Journey.enter {last : Nat} {lines : List (Nat -> Option α)} {t : α}
    {line : Nat -> Option α} (habsent : forall l, l ∈ lines -> Absent last t l)
    (honly : forall i, i ≤ last -> (line i = some t <-> i = 0)) :
    Journey last (lines ++ [line]) t lines.length lines.length (fun _ => 0) where
  le := Nat.le_refl _
  lt_length := by
    rw [List.length_append]
    exact Nat.lt_succ_self _
  enters := rfl
  advances := by
    intro k hak hkb
    lia
  before_last := by
    intro k hak hkb
    lia
  le_last := Nat.zero_le _
  occupies := by
    intro k line' hline' i hi
    rcases Nat.lt_or_ge k lines.length with hlt | hge
    · rw [List.getElem?_append_left hlt] at hline'
      constructor
      · intro hsome
        exact absurd hsome (habsent line' (List.mem_of_getElem? hline') i hi)
      · intro h
        rcases h with ⟨hak, _, _⟩
        lia
    · rw [List.getElem?_append_right hge, List.getElem?_singleton] at hline'
      split at hline'
      · cases hline'
        rw [honly i hi]
        constructor
        · intro heq
          subst heq
          exact ⟨hge, by lia, rfl⟩
        · intro h
          rcases h with ⟨_, _, rfl⟩
          rfl
      · cases hline'

theorem Journey.extend {last : Nat} {lines : List (Nat -> Option α)} {t : α} {a b : Nat}
    {stage : Nat -> Nat} (h : Journey last lines t a b stage)
    (hb : b + 1 = lines.length) (hbefore : stage b < last)
    {line : Nat -> Option α} {j : Nat} (hj : j = stage b ∨ j = stage b + 1)
    (honly : forall i, i ≤ last -> (line i = some t <-> i = j)) :
    Journey last (lines ++ [line]) t a (b + 1) (Function.update stage (b + 1) j) where
  le := Nat.le_succ_of_le h.le
  lt_length := by
    rw [List.length_append, hb]
    exact Nat.lt_succ_self _
  enters := by
    have hle := h.le
    rw [Function.update_of_ne (by lia)]
    exact h.enters
  advances := by
    intro k hak hkb
    rw [Function.update_of_ne (show k ≠ b + 1 by lia)]
    rcases Nat.lt_succ_iff_lt_or_eq.mp hkb with hlt | heq
    · rw [Function.update_of_ne (by lia)]
      exact h.advances k hak hlt
    · subst heq
      rw [Function.update_self]
      exact hj
  before_last := by
    intro k hak hkb
    rw [Function.update_of_ne (by lia)]
    rcases Nat.lt_succ_iff_lt_or_eq.mp hkb with hlt | heq
    · exact h.before_last k hak hlt
    · subst heq
      exact hbefore
  le_last := by
    rw [Function.update_self]
    lia
  occupies := by
    intro k line' hline' i hi
    have hle := h.le
    rcases Nat.lt_or_ge k lines.length with hlt | hge
    · rw [List.getElem?_append_left hlt] at hline'
      rw [h.occupies k line' hline' i hi, Function.update_of_ne (by lia)]
      constructor
      · intro h
        rcases h with ⟨hak, hkb, hstage⟩
        exact ⟨hak, by lia, hstage⟩
      · intro h
        rcases h with ⟨hak, _, hstage⟩
        exact ⟨hak, by lia, hstage⟩
    · rw [List.getElem?_append_right hge, List.getElem?_singleton] at hline'
      split at hline'
      · rename_i hzero
        cases hline'
        have hk : k = b + 1 := by lia
        subst hk
        rw [honly i hi, Function.update_self]
        constructor
        · intro hij
          exact ⟨by lia, Nat.le_refl _, hij.symm⟩
        · intro h
          rcases h with ⟨_, _, hji⟩
          exact hji.symm
      · cases hline'

/-- A move takes an item that is on the belt on to its next line, and leaves one that is
not where it is. -/
theorem Journey.move {last m : Nat} {lines : List (Nat -> Option α)} {t : α} {a b : Nat}
    {stage : Nat -> Nat} {p p' : Nat -> Option α} {input : Option α}
    (h : Journey last lines t a b stage) (hwhere : b + 1 = lines.length ∨ stage b = last)
    (hlast : lines[lines.length - 1]? = some p) (hm : m ≤ last)
    (hp' : forall i, i ≤ last -> p' i = advance m input p i) (hne : input ≠ some t) :
    exists b' stage', Journey last (lines ++ [p']) t a b' stage' ∧
      (b' + 1 = (lines ++ [p']).length ∨ stage' b' = last) := by
  have hp := h.occupies _ p hlast
  by_cases hstays : b + 1 = lines.length ∧ stage b < last
  · rcases hstays with ⟨hb, hbefore⟩
    have hlength : lines.length - 1 = b := by lia
    rw [hlength] at hp
    have hpb : p (stage b) = some t :=
      (hp (stage b) h.le_last).mpr ⟨h.le, Nat.le_refl b, rfl⟩
    refine ⟨b + 1, _, h.extend hb hbefore
      (j := if stage b < m then stage b else stage b + 1) ?_ ?_, Or.inl ?_⟩
    · split
      · exact Or.inl rfl
      · exact Or.inr rfl
    · intro i hi
      constructor
      · intro hsome
        rcases mem_advance hm hp' hi hsome with ⟨_, hinputt⟩ | ⟨j, hj, hpj, hij⟩
        · exact absurd hinputt hne
        · rw [((hp j (Nat.le_of_lt hj)).mp hpj).2.2]
          exact hij
      · intro heq
        subst heq
        exact advance_mem hp' hbefore hpb
    · rw [List.length_append, hb]
      rfl
  · have hretired : stage b = last := by
      have hle := h.le_last
      lia
    refine ⟨b, stage, h.append ?_, Or.inr hretired⟩
    intro i hi hsome
    rcases mem_advance hm hp' hi hsome with ⟨_, hinputt⟩ | ⟨j, hj, hpj, _⟩
    · exact hne hinputt
    · rcases (hp j (Nat.le_of_lt hj)).mp hpj with ⟨_, hkb, hstage⟩
      have hlt := h.lt_length
      have hb : lines.length - 1 = b := by lia
      rw [hb] at hstage
      lia

/-- Every item that has entered a belt is on its journey: it is on the belt still,
or it has been in the last stage. -/
theorem History.exists_journey {last : Nat} {lines : List (Nat -> Option α)}
    {p : Nat -> Option α} {entered : List α} (h : History last lines p entered)
    (hnodup : entered.Nodup) {t : α} (ht : t ∈ entered) :
    exists a b stage, Journey last lines t a b stage ∧
      (b + 1 = lines.length ∨ stage b = last) := by
  induction h with
  | start _ =>
      cases ht
  | @move lines p p' entered m input hprev hm hinput hp' ih =>
      rw [List.nodup_append] at hnodup
      rcases hnodup with ⟨hnodup, _, hdisjoint⟩
      rcases List.mem_append.mp ht with hold | hnew
      · have hne : input ≠ some t := by
          intro heq
          subst heq
          exact hdisjoint t hold t (by simp) rfl
        rcases ih hnodup hold with ⟨a, b, stage, hjourney, hwhere⟩
        have hlast := hprev.getElem?_last (Nat.zero_lt_of_lt hjourney.lt_length)
        exact ⟨a, hjourney.move hwhere hlast hm hp' hne⟩
      · have hinputt : input = some t := Option.mem_toList.mp hnew
        subst hinputt
        have hzero : m = 0 := by
          by_contra hm0
          exact absurd (hinput (Nat.pos_of_ne_zero hm0)) (by simp)
        subst hzero
        have hfresh : t ∉ entered := fun hmem => hdisjoint t hmem t (by simp) rfl
        rcases hprev.absent hfresh with ⟨hp, hlines⟩
        refine ⟨_, _, _, Journey.enter hlines ?_, Or.inl ?_⟩
        · intro i hi
          constructor
          · intro hsome
            rcases mem_advance hm hp' hi hsome with ⟨hi0, _⟩ | ⟨j, hj, hpj, _⟩
            · exact hi0
            · exact absurd hpj (hp j (Nat.le_of_lt hj))
          · intro heq
            subst heq
            rw [hp' 0 (Nat.zero_le _), advance_self]
        · simp

end Conveyor
end Library
end PipeSim
