import Mathlib.Order.WellFounded
import Mathlib.Tactic.Common

/-!
# Machines that are stepped until they finish

A machine is given by a total step function that also reports whether the step
just taken was the last one.  This module fixes the vocabulary shared by every
simulator of the development: finite prefixes of a run, the run that finishes
after a given number of steps, and a driver loop with fuel.  The two proof
rules are the invariant rule and a stuttering simulation in which the second
machine may take extra steps as long as a well-founded measure decreases.
-/

namespace PipeSim
namespace Library

variable {σ τ : Type}

/-- A step function together with a flag raised by the finishing step. -/
abbrev Machine (σ : Type) := σ -> Bool × σ

namespace Machine

/-- `Reaches M n s t`: `n` unfinished steps lead from `s` to `t`. -/
inductive Reaches (M : Machine σ) : Nat -> σ -> σ -> Prop where
  | refl (s : σ) : Reaches M 0 s s
  | tail {n : Nat} {s t u : σ} :
      Reaches M n s t -> M t = (false, u) -> Reaches M (n + 1) s u

/-- The run from `s` takes exactly `n` steps and its last one finishes in
`t`. -/
def FinishesIn (M : Machine σ) (n : Nat) (s t : σ) : Prop :=
  exists k u, n = k + 1 ∧ Reaches M k s u ∧ M u = (true, t)

/-- The driver loop: step until the machine reports that it has finished. -/
def runFuel (M : Machine σ) : Nat -> σ -> Option σ
  | 0, _ => none
  | fuel + 1, s =>
      match M s with
      | (true, t) => some t
      | (false, t) => runFuel M fuel t

/-!
## Prefixes of a run
-/

theorem Reaches.head {M : Machine σ} {n : Nat} {s t u : σ}
    (hst : M s = (false, t)) (htu : Reaches M n t u) :
    Reaches M (n + 1) s u := by
  induction htu with
  | refl t =>
      exact Reaches.tail (Reaches.refl s) hst
  | tail _ hstep ih =>
      exact Reaches.tail (ih hst) hstep

theorem Reaches.trans {M : Machine σ} {m n : Nat} {s t u : σ}
    (hst : Reaches M m s t) (htu : Reaches M n t u) :
    Reaches M (m + n) s u := by
  induction htu with
  | refl _ =>
      exact hst
  | tail _ hstep ih =>
      exact Reaches.tail (ih hst) hstep

theorem Reaches.of_head {M : Machine σ} {n : Nat} {s t u : σ}
    (h : Reaches M (n + 1) s u) (hst : M s = (false, t)) : Reaches M n t u := by
  induction n generalizing u with
  | zero =>
      cases h with
      | tail hprev hstep =>
          cases hprev
          rw [hst] at hstep
          cases hstep
          exact Reaches.refl t
  | succ n ih =>
      cases h with
      | tail hprev hstep =>
          exact Reaches.tail (ih hprev) hstep

theorem Reaches.one {M : Machine σ} {s t : σ} (h : M s = (false, t)) :
    Reaches M 1 s t :=
  Reaches.tail (Reaches.refl s) h

theorem Reaches.unique {M : Machine σ} {n : Nat} {s t u : σ}
    (ht : Reaches M n s t) (hu : Reaches M n s u) : t = u := by
  induction ht generalizing u with
  | refl _ =>
      cases hu
      rfl
  | tail _ hstep ih =>
      cases hu with
      | tail hprev hstep' =>
          rw [ih hprev, hstep'] at hstep
          cases hstep
          rfl

theorem Reaches.exists_head {M : Machine σ} {n : Nat} {s u : σ}
    (h : Reaches M (n + 1) s u) : exists t, M s = (false, t) ∧ Reaches M n t u := by
  induction n generalizing u with
  | zero =>
      cases h with
      | tail hprev hstep =>
          cases hprev
          exact ⟨u, hstep, Reaches.refl u⟩
  | succ n ih =>
      cases h with
      | tail hprev hstep =>
          rcases ih hprev with ⟨t, hst, htu⟩
          exact ⟨t, hst, Reaches.tail htu hstep⟩

theorem Reaches.drop {M : Machine σ} {m n : Nat} {s t u : σ}
    (h : Reaches M (m + n) s u) (ht : Reaches M m s t) : Reaches M n t u := by
  induction ht generalizing n with
  | refl _ =>
      rw [Nat.zero_add] at h
      exact h
  | tail _ hstep ih =>
      rw [Nat.add_assoc, Nat.add_comm 1 n] at h
      exact (ih h).of_head hstep

/-- A property of the start that every unfinished step keeps holds at the end of
every prefix. -/
theorem Reaches.invariant {M : Machine σ} {P : σ -> Prop}
    (hstep : forall s t, P s -> M s = (false, t) -> P t)
    {n : Nat} {s t : σ} (hs : P s) (h : Reaches M n s t) : P t := by
  induction h with
  | refl _ =>
      exact hs
  | tail _ hlast ih =>
      exact hstep _ _ (ih hs) hlast

/-- The invariant rule for runs all of whose steps start in a state with a side
condition. -/
theorem Reaches.invariant_of_forall {M : Machine σ} {P C : σ -> Prop}
    (hstep : forall s t, P s -> C s -> M s = (false, t) -> P t)
    {n : Nat} {s t : σ} (hs : P s) (h : Reaches M n s t)
    (hC : forall k u, k < n -> Reaches M k s u -> C u) : P t := by
  induction h with
  | refl _ =>
      exact hs
  | @tail m _ _ _ hprev hlast ih =>
      have hbefore := ih hs (fun k u hk hu => hC k u (by lia) hu)
      exact hstep _ _ hbefore (hC m _ (by lia) hprev) hlast

/-!
## Finished runs
-/

theorem FinishesIn.head {M : Machine σ} {n : Nat} {s t u : σ}
    (hst : M s = (false, t)) (h : FinishesIn M n t u) :
    FinishesIn M (n + 1) s u := by
  rcases h with ⟨k, v, hn, hreach, hlast⟩
  exact ⟨k + 1, v, by rw [hn], Reaches.head hst hreach, hlast⟩

theorem FinishesIn.of_reaches {M : Machine σ} {m n : Nat} {s t u : σ}
    (hst : Reaches M m s t) (h : FinishesIn M n t u) :
    FinishesIn M (m + n) s u := by
  rcases h with ⟨k, v, hn, hreach, hlast⟩
  exact ⟨m + k, v, by rw [hn, Nat.add_assoc], hst.trans hreach, hlast⟩

theorem FinishesIn.lt_of_reaches {M : Machine σ} {k n : Nat} {s t u : σ}
    (h : FinishesIn M n s t) (hk : Reaches M k s u) : k < n := by
  rcases h with ⟨m, v, rfl, hreach, hlast⟩
  induction hk with
  | refl _ =>
      lia
  | @tail j _ w x hprev hstep ih =>
      have hj := ih hreach
      rcases Nat.lt_succ_iff_lt_or_eq.mp hj with hlt | heq
      · lia
      · subst heq
        rw [hprev.unique hreach, hlast] at hstep
        cases hstep

theorem FinishesIn.of_head {M : Machine σ} {n : Nat} {s t u : σ}
    (h : FinishesIn M (n + 1) s u) (hst : M s = (false, t)) :
    FinishesIn M n t u := by
  rcases h with ⟨k, v, hn, hreach, hlast⟩
  have hk : k = n := by lia
  subst hk
  cases k with
  | zero =>
      cases hreach
      rw [hst] at hlast
      cases hlast
  | succ k =>
      exact ⟨k, v, rfl, hreach.of_head hst, hlast⟩

theorem FinishesIn.drop {M : Machine σ} {m n : Nat} {s t u : σ}
    (h : FinishesIn M n s u) (hst : Reaches M m s t) :
    exists k, n = m + k ∧ FinishesIn M k t u := by
  induction hst with
  | refl _ =>
      exact ⟨n, (Nat.zero_add n).symm, h⟩
  | tail _ hstep ih =>
      rcases ih h with ⟨k, hn, hrest⟩
      cases k with
      | zero =>
          rcases hrest with ⟨j, _, hj, _⟩
          lia
      | succ k =>
          exact ⟨k, by lia, hrest.of_head hstep⟩

theorem FinishesIn.unique {M : Machine σ} {m n : Nat} {s t u : σ}
    (ht : FinishesIn M m s t) (hu : FinishesIn M n s u) : m = n ∧ t = u := by
  rcases ht with ⟨j, v, rfl, hv, hvt⟩
  rcases hu with ⟨k, w, rfl, hw, hwu⟩
  have hjk : j < k + 1 := FinishesIn.lt_of_reaches ⟨k, w, rfl, hw, hwu⟩ hv
  have hkj : k < j + 1 := FinishesIn.lt_of_reaches ⟨j, v, rfl, hv, hvt⟩ hw
  have hEq : j = k := by lia
  subst hEq
  rw [hv.unique hw, hwu] at hvt
  cases hvt
  exact ⟨rfl, rfl⟩

theorem finishesIn_of_runFuel {M : Machine σ} {fuel : Nat} {s t : σ}
    (h : runFuel M fuel s = some t) : exists n, n ≤ fuel ∧ FinishesIn M n s t := by
  induction fuel generalizing s with
  | zero =>
      cases h
  | succ fuel ih =>
      rw [runFuel] at h
      cases hstep : M s with
      | mk finished u =>
          rw [hstep] at h
          cases finished with
          | true =>
              cases h
              exact ⟨1, by lia, 0, s, rfl, Reaches.refl s, hstep⟩
          | false =>
              rcases ih h with ⟨n, hn, hrun⟩
              exact ⟨n + 1, by lia, hrun.head hstep⟩

theorem runFuel_add_of_reaches {M : Machine σ} {k : Nat} {s u : σ}
    (h : Reaches M k s u) (m : Nat) : runFuel M (k + m) s = runFuel M m u := by
  induction h generalizing m with
  | refl _ =>
      rw [Nat.zero_add]
  | tail _ hstep ih =>
      rw [Nat.add_assoc, ih, Nat.add_comm 1 m, runFuel, hstep]

theorem runFuel_of_finishesIn {M : Machine σ} {n : Nat} {s t : σ}
    (h : FinishesIn M n s t) : runFuel M n s = some t := by
  rcases h with ⟨k, u, rfl, hreach, hlast⟩
  rw [runFuel_add_of_reaches hreach, runFuel, hlast]

theorem exists_finishesIn_iff_runFuel {M : Machine σ} {s t : σ} :
    (exists n, FinishesIn M n s t) <-> exists fuel, runFuel M fuel s = some t := by
  constructor
  · intro h
    rcases h with ⟨n, h⟩
    exact ⟨n, runFuel_of_finishesIn h⟩
  · intro h
    rcases h with ⟨fuel, h⟩
    rcases finishesIn_of_runFuel h with ⟨n, _, hfin⟩
    exact ⟨n, hfin⟩

/-- A driver that reports with `halt` what the loop with fuel returns decides whether a run
finishes. -/
theorem exists_finishesIn_iff_driver {ω : Type} {M : Machine σ} {halt : ω}
    {driver : Nat -> σ -> Option (ω × σ)}
    (hdriver : forall fuel s, driver fuel s = (M.runFuel fuel s).map fun t => (halt, t))
    {s t : σ} :
    (exists n, FinishesIn M n s t) <-> exists fuel, driver fuel s = some (halt, t) := by
  rw [exists_finishesIn_iff_runFuel]
  refine exists_congr ?_
  intro fuel
  rw [hdriver, Option.map_eq_some_iff]
  constructor
  · intro h
    exact ⟨t, h, rfl⟩
  · intro h
    rcases h with ⟨u, hu, heq⟩
    rw [hu, (Prod.mk.inj heq).2]

/-!
## Computed runs

For a concrete state the prefix of given length is computed by iterating the
step, and its flags can be checked by evaluation.
-/

def after (M : Machine σ) : Nat -> σ -> σ
  | 0, s => s
  | n + 1, s => (M (after M n s)).2

theorem reaches_after {M : Machine σ} {s : σ} {n : Nat}
    (h : forall k, k < n -> (M (after M k s)).1 = false) :
    Reaches M n s (after M n s) := by
  induction n with
  | zero =>
      exact Reaches.refl s
  | succ n ih =>
      have hprev := ih fun k hk => h k (by lia)
      exact Reaches.tail hprev (Prod.ext (h n (by lia)) rfl)

theorem Reaches.eq_after {M : Machine σ} {n : Nat} {s t : σ}
    (h : Reaches M n s t) : t = after M n s := by
  induction h with
  | refl _ =>
      rfl
  | tail _ hstep ih =>
      rw [after, ← ih, hstep]

theorem Reaches.take {M : Machine σ} {k n : Nat} {s t : σ} (h : Reaches M n s t)
    (hk : k ≤ n) : Reaches M k s (after M k s) := by
  induction h with
  | refl _ =>
      have hzero : k = 0 := Nat.le_zero.mp hk
      subst hzero
      exact Reaches.refl _
  | @tail m _ _ _ hprev hstep ih =>
      rcases Nat.lt_or_eq_of_le hk with hlt | heq
      · exact ih (Nat.le_of_lt_succ hlt)
      · have hwhole := hprev.tail hstep
        rw [← heq] at hwhole
        have hend := hwhole.eq_after
        subst hend
        exact hwhole

theorem finishesIn_after {M : Machine σ} {s : σ} {n : Nat}
    (h : forall k, k < n -> (M (after M k s)).1 = false)
    (hlast : (M (after M n s)).1 = true) :
    FinishesIn M (n + 1) s (after M (n + 1) s) :=
  ⟨n, after M n s, rfl, reaches_after h, Prod.ext hlast rfl⟩

theorem FinishesIn.eq_after {M : Machine σ} {n : Nat} {s t : σ}
    (h : FinishesIn M n s t) : t = after M n s := by
  rcases h with ⟨m, u, rfl, hreach, hlast⟩
  rw [hreach.eq_after] at hlast
  exact (congrArg Prod.snd hlast).symm

def visits (M : Machine σ) (P : σ -> Prop) [DecidablePred P] : Nat -> σ -> Nat
  | 0, _ => 0
  | n + 1, s => visits M P n s + if P (after M n s) then 1 else 0

theorem Reaches.visits_succ {M : Machine σ} (P : σ -> Prop) [DecidablePred P] {n : Nat}
    {s t : σ} (h : Reaches M n s t) :
    visits M P (n + 1) s = visits M P n s + if P t then 1 else 0 := by
  rw [visits, ← h.eq_after]

theorem FinishesIn.forall_reaches {M : Machine σ} {P : σ -> Prop} {n : Nat} {s t : σ}
    (h : FinishesIn M n s t) (hP : forall k, k < n -> P (after M k s)) :
    forall k u, Reaches M k s u -> P u := by
  intro k u hreach
  rw [hreach.eq_after]
  exact hP k (h.lt_of_reaches hreach)

/-!
## Leaving a set of states
-/

/-- `Leaves M P n s t`: after exactly `n` steps from states with `P` the run from `s` comes
to `t`, which is without `P`. -/
inductive Leaves (M : Machine σ) (P : σ -> Prop) : Nat -> σ -> σ -> Prop where
  | now {s : σ} : ¬ P s -> Leaves M P 0 s s
  | later {n : Nat} {s t u : σ} :
      P s -> M s = (false, t) -> Leaves M P n t u -> Leaves M P (n + 1) s u

theorem Leaves.not_mem {M : Machine σ} {P : σ -> Prop} {n : Nat} {s t : σ}
    (h : Leaves M P n s t) : ¬ P t := by
  induction h with
  | now hnot =>
      exact hnot
  | later _ _ _ ih =>
      exact ih

/-- The set is left within the steps that a decreasing measure allows. -/
theorem exists_leaves {M : Machine σ} {P Q : σ -> Prop} (μ : σ -> Nat)
    (hstep : forall s, Q s -> P s -> exists t, M s = (false, t) ∧ Q t ∧ μ t < μ s)
    {s : σ} (h : Q s) : exists n t, Leaves M P n s t ∧ Q t ∧ n ≤ μ s := by
  generalize hm : μ s = m
  induction m using Nat.strong_induction_on generalizing s with
  | h m ih =>
      by_cases hP : P s
      · rcases hstep s h hP with ⟨t, hst, ht, hlt⟩
        rcases ih (μ t) (by lia) ht rfl with ⟨n, u, hleaves, hu, hle⟩
        exact ⟨n + 1, u, Leaves.later hP hst hleaves, hu, by lia⟩
      · exact ⟨0, s, Leaves.now hP, h, Nat.zero_le m⟩

theorem Leaves.length_eq {M : Machine σ} {P C : σ -> Prop} {n : Nat} {s u : σ} (ν : σ -> Nat)
    (h : Leaves M P n s u)
    (hstep : forall s t, P s -> C s -> M s = (false, t) -> ν s = ν t + 1) (hend : ν u = 0)
    (hC : forall k t, k < n -> Reaches M k s t -> C t) : ν s = n := by
  induction h with
  | now _ =>
      exact hend
  | later hP hst _ ih =>
      rw [hstep _ _ hP (hC 0 _ (Nat.zero_lt_succ _) (Reaches.refl _)) hst]
      rw [ih hend fun k t hk hreach => hC (k + 1) t (Nat.succ_lt_succ hk) (hreach.head hst)]

/-!
## Stuttering simulation

The second machine either makes progress on its own, which the measure bounds,
or it takes a step together with the first one.
-/

section Simulation

variable {α : Type} [WellFoundedRelation α]
variable {M : Machine σ} {N : Machine τ}
variable {R F : σ -> τ -> Prop} {μ : τ -> α}

/-- The two machines step together from related states, and the step is
unfinished on both sides or finishing on both sides. -/
def StepTogether (M : Machine σ) (N : Machine τ) (R F : σ -> τ -> Prop)
    (s : σ) (t : τ) : Prop :=
  (exists s' t', M s = (false, s') ∧ N t = (false, t') ∧ R s' t') ∨
    (exists s' t', M s = (true, s') ∧ N t = (true, t') ∧ F s' t')

/-- One step of the simulation: the second machine steps alone and its measure
decreases, or both machines step. -/
def StutterStep (M : Machine σ) (N : Machine τ) (R F : σ -> τ -> Prop) (μ : τ -> α)
    (s : σ) (t : τ) : Prop :=
  (exists t', N t = (false, t') ∧ R s t' ∧ WellFoundedRelation.rel (μ t') (μ t)) ∨
    StepTogether M N R F s t

theorem exists_stepTogether
    (hstep : forall s t, R s t -> StutterStep M N R F μ s t)
    {s : σ} {t : τ} (hst : R s t) :
    exists k t', Reaches N k t t' ∧ R s t' ∧ StepTogether M N R F s t' := by
  have hwf : WellFounded (WellFoundedRelation.rel : α -> α -> Prop) :=
    WellFoundedRelation.wf
  generalize hμ : μ t = a
  induction a using hwf.induction generalizing t with
  | _ a ih =>
      rcases hstep s t hst with ⟨t', ht', hst', hlt⟩ | htogether
      · rw [hμ] at hlt
        rcases ih (μ t') hlt hst' rfl with ⟨k, u, hreach, hsu, hu⟩
        exact ⟨k + 1, u, hreach.head ht', hsu, hu⟩
      · exact ⟨0, t, Reaches.refl t, hst, htogether⟩

/-- If the first machine finishes then so does the second, in a related final
state. -/
theorem FinishesIn.simulate
    (hstep : forall s t, R s t -> StutterStep M N R F μ s t)
    {n : Nat} {s s' : σ} {t : τ} (hst : R s t) (h : FinishesIn M n s s') :
    exists m t', FinishesIn N m t t' ∧ F s' t' := by
  induction n generalizing s t with
  | zero =>
      rcases h with ⟨k, _, hk, _⟩
      lia
  | succ n ih =>
      rcases exists_stepTogether hstep hst with ⟨k, u, hreach, hsu, htogether⟩
      rcases htogether with ⟨v, w, hv, hw, hvw⟩ | ⟨v, w, hv, hw, hvw⟩
      · rcases ih hvw (h.of_head hv) with ⟨m, t', hfin, ht'⟩
        exact ⟨k + (m + 1), t', FinishesIn.of_reaches hreach (hfin.head hw), ht'⟩
      · have hone : FinishesIn M 1 s v := ⟨0, s, rfl, Reaches.refl s, hv⟩
        rcases h.unique hone with ⟨_, rfl⟩
        exact ⟨k + 1, w, ⟨k, u, rfl, hreach, hw⟩, hvw⟩

end Simulation

/-!
## Lockstep
-/

section Lockstep

variable {M : Machine σ} {N : Machine τ} {R : σ -> τ -> Prop}

/-- From related states both machines raise the same flag and move on to related states. -/
def Lockstep (M : Machine σ) (N : Machine τ) (R : σ -> τ -> Prop) : Prop :=
  forall s t, R s t -> (N t).1 = (M s).1 ∧ R (M s).2 (N t).2

theorem Reaches.lockstep (hstep : Lockstep M N R) {n : Nat} {s s' : σ} {t : τ} (hst : R s t)
    (h : Reaches M n s s') : exists t', Reaches N n t t' ∧ R s' t' := by
  induction h with
  | refl _ =>
      exact ⟨t, Reaches.refl t, hst⟩
  | tail _ hlast ih =>
      rcases ih hst with ⟨u, hreach, hu⟩
      rcases hstep _ u hu with ⟨hflag, hrelated⟩
      rw [hlast] at hflag hrelated
      exact ⟨(N u).2, hreach.tail (Prod.ext hflag rfl), hrelated⟩

theorem FinishesIn.lockstep (hstep : Lockstep M N R) {n : Nat} {s s' : σ} {t : τ}
    (hst : R s t) (h : FinishesIn M n s s') : exists t', FinishesIn N n t t' ∧ R s' t' := by
  rcases h with ⟨k, u, hn, hreach, hlast⟩
  rcases hreach.lockstep hstep hst with ⟨v, hreach', hv⟩
  rcases hstep u v hv with ⟨hflag, hrelated⟩
  rw [hlast] at hflag hrelated
  exact ⟨(N v).2, ⟨k, v, hn, hreach', Prod.ext hflag rfl⟩, hrelated⟩

end Lockstep

theorem reaches_or_finishesIn (M : Machine σ) (n : Nat) (s : σ) :
    (exists t, Reaches M n s t) ∨ exists k t, k ≤ n ∧ FinishesIn M k s t := by
  induction n with
  | zero =>
      exact Or.inl ⟨s, Reaches.refl s⟩
  | succ n ih =>
      rcases ih with ⟨t, ht⟩ | ⟨k, t, hk, hrun⟩
      · cases hflag : (M t).1 with
        | false =>
            exact Or.inl ⟨(M t).2, ht.tail (Prod.ext hflag rfl)⟩
        | true =>
            exact Or.inr ⟨n + 1, (M t).2, Nat.le_refl _, n, t, rfl, ht, Prod.ext hflag rfl⟩
      · exact Or.inr ⟨k, t, by lia, hrun⟩

/-!
## Two runs side by side

The second machine follows the first one in laps, which may take different numbers of
steps.  The relation between the states at the ends of a lap says how many steps
the second machine is behind.
-/

section Laps

variable {M : Machine σ} {N : Machine τ}

/-- One lap from states in which the second machine is `lag` steps behind. -/
def Lap (M : Machine σ) (N : Machine τ) (R : Nat -> σ -> τ -> Prop) (lag : Nat)
    (s : σ) (t : τ) : Prop :=
  exists m n lag' s' t',
    0 < m ∧ Reaches M m s s' ∧ Reaches N n t t' ∧ R lag' s' t' ∧ m + lag' ≤ n + lag

/-- A machine that is never ahead at the end of a lap finishes no earlier. -/
theorem FinishesIn.le_of_laps {R : Nat -> σ -> τ -> Prop}
    (hlap : forall lag s t, R lag s t ->
      (M s).1 = true ∨ Lap M N R lag s t)
    {m n lag : Nat} {s s' : σ} {t t' : τ} (hR : R lag s t) (hs : FinishesIn M m s s')
    (ht : FinishesIn N n t t') : m ≤ n + lag := by
  induction m using Nat.strong_induction_on generalizing n lag s t with
  | _ m ih =>
      rcases hlap lag s t hR with hfinal | ⟨j, k, lag', u, v, hj, hsu, htv, hR', hle⟩
      · have hone : FinishesIn M 1 s (M s).2 := ⟨0, s, rfl, Reaches.refl s, Prod.ext hfinal rfl⟩
        have hm := (hs.unique hone).1
        rcases ht with ⟨k, _, hn, _⟩
        lia
      · rcases hs.drop hsu with ⟨m', hm, hs'⟩
        rcases ht.drop htv with ⟨n', hn, ht'⟩
        have hrest := ih m' (by lia) hR' hs' ht'
        lia

/-- When each step of the second machine is a lap of at most `bound` steps of the first one,
the first one takes at most `bound` times as many steps. -/
theorem FinishesIn.le_mul_of_laps {R : σ -> τ -> Prop} {bound : Nat} (hbound : 1 ≤ bound)
    (hlap : forall s t, R s t ->
      (M s).1 = true ∨
        exists j s' t', j ≤ bound ∧ Reaches M j s s' ∧ N t = (false, t') ∧ R s' t')
    {m n : Nat} {s s' : σ} {t t' : τ} (hR : R s t) (hs : FinishesIn M m s s')
    (ht : FinishesIn N n t t') : m ≤ n * bound := by
  induction n generalizing m s t with
  | zero =>
      rcases ht with ⟨k, _, hk, _⟩
      lia
  | succ n ih =>
      rw [Nat.succ_mul]
      rcases hlap s t hR with hfinal | ⟨j, u, v, hj, hsu, htv, hR'⟩
      · have hone : FinishesIn M 1 s (M s).2 := ⟨0, s, rfl, Reaches.refl s, Prod.ext hfinal rfl⟩
        rw [(hs.unique hone).1]
        exact Nat.le_trans hbound (Nat.le_add_left _ _)
      · rcases hs.drop hsu with ⟨k, rfl, hrest⟩
        have hlater := ih hR' hrest (ht.of_head htv)
        lia

end Laps

end Machine

/-!
## Runs that report
-/

variable {ω : Type}

/-- `n` steps of a function that also returns a report, with all reports. -/
def reports (step : σ -> ω × σ) : Nat -> σ -> List ω × σ
  | 0, s => ([], s)
  | n + 1, s =>
      let later := reports step n (step s).2
      ((step s).1 :: later.1, later.2)

/-- A relation whose states report the same and stay related under a step gives the
same reports in every run. -/
theorem reports_congr {step : σ -> ω × σ} {R : σ -> σ -> Prop}
    (hstep : forall s t, R s t -> (step s).1 = (step t).1 ∧ R (step s).2 (step t).2)
    (n : Nat) {s t : σ} (h : R s t) :
    (reports step n s).1 = (reports step n t).1 ∧
      R (reports step n s).2 (reports step n t).2 := by
  induction n generalizing s t with
  | zero =>
      exact ⟨rfl, h⟩
  | succ n ih =>
      rcases hstep s t h with ⟨hreport, hnext⟩
      rcases ih hnext with ⟨hreports, hlast⟩
      refine ⟨?_, hlast⟩
      rw [reports, reports, hreport, hreports]

end Library
end PipeSim
