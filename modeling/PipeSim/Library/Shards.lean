import Mathlib.Data.List.FinRange
import Mathlib.Data.List.Sort
import Mathlib.Data.Fin.Basic
import Mathlib.Logic.Equiv.Defs
import Mathlib.Logic.Function.Basic
import Mathlib.Tactic.Common

/-!
# States made of independent components

A state is a family of components, and every action changes the one component that
its key names.  A component then depends on the actions of its own key alone, in
their order, and so does the value that an action returns.  Two sequences with the
same actions, in the same order within each key, therefore have the same effect.
-/

namespace PipeSim
namespace Library
namespace Shards

variable {α β κ ρ : Type} [DecidableEq κ] (key : α -> κ) (step : α -> ρ -> β × ρ)

def runAll : List α -> (κ -> ρ) -> List β × (κ -> ρ)
  | [], s => ([], s)
  | a :: as, s =>
      let done := step a (s (key a))
      let others := runAll as (Function.update s (key a) done.2)
      (done.1 :: others.1, others.2)

def runOne : List α -> ρ -> ρ
  | [], r => r
  | a :: as, r => runOne as (step a r).2

/-- The value returned by the action at position `k`, computed from its own component. -/
def outcome (as : List α) (s : κ -> ρ) (k : Fin as.length) : β :=
  (step (as.get k)
    (runOne step ((as.take k).filter fun a => key a = key (as.get k))
      (s (key (as.get k))))).1

theorem runOne_cons_filter (a : α) (as : List α) (s : κ -> ρ) (i : κ) :
    runOne step ((a :: as).filter fun b => key b = i) (s i) =
      runOne step (as.filter fun b => key b = i)
        (Function.update s (key a) (step a (s (key a))).2 i) := by
  rw [List.filter_cons]
  by_cases h : key a = i
  · subst h
    rw [if_pos (by simp), runOne, Function.update_self]
  · rw [if_neg (by simpa using h), Function.update_of_ne (Ne.symm h)]

theorem runAll_component (as : List α) (s : κ -> ρ) (i : κ) :
    (runAll key step as s).2 i = runOne step (as.filter fun a => key a = i) (s i) := by
  induction as generalizing s with
  | nil =>
      rfl
  | cons a as ih =>
      rw [runOne_cons_filter, ← ih]
      rfl

theorem runAll_values (as : List α) (s : κ -> ρ) :
    (runAll key step as s).1 = List.ofFn (outcome key step as s) := by
  induction as generalizing s with
  | nil =>
      rfl
  | cons a as ih =>
      change (step a (s (key a))).1 :: (runAll key step as _).1 =
        List.ofFn (n := as.length + 1) (outcome key step (a :: as) s)
      rw [List.ofFn_succ, ih]
      congr 1
      congr 1
      funext k
      unfold outcome
      rw [← runOne_cons_filter]
      rfl

/-!
## Sequences with the same order within each key
-/

/-- `bs` has the elements of `as`, moved by `σ`, with those of one key in their order. -/
structure KeepsOrder (as bs : List α) (σ : Fin as.length ≃ Fin bs.length) : Prop where
  same : forall k, bs.get (σ k) = as.get k
  order : forall k l, k < l -> key (as.get k) = key (as.get l) -> σ k < σ l

theorem filter_take_eq_map (as : List α) (p : α -> Bool) (k : Nat) :
    (as.take k).filter p =
      ((List.finRange as.length).filter fun i => i.val < k && p (as.get i)).map as.get := by
  induction as generalizing k with
  | nil =>
      rw [List.take_nil]
      rfl
  | cons a as ih =>
      cases k with
      | zero =>
          simp
      | succ k =>
          have hrange : List.finRange (a :: as).length =
              0 :: (List.finRange as.length).map Fin.succ := List.finRange_succ
          rw [List.take_succ_cons, List.filter_cons, ih k, hrange, List.filter_cons,
            List.filter_map]
          cases h : p a with
          | false =>
              simp [h, Function.comp_def]
          | true =>
              simp [h, Function.comp_def]

theorem map_filter_eq_of_monotone {n m : Nat} (σ : Fin n ≃ Fin m) {f : Fin n -> α}
    {g : Fin m -> α} {p : Fin n -> Bool} {q : Fin m -> Bool} (hfg : forall i, g (σ i) = f i)
    (hpq : forall i, q (σ i) = p i)
    (hmono : forall i j, p i = true -> p j = true -> i < j -> σ i < σ j) :
    ((List.finRange n).filter p).map f = ((List.finRange m).filter q).map g := by
  have hsorted : (((List.finRange n).filter p).map σ).Pairwise (· < ·) := by
    rw [List.pairwise_map]
    refine List.Pairwise.imp_of_mem ?_ ((List.pairwise_lt_finRange n).filter p)
    intro i j hi hj hij
    exact hmono i j (List.mem_filter.mp hi).2 (List.mem_filter.mp hj).2 hij
  have hsorted' : ((List.finRange m).filter q).Pairwise (· < ·) :=
    (List.pairwise_lt_finRange m).filter q
  have heq : ((List.finRange n).filter p).map σ = (List.finRange m).filter q := by
    refine hsorted.eq_of_mem_iff hsorted' ?_
    intro j
    rw [List.mem_map, List.mem_filter]
    constructor
    · intro h
      rcases h with ⟨i, hi, rfl⟩
      refine ⟨List.mem_finRange _, ?_⟩
      rw [hpq]
      exact (List.mem_filter.mp hi).2
    · intro h
      rcases h with ⟨_, hj⟩
      refine ⟨σ.symm j, ?_, σ.apply_symm_apply j⟩
      rw [List.mem_filter, ← hpq, σ.apply_symm_apply]
      exact ⟨List.mem_finRange _, hj⟩
  rw [← heq, List.map_map]
  refine List.map_congr_left ?_
  intro i _
  exact (hfg i).symm

section KeepsOrder

variable {as bs : List α} {σ : Fin as.length ≃ Fin bs.length}

theorem KeepsOrder.filter_take (h : KeepsOrder key as bs σ) (k : Fin as.length) :
    ((as.take k).filter fun a => key a = key (as.get k)) =
      (bs.take (σ k)).filter fun b => key b = key (bs.get (σ k)) := by
  rw [filter_take_eq_map, filter_take_eq_map]
  refine map_filter_eq_of_monotone σ h.same ?_ ?_
  · intro i
    rw [h.same, h.same]
    by_cases hkey : key (as.get i) = key (as.get k)
    · have hlt : (σ i).val < (σ k).val <-> i.val < k.val := by
        constructor
        · intro hσ
          by_contra hle
          rcases lt_or_eq_of_le (Nat.le_of_not_lt hle) with hki | hki
          · exact Nat.lt_asymm hσ (h.order k i hki hkey.symm)
          · rw [Fin.ext hki] at hσ
            exact Nat.lt_irrefl _ hσ
        · intro hik
          exact h.order i k hik hkey
      simp only [hlt]
    · simp only [hkey, decide_false, Bool.and_false]
  · intro i j hi hj hij
    simp only [Bool.and_eq_true, decide_eq_true_eq] at hi hj
    exact h.order i j hij (hi.2.trans hj.2.symm)

theorem KeepsOrder.filter (h : KeepsOrder key as bs σ) (i : κ) :
    (as.filter fun a => key a = i) = bs.filter fun b => key b = i := by
  rw [← List.take_length (l := as), ← List.take_length (l := bs), filter_take_eq_map,
    filter_take_eq_map]
  refine map_filter_eq_of_monotone σ h.same ?_ ?_
  · intro j
    rw [h.same]
    simp
  · intro j k hj hk hjk
    simp only [Bool.and_eq_true, decide_eq_true_eq] at hj hk
    exact h.order j k hjk (hj.2.trans hk.2.symm)

theorem KeepsOrder.outcome (h : KeepsOrder key as bs σ) (s : κ -> ρ) (k : Fin as.length) :
    outcome key step bs s (σ k) = outcome key step as s k := by
  unfold Shards.outcome
  rw [← h.filter_take, h.same]

theorem KeepsOrder.runAll_state (h : KeepsOrder key as bs σ) (s : κ -> ρ) :
    (runAll key step as s).2 = (runAll key step bs s).2 := by
  funext i
  rw [runAll_component, runAll_component, h.filter]

theorem KeepsOrder.runAll_values (h : KeepsOrder key as bs σ) (s : κ -> ρ)
    (k : Fin as.length) :
    (runAll key step as s).1[k.val]? = some (Shards.outcome key step as s k) ∧
      (runAll key step bs s).1[(σ k).val]? = some (Shards.outcome key step as s k) := by
  rw [Shards.runAll_values, Shards.runAll_values, List.getElem?_ofFn, List.getElem?_ofFn,
    dif_pos k.isLt, dif_pos (σ k).isLt]
  exact ⟨rfl, congrArg some (h.outcome key step s k)⟩

theorem KeepsOrder.runAll_values_perm (h : KeepsOrder key as bs σ) (s : κ -> ρ) :
    (runAll key step as s).1.Perm (runAll key step bs s).1 := by
  have hindices : ((List.finRange as.length).map σ).Perm (List.finRange bs.length) := by
    rw [List.perm_ext_iff_of_nodup ((List.nodup_finRange _).map σ.injective)
      (List.nodup_finRange _)]
    intro j
    rw [List.mem_map]
    exact ⟨fun _ => List.mem_finRange j,
      fun _ => ⟨σ.symm j, List.mem_finRange _, σ.apply_symm_apply j⟩⟩
  rw [Shards.runAll_values, Shards.runAll_values, List.ofFn_eq_map, List.ofFn_eq_map]
  have hmap : (List.finRange as.length).map (Shards.outcome key step as s) =
      ((List.finRange as.length).map σ).map (Shards.outcome key step bs s) := by
    rw [List.map_map]
    refine List.map_congr_left ?_
    intro k _
    exact (h.outcome key step s k).symm
  rw [hmap]
  exact hindices.map _

end KeepsOrder

end Shards
end Library
end PipeSim
