import Mathlib.Data.Finset.Card
import Mathlib.Data.List.Nodup
import Mathlib.Tactic.Common

/-!
# Least recently used replacement

A store of bounded capacity that evicts the item whose last use lies furthest
back is a list with the most recently used item in front.  Without the bound the
list orders all items by recency; with the bound it is a prefix of that
list.  An item is therefore in the store exactly when fewer distinct other items
than the capacity have been used since its own last use.
-/

namespace PipeSim
namespace Library
namespace Lru

variable {α β : Type} [DecidableEq α] [DecidableEq β]

def refresh (l : List α) (t : α) : List α := t :: l.erase t

/-- Use `t` in a store of at most `cap` items. -/
def touch (cap : Nat) (l : List α) (t : α) : List α := (refresh l t).take cap

def recency (xs : List α) : List α := xs.foldl refresh []

/-- The store after the uses `xs`. -/
def lru (cap : Nat) (xs : List α) : List α := xs.foldl (touch cap) []

theorem recency_append_singleton (xs : List α) (t : α) :
    recency (xs ++ [t]) = refresh (recency xs) t := by
  unfold recency
  rw [List.foldl_append]
  rfl

theorem lru_append_singleton (cap : Nat) (xs : List α) (t : α) :
    lru cap (xs ++ [t]) = touch cap (lru cap xs) t := by
  unfold lru
  rw [List.foldl_append]
  rfl

theorem head?_lru {cap : Nat} (hcap : 1 ≤ cap) (xs : List α) :
    (lru cap xs).head? = xs.getLast? := by
  cases List.eq_nil_or_concat xs with
  | inl hnil =>
      subst hnil
      rfl
  | inr hconcat =>
      rcases hconcat with ⟨ys, t, rfl⟩
      rcases Nat.exists_eq_add_of_le' hcap with ⟨n, rfl⟩
      rw [List.concat_eq_append, lru_append_singleton, List.getLast?_concat]
      rfl

theorem lru_append_again (cap : Nat) (xs : List α) (t : α) :
    lru cap (xs ++ [t] ++ [t]) = lru cap (xs ++ [t]) := by
  rw [lru_append_singleton, lru_append_singleton]
  generalize lru cap xs = l
  cases cap with
  | zero =>
      rfl
  | succ cap =>
      unfold touch refresh
      rw [List.take_succ_cons, List.take_succ_cons, List.erase_cons_head,
        List.take_take, Nat.min_self]

/-!
## Recency order
-/

theorem touch_of_not_mem {cap : Nat} {l : List α} {t : α} (h : t ∉ l) :
    touch cap l t = (t :: l).take cap := by
  unfold touch refresh
  rw [List.erase_of_not_mem h]

theorem mem_refresh {l : List α} {t u : α} : u ∈ refresh l t <-> u = t ∨ u ∈ l := by
  unfold refresh
  rw [List.mem_cons]
  by_cases hut : u = t
  · simp [hut]
  · rw [List.mem_erase_of_ne hut]

theorem nodup_refresh {l : List α} (h : l.Nodup) (t : α) : (refresh l t).Nodup := by
  unfold refresh
  rw [List.nodup_cons]
  exact ⟨h.not_mem_erase, h.erase t⟩

theorem mem_recency {xs : List α} {t : α} : t ∈ recency xs <-> t ∈ xs := by
  induction xs using List.reverseRecOn with
  | nil =>
      rfl
  | append_singleton xs u ih =>
      rw [recency_append_singleton, mem_refresh, ih, List.mem_append, List.mem_singleton]
      exact or_comm

theorem nodup_recency (xs : List α) : (recency xs).Nodup := by
  induction xs using List.reverseRecOn with
  | nil =>
      exact List.nodup_nil
  | append_singleton xs u ih =>
      rw [recency_append_singleton]
      exact nodup_refresh ih u

theorem length_recency (xs : List α) : (recency xs).length = xs.toFinset.card := by
  rw [← List.toFinset_card_of_nodup (nodup_recency xs)]
  congr 1
  ext t
  rw [List.mem_toFinset, List.mem_toFinset, mem_recency]

theorem recency_append (xs ys : List α) :
    recency (xs ++ ys) = recency ys ++ (recency xs).filter fun t => t ∉ ys := by
  induction ys using List.reverseRecOn with
  | nil =>
      simp [recency]
  | append_singleton ys u ih =>
      rw [← List.append_assoc, recency_append_singleton, recency_append_singleton, ih]
      unfold refresh
      rw [List.cons_append]
      congr 1
      by_cases hu : u ∈ ys
      · rw [List.erase_append_left _ (mem_recency.mpr hu)]
        congr 1
        apply List.filter_congr
        intro t _
        by_cases htu : t = u
        · subst htu
          simp [hu]
        · simp [htu]
      · rw [List.erase_append_right _ fun hmem => hu (mem_recency.mp hmem),
          List.erase_of_not_mem fun hmem => hu (mem_recency.mp hmem),
          (nodup_recency xs).filter _ |>.erase_eq_filter, List.filter_filter]
        congr 1
        apply List.filter_congr
        intro t _
        by_cases htu : t = u
        · subst htu
          simp
        · simp [htu]

/-!
## The bounded store is a prefix of the recency order
-/

theorem take_erase_of_mem_take {l : List α} {t : α} {n : Nat} (h : t ∈ l.take (n + 1)) :
    (l.take (n + 1)).erase t = (l.erase t).take n := by
  induction l generalizing n with
  | nil =>
      simp
  | cons u l ih =>
      by_cases hut : u = t
      · subst hut
        simp
      · rw [List.take_succ_cons, List.erase_cons_tail (by simpa using hut),
          List.erase_cons_tail (by simpa using hut)]
        rw [List.take_succ_cons, List.mem_cons] at h
        have hmem := h.resolve_left fun heq => hut heq.symm
        cases n with
        | zero =>
            cases hmem
        | succ n =>
            rw [List.take_succ_cons, ih hmem]

theorem take_erase_of_not_mem_take {l : List α} {t : α} {n : Nat} (h : t ∉ l.take n) :
    (l.erase t).take n = l.take n := by
  induction l generalizing n with
  | nil =>
      simp
  | cons u l ih =>
      cases n with
      | zero =>
          rfl
      | succ n =>
          rw [List.take_succ_cons, List.mem_cons, not_or] at h
          rw [List.erase_cons_tail (by simpa using fun heq => h.1 heq.symm),
            List.take_succ_cons, List.take_succ_cons, ih h.2]

theorem touch_take (cap : Nat) (l : List α) (t : α) :
    touch cap (l.take cap) t = (refresh l t).take cap := by
  unfold touch refresh
  cases cap with
  | zero =>
      rfl
  | succ n =>
      rw [List.take_succ_cons, List.take_succ_cons]
      congr 1
      by_cases hmem : t ∈ l.take (n + 1)
      · rw [take_erase_of_mem_take hmem, List.take_take, Nat.min_self]
      · have hmem' : t ∉ l.take n := fun h => hmem (List.take_subset_take_left l (Nat.le_succ n) h)
        rw [List.erase_of_not_mem hmem, take_erase_of_not_mem_take hmem', List.take_take,
          Nat.min_eq_left (Nat.le_succ n)]

theorem lru_eq_take (cap : Nat) (xs : List α) : lru cap xs = (recency xs).take cap := by
  induction xs using List.reverseRecOn with
  | nil =>
      exact List.take_nil.symm
  | append_singleton xs t ih =>
      rw [lru_append_singleton, recency_append_singleton, ih, touch_take]

theorem mem_of_mem_lru {cap : Nat} {xs : List α} {t : α} (h : t ∈ lru cap xs) : t ∈ xs := by
  rw [lru_eq_take] at h
  exact mem_recency.mp (List.mem_of_mem_take h)

theorem mem_lru_append_singleton {cap : Nat} (hcap : 1 ≤ cap) (xs : List α) (t : α) :
    t ∈ lru cap (xs ++ [t]) := by
  rw [lru_append_singleton]
  unfold touch refresh
  cases cap with
  | zero =>
      lia
  | succ n =>
      rw [List.take_succ_cons]
      exact List.mem_cons_self

/-!
## Stack distance
-/

/-- After its last use an item stays in the store as long as fewer than `cap` distinct
items have been used. -/
theorem mem_lru_append_cons {cap : Nat} {before since : List α} {t : α} (ht : t ∉ since) :
    t ∈ lru cap (before ++ t :: since) <-> since.toFinset.card < cap := by
  have hsplit : before ++ t :: since = (before ++ [t]) ++ since := by simp
  rw [lru_eq_take, hsplit, recency_append, recency_append_singleton]
  unfold refresh
  rw [List.filter_cons_of_pos (by simpa using ht), List.take_append, length_recency]
  have hrecent : t ∉ (recency since).take cap := fun h =>
    ht (mem_recency.mp (List.mem_of_mem_take h))
  rw [List.mem_append]
  constructor
  · intro h
    rcases h with h | h
    · exact absurd h hrecent
    · by_contra hge
      rw [Nat.sub_eq_zero_of_le (Nat.le_of_not_lt hge)] at h
      cases h
  · intro hlt
    cases hroom : cap - since.toFinset.card with
    | zero =>
        lia
    | succ n =>
        exact Or.inr (by rw [List.take_succ_cons]; exact List.mem_cons_self)

theorem exists_last_use {xs : List α} {t : α} (h : t ∈ xs) :
    exists before since, xs = before ++ t :: since ∧ t ∉ since := by
  induction xs using List.reverseRecOn with
  | nil =>
      cases h
  | append_singleton xs u ih =>
      by_cases htu : t = u
      · subst htu
        exact ⟨xs, [], rfl, List.not_mem_nil⟩
      · have hmem : t ∈ xs := by
          rcases List.mem_append.mp h with h | h
          · exact h
          · exact absurd (List.mem_singleton.mp h) htu
        rcases ih hmem with ⟨before, since, hxs, hsince⟩
        refine ⟨before, since ++ [u], ?_, ?_⟩
        · rw [hxs, List.append_assoc, List.cons_append]
        · rw [List.mem_append, List.mem_singleton]
          exact not_or.mpr ⟨hsince, htu⟩

/-- The stores of a set-associative organisation, where `set` tells which items
compete with each other. -/
theorem mem_lru_filter_iff {cap : Nat} {xs : List α} {t : α} (set : α -> β) :
    t ∈ lru cap (xs.filter fun u => set u = set t) <->
      exists before since, xs = before ++ t :: since ∧ t ∉ since ∧
        (since.filter fun u => set u = set t).toFinset.card < cap := by
  have hdecompose : forall before since : List α, t ∉ since ->
      (t ∈ lru cap ((before ++ t :: since).filter fun u => set u = set t) <->
        (since.filter fun u => set u = set t).toFinset.card < cap) := by
    intro before since hsince
    rw [List.filter_append, List.filter_cons_of_pos (by simp)]
    exact mem_lru_append_cons fun h => hsince (List.mem_of_mem_filter h)
  constructor
  · intro h
    rcases exists_last_use (List.mem_of_mem_filter (mem_of_mem_lru h)) with
      ⟨before, since, rfl, hsince⟩
    exact ⟨before, since, rfl, hsince, (hdecompose before since hsince).mp h⟩
  · intro h
    rcases h with ⟨before, since, rfl, hsince, hcard⟩
    exact (hdecompose before since hsince).mpr hcard

/-!
## Stores of different sizes
-/

/-- A larger store keeps what a smaller one keeps. -/
theorem lru_subset_lru {cap cap' : Nat} (h : cap ≤ cap') (xs : List α) :
    lru cap xs ⊆ lru cap' xs := by
  rw [lru_eq_take, lru_eq_take]
  exact List.take_subset_take_left _ h

theorem mem_lru_of_card_le {cap : Nat} {xs : List α} (h : xs.toFinset.card ≤ cap) {t : α} :
    t ∈ lru cap xs <-> t ∈ xs := by
  rw [lru_eq_take, List.take_of_length_le (by rw [length_recency]; exact h), mem_recency]

/-!
## Renaming items
-/

theorem map_erase_of_injOn {f : α -> β} {l : List α} {t : α}
    (h : forall u, u ∈ l -> f u = f t -> u = t) :
    (l.erase t).map f = (l.map f).erase (f t) := by
  induction l with
  | nil =>
      rfl
  | cons u l ih =>
      by_cases hut : u = t
      · subst hut
        simp
      · have hne : f u ≠ f t := fun heq => hut (h u List.mem_cons_self heq)
        rw [List.erase_cons_tail (by simpa using hut), List.map_cons, List.map_cons,
          List.erase_cons_tail (by simpa using hne),
          ih fun v hv => h v (List.mem_cons_of_mem u hv)]

theorem map_touch {f : α -> β} {l : List α} {t : α} (cap : Nat)
    (h : forall u, u ∈ l -> f u = f t -> u = t) :
    (touch cap l t).map f = touch cap (l.map f) (f t) := by
  unfold touch refresh
  rw [List.map_take, List.map_cons, map_erase_of_injOn h]

theorem map_lru {f : α -> β} {xs : List α} (cap : Nat)
    (h : forall u v, u ∈ xs -> v ∈ xs -> f u = f v -> u = v) :
    (lru cap xs).map f = lru cap (xs.map f) := by
  induction xs using List.reverseRecOn with
  | nil =>
      rfl
  | append_singleton xs t ih =>
      have hprev := ih fun u v hu hv =>
        h u v (List.mem_append_left _ hu) (List.mem_append_left _ hv)
      have htouch := map_touch (f := f) (l := lru cap xs) (t := t) cap fun u hu =>
        h u t (List.mem_append_left _ (mem_of_mem_lru hu))
          (List.mem_append_right _ (List.mem_singleton_self t))
      rw [lru_append_singleton, List.map_append, List.map_singleton, lru_append_singleton,
        htouch, hprev]

end Lru
end Library
end PipeSim
