import PipeSim.Library.Lru

/-!
# Set-associative stores

Every item belongs to a set, and each set is a bounded store of its own that evicts its least
recently used item.  This module follows a whole sequence of uses: which of them find their
item, how many do not, and what a loop over distinct items comes to.
-/

namespace PipeSim
namespace Library
namespace Lru

variable {α β : Type} [DecidableEq α] [DecidableEq β]

/-- Whether each of the uses finds its item in the store of its set, behind the uses
`seen`. -/
def found (cap : Nat) (set : α -> β) : List α -> List α -> List Bool
  | _, [] => []
  | seen, t :: ts =>
      decide (t ∈ lru cap (seen.filter fun u => set u = set t)) ::
        found cap set (seen ++ [t]) ts

section Found

variable {cap cap' : Nat} {set : α -> β}

theorem found_cons {hit : Bool} {seen : List α} {t : α}
    (h : hit = true <-> t ∈ lru cap (seen.filter fun u => set u = set t)) (ts : List α) :
    found cap set seen (t :: ts) = hit :: found cap set (seen ++ [t]) ts := by
  rw [found]
  congr 1
  rw [Bool.eq_iff_iff, decide_eq_true_iff, h]

theorem found_append (seen ts us : List α) :
    found cap set seen (ts ++ us) = found cap set seen ts ++ found cap set (seen ++ ts) us := by
  induction ts generalizing seen with
  | nil =>
      rw [List.nil_append, List.append_nil]
      rfl
  | cons t ts ih =>
      rw [List.cons_append, found, found, ih, List.append_assoc]
      rfl

/-- Larger stores find whatever smaller ones find. -/
theorem found_of_le (h : cap ≤ cap') (seen ts : List α) :
    List.Forall₂ (fun hit hit' => hit = true -> hit' = true) (found cap set seen ts)
      (found cap' set seen ts) := by
  induction ts generalizing seen with
  | nil =>
      exact List.Forall₂.nil
  | cons t ts ih =>
      apply List.Forall₂.cons ?_ (ih _)
      rw [decide_eq_true_iff, decide_eq_true_iff]
      intro hmem
      exact lru_subset_lru h _ hmem

end Found

theorem count_false_le {hits hits' : List Bool}
    (h : List.Forall₂ (fun hit hit' => hit = true -> hit' = true) hits hits') :
    hits'.count false ≤ hits.count false := by
  induction h with
  | nil =>
      exact Nat.le_refl 0
  | @cons hit hit' _ _ hkept _ ih =>
      rw [List.count_cons, List.count_cons]
      cases hit with
      | true =>
          rw [hkept rfl]
          exact ih
      | false =>
          apply Nat.add_le_add ih
          show (if hit' == false then 1 else 0) ≤ 1
          split
          · exact Nat.le_refl 1
          · exact Nat.zero_le 1

theorem card_filter_le_append (p : α -> Bool) (xs ys : List α) :
    (xs.filter p).toFinset.card ≤ ((xs ++ ys).filter p).toFinset.card := by
  apply Finset.card_le_card
  rw [List.filter_append, List.toFinset_append]
  exact Finset.subset_union_left

/-!
## Items that have not been used before
-/

section Distinct

variable {cap : Nat} {set : α -> β}

theorem toFinset_append_singleton_of_mem {seen : List α} {t : α} (h : t ∈ seen) :
    (seen ++ [t]).toFinset = seen.toFinset := by
  ext u
  rw [List.mem_toFinset, List.mem_toFinset, List.mem_append, List.mem_singleton]
  constructor
  · intro hu
    rcases hu with hu | rfl
    · exact hu
    · exact h
  · exact Or.inl

theorem card_toFinset_append_singleton {seen : List α} {t : α} (h : t ∉ seen) :
    (seen ++ [t]).toFinset.card = seen.toFinset.card + 1 := by
  rw [List.toFinset_append, List.toFinset_cons, List.toFinset_nil,
    Finset.card_union_of_disjoint, Finset.card_insert_of_notMem (Finset.notMem_empty t),
    Finset.card_empty]
  rw [Finset.disjoint_insert_right, List.mem_toFinset]
  exact ⟨h, Finset.disjoint_empty_right _⟩

theorem mem_of_found {seen : List α} {t : α}
    (h : t ∈ lru cap (seen.filter fun u => set u = set t)) : t ∈ seen :=
  List.mem_of_mem_filter (mem_of_mem_lru h)

theorem card_le_count_found (seen ts : List α) :
    (seen ++ ts).toFinset.card ≤ seen.toFinset.card + (found cap set seen ts).count false := by
  induction ts generalizing seen with
  | nil =>
      rw [List.append_nil]
      exact Nat.le_refl _
  | cons t ts ih =>
      have hrest := ih (seen ++ [t])
      rw [List.append_assoc, List.singleton_append] at hrest
      rw [found, List.count_cons]
      by_cases hmem : t ∈ lru cap (seen.filter fun u => set u = set t)
      · rw [toFinset_append_singleton_of_mem (mem_of_found hmem)] at hrest
        exact Nat.le_trans hrest (Nat.add_le_add_left (Nat.le_add_right _ _) _)
      · rw [decide_eq_false hmem, beq_self_eq_true, if_pos rfl]
        by_cases hseen : t ∈ seen
        · rw [toFinset_append_singleton_of_mem hseen] at hrest
          lia
        · rw [card_toFinset_append_singleton hseen] at hrest
          lia

theorem card_le_misses (ts : List α) : ts.toFinset.card ≤ (found cap set [] ts).count false := by
  have hle : ([] ++ ts).toFinset.card ≤ 0 + (found cap set [] ts).count false :=
    card_le_count_found [] ts
  rw [List.nil_append, Nat.zero_add] at hle
  exact hle

theorem mem_lru_filter_of_room {seen ts : List α} {t : α}
    (hroom : ((seen ++ ts).filter fun u => set u = set t).toFinset.card ≤ cap) :
    t ∈ lru cap (seen.filter fun u => set u = set t) <-> t ∈ seen := by
  have hcard : (seen.filter fun u => set u = set t).toFinset.card ≤ cap :=
    Nat.le_trans (card_filter_le_append _ _ _) hroom
  rw [mem_lru_of_card_le hcard, List.mem_filter]
  constructor
  · exact And.left
  · intro h
    exact ⟨h, decide_eq_true rfl⟩

theorem count_found_of_room {seen ts : List α}
    (hroom : forall t, t ∈ ts ->
      ((seen ++ ts).filter fun u => set u = set t).toFinset.card ≤ cap) :
    seen.toFinset.card + (found cap set seen ts).count false = (seen ++ ts).toFinset.card := by
  induction ts generalizing seen with
  | nil =>
      rw [List.append_nil]
      rfl
  | cons t ts ih =>
      have hroom' : forall u, u ∈ ts ->
          ((seen ++ [t] ++ ts).filter fun v => set v = set u).toFinset.card ≤ cap := by
        intro u hu
        rw [List.append_assoc, List.singleton_append]
        exact hroom u (List.mem_cons_of_mem t hu)
      have hrest := ih hroom'
      rw [List.append_assoc, List.singleton_append] at hrest
      rw [found, List.count_cons, ← hrest]
      by_cases hseen : t ∈ seen
      · rw [decide_eq_true ((mem_lru_filter_of_room (hroom t List.mem_cons_self)).mpr hseen),
          toFinset_append_singleton_of_mem hseen]
        rfl
      · rw [decide_eq_false fun hmem => hseen (mem_of_found hmem),
          card_toFinset_append_singleton hseen, beq_self_eq_true, if_pos rfl]
        lia

theorem misses_eq_card {ts : List α}
    (hroom : forall t, t ∈ ts -> (ts.filter fun u => set u = set t).toFinset.card ≤ cap) :
    (found cap set [] ts).count false = ts.toFinset.card := by
  have hroom' : forall t, t ∈ ts ->
      (([] ++ ts).filter fun u => set u = set t).toFinset.card ≤ cap := hroom
  have hcount : 0 + (found cap set [] ts).count false = ([] ++ ts).toFinset.card :=
    count_found_of_room hroom'
  rw [List.nil_append, Nat.zero_add] at hcount
  exact hcount

end Distinct

/-!
## Full stores
-/

section Full

variable {cap : Nat} {set : α -> β}

theorem lru_append_of_full {xs ys : List α} (h : cap ≤ ys.toFinset.card) :
    lru cap (xs ++ ys) = lru cap ys := by
  rw [lru_eq_take, lru_eq_take, recency_append]
  apply List.take_append_of_le_length
  rw [length_recency]
  exact h

/-- When the uses `ys` have filled the stores of all items to come, what came before them does
not matter. -/
theorem found_of_full {xs ys ts : List α}
    (h : forall t, t ∈ ts -> cap ≤ (ys.filter fun u => set u = set t).toFinset.card) :
    found cap set (xs ++ ys) ts = found cap set ys ts := by
  induction ts generalizing ys with
  | nil =>
      rfl
  | cons t ts ih =>
      have hlater : forall u, u ∈ ts ->
          cap ≤ ((ys ++ [t]).filter fun v => set v = set u).toFinset.card := by
        intro u hu
        exact Nat.le_trans (h u (List.mem_cons_of_mem t hu)) (card_filter_le_append _ _ _)
      rw [found, found, List.filter_append, lru_append_of_full (h t List.mem_cons_self),
        List.append_assoc, ih hlater]

end Full

/-!
## Loops over distinct items
-/

section Loop

variable {cap : Nat} {set : α -> β}

theorem found_of_nodup {seen ts : List α} (h : (seen ++ ts).Nodup) :
    found cap set seen ts = List.replicate ts.length false := by
  induction ts generalizing seen with
  | nil =>
      rfl
  | cons t ts ih =>
      have hseen : t ∉ seen := by
        rw [List.nodup_middle, List.nodup_cons] at h
        exact fun hmem => h.1 (List.mem_append_left _ hmem)
      rw [found, decide_eq_false fun hmem => hseen (mem_of_found hmem), List.length_cons,
        List.replicate_succ, ih (by rw [List.append_assoc]; exact h)]

theorem mem_lru_loop {before after : List α} {t : α} (h : (before ++ t :: after).Nodup)
    (pre : List α) :
    t ∈ lru cap (((pre ++ t :: (after ++ before))).filter fun u => set u = set t) <->
      ((before ++ t :: after).filter fun u => set u = set t).length ≤ cap := by
  rw [List.nodup_middle, List.nodup_cons] at h
  rcases h with ⟨ht, hothers⟩
  have hswap : (after ++ before).Perm (before ++ after) := List.perm_append_comm
  have hsince : t ∉ (after ++ before).filter fun u => set u = set t := fun hmem =>
    ht (hswap.mem_iff.mp (List.mem_of_mem_filter hmem))
  have hlength : ((before ++ t :: after).filter fun u => set u = set t).length =
      ((after ++ before).filter fun u => set u = set t).length + 1 := by
    rw [(List.perm_middle.filter _).length_eq, List.filter_cons_of_pos (by simp),
      List.length_cons, (hswap.filter _).length_eq]
  rw [List.filter_append, List.filter_cons_of_pos (by simp),
    mem_lru_append_cons hsince, hlength,
    List.toFinset_card_of_nodup ((hswap.nodup_iff.mpr hothers).filter _)]
  exact Nat.lt_iff_add_one_le

/-- What is found once round the loop `ts` on a later lap. -/
def lap (cap : Nat) (set : α -> β) (ts : List α) : List Bool :=
  ts.map fun t => decide ((ts.filter fun u => set u = set t).length ≤ cap)

theorem found_rest {before after : List α} (h : (before ++ after).Nodup) (pre : List α) :
    found cap set (pre ++ (before ++ after) ++ before) after =
      after.map fun t =>
        decide (((before ++ after).filter fun u => set u = set t).length ≤ cap) := by
  induction after generalizing before with
  | nil =>
      rfl
  | cons t after ih =>
      have hsplit : before ++ t :: after = (before ++ [t]) ++ after := by
        rw [List.append_assoc]
        rfl
      have hlap : pre ++ (before ++ t :: after) ++ before =
          (pre ++ before) ++ t :: (after ++ before) := by
        simp
      rw [found, List.map_cons]
      congr 1
      · apply Bool.decide_congr
        rw [hlap]
        exact mem_lru_loop h (pre ++ before)
      · rw [List.append_assoc _ before [t], hsplit]
        exact ih (hsplit ▸ h)

theorem found_lap {ts : List α} (h : ts.Nodup) (pre : List α) :
    found cap set (pre ++ ts) ts = lap cap set ts := by
  have hfirst : ([] ++ ts).Nodup := h
  have hrest : found cap set (pre ++ ([] ++ ts) ++ []) ts = lap cap set ts :=
    found_rest hfirst pre
  rw [List.nil_append, List.append_nil] at hrest
  exact hrest

theorem found_laps {ts : List α} (h : ts.Nodup) (pre : List α) (n : Nat) :
    found cap set (pre ++ ts) (List.replicate n ts).flatten =
      (List.replicate n (lap cap set ts)).flatten := by
  induction n generalizing pre with
  | zero =>
      rfl
  | succ n ih =>
      rw [List.replicate_succ, List.flatten_cons, found_append, found_lap h, ih (pre ++ ts)]
      rfl

/-- A loop over distinct items misses each on the first lap; on every later lap it finds
those whose sets have room for the loop's items. -/
theorem found_loop {ts : List α} (h : ts.Nodup) (n : Nat) :
    found cap set [] (List.replicate (n + 1) ts).flatten =
      List.replicate ts.length false ++ (List.replicate n (lap cap set ts)).flatten := by
  have hfirst : ([] ++ ts).Nodup := h
  rw [List.replicate_succ, List.flatten_cons, found_append, found_of_nodup hfirst,
    found_laps h []]

end Loop

end Lru
end Library
end PipeSim
