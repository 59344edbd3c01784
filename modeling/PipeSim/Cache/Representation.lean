import PipeSim.Cache.StackDistance
import Mathlib.Data.List.Perm.Subperm

/-!
# The representation invariant of a cache row

What the three tables hold for one set, in their own terms: the valid ways stand in
front, the ages number them through, the tags differ, and age 1 marks the tag used
last.  A row that represents a recency list satisfies it.
-/

namespace PipeSim

open Library

/-- Pairwise distinct numbers from `1` to `k`, as many as `k`, are these numbers in some
order. -/
theorem map_range_perm {f : Nat -> Nat} {k : Nat}
    (hinj : forall i j, i < k -> j < k -> f i = f j -> i = j)
    (hbound : forall i, i < k -> 1 ≤ f i ∧ f i ≤ k) :
    ((List.range k).map f).Perm (List.range' 1 k) := by
  have hnodup : ((List.range k).map f).Nodup := by
    refine List.Nodup.map_on ?_ List.nodup_range
    intro i hi j hj heq
    exact hinj i j (List.mem_range.mp hi) (List.mem_range.mp hj) heq
  have hsubset : (List.range k).map f ⊆ List.range' 1 k := by
    intro n hn
    rcases List.mem_map.mp hn with ⟨i, hi, rfl⟩
    rcases hbound i (List.mem_range.mp hi) with ⟨hpos, hle⟩
    exact List.mem_range'_1.mpr ⟨hpos, by lia⟩
  refine (List.subperm_of_subset hnodup hsubset).perm_of_length_le ?_
  rw [List.length_range', List.length_map, List.length_range]

namespace CacheSet

/-- The invariant of a row with `k` valid ways, where `last` is the tag of the most recent
access to it. -/
structure WellFormed (row : CacheSet) (ways : Nat) (last : Option Word) (k : Nat) : Prop where
  le_ways : k ≤ ways
  valid_iff : forall j, j < ways -> (row.valid j = true <-> j < k)
  order_perm : ((List.range k).map fun j => (row.order j).toNat).Perm (List.range' 1 k)
  tags_distinct : forall i j, i < k -> j < k -> row.tags i = row.tags j -> i = j
  youngest : forall j, j < k -> (row.order j = 1#32 <-> last = some (row.tags j))
  empty_iff : k = 0 <-> last = none

section Represents

variable {row : CacheSet} {ways : Nat} {l : List Word}

theorem Represents.youngest_iff (h : Represents row ways l) {j : Nat} (hj : j < l.length) :
    row.order j = 1#32 <-> l.head? = some (row.tags j) := by
  rcases h.placed j hj with ⟨hpos, hget⟩
  rw [List.head?_eq_getElem?]
  constructor
  · intro hone
    have hage : row.age j = 1 := congrArg BitVec.toNat hone
    rw [hage] at hget
    exact hget
  · intro hfirst
    rcases List.getElem?_eq_some_iff.mp hget with ⟨hlt, _⟩
    have hindex : row.age j - 1 = 0 :=
      (List.getElem?_inj hlt h.nodup).mp (hget.trans hfirst.symm)
    refine BitVec.eq_of_toNat_eq ?_
    show row.age j = 1
    lia

theorem Represents.wellFormed (h : Represents row ways l) :
    row.WellFormed ways l.head? l.length where
  le_ways := h.length_le
  valid_iff := by
    intro j hj
    rw [h.valid j hj, decide_eq_true_iff]
  order_perm := by
    refine map_range_perm ?_ ?_
    · intro i j hi hj hage
      exact h.age_injective hi hj hage
    · intro i hi
      exact ⟨(h.placed i hi).1, h.age_le hi⟩
  tags_distinct := h.injective
  youngest := by
    intro j hj
    exact h.youngest_iff hj
  empty_iff := by
    rw [List.length_eq_zero_iff, List.head?_eq_none_iff]

end Represents

/-- `row'` is `row` with `tag` in the place of the only way of age `ways`. -/
def Replaces (row : CacheSet) (ways tag : Word) (row' : CacheSet) : Prop :=
  exists oldest, oldest < ways.toNat ∧
    (forall j, j < ways.toNat -> (row.order j = ways <-> j = oldest)) ∧
    forall j, j < ways.toNat -> row'.tags j = if j = oldest then tag else row.tags j

theorem Represents.replaces {row : CacheSet} {ways : Word} {l : List Word}
    (h : Represents row ways.toNat l) (hways : 1 ≤ ways.toNat)
    (hfull : l.length = ways.toNat) {tag : Word} (hmiss : (row.access ways tag).1 = false) :
    row.Replaces ways tag (row.access ways tag).2 := by
  rcases h.exists_oldest hways hfull with ⟨oldest, holdest, hage, _⟩
  have hnew : tag ∉ l := by
    rw [(h.access hways tag).1] at hmiss
    exact of_decide_eq_false hmiss
  rw [h.access_of_full hfull hnew]
  unfold Replaces
  rw [← hfull]
  refine ⟨oldest, holdest, ?_, ?_⟩
  · intro j hj
    exact h.age_eq_iff holdest hage hj
  · intro j hj
    exact h.tags_evict holdest hage tag hj

end CacheSet

namespace Cache

def lastTag (c : Cache) (accesses : List (Word × CacheOperation)) (i : Nat) : Option Word :=
  ((accesses.filter fun a => (c.index a.1).toNat = i).map fun a => c.tag a.1).getLast?

/-- The representation invariant after `accesses`: every row is well-formed, and a miss in
a row whose ways are all valid replaces the one of age `ways`. -/
def WellFormed (c : Cache) (ways : Word) (accesses : List (Word × CacheOperation)) : Prop :=
  forall i, exists k, (c.sets i).WellFormed ways.toNat (c.lastTag accesses i) k ∧
    (k = ways.toNat -> forall address readWrite,
      (c.index address).toNat = i -> (c.access address readWrite).1 = false ->
      (c.sets i).Replaces ways (c.tag address) ((c.access address readWrite).2.sets i))

theorem Models.wellFormed {c : Cache} {config : CacheConfig}
    {accesses : List (Word × CacheOperation)} (h : c.Models config (accesses.map Prod.fst))
    (hways : 1 ≤ config.ways.toNat) : c.WellFormed config.ways accesses := by
  intro i
  have hrow := h.rows i
  have hlast : c.lastTag accesses i = (Lru.lru config.ways.toNat
      (((accesses.map Prod.fst).filter fun b => (c.index b).toNat = i).map c.tag)).head? := by
    rw [Lru.head?_lru hways, List.filter_map, List.map_map]
    rfl
  rw [hlast]
  refine ⟨_, hrow.wellFormed, ?_⟩
  intro hfull address readWrite hindex hmiss
  subst hindex
  have haccess : (c.access address readWrite).2.sets (c.index address).toNat =
      ((c.sets (c.index address).toNat).access config.ways (c.tag address)).2 := by
    rw [← h.built]
    exact Function.update_self _ _ _
  rw [haccess]
  refine hrow.replaces hways hfull ?_
  rw [← h.built]
  exact hmiss

end Cache

/-- After any accesses to a new cache, in every row the valid ways are the first `k`, their
ages are a permutation of `1..k`, their tags are distinct, and age 1 marks the tag used
last.  A miss in a full row replaces the one way of age `ways`. -/
theorem cache_representation (config : ValidConfig) (accesses : List (Word × CacheOperation)) :
    ((Cache.new config.toCacheConfig).accessAll accesses).2.WellFormed config.ways accesses := by
  have hmodels := (Cache.models_new config.toCacheConfig).accessAll config.ways_pos accesses
  exact hmodels.wellFormed config.ways_pos

end PipeSim
