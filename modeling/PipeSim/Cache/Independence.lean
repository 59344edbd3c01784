import PipeSim.Cache.StackDistance
import PipeSim.Library.Shards

/-!
# Cache sets are independent

An access reads and writes the row that its address falls into and no other.  The
rows are components updated by key, so that only the order of accesses within a row
matters for the state of the cache and for the values returned.
-/

namespace PipeSim

open Library

namespace Cache

def rowOf (c : Cache) (a : Word × CacheOperation) : Nat := (c.index a.1).toNat

def rowAccess (c : Cache) (a : Word × CacheOperation) (row : CacheSet) : Bool × CacheSet :=
  row.access c.config.ways (c.tag a.1)

theorem accessAll_eq_runAll (c : Cache) (as : List (Word × CacheOperation)) :
    (c.accessAll as).1 = (Shards.runAll c.rowOf c.rowAccess as c.sets).1 ∧
      (c.accessAll as).2.sets = (Shards.runAll c.rowOf c.rowAccess as c.sets).2 := by
  induction as generalizing c with
  | nil =>
      exact ⟨rfl, rfl⟩
  | cons a as ih =>
      rcases ih (c.access a.1 a.2).2 with ⟨hvalues, hsets⟩
      exact ⟨congrArg (_ :: ·) hvalues, hsets⟩

theorem accessAll_config (c : Cache) (as : List (Word × CacheOperation)) :
    (c.accessAll as).2.config = c.config := by
  induction as generalizing c with
  | nil =>
      rfl
  | cons a as ih =>
      exact ih (c.access a.1 a.2).2

theorem accessAll_numSets (c : Cache) (as : List (Word × CacheOperation)) :
    (c.accessAll as).2.numSets = c.numSets := by
  induction as generalizing c with
  | nil =>
      rfl
  | cons a as ih =>
      exact ih (c.access a.1 a.2).2

theorem eq_of_members {c d : Cache} (hhits : c.hits = d.hits) (hmisses : c.misses = d.misses)
    (hnumSets : c.numSets = d.numSets) (hsets : c.sets = d.sets)
    (hconfig : c.config = d.config) : c = d := by
  cases c
  cases d
  rw [mk.injEq]
  exact ⟨hhits, hmisses, hnumSets, hsets, hconfig⟩

section KeepsOrder

variable {c : Cache} {as bs : List (Word × CacheOperation)}
  {σ : Fin as.length ≃ Fin bs.length}

theorem accessAll_eq_of_keepsOrder (h : Shards.KeepsOrder c.rowOf as bs σ) :
    (c.accessAll as).2 = (c.accessAll bs).2 := by
  have hperm : (c.accessAll as).1.Perm (c.accessAll bs).1 := by
    rw [(c.accessAll_eq_runAll as).1, (c.accessAll_eq_runAll bs).1]
    exact h.runAll_values_perm c.rowOf c.rowAccess c.sets
  refine eq_of_members ?_ ?_ ?_ ?_ ?_
  · rw [accessAll_hits, accessAll_hits, hperm.count_eq]
  · rw [accessAll_misses, accessAll_misses, hperm.count_eq]
  · rw [accessAll_numSets, accessAll_numSets]
  · rw [(c.accessAll_eq_runAll as).2, (c.accessAll_eq_runAll bs).2]
    exact h.runAll_state c.rowOf c.rowAccess c.sets
  · rw [accessAll_config, accessAll_config]

theorem accessAll_values_of_keepsOrder (h : Shards.KeepsOrder c.rowOf as bs σ)
    (k : Fin as.length) :
    exists hit, (c.accessAll as).1[k.val]? = some hit ∧
      (c.accessAll bs).1[(σ k).val]? = some hit := by
  rw [(c.accessAll_eq_runAll as).1, (c.accessAll_eq_runAll bs).1]
  exact ⟨_, h.runAll_values c.rowOf c.rowAccess c.sets k⟩

end KeepsOrder

end Cache

/-- Two sequences with the same accesses, in the same order within each set, lead from
one cache to the same cache, and an access returns the same in both. -/
theorem cache_sets_independent (c : Cache) (as bs : List (Word × CacheOperation))
    (σ : Fin as.length ≃ Fin bs.length) (hsame : forall k, bs.get (σ k) = as.get k)
    (horder : forall k l, k < l -> c.index (as.get k).1 = c.index (as.get l).1 -> σ k < σ l) :
    (c.accessAll as).2 = (c.accessAll bs).2 ∧
      forall k : Fin as.length,
        exists hit, (c.accessAll as).1[k.val]? = some hit ∧
          (c.accessAll bs).1[(σ k).val]? = some hit := by
  have h : Shards.KeepsOrder c.rowOf as bs σ :=
    { same := hsame
      order := fun k l hkl hkey => horder k l hkl (BitVec.eq_of_toNat_eq hkey) }
  exact ⟨Cache.accessAll_eq_of_keepsOrder h, Cache.accessAll_values_of_keepsOrder h⟩

/-- Two accesses to different sets, exchanged. -/
theorem cache_sets_independent_exchange :
    ((Cache.new Cache.twoByTwo).accessAll [(0#32, .read), (8#32, .write)]).2 =
      ((Cache.new Cache.twoByTwo).accessAll [(8#32, .write), (0#32, .read)]).2 :=
  (cache_sets_independent (Cache.new Cache.twoByTwo) [(0#32, .read), (8#32, .write)]
    [(8#32, .write), (0#32, .read)] (Equiv.swap (0 : Fin 2) 1) (by decide) (by decide)).1

end PipeSim
