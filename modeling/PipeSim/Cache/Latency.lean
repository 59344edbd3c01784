import PipeSim.Cache.StackDistance

/-!
# Caches that differ in their miss latency

Whether an access hits depends on the accesses before it and on the shape of the
cache, not on the miss latency.  The delay of an access is therefore a function of
the configuration and of the addresses accessed before.
-/

namespace PipeSim

open Library

/-- The two configurations agree on everything but the miss latency. -/
structure CacheConfig.SameShape (config config' : CacheConfig) : Prop where
  cacheSize : config'.cacheSize = config.cacheSize
  blockSize : config'.blockSize = config.blockSize
  ways : config'.ways = config.ways

theorem CacheConfig.SameShape.eq_of_missLatency {config config' : CacheConfig}
    (h : config.SameShape config') (hlatency : config'.missLatency = config.missLatency) :
    config' = config := by
  cases config
  cases config'
  cases h
  simp_all

namespace Cache

def hitsAfter (config : CacheConfig) (as : List Word) (address : Word) : Bool :=
  decide ((new config).tag address ∈ Lru.lru config.ways.toNat
    ((as.filter fun b => ((new config).index b).toNat = ((new config).index address).toNat).map
      (new config).tag))

def delayAfter (config : CacheConfig) (as : List Word) (address : Word) : Nat :=
  if hitsAfter config as address then 0 else config.missLatency.toNat

theorem delayAfter_cases (config : CacheConfig) (as : List Word) (address : Word) :
    delayAfter config as address = 0 ∨
      delayAfter config as address = config.missLatency.toNat := by
  unfold delayAfter
  split
  · exact Or.inl rfl
  · exact Or.inr rfl

section Models

variable {c : Cache} {config : CacheConfig} {as : List Word}

theorem Models.index_eq (h : c.Models config as) : c.index = (new config).index := by
  funext address
  unfold index numBlockOffsetBits numIndexBits
  rw [h.built, h.numSets]
  rfl

theorem Models.tag_eq (h : c.Models config as) : c.tag = (new config).tag := by
  funext address
  unfold tag numBlockOffsetBits numIndexBits
  rw [h.built, h.numSets]
  rfl

theorem Models.access_hit (h : c.Models config as) (hways : 1 ≤ config.ways.toNat)
    (address : Word) (readWrite : CacheOperation) :
    (c.access address readWrite).1 = hitsAfter config as address := by
  rw [(h.access hways address readWrite).1, h.index_eq, h.tag_eq]
  rfl

theorem Models.append_again {address : Word}
    (h : c.Models config (as ++ [address] ++ [address])) :
    c.Models config (as ++ [address]) := by
  refine ⟨h.built, h.numSets, ?_⟩
  intro i
  have hrow := h.rows i
  rw [List.filter_append, List.map_append, List.filter_append, List.map_append,
    List.filter_singleton] at hrow
  rw [List.filter_append, List.map_append, List.filter_singleton]
  cases hi : decide ((c.index address).toNat = i) with
  | false =>
      rw [hi] at hrow
      simpa using hrow
  | true =>
      rw [hi] at hrow
      have hlru := Lru.lru_append_again config.ways.toNat
        ((as.filter fun b => decide ((c.index b).toNat = i)).map c.tag) (c.tag address)
      change CacheSet.Represents _ _ (Lru.lru _ (_ ++ [c.tag address] ++ [c.tag address])) at hrow
      rw [hlru] at hrow
      exact hrow

theorem Models.repeat_access {address : Word} (h : c.Models config (as ++ [address]))
    (hways : 1 ≤ config.ways.toNat) (readWrite : CacheOperation) :
    (c.access address readWrite).1 = true ∧
      (c.access address readWrite).2.Models config (as ++ [address]) := by
  refine ⟨?_, (h.access hways address readWrite).2.append_again⟩
  rw [(h.access hways address readWrite).1, decide_eq_true_iff, List.filter_append,
    List.filter_singleton]
  simp only [decide_true, List.map_append]
  exact Lru.mem_lru_append_singleton hways _ _

end Models

theorem index_congr {config config' : CacheConfig}
    (hblockSize : config'.blockSize = config.blockSize)
    (hnumSets : config'.numSets = config.numSets) :
    (new config').index = (new config).index := by
  funext address
  unfold index numBlockOffsetBits numIndexBits new
  dsimp only
  rw [hnumSets, hblockSize]

theorem tag_congr {config config' : CacheConfig}
    (hblockSize : config'.blockSize = config.blockSize)
    (hnumSets : config'.numSets = config.numSets) : (new config').tag = (new config).tag := by
  funext address
  unfold tag numBlockOffsetBits numIndexBits new
  dsimp only
  rw [hnumSets, hblockSize]

theorem hitsAfter_sameShape {config config' : CacheConfig} (h : config.SameShape config')
    (as : List Word) (address : Word) :
    hitsAfter config' as address = hitsAfter config as address := by
  have hnumSets : config'.numSets = config.numSets := by
    unfold CacheConfig.numSets
    rw [h.cacheSize, h.ways, h.blockSize]
  unfold hitsAfter
  rw [index_congr h.blockSize hnumSets, tag_congr h.blockSize hnumSets, h.ways]

theorem delayAfter_sameShape {config config' : CacheConfig} (h : config.SameShape config')
    (as : List Word) (address : Word) :
    (delayAfter config as address = 0 ∧ delayAfter config' as address = 0) ∨
      (delayAfter config as address = config.missLatency.toNat ∧
        delayAfter config' as address = config'.missLatency.toNat) := by
  unfold delayAfter
  rw [hitsAfter_sameShape h]
  split
  · exact Or.inl ⟨rfl, rfl⟩
  · exact Or.inr ⟨rfl, rfl⟩

/-- No access is delayed longer by the first cache than by the second, whatever came before
it. -/
def NoSlower (config config' : CacheConfig) : Prop :=
  forall as address, delayAfter config as address ≤ delayAfter config' as address

theorem noSlower_of_sameShape {config config' : CacheConfig} (h : config.SameShape config')
    (hle : config.missLatency.toNat ≤ config'.missLatency.toNat) : NoSlower config config' := by
  intro as address
  rcases delayAfter_sameShape h as address with ⟨hfirst, hsecond⟩ | ⟨hfirst, hsecond⟩
  · rw [hfirst]
    exact Nat.zero_le _
  · rw [hfirst, hsecond]
    exact hle

end Cache

end PipeSim
