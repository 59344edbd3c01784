import PipeSim.Cache.Geometry
import PipeSim.Cache.Latency
import PipeSim.Library.SetAssociative

/-!
# Caches that differ in their ways

More ways with the same sets and blocks keep every hit, for any block size and number of sets:
each set of the smaller cache holds a part of what the larger one holds.
-/

namespace PipeSim

open Library

/-- The second configuration has the sets and blocks of the first and at least its ways. -/
structure CacheConfig.Widens (config config' : CacheConfig) : Prop where
  blockSize : config'.blockSize = config.blockSize
  numSets : config'.numSets = config.numSets
  ways : config.ways ≤ config'.ways

namespace Cache

section Geometry

variable {config config' : CacheConfig}

theorem hitsAfter_of_widens (h : config.Widens config') {as : List Word} {address : Word}
    (hhit : hitsAfter config as address = true) : hitsAfter config' as address = true := by
  unfold hitsAfter at hhit ⊢
  rw [index_congr h.blockSize h.numSets, tag_congr h.blockSize h.numSets, decide_eq_true_iff]
  rw [decide_eq_true_iff] at hhit
  exact Lru.lru_subset_lru h.ways _ hhit

theorem noSlower_of_widens (h : config.Widens config')
    (hle : config'.missLatency.toNat ≤ config.missLatency.toNat) :
    NoSlower config' config := by
  intro as address
  unfold delayAfter
  cases hhit : hitsAfter config as address with
  | true =>
      rw [hitsAfter_of_widens h hhit]
      exact Nat.le_refl 0
  | false =>
      split
      · exact Nat.zero_le _
      · exact hle

end Geometry

/-!
## Accesses as uses of lines
-/

theorem hitsAfter_iff_mem_lru (config : CacheConfig) (as : List Word) (address : Word) :
    hitsAfter config as address = true <->
      (new config).line address ∈ Lru.lru config.ways.toNat
        ((as.map (new config).line).filter fun l => l.1 = ((new config).line address).1) := by
  let set := as.filter fun b => (new config).index b = (new config).index address
  have hlines : ((as.map (new config).line).filter fun l =>
      l.1 = ((new config).line address).1) = set.map (new config).line := by
    rw [List.filter_map]
    rfl
  have htags : (set.map (new config).tag) = (set.map (new config).line).map Prod.snd := by
    rw [List.map_map]
    rfl
  have hindex : forall l, l ∈ set.map (new config).line -> l.1 = (new config).index address := by
    intro l hl
    rcases List.mem_map.mp hl with ⟨b, hb, rfl⟩
    exact of_decide_eq_true (List.mem_filter.mp hb).2
  have hapart : forall l m, l ∈ set.map (new config).line -> m ∈ set.map (new config).line ->
      l.2 = m.2 -> l = m := by
    intro l m hl hm htag
    exact Prod.ext ((hindex l hl).trans (hindex m hm).symm) htag
  unfold hitsAfter
  rw [hlines, decide_eq_true_iff]
  simp only [BitVec.toNat_inj]
  rw [htags, ← Lru.map_lru _ hapart, List.mem_map]
  constructor
  · intro h
    rcases h with ⟨l, hl, htag⟩
    have heq : l = (new config).line address :=
      Prod.ext (hindex l (Lru.mem_of_mem_lru hl)) htag
    rw [← heq]
    exact hl
  · intro h
    exact ⟨_, h, rfl⟩

section Lines

variable {c : Cache} {config config' : CacheConfig} {seen : List Word}

theorem Models.accessAll_eq_found (h : c.Models config seen) (hways : 1 ≤ config.ways.toNat)
    (accesses : List (Word × CacheOperation)) :
    (c.accessAll accesses).1 =
      Lru.found config.ways.toNat Prod.fst (seen.map (new config).line)
        (accesses.map fun a => (new config).line a.1) := by
  induction accesses generalizing c seen with
  | nil =>
      rfl
  | cons a accesses ih =>
      rcases a with ⟨address, readWrite⟩
      have hrest := ih (h.access hways address readWrite).2
      rw [List.map_append, List.map_singleton] at hrest
      rw [Cache.accessAll, List.map_cons,
        Lru.found_cons (hitsAfter_iff_mem_lru config seen address), h.access_hit hways, hrest]

theorem accessAll_new (hways : 1 ≤ config.ways.toNat)
    (accesses : List (Word × CacheOperation)) :
    ((new config).accessAll accesses).1 =
      Lru.found config.ways.toNat Prod.fst []
        (accesses.map fun a => (new config).line a.1) :=
  (models_new config).accessAll_eq_found hways accesses

theorem line_of_widens (h : config.Widens config') : (new config').line = (new config).line := by
  funext address
  unfold line
  rw [index_congr h.blockSize h.numSets, tag_congr h.blockSize h.numSets]

theorem forall₂_accessAll_of_widens (hways : 1 ≤ config.ways.toNat) (h : config.Widens config')
    (accesses : List (Word × CacheOperation)) :
    List.Forall₂ (fun hit hit' => hit = true -> hit' = true)
      ((new config).accessAll accesses).1 ((new config').accessAll accesses).1 := by
  rw [accessAll_new hways, accessAll_new (Nat.le_trans hways h.ways), line_of_widens h]
  exact Lru.found_of_le h.ways [] _

end Lines

end Cache

/-- With the same sets and blocks and at least as many ways every access that hits still hits,
and there are not more misses, whatever the accesses before. -/
theorem wider_cache_keeps_hits (config config' : CacheConfig) (hways : 1 ≤ config.ways.toNat)
    (h : config.Widens config') (accesses : List (Word × CacheOperation)) :
    List.Forall₂ (fun hit hit' => hit = true -> hit' = true)
        ((Cache.new config).accessAll accesses).1
        ((Cache.new config').accessAll accesses).1 ∧
      ((Cache.new config').accessAll accesses).1.count false ≤
        ((Cache.new config).accessAll accesses).1.count false ∧
      forall address readWrite,
        (((Cache.new config).accessAll accesses).2.access address readWrite).1 = true ->
          (((Cache.new config').accessAll accesses).2.access address readWrite).1 = true := by
  have hways' : 1 ≤ config'.ways.toNat := Nat.le_trans hways h.ways
  have hkept := Cache.forall₂_accessAll_of_widens hways h accesses
  refine ⟨hkept, Lru.count_false_le hkept, ?_⟩
  intro address readWrite
  rw [((Cache.models_new config).accessAll hways accesses).access_hit hways,
    ((Cache.models_new config').accessAll hways' accesses).access_hit hways']
  exact Cache.hitsAfter_of_widens h

def ValidConfig.twoWays (missLatency : Word) : ValidConfig where
  cacheSize := 16#32
  blockSize := 8#32
  ways := 2#32
  missLatency := missLatency
  ways_pos := by decide
  blockSize_pos := (ValidConfig.oneBlock 0#32).blockSize_pos
  numSets_pos := by
    change 1 ≤ (16#32 / 2#32 / 8#32 : Word).toNat
    decide

theorem widens_twoWays (missLatency missLatency' : Word) :
    (ValidConfig.oneBlock missLatency).Widens (ValidConfig.twoWays missLatency').toCacheConfig :=
  ⟨rfl, by
      show (16#32 / 2#32 / 8#32 : Word) = 8#32 / 1#32 / 8#32
      decide, by
      show (1#32 : Word) ≤ 2#32
      decide⟩

theorem wider_cache_keeps_hits_two_ways :
    ((Cache.new (ValidConfig.twoWays 0#32).toCacheConfig).accessAll
        [(0#32, .read), (8#32, .read), (0#32, .read)]).1.count false ≤
      ((Cache.new (ValidConfig.oneBlock 0#32).toCacheConfig).accessAll
        [(0#32, .read), (8#32, .read), (0#32, .read)]).1.count false :=
  (wider_cache_keeps_hits (ValidConfig.oneBlock 0#32).toCacheConfig
    (ValidConfig.twoWays 0#32).toCacheConfig (ValidConfig.oneBlock 0#32).ways_pos
    (widens_twoWays 0#32 0#32) _).2.1

end PipeSim
