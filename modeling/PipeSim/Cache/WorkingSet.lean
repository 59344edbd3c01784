import PipeSim.Cache.Inclusion

/-!
# Misses of whole programs of accesses

The first access to a line misses, and a line that finds room in its set is not missed again.
A loop over lines of which one set has too many misses all of them on every lap.  A set that
has been filled anew does not remember anything older.
-/

namespace PipeSim

open Library

namespace Cache

def linesOf (config : CacheConfig) (accesses : List (Word × CacheOperation)) :
    List (Word × Word) :=
  accesses.map fun a => (new config).line a.1

def rivals (config : CacheConfig) (accesses : List (Word × CacheOperation)) (address : Word) :
    List (Word × Word) :=
  (linesOf config accesses).filter fun l => l.1 = (new config).index address

theorem linesOf_flatten_replicate (config : CacheConfig) (n : Nat)
    (loop : List (Word × CacheOperation)) :
    linesOf config (List.replicate n loop).flatten =
      (List.replicate n (linesOf config loop)).flatten := by
  unfold linesOf
  rw [List.map_flatten, List.map_replicate]

theorem lap_linesOf (config : CacheConfig) (loop : List (Word × CacheOperation)) :
    Lru.lap config.ways.toNat Prod.fst (linesOf config loop) =
      loop.map fun a => decide ((rivals config loop a.1).length ≤ config.ways.toNat) := by
  unfold Lru.lap linesOf
  rw [List.map_map]
  rfl

end Cache

/-- Every line accessed is missed at least once, and exactly once when the lines of every set
accessed fit into its ways. -/
theorem cache_misses_of_lines (config : ValidConfig)
    (accesses : List (Word × CacheOperation)) :
    (Cache.linesOf config.toCacheConfig accesses).toFinset.card ≤
        ((Cache.new config.toCacheConfig).accessAll accesses).1.count false ∧
      ((forall a, a ∈ accesses ->
          (Cache.rivals config.toCacheConfig accesses a.1).toFinset.card ≤
            config.ways.toNat) ->
        ((Cache.new config.toCacheConfig).accessAll accesses).1.count false =
          (Cache.linesOf config.toCacheConfig accesses).toFinset.card) := by
  have hmisses : ((Cache.new config.toCacheConfig).accessAll accesses).1 =
      Lru.found config.ways.toNat Prod.fst [] (Cache.linesOf config.toCacheConfig accesses) :=
    Cache.accessAll_new config.ways_pos accesses
  rw [hmisses]
  constructor
  · exact Lru.card_le_misses _
  · intro hfits
    apply Lru.misses_eq_card
    intro l hl
    rcases List.mem_map.mp hl with ⟨a, ha, rfl⟩
    exact hfits a ha

/-- A loop over accesses to distinct lines misses all of them on the first lap.  On every
later lap an access hits exactly if the loop's lines of its set fit into the ways, however
often the loop is repeated. -/
theorem cache_loop_hits (config : ValidConfig) (loop : List (Word × CacheOperation))
    (hdistinct : (Cache.linesOf config.toCacheConfig loop).Nodup) (n : Nat) :
    ((Cache.new config.toCacheConfig).accessAll (List.replicate (n + 1) loop).flatten).1 =
      List.replicate loop.length false ++
        (List.replicate n (loop.map fun a =>
          decide ((Cache.rivals config.toCacheConfig loop a.1).length ≤
            config.ways.toNat))).flatten := by
  have hloop : Lru.found config.ways.toNat Prod.fst []
      (Cache.linesOf config.toCacheConfig (List.replicate (n + 1) loop).flatten) =
        List.replicate (Cache.linesOf config.toCacheConfig loop).length false ++
          (List.replicate n (Lru.lap config.ways.toNat Prod.fst
            (Cache.linesOf config.toCacheConfig loop))).flatten := by
    rw [Cache.linesOf_flatten_replicate]
    exact Lru.found_loop hdistinct n
  rw [Cache.lap_linesOf, Cache.linesOf, Cache.linesOf, List.length_map] at hloop
  rw [Cache.accessAll_new config.ways_pos]
  exact hloop

/-- Two lines fit into two ways, whatever the number of laps. -/
theorem cache_loop_hits_two_ways :
    ((Cache.new (ValidConfig.twoWays 0#32).toCacheConfig).accessAll
        (List.replicate (100 + 1) [(0#32, CacheOperation.read), (8#32, .write)]).flatten).1 =
      List.replicate 2 false ++ (List.replicate 100 [true, true]).flatten :=
  cache_loop_hits (ValidConfig.twoWays 0#32) [(0#32, .read), (8#32, .write)] (by decide) 100

/-- Once as many distinct lines have been accessed in a set as it has ways, what happened
before has no influence on any later access to the set. -/
theorem cache_forgets_history (config : ValidConfig)
    (before before' refill later : List (Word × CacheOperation))
    (hfull : forall a, a ∈ later ->
      config.ways.toNat ≤ (Cache.rivals config.toCacheConfig refill a.1).toFinset.card) :
    (((Cache.new config.toCacheConfig).accessAll (before ++ refill)).2.accessAll later).1 =
      (((Cache.new config.toCacheConfig).accessAll (before' ++ refill)).2.accessAll later).1 := by
  have hrefilled : forall start,
      (((Cache.new config.toCacheConfig).accessAll (start ++ refill)).2.accessAll later).1 =
        Lru.found config.ways.toNat Prod.fst (Cache.linesOf config.toCacheConfig refill)
          (Cache.linesOf config.toCacheConfig later) := by
    intro start
    have hmodels := (Cache.models_new config.toCacheConfig).accessAll config.ways_pos
      (start ++ refill)
    have hlines : ([] ++ (start ++ refill).map Prod.fst).map
        (Cache.new config.toCacheConfig).line =
          Cache.linesOf config.toCacheConfig start ++
            Cache.linesOf config.toCacheConfig refill := by
      unfold Cache.linesOf
      rw [List.nil_append, List.map_map, List.map_append]
      rfl
    rw [hmodels.accessAll_eq_found config.ways_pos, hlines]
    apply Lru.found_of_full
    intro l hl
    rcases List.mem_map.mp hl with ⟨a, ha, rfl⟩
    exact hfull a ha
  rw [hrefilled before, hrefilled before']

/-- Two lines refill two ways. -/
theorem cache_forgets_history_two_ways :
    (((Cache.new (ValidConfig.twoWays 0#32).toCacheConfig).accessAll
        ([(64#32, .write)] ++ [(0#32, .read), (8#32, .write)])).2.accessAll
          [(64#32, .read), (0#32, .read)]).1 =
      (((Cache.new (ValidConfig.twoWays 0#32).toCacheConfig).accessAll
        ([] ++ [(0#32, .read), (8#32, .write)])).2.accessAll
          [(64#32, .read), (0#32, .read)]).1 :=
  cache_forgets_history (ValidConfig.twoWays 0#32) [(64#32, .write)] []
    [(0#32, .read), (8#32, .write)] [(64#32, .read), (0#32, .read)] (by decide)

end PipeSim
