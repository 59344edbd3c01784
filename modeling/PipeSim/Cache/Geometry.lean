import PipeSim.Cache.StackDistance

/-!
# Geometry of the cache

An address is cut at the floors of two binary logarithms, while the tables are
sized by an exact division.  The cut is a block of `blockSize` bytes and reaches
every row only when the block size and the number of sets are powers of two; this
module says what is cut and what is reached for every other configuration.
-/

namespace PipeSim

/-!
## Powers of two below a number
-/

theorem two_pow_log_eq_iff {n : Nat} (hn : 1 ≤ n) :
    2 ^ Nat.log 2 n = n <-> exists m, n = 2 ^ m := by
  constructor
  · intro h
    exact ⟨Nat.log 2 n, h.symm⟩
  · intro h
    rcases h with ⟨m, rfl⟩
    rw [Nat.log_pow (by decide)]

theorem two_pow_log_le {n : Nat} (hn : 1 ≤ n) : 2 ^ Nat.log 2 n ≤ n :=
  Nat.pow_log_le_self 2 (Nat.one_le_iff_ne_zero.mp hn)

theorem ValidConfig.numSets_mul_le (config : ValidConfig) :
    config.numSets.toNat * config.blockSize.toNat ≤ config.cacheSize.toNat := by
  have hdiv : config.numSets.toNat =
      config.cacheSize.toNat / config.ways.toNat / config.blockSize.toNat := by
    unfold CacheConfig.numSets
    rw [BitVec.toNat_udiv, BitVec.toNat_udiv]
  rw [hdiv]
  exact le_trans (Nat.div_mul_le_self _ _) (Nat.div_le_self _ _)

namespace Cache

def line (c : Cache) (address : Word) : Word × Word := (c.index address, c.tag address)

theorem line_eq_iff (c : Cache) (a b : Word) :
    c.line a = c.line b <->
      a.toNat / 2 ^ c.numBlockOffsetBits = b.toNat / 2 ^ c.numBlockOffsetBits := by
  unfold line
  rw [Prod.mk.injEq, ← BitVec.toNat_inj, ← BitVec.toNat_inj, toNat_index, toNat_index,
    toNat_tag, toNat_tag]
  constructor
  · intro h
    rcases h with ⟨hmod, hdiv⟩
    rw [← Nat.div_add_mod (a.toNat / 2 ^ c.numBlockOffsetBits) (2 ^ c.numIndexBits), hdiv,
      hmod, Nat.div_add_mod]
  · intro h
    rw [h]
    exact ⟨rfl, rfl⟩

section Valid

variable {c : Cache} {config : ValidConfig} {as : List Word}

theorem Models.offsetBits_eq_log (h : c.Models config.toCacheConfig as) :
    c.numBlockOffsetBits = Nat.log 2 config.blockSize.toNat := by
  unfold numBlockOffsetBits
  rw [h.built, countBitsForPowerOfTwo_eq_log]

theorem Models.indexBits_eq_log (h : c.Models config.toCacheConfig as) :
    c.numIndexBits = Nat.log 2 config.numSets.toNat := by
  unfold numIndexBits
  rw [h.numSets, countBitsForPowerOfTwo_eq_log]

theorem Models.line_iff_block (h : c.Models config.toCacheConfig as) :
    (forall a b, c.line a = c.line b <->
        a / config.blockSize = b / config.blockSize) <->
      exists m, config.blockSize.toNat = 2 ^ m := by
  rw [← two_pow_log_eq_iff config.blockSize_pos]
  constructor
  · intro hall
    have hlog := two_pow_log_le config.blockSize_pos
    by_contra hne
    have hcut : (BitVec.ofNat 32 (2 ^ Nat.log 2 config.blockSize.toNat)).toNat =
        2 ^ Nat.log 2 config.blockSize.toNat := by
      rw [BitVec.toNat_ofNat]
      exact Nat.mod_eq_of_lt (lt_of_le_of_lt hlog config.blockSize.isLt)
    have hline := (hall (BitVec.ofNat 32 (2 ^ Nat.log 2 config.blockSize.toNat)) 0#32).mpr (by
      rw [← BitVec.toNat_inj, BitVec.toNat_udiv, BitVec.toNat_udiv, hcut]
      rw [Nat.div_eq_of_lt (lt_of_le_of_ne hlog hne), BitVec.toNat_zero, Nat.zero_div])
    rw [line_eq_iff, h.offsetBits_eq_log, hcut, Nat.div_self (Nat.two_pow_pos _),
      BitVec.toNat_zero, Nat.zero_div] at hline
    exact Nat.one_ne_zero hline
  · intro hpow a b
    rw [line_eq_iff, h.offsetBits_eq_log, hpow, ← BitVec.toNat_inj, BitVec.toNat_udiv,
      BitVec.toNat_udiv]

theorem Models.exists_index_iff (h : c.Models config.toCacheConfig as) (i : Nat) :
    (exists a, (c.index a).toNat = i) <-> i < 2 ^ Nat.log 2 config.numSets.toNat := by
  rw [← h.indexBits_eq_log]
  constructor
  · intro h
    rcases h with ⟨a, rfl⟩
    rw [Cache.toNat_index]
    exact Nat.mod_lt _ (Nat.two_pow_pos _)
  · intro hi
    have hfits : i * 2 ^ c.numBlockOffsetBits < 2 ^ 32 := by
      calc i * 2 ^ c.numBlockOffsetBits
          < 2 ^ c.numIndexBits * 2 ^ c.numBlockOffsetBits :=
            Nat.mul_lt_mul_of_pos_right hi (Nat.two_pow_pos _)
        _ ≤ config.numSets.toNat * config.blockSize.toNat := by
            rw [h.indexBits_eq_log, h.offsetBits_eq_log]
            exact Nat.mul_le_mul (two_pow_log_le config.numSets_pos)
              (two_pow_log_le config.blockSize_pos)
        _ ≤ config.cacheSize.toNat := config.numSets_mul_le
        _ < 2 ^ 32 := config.cacheSize.isLt
    refine ⟨BitVec.ofNat 32 (i * 2 ^ c.numBlockOffsetBits), ?_⟩
    rw [Cache.toNat_index, BitVec.toNat_ofNat, Nat.mod_eq_of_lt hfits,
      Nat.mul_div_cancel _ (Nat.two_pow_pos _), Nat.mod_eq_of_lt hi]

theorem Models.all_index_iff (h : c.Models config.toCacheConfig as) :
    (forall i, i < config.numSets.toNat -> exists a, (c.index a).toNat = i) <->
      exists n, config.numSets.toNat = 2 ^ n := by
  rw [← two_pow_log_eq_iff config.numSets_pos]
  have hle := two_pow_log_le config.numSets_pos
  constructor
  · intro hall
    by_contra hne
    have hlast := (h.exists_index_iff (2 ^ Nat.log 2 config.numSets.toNat)).mp
      (hall _ (lt_of_le_of_ne hle hne))
    exact Nat.lt_irrefl _ hlast
  · intro hpow i hi
    rw [h.exists_index_iff, hpow]
    exact hi

end Valid

end Cache

def ValidConfig.threeSets : ValidConfig where
  cacheSize := 36#32
  blockSize := 12#32
  ways := 1#32
  missLatency := 0#32
  ways_pos := (ValidConfig.oneBlock 0#32).ways_pos
  blockSize_pos := by decide
  numSets_pos := by
    change 1 ≤ (36#32 / 1#32 / 12#32 : Word).toNat
    decide

/-- Two addresses of a block are told apart, and the third set is never used. -/
theorem threeSets_geometry :
    (0#32 / ValidConfig.threeSets.blockSize = 8#32 / ValidConfig.threeSets.blockSize ∧
        (Cache.new ValidConfig.threeSets.toCacheConfig).line 0#32 ≠
          (Cache.new ValidConfig.threeSets.toCacheConfig).line 8#32) ∧
      ValidConfig.threeSets.numSets.toNat * ValidConfig.threeSets.blockSize.toNat ≤ 2 ^ 32 ∧
      2 < ValidConfig.threeSets.numSets.toNat ∧
      forall a, ((Cache.new ValidConfig.threeSets.toCacheConfig).index a).toNat ≠ 2 := by
  refine ⟨⟨by decide, by decide⟩, by decide, by decide, ?_⟩
  intro a ha
  have hlt := ((Cache.models_new ValidConfig.threeSets.toCacheConfig).exists_index_iff 2).mp
    ⟨a, ha⟩
  have hsets : ValidConfig.threeSets.numSets.toNat = 3 := by decide
  rw [hsets] at hlt
  exact absurd hlt (by decide)

/-- In every cache reached from an empty one, two addresses have the same index and
tag when they agree above the floor of the logarithm of the block size, and the rows
in use are those below the floor of the logarithm of the number of sets.  The cut is
the configured block, and all rows are used, exactly for powers of two. -/
theorem cache_geometry (config : ValidConfig) (accesses : List (Word × CacheOperation)) :
    (forall a b,
      ((Cache.new config.toCacheConfig).accessAll accesses).2.line a =
          ((Cache.new config.toCacheConfig).accessAll accesses).2.line b <->
        a.toNat / 2 ^ Nat.log 2 config.blockSize.toNat =
          b.toNat / 2 ^ Nat.log 2 config.blockSize.toNat) ∧
      ((forall a b,
          ((Cache.new config.toCacheConfig).accessAll accesses).2.line a =
              ((Cache.new config.toCacheConfig).accessAll accesses).2.line b <->
            a / config.blockSize = b / config.blockSize) <->
        exists m, config.blockSize.toNat = 2 ^ m) ∧
      (forall i,
        (exists a,
          (((Cache.new config.toCacheConfig).accessAll accesses).2.index a).toNat = i) <->
          i < 2 ^ Nat.log 2 config.numSets.toNat) ∧
      ((forall i, i < config.numSets.toNat ->
          exists a,
            (((Cache.new config.toCacheConfig).accessAll accesses).2.index a).toNat = i) <->
        exists n, config.numSets.toNat = 2 ^ n) := by
  have hmodels := (Cache.models_new config.toCacheConfig).accessAll config.ways_pos accesses
  refine ⟨?_, hmodels.line_iff_block, hmodels.exists_index_iff, hmodels.all_index_iff⟩
  intro a b
  rw [Cache.line_eq_iff, hmodels.offsetBits_eq_log]

end PipeSim
