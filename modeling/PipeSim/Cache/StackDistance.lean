import PipeSim.Cache.Recency
import Mathlib.Data.Nat.Bits
import Mathlib.Data.Nat.Log

/-!
# The cache is set-associative with least recently used replacement

Every row holds the tags that a bounded recency list holds after the accesses to
its set.  When the block size and the number of sets are powers of two, the index
and the tag of an address are the remainder and the quotient of its block number,
and a hit is a statement about the stack distance of the block.
-/

namespace PipeSim

open Library

namespace Cache

def accessAll (c : Cache) : List (Word × CacheOperation) -> List Bool × Cache
  | [] => ([], c)
  | (address, readWrite) :: rest =>
      let accessed := c.access address readWrite
      let others := accessed.2.accessAll rest
      (accessed.1 :: others.1, others.2)

/-!
## Recency lists for all sets
-/

/-- The cache was built from `config`, and each of its rows holds the tags most recently
used among the accesses `as` to its set. -/
structure Models (c : Cache) (config : CacheConfig) (as : List Word) : Prop where
  built : c.config = config
  numSets : c.numSets = config.numSets
  rows : forall i, (c.sets i).Represents config.ways.toNat
    (Lru.lru config.ways.toNat
      ((as.filter fun b => (c.index b).toNat = i).map c.tag))

theorem models_new (config : CacheConfig) : (new config).Models config [] where
  built := rfl
  numSets := rfl
  rows := by
    intro i
    exact CacheSet.represents_empty _

section Models

variable {c : Cache} {config : CacheConfig} {as : List Word}

theorem Models.access (h : c.Models config as) (hways : 1 ≤ config.ways.toNat)
    (address : Word) (readWrite : CacheOperation) :
    (c.access address readWrite).1 =
        decide (c.tag address ∈ Lru.lru config.ways.toNat
          ((as.filter fun b => (c.index b).toNat = (c.index address).toNat).map c.tag)) ∧
      (c.access address readWrite).2.Models config (as ++ [address]) := by
  have hrow := (h.rows (c.index address).toNat).access hways (c.tag address)
  rw [← h.built] at hrow
  refine ⟨?_, h.built, h.numSets, ?_⟩
  · rw [← h.built]
    exact hrow.1
  · intro i
    have hfilter : ((as ++ [address]).filter fun b => (c.index b).toNat = i) =
        (as.filter fun b => (c.index b).toNat = i) ++
          if (c.index address).toNat = i then [address] else [] := by
      rw [List.filter_append, List.filter_singleton]
      simp
    change (Function.update c.sets (c.index address).toNat _ i).Represents _
      (Lru.lru _ (((as ++ [address]).filter fun b => (c.index b).toNat = i).map c.tag))
    rw [hfilter]
    by_cases hi : (c.index address).toNat = i
    · subst hi
      rw [Function.update_self, if_pos rfl, List.map_append, List.map_singleton,
        Lru.lru_append_singleton, ← h.built]
      exact hrow.2
    · rw [Function.update_of_ne fun heq => hi heq.symm, if_neg hi, List.append_nil]
      exact h.rows i

theorem Models.accessAll (h : c.Models config as) (hways : 1 ≤ config.ways.toNat)
    (bs : List (Word × CacheOperation)) :
    (c.accessAll bs).2.Models config (as ++ bs.map Prod.fst) := by
  induction bs generalizing c as with
  | nil =>
      rw [List.map_nil, List.append_nil]
      exact h
  | cons b bs ih =>
      have hrest := ih (h.access hways b.1 b.2).2
      rw [List.append_assoc] at hrest
      exact hrest

end Models

/-!
## Counting hits and misses
-/

theorem access_hits (c : Cache) (address : Word) (readWrite : CacheOperation) :
    (c.access address readWrite).2.hits =
      c.hits + if (c.access address readWrite).1 then 1#32 else 0#32 := rfl

theorem access_misses (c : Cache) (address : Word) (readWrite : CacheOperation) :
    (c.access address readWrite).2.misses =
      c.misses + if (c.access address readWrite).1 then 0#32 else 1#32 := rfl

theorem accessAll_counter {counter : Cache -> Word} {outcome : Bool}
    (hstep : forall c address readWrite, counter (access c address readWrite).2 =
      counter c + if (access c address readWrite).1 = outcome then 1#32 else 0#32)
    (c : Cache) (as : List (Word × CacheOperation)) :
    counter (c.accessAll as).2 =
      counter c + BitVec.ofNat 32 ((c.accessAll as).1.count outcome) := by
  induction as generalizing c with
  | nil =>
      simp [accessAll]
  | cons a as ih =>
      rcases a with ⟨address, readWrite⟩
      rw [accessAll]
      dsimp only
      rw [ih, hstep, List.count_cons, Nat.add_comm, BitVec.ofNat_add, ← BitVec.add_assoc]
      by_cases h : (c.access address readWrite).1 = outcome
      · rw [if_pos h, if_pos (beq_iff_eq.mpr h)]
      · rw [if_neg h, if_neg fun heq => h (beq_iff_eq.mp heq)]

theorem accessAll_hits (c : Cache) (as : List (Word × CacheOperation)) :
    (c.accessAll as).2.hits =
      c.hits + BitVec.ofNat 32 ((c.accessAll as).1.count true) :=
  accessAll_counter access_hits c as

theorem accessAll_misses (c : Cache) (as : List (Word × CacheOperation)) :
    (c.accessAll as).2.misses =
      c.misses + BitVec.ofNat 32 ((c.accessAll as).1.count false) := by
  refine accessAll_counter ?_ c as
  intro c address readWrite
  rw [access_misses]
  cases (c.access address readWrite).1 with
  | false =>
      rfl
  | true =>
      rfl

/-!
## Counting bits
-/

theorem countBitsLoop_eq_log {fuel : Nat} {n : Word} (count : Nat)
    (hfuel : n.toNat < 2 ^ (fuel + 1)) :
    countBitsLoop fuel n count = count + Nat.log 2 n.toNat := by
  induction fuel generalizing n count with
  | zero =>
      have hlog : Nat.log 2 n.toNat = 0 := Nat.log_of_lt hfuel
      rw [countBitsLoop, hlog, Nat.add_zero]
  | succ fuel ih =>
      rw [countBitsLoop]
      by_cases hone : 1#32 < n
      · have htwo : 2 ≤ n.toNat := BitVec.lt_def.mp hone
        have hhalf : (n >>> 1).toNat = n.toNat / 2 := by
          rw [BitVec.toNat_ushiftRight, Nat.shiftRight_eq_div_pow, Nat.pow_one]
        have hlt : (n >>> 1).toNat < 2 ^ (fuel + 1) := by
          rw [hhalf, Nat.div_lt_iff_lt_mul (by decide), ← Nat.pow_succ]
          exact hfuel
        rw [if_pos hone, ih (count + 1) hlt, hhalf,
          Nat.log_of_one_lt_of_le (by decide) htwo]
        lia
      · have hlog : Nat.log 2 n.toNat = 0 := by
          refine Nat.log_of_lt ?_
          have hle := mt BitVec.lt_def.mpr hone
          change ¬ 1 < n.toNat at hle
          lia
        rw [if_neg hone, hlog, Nat.add_zero]

theorem countBitsForPowerOfTwo_eq_log (n : Word) :
    countBitsForPowerOfTwo n = Nat.log 2 n.toNat := by
  unfold countBitsForPowerOfTwo
  rw [countBitsLoop_eq_log 0 (lt_trans n.isLt (by decide)), Nat.zero_add]

theorem countBitsForPowerOfTwo_lt (n : Word) : countBitsForPowerOfTwo n < 32 := by
  rw [countBitsForPowerOfTwo_eq_log]
  exact Nat.log_lt_of_lt_pow' (by decide) n.isLt

theorem two_pow_countBits_le {n : Word} (hn : 1 ≤ n.toNat) :
    2 ^ countBitsForPowerOfTwo n ≤ n.toNat := by
  rw [countBitsForPowerOfTwo_eq_log]
  exact Nat.pow_log_le_self 2 (Nat.one_le_iff_ne_zero.mp hn)

theorem countBitsForPowerOfTwo_of_pow {m : Nat} {n : Word} (hn : n.toNat = 2 ^ m) :
    countBitsForPowerOfTwo n = m := by
  rw [countBitsForPowerOfTwo_eq_log, hn, Nat.log_pow (by decide)]

/-!
## Index and tag
-/

theorem numIndexBits_lt (c : Cache) : c.numIndexBits < 32 :=
  countBitsForPowerOfTwo_lt c.numSets

theorem toNat_index (c : Cache) (address : Word) :
    (c.index address).toNat =
      address.toNat / 2 ^ c.numBlockOffsetBits % 2 ^ c.numIndexBits := by
  have hmask : ((1#32 <<< c.numIndexBits) - 1#32).toNat = 2 ^ c.numIndexBits - 1 := by
    have hpow : (1#32 <<< c.numIndexBits).toNat = 2 ^ c.numIndexBits := by
      rw [BitVec.toNat_shiftLeft, Nat.shiftLeft_eq]
      change 1 * 2 ^ c.numIndexBits % 2 ^ 32 = 2 ^ c.numIndexBits
      rw [Nat.one_mul]
      exact Nat.mod_eq_of_lt (Nat.pow_lt_pow_right (by decide) c.numIndexBits_lt)
    rw [BitVec.toNat_sub_of_le, hpow]
    · rfl
    · rw [BitVec.le_def, hpow]
      exact Nat.one_le_two_pow
  unfold index
  dsimp only
  rw [BitVec.toNat_and, hmask, Nat.and_two_pow_sub_one_eq_mod, BitVec.toNat_ushiftRight,
    Nat.shiftRight_eq_div_pow]

theorem toNat_tag (c : Cache) (address : Word) :
    (c.tag address).toNat =
      address.toNat / 2 ^ c.numBlockOffsetBits / 2 ^ c.numIndexBits := by
  unfold tag
  rw [BitVec.toNat_ushiftRight, Nat.shiftRight_eq_div_pow, Nat.pow_add,
    Nat.div_div_eq_div_mul]

def blockOf (config : CacheConfig) (address : Word) : Nat :=
  address.toNat / config.blockSize.toNat

section PowerOfTwo

variable {c : Cache} {config : CacheConfig} {as : List Word} {m n : Nat}

theorem Models.numBlockOffsetBits_eq (h : c.Models config as)
    (hblockSize : config.blockSize.toNat = 2 ^ m) : c.numBlockOffsetBits = m := by
  unfold numBlockOffsetBits
  rw [h.built]
  exact countBitsForPowerOfTwo_of_pow hblockSize

theorem Models.numIndexBits_eq (h : c.Models config as)
    (hnumSets : config.numSets.toNat = 2 ^ n) : c.numIndexBits = n := by
  unfold numIndexBits
  rw [h.numSets]
  exact countBitsForPowerOfTwo_of_pow hnumSets

theorem Models.toNat_index (h : c.Models config as)
    (hblockSize : config.blockSize.toNat = 2 ^ m)
    (hnumSets : config.numSets.toNat = 2 ^ n) (address : Word) :
    (c.index address).toNat = blockOf config address % config.numSets.toNat := by
  rw [Cache.toNat_index, h.numBlockOffsetBits_eq hblockSize, h.numIndexBits_eq hnumSets,
    blockOf, hblockSize, hnumSets]

theorem Models.toNat_tag (h : c.Models config as)
    (hblockSize : config.blockSize.toNat = 2 ^ m)
    (hnumSets : config.numSets.toNat = 2 ^ n) (address : Word) :
    (c.tag address).toNat = blockOf config address / config.numSets.toNat := by
  rw [Cache.toNat_tag, h.numBlockOffsetBits_eq hblockSize, h.numIndexBits_eq hnumSets,
    blockOf, hblockSize, hnumSets]

theorem Models.hit_iff_mem_lru (h : c.Models config as) (hways : 1 ≤ config.ways.toNat)
    (hblockSize : config.blockSize.toNat = 2 ^ m)
    (hnumSets : config.numSets.toNat = 2 ^ n) (address : Word)
    (readWrite : CacheOperation) :
    (c.access address readWrite).1 = true <->
      blockOf config address ∈ Lru.lru config.ways.toNat
        ((as.map (blockOf config)).filter fun k =>
          k % config.numSets.toNat = blockOf config address % config.numSets.toNat) := by
  have htagOf : forall b : Word,
      c.tag b = BitVec.ofNat 32 (blockOf config b / config.numSets.toNat) := by
    intro b
    rw [← h.toNat_tag hblockSize hnumSets b, BitVec.ofNat_toNat, BitVec.setWidth_eq]
  have hinjective : forall a b : Word,
      blockOf config a % config.numSets.toNat = blockOf config b % config.numSets.toNat ->
      BitVec.ofNat 32 (blockOf config a / config.numSets.toNat) =
        BitVec.ofNat 32 (blockOf config b / config.numSets.toNat) ->
      blockOf config a = blockOf config b := by
    intro a b hmod hdiv
    rw [← htagOf, ← htagOf] at hdiv
    have hquotient := congrArg BitVec.toNat hdiv
    rw [h.toNat_tag hblockSize hnumSets, h.toNat_tag hblockSize hnumSets] at hquotient
    rw [← Nat.div_add_mod (blockOf config a) config.numSets.toNat, hquotient, hmod,
      Nat.div_add_mod]
  rw [(h.access hways address readWrite).1, decide_eq_true_iff]
  have htags : ((as.filter fun b => (c.index b).toNat = (c.index address).toNat).map c.tag) =
      ((as.map (blockOf config)).filter fun k =>
        k % config.numSets.toNat =
          blockOf config address % config.numSets.toNat).map
        (fun k => BitVec.ofNat 32 (k / config.numSets.toNat)) := by
    rw [List.filter_map, List.map_map]
    simp only [h.toNat_index hblockSize hnumSets, Function.comp_def, ← htagOf]
  have hmem : forall k, k ∈ (as.map (blockOf config)).filter (fun k =>
      k % config.numSets.toNat = blockOf config address % config.numSets.toNat) ->
      exists b, blockOf config b = k ∧
        k % config.numSets.toNat = blockOf config address % config.numSets.toNat := by
    intro k hk
    rcases List.mem_filter.mp hk with ⟨hmap, hset⟩
    rcases List.mem_map.mp hmap with ⟨b, _, hb⟩
    exact ⟨b, hb, by simpa using hset⟩
  rw [htags, ← Lru.map_lru, htagOf, List.mem_map]
  · constructor
    · intro h
      rcases h with ⟨k, hk, heq⟩
      rcases hmem k (Lru.mem_of_mem_lru hk) with ⟨b, rfl, hset⟩
      have hblock := hinjective b address hset heq
      rw [hblock] at hk
      exact hk
    · intro hk
      exact ⟨_, hk, rfl⟩
  · intro u v hu hv heq
    rcases hmem u hu with ⟨a, rfl, hset⟩
    rcases hmem v hv with ⟨b, rfl, hset'⟩
    exact hinjective a b (hset.trans hset'.symm) heq

end PowerOfTwo

end Cache

/-- From an empty cache, an access returns true exactly when its block was accessed
before and fewer than `ways` distinct other blocks of its set have been accessed
since; the two counters count the values returned, as words. -/
theorem cache_access_lru (config : CacheConfig) (m n : Nat)
    (hways : 1 ≤ config.ways.toNat)
    (hblockSize : config.blockSize.toNat = 2 ^ m)
    (hnumSets : config.numSets.toNat = 2 ^ n)
    (accesses : List (Word × CacheOperation)) :
    (forall address readWrite,
      (((Cache.new config).accessAll accesses).2.access address readWrite).1 = true <->
        exists before since,
          accesses.map (fun a => Cache.blockOf config a.1) =
              before ++ Cache.blockOf config address :: since ∧
            Cache.blockOf config address ∉ since ∧
            (since.filter fun k =>
              k % config.numSets.toNat =
                Cache.blockOf config address % config.numSets.toNat).toFinset.card <
              config.ways.toNat) ∧
      ((Cache.new config).accessAll accesses).2.hits =
        BitVec.ofNat 32 (((Cache.new config).accessAll accesses).1.count true) ∧
      ((Cache.new config).accessAll accesses).2.misses =
        BitVec.ofNat 32 (((Cache.new config).accessAll accesses).1.count false) := by
  refine ⟨?_, ?_, ?_⟩
  · intro address readWrite
    have hmodels := (Cache.models_new config).accessAll hways accesses
    rw [List.nil_append] at hmodels
    rw [hmodels.hit_iff_mem_lru hways hblockSize hnumSets, List.map_map]
    exact Lru.mem_lru_filter_iff fun k => k % config.numSets.toNat
  · rw [Cache.accessAll_hits]
    exact BitVec.zero_add _
  · rw [Cache.accessAll_misses]
    exact BitVec.zero_add _

def Cache.twoByTwo : CacheConfig where
  cacheSize := 32#32
  blockSize := 8#32
  ways := 2#32
  missLatency := 0#32

theorem cache_access_lru_two_by_two :
    (((Cache.new Cache.twoByTwo).accessAll [(0#32, .read), (20#32, .write)]).2.access
        4#32 .read).1 = true ∧
      ((Cache.new Cache.twoByTwo).accessAll [(0#32, .read), (20#32, .write)]).2.misses =
        2#32 := by
  have hlru := cache_access_lru Cache.twoByTwo 3 1 (by decide) (by decide) (by decide)
    [(0#32, .read), (20#32, .write)]
  refine ⟨(hlru.1 4#32 .read).mpr ⟨[], [2], by decide, by decide, by decide⟩, ?_⟩
  rw [hlru.2.2]
  decide

end PipeSim
