import PipeSim.Library.Loop
import PipeSim.Machine.Word

/-!
# The cache

`Cache.access` keeps, for every set, the tags, the validity and an age for each
way, where age 1 is the most recently used way and ages grow up to `ways`.
The tables of the source are indexed by set and way; here a set is one record of
three functions of the way, and the cache maps a set index to its record.
-/

namespace PipeSim

open Library

structure CacheConfig where
  cacheSize : Word
  blockSize : Word
  ways : Word
  missLatency : Word

def CacheConfig.numSets (config : CacheConfig) : Word :=
  config.cacheSize / config.ways / config.blockSize

/-- A configuration whose tables are not empty and whose set count is defined. -/
structure ValidConfig extends CacheConfig where
  ways_pos : 1 ≤ ways.toNat
  blockSize_pos : 1 ≤ blockSize.toNat
  numSets_pos : 1 ≤ toCacheConfig.numSets.toNat

def ValidConfig.oneBlock (missLatency : Word) : ValidConfig where
  cacheSize := 8#32
  blockSize := 8#32
  ways := 1#32
  missLatency := missLatency
  ways_pos := by decide
  blockSize_pos := by decide
  numSets_pos := by
    change 1 ≤ (8#32 / 1#32 / 8#32 : Word).toNat
    decide

def ValidConfig.wideBlock (missLatency : Word) : ValidConfig where
  cacheSize := 16#32
  blockSize := 16#32
  ways := 1#32
  missLatency := missLatency
  ways_pos := by decide
  blockSize_pos := by decide
  numSets_pos := by
    change 1 ≤ (16#32 / 1#32 / 16#32 : Word).toNat
    decide

inductive CacheOperation where
  | read
  | write
deriving DecidableEq, Repr

/-- One row of the tables `tags`, `order` and `valid`. -/
structure CacheSet where
  tags : Nat -> Word
  order : Nat -> Word
  valid : Nat -> Bool

structure Cache where
  hits : Word
  misses : Word
  numSets : Word
  sets : Nat -> CacheSet
  config : CacheConfig

def countBitsLoop : Nat -> Word -> Nat -> Nat
  | 0, _, count => count
  | fuel + 1, n, count =>
      if 1#32 < n then countBitsLoop fuel (n >>> 1) (count + 1) else count

/-- `countBitsForPowerOfTwo`; 32 halvings bring every word to at most 1. -/
def countBitsForPowerOfTwo (n : Word) : Nat := countBitsLoop 32 n 0

namespace CacheSet

def empty : CacheSet where
  tags := fun _ => 0#32
  order := fun _ => 0#32
  valid := fun _ => false

def setOrder (row : CacheSet) (i : Nat) (age : Word) : CacheSet :=
  { row with order := Function.update row.order i age }

def setTag (row : CacheSet) (i : Nat) (tag : Word) : CacheSet :=
  { row with tags := Function.update row.tags i tag }

def holds (row : CacheSet) (tag : Word) (i : Nat) : Bool :=
  row.valid i && row.tags i == tag

/-- The inner loop of a hit on way `i`: younger ways age by one, then way `i`
becomes the youngest. -/
def promote (row : CacheSet) (ways i : Nat) : CacheSet :=
  let row := forLoop ways (fun j row =>
    if row.valid j && row.order j < row.order i then
      row.setOrder j (row.order j + 1#32)
    else row) row
  row.setOrder i 1#32

/-- The hit loop over all ways; it does not stop at the first match. -/
def hitLoop (row : CacheSet) (ways : Nat) (tag : Word) : Bool × CacheSet :=
  forLoop ways (fun i state =>
    if state.2.holds tag i then (true, state.2.promote ways i) else state) (false, row)

def numValid (row : CacheSet) (ways : Nat) : Word :=
  forLoop ways (fun i numValid => if row.valid i then numValid + 1#32 else numValid) 0#32

def ageValid (row : CacheSet) (ways : Nat) : CacheSet :=
  forLoop ways (fun i row =>
    if row.valid i then row.setOrder i (row.order i + 1#32) else row) row

def fillInvalid (row : CacheSet) (ways : Nat) (tag : Word) : CacheSet :=
  match (List.range ways).find? fun i => !row.valid i with
  | some i =>
      { (row.setTag i tag).setOrder i 1#32 with
        valid := Function.update row.valid i true }
  | none => row

def replaceOldest (row : CacheSet) (ways : Word) (tag : Word) : CacheSet :=
  forLoop ways.toNat (fun i row =>
    if row.order i == ways then row.setTag i tag else row) row

/-- Rotate all ages: the oldest becomes 1, the others grow by one. -/
def rotate (row : CacheSet) (ways : Word) : CacheSet :=
  forLoop ways.toNat (fun j row => row.setOrder j (row.order j % ways + 1#32)) row

/-- The row part of `Cache::access`: whether the tag was found, and the row
afterwards. -/
def access (row : CacheSet) (ways : Word) (tag : Word) : Bool × CacheSet :=
  let looked := row.hitLoop ways.toNat tag
  if looked.1 then looked
  else if looked.2.numValid ways.toNat < ways then
    (false, (looked.2.ageValid ways.toNat).fillInvalid ways.toNat tag)
  else (false, (looked.2.replaceOldest ways tag).rotate ways)

end CacheSet

namespace Cache

def new (config : CacheConfig) : Cache where
  hits := 0#32
  misses := 0#32
  numSets := config.numSets
  sets := fun _ => CacheSet.empty
  config := config

def numBlockOffsetBits (c : Cache) : Nat := countBitsForPowerOfTwo c.config.blockSize

def numIndexBits (c : Cache) : Nat := countBitsForPowerOfTwo c.numSets

def index (c : Cache) (address : Word) : Word :=
  let indexMask : Word := (1#32 <<< c.numIndexBits) - 1#32
  (address >>> c.numBlockOffsetBits) &&& indexMask

def tag (c : Cache) (address : Word) : Word :=
  address >>> (c.numBlockOffsetBits + c.numIndexBits)

/-- `Cache::access`; reads and writes are treated alike. -/
def access (c : Cache) (address : Word) (_readWrite : CacheOperation) : Bool × Cache :=
  let index := (c.index address).toNat
  let accessed := (c.sets index).access c.config.ways (c.tag address)
  let hit := accessed.1
  (hit,
    { c with
      sets := Function.update c.sets index accessed.2
      hits := c.hits + if hit then 1#32 else 0#32
      misses := c.misses + if hit then 0#32 else 1#32 })

end Cache

end PipeSim
