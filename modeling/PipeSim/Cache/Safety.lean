import PipeSim.Cache.Geometry
import PipeSim.Library.Table

/-!
# Safety of the cache's table accesses

The constructor and `access` again, this time over tables of `numSets` rows of
`ways` entries and with every division, shift and table access checked.  The
checked cache follows the model of the other modules for as long as nothing fails,
and whether something fails is decided by the configuration and by whether there is
an access at all.
-/

namespace PipeSim

open Library

inductive Fault where
  | divisionByZero
  | shiftTooWide
  | indexOutOfRange
deriving DecidableEq, Repr

abbrev Checked := Except Fault

namespace Checked

def div (a b : Word) : Checked Word :=
  if b = 0#32 then .error .divisionByZero else .ok (a / b)

def mod (a b : Word) : Checked Word :=
  if b = 0#32 then .error .divisionByZero else .ok (a % b)

def shiftLeft (a : Word) (k : Nat) : Checked Word :=
  if k < 32 then .ok (a <<< k) else .error .shiftTooWide

def shiftRight (a : Word) (k : Nat) : Checked Word :=
  if k < 32 then .ok (a >>> k) else .error .shiftTooWide

def element {α : Type} (a : Option α) : Checked α :=
  match a with
  | some a => .ok a
  | none => .error .indexOutOfRange

end Checked

structure CacheTables where
  tags : Table Word
  order : Table Word
  valid : Table Bool

namespace CacheTables

def readTag (t : CacheTables) (index i : Nat) : Checked Word :=
  Checked.element (t.tags.at? index i)

def readOrder (t : CacheTables) (index i : Nat) : Checked Word :=
  Checked.element (t.order.at? index i)

def readValid (t : CacheTables) (index i : Nat) : Checked Bool :=
  Checked.element (t.valid.at? index i)

def writeTag (t : CacheTables) (index i : Nat) (tag : Word) : Checked CacheTables :=
  (Checked.element (t.tags.set? index i tag)).map fun tags => { t with tags := tags }

def writeOrder (t : CacheTables) (index i : Nat) (age : Word) : Checked CacheTables :=
  (Checked.element (t.order.set? index i age)).map fun order => { t with order := order }

def writeValid (t : CacheTables) (index i : Nat) (valid : Bool) : Checked CacheTables :=
  (Checked.element (t.valid.set? index i valid)).map fun valid => { t with valid := valid }

def promote (t : CacheTables) (ways index i : Nat) : Checked CacheTables := do
  let t <- forLoopE ways (fun j t => do
    if (<- t.readValid index j) then
      let younger <- t.readOrder index j
      let hit <- t.readOrder index i
      if younger < hit then t.writeOrder index j (younger + 1#32) else .ok t
    else .ok t) t
  t.writeOrder index i 1#32

def hitLoop (t : CacheTables) (ways index : Nat) (tag : Word) :
    Checked (Bool × CacheTables) :=
  forLoopE ways (fun i state => do
    if (<- state.2.readValid index i) then
      if (<- state.2.readTag index i) == tag then
        .ok (true, <- state.2.promote ways index i)
      else .ok state
    else .ok state) (false, t)

def numValid (t : CacheTables) (ways index : Nat) : Checked Word :=
  forLoopE ways (fun i numValid => do
    if (<- t.readValid index i) then .ok (numValid + 1#32) else .ok numValid) 0#32

def ageValid (t : CacheTables) (ways index : Nat) : Checked CacheTables :=
  forLoopE ways (fun i t => do
    if (<- t.readValid index i) then
      let age <- t.readOrder index i
      t.writeOrder index i (age + 1#32)
    else .ok t) t

/-- The loop that fills the first way that is not valid and then stops, over the ways
still to be tried. -/
def fillInvalid (t : CacheTables) (index : Nat) (tag : Word) :
    List Nat -> Checked CacheTables
  | [] => .ok t
  | i :: ways => do
      if !(<- t.readValid index i) then
        let t <- t.writeTag index i tag
        let t <- t.writeOrder index i 1#32
        t.writeValid index i true
      else t.fillInvalid index tag ways

def replaceOldest (t : CacheTables) (ways : Word) (index : Nat) (tag : Word) :
    Checked CacheTables :=
  forLoopE ways.toNat (fun i t => do
    if (<- t.readOrder index i) == ways then t.writeTag index i tag else .ok t) t

def rotate (t : CacheTables) (ways : Word) (index : Nat) : Checked CacheTables :=
  forLoopE ways.toNat (fun j t => do
    let age <- Checked.mod (<- t.readOrder index j) ways
    t.writeOrder index j (age + 1#32)) t

def access (t : CacheTables) (ways : Word) (index : Nat) (tag : Word) :
    Checked (Bool × CacheTables) := do
  let looked <- t.hitLoop ways.toNat index tag
  if looked.1 then .ok looked
  else if (<- looked.2.numValid ways.toNat index) < ways then
    let t <- looked.2.ageValid ways.toNat index
    let t <- t.fillInvalid index tag (List.range ways.toNat)
    .ok (false, t)
  else
    let t <- looked.2.replaceOldest ways index tag
    let t <- t.rotate ways index
    .ok (false, t)

end CacheTables

structure CheckedCache where
  hits : Word
  misses : Word
  numSets : Word
  tables : CacheTables
  config : CacheConfig

namespace CheckedCache

def resized (config : CacheConfig) (numSets : Word) : CheckedCache where
  hits := 0#32
  misses := 0#32
  numSets := numSets
  tables :=
    { tags := Table.filled numSets.toNat config.ways.toNat 0#32
      order := Table.filled numSets.toNat config.ways.toNat 0#32
      valid := Table.filled numSets.toNat config.ways.toNat false }
  config := config

def new (config : CacheConfig) : Checked CheckedCache := do
  let numSets <- Checked.div (<- Checked.div config.cacheSize config.ways) config.blockSize
  .ok (resized config numSets)

def access (c : CheckedCache) (address : Word) (_readWrite : CacheOperation) :
    Checked (Bool × CheckedCache) := do
  let numBlockOffsetBits := countBitsForPowerOfTwo c.config.blockSize
  let numIndexBits := countBitsForPowerOfTwo c.numSets
  let indexMask := (<- Checked.shiftLeft 1#32 numIndexBits) - 1#32
  let index := (<- Checked.shiftRight address numBlockOffsetBits) &&& indexMask
  let tag <- Checked.shiftRight address (numBlockOffsetBits + numIndexBits)
  let accessed <- c.tables.access c.config.ways index.toNat tag
  let hit := accessed.1
  .ok (hit,
    { c with
      tables := accessed.2
      hits := c.hits + if hit then 1#32 else 0#32
      misses := c.misses + if hit then 0#32 else 1#32 })

def accessAll (c : CheckedCache) :
    List (Word × CacheOperation) -> Checked (List Bool × CheckedCache)
  | [] => .ok ([], c)
  | (address, readWrite) :: rest => do
      let accessed <- c.access address readWrite
      let others <- accessed.2.accessAll rest
      .ok (accessed.1 :: others.1, others.2)

def simulate (config : CacheConfig) (accesses : List (Word × CacheOperation)) :
    Checked (List Bool × CheckedCache) := do
  (<- new config).accessAll accesses

end CheckedCache

/-!
## Tables that show the rows of the model
-/

/-- The tables have `n` rows of `m` entries, those of `sets`. -/
structure CacheTables.Shows (t : CacheTables) (n m : Nat) (sets : Nat -> CacheSet) :
    Prop where
  tags : t.tags.Shows n m (CacheSet.tags ∘ sets)
  order : t.order.Shows n m (CacheSet.order ∘ sets)
  valid : t.valid.Shows n m (CacheSet.valid ∘ sets)

namespace CacheTables

variable {t : CacheTables} {n m index i : Nat} {sets : Nat -> CacheSet} {row : CacheSet}

theorem shows_filled (n m : Nat) :
    CacheTables.Shows
      { tags := Table.filled n m 0#32
        order := Table.filled n m 0#32
        valid := Table.filled n m false } n m fun _ => CacheSet.empty where
  tags := Table.shows_filled n m 0#32
  order := Table.shows_filled n m 0#32
  valid := Table.shows_filled n m false

theorem element_at? {α : Type} {table : Table α} {column : CacheSet -> Nat -> α}
    (h : table.Shows n m (column ∘ Function.update sets index row)) (hindex : index < n)
    (hi : i < m) : Checked.element (table.at? index i) = .ok (column row i) := by
  rw [h.at? hindex hi, Function.comp_apply, Function.update_self]
  rfl

theorem element_set? {α : Type} {table : Table α} {column : CacheSet -> Nat -> α}
    (h : table.Shows n m (column ∘ Function.update sets index row)) (hindex : index < n)
    (hi : i < m) {value : α} (row' : CacheSet)
    (hrow : column row' = Function.update (column row) i value) :
    exists table', Checked.element (table.set? index i value) = .ok table' ∧
      table'.Shows n m (column ∘ Function.update sets index row') := by
  rcases h.set? hindex hi value with ⟨table', hset, hshows⟩
  refine ⟨table', ?_, ?_⟩
  · rw [hset]
    rfl
  · rw [Function.comp_update, Function.update_self, Function.update_idem] at hshows
    rw [Function.comp_update, hrow]
    exact hshows

theorem shows_of_same {α : Type} {table : Table α} {column : CacheSet -> Nat -> α}
    (h : table.Shows n m (column ∘ Function.update sets index row)) {row' : CacheSet}
    (hrow : column row' = column row) :
    table.Shows n m (column ∘ Function.update sets index row') := by
  rw [Function.comp_update] at h ⊢
  rw [hrow]
  exact h

theorem Shows.readTag (h : t.Shows n m (Function.update sets index row))
    (hindex : index < n) (hi : i < m) : t.readTag index i = .ok (row.tags i) :=
  element_at? h.tags hindex hi

theorem Shows.readOrder (h : t.Shows n m (Function.update sets index row))
    (hindex : index < n) (hi : i < m) : t.readOrder index i = .ok (row.order i) :=
  element_at? h.order hindex hi

theorem Shows.readValid (h : t.Shows n m (Function.update sets index row))
    (hindex : index < n) (hi : i < m) : t.readValid index i = .ok (row.valid i) :=
  element_at? h.valid hindex hi

theorem Shows.writeTag (h : t.Shows n m (Function.update sets index row))
    (hindex : index < n) (hi : i < m) (tag : Word) :
    exists t', t.writeTag index i tag = .ok t' ∧
      t'.Shows n m (Function.update sets index (row.setTag i tag)) := by
  rcases element_set? h.tags hindex hi (row.setTag i tag) rfl with ⟨tags, hset, htags⟩
  refine ⟨{ t with tags := tags }, ?_, htags, shows_of_same h.order rfl,
    shows_of_same h.valid rfl⟩
  unfold CacheTables.writeTag
  rw [hset]
  rfl

theorem Shows.writeOrder (h : t.Shows n m (Function.update sets index row))
    (hindex : index < n) (hi : i < m) (age : Word) :
    exists t', t.writeOrder index i age = .ok t' ∧
      t'.Shows n m (Function.update sets index (row.setOrder i age)) := by
  rcases element_set? h.order hindex hi (row.setOrder i age) rfl with ⟨order, hset, horder⟩
  refine ⟨{ t with order := order }, ?_, shows_of_same h.tags rfl, horder,
    shows_of_same h.valid rfl⟩
  unfold CacheTables.writeOrder
  rw [hset]
  rfl

theorem Shows.writeValid (h : t.Shows n m (Function.update sets index row))
    (hindex : index < n) (hi : i < m) (valid : Bool) :
    exists t', t.writeValid index i valid = .ok t' ∧
      t'.Shows n m (Function.update sets index
        { row with valid := Function.update row.valid i valid }) := by
  have hwrite := element_set? h.valid hindex hi
    { row with valid := Function.update row.valid i valid } rfl
  rcases hwrite with ⟨valids, hset, hvalid⟩
  refine ⟨{ t with valid := valids }, ?_, shows_of_same h.tags rfl,
    shows_of_same h.order rfl, hvalid⟩
  unfold CacheTables.writeValid
  rw [hset]
  rfl

/-!
## Loops over a row
-/

theorem Shows.promote (h : t.Shows n m (Function.update sets index row))
    (hindex : index < n) (hi : i < m) :
    exists t', t.promote m index i = .ok t' ∧
      t'.Shows n m (Function.update sets index (row.promote m i)) := by
  have hloop := forLoopE_follows
    (f := fun j (t : CacheTables) => do
      if (<- t.readValid index j) then
        let younger <- t.readOrder index j
        let hit <- t.readOrder index i
        if younger < hit then t.writeOrder index j (younger + 1#32) else .ok t
      else .ok t)
    (g := fun j (row : CacheSet) =>
      if row.valid j && row.order j < row.order i then
        row.setOrder j (row.order j + 1#32)
      else row)
    (fun t row => t.Shows n m (Function.update sets index row)) h (by
      intro j u row hj hu
      rw [hu.readValid hindex hj, hu.readOrder hindex hj, hu.readOrder hindex hi]
      cases hvalid : row.valid j with
      | false =>
          exact ⟨u, rfl, hu⟩
      | true =>
          by_cases hlt : row.order j < row.order i
          · rcases hu.writeOrder hindex hj (row.order j + 1#32) with ⟨u', hwrite, hshows⟩
            refine ⟨u', ?_, ?_⟩
            · rw [← hwrite]
              exact if_pos hlt
            · rw [if_pos (by simpa using hlt)]
              exact hshows
          · refine ⟨u, if_neg hlt, ?_⟩
            rw [if_neg (by simpa using hlt)]
            exact hu)
  rcases hloop with ⟨u, hrun, hshows⟩
  rcases hshows.writeOrder hindex hi 1#32 with ⟨u', hwrite, hshows'⟩
  refine ⟨u', ?_, hshows'⟩
  unfold CacheTables.promote
  rw [hrun]
  exact hwrite

theorem Shows.hitLoop (h : t.Shows n m (Function.update sets index row))
    (hindex : index < n) (tag : Word) :
    exists looked, t.hitLoop m index tag = .ok looked ∧
      looked.1 = (row.hitLoop m tag).1 ∧
      looked.2.Shows n m (Function.update sets index (row.hitLoop m tag).2) := by
  refine forLoopE_follows
    (fun (u : Bool × CacheTables) (v : Bool × CacheSet) =>
      u.1 = v.1 ∧ u.2.Shows n m (Function.update sets index v.2)) ⟨rfl, h⟩ ?_
  intro i looked looked' hi hlooked
  rcases looked with ⟨hit, u⟩
  rcases looked' with ⟨hit', row⟩
  rcases hlooked with ⟨hhit, hu⟩
  change u.Shows n m (Function.update sets index row) at hu
  dsimp only at hhit ⊢
  rw [hu.readValid hindex hi, hu.readTag hindex hi]
  unfold CacheSet.holds
  cases hvalid : row.valid i with
  | false =>
      exact ⟨(hit, u), rfl, hhit, hu⟩
  | true =>
      cases htag : row.tags i == tag with
      | false =>
          refine ⟨(hit, u), ?_, hhit, hu⟩
          exact if_neg (by simp [htag])
      | true =>
          rcases hu.promote hindex hi with ⟨u', hpromote, hshows⟩
          refine ⟨(true, u'), ?_, rfl, hshows⟩
          rw [hpromote]
          exact if_pos htag

theorem Shows.numValid (h : t.Shows n m (Function.update sets index row))
    (hindex : index < n) : t.numValid m index = .ok (row.numValid m) := by
  have hloop : exists count, t.numValid m index = .ok count ∧ count = row.numValid m := by
    refine forLoopE_follows (fun (u v : Word) => u = v) rfl ?_
    intro i u v hi heq
    subst heq
    rw [h.readValid hindex hi]
    cases row.valid i with
    | false =>
        exact ⟨u, rfl, rfl⟩
    | true =>
        exact ⟨u + 1#32, rfl, rfl⟩
  rcases hloop with ⟨count, hrun, rfl⟩
  exact hrun

theorem Shows.ageValid (h : t.Shows n m (Function.update sets index row))
    (hindex : index < n) :
    exists t', t.ageValid m index = .ok t' ∧
      t'.Shows n m (Function.update sets index (row.ageValid m)) := by
  refine forLoopE_follows
    (fun (t : CacheTables) row => t.Shows n m (Function.update sets index row)) h ?_
  intro i u row hi hu
  rw [hu.readValid hindex hi, hu.readOrder hindex hi]
  cases row.valid i with
  | false =>
      exact ⟨u, rfl, hu⟩
  | true =>
      exact hu.writeOrder hindex hi (row.order i + 1#32)

theorem Shows.fillInvalid (h : t.Shows n m (Function.update sets index row))
    (hindex : index < n) (tag : Word) (ways : List Nat) (hways : forall i, i ∈ ways -> i < m) :
    exists t', t.fillInvalid index tag ways = .ok t' ∧
      t'.Shows n m (Function.update sets index
        (match ways.find? fun i => !row.valid i with
          | some i =>
              { (row.setTag i tag).setOrder i 1#32 with
                valid := Function.update row.valid i true }
          | none => row)) := by
  induction ways with
  | nil =>
      exact ⟨t, rfl, h⟩
  | cons i ways ih =>
      have hi := hways i List.mem_cons_self
      rw [CacheTables.fillInvalid, h.readValid hindex hi, List.find?_cons]
      cases hvalid : row.valid i with
      | true =>
          exact ih fun j hj => hways j (List.mem_cons_of_mem i hj)
      | false =>
          rcases h.writeTag hindex hi tag with ⟨t1, htag, h1⟩
          rcases h1.writeOrder hindex hi 1#32 with ⟨t2, horder, h2⟩
          rcases h2.writeValid hindex hi true with ⟨t3, hwrite, h3⟩
          refine ⟨t3, ?_, h3⟩
          change (t.writeTag index i tag >>= _) = Except.ok t3
          rw [htag]
          change (t1.writeOrder index i 1#32 >>= _) = Except.ok t3
          rw [horder]
          exact hwrite

theorem Shows.replaceOldest {ways : Word}
    (h : t.Shows n ways.toNat (Function.update sets index row)) (hindex : index < n)
    (tag : Word) :
    exists t', t.replaceOldest ways index tag = .ok t' ∧
      t'.Shows n ways.toNat (Function.update sets index (row.replaceOldest ways tag)) := by
  refine forLoopE_follows
    (fun (t : CacheTables) row => t.Shows n ways.toNat (Function.update sets index row)) h ?_
  intro i u row hi hu
  rw [hu.readOrder hindex hi]
  cases hage : row.order i == ways with
  | false =>
      exact ⟨u, if_neg (by simp [hage]), hu⟩
  | true =>
      rcases hu.writeTag hindex hi tag with ⟨u', hwrite, hshows⟩
      refine ⟨u', ?_, hshows⟩
      rw [← hwrite]
      exact if_pos hage

theorem Shows.rotate {ways : Word}
    (h : t.Shows n ways.toNat (Function.update sets index row)) (hindex : index < n)
    (hways : ways ≠ 0#32) :
    exists t', t.rotate ways index = .ok t' ∧
      t'.Shows n ways.toNat (Function.update sets index (row.rotate ways)) := by
  refine forLoopE_follows
    (fun (t : CacheTables) row => t.Shows n ways.toNat (Function.update sets index row)) h ?_
  intro j u row hj hu
  rcases hu.writeOrder hindex hj (row.order j % ways + 1#32) with ⟨u', hwrite, hshows⟩
  refine ⟨u', ?_, hshows⟩
  rw [hu.readOrder hindex hj]
  change (Checked.mod (row.order j) ways >>= _) = Except.ok u'
  rw [Checked.mod, if_neg hways]
  exact hwrite

theorem Shows.access {ways : Word}
    (h : t.Shows n ways.toNat (Function.update sets index row)) (hindex : index < n)
    (hways : ways ≠ 0#32) (tag : Word) :
    exists t', t.access ways index tag = .ok ((row.access ways tag).1, t') ∧
      t'.Shows n ways.toNat (Function.update sets index (row.access ways tag).2) := by
  rcases h.hitLoop hindex tag with ⟨⟨hit, u⟩, hlook, hhit, hu⟩
  change hit = _ at hhit
  change u.Shows _ _ _ at hu
  unfold CacheTables.access CacheSet.access
  rw [hlook]
  change exists t', (if hit = true then _ else _) = _ ∧ _
  dsimp only
  rw [← hhit]
  cases hit with
  | true =>
      refine ⟨u, ?_, hu⟩
      rw [if_pos rfl, if_pos rfl, ← hhit]
  | false =>
      rw [if_neg (by simp), if_neg (by simp), hu.numValid hindex]
      change exists t', (if (row.hitLoop ways.toNat tag).2.numValid ways.toNat < ways
        then _ else _) = _ ∧ _
      by_cases hfull : (row.hitLoop ways.toNat tag).2.numValid ways.toNat < ways
      · rcases hu.ageValid hindex with ⟨u1, hage, h1⟩
        rcases h1.fillInvalid hindex tag (List.range ways.toNat)
          (fun i hi => List.mem_range.mp hi) with ⟨u2, hfill, h2⟩
        refine ⟨u2, ?_, ?_⟩
        · rw [if_pos hfull, if_pos hfull, hage]
          change (u1.fillInvalid index tag _ >>= _) = _
          rw [hfill]
          rfl
        · rw [if_pos hfull]
          exact h2
      · rcases hu.replaceOldest hindex tag with ⟨u1, hreplace, h1⟩
        rcases h1.rotate hindex hways with ⟨u2, hrotate, h2⟩
        refine ⟨u2, ?_, ?_⟩
        · rw [if_neg hfull, if_neg hfull, hreplace]
          change (u1.rotate ways index >>= _) = _
          rw [hrotate]
          rfl
        · rw [if_neg hfull]
          exact h2

end CacheTables

/-!
## The checked cache follows the model
-/

theorem ValidConfig.ways_ne_zero (config : ValidConfig) : config.ways ≠ 0#32 :=
  toNat_pos_iff.mp config.ways_pos

theorem ValidConfig.blockSize_ne_zero (config : ValidConfig) : config.blockSize ≠ 0#32 :=
  toNat_pos_iff.mp config.blockSize_pos

theorem ValidConfig.countBits_add_lt (config : ValidConfig) :
    countBitsForPowerOfTwo config.blockSize + countBitsForPowerOfTwo config.numSets < 32 := by
  have hpow : 2 ^ (countBitsForPowerOfTwo config.blockSize +
      countBitsForPowerOfTwo config.numSets) < 2 ^ 32 := by
    calc 2 ^ (countBitsForPowerOfTwo config.blockSize + countBitsForPowerOfTwo config.numSets)
        = 2 ^ countBitsForPowerOfTwo config.numSets *
            2 ^ countBitsForPowerOfTwo config.blockSize := by
          rw [Nat.pow_add, Nat.mul_comm]
      _ ≤ config.numSets.toNat * config.blockSize.toNat :=
          Nat.mul_le_mul (Cache.two_pow_countBits_le config.numSets_pos)
            (Cache.two_pow_countBits_le config.blockSize_pos)
      _ ≤ config.cacheSize.toNat := config.numSets_mul_le
      _ < 2 ^ 32 := config.cacheSize.isLt
  exact (Nat.pow_lt_pow_iff_right (by decide)).mp hpow

namespace CheckedCache

/-- The checked cache has the members of the modelled one, both built from `config`. -/
structure Follows (c : CheckedCache) (config : CacheConfig) (d : Cache) : Prop where
  checkedConfig : c.config = config
  checkedNumSets : c.numSets = config.numSets
  plainConfig : d.config = config
  plainNumSets : d.numSets = config.numSets
  hits : c.hits = d.hits
  misses : c.misses = d.misses
  tables : c.tables.Shows config.numSets.toNat config.ways.toNat d.sets

theorem new_eq {config : CacheConfig} (hways : config.ways ≠ 0#32)
    (hblockSize : config.blockSize ≠ 0#32) : new config = .ok (resized config config.numSets) := by
  unfold new
  rw [Checked.div, if_neg hways]
  change (Checked.div _ config.blockSize >>= _) = _
  rw [Checked.div, if_neg hblockSize]
  rfl

theorem resized_follows (config : ValidConfig) :
    (resized config.toCacheConfig config.numSets).Follows config.toCacheConfig
      (Cache.new config.toCacheConfig) where
  checkedConfig := rfl
  checkedNumSets := rfl
  plainConfig := rfl
  plainNumSets := rfl
  hits := rfl
  misses := rfl
  tables := CacheTables.shows_filled _ _

section Follows

variable {c : CheckedCache} {config : ValidConfig} {d : Cache}

theorem Follows.index_lt (h : c.Follows config.toCacheConfig d) (address : Word) :
    (d.index address).toNat < config.numSets.toNat := by
  rw [Cache.toNat_index, Cache.numIndexBits, h.plainNumSets]
  exact lt_of_lt_of_le (Nat.mod_lt _ (Nat.two_pow_pos _))
    (Cache.two_pow_countBits_le config.numSets_pos)

theorem Follows.access (h : c.Follows config.toCacheConfig d) (address : Word)
    (readWrite : CacheOperation) :
    exists c', c.access address readWrite = .ok ((d.access address readWrite).1, c') ∧
      c'.Follows config.toCacheConfig (d.access address readWrite).2 := by
  have hbits := config.countBits_add_lt
  have htables := h.tables
  rw [← Function.update_eq_self (d.index address).toNat d.sets] at htables
  rcases htables.access (h.index_lt address) config.ways_ne_zero (d.tag address) with
    ⟨t', haccess, hshows⟩
  have hrun : c.access address readWrite = .ok ((d.access address readWrite).1,
      { c with
        tables := t'
        hits := c.hits + if (d.access address readWrite).1 then 1#32 else 0#32
        misses := c.misses + if (d.access address readWrite).1 then 0#32 else 1#32 }) := by
    unfold Cache.index Cache.tag Cache.numBlockOffsetBits Cache.numIndexBits at haccess
    rw [h.plainConfig, h.plainNumSets] at haccess
    unfold CheckedCache.access
    rw [h.checkedConfig, h.checkedNumSets]
    dsimp only
    rw [Checked.shiftLeft, if_pos (Cache.countBitsForPowerOfTwo_lt _)]
    change (Checked.shiftRight _ _ >>= _) = _
    rw [Checked.shiftRight, if_pos (Cache.countBitsForPowerOfTwo_lt _)]
    change (Checked.shiftRight _ _ >>= _) = _
    rw [Checked.shiftRight, if_pos hbits]
    change (c.tables.access _ _ _ >>= _) = _
    rw [haccess]
    unfold Cache.access Cache.index Cache.tag Cache.numBlockOffsetBits Cache.numIndexBits
    rw [h.plainConfig, h.plainNumSets]
    rfl
  refine ⟨_, hrun, h.checkedConfig, h.checkedNumSets, h.plainConfig, h.plainNumSets, ?_, ?_, ?_⟩
  · exact congrArg (· + _) h.hits
  · exact congrArg (· + _) h.misses
  · unfold Cache.access
    rw [h.plainConfig]
    exact hshows

theorem Follows.accessAll (h : c.Follows config.toCacheConfig d)
    (accesses : List (Word × CacheOperation)) :
    exists c', c.accessAll accesses = .ok ((d.accessAll accesses).1, c') ∧
      c'.Follows config.toCacheConfig (d.accessAll accesses).2 := by
  induction accesses generalizing c d with
  | nil =>
      exact ⟨c, rfl, h⟩
  | cons access accesses ih =>
      rcases access with ⟨address, readWrite⟩
      rcases h.access address readWrite with ⟨c1, hfirst, h1⟩
      rcases ih h1 with ⟨c2, hrest, h2⟩
      refine ⟨c2, ?_, h2⟩
      rw [CheckedCache.accessAll, hfirst]
      change (c1.accessAll accesses >>= _) = _
      rw [hrest]
      rfl

end Follows

/-- The checked run of a valid configuration returns what the model returns. -/
theorem simulate_follows (config : ValidConfig) (accesses : List (Word × CacheOperation)) :
    exists c, simulate config.toCacheConfig accesses =
        .ok (((Cache.new config.toCacheConfig).accessAll accesses).1, c) ∧
      c.Follows config.toCacheConfig
        ((Cache.new config.toCacheConfig).accessAll accesses).2 := by
  rcases (resized_follows config).accessAll accesses with ⟨c, hrun, hfollows⟩
  refine ⟨c, ?_, hfollows⟩
  rw [simulate, new_eq config.ways_ne_zero config.blockSize_ne_zero]
  exact hrun

/-!
## Configurations that fail
-/

theorem simulate_of_ways_eq_zero {config : CacheConfig} (hways : config.ways = 0#32)
    (accesses : List (Word × CacheOperation)) :
    simulate config accesses = .error .divisionByZero := by
  unfold simulate new
  rw [Checked.div, if_pos hways]
  rfl

theorem simulate_of_blockSize_eq_zero {config : CacheConfig} (hways : config.ways ≠ 0#32)
    (hblockSize : config.blockSize = 0#32) (accesses : List (Word × CacheOperation)) :
    simulate config accesses = .error .divisionByZero := by
  unfold simulate new
  rw [Checked.div, if_neg hways]
  change ((Checked.div _ config.blockSize >>= _) >>= _) = _
  rw [Checked.div, if_pos hblockSize]
  rfl

theorem hitLoop_of_no_rows {t : CacheTables} {ways : Nat} (hvalid : t.valid = [])
    (hways : 0 < ways) (index : Nat) (tag : Word) :
    t.hitLoop ways index tag = .error .indexOutOfRange := by
  refine forLoopE_of_first hways ?_
  dsimp only
  rw [CacheTables.readValid, hvalid, Table.at?_of_length_le (Nat.zero_le index)]
  rfl

theorem access_of_no_rows {c : CheckedCache} (hnumSets : c.numSets = 0#32)
    (hvalid : c.tables.valid = []) (hways : 0 < c.config.ways.toNat) (address : Word)
    (readWrite : CacheOperation) :
    c.access address readWrite = .error .indexOutOfRange := by
  have hindexBits : countBitsForPowerOfTwo c.numSets = 0 := by
    rw [hnumSets]
    decide
  unfold access
  rw [hindexBits]
  dsimp only
  rw [Checked.shiftLeft, if_pos (by decide)]
  change (Checked.shiftRight _ _ >>= _) = _
  rw [Checked.shiftRight, if_pos (Cache.countBitsForPowerOfTwo_lt _)]
  change (Checked.shiftRight _ _ >>= _) = _
  rw [Nat.add_zero, Checked.shiftRight, if_pos (Cache.countBitsForPowerOfTwo_lt _)]
  change (c.tables.access _ _ _ >>= _) = _
  unfold CacheTables.access
  rw [hitLoop_of_no_rows hvalid hways]
  rfl

theorem simulate_of_numSets_eq_zero {config : CacheConfig} (hways : config.ways ≠ 0#32)
    (hblockSize : config.blockSize ≠ 0#32) (hnumSets : config.numSets = 0#32)
    (access : Word × CacheOperation) (accesses : List (Word × CacheOperation)) :
    simulate config (access :: accesses) = .error .indexOutOfRange := by
  have hpos : 0 < config.ways.toNat := toNat_pos_iff.mpr hways
  rw [simulate, new_eq hways hblockSize, hnumSets]
  change ((resized config 0#32).accessAll (access :: accesses)) = _
  rw [accessAll, access_of_no_rows rfl rfl hpos]
  rfl

end CheckedCache

theorem CacheConfig.numSets_pos_iff {config : CacheConfig} (hways : config.ways ≠ 0#32)
    (hblockSize : config.blockSize ≠ 0#32) :
    1 ≤ config.numSets.toNat <->
      config.ways.toNat * config.blockSize.toNat ≤ config.cacheSize.toNat := by
  have hpos : 0 < config.ways.toNat * config.blockSize.toNat :=
    Nat.mul_pos (toNat_pos_iff.mpr hways) (toNat_pos_iff.mpr hblockSize)
  unfold CacheConfig.numSets
  rw [BitVec.toNat_udiv, BitVec.toNat_udiv, Nat.div_div_eq_div_mul, Nat.le_div_iff_mul_le hpos,
    Nat.one_mul]

/-- No configuration is checked before it is used: a division by the number of ways. -/
theorem simulate_zero_ways :
    ¬ forall (config : CacheConfig) (accesses : List (Word × CacheOperation)),
      exists result, CheckedCache.simulate config accesses = .ok result := by
  intro h
  rcases h ⟨1024#32, 64#32, 0#32, 10#32⟩ [] with ⟨result, hresult⟩
  rw [CheckedCache.simulate_of_ways_eq_zero rfl] at hresult
  exact absurd hresult (by simp)

/-- Constructing a cache and accessing it fails on no division, shift or table access
exactly for at least one way, a block of at least one byte and, once there is an
access, room for a set. -/
theorem simulate_ok_iff (config : CacheConfig) (accesses : List (Word × CacheOperation)) :
    (exists result, CheckedCache.simulate config accesses = .ok result) <->
      config.ways ≠ 0#32 ∧ config.blockSize ≠ 0#32 ∧
        (accesses = [] ∨
          config.ways.toNat * config.blockSize.toNat ≤ config.cacheSize.toNat) := by
  constructor
  · intro h
    rcases h with ⟨result, hresult⟩
    by_cases hways : config.ways = 0#32
    · rw [CheckedCache.simulate_of_ways_eq_zero hways] at hresult
      cases hresult
    by_cases hblockSize : config.blockSize = 0#32
    · rw [CheckedCache.simulate_of_blockSize_eq_zero hways hblockSize] at hresult
      cases hresult
    refine ⟨hways, hblockSize, ?_⟩
    cases accesses with
    | nil =>
        exact Or.inl rfl
    | cons access accesses =>
        apply Or.inr
        rw [← CacheConfig.numSets_pos_iff hways hblockSize]
        by_contra hnumSets
        have hzero : config.numSets = 0#32 :=
          toNat_eq_zero_iff.mp (Nat.lt_one_iff.mp (Nat.lt_of_not_le hnumSets))
        rw [CheckedCache.simulate_of_numSets_eq_zero hways hblockSize hzero] at hresult
        cases hresult
  · intro h
    rcases h with ⟨hways, hblockSize, hroom⟩
    by_cases hnumSets : 1 ≤ config.numSets.toNat
    · rcases CheckedCache.simulate_follows
        { config with
          ways_pos := toNat_pos_iff.mpr hways
          blockSize_pos := toNat_pos_iff.mpr hblockSize
          numSets_pos := hnumSets } accesses with ⟨c, hrun, _⟩
      exact ⟨_, hrun⟩
    · rw [CacheConfig.numSets_pos_iff hways hblockSize] at hnumSets
      rcases hroom with rfl | hroom
      · refine ⟨([], CheckedCache.resized config config.numSets), ?_⟩
        rw [CheckedCache.simulate, CheckedCache.new_eq hways hblockSize]
        rfl
      · exact absurd hroom hnumSets

end PipeSim
