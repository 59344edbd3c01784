import PipeSim.Cache.Model
import PipeSim.Library.Lru

/-!
# A cache row is a recency list

The ages of a row order its valid ways by their last use.  `Represents` says which
list of tags a row stands for, and an access turns out to look its tag up in that
list and to touch it there.
-/

namespace PipeSim

open Library

namespace CacheSet

def age (row : CacheSet) (i : Nat) : Nat := (row.order i).toNat

/-- The row holds the tags of `l`, the most recently used one first: the valid ways are
the first `l.length` ones, and way `i` holds the tag at the position its age tells. -/
structure Represents (row : CacheSet) (ways : Nat) (l : List Word) : Prop where
  nodup : l.Nodup
  length_le : l.length ≤ ways
  valid : forall i, i < ways -> row.valid i = decide (i < l.length)
  placed : forall i, i < l.length ->
    1 ≤ row.age i ∧ l[row.age i - 1]? = some (row.tags i)
  held : forall t, t ∈ l -> exists i, i < l.length ∧ row.tags i = t
  injective : forall i j, i < l.length -> j < l.length -> row.tags i = row.tags j -> i = j

theorem represents_empty (ways : Nat) : Represents CacheSet.empty ways [] where
  nodup := List.nodup_nil
  length_le := Nat.zero_le ways
  valid := by
    intro i _
    rfl
  placed := by
    intro i hi
    cases hi
  held := by
    intro t ht
    cases ht
  injective := by
    intro i j hi
    cases hi

section Represents

variable {row : CacheSet} {ways : Nat} {l : List Word}

theorem Represents.tags_mem (h : Represents row ways l) {i : Nat} (hi : i < l.length) :
    row.tags i ∈ l :=
  List.mem_of_getElem? (h.placed i hi).2

theorem Represents.age_le (h : Represents row ways l) {i : Nat} (hi : i < l.length) :
    row.age i ≤ l.length := by
  rcases h.placed i hi with ⟨_, hget⟩
  have hlt := (List.getElem?_eq_some_iff.mp hget).1
  lia

theorem Represents.age_injective (h : Represents row ways l) {i j : Nat}
    (hi : i < l.length) (hj : j < l.length) (hage : row.age i = row.age j) : i = j := by
  apply h.injective i j hi hj
  have hgeti := (h.placed i hi).2
  rw [hage, (h.placed j hj).2] at hgeti
  exact (Option.some.inj hgeti).symm

theorem Represents.holds_iff (h : Represents row ways l) {i : Nat} (hi : i < ways)
    {tag : Word} : row.holds tag i = true <-> i < l.length ∧ row.tags i = tag := by
  unfold holds
  rw [h.valid i hi, Bool.and_eq_true, decide_eq_true_iff, beq_iff_eq]

end Represents

/-!
## The hit loop
-/

theorem promote_eq (row : CacheSet) (ways i : Nat) :
    row.promote ways i =
      { row with
        order := fun j =>
          if j = i then 1#32
          else if j < ways ∧ row.valid j = true ∧ row.order j < row.order i then
            row.order j + 1#32
          else row.order j } := by
  have hloop : forLoop ways (fun j (row : CacheSet) =>
      if row.valid j && row.order j < row.order i then
        row.setOrder j (row.order j + 1#32)
      else row) row =
      { row with
        order := fun j =>
          if j < ways ∧ row.valid j = true ∧ row.order j < row.order i then
            row.order j + 1#32
          else row.order j } := by
    apply forLoop_induction (fun (k : Nat) (t : CacheSet) => t =
      { row with
        order := fun j =>
          if j < k ∧ row.valid j = true ∧ row.order j < row.order i then
            row.order j + 1#32
          else row.order j })
    · simp
    · intro k t _ heq
      subst heq
      have hself : ¬ (i < k ∧ row.valid i = true ∧ row.order i < row.order i) :=
        fun h => BitVec.lt_irrefl _ h.2.2
      simp only [Nat.lt_irrefl, false_and, if_false, hself]
      by_cases hyoung : row.valid k = true ∧ row.order k < row.order i
      · rw [if_pos (by simpa using hyoung)]
        unfold setOrder
        congr 1
        funext j
        by_cases hjk : j = k
        · subst hjk
          simp [hyoung]
        · have hlt : j < k + 1 <-> j < k := by lia
          simp [Function.update_of_ne hjk, hlt]
      · rw [if_neg (by simpa using hyoung)]
        congr 1
        funext j
        by_cases hjk : j = k
        · subst hjk
          simp [hyoung]
        · have hlt : j < k + 1 <-> j < k := by lia
          simp [hlt]
  unfold promote
  dsimp only
  rw [hloop]
  unfold setOrder
  congr 1
  funext j
  by_cases hji : j = i
  · subst hji
    simp
  · simp [hji]

theorem hitLoop_of_miss {row : CacheSet} {ways : Nat} {tag : Word}
    (h : forall i, i < ways -> row.holds tag i = false) :
    row.hitLoop ways tag = (false, row) := by
  unfold hitLoop
  apply forLoop_induction (fun (_ : Nat) (t : Bool × CacheSet) => t = (false, row))
  · rfl
  · intro k t hk heq
    subst heq
    dsimp only
    rw [if_neg (by rw [h k hk]; decide)]

theorem hitLoop_of_hit {row : CacheSet} {ways : Nat} {tag : Word} {i : Nat}
    (hi : i < ways) (hhit : row.holds tag i = true)
    (hunique : forall j, j < ways -> row.holds tag j = true -> j = i) :
    row.hitLoop ways tag = (true, row.promote ways i) := by
  have hpromoted : forall j, (row.promote ways i).holds tag j = row.holds tag j := by
    intro j
    rw [promote_eq]
    rfl
  unfold hitLoop
  have hloop := @forLoop_induction _ ways
    (fun k (state : Bool × CacheSet) =>
      if state.2.holds tag k then (true, state.2.promote ways k) else state)
    (false, row)
    (fun k t => t = if i < k then (true, row.promote ways i) else (false, row))
    (by rw [if_neg (Nat.not_lt_zero i)])
    (by
      intro k t hk heq
      subst heq
      by_cases hik : i < k
      · rw [if_pos hik, if_pos (Nat.lt_succ_of_lt hik)]
        have hmiss : ¬ (row.promote ways i).holds tag k = true := by
          rw [hpromoted]
          intro hholds
          have heq := hunique k hk hholds
          lia
        exact if_neg hmiss
      · rw [if_neg hik]
        by_cases hki : k = i
        · subst hki
          rw [if_pos (Nat.lt_succ_self k)]
          exact if_pos hhit
        · rw [if_neg (show ¬ i < k + 1 by lia)]
          exact if_neg fun hholds => hki (hunique k hk hholds))
  rw [if_pos hi] at hloop
  exact hloop

/-!
## The loops of a miss
-/

theorem ageValid_eq (row : CacheSet) (ways : Nat) :
    row.ageValid ways =
      { row with
        order := fun j =>
          if j < ways ∧ row.valid j = true then row.order j + 1#32 else row.order j } := by
  unfold ageValid
  apply forLoop_induction (fun (k : Nat) (t : CacheSet) => t =
    { row with
      order := fun j =>
        if j < k ∧ row.valid j = true then row.order j + 1#32 else row.order j })
  · simp
  · intro k t _ heq
    subst heq
    dsimp only
    by_cases hvalid : row.valid k = true
    · rw [if_pos hvalid]
      unfold setOrder
      congr 1
      funext j
      by_cases hjk : j = k
      · subst hjk
        simp [hvalid]
      · have hlt : j < k + 1 <-> j < k := by lia
        simp [Function.update_of_ne hjk, hlt]
    · rw [if_neg hvalid]
      congr 1
      funext j
      by_cases hjk : j = k
      · subst hjk
        simp [hvalid]
      · have hlt : j < k + 1 <-> j < k := by lia
        simp [hlt]

theorem replaceOldest_eq (row : CacheSet) (ways : Word) (tag : Word) :
    row.replaceOldest ways tag =
      { row with
        tags := fun j =>
          if j < ways.toNat ∧ row.order j = ways then tag else row.tags j } := by
  unfold replaceOldest
  apply forLoop_induction (fun (k : Nat) (t : CacheSet) => t =
    { row with
      tags := fun j => if j < k ∧ row.order j = ways then tag else row.tags j })
  · simp
  · intro k t _ heq
    subst heq
    dsimp only
    by_cases holdest : row.order k = ways
    · rw [if_pos (beq_iff_eq.mpr holdest)]
      unfold setTag
      congr 1
      funext j
      by_cases hjk : j = k
      · subst hjk
        simp [holdest]
      · have hlt : j < k + 1 <-> j < k := by lia
        simp [Function.update_of_ne hjk, hlt]
    · rw [if_neg fun h => holdest (beq_iff_eq.mp h)]
      congr 1
      funext j
      by_cases hjk : j = k
      · subst hjk
        simp [holdest]
      · have hlt : j < k + 1 <-> j < k := by lia
        simp [hlt]

theorem rotate_eq (row : CacheSet) (ways : Word) :
    row.rotate ways =
      { row with
        order := fun j =>
          if j < ways.toNat then row.order j % ways + 1#32 else row.order j } := by
  unfold rotate
  apply forLoop_induction (fun (k : Nat) (t : CacheSet) => t =
    { row with
      order := fun j => if j < k then row.order j % ways + 1#32 else row.order j })
  · simp
  · intro k t _ heq
    subst heq
    dsimp only
    unfold setOrder
    congr 1
    funext j
    by_cases hjk : j = k
    · subst hjk
      simp
    · have hlt : j < k + 1 <-> j < k := by lia
      simp [Function.update_of_ne hjk, hlt]

section Represents

variable {row : CacheSet} {l : List Word}

theorem Represents.toNat_numValid {ways : Word} (h : Represents row ways.toNat l) :
    (row.numValid ways.toNat).toNat = l.length := by
  have hloop := @forLoop_induction _ ways.toNat
    (fun i (numValid : Word) => if row.valid i then numValid + 1#32 else numValid) 0#32
    (fun k n => n.toNat = min k l.length)
    (by simp)
    (by
      intro k n hk hn
      have hlt := ways.isLt
      have hle := h.length_le
      rw [h.valid k hk]
      by_cases hkl : k < l.length
      · rw [if_pos (by simpa using hkl), BitVec.toNat_add, hn]
        change (min k l.length + 1) % 2 ^ 32 = _
        rw [Nat.mod_eq_of_lt (by lia)]
        lia
      · rw [if_neg (by simpa using hkl), hn]
        lia)
  have hle := h.length_le
  rw [Nat.min_eq_right hle] at hloop
  exact hloop

theorem Represents.find?_invalid {ways : Nat} (h : Represents row ways l)
    (hroom : l.length < ways) :
    ((List.range ways).find? fun i => !row.valid i) = some l.length := by
  rw [List.find?_range_eq_some]
  refine ⟨?_, ?_, ?_⟩
  · rw [h.valid _ hroom]
    simp
  · exact List.mem_range.mpr hroom
  · intro j hj
    rw [h.valid j (Nat.lt_trans hj hroom)]
    simpa using hj

/-!
## An access touches the list
-/

theorem toNat_add_one {w : Word} {n : Nat} (hw : w.toNat < n) (hn : n < 2 ^ 32) :
    (w + 1#32).toNat = w.toNat + 1 := by
  rw [BitVec.toNat_add]
  change (w.toNat + 1) % 2 ^ 32 = _
  rw [Nat.mod_eq_of_lt (by lia)]

theorem age_promote {ways i j : Nat} (hways : ways < 2 ^ 32)
    (h : Represents row ways l) (hi : i < l.length) (hj : j < l.length) :
    (row.promote ways i).age j =
      if j = i then 1
      else if row.age j < row.age i then row.age j + 1
      else row.age j := by
  have hjways : j < ways := Nat.lt_of_lt_of_le hj h.length_le
  have hvalid : row.valid j = true := by
    rw [h.valid j hjways]
    simpa using hj
  rw [promote_eq]
  unfold age
  dsimp only
  by_cases hji : j = i
  · rw [if_pos hji, if_pos hji]
    rfl
  · rw [if_neg hji, if_neg hji]
    by_cases hyoung : row.order j < row.order i
    · rw [if_pos ⟨hjways, hvalid, hyoung⟩,
        if_pos (show (row.order j).toNat < (row.order i).toNat from hyoung)]
      have hage := h.age_le hi
      have hle := h.length_le
      exact toNat_add_one (n := ways) (Nat.lt_of_lt_of_le hyoung (Nat.le_trans hage hle)) hways
    · rw [if_neg fun hall => hyoung hall.2.2,
        if_neg (show ¬ (row.order j).toNat < (row.order i).toNat from hyoung)]

theorem Represents.promote {ways i : Nat} (hways : ways < 2 ^ 32)
    (h : Represents row ways l) (hi : i < l.length) :
    Represents (row.promote ways i) ways (Lru.touch ways l (row.tags i)) := by
  have hmem : row.tags i ∈ l := h.tags_mem hi
  have hlength : (Lru.refresh l (row.tags i)).length = l.length := by
    unfold Lru.refresh
    rw [List.length_cons, List.length_erase_of_mem hmem]
    lia
  have htouch : Lru.touch ways l (row.tags i) = Lru.refresh l (row.tags i) := by
    unfold Lru.touch
    apply List.take_of_length_le
    rw [hlength]
    exact h.length_le
  have htags : (row.promote ways i).tags = row.tags := by
    rw [promote_eq]
  have hvalid : (row.promote ways i).valid = row.valid := by
    rw [promote_eq]
  rcases h.placed i hi with ⟨hipos, higet⟩
  have hierase : l.erase (row.tags i) = l.eraseIdx (row.age i - 1) := by
    rcases List.getElem?_eq_some_iff.mp higet with ⟨hlt, heq⟩
    rw [← heq]
    exact h.nodup.erase_getElem _ hlt
  rw [htouch]
  refine ⟨Lru.nodup_refresh h.nodup _, by rw [hlength]; exact h.length_le, ?_, ?_, ?_, ?_⟩
  · rw [hvalid, hlength]
    exact h.valid
  · intro j hj
    rw [hlength] at hj
    rcases h.placed j hj with ⟨hjpos, hjget⟩
    rw [htags, age_promote hways h hi hj]
    unfold Lru.refresh
    by_cases hji : j = i
    · subst hji
      rw [if_pos rfl]
      exact ⟨Nat.le_refl 1, rfl⟩
    · rw [if_neg hji]
      have hne : row.age j ≠ row.age i := fun heq => hji (h.age_injective hj hi heq)
      by_cases hyoung : row.age j < row.age i
      · rw [if_pos hyoung]
        refine ⟨by lia, ?_⟩
        have hindex : row.age j + 1 - 1 = (row.age j - 1) + 1 := by lia
        rw [hindex, List.getElem?_cons_succ, hierase, List.getElem?_eraseIdx,
          if_pos (by lia), hjget]
      · rw [if_neg hyoung]
        refine ⟨hjpos, ?_⟩
        have hindex : row.age j - 1 = (row.age j - 2) + 1 := by lia
        rw [hindex, List.getElem?_cons_succ, hierase, List.getElem?_eraseIdx,
          if_neg (by lia), ← hindex, hjget]
  · intro t ht
    rw [htags, hlength]
    rcases Lru.mem_refresh.mp ht with rfl | hold
    · exact ⟨i, hi, rfl⟩
    · exact h.held t hold
  · rw [htags, hlength]
    exact h.injective

theorem injective_of_replaced {tags tags' : Nat -> Word} {tag : Word} {n o : Nat}
    (hnew : tag ∉ l) (hold : forall j, j < n -> j ≠ o -> tags j ∈ l)
    (htags : forall j, j < n -> tags' j = if j = o then tag else tags j)
    (hinj : forall i j, i < n -> j < n -> i ≠ o -> j ≠ o -> tags i = tags j -> i = j) :
    forall i j, i < n -> j < n -> tags' i = tags' j -> i = j := by
  intro i j hi hj heq
  rw [htags i hi, htags j hj] at heq
  by_cases hio : i = o
  · by_cases hjo : j = o
    · rw [hio, hjo]
    · rw [if_pos hio, if_neg hjo] at heq
      rw [heq] at hnew
      exact absurd (hold j hj hjo) hnew
  · by_cases hjo : j = o
    · rw [if_neg hio, if_pos hjo] at heq
      rw [← heq] at hnew
      exact absurd (hold i hi hio) hnew
    · rw [if_neg hio, if_neg hjo] at heq
      exact hinj i j hi hj hio hjo heq

theorem Represents.fill {ways : Nat} (hways : ways < 2 ^ 32) (h : Represents row ways l)
    (hroom : l.length < ways) {tag : Word} (hnew : tag ∉ l) :
    Represents ((row.ageValid ways).fillInvalid ways tag) ways (Lru.touch ways l tag) := by
  have htouch : Lru.touch ways l tag = tag :: l := by
    rw [Lru.touch_of_not_mem hnew]
    exact List.take_of_length_le hroom
  have hfind := h.find?_invalid hroom
  have hfill : (row.ageValid ways).fillInvalid ways tag =
      { tags := Function.update row.tags l.length tag
        order := Function.update (fun j =>
          if j < ways ∧ row.valid j = true then row.order j + 1#32 else row.order j)
          l.length 1#32
        valid := Function.update row.valid l.length true } := by
    rw [ageValid_eq]
    unfold fillInvalid
    dsimp only
    rw [hfind]
    rfl
  rw [htouch, hfill]
  have hold : forall j, j < l.length -> j < ways ∧ row.valid j = true := by
    intro j hj
    have hjways := Nat.lt_of_lt_of_le hj h.length_le
    refine ⟨hjways, ?_⟩
    rw [h.valid j hjways]
    simpa using hj
  refine ⟨?_, hroom, ?_, ?_, ?_, ?_⟩
  · rw [List.nodup_cons]
    exact ⟨hnew, h.nodup⟩
  · intro j hj
    rw [List.length_cons]
    dsimp only
    by_cases hjl : j = l.length
    · subst hjl
      simp
    · rw [Function.update_of_ne hjl, h.valid j hj]
      have hiff : j < l.length <-> j < l.length + 1 := by lia
      simp [hiff]
  · intro j hj
    rw [List.length_cons] at hj
    unfold age
    dsimp only
    by_cases hjl : j = l.length
    · subst hjl
      rw [Function.update_self, Function.update_self]
      exact ⟨Nat.le_refl 1, rfl⟩
    · have hlt : j < l.length := by lia
      rw [Function.update_of_ne hjl, Function.update_of_ne hjl, if_pos (hold j hlt)]
      rcases h.placed j hlt with ⟨hpos, hget⟩
      have hage := h.age_le hlt
      rw [toNat_add_one (n := ways) (Nat.lt_of_le_of_lt hage hroom) hways]
      refine ⟨by lia, ?_⟩
      have hindex : (row.order j).toNat + 1 - 1 = ((row.order j).toNat - 1) + 1 := by
        change 1 ≤ (row.order j).toNat at hpos
        lia
      rw [hindex, List.getElem?_cons_succ]
      exact hget
  · intro t ht
    rw [List.length_cons]
    dsimp only
    rcases List.mem_cons.mp ht with rfl | ht
    · exact ⟨l.length, Nat.lt_succ_self _, Function.update_self _ _ _⟩
    · rcases h.held t ht with ⟨i, hi, htag⟩
      exact ⟨i, Nat.lt_succ_of_lt hi, by rw [Function.update_of_ne (by lia), htag]⟩
  · rw [List.length_cons]
    refine injective_of_replaced hnew ?_ (fun j hj => Function.update_apply _ _ _ j) ?_
    · intro j hj hne
      exact h.tags_mem (by lia)
    · intro i j hi hj hil hjl
      exact h.injective i j (by lia) (by lia)

theorem Represents.exists_oldest {ways : Nat} (h : Represents row ways l)
    (hways : 1 ≤ ways) (hfull : l.length = ways) :
    exists i, i < l.length ∧ row.age i = ways ∧ l[ways - 1]? = some (row.tags i) := by
  have hlt : ways - 1 < l.length := by lia
  rcases h.held _ (List.getElem_mem hlt) with ⟨i, hi, htag⟩
  have hget : l[ways - 1]? = some (row.tags i) := by
    rw [htag]
    exact List.getElem?_eq_getElem hlt
  rcases h.placed i hi with ⟨hpos, hplaced⟩
  have hindex : row.age i - 1 = ways - 1 :=
    (List.getElem?_inj (List.getElem?_eq_some_iff.mp hplaced).1 h.nodup).mp
      (hplaced.trans hget.symm)
  exact ⟨i, hi, by lia, hget⟩

section Evict

variable {ways : Word} {oldest : Nat}

theorem Represents.age_eq_iff (h : Represents row ways.toNat l) (holdest : oldest < l.length)
    (hage : row.age oldest = ways.toNat) {j : Nat} (hj : j < l.length) :
    row.order j = ways <-> j = oldest := by
  constructor
  · intro heq
    exact h.age_injective hj holdest ((congrArg BitVec.toNat heq).trans hage.symm)
  · intro heq
    subst heq
    exact BitVec.eq_of_toNat_eq hage

theorem evict_eq (row : CacheSet) (ways tag : Word) :
    (row.replaceOldest ways tag).rotate ways =
      { tags := fun j => if j < ways.toNat ∧ row.order j = ways then tag else row.tags j
        order := fun j => if j < ways.toNat then row.order j % ways + 1#32 else row.order j
        valid := row.valid } := by
  rw [replaceOldest_eq, rotate_eq]

theorem Represents.tags_evict (h : Represents row ways.toNat l) (holdest : oldest < l.length)
    (hage : row.age oldest = ways.toNat) (tag : Word) {j : Nat} (hj : j < l.length) :
    ((row.replaceOldest ways tag).rotate ways).tags j =
      if j = oldest then tag else row.tags j := by
  have hjways : j < ways.toNat := Nat.lt_of_lt_of_le hj h.length_le
  rw [evict_eq]
  dsimp only
  simp only [hjways, true_and, h.age_eq_iff holdest hage hj]

theorem Represents.age_evict (h : Represents row ways.toNat l) (holdest : oldest < l.length)
    (hage : row.age oldest = ways.toNat) (tag : Word) {j : Nat} (hj : j < l.length) :
    ((row.replaceOldest ways tag).rotate ways).age j =
      if j = oldest then 1 else row.age j + 1 := by
  have hjways : j < ways.toNat := Nat.lt_of_lt_of_le hj h.length_le
  rw [evict_eq]
  unfold age
  dsimp only
  rw [if_pos hjways]
  by_cases hjo : j = oldest
  · rw [if_pos hjo, (h.age_eq_iff holdest hage hj).mpr hjo, BitVec.umod_self]
    rfl
  · have hne : row.order j ≠ ways := fun heq => hjo ((h.age_eq_iff holdest hage hj).mp heq)
    have hle : (row.order j).toNat ≤ ways.toNat := Nat.le_trans (h.age_le hj) h.length_le
    have hlt : (row.order j).toNat < ways.toNat :=
      Nat.lt_of_le_of_ne hle fun heq => hne (BitVec.eq_of_toNat_eq heq)
    rw [if_neg hjo, BitVec.umod_eq_of_lt (BitVec.lt_def.mpr hlt)]
    exact toNat_add_one hlt ways.isLt

theorem Represents.evict (hpos : 1 ≤ ways.toNat) (h : Represents row ways.toNat l)
    (hfull : l.length = ways.toNat) {tag : Word} (hnew : tag ∉ l) :
    Represents ((row.replaceOldest ways tag).rotate ways) ways.toNat
      (Lru.touch ways.toNat l tag) := by
  rcases h.exists_oldest hpos hfull with ⟨oldest, holdest, hage, hlast⟩
  have htouch : Lru.touch ways.toNat l tag = tag :: l.take (ways.toNat - 1) := by
    have hsucc : ways.toNat = (ways.toNat - 1) + 1 := by lia
    rw [Lru.touch_of_not_mem hnew, hsucc, List.take_succ_cons]
    rfl
  have hlength : (Lru.touch ways.toNat l tag).length = l.length := by
    rw [htouch, List.length_cons, List.length_take]
    lia
  have htags := fun j (hj : j < l.length) => h.tags_evict holdest hage tag hj
  have hages := fun j (hj : j < l.length) => h.age_evict holdest hage tag hj
  have hvalid : ((row.replaceOldest ways tag).rotate ways).valid = row.valid := by
    rw [evict_eq]
  have hdropped : row.tags oldest ∉ l.take (ways.toNat - 1) := by
    intro hmem
    rcases List.getElem?_eq_some_iff.mp hlast with ⟨hlt, heq⟩
    have hdrop : row.tags oldest ∈ l.drop (ways.toNat - 1) := by
      rw [List.drop_eq_getElem_cons hlt, heq]
      exact List.mem_cons_self
    exact List.disjoint_take_drop h.nodup (Nat.le_refl _) hmem hdrop
  refine ⟨?_, ?_, ?_, ?_, ?_, ?_⟩
  · rw [htouch, List.nodup_cons]
    exact ⟨fun hin => hnew (List.mem_of_mem_take hin),
      h.nodup.sublist (List.take_sublist _ _)⟩
  · rw [hlength]
    exact h.length_le
  · rw [hvalid, hlength]
    exact h.valid
  · rw [hlength, htouch]
    intro j hj
    rw [htags j hj, hages j hj]
    by_cases hjo : j = oldest
    · rw [if_pos hjo, if_pos hjo]
      exact ⟨Nat.le_refl 1, rfl⟩
    · rw [if_neg hjo, if_neg hjo]
      rcases h.placed j hj with ⟨hjpos, hjget⟩
      have hle := h.age_le hj
      have hne : row.age j ≠ ways.toNat := fun heq =>
        hjo (h.age_injective hj holdest (heq.trans hage.symm))
      refine ⟨by lia, ?_⟩
      have hindex : row.age j + 1 - 1 = (row.age j - 1) + 1 := by lia
      rw [hindex, List.getElem?_cons_succ, List.getElem?_take_of_lt (by lia), hjget]
  · rw [hlength, htouch]
    intro u hu
    rcases List.mem_cons.mp hu with rfl | hu
    · exact ⟨oldest, holdest, by rw [htags oldest holdest, if_pos rfl]⟩
    · rcases h.held u (List.mem_of_mem_take hu) with ⟨i, hi, rfl⟩
      refine ⟨i, hi, ?_⟩
      rw [htags i hi, if_neg]
      intro heq
      subst heq
      exact hdropped hu
  · rw [hlength]
    exact injective_of_replaced hnew (fun j hj _ => h.tags_mem hj) htags
      fun i j hi hj _ _ => h.injective i j hi hj

end Evict

theorem Represents.hitLoop_of_not_mem {ways : Nat} (h : Represents row ways l) {tag : Word}
    (hmem : tag ∉ l) : row.hitLoop ways tag = (false, row) := by
  refine hitLoop_of_miss ?_
  intro i hi
  apply Bool.eq_false_iff.mpr
  intro hholds
  rcases (h.holds_iff hi).mp hholds with ⟨hil, rfl⟩
  exact hmem (h.tags_mem hil)

theorem Represents.access_of_room {ways : Word} (h : Represents row ways.toNat l)
    (hroom : l.length < ways.toNat) {tag : Word} (hmem : tag ∉ l) :
    row.access ways tag = (false, (row.ageValid ways.toNat).fillInvalid ways.toNat tag) := by
  have hlt : row.numValid ways.toNat < ways := by
    rw [BitVec.lt_def, h.toNat_numValid]
    exact hroom
  unfold CacheSet.access
  dsimp only
  rw [h.hitLoop_of_not_mem hmem, if_neg Bool.false_ne_true, if_pos hlt]

theorem Represents.access_of_full {ways : Word} (h : Represents row ways.toNat l)
    (hfull : l.length = ways.toNat) {tag : Word} (hmem : tag ∉ l) :
    row.access ways tag = (false, (row.replaceOldest ways tag).rotate ways) := by
  have hroom : ¬ row.numValid ways.toNat < ways := by
    rw [BitVec.lt_def, h.toNat_numValid, hfull]
    exact Nat.lt_irrefl _
  unfold CacheSet.access
  dsimp only
  rw [h.hitLoop_of_not_mem hmem, if_neg Bool.false_ne_true, if_neg hroom]

/-- An access hits exactly when its tag is in the list, and it touches the tag there. -/
theorem Represents.access {ways : Word} (hpos : 1 ≤ ways.toNat)
    (h : Represents row ways.toNat l) (tag : Word) :
    (row.access ways tag).1 = decide (tag ∈ l) ∧
      Represents (row.access ways tag).2 ways.toNat (Lru.touch ways.toNat l tag) := by
  by_cases hmem : tag ∈ l
  · rcases h.held tag hmem with ⟨i, hi, rfl⟩
    have hiways : i < ways.toNat := Nat.lt_of_lt_of_le hi h.length_le
    have hhit := (h.holds_iff hiways).mpr ⟨hi, rfl⟩
    unfold CacheSet.access
    dsimp only
    rw [hitLoop_of_hit hiways hhit]
    · rw [if_pos rfl]
      exact ⟨(decide_eq_true hmem).symm, h.promote ways.isLt hi⟩
    · intro j hj hholds
      rcases (h.holds_iff hj).mp hholds with ⟨hjl, htag⟩
      exact h.injective j i hjl hi htag
  · by_cases hfull : l.length = ways.toNat
    · rw [h.access_of_full hfull hmem]
      exact ⟨(decide_eq_false hmem).symm, h.evict hpos hfull hmem⟩
    · have hlt : l.length < ways.toNat := Nat.lt_of_le_of_ne h.length_le hfull
      rw [h.access_of_room hlt hmem]
      exact ⟨(decide_eq_false hmem).symm, h.fill ways.isLt hlt hmem⟩

end Represents

end CacheSet
end PipeSim
