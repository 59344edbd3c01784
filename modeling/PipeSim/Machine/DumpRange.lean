import PipeSim.Machine.MemoryDump

/-!
# Memory dumps of any range

A dump moves through the range entry by entry and stops at the first entry that is not inside
the memory, so it ends for every range, and with an error exactly when there is such an entry.
-/

namespace PipeSim

namespace MemoryStore

/-- Every entry of a range, given by its offsets, is inside the memory. -/
def EntriesInside (m : MemoryStore) (rel relEnd size : Nat) : Prop :=
  forall k, rel + k * size < relEnd -> rel + k * size + size ≤ m.numEntries

section Range

variable {m : MemoryStore} {relEnd entrySize relStart : Word}

theorem at?_eq_none (h : m.numEntries ≤ relStart.toNat) : m.at? relStart = none := by
  unfold at?
  rw [dif_neg (Nat.not_lt_of_le h)]

theorem exists_at? (h : relStart.toNat < m.numEntries) : exists b, m.at? relStart = some b := by
  unfold at?
  rw [dif_pos h]
  exact ⟨_, rfl⟩

theorem printEntry_ok_iff (hm : m.numEntries < 2 ^ 32) (count j : Nat)
    (hj : relStart.toNat + j ≤ m.numEntries) :
    (m.printEntry relStart count j).1 = true <-> relStart.toNat + j + count ≤ m.numEntries := by
  induction count generalizing j with
  | zero =>
      exact iff_of_true rfl hj
  | succ count ih =>
      have hcursor : (relStart + BitVec.ofNat 32 j).toNat = relStart.toNat + j := by
        rw [BitVec.toNat_add, BitVec.toNat_ofNat, Nat.add_mod_mod]
        exact Nat.mod_eq_of_lt (Nat.lt_of_le_of_lt hj hm)
      rcases Nat.lt_or_ge (relStart.toNat + j) m.numEntries with hlt | hge
      · have hbyte : exists b, m.at? (relStart + BitVec.ofNat 32 j) = some b :=
          exists_at? (hcursor.symm ▸ hlt)
        rcases hbyte with ⟨b, hb⟩
        rw [printEntry, hb]
        show (m.printEntry relStart count (j + 1)).1 = true <-> _
        rw [ih (j + 1) (by lia)]
        lia
      · rw [printEntry, at?_eq_none (hcursor.symm ▸ hge)]
        exact iff_of_false Bool.false_ne_true (by lia)

theorem entriesInside_next {rel last size : Nat} (h : rel + size ≤ m.numEntries) :
    m.EntriesInside rel last size <-> m.EntriesInside (rel + size) last size := by
  constructor
  · intro hinside k hk
    have hnext := hinside (k + 1)
    rw [Nat.succ_mul] at hnext
    have hbound := hnext (by lia)
    lia
  · intro hinside k hk
    cases k with
    | zero =>
        rw [Nat.zero_mul]
        exact h
    | succ k =>
        rw [Nat.succ_mul] at hk ⊢
        have hbound := hinside k (by lia)
        lia

theorem entriesInside_of_le {rel last size : Nat} (h : last ≤ rel) :
    m.EntriesInside rel last size :=
  fun _ hk => absurd hk (by lia)

/-- What is known when the loop over a row of `count` entries ends. -/
inductive RowResult (m : MemoryStore) (relEnd entrySize relStart : Word) (count : Nat) :
    RowEnd -> Prop where
  | full (relStart' : Word)
      (hcursor : relStart'.toNat = relStart.toNat + count * entrySize.toNat)
      (hfits : 0 < count -> relStart'.toNat ≤ m.numEntries)
      (hrest : m.EntriesInside relStart.toNat relEnd.toNat entrySize.toNat <->
        m.EntriesInside relStart'.toNat relEnd.toNat entrySize.toNat) :
      RowResult m relEnd entrySize relStart count (.full relStart')
  | returned (hinside : m.EntriesInside relStart.toNat relEnd.toNat entrySize.toNat) :
      RowResult m relEnd entrySize relStart count .returned
  | raised (houtside : ¬ m.EntriesInside relStart.toNat relEnd.toNat entrySize.toNat) :
      RowResult m relEnd entrySize relStart count .raised

theorem printEntry_flag_iff (hm : m.numEntries < 2 ^ 32) (hsize : 0 < entrySize.toNat) :
    (m.printEntry relStart entrySize.toNat 0).1 = true <->
      relStart.toNat + entrySize.toNat ≤ m.numEntries := by
  rcases Nat.lt_or_ge m.numEntries relStart.toNat with hlt | hge
  · cases hcount : entrySize.toNat with
    | zero =>
        lia
    | succ count =>
        have hnone : m.at? (relStart + BitVec.ofNat 32 0) = none := by
          apply at?_eq_none
          rw [BitVec.add_zero]
          exact Nat.le_of_lt hlt
        rw [printEntry, hnone]
        exact iff_of_false Bool.false_ne_true (by lia)
  · exact printEntry_ok_iff hm entrySize.toNat 0 hge

theorem printRow_result (hm : m.numEntries < 2 ^ 32) (hsize : 0 < entrySize.toNat)
    (count : Nat) (relStart : Word) :
    RowResult m relEnd entrySize relStart count (m.printRow relEnd entrySize count relStart).1 := by
  induction count generalizing relStart with
  | zero =>
      refine RowResult.full relStart ?_ ?_ Iff.rfl
      · rw [Nat.zero_mul, Nat.add_zero]
      · intro h
        cases h
  | succ count ih =>
      rw [printRow]
      by_cases hlt : relStart < relEnd
      · rw [if_pos hlt]
        have hflag : (m.printEntry relStart entrySize.toNat 0).1 = true <-> _ :=
          printEntry_flag_iff hm hsize
        cases hentry : m.printEntry relStart entrySize.toNat 0 with
        | mk ok text =>
            rw [hentry] at hflag
            cases ok with
            | false =>
                apply RowResult.raised
                intro hinside
                have hfirst := hinside 0
                rw [Nat.zero_mul, Nat.add_zero] at hfirst
                exact absurd (hflag.mpr (hfirst hlt)) Bool.false_ne_true
            | true =>
                have hfits := hflag.mp rfl
                have hcursor : (relStart + entrySize).toNat =
                    relStart.toNat + entrySize.toNat := by
                  rw [BitVec.toNat_add]
                  exact Nat.mod_eq_of_lt (Nat.lt_of_le_of_lt hfits hm)
                have hnext := ih (relStart + entrySize)
                show RowResult m relEnd entrySize relStart (count + 1)
                  (m.printRow relEnd entrySize count (relStart + entrySize)).1
                cases hrow : (m.printRow relEnd entrySize count (relStart + entrySize)).1 with
                | full relStart' =>
                    rw [hrow] at hnext
                    cases hnext with
                    | full _ hcursor' hfits' hrest =>
                        rw [hcursor] at hcursor' hrest
                        refine RowResult.full relStart' ?_ ?_
                          ((entriesInside_next hfits).trans hrest)
                        · rw [hcursor', Nat.succ_mul]
                          lia
                        · intro _
                          cases count with
                          | zero =>
                              rw [hcursor']
                              lia
                          | succ count =>
                              exact hfits' (Nat.succ_pos count)
                | returned =>
                    rw [hrow] at hnext
                    cases hnext with
                    | returned hinside =>
                        rw [hcursor] at hinside
                        exact RowResult.returned ((entriesInside_next hfits).mpr hinside)
                | raised =>
                    rw [hrow] at hnext
                    cases hnext with
                    | raised houtside =>
                        rw [hcursor] at houtside
                        exact RowResult.raised
                          fun h => houtside ((entriesInside_next hfits).mp h)
      · rw [if_neg hlt]
        exact RowResult.returned (entriesInside_of_le (BitVec.not_lt.mp hlt))

/-- The loop over the rows ends, with an error exactly when an entry is not inside. -/
theorem exists_printRows (hm : m.numEntries < 2 ^ 32) (hsize : 0 < entrySize.toNat)
    {entriesPerRow : Word} (hrow : 0 < entriesPerRow.toNat) {fuel : Nat} (relStart : Word)
    (hfuel : m.numEntries - relStart.toNat < fuel) (curAddr : Word) :
    exists code text,
      m.printRows relEnd entrySize entriesPerRow fuel relStart curAddr = some (code, text) ∧
        (m.EntriesInside relStart.toNat relEnd.toNat entrySize.toNat -> code = 0) ∧
        (¬ m.EntriesInside relStart.toNat relEnd.toNat entrySize.toNat -> code = -EINVAL) := by
  induction fuel generalizing relStart curAddr with
  | zero =>
      cases hfuel
  | succ fuel ih =>
      rw [printRows]
      by_cases hlt : relStart < relEnd
      · rw [if_pos hlt]
        have hresult : RowResult m relEnd entrySize relStart _ _ :=
          printRow_result hm hsize entriesPerRow.toNat relStart
        cases hprint : m.printRow relEnd entrySize entriesPerRow.toNat relStart with
        | mk ending text =>
            rw [hprint] at hresult
            cases hresult with
            | full relStart' hcursor hfits hrest =>
                have hstep : relStart.toNat < relStart'.toNat := by
                  have hpos := Nat.mul_pos hrow hsize
                  lia
                have hle := hfits hrow
                rcases ih relStart' (by lia) (curAddr + entrySize * entriesPerRow) with
                  ⟨code, rest, hrun, hzero, herror⟩
                dsimp only
                rw [hrun]
                exact ⟨code, _, rfl, fun h => hzero (hrest.mp h),
                  fun h => herror fun h' => h (hrest.mpr h')⟩
            | returned hinside =>
                exact ⟨0, _, rfl, fun _ => rfl, fun h => absurd hinside h⟩
            | raised houtside =>
                exact ⟨-EINVAL, _, rfl, fun h => absurd h houtside, fun _ => rfl⟩
      · rw [if_neg hlt]
        exact ⟨0, [], rfl, fun _ => rfl,
          fun h => absurd (entriesInside_of_le (BitVec.not_lt.mp hlt)) h⟩

end Range

end MemoryStore

/-- A dump of any range with entries of a valid size ends.  Its code is zero when every entry
of the range is inside the memory, and that of an error otherwise. -/
theorem printMemArray_total (m : MemoryStore) (hm : m.numEntries < 2 ^ 32)
    (startAddr endAddr entrySize entriesPerRow : Word)
    (hsize : MemoryStore.validSize entrySize = true) (hrow : 1 ≤ entriesPerRow.toNat) :
    exists code text,
      MemoryStore.printMemArray (m.numEntries + 1) m startAddr endAddr entrySize entriesPerRow =
          some (code, text) ∧
        (m.EntriesInside (m.offset startAddr) (m.offset endAddr) entrySize.toNat -> code = 0) ∧
        (¬ m.EntriesInside (m.offset startAddr) (m.offset endAddr) entrySize.toNat ->
          code = -EINVAL) := by
  unfold MemoryStore.printMemArray
  rw [if_pos hsize]
  exact MemoryStore.exists_printRows hm (MemoryStore.validSize_bounds hsize).1 hrow
    (startAddr - m.startAddr) (Nat.lt_succ_of_le (Nat.sub_le _ _)) startAddr

/-- A range whose last word is behind the end of a memory of ten bytes. -/
theorem printMemArray_total_short :
    exists code text,
      MemoryStore.printMemArray 11 (MemoryStore.cleared 0#32 10) 0#32 12#32 wordSize 5#32 =
          some (code, text) ∧ code = -EINVAL := by
  rcases printMemArray_total (MemoryStore.cleared 0#32 10) (by decide) 0#32 12#32 wordSize 5#32
    (by decide) (by decide) with ⟨code, text, hrun, _, herror⟩
  exact ⟨code, text, hrun, herror fun h => absurd (h 2 (by decide)) (by decide)⟩

end PipeSim
