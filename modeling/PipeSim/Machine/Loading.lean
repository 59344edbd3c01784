import PipeSim.Library.Loop
import PipeSim.Machine.WriteHistory

/-!
# Loading a program

`loadFromFile` hands the bytes of a file to `setMemValue` at the addresses from 0 on,
whatever the base address of the memory, and does not look at the return codes.  The
length of the file passes through a signed 32-bit variable.
-/

namespace PipeSim

open Library

namespace MemoryStore

def loadBytes (buf : List Byte) (memLength : Nat) (m : MemoryStore) : MemoryStore :=
  forLoop memLength (fun i m => (m.setMemValue (BitVec.ofNat 32 i * byteSize)
    ((buf.getD i 0#8).signExtend 32) byteSize).2) m

/-- `loadFromFile` on the bytes of the file, `none` when it cannot be opened.  There is no
result when the length comes out negative: the allocation of the buffer throws. -/
def loadFromFile (m : MemoryStore) (file : Option (List Byte)) :
    Option (Status × MemoryStore) :=
  match file with
  | none => some (.error, m)
  | some buf =>
      let length := (BitVec.ofNat 32 buf.length).toInt
      if length < 0 then none
      else
        let memLength := length.toNat
        some (.success, loadBytes buf memLength m)

/-- The memory `m'` is `m` with the bytes of a file from its base address on. -/
def Holds (m m' : MemoryStore) (buf : List Byte) : Prop :=
  forall address, m'.contents address =
    if m.offset address < buf.length then some (buf.getD (m.offset address) 0#8).toNat
    else m.contents address

/-- Loading is complete or reported. -/
def LoadsExactly (m : MemoryStore) (buf : List Byte) : Prop :=
  (forall m', m.loadFromFile (some buf) = some (.success, m') -> m.Holds m' buf) ∧
    (m.numEntries < buf.length -> exists m', m.loadFromFile (some buf) = some (.error, m'))

/-- The byte at an offset when the file lies over the memory from `shift` bytes ahead of its
base on. -/
def overlaid (m : MemoryStore) (buf : List Byte) (shift rel : Nat) : Nat :=
  if (rel + shift) % 2 ^ 32 < buf.length then (buf.getD ((rel + shift) % 2 ^ 32) 0#8).toNat
  else m.byteAt rel

section Loading

variable {m : MemoryStore} {buf : List Byte}

theorem toNat_signExtend_mod (b : Byte) : (b.signExtend 32).toNat % 256 = b.toNat := by
  revert b
  decide

theorem contents_setMemValue_byte (hm : m.numEntries < 2 ^ 32) (address value b : Word) :
    (m.setMemValue address value byteSize).2.contents b =
      if b = address ∧ m.offset address < m.numEntries then some (value.toNat % 256)
      else m.contents b := by
  by_cases hin : m.offset address < m.numEntries
  · have hcode : (m.setMemValue address value byteSize).1 = 0 := by
      rw [setMemValue_code hm, accessCode_eq_zero_iff]
      exact ⟨rfl, hin⟩
    rw [contents_setMemValue hm hcode]
    by_cases hb : b = address
    · subst hb
      rw [BitVec.sub_self, if_pos (by decide), if_pos ⟨rfl, hin⟩]
      unfold BigEndian.digit
      rw [BitVec.toNat_ofNat, Nat.zero_mod]
      change some (value.toNat / 256 ^ 0 % 256) = _
      rw [Nat.pow_zero, Nat.div_one]
    · have hdistance : ¬ (b - address).toNat < byteSize.toNat := by
        intro hlt
        apply hb
        have hzero : (b - address).toNat = 0 := Nat.lt_one_iff.mp hlt
        bv_omega
      rw [if_neg hdistance, if_neg fun h => hb h.1]
  · have hnone : m.fittingAt address byteSize = 0 := by
      unfold fittingAt fitting
      lia
    rw [setMemValue_eq hm rfl, hnone, poke_zero, if_neg fun h => hin h.2]

theorem contents_loadBytes (buf : List Byte) (hm : m.numEntries < 2 ^ 32) {memLength : Nat}
    (hlength : memLength < 2 ^ 32) (address : Word) :
    (loadBytes buf memLength m).contents address =
      if address.toNat < memLength ∧ m.offset address < m.numEntries then
        some (buf.getD address.toNat 0#8).toNat
      else m.contents address := by
  refine (forLoop_induction (fun k (t : MemoryStore) =>
    (t.startAddr = m.startAddr ∧ t.numEntries = m.numEntries) ∧
      t.contents address =
        if address.toNat < k ∧ m.offset address < m.numEntries then
          some (buf.getD address.toNat 0#8).toNat
        else m.contents address) ?_ ?_).2
  · refine ⟨⟨rfl, rfl⟩, ?_⟩
    rw [if_neg fun h => absurd h.1 (Nat.not_lt_zero _)]
  · intro i t hi hinv
    rcases hinv with ⟨⟨hstart, hentries⟩, hcontents⟩
    have ht : t.numEntries < 2 ^ 32 := by
      rw [hentries]
      exact hm
    have haddress : BitVec.ofNat 32 i * byteSize = BitVec.ofNat 32 i := BitVec.mul_one _
    have hnat : (BitVec.ofNat 32 i).toNat = i := by
      rw [BitVec.toNat_ofNat]
      exact Nat.mod_eq_of_lt (Nat.lt_trans hi hlength)
    refine ⟨⟨(setMemValue_startAddr ht _ _ _).trans hstart,
      (setMemValue_numEntries ht _ _ _).trans hentries⟩, ?_⟩
    rw [haddress, contents_setMemValue_byte ht, hcontents, toNat_signExtend_mod]
    have hoffset : t.offset (BitVec.ofNat 32 i) = m.offset (BitVec.ofNat 32 i) := by
      unfold offset
      rw [hstart]
    rw [hoffset, hentries]
    by_cases heq : address = BitVec.ofNat 32 i
    · subst heq
      rw [hnat]
      by_cases hin : m.offset (BitVec.ofNat 32 i) < m.numEntries
      · rw [if_pos ⟨rfl, hin⟩, if_pos ⟨Nat.lt_succ_self i, hin⟩]
      · rw [if_neg fun h => hin h.2, if_neg fun h => hin h.2, if_neg fun h => hin h.2]
    · have hne : address.toNat ≠ i := by
        intro h
        apply heq
        apply BitVec.eq_of_toNat_eq
        rw [hnat, h]
      rw [if_neg fun h => heq h.1]
      have hiff : address.toNat < i <-> address.toNat < i + 1 := by
        lia
      exact if_congr (and_congr_left fun _ => hiff) rfl rfl

theorem toNat_eq_offset (m : MemoryStore) (address : Word) :
    address.toNat = (m.offset address + m.startAddr.toNat) % 2 ^ 32 := by
  unfold offset
  rw [← BitVec.toNat_add, BitVec.sub_add_cancel]

theorem contents_eq_overlaid (buf : List Byte) {address : Word}
    (hin : m.offset address < m.numEntries) :
    (if address.toNat < buf.length ∧ m.offset address < m.numEntries then
          some (buf.getD address.toNat 0#8).toNat
        else m.contents address) =
        some (m.overlaid buf m.startAddr.toNat (m.offset address)) ∧
      (if m.offset address < buf.length then some (buf.getD (m.offset address) 0#8).toNat
        else m.contents address) = some (m.overlaid buf 0 (m.offset address)) := by
  have hcontents : m.contents address = some (m.byteAt (m.offset address)) := if_pos hin
  have hrel : (m.offset address + 0) % 2 ^ 32 = m.offset address :=
    Nat.mod_eq_of_lt (address - m.startAddr).isLt
  unfold overlaid
  rw [hrel, ← m.toNat_eq_offset address, hcontents]
  constructor
  · by_cases h : address.toNat < buf.length
    · rw [if_pos ⟨h, hin⟩, if_pos h]
    · rw [if_neg fun h' => h h'.1, if_neg h]
  · split
    · rfl
    · rfl

/-- The loop loads a file that fits exactly when the shift by the base address makes no
difference. -/
theorem holds_loadBytes_iff (hm : m.numEntries < 2 ^ 32) (hfits : buf.length ≤ m.numEntries) :
    m.Holds (loadBytes buf buf.length m) buf <->
      forall rel, rel < m.numEntries ->
        m.overlaid buf m.startAddr.toNat rel = m.overlaid buf 0 rel := by
  have hloop := contents_loadBytes buf hm (Nat.lt_of_le_of_lt hfits hm)
  constructor
  · intro h rel hrel
    have hoffset : m.offset (m.startAddr + BitVec.ofNat 32 rel) = rel := by
      unfold offset
      have hcancel : m.startAddr + BitVec.ofNat 32 rel - m.startAddr = BitVec.ofNat 32 rel := by
        grind
      rw [hcancel, BitVec.toNat_ofNat, Nat.mod_eq_of_lt (Nat.lt_trans hrel hm)]
    have hin : m.offset (m.startAddr + BitVec.ofNat 32 rel) < m.numEntries := by
      rw [hoffset]
      exact hrel
    rcases contents_eq_overlaid buf hin with ⟨hshifted, hplain⟩
    have hbyte := h (m.startAddr + BitVec.ofNat 32 rel)
    rw [hloop, hshifted, hplain, hoffset] at hbyte
    exact Option.some.inj hbyte
  · intro h address
    rw [hloop]
    by_cases hin : m.offset address < m.numEntries
    · rcases contents_eq_overlaid buf hin with ⟨hshifted, hplain⟩
      rw [hshifted, hplain, h _ hin]
    · rw [if_neg fun h' => hin h'.2, if_neg fun h' => hin (Nat.lt_of_lt_of_le h' hfits)]

theorem loadFromFile_of_short (h : buf.length < 2 ^ 31) :
    m.loadFromFile (some buf) = some (.success, loadBytes buf buf.length m) := by
  have hlength : (BitVec.ofNat 32 buf.length).toInt = buf.length := by
    rw [BitVec.toInt_ofNat', Int.bmod_eq_of_le]
    · lia
    · lia
  unfold loadFromFile
  dsimp only
  rw [hlength, if_neg (by lia), Int.toNat_natCast]

theorem loadFromFile_of_long (h : 2 ^ 31 ≤ buf.length) (h' : buf.length < 2 ^ 32) :
    m.loadFromFile (some buf) = none := by
  have hlength : (BitVec.ofNat 32 buf.length).toInt < 0 := by
    rw [BitVec.toInt_neg_iff, BitVec.toNat_ofNat]
    lia
  unfold loadFromFile
  dsimp only
  rw [if_pos hlength]

theorem loadFromFile_ne_error (m' : MemoryStore) :
    m.loadFromFile (some buf) ≠ some (.error, m') := by
  unfold loadFromFile
  dsimp only
  intro h
  split at h
  · cases h
  · cases h

theorem loadsExactly_iff (buf : List Byte) (hm : m.numEntries < 2 ^ 32) :
    m.LoadsExactly buf <->
      buf.length ≤ m.numEntries ∧
        (2 ^ 31 ≤ buf.length ∨
          forall rel, rel < m.numEntries ->
            m.overlaid buf m.startAddr.toNat rel = m.overlaid buf 0 rel) := by
  constructor
  · intro hexact
    rcases hexact with ⟨hcomplete, hreported⟩
    have hfits : buf.length ≤ m.numEntries := by
      apply Nat.le_of_not_lt
      intro hlt
      rcases hreported hlt with ⟨m', herror⟩
      exact loadFromFile_ne_error m' herror
    refine ⟨hfits, ?_⟩
    by_cases hlong : 2 ^ 31 ≤ buf.length
    · exact Or.inl hlong
    · have hholds := hcomplete _ (loadFromFile_of_short (Nat.lt_of_not_le hlong))
      exact Or.inr ((holds_loadBytes_iff hm hfits).mp hholds)
  · intro hcondition
    rcases hcondition with ⟨hfits, hcase⟩
    refine ⟨?_, fun hlt => absurd hfits (Nat.not_le_of_lt hlt)⟩
    intro m' hload
    by_cases hlong : 2 ^ 31 ≤ buf.length
    · rw [loadFromFile_of_long hlong (Nat.lt_of_le_of_lt hfits hm)] at hload
      cases hload
    · rw [loadFromFile_of_short (Nat.lt_of_not_le hlong)] at hload
      cases hload
      rcases hcase with hlength | hsame
      · exact absurd hlength hlong
      · exact (holds_loadBytes_iff hm hfits).mpr hsame

end Loading

end MemoryStore

/-- Loading is complete or reported exactly for a file that fits and that the base address
does not move, or whose length cannot be allocated; in a memory that starts at address 0
these are the files that fit. -/
theorem program_loading_exact_iff (m : MemoryStore) (hm : m.numEntries < 2 ^ 32)
    (buf : List Byte) :
    (m.LoadsExactly buf <->
        buf.length ≤ m.numEntries ∧
          (2 ^ 31 ≤ buf.length ∨
            forall rel, rel < m.numEntries ->
              m.overlaid buf m.startAddr.toNat rel = m.overlaid buf 0 rel)) ∧
      (m.startAddr = 0#32 -> (m.LoadsExactly buf <-> buf.length ≤ m.numEntries)) := by
  have hiff := MemoryStore.loadsExactly_iff buf hm
  refine ⟨hiff, fun hstart => ?_⟩
  rw [hiff, hstart]
  exact ⟨fun h => h.1, fun h => ⟨h, Or.inr fun _ _ => rfl⟩⟩

/-- The halt word in an empty memory at address 0. -/
theorem program_loading_halt :
    (MemoryStore.cleared 0#32 16).LoadsExactly [0xfe#8, 0xed#8, 0xfe#8, 0xed#8] :=
  ((program_loading_exact_iff (MemoryStore.cleared 0#32 16) (by decide)
    [0xfe#8, 0xed#8, 0xfe#8, 0xed#8]).2 rfl).mpr (by decide)

/-- A file of five bytes is not reported by a memory of four. -/
theorem program_loading_truncated :
    ¬ forall (m : MemoryStore) (buf : List Byte), m.numEntries < 2 ^ 32 ->
      m.LoadsExactly buf := by
  intro h
  have hloads := h (MemoryStore.cleared 0#32 4) [1#8, 2#8, 3#8, 4#8, 5#8] (by decide)
  rcases hloads.2 (by decide) with ⟨m', herror⟩
  exact MemoryStore.loadFromFile_ne_error m' herror

end PipeSim
