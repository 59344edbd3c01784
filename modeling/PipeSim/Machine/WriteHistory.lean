import PipeSim.Machine.Bytes

/-!
# Histories of writes

After any sequence of successful writes, whatever their sizes and however they overlap,
each address holds the byte that the latest write covering it put there, and a read
combines these bytes with the most significant one first.
-/

namespace PipeSim

open Library

namespace MemoryStore

def contents (m : MemoryStore) (address : Word) : Option Nat :=
  if m.offset address < m.numEntries then some (m.byteAt (m.offset address)) else none

section Contents

variable {m : MemoryStore} {address value size : Word}

theorem offset_add {i : Nat} (h : m.offset address + i < 2 ^ 32) :
    m.offset (address + BitVec.ofNat 32 i) = m.offset address + i := by
  unfold offset at h ⊢
  have hcomm : address + BitVec.ofNat 32 i - m.startAddr =
      address - m.startAddr + BitVec.ofNat 32 i := by
    grind
  rw [hcomm, BitVec.toNat_add, BitVec.toNat_ofNat, Nat.add_mod_mod, Nat.mod_eq_of_lt h]

theorem covered_iff (hm : m.numEntries < 2 ^ 32) (hinside : m.Inside address size)
    (b : Word) :
    (m.offset address ≤ m.offset b ∧ m.offset b < m.offset address + size.toNat) <->
      (b - address).toNat < size.toNat := by
  unfold Inside at hinside
  have hb : b = address + BitVec.ofNat 32 (b - address).toNat := by
    rw [BitVec.ofNat_toNat, BitVec.setWidth_eq]
    grind
  have hdistance : b - address = (b - m.startAddr) - (address - m.startAddr) := by
    grind
  have hlt := (b - m.startAddr).isLt
  constructor
  · intro h
    rcases h with ⟨hle, hlast⟩
    unfold offset at hle hlast
    rw [hdistance, BitVec.toNat_sub_of_le hle]
    lia
  · intro h
    rw [hb, offset_add (by lia)]
    lia

theorem sub_offset (hm : m.numEntries < 2 ^ 32) (hinside : m.Inside address size)
    {b : Word} (hb : (b - address).toNat < size.toNat) :
    m.offset b - m.offset address = (b - address).toNat := by
  have hdistance : b - address = (b - m.startAddr) - (address - m.startAddr) := by
    grind
  have hle := ((covered_iff hm hinside b).mpr hb).1
  unfold offset at hle ⊢
  rw [hdistance, BitVec.toNat_sub_of_le hle]

/-- A successful write changes the bytes it covers and no others. -/
theorem contents_setMemValue (hm : m.numEntries < 2 ^ 32)
    (h : (m.setMemValue address value size).1 = 0) (b : Word) :
    (m.setMemValue address value size).2.contents b =
      if (b - address).toNat < size.toNat then
        some (BigEndian.digit 256 size.toNat value.toNat (b - address).toNat)
      else m.contents b := by
  rw [setMemValue_code hm, accessCode_eq_zero_iff] at h
  rcases h with ⟨hsize, hinside⟩
  have hall := (fittingAt_eq_iff hsize address).mpr hinside
  rw [setMemValue_eq hm hsize, hall]
  have hoffset : forall m' : MemoryStore, m'.startAddr = m.startAddr ->
      m'.offset b = m.offset b := by
    intro m' hstart
    unfold offset
    rw [hstart]
  unfold contents
  rw [hoffset _ (poke_startAddr _ _ _ _), poke_numEntries]
  by_cases hb : (b - address).toNat < size.toNat
  · have hcovered := (covered_iff hm hinside b).mpr hb
    have hin : m.offset b < m.numEntries := by
      unfold Inside at hinside
      lia
    rw [if_pos hb, if_pos hin]
    unfold byteAt poke
    dsimp only
    rw [dif_pos hin, if_pos hcovered, toNat_byteOf, sub_offset hm hinside hb]
  · have hcovered : ¬ (m.offset address ≤ m.offset b ∧
        m.offset b < m.offset address + size.toNat) :=
      fun hc => hb ((covered_iff hm hinside b).mp hc)
    rw [if_neg hb]
    unfold byteAt poke
    simp only [if_neg hcovered]

theorem setMemValue_startAddr (hm : m.numEntries < 2 ^ 32) (address value size : Word) :
    (m.setMemValue address value size).2.startAddr = m.startAddr := by
  cases hsize : validSize size with
  | true =>
      rw [setMemValue_eq hm hsize]
      rfl
  | false =>
      rw [setMemValue_of_not_validSize hsize]

theorem setMemValue_numEntries (hm : m.numEntries < 2 ^ 32) (address value size : Word) :
    (m.setMemValue address value size).2.numEntries = m.numEntries := by
  cases hsize : validSize size with
  | true =>
      rw [setMemValue_eq hm hsize]
      rfl
  | false =>
      rw [setMemValue_of_not_validSize hsize]

theorem getMemValue_contents (hm : m.numEntries < 2 ^ 32)
    (h : (m.getMemValue address value size).1 = 0) :
    (m.getMemValue address value size).2.toNat =
      BigEndian.value 256 (fun i => (m.contents (address + BitVec.ofNat 32 i)).getD 0)
        size.toNat := by
  rw [getMemValue_code hm, accessCode_eq_zero_iff] at h
  rcases h with ⟨hsize, hinside⟩
  have hall := (fittingAt_eq_iff hsize address).mpr hinside
  have hfour := (validSize_bounds hsize).2
  have hpow : 256 ^ size.toNat ≤ 256 ^ 4 := Nat.pow_le_pow_right (by decide) hfour
  have hlt := m.partialValue_lt (m.offset address) (Nat.le_refl size.toNat)
  unfold Inside at hinside
  rw [getMemValue_eq hm hsize, hall]
  dsimp only
  rw [BitVec.toNat_ofNat, Nat.mod_eq_of_lt (by lia)]
  unfold partialValue
  rw [Nat.sub_self, Nat.pow_zero, Nat.mul_one]
  apply BigEndian.value_congr
  intro i hi
  unfold contents
  rw [offset_add (by lia), if_pos (by lia)]
  rfl

theorem getMemValue_setMemValue (hm : m.numEntries < 2 ^ 32)
    (h : (m.setMemValue address value size).1 = 0) (value' : Word) :
    ((m.setMemValue address value size).2.getMemValue address value' size).1 = 0 ∧
      ((m.setMemValue address value size).2.getMemValue address value' size).2.toNat =
        value.toNat % 256 ^ size.toNat := by
  have hcontents := contents_setMemValue hm h
  have hstart := setMemValue_startAddr hm address value size
  have hentries := setMemValue_numEntries hm address value size
  rw [setMemValue_code hm, accessCode_eq_zero_iff] at h
  generalize (m.setMemValue address value size).2 = m' at hcontents hstart hentries ⊢
  have hm' : m'.numEntries < 2 ^ 32 := by
    rw [hentries]
    exact hm
  have hinside : m'.Inside address size := by
    unfold Inside offset
    rw [hstart, hentries]
    exact h.2
  have hcode : (m'.getMemValue address value' size).1 = 0 := by
    rw [getMemValue_code hm', accessCode_eq_zero_iff]
    exact ⟨h.1, hinside⟩
  refine ⟨hcode, ?_⟩
  rw [getMemValue_contents hm' hcode, ← BigEndian.value_digit]
  have hfour := (validSize_bounds h.1).2
  apply BigEndian.value_congr
  intro i hi
  have hposition : (address + BitVec.ofNat 32 i - address).toNat = i := by
    have hcancel : address + BitVec.ofNat 32 i - address = BitVec.ofNat 32 i := by
      grind
    rw [hcancel, BitVec.toNat_ofNat, Nat.mod_eq_of_lt (by lia)]
  rw [hcontents, hposition, if_pos hi]
  rfl

theorem setMemValue_getMemValue (hm : m.numEntries < 2 ^ 32)
    (h : (m.getMemValue address value size).1 = 0) :
    m.setMemValue address (m.getMemValue address value size).2 size = (0, m) := by
  rw [getMemValue_code hm] at h
  have hbounds := (accessCode_eq_zero_iff m address size).mp h
  rcases hbounds with ⟨hsize, hinside⟩
  have hall := (fittingAt_eq_iff hsize address).mpr hinside
  have hfour := (validSize_bounds hsize).2
  have hpow : 256 ^ size.toNat ≤ 256 ^ 4 := Nat.pow_le_pow_right (by decide) hfour
  have hlt := m.partialValue_lt (m.offset address) (Nat.le_refl size.toNat)
  rw [setMemValue_eq hm hsize, getMemValue_eq hm hsize, h, hall]
  dsimp only
  congr 1
  apply (poke_eq_self_iff (by rw [← hall]; exact fittingAt_le m address size)).mpr
  intro i hi
  rw [toNat_byteOf, BitVec.toNat_ofNat, Nat.mod_eq_of_lt (by lia)]
  unfold partialValue
  rw [Nat.sub_self, Nat.pow_zero, Nat.mul_one]
  exact BigEndian.digit_value (by decide) (fun j _ => m.byteAt_lt _) hi

end Contents

/-!
## Sequences of writes
-/

structure Write where
  address : Word
  value : Word
  size : Word
deriving DecidableEq, Repr

def setAll (m : MemoryStore) : List Write -> MemoryStore
  | [] => m
  | w :: ws => setAll (m.setMemValue w.address w.value w.size).2 ws

def Accepts (m : MemoryStore) : List Write -> Prop
  | [] => True
  | w :: ws =>
      (m.setMemValue w.address w.value w.size).1 = 0 ∧
        Accepts (m.setMemValue w.address w.value w.size).2 ws

instance decidableAccepts (m : MemoryStore) : (ws : List Write) -> Decidable (m.Accepts ws)
  | [] => isTrue trivial
  | w :: ws =>
      match decEq (m.setMemValue w.address w.value w.size).1 0,
        decidableAccepts (m.setMemValue w.address w.value w.size).2 ws with
      | isTrue h, isTrue h' => isTrue ⟨h, h'⟩
      | isFalse h, _ => isFalse fun h' => h h'.1
      | _, isFalse h => isFalse fun h' => h h'.2

def Write.byte? (w : Write) (address : Word) : Option Nat :=
  if (address - w.address).toNat < w.size.toNat then
    some (w.value.toNat / 256 ^ (w.size.toNat - 1 - (address - w.address).toNat) % 256)
  else none

/-- The byte the latest of the writes put at an address, or else the initial one. -/
def latestByte (m : MemoryStore) (ws : List Write) (address : Word) : Option Nat :=
  (ws.reverse.findSome? fun w => w.byte? address).or (m.contents address)

theorem setAll_startAddr {m : MemoryStore} (hm : m.numEntries < 2 ^ 32) (ws : List Write) :
    (m.setAll ws).startAddr = m.startAddr := by
  induction ws generalizing m with
  | nil =>
      rfl
  | cons w ws ih =>
      have hentries := setMemValue_numEntries hm w.address w.value w.size
      exact (ih (by rw [hentries]; exact hm)).trans (setMemValue_startAddr hm _ _ _)

theorem setAll_numEntries {m : MemoryStore} (hm : m.numEntries < 2 ^ 32) (ws : List Write) :
    (m.setAll ws).numEntries = m.numEntries := by
  induction ws generalizing m with
  | nil =>
      rfl
  | cons w ws ih =>
      have hentries := setMemValue_numEntries hm w.address w.value w.size
      exact (ih (by rw [hentries]; exact hm)).trans hentries

theorem setAll_append {m : MemoryStore} (ws : List Write) (w : Write) :
    m.setAll (ws ++ [w]) = ((m.setAll ws).setMemValue w.address w.value w.size).2 := by
  induction ws generalizing m with
  | nil =>
      rfl
  | cons v ws ih =>
      exact ih

theorem contents_setAll {m : MemoryStore} (hm : m.numEntries < 2 ^ 32) {ws : List Write}
    (h : m.Accepts ws) (address : Word) :
    (m.setAll ws).numEntries = m.numEntries ∧
      (m.setAll ws).contents address = m.latestByte ws address := by
  induction ws generalizing m with
  | nil =>
      exact ⟨rfl, rfl⟩
  | cons w ws ih =>
      have hentries := setMemValue_numEntries hm w.address w.value w.size
      rcases ih (by rw [hentries]; exact hm) h.2 with ⟨hkept, hlatest⟩
      refine ⟨hkept.trans hentries, ?_⟩
      rw [setAll, hlatest]
      unfold latestByte
      rw [contents_setMemValue hm h.1, List.reverse_cons, List.findSome?_append,
        List.findSome?_singleton, Option.or_assoc]
      unfold Write.byte? BigEndian.digit
      split
      · rfl
      · rfl

end MemoryStore

/-- The memory store is a big-endian array of bytes: an access succeeds exactly when all its
bytes are inside, a successful write changes the bytes it covers and no others, and a
successful read combines the bytes that were written last. -/
theorem memory_store_big_endian (m : MemoryStore) (hm : m.numEntries < 2 ^ 32) :
    (forall address value size, MemoryStore.validSize size = true ->
      ((m.setMemValue address value size).1 = 0 <->
        (address - m.startAddr).toNat + size.toNat ≤ m.numEntries) ∧
      ((m.getMemValue address value size).1 = 0 <->
        (address - m.startAddr).toNat + size.toNat ≤ m.numEntries)) ∧
    (forall address value size, (m.setMemValue address value size).1 = 0 ->
      forall b, (m.setMemValue address value size).2.contents b =
        if (b - address).toNat < size.toNat then
          some (value.toNat / 256 ^ (size.toNat - 1 - (b - address).toNat) % 256)
        else m.contents b) ∧
    (forall ws, m.Accepts ws -> forall address value size,
      ((m.setAll ws).getMemValue address value size).1 = 0 ->
        ((m.setAll ws).getMemValue address value size).2.toNat =
          BigEndian.value 256
            (fun i => (m.latestByte ws (address + BitVec.ofNat 32 i)).getD 0)
            size.toNat) ∧
    (forall address value size value', (m.setMemValue address value size).1 = 0 ->
      ((m.setMemValue address value size).2.getMemValue address value' size).1 = 0 ∧
        ((m.setMemValue address value size).2.getMemValue address value' size).2.toNat =
          value.toNat % 2 ^ (8 * size.toNat)) ∧
    (forall address value size, (m.getMemValue address value size).1 = 0 ->
      m.setMemValue address (m.getMemValue address value size).2 size = (0, m)) := by
  refine ⟨?_, ?_, ?_, ?_, ?_⟩
  · intro address value size hsize
    rw [MemoryStore.setMemValue_code hm, MemoryStore.getMemValue_code hm,
      MemoryStore.accessCode_eq_zero_iff]
    exact ⟨⟨fun h => h.2, fun h => ⟨hsize, h⟩⟩, ⟨fun h => h.2, fun h => ⟨hsize, h⟩⟩⟩
  · intro address value size h b
    exact MemoryStore.contents_setMemValue hm h b
  · intro ws hws address value size h
    have hentries := (MemoryStore.contents_setAll hm hws 0#32).1
    rw [MemoryStore.getMemValue_contents (by rw [hentries]; exact hm) h]
    apply BigEndian.value_congr
    intro i _
    rw [(MemoryStore.contents_setAll hm hws _).2]
  · intro address value size value' h
    rw [Nat.pow_mul]
    exact MemoryStore.getMemValue_setMemValue hm h value'
  · intro address value size h
    exact MemoryStore.setMemValue_getMemValue hm h

/-- A word with a half-word over its last two bytes, read from its second byte on. -/
theorem memory_store_big_endian_overlap :
    ((MemoryStore.setAll ⟨0x100#32, 8, fun _ => 0#8⟩
        [⟨0x101#32, 0x11223344#32, 4#32⟩, ⟨0x103#32, 0xaabb#32, 2#32⟩]).getMemValue
          0x102#32 0#32 4#32).2.toNat = 0x22aabb00 := by
  have hstore := memory_store_big_endian ⟨0x100#32, 8, fun _ => 0#8⟩ (by decide)
  rw [hstore.2.2.1 _ (by decide) _ _ _ (by decide)]
  decide

end PipeSim
