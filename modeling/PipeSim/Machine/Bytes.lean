import PipeSim.Machine.Memory
import PipeSim.Library.BigEndian

/-!
# Accesses to the memory store

Both loops over the bytes of an access stop at the first byte outside the array.
The bytes in front of it have been transferred by then, so an access that
straddles the end of the memory reads or writes a part of its bytes.
-/

namespace PipeSim

open Library

namespace MemoryStore

def offset (m : MemoryStore) (address : Word) : Nat := (address - m.startAddr).toNat

def fitting (m : MemoryStore) (rel size : Nat) : Nat := min size (m.numEntries - rel)

def byteAt (m : MemoryStore) (rel : Nat) : Nat :=
  if h : rel < m.numEntries then (m.memArr ⟨rel, h⟩).toNat else 0

theorem byteAt_lt (m : MemoryStore) (rel : Nat) : m.byteAt rel < 256 := by
  unfold byteAt
  split
  · exact (m.memArr _).isLt
  · decide

/-- The first `count` bytes of `bytes` put at the offsets from `rel` on. -/
def poke (m : MemoryStore) (rel : Nat) (bytes : Nat -> Byte) (count : Nat) : MemoryStore :=
  { m with
    memArr := fun j =>
      if rel ≤ j.val ∧ j.val < rel + count then bytes (j.val - rel) else m.memArr j }

@[simp] theorem poke_startAddr (m : MemoryStore) (rel : Nat) (bytes : Nat -> Byte)
    (count : Nat) : (m.poke rel bytes count).startAddr = m.startAddr := rfl

@[simp] theorem poke_numEntries (m : MemoryStore) (rel : Nat) (bytes : Nat -> Byte)
    (count : Nat) : (m.poke rel bytes count).numEntries = m.numEntries := rfl

theorem poke_zero (m : MemoryStore) (rel : Nat) (bytes : Nat -> Byte) :
    m.poke rel bytes 0 = m := by
  unfold poke
  cases m with
  | mk startAddr numEntries memArr =>
      dsimp only
      congr 1
      funext j
      rw [if_neg (by lia)]

def byteOf (value : Word) (size i : Nat) : Byte :=
  ((value >>> byteShift size i) &&& 0xff#32).setWidth 8

theorem toNat_byteOf (value : Word) (size i : Nat) :
    (byteOf value size i).toNat = BigEndian.digit 256 size value.toNat i := by
  have hpow : 2 ^ byteShift size i = 256 ^ (size - 1 - i) := by
    unfold byteShift
    rw [Nat.mul_comm, Nat.pow_mul]
  unfold byteOf BigEndian.digit
  rw [BitVec.toNat_setWidth, BitVec.toNat_and, BitVec.toNat_ushiftRight,
    Nat.shiftRight_eq_div_pow, hpow]
  change (value.toNat / 256 ^ (size - 1 - i) &&& 255) % 256 = _
  rw [Nat.and_two_pow_sub_one_eq_mod _ 8]
  exact Nat.mod_mod _ _

/-!
## The loops
-/

section Loops

variable {m : MemoryStore} {rel value : Word} {size i : Nat}

theorem toNat_relative (hm : m.numEntries < 2 ^ 32) (hi : i ≤ m.numEntries - rel.toNat) :
    (rel + BitVec.ofNat 32 i).toNat = rel.toNat + i := by
  have hrel := rel.isLt
  rw [BitVec.toNat_add, BitVec.toNat_ofNat, Nat.add_mod_mod]
  exact Nat.mod_eq_of_lt (by lia)

theorem fitting_le (m : MemoryStore) (rel size : Nat) : m.fitting rel size ≤ size :=
  Nat.min_le_left _ _

theorem lt_fitting_iff : i < m.fitting rel.toNat size <->
    i < size ∧ rel.toNat + i < m.numEntries := by
  unfold fitting
  lia

theorem setAt?_poke (hm : m.numEntries < 2 ^ 32) {bytes : Nat -> Byte}
    (hi : rel.toNat + i < m.numEntries) :
    (m.poke rel.toNat bytes i).setAt? (rel + BitVec.ofNat 32 i) (bytes i) =
      some (m.poke rel.toNat bytes (i + 1)) := by
  have hrel : (rel + BitVec.ofNat 32 i).toNat = rel.toNat + i := toNat_relative hm (by lia)
  have hin : (rel + BitVec.ofNat 32 i).toNat < (m.poke rel.toNat bytes i).numEntries := by
    rw [hrel]
    exact hi
  unfold setAt?
  rw [dif_pos hin]
  unfold poke
  congr 2
  funext j
  by_cases hj : j.val = rel.toNat + i
  · have heq : j = ⟨(rel + BitVec.ofNat 32 i).toNat, by rw [hrel]; exact hi⟩ :=
      Fin.ext (hj.trans hrel.symm)
    have hsub : j.val - rel.toNat = i := by
      lia
    rw [if_pos (by lia), hsub, heq]
    exact Function.update_self _ _ _
  · have hne : j ≠ ⟨(rel + BitVec.ofNat 32 i).toNat, by rw [hrel]; exact hi⟩ :=
      fun heq => hj ((congrArg Fin.val heq).trans hrel)
    rw [Function.update_of_ne hne]
    dsimp only
    by_cases hbefore : rel.toNat ≤ j.val ∧ j.val < rel.toNat + i
    · rw [if_pos hbefore, if_pos (by lia)]
    · rw [if_neg hbefore, if_neg (by lia)]

theorem setAt?_eq_none (hm : m.numEntries < 2 ^ 32) {b : Byte}
    (hi : i ≤ m.numEntries - rel.toNat) (hout : ¬ rel.toNat + i < m.numEntries) :
    m.setAt? (rel + BitVec.ofNat 32 i) b = none := by
  unfold setAt?
  rw [dif_neg (by rw [toNat_relative hm hi]; exact hout)]

theorem setLoop_poke (hm : m.numEntries < 2 ^ 32) (count : Nat) (hsize : i + count = size)
    (hi : i ≤ m.fitting rel.toNat size) :
    setLoop rel value size count i (m.poke rel.toNat (byteOf value size) i) =
      (decide (m.fitting rel.toNat size = size),
        m.poke rel.toNat (byteOf value size) (m.fitting rel.toNat size)) := by
  induction count generalizing i with
  | zero =>
      have hall : m.fitting rel.toNat size = size :=
        Nat.le_antisymm (fitting_le m _ _) (by lia)
      rw [setLoop, decide_eq_true hall, hall, ← hsize]
      rfl
  | succ count ih =>
      rw [setLoop, ← byteOf]
      by_cases hin : rel.toNat + i < m.numEntries
      · rw [setAt?_poke hm hin]
        exact ih (by lia) (lt_fitting_iff.mpr ⟨by lia, hin⟩)
      · have hlast : m.fitting rel.toNat size = i := by
          unfold fitting at hi ⊢
          lia
        have hle : i ≤ m.numEntries - rel.toNat := by
          unfold fitting at hi
          lia
        rw [setAt?_eq_none (m := m.poke rel.toNat (byteOf value size) i) hm hle hin, hlast]
        have hshort : ¬ i = size := by
          lia
        rw [decide_eq_false hshort]

/-- The value of the bytes in front of byte `i` of an access. -/
def partialValue (m : MemoryStore) (rel size i : Nat) : Nat :=
  BigEndian.value 256 (fun j => m.byteAt (rel + j)) i * 256 ^ (size - i)

theorem at?_relative (hm : m.numEntries < 2 ^ 32) (hi : i ≤ m.numEntries - rel.toNat) :
    m.at? (rel + BitVec.ofNat 32 i) =
      if rel.toNat + i < m.numEntries then some (BitVec.ofNat 8 (m.byteAt (rel.toNat + i)))
      else none := by
  unfold at? byteAt
  simp only [toNat_relative hm hi]
  split
  · rw [BitVec.ofNat_toNat, BitVec.setWidth_eq]
  · rfl

theorem partialValue_lt (m : MemoryStore) (rel : Nat) {size i : Nat} (hi : i ≤ size) :
    m.partialValue rel size i < 256 ^ size := by
  have hvalue := BigEndian.value_lt (b := 256) (f := fun j => m.byteAt (rel + j)) (n := i)
    (fun j _ => m.byteAt_lt _)
  unfold partialValue
  calc _ < 256 ^ i * 256 ^ (size - i) :=
        Nat.mul_lt_mul_of_pos_right hvalue (Nat.pow_pos (by decide))
    _ = 256 ^ size := by rw [← Nat.pow_add, Nat.add_sub_cancel' hi]

theorem partialValue_succ (m : MemoryStore) (rel : Nat) {size i : Nat} (hi : i < size) :
    m.partialValue rel size (i + 1) =
      m.partialValue rel size i + m.byteAt (rel + i) * 256 ^ (size - 1 - i) := by
  have hexponent : size - i = size - 1 - i + 1 := by
    lia
  have hexponent' : size - (i + 1) = size - 1 - i := by
    lia
  unfold partialValue
  rw [BigEndian.value, hexponent, hexponent', Nat.pow_succ]
  ring

theorem or_block (v shift : Nat) {b : Nat} (hb : b < 256) :
    v * 2 ^ (shift + 8) ||| b * 2 ^ shift = v * 2 ^ (shift + 8) + b * 2 ^ shift := by
  have hlt : b * 2 ^ shift < 2 ^ (shift + 8) := by
    rw [Nat.pow_add, Nat.mul_comm]
    exact Nat.mul_lt_mul_of_pos_left hb (Nat.two_pow_pos shift)
  rw [← Nat.shiftLeft_eq v]
  exact (Nat.shiftLeft_add_eq_or_of_lt hlt v).symm

theorem pow_byteShift (size i : Nat) : 256 ^ (size - 1 - i) = 2 ^ byteShift size i := by
  unfold byteShift
  rw [Nat.mul_comm, Nat.pow_mul]

theorem or_byte (m : MemoryStore) (rel : Nat) (hsize : size ≤ 4) (hi : i < size) :
    BitVec.ofNat 32 (m.partialValue rel size i) |||
        ((BitVec.ofNat 8 (m.byteAt (rel + i))).setWidth 32 <<< byteShift size i) =
      BitVec.ofNat 32 (m.partialValue rel size (i + 1)) := by
  have hbyte := m.byteAt_lt (rel + i)
  have hpow : 256 ^ size ≤ 256 ^ 4 := Nat.pow_le_pow_right (by decide) hsize
  have hsucc := m.partialValue_succ rel hi
  have hnext : m.partialValue rel size (i + 1) < 256 ^ size := m.partialValue_lt rel hi
  have hexponent : size - i = size - 1 - i + 1 := by
    lia
  have hblock : m.partialValue rel size i =
      BigEndian.value 256 (fun j => m.byteAt (rel + j)) i * 2 ^ (byteShift size i + 8) := by
    unfold partialValue
    rw [hexponent, Nat.pow_succ, pow_byteShift, ← Nat.pow_add (n := 8)]
  rw [pow_byteShift] at hsucc
  apply BitVec.eq_of_toNat_eq
  rw [BitVec.toNat_or, BitVec.toNat_shiftLeft, BitVec.toNat_setWidth, BitVec.toNat_ofNat,
    BitVec.toNat_ofNat, BitVec.toNat_ofNat, Nat.mod_eq_of_lt (show _ < 2 ^ 8 from hbyte),
    Nat.mod_eq_of_lt (show m.byteAt (rel + i) < 2 ^ 32 by lia),
    Nat.mod_eq_of_lt (show m.partialValue rel size i < 2 ^ 32 by lia), Nat.shiftLeft_eq,
    Nat.mod_eq_of_lt (show m.byteAt (rel + i) * 2 ^ byteShift size i < 2 ^ 32 by lia),
    Nat.mod_eq_of_lt (show m.partialValue rel size (i + 1) < 2 ^ 32 by lia), hsucc, hblock]
  exact or_block _ _ hbyte

theorem getLoop_partialValue (hm : m.numEntries < 2 ^ 32) (hfour : size ≤ 4) (count : Nat)
    (hsize : i + count = size) (hi : i ≤ m.fitting rel.toNat size) :
    m.getLoop rel size count i (BitVec.ofNat 32 (m.partialValue rel.toNat size i)) =
      (decide (m.fitting rel.toNat size = size),
        BitVec.ofNat 32 (m.partialValue rel.toNat size (m.fitting rel.toNat size))) := by
  induction count generalizing i with
  | zero =>
      have hall : m.fitting rel.toNat size = size :=
        Nat.le_antisymm (fitting_le m _ _) (by lia)
      rw [getLoop, decide_eq_true hall, hall, ← hsize]
      rfl
  | succ count ih =>
      have hle : i ≤ m.numEntries - rel.toNat := by
        unfold fitting at hi
        lia
      rw [getLoop, at?_relative hm hle]
      by_cases hin : rel.toNat + i < m.numEntries
      · rw [if_pos hin]
        dsimp only
        rw [or_byte m rel.toNat hfour (by lia)]
        exact ih (by lia) (lt_fitting_iff.mpr ⟨by lia, hin⟩)
      · have hlast : m.fitting rel.toNat size = i := by
          unfold fitting at hi ⊢
          lia
        have hshort : ¬ i = size := by
          lia
        rw [if_neg hin, hlast, decide_eq_false hshort]

theorem poke_eq_self_iff {m : MemoryStore} {rel count : Nat} {bytes : Nat -> Byte}
    (hcount : count ≤ m.numEntries - rel) :
    m.poke rel bytes count = m <->
      forall i, i < count -> (bytes i).toNat = m.byteAt (rel + i) := by
  constructor
  · intro h i hi
    have hin : rel + i < m.numEntries := by
      lia
    have hbyte := congrArg (fun m' => m'.byteAt (rel + i)) h
    unfold byteAt poke at hbyte
    dsimp only at hbyte
    rw [dif_pos hin, dif_pos hin, if_pos (by lia), Nat.add_sub_cancel_left] at hbyte
    unfold byteAt
    rw [dif_pos hin]
    exact hbyte
  · intro h
    unfold poke
    cases m with
    | mk startAddr numEntries memArr =>
        dsimp only
        congr 1
        funext j
        by_cases hj : rel ≤ j.val ∧ j.val < rel + count
        · have hbyte := h (j.val - rel) (by lia)
          have hrel : rel + (j.val - rel) = j.val := by
            lia
          unfold byteAt at hbyte
          rw [hrel, dif_pos j.isLt] at hbyte
          rw [if_pos hj]
          exact BitVec.eq_of_toNat_eq hbyte
        · rw [if_neg hj]

end Loops

/-!
## The two accesses
-/

section Access

variable {m : MemoryStore} {size : Word}

theorem validSize_bounds (hsize : validSize size = true) :
    0 < size.toNat ∧ size.toNat ≤ 4 := by
  unfold validSize at hsize
  rw [Bool.or_eq_true, Bool.or_eq_true, beq_iff_eq, beq_iff_eq, beq_iff_eq] at hsize
  rcases hsize with (rfl | rfl) | rfl
  · decide
  · decide
  · decide

def Inside (m : MemoryStore) (address size : Word) : Prop :=
  m.offset address + size.toNat ≤ m.numEntries

instance (m : MemoryStore) (address size : Word) : Decidable (m.Inside address size) := by
  unfold Inside
  infer_instance

def fittingAt (m : MemoryStore) (address size : Word) : Nat :=
  m.fitting (m.offset address) size.toNat

theorem fittingAt_eq_iff (hsize : validSize size = true) (address : Word) :
    m.fittingAt address size = size.toNat <-> m.Inside address size := by
  have hpos := (validSize_bounds hsize).1
  unfold fittingAt fitting Inside
  lia

theorem fittingAt_le (m : MemoryStore) (address size : Word) :
    m.fittingAt address size ≤ m.numEntries - m.offset address :=
  Nat.min_le_right _ _

def accessCode (m : MemoryStore) (address size : Word) : Int :=
  if validSize size = true ∧ m.Inside address size then 0 else -EINVAL

theorem accessCode_eq_zero_iff (m : MemoryStore) (address size : Word) :
    m.accessCode address size = 0 <-> validSize size = true ∧ m.Inside address size := by
  unfold accessCode
  split
  · simp_all
  · simp_all [EINVAL]

theorem accessCode_of_validSize (hsize : validSize size = true) (address : Word) :
    m.accessCode address size = if m.fittingAt address size = size.toNat then 0 else -EINVAL := by
  unfold accessCode
  by_cases hinside : m.Inside address size
  · rw [if_pos ⟨hsize, hinside⟩, if_pos ((fittingAt_eq_iff hsize address).mpr hinside)]
  · rw [if_neg fun h => hinside h.2,
      if_neg fun h => hinside ((fittingAt_eq_iff hsize address).mp h)]

/-- A write puts the bytes that fit. -/
theorem setMemValue_eq (hm : m.numEntries < 2 ^ 32) (hsize : validSize size = true)
    (address value : Word) :
    m.setMemValue address value size =
      (m.accessCode address size,
        m.poke (m.offset address) (byteOf value size.toNat) (m.fittingAt address size)) := by
  have hloop : setLoop (address - m.startAddr) value size.toNat size.toNat 0
      (m.poke (m.offset address) (byteOf value size.toNat) 0) =
        (decide (m.fittingAt address size = size.toNat),
          m.poke (m.offset address) (byteOf value size.toNat) (m.fittingAt address size)) :=
    setLoop_poke hm size.toNat (Nat.zero_add _) (Nat.zero_le _)
  rw [poke_zero] at hloop
  unfold setMemValue
  rw [if_pos hsize, accessCode_of_validSize hsize]
  dsimp only
  rw [hloop]
  by_cases hall : m.fittingAt address size = size.toNat
  · rw [decide_eq_true hall, if_pos hall]
  · rw [decide_eq_false hall, if_neg hall]

/-- A read combines the bytes that fit. -/
theorem getMemValue_eq (hm : m.numEntries < 2 ^ 32) (hsize : validSize size = true)
    (address value : Word) :
    m.getMemValue address value size =
      (m.accessCode address size,
        BitVec.ofNat 32 (m.partialValue (m.offset address) size.toNat
          (m.fittingAt address size))) := by
  have hfour := (validSize_bounds hsize).2
  have hloop : m.getLoop (address - m.startAddr) size.toNat size.toNat 0
      (BitVec.ofNat 32 (m.partialValue (m.offset address) size.toNat 0)) =
        (decide (m.fittingAt address size = size.toNat),
          BitVec.ofNat 32 (m.partialValue (m.offset address) size.toNat
            (m.fittingAt address size))) :=
    getLoop_partialValue hm hfour size.toNat (Nat.zero_add _) (Nat.zero_le _)
  have hstart : m.partialValue (m.offset address) size.toNat 0 = 0 :=
    Nat.zero_mul _
  rw [hstart] at hloop
  unfold getMemValue
  rw [if_pos hsize, accessCode_of_validSize hsize]
  dsimp only
  rw [hloop]
  by_cases hall : m.fittingAt address size = size.toNat
  · rw [decide_eq_true hall, if_pos hall]
  · rw [decide_eq_false hall, if_neg hall]

theorem setMemValue_of_not_validSize (hsize : validSize size = false) (m : MemoryStore)
    (address value : Word) : m.setMemValue address value size = (-EINVAL, m) := by
  unfold setMemValue
  rw [hsize]
  rfl

theorem getMemValue_of_not_validSize (hsize : validSize size = false) (m : MemoryStore)
    (address value : Word) : m.getMemValue address value size = (-EINVAL, value) := by
  unfold getMemValue
  rw [hsize]
  rfl

theorem setMemValue_code (hm : m.numEntries < 2 ^ 32) (address value size : Word) :
    (m.setMemValue address value size).1 = m.accessCode address size := by
  cases hsize : validSize size with
  | true =>
      rw [setMemValue_eq hm hsize]
  | false =>
      rw [setMemValue_of_not_validSize hsize]
      unfold accessCode
      rw [hsize, if_neg (by simp)]

theorem getMemValue_code (hm : m.numEntries < 2 ^ 32) (address value size : Word) :
    (m.getMemValue address value size).1 = m.accessCode address size := by
  cases hsize : validSize size with
  | true =>
      rw [getMemValue_eq hm hsize]
  | false =>
      rw [getMemValue_of_not_validSize hsize]
      unfold accessCode
      rw [hsize, if_neg (by simp)]

end Access

end MemoryStore

end PipeSim
