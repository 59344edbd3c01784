import PipeSim.Machine.Bytes
import PipeSim.Machine.Fields

/-!
# Accesses that fail

An access that is not wholly inside the memory returns an error, but the bytes in front of
the end have been written, or put into the caller's variable, by then.  Such an access
leaves everything as it was only where these bytes happen to be there already.
-/

namespace PipeSim

open Library

namespace MemoryStore

/-- The bytes a write puts before it fails are in the memory already. -/
def WriteFindsBytes (m : MemoryStore) (address value size : Word) : Prop :=
  forall i, i < m.fittingAt address size ->
    BigEndian.digit 256 size.toNat value.toNat i = m.byteAt (m.offset address + i)

/-- The variable holds the bytes a read finds before it fails, with zeros behind them. -/
def ReadFindsValue (m : MemoryStore) (address value size : Word) : Prop :=
  value.toNat =
    BigEndian.value 256 (fun i => m.byteAt (m.offset address + i)) (m.fittingAt address size) *
      256 ^ (size.toNat - m.fittingAt address size)

section Failing

variable {m : MemoryStore} {address value size : Word}

theorem accessCode_eq_neg_iff (m : MemoryStore) (address size : Word) :
    m.accessCode address size = -EINVAL <->
      ¬ (validSize size = true ∧ m.Inside address size) := by
  rw [← accessCode_eq_zero_iff]
  unfold accessCode
  split
  · exact ⟨fun h => absurd h (by decide), fun h => absurd rfl h⟩
  · exact ⟨fun _ => by decide, fun _ => rfl⟩

theorem setMemValue_memory_eq_iff (hm : m.numEntries < 2 ^ 32) (hsize : validSize size = true) :
    (m.setMemValue address value size).2 = m <-> m.WriteFindsBytes address value size := by
  rw [setMemValue_eq hm hsize]
  dsimp only
  rw [poke_eq_self_iff (fittingAt_le m address size)]
  unfold WriteFindsBytes
  simp only [toNat_byteOf]

theorem getMemValue_value_eq_iff (hm : m.numEntries < 2 ^ 32) (hsize : validSize size = true) :
    (m.getMemValue address value size).2 = value <-> m.ReadFindsValue address value size := by
  have hfour := (validSize_bounds hsize).2
  have hpow : 256 ^ size.toNat ≤ 256 ^ 4 := Nat.pow_le_pow_right (by decide) hfour
  have hlt := m.partialValue_lt (m.offset address) (fitting_le m (m.offset address) size.toNat)
  rw [getMemValue_eq hm hsize]
  dsimp only
  rw [← BitVec.toNat_inj, BitVec.toNat_ofNat, Nat.mod_eq_of_lt]
  · exact eq_comm
  · exact Nat.lt_of_lt_of_le hlt hpow

theorem setMemValue_failing_iff (hm : m.numEntries < 2 ^ 32) :
    ((m.setMemValue address value size).1 = -EINVAL ->
        (m.setMemValue address value size).2 = m) <->
      (validSize size = true -> ¬ m.Inside address size ->
        m.WriteFindsBytes address value size) := by
  rw [setMemValue_code hm, accessCode_eq_neg_iff]
  cases hsize : validSize size with
  | true =>
      rw [setMemValue_memory_eq_iff hm hsize]
      exact ⟨fun h _ hout => h fun hinside => hout hinside.2,
        fun h hout => h rfl fun hinside => hout ⟨rfl, hinside⟩⟩
  | false =>
      rw [setMemValue_of_not_validSize hsize]
      exact ⟨fun _ h => (by cases h), fun _ _ => rfl⟩

theorem getMemValue_failing_iff (hm : m.numEntries < 2 ^ 32) :
    ((m.getMemValue address value size).1 = -EINVAL ->
        (m.getMemValue address value size).2 = value) <->
      (validSize size = true -> ¬ m.Inside address size ->
        m.ReadFindsValue address value size) := by
  rw [getMemValue_code hm, accessCode_eq_neg_iff]
  cases hsize : validSize size with
  | true =>
      rw [getMemValue_value_eq_iff hm hsize]
      exact ⟨fun h _ hout => h fun hinside => hout hinside.2,
        fun h hout => h rfl fun hinside => hout ⟨rfl, hinside⟩⟩
  | false =>
      rw [getMemValue_of_not_validSize hsize]
      exact ⟨fun _ h => (by cases h), fun _ _ => rfl⟩

end Failing

end MemoryStore

/-!
## Loads and stores
-/

def OpId.loadSize? : OpId -> Option Word
  | .lbu => some byteSize
  | .lhu => some halfSize
  | .lw => some wordSize
  | _ => none

def OpId.storeSize? : OpId -> Option Word
  | .sb => some byteSize
  | .sh => some halfSize
  | .sw => some wordSize
  | _ => none

namespace Emulator

def dataAddress (e : Emulator) : Word :=
  e.operand (rsOf e.fetchedWord) + signExt (immOf e.fetchedWord)

/-- An access outside the memory leaves the memory and the register `rt` alone. -/
def FailedAccessHarmless (e : Emulator) (size : Word) : Prop :=
  ¬ e.memory.Inside e.dataAddress size ->
    e.executeInstruction.2.memory = e.memory ∧
      (rtOf e.fetchedWord ≠ 0#5 ->
        e.executeInstruction.2.registers (rtOf e.fetchedWord) =
          e.registers (rtOf e.fetchedWord))

section Instructions

variable {e : Emulator} {op : OpId} {size : Word}

theorem loadSize?_valid (h : op.loadSize? = some size) :
    MemoryStore.validSize size = true := by
  cases op <;> cases h <;> rfl

theorem storeSize?_valid (h : op.storeSize? = some size) :
    MemoryStore.validSize size = true := by
  cases op <;> cases h <;> rfl

theorem executeInstruction_of_load (hop : opOf e.fetchedWord = some op)
    (hload : op.loadSize? = some size) :
    e.executeInstruction.2 =
      e.fetch.2.setReg e.decoded.rt
        (e.memory.getMemValue e.dataAddress (e.operand (rtOf e.fetchedWord)) size).2 := by
  have h := executeInstruction_of_op hop
  unfold execute at h
  rw [decoded_op, hop] at h
  have hload' : e.executeInstruction = load e.decoded e.fetch.2 size := by
    cases op <;> cases hload <;> exact h
  rw [hload']
  unfold load
  dsimp only
  rw [fetch_reg, fetch_reg]
  rfl

def storedValue (op : OpId) (value : Word) : Word :=
  match op with
  | .sb => extractBits value 7 0
  | .sh => extractBits value 15 0
  | _ => value

theorem executeInstruction_of_store (hop : opOf e.fetchedWord = some op)
    (hstore : op.storeSize? = some size) :
    e.executeInstruction.2 =
      { e.fetch.2 with
        memory :=
          (e.memory.setMemValue e.dataAddress
            (storedValue op (e.operand (rtOf e.fetchedWord))) size).2 } := by
  have h := executeInstruction_of_op hop
  unfold execute at h
  rw [decoded_op, hop, fetch_reg, fetch_reg] at h
  have hstore' : e.executeInstruction =
      store e.decoded e.fetch.2 (storedValue op (e.operand (rtOf e.fetchedWord))) size := by
    cases op <;> cases hstore <;> exact h
  rw [hstore']
  unfold store
  dsimp only
  rw [fetch_reg]
  rfl

theorem digit_storedValue (hstore : op.storeSize? = some size) (value : Word) {i : Nat}
    (hi : i < size.toNat) :
    BigEndian.digit 256 size.toNat (storedValue op value).toNat i =
      BigEndian.digit 256 size.toNat value.toNat i := by
  cases op <;> cases hstore
  case sb =>
      unfold storedValue
      rw [toNat_extractBits value (by decide), Nat.pow_zero, Nat.div_one]
      exact BigEndian.digit_mod 256 1 value.toNat hi
  case sh =>
      unfold storedValue
      rw [toNat_extractBits value (by decide), Nat.pow_zero, Nat.div_one]
      exact BigEndian.digit_mod 256 2 value.toNat hi
  case sw =>
      rfl

theorem failedLoad_harmless_iff (hm : e.memory.numEntries < 2 ^ 32)
    (hop : opOf e.fetchedWord = some op) (hload : op.loadSize? = some size) :
    e.FailedAccessHarmless size <->
      (¬ e.memory.Inside e.dataAddress size -> rtOf e.fetchedWord ≠ 0#5 ->
        e.memory.ReadFindsValue e.dataAddress (e.registers (rtOf e.fetchedWord)) size) := by
  have hexecute := executeInstruction_of_load hop hload
  have hvalue :
      (e.memory.getMemValue e.dataAddress (e.registers (rtOf e.fetchedWord)) size).2 =
          e.registers (rtOf e.fetchedWord) <->
        e.memory.ReadFindsValue e.dataAddress (e.registers (rtOf e.fetchedWord)) size :=
    MemoryStore.getMemValue_value_eq_iff hm (loadSize?_valid hload)
  have hregister : rtOf e.fetchedWord ≠ 0#5 ->
      e.executeInstruction.2.registers (rtOf e.fetchedWord) =
        (e.memory.getMemValue e.dataAddress (e.registers (rtOf e.fetchedWord)) size).2 := by
    intro hrt
    rw [hexecute, operand_of_ne hrt]
    exact Function.update_self _ _ _
  have hmemory : e.executeInstruction.2.memory = e.memory := by
    rw [hexecute]
    rfl
  unfold FailedAccessHarmless
  constructor
  · intro h hout hrt
    rw [← hvalue, ← hregister hrt]
    exact (h hout).2 hrt
  · intro h hout
    refine ⟨hmemory, fun hrt => ?_⟩
    rw [hregister hrt, hvalue]
    exact h hout hrt

theorem failedStore_harmless_iff (hm : e.memory.numEntries < 2 ^ 32)
    (hop : opOf e.fetchedWord = some op) (hstore : op.storeSize? = some size) :
    e.FailedAccessHarmless size <->
      (¬ e.memory.Inside e.dataAddress size ->
        e.memory.WriteFindsBytes e.dataAddress (e.operand (rtOf e.fetchedWord)) size) := by
  have hexecute := executeInstruction_of_store hop hstore
  have hbytes :
      (e.memory.setMemValue e.dataAddress (storedValue op (e.operand (rtOf e.fetchedWord)))
          size).2 = e.memory <->
        e.memory.WriteFindsBytes e.dataAddress
          (storedValue op (e.operand (rtOf e.fetchedWord))) size :=
    MemoryStore.setMemValue_memory_eq_iff hm (storeSize?_valid hstore)
  have hmemory : e.executeInstruction.2.memory = e.memory <->
      e.memory.WriteFindsBytes e.dataAddress (e.operand (rtOf e.fetchedWord)) size := by
    rw [hexecute]
    refine hbytes.trans ?_
    unfold MemoryStore.WriteFindsBytes
    constructor
    · intro h i hi
      rw [← digit_storedValue hstore _ (Nat.lt_of_lt_of_le hi (MemoryStore.fitting_le _ _ _))]
      exact h i hi
    · intro h i hi
      rw [digit_storedValue hstore _ (Nat.lt_of_lt_of_le hi (MemoryStore.fitting_le _ _ _))]
      exact h i hi
  have hregister : rtOf e.fetchedWord ≠ 0#5 ->
      e.executeInstruction.2.registers (rtOf e.fetchedWord) =
        e.registers (rtOf e.fetchedWord) := by
    intro hrt
    rw [hexecute]
    exact (fetch_registers e _).trans (operand_of_ne hrt)
  unfold FailedAccessHarmless
  constructor
  · intro h hout
    exact hmemory.mp (h hout).1
  · intro h hout
    exact ⟨hmemory.mpr (h hout), hregister⟩

end Instructions

end Emulator

/-- A failing access has no effect exactly when the bytes it has transferred before it fails
were there already, in the memory or in the variable. -/
theorem failed_access_harmless_iff (m : MemoryStore) (hm : m.numEntries < 2 ^ 32)
    (address value size : Word) (e : Emulator) (he : e.memory.numEntries < 2 ^ 32) :
    (((m.setMemValue address value size).1 = -EINVAL ->
        (m.setMemValue address value size).2 = m) <->
      (MemoryStore.validSize size = true -> ¬ m.Inside address size ->
        m.WriteFindsBytes address value size)) ∧
    (((m.getMemValue address value size).1 = -EINVAL ->
        (m.getMemValue address value size).2 = value) <->
      (MemoryStore.validSize size = true -> ¬ m.Inside address size ->
        m.ReadFindsValue address value size)) ∧
    (forall op width, opOf e.fetchedWord = some op -> op.loadSize? = some width ->
      (e.FailedAccessHarmless width <->
        (¬ e.memory.Inside e.dataAddress width -> rtOf e.fetchedWord ≠ 0#5 ->
          e.memory.ReadFindsValue e.dataAddress (e.registers (rtOf e.fetchedWord)) width))) ∧
    (forall op width, opOf e.fetchedWord = some op -> op.storeSize? = some width ->
      (e.FailedAccessHarmless width <->
        (¬ e.memory.Inside e.dataAddress width ->
          e.memory.WriteFindsBytes e.dataAddress (e.operand (rtOf e.fetchedWord)) width))) := by
  refine ⟨MemoryStore.setMemValue_failing_iff hm, MemoryStore.getMemValue_failing_iff hm, ?_, ?_⟩
  · intro op width hop hload
    exact Emulator.failedLoad_harmless_iff he hop hload
  · intro op width hop hstore
    exact Emulator.failedStore_harmless_iff he hop hstore

/-- Two zero bytes in front of the end of a cleared memory, written by a store of a word that
begins with zeros. -/
theorem failed_access_harmless_zeros :
    ((⟨0#32, 8, fun _ => 0#8⟩ : MemoryStore).setMemValue 6#32 0x1122#32 4#32).1 = -EINVAL ∧
      ((⟨0#32, 8, fun _ => 0#8⟩ : MemoryStore).setMemValue 6#32 0x1122#32 4#32).2 =
        ⟨0#32, 8, fun _ => 0#8⟩ := by
  have hharmless := (failed_access_harmless_iff ⟨0#32, 8, fun _ => 0#8⟩ (by decide)
    6#32 0x1122#32 4#32 (Emulator.init ⟨0#32, 8, fun _ => 0#8⟩) (by decide)).1
  have hcode : ((⟨0#32, 8, fun _ => 0#8⟩ : MemoryStore).setMemValue 6#32 0x1122#32 4#32).1 =
      -EINVAL := by
    decide
  refine ⟨hcode, hharmless.mpr ?_ hcode⟩
  intro _ _ i hi
  have hfit : MemoryStore.fittingAt ⟨0#32, 8, fun _ => 0#8⟩ 6#32 4#32 = 2 := by
    decide
  rw [hfit] at hi
  interval_cases i
  · decide
  · decide

/-- A store over the end of the memory writes its first two bytes, and a load outside the
memory clears its register. -/
theorem failed_access_transfers_bytes :
    (exists image address value,
      ((MemoryStore.ofImage image).setMemValue address value wordSize).1 = -EINVAL ∧
        ((MemoryStore.ofImage image).setMemValue address value wordSize).2 ≠
          MemoryStore.ofImage image) ∧
      exists e : Emulator, opOf e.fetchedWord = some .lw ∧ ¬ e.FailedAccessHarmless wordSize := by
  constructor
  · refine ⟨fun _ => 0#8, 0xfffe#32, 0x11223344#32, by decide, ?_⟩
    intro h
    have hbyte := congrArg (fun m => m.byteAt 0xfffe) h
    exact absurd hbyte (by decide)
  · refine ⟨(Emulator.init (MemoryStore.ofImage (MemImage.ofWords
      [0x24010001#32, 0x8c01fffc#32]))).executeInstruction.2, by decide, ?_⟩
    intro h
    have hregister := (h (by decide)).2 (by decide +kernel)
    exact absurd hregister (by decide)

end PipeSim
