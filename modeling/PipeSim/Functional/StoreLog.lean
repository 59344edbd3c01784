import PipeSim.Functional.Simulator
import PipeSim.Machine.FailedAccess
import PipeSim.Machine.WriteHistory

/-!
# The memory of a run

The memory behind any number of instructions is given by the stores among them: a byte is the
one that the latest store to reach it has put, also when the store ran over the end of the
memory and failed there.  Loads and instruction fetches see these bytes, and zeros from the
end of the memory on.
-/

namespace PipeSim

open Library

/-!
## Writes that may fail
-/

namespace MemoryStore

/-- The byte a write puts at an address, if it gets there. -/
def storedByte (m : MemoryStore) (w : Write) (address : Word) : Option Nat :=
  if (address - w.address).toNat < m.fittingAt w.address w.size then
    some (BigEndian.digit 256 w.size.toNat w.value.toNat (address - w.address).toNat)
  else none

/-- The byte the latest of the writes to get there put at an address, or else the initial
one. -/
def lastStored (m : MemoryStore) (ws : List Write) (address : Word) : Option Nat :=
  (ws.reverse.findSome? fun w => m.storedByte w address).or (m.contents address)

/-- What an access of `size` bytes reads from the bytes at the addresses, with zeros from the
end of the memory on. -/
def readBytes (m : MemoryStore) (bytes : Word -> Option Nat) (address size : Word) : Nat :=
  BigEndian.value 256
    (fun i => if i < m.fittingAt address size then
      (bytes (address + BitVec.ofNat 32 i)).getD 0 else 0) size.toNat

section Writes

variable {m : MemoryStore} {address size : Word}

theorem contents_setMemValue_storedByte (hm : m.numEntries < 2 ^ 32) (w : Write)
    (hsize : validSize w.size = true) (b : Word) :
    (m.setMemValue w.address w.value w.size).2.contents b =
      (m.storedByte w b).or (m.contents b) := by
  have hfitting : m.fittingAt w.address w.size ≤ w.size.toNat := fitting_le m _ _
  have hfour := (validSize_bounds hsize).2
  have hnat : (BitVec.ofNat 32 (m.fittingAt w.address w.size)).toNat =
      m.fittingAt w.address w.size := by
    rw [BitVec.toNat_ofNat, Nat.mod_eq_of_lt (by lia)]
  rw [setMemValue_eq hm hsize]
  unfold storedByte
  by_cases hnone : m.fittingAt w.address w.size = 0
  · rw [hnone, poke_zero, if_neg (Nat.not_lt_zero _), Option.none_or]
  · have hroom := fittingAt_le m w.address w.size
    have hinside : m.Inside w.address (BitVec.ofNat 32 (m.fittingAt w.address w.size)) := by
      unfold Inside
      rw [hnat]
      lia
    have hcovered := covered_iff hm hinside b
    have hdistance := fun h => sub_offset hm hinside (b := b) h
    rw [hnat] at hcovered hdistance
    have hoffset : (m.poke (m.offset w.address) (byteOf w.value w.size.toNat)
        (m.fittingAt w.address w.size)).offset b = m.offset b := rfl
    unfold contents
    rw [hoffset, poke_numEntries]
    by_cases hb : (b - w.address).toNat < m.fittingAt w.address w.size
    · have hin : m.offset b < m.numEntries := by
        have hlast := (hcovered.mpr hb).2
        lia
      rw [if_pos hb, if_pos hin, Option.some_or]
      unfold byteAt poke
      dsimp only
      rw [dif_pos hin, if_pos (hcovered.mpr hb), toNat_byteOf, hdistance hb]
    · rw [if_neg hb, Option.none_or]
      unfold byteAt poke
      simp only [if_neg fun h => hb (hcovered.mp h)]

theorem fittingAt_congr {m' : MemoryStore} (hstart : m'.startAddr = m.startAddr)
    (hentries : m'.numEntries = m.numEntries) (address size : Word) :
    m'.fittingAt address size = m.fittingAt address size := by
  unfold fittingAt fitting offset
  rw [hstart, hentries]

theorem contents_setAll_lastStored (hm : m.numEntries < 2 ^ 32) {ws : List Write}
    (h : forall w, w ∈ ws -> validSize w.size = true) (b : Word) :
    (m.setAll ws).contents b = m.lastStored ws b := by
  induction ws generalizing m with
  | nil =>
      rfl
  | cons w ws ih =>
      have hstart := setMemValue_startAddr hm w.address w.value w.size
      have hentries := setMemValue_numEntries hm w.address w.value w.size
      have hstored : (fun v => (m.setMemValue w.address w.value w.size).2.storedByte v b) =
          fun v => m.storedByte v b := by
        funext v
        unfold storedByte
        rw [fittingAt_congr hstart hentries]
      rw [setAll, ih (by rw [hentries]; exact hm) fun v hv => h v (List.mem_cons_of_mem w hv)]
      unfold lastStored
      rw [hstored, contents_setMemValue_storedByte hm w (h w List.mem_cons_self),
        List.reverse_cons, List.findSome?_append, List.findSome?_singleton, Option.or_assoc]

theorem value_zeros (f : Nat -> Nat) (k count : Nat) :
    BigEndian.value 256 (fun i => if i < k then f i else 0) (k + count) =
      BigEndian.value 256 f k * 256 ^ count := by
  induction count with
  | zero =>
      rw [Nat.add_zero, Nat.pow_zero, Nat.mul_one]
      exact BigEndian.value_congr fun i hi => if_pos hi
  | succ count ih =>
      rw [← Nat.add_assoc, BigEndian.value, ih, if_neg (by lia), Nat.add_zero, Nat.pow_succ,
        Nat.mul_assoc]

theorem getMemValue_readBytes (hm : m.numEntries < 2 ^ 32) (hsize : validSize size = true)
    (address value : Word) :
    (m.getMemValue address value size).2 =
      BitVec.ofNat 32 (m.readBytes m.contents address size) := by
  have hle : m.fittingAt address size ≤ size.toNat := fitting_le m _ _
  have hroom := fittingAt_le m address size
  have hsplit : m.fittingAt address size + (size.toNat - m.fittingAt address size) =
      size.toNat := by
    lia
  have hbytes : m.readBytes m.contents address size =
      m.partialValue (m.offset address) size.toNat (m.fittingAt address size) := by
    have hzeros := value_zeros
      (fun i => (m.contents (address + BitVec.ofNat 32 i)).getD 0)
      (m.fittingAt address size) (size.toNat - m.fittingAt address size)
    rw [hsplit] at hzeros
    unfold readBytes partialValue
    rw [hzeros]
    congr 1
    apply BigEndian.value_congr
    intro i hi
    unfold contents
    rw [offset_add (by lia), if_pos (by lia)]
    rfl
  rw [getMemValue_eq hm hsize, hbytes]

theorem readBytes_congr {m' : MemoryStore} {bytes bytes' : Word -> Option Nat}
    (hfitting : m'.fittingAt address size = m.fittingAt address size)
    (hbytes : forall b, bytes' b = bytes b) :
    m'.readBytes bytes' address size = m.readBytes bytes address size := by
  unfold readBytes
  rw [hfitting]
  apply BigEndian.value_congr
  intro i _
  rw [hbytes]

end Writes

end MemoryStore

/-!
## The stores of a run
-/

namespace Emulator

def storeOf (e : Emulator) : Option MemoryStore.Write :=
  (opOf e.fetchedWord).bind fun op =>
    op.storeSize?.map fun size =>
      ⟨e.dataAddress, storedValue op (e.operand (rtOf e.fetchedWord)), size⟩

section Step

variable {e : Emulator}

theorem executeOpZero_memory (info : InstructionInfo) (e : Emulator) :
    (executeOpZero info e).2.memory = e.memory := by
  unfold executeOpZero
  dsimp only
  split
  case h_1 | h_12 =>
    split
    · rfl
    · rfl
  all_goals rfl

theorem execute_memory {info : InstructionInfo} {op : OpId}
    (hop : OpId.ofCode? info.opcode = some op) (hstore : op.storeSize? = none) :
    (execute info e).2.memory = e.memory := by
  unfold execute
  dsimp only
  rw [hop]
  cases op
  case sb | sh | sw => cases hstore
  case zero => exact executeOpZero_memory info e
  case addi =>
    dsimp only
    split
    · rfl
    · rfl
  case beq | bne | blez | bgtz =>
    dsimp only [branchIf]
    split
    · rfl
    · rfl
  all_goals rfl

theorem executeInstruction_memory (e : Emulator) :
    e.executeInstruction.2.memory = e.memory.setAll e.storeOf.toList := by
  unfold storeOf
  cases hop : opOf e.fetchedWord with
  | none =>
      by_cases hhalt : e.fetchedWord = haltWord
      · rw [executeInstruction_of_halt hhalt]
        rfl
      · rw [executeInstruction_of_not_halt hhalt]
        unfold execute
        rw [decoded_op, hop]
        rfl
  | some op =>
      dsimp only [Option.bind]
      cases hstore : op.storeSize? with
      | none =>
          rw [executeInstruction_of_op hop,
            execute_memory ((decoded_op e).trans hop) hstore]
          rfl
      | some size =>
          rw [executeInstruction_of_store hop hstore]
          rfl

theorem validSize_of_storeOf {w : MemoryStore.Write} (h : e.storeOf = some w) :
    MemoryStore.validSize w.size = true := by
  unfold storeOf at h
  cases hop : opOf e.fetchedWord with
  | none =>
      rw [hop] at h
      cases h
  | some op =>
      rw [hop, Option.bind_some, Option.map_eq_some_iff] at h
      rcases h with ⟨size, hstore, rfl⟩
      exact storeSize?_valid hstore

end Step

end Emulator

namespace Functional

def stores : Nat -> Emulator -> List MemoryStore.Write
  | 0, _ => []
  | n + 1, e => stores n e ++ (machine.after n e).storeOf.toList

section Run

variable {e : Emulator}

theorem validSize_of_mem_stores {n : Nat} {w : MemoryStore.Write} (h : w ∈ stores n e) :
    MemoryStore.validSize w.size = true := by
  induction n with
  | zero =>
      cases h
  | succ n ih =>
      rw [stores, List.mem_append, Option.mem_toList] at h
      rcases h with hbefore | hlast
      · exact ih hbefore
      · exact Emulator.validSize_of_storeOf hlast

theorem after_memory (n : Nat) (e : Emulator) :
    (machine.after n e).memory = e.memory.setAll (stores n e) := by
  induction n with
  | zero =>
      rfl
  | succ n ih =>
      change (machine.after n e).executeInstruction.2.memory = _
      rw [Emulator.executeInstruction_memory, ih, stores]
      cases (machine.after n e).storeOf with
      | none =>
          rw [Option.toList_none, List.append_nil]
          rfl
      | some w =>
          rw [Option.toList_some, MemoryStore.setAll_append]
          rfl

theorem after_startAddr (hm : e.memory.numEntries < 2 ^ 32) (n : Nat) :
    (machine.after n e).memory.startAddr = e.memory.startAddr := by
  rw [after_memory]
  exact MemoryStore.setAll_startAddr hm _

theorem after_numEntries (hm : e.memory.numEntries < 2 ^ 32) (n : Nat) :
    (machine.after n e).memory.numEntries = e.memory.numEntries := by
  rw [after_memory]
  exact MemoryStore.setAll_numEntries hm _

theorem after_contents (hm : e.memory.numEntries < 2 ^ 32) (n : Nat) (b : Word) :
    (machine.after n e).memory.contents b = e.memory.lastStored (stores n e) b := by
  rw [after_memory]
  exact MemoryStore.contents_setAll_lastStored hm (fun w => validSize_of_mem_stores) b

theorem after_getMemValue (hm : e.memory.numEntries < 2 ^ 32) (n : Nat) {size : Word}
    (hsize : MemoryStore.validSize size = true) (address value : Word) :
    ((machine.after n e).memory.getMemValue address value size).2 =
      BitVec.ofNat 32
        (e.memory.readBytes (e.memory.lastStored (stores n e)) address size) := by
  have hentries := after_numEntries hm n
  have hfitting := MemoryStore.fittingAt_congr (after_startAddr hm n) hentries address size
  rw [MemoryStore.getMemValue_readBytes (by rw [hentries]; exact hm) hsize,
    MemoryStore.readBytes_congr hfitting (after_contents hm n)]

end Run

end Functional

/-- In front of every instruction of a run each byte is the one that the latest store to get
there has put, or else the initial one; the instruction itself is fetched from these bytes,
and a load takes them to its register. -/
theorem memory_of_last_stores (e : Emulator) (hm : e.memory.numEntries < 2 ^ 32) (n : Nat) :
    (forall address, (Functional.machine.after n e).memory.contents address =
      e.memory.lastStored (Functional.stores n e) address) ∧
    (Functional.machine.after n e).fetchedWord =
      BitVec.ofNat 32 (e.memory.readBytes (e.memory.lastStored (Functional.stores n e))
        (Functional.machine.after n e).PC wordSize) ∧
    forall op size, opOf (Functional.machine.after n e).fetchedWord = some op ->
      op.loadSize? = some size ->
        (Functional.machine.after (n + 1) e).registers
            (rtOf (Functional.machine.after n e).fetchedWord) =
          BitVec.ofNat 32 (e.memory.readBytes (e.memory.lastStored (Functional.stores n e))
            (Functional.machine.after n e).dataAddress size) := by
  refine ⟨Functional.after_contents hm n, ?_, ?_⟩
  · exact Functional.after_getMemValue hm n rfl _ _
  · intro op size hop hload
    change (Functional.machine.after n e).executeInstruction.2.registers _ = _
    rw [Emulator.executeInstruction_of_load hop hload,
      ← Functional.after_getMemValue hm n (Emulator.loadSize?_valid hload)]
    exact Function.update_self _ _ _

/-- `ori $1, $0, 0xfffe; sw $1, -1($1); lw $2, -1($1)`, with three of the four bytes inside the
memory. -/
def lastBytesProgram : List Word := [0x3401fffe#32, 0xac21ffff#32, 0x8c22ffff#32]

theorem memory_of_last_stores_overrun :
    (Functional.machine.after 3 (Functional.initEmulator
      (MemoryStore.ofImage (MemImage.ofWords lastBytesProgram)))).registers 2#5 =
        0x0000ff00#32 :=
  ((memory_of_last_stores (Functional.initEmulator
    (MemoryStore.ofImage (MemImage.ofWords lastBytesProgram))) (by decide) 2).2.2 .lw wordSize
      (by decide) rfl).trans (by decide)

end PipeSim
