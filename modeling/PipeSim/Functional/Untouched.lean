import PipeSim.Functional.StoreLog

/-!
# Bytes that do not matter

Two memories that differ only in bytes that no instruction is fetched from and no load reads
before a store has put them give the same run: the same records, registers and stores.
-/

namespace PipeSim

open Library

namespace MemoryStore

/-- The memories differ at most in bytes for which `P` fails. -/
structure AgreesOn (P : Word -> Prop) (m m' : MemoryStore) : Prop where
  startAddr : m'.startAddr = m.startAddr
  numEntries : m'.numEntries = m.numEntries
  contents : forall b, P b -> m'.contents b = m.contents b

section AgreesOn

variable {m m' : MemoryStore} {P Q : Word -> Prop} {address size : Word}

theorem AgreesOn.fittingAt (h : m.AgreesOn P m') (address size : Word) :
    m'.fittingAt address size = m.fittingAt address size :=
  fittingAt_congr h.startAddr h.numEntries address size

theorem AgreesOn.storedByte (h : m.AgreesOn P m') (w : Write) (b : Word) :
    m'.storedByte w b = m.storedByte w b := by
  unfold MemoryStore.storedByte
  rw [h.fittingAt]

theorem AgreesOn.getMemValue (h : m.AgreesOn P m') (hm : m.numEntries < 2 ^ 32)
    (hsize : validSize size = true)
    (hread : forall i, i < size.toNat -> P (address + BitVec.ofNat 32 i)) (value : Word) :
    (m'.getMemValue address value size).2 = (m.getMemValue address value size).2 := by
  have hm' : m'.numEntries < 2 ^ 32 := by
    rw [h.numEntries]
    exact hm
  rw [getMemValue_readBytes hm hsize, getMemValue_readBytes hm' hsize]
  congr 1
  unfold readBytes
  rw [h.fittingAt]
  apply BigEndian.value_congr
  intro i hi
  rw [h.contents _ (hread i hi)]

theorem agreesOn_setMemValue (hm : m.numEntries < 2 ^ 32) (w : Write)
    (hsize : validSize w.size = true) :
    m.AgreesOn (fun b => m.storedByte w b = none) (m.setMemValue w.address w.value w.size).2 := by
  refine ⟨setMemValue_startAddr hm _ _ _, setMemValue_numEntries hm _ _ _, ?_⟩
  intro b hb
  rw [contents_setMemValue_storedByte hm w hsize, hb, Option.none_or]

theorem AgreesOn.setAll (h : m.AgreesOn P m') (hm : m.numEntries < 2 ^ 32) {ws : List Write}
    (hvalid : forall w, w ∈ ws -> validSize w.size = true)
    (hQ : forall b, Q b -> P b ∨ exists w, w ∈ ws ∧ m.storedByte w b ≠ none) :
    (m.setAll ws).AgreesOn Q (m'.setAll ws) := by
  have hm' : m'.numEntries < 2 ^ 32 := by
    rw [h.numEntries]
    exact hm
  refine ⟨?_, ?_, ?_⟩
  · rw [setAll_startAddr hm, setAll_startAddr hm', h.startAddr]
  · rw [setAll_numEntries hm, setAll_numEntries hm', h.numEntries]
  · intro b hb
    rw [contents_setAll_lastStored hm hvalid, contents_setAll_lastStored hm' hvalid]
    unfold lastStored
    rw [show (fun w => m'.storedByte w b) = fun w => m.storedByte w b from
      funext fun w => h.storedByte w b]
    cases hstored : ws.reverse.findSome? fun w => m.storedByte w b with
    | some byte =>
        rfl
    | none =>
        rcases hQ b hb with hP | ⟨w, hw, hbyte⟩
        · rw [h.contents b hP]
        · rw [List.findSome?_eq_none_iff] at hstored
          exact absurd (hstored w (List.mem_reverse.mpr hw)) hbyte

end AgreesOn

end MemoryStore

namespace Emulator

def withMemory (e : Emulator) (m : MemoryStore) : Emulator := { e with memory := m }

def bytesAt (address size : Word) : List Word :=
  (List.range size.toNat).map fun i => address + BitVec.ofNat 32 i

theorem mem_bytesAt {address size : Word} {i : Nat} (hi : i < size.toNat) :
    address + BitVec.ofNat 32 i ∈ bytesAt address size :=
  List.mem_map.mpr ⟨i, List.mem_range.mpr hi, rfl⟩

/-- The bytes that the instruction at the program counter is fetched from and that it loads. -/
def touched (e : Emulator) : List Word :=
  bytesAt e.PC wordSize ++
    match (opOf e.fetchedWord).bind OpId.loadSize? with
    | some size => bytesAt e.dataAddress size
    | none => []

theorem mem_touched_of_load {e : Emulator} {op : OpId} {size b : Word}
    (hop : opOf e.fetchedWord = some op) (hsize : op.loadSize? = some size)
    (hb : b ∈ bytesAt e.dataAddress size) : b ∈ e.touched := by
  unfold touched
  rw [hop, Option.bind_some, hsize]
  exact List.mem_append_right _ hb

def SameButMemory (executed executed' : InstructionInfo × Emulator) : Prop :=
  executed'.1 = executed.1 ∧ exists m, executed'.2 = executed.2.withMemory m

section Step

variable {e : Emulator} {m : MemoryStore} {P : Word -> Prop}

theorem SameButMemory.ite {P : Prop} [Decidable P]
    {first first' second second' : InstructionInfo × Emulator}
    (hfirst : SameButMemory first first') (hsecond : SameButMemory second second') :
    SameButMemory (if P then first else second) (if P then first' else second') := by
  split
  · exact hfirst
  · exact hsecond

theorem executeOpZero_withMemory (info : InstructionInfo) (e : Emulator) (m : MemoryStore) :
    SameButMemory (executeOpZero info e) (executeOpZero info (e.withMemory m)) := by
  unfold executeOpZero
  dsimp only
  cases FunId.ofCode? info.funct with
  | none =>
      exact ⟨rfl, m, rfl⟩
  | some f =>
      cases f <;> dsimp only
      case add | subu => exact SameButMemory.ite ⟨rfl, m, rfl⟩ ⟨rfl, m, rfl⟩
      all_goals exact ⟨rfl, m, rfl⟩

theorem branchIf_withMemory (info : InstructionInfo) (e : Emulator) (m : MemoryStore)
    (taken : Bool) :
    SameButMemory (branchIf info e taken) (branchIf info (e.withMemory m) taken) := by
  cases taken with
  | true =>
      exact ⟨rfl, m, rfl⟩
  | false =>
      exact ⟨rfl, m, rfl⟩

theorem execute_withMemory {info : InstructionInfo}
    (hload : forall op size, OpId.ofCode? info.opcode = some op -> op.loadSize? = some size ->
      (m.getMemValue (e.reg info.rs + info.signExtImm) (e.reg info.rt) size).2 =
        (e.memory.getMemValue (e.reg info.rs + info.signExtImm) (e.reg info.rt) size).2) :
    SameButMemory (execute info e) (execute info (e.withMemory m)) := by
  unfold execute
  dsimp only
  cases hop : OpId.ofCode? info.opcode with
  | none =>
      exact ⟨rfl, m, rfl⟩
  | some op =>
      have hvalue := fun size => hload op size hop
      cases op <;> dsimp only
      case zero => exact executeOpZero_withMemory info e m
      case addi => exact SameButMemory.ite ⟨rfl, m, rfl⟩ ⟨rfl, m, rfl⟩
      case lbu | lhu | lw =>
        refine ⟨rfl, m, ?_⟩
        exact congrArg (fun value => (e.setReg info.rt value).withMemory m) (hvalue _ rfl)
      case beq | bne | blez | bgtz => exact branchIf_withMemory info e m _
      case sb | sh | sw => exact ⟨rfl, _, rfl⟩
      all_goals exact ⟨rfl, m, rfl⟩

theorem executeInstruction_withMemory (h : e.memory.AgreesOn P m)
    (hm : e.memory.numEntries < 2 ^ 32) (htouch : forall b, b ∈ e.touched -> P b) :
    SameButMemory e.executeInstruction (e.withMemory m).executeInstruction ∧
      (e.withMemory m).storeOf = e.storeOf := by
  have hword : (e.withMemory m).fetchedWord = e.fetchedWord := by
    apply h.getMemValue hm rfl
    intro i hi
    exact htouch _ (List.mem_append_left _ (mem_bytesAt hi))
  have hinfo : (e.withMemory m).fetch.1 = e.fetch.1 := by
    unfold fetch
    rw [hword]
    rfl
  have hfetch : (e.withMemory m).fetch.2 = e.fetch.2.withMemory m := rfl
  constructor
  · by_cases hhalt : e.fetchedWord = haltWord
    · rw [executeInstruction_of_halt hhalt, executeInstruction_of_halt (hword.trans hhalt)]
      exact ⟨hinfo, m, hfetch⟩
    · have hdecoded : (e.withMemory m).decoded = e.decoded := by
        unfold decoded
        rw [hinfo]
        rfl
      rw [executeInstruction_of_not_halt hhalt,
        executeInstruction_of_not_halt (fun heq => hhalt (hword.symm.trans heq)), hdecoded,
        hfetch]
      apply execute_withMemory
      intro op size hop hsize
      have haddress : e.fetch.2.reg e.decoded.rs + e.decoded.signExtImm = e.dataAddress := by
        rw [fetch_reg]
        rfl
      rw [haddress]
      apply h.getMemValue hm (loadSize?_valid hsize)
      intro i hi
      exact htouch _ (mem_touched_of_load hop hsize (mem_bytesAt hi))
  · unfold storeOf dataAddress
    rw [hword]
    rfl

end Step

end Emulator

namespace Functional

def StoredBefore (e : Emulator) (n : Nat) (b : Word) : Prop :=
  exists w, w ∈ stores n e ∧ e.memory.storedByte w b ≠ none

/-- Every byte for which `P` fails is stored before the first `n` instructions touch it. -/
def StoresFirst (P : Word -> Prop) (e : Emulator) (n : Nat) : Prop :=
  forall k, k < n -> forall b, b ∈ (machine.after k e).touched -> P b ∨ StoredBefore e k b

section Run

variable {e : Emulator} {m : MemoryStore} {P : Word -> Prop}

theorem after_agreesOn (h : e.memory.AgreesOn P m) (hm : e.memory.numEntries < 2 ^ 32) {n : Nat}
    (hstores : stores n (e.withMemory m) = stores n e) :
    (machine.after n e).memory.AgreesOn (fun b => P b ∨ StoredBefore e n b)
      (machine.after n (e.withMemory m)).memory := by
  rw [after_memory, after_memory, hstores]
  exact h.setAll hm (fun w => validSize_of_mem_stores) fun b hb => hb

theorem after_withMemory (h : e.memory.AgreesOn P m) (hm : e.memory.numEntries < 2 ^ 32) {n : Nat}
    (hfirst : StoresFirst P e n) :
    machine.after n (e.withMemory m) =
        (machine.after n e).withMemory (machine.after n (e.withMemory m)).memory ∧
      stores n (e.withMemory m) = stores n e := by
  induction n with
  | zero =>
      exact ⟨rfl, rfl⟩
  | succ n ih =>
      rcases ih fun k hk => hfirst k (Nat.lt_succ_of_lt hk) with ⟨hstate, hstores⟩
      have hagree := after_agreesOn h hm hstores
      have hentries : (machine.after n e).memory.numEntries < 2 ^ 32 := by
        rw [after_numEntries hm]
        exact hm
      rcases Emulator.executeInstruction_withMemory hagree hentries
        (hfirst n (Nat.lt_succ_self n)) with ⟨⟨_, m', hnext⟩, hstore⟩
      rw [← hstate] at hnext hstore
      constructor
      · change (machine.after n (e.withMemory m)).executeInstruction.2 =
          (machine.after n e).executeInstruction.2.withMemory
            (machine.after n (e.withMemory m)).executeInstruction.2.memory
        rw [hnext]
        rfl
      · rw [stores, stores, hstores, hstore]

theorem info_withMemory (h : e.memory.AgreesOn P m) (hm : e.memory.numEntries < 2 ^ 32) {n : Nat}
    (hfirst : StoresFirst P e n) {k : Nat} (hk : k < n) :
    (machine.after k (e.withMemory m)).executeInstruction.1 =
      (machine.after k e).executeInstruction.1 := by
  rcases after_withMemory h hm fun j hj => hfirst j (Nat.lt_trans hj hk) with ⟨hstate, hstores⟩
  have hentries : (machine.after k e).memory.numEntries < 2 ^ 32 := by
    rw [after_numEntries hm]
    exact hm
  rw [hstate]
  exact (Emulator.executeInstruction_withMemory (after_agreesOn h hm hstores) hentries
    (hfirst k hk)).1.1

end Run

end Functional

/-- A run is not influenced by bytes of the initial memory that it touches only behind a store
to them.  Each of its instructions gives the same record, everything but the memory is the same
behind it, and the memories agree in all bytes that agreed at the beginning or have been
stored. -/
theorem untouched_bytes_irrelevant (e : Emulator) (m : MemoryStore) (P : Word -> Prop)
    (hm : e.memory.numEntries < 2 ^ 32) (hagree : e.memory.AgreesOn P m) (n : Nat)
    (hfirst : Functional.StoresFirst P e n) :
    (forall k, k < n ->
      (Functional.machine.after k (e.withMemory m)).executeInstruction.1 =
        (Functional.machine.after k e).executeInstruction.1) ∧
      Functional.machine.after n (e.withMemory m) =
        (Functional.machine.after n e).withMemory
          (Functional.machine.after n (e.withMemory m)).memory ∧
      (Functional.machine.after n e).memory.AgreesOn
        (fun b => P b ∨ Functional.StoredBefore e n b)
        (Functional.machine.after n (e.withMemory m)).memory := by
  rcases Functional.after_withMemory hagree hm hfirst with ⟨hstate, hstores⟩
  exact ⟨fun k => Functional.info_withMemory hagree hm hfirst, hstate,
    Functional.after_agreesOn hagree hm hstores⟩

/-- `sw $0, 16($0); lw $1, 16($0)` in front of the halt word. -/
def clearLoadProgram : List Word := [0xac000010#32, 0x8c010010#32, haltWord]

def clearLoadStart : Emulator :=
  Functional.initEmulator (MemoryStore.ofImage (MemImage.ofWords clearLoadProgram))

def clearedDatum : MemoryStore.Write := ⟨16#32, 7#32, wordSize⟩

theorem clearLoad_storedByte (value b : Word) :
    clearLoadStart.memory.storedByte ⟨16#32, value, wordSize⟩ b =
      if (b - 16#32).toNat < 4 then some (BigEndian.digit 256 4 value.toNat (b - 16#32).toNat)
      else none := by
  have hfitting : clearLoadStart.memory.fittingAt 16#32 wordSize = 4 := by decide
  unfold MemoryStore.storedByte
  rw [hfitting]
  rfl

theorem clearLoad_storesFirst : Functional.StoresFirst
    (fun b => clearLoadStart.memory.storedByte clearedDatum b = none) clearLoadStart 3 := by
  have hstore : clearLoadStart.touched = [0#32, 1#32, 2#32, 3#32] := by decide
  have hload : (Functional.machine.after 1 clearLoadStart).touched =
      [4#32, 5#32, 6#32, 7#32, 16#32, 17#32, 18#32, 19#32] := by
    decide
  have hhalt : (Functional.machine.after 2 clearLoadStart).touched =
      [8#32, 9#32, 10#32, 11#32] := by
    decide
  have hstores : Functional.stores 1 clearLoadStart = [⟨16#32, 0#32, wordSize⟩] := by
    decide
  intro k hk b hb
  simp only [clearedDatum, Functional.StoredBefore, clearLoad_storedByte]
  have hcases : k = 0 ∨ k = 1 ∨ k = 2 := by lia
  rcases hcases with rfl | rfl | rfl
  · change b ∈ clearLoadStart.touched at hb
    rw [hstore] at hb
    left
    revert b
    simp
  · rw [hload] at hb
    rw [hstores]
    simp only [List.mem_singleton, exists_eq_left, clearLoad_storedByte]
    revert b
    simp
  · rw [hhalt] at hb
    left
    revert b
    simp

theorem untouched_bytes_irrelevant_clear_load :
    exists m : MemoryStore, m.contents 19#32 = some 7 ∧
      (Functional.machine.after 3 (clearLoadStart.withMemory m)).registers =
        (Functional.machine.after 3 clearLoadStart).registers := by
  have hm : clearLoadStart.memory.numEntries < 2 ^ 32 := by decide
  have hagree := MemoryStore.agreesOn_setMemValue hm clearedDatum rfl
  have hrun := (untouched_bytes_irrelevant clearLoadStart _ _ hm hagree 3 clearLoad_storesFirst).2.1
  refine ⟨_, ?_, (congrArg Emulator.registers hrun).trans rfl⟩
  rw [MemoryStore.contents_setMemValue_storedByte hm clearedDatum rfl]
  rfl

end PipeSim
