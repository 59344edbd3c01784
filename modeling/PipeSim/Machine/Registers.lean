import PipeSim.Machine.Execution
import Mathlib.Tactic.IntervalCases

/-!
# Registers read and written

Which registers an instruction reads and writes can be told from its word.  The
tables of this module follow the switch of `executeInstruction`, and the theorems
show that they are right about it: nothing else is written, the result depends on
nothing else, and the outcome of a branch depends on exactly the registers named.
-/

namespace PipeSim

def rsOf (word : Word) : RegId := regOf (extractBits word 25 21)

def rtOf (word : Word) : RegId := regOf (extractBits word 20 16)

def rdOf (word : Word) : RegId := regOf (extractBits word 15 11)

def opOf (word : Word) : Option OpId := OpId.ofCode? (extractBits word 31 26)

def functOf (word : Word) : Option FunId := FunId.ofCode? (extractBits word 5 0)

/-- The register an instruction writes. -/
def destination? (word : Word) : Option RegId :=
  match opOf word with
  | some .zero =>
      match functOf word with
      | some .jr => none
      | some _ => some (rdOf word)
      | none => none
  | some .addi | some .addiu | some .andi | some .ori | some .slti | some .sltiu
  | some .lui | some .lbu | some .lhu | some .lw => some (rtOf word)
  | some .jal => some 31#5
  | _ => none

/-- The registers from which an instruction other than a branch or a jump computes its
result or its effective address. -/
def operands (word : Word) : List RegId :=
  match opOf word with
  | some .zero =>
      match functOf word with
      | some .jr => []
      | some .sll | some .srl => [rtOf word]
      | some _ => [rsOf word, rtOf word]
      | none => []
  | some .addi | some .addiu | some .andi | some .ori | some .slti | some .sltiu
  | some .lbu | some .lhu | some .lw | some .sb | some .sh | some .sw => [rsOf word]
  | _ => []

/-!
## Nothing else is written
-/

namespace Emulator

@[simp] theorem setReg_registers (e : Emulator) (field value : Word) :
    (e.setReg field value).registers = Function.update e.registers (regOf field) value := rfl

@[simp] theorem takeBranch_registers (e : Emulator) (target : Word) :
    (e.takeBranch target).registers = e.registers := rfl

@[simp] theorem raiseException_registers (e : Emulator) :
    e.raiseException.registers = e.registers := rfl

theorem decoded_op (e : Emulator) : OpId.ofCode? e.decoded.opcode = opOf e.fetchedWord := rfl

theorem decoded_fun (e : Emulator) : FunId.ofCode? e.decoded.funct = functOf e.fetchedWord := rfl

theorem executeOpZero_registers {e : Emulator} {info : InstructionInfo} {r : RegId} {f : FunId}
    (hf : FunId.ofCode? info.funct = some f) (h : f ≠ .jr -> regOf info.rd ≠ r) :
    (executeOpZero info e).2.registers r = e.registers r := by
  unfold executeOpZero
  dsimp only
  rw [hf]
  cases f <;> dsimp only <;> first
    | rfl
    | (have hne := h (by decide)
       split <;> simp [Function.update_of_ne hne.symm])
    | (have hne := h (by decide)
       simp [Function.update_of_ne hne.symm])

theorem executeInstruction_registers {e : Emulator} {r : RegId} (hr : r ≠ 0#5)
    (h : destination? e.fetchedWord ≠ some r) :
    e.executeInstruction.2.registers r = e.registers r := by
  have hfetch : e.fetch.2.registers r = e.registers r := Function.update_of_ne hr _ _
  by_cases hhalt : e.fetchedWord = haltWord
  · rw [executeInstruction_of_halt hhalt, hfetch]
  · rw [executeInstruction_of_not_halt hhalt, ← hfetch]
    unfold execute
    dsimp only
    rw [decoded_op]
    unfold destination? at h
    cases hop : opOf e.fetchedWord with
    | none =>
        rfl
    | some op =>
        rw [hop] at h
        cases op <;> dsimp only [load, store, branchIf] at h ⊢
        case zero =>
            cases hf : functOf e.fetchedWord with
            | none =>
                unfold executeOpZero
                dsimp only
                rw [decoded_fun, hf]
            | some f =>
                rw [hf] at h
                apply executeOpZero_registers ((decoded_fun e).trans hf)
                intro hjr heq
                apply h
                rw [← heq]
                cases f <;> first
                  | rfl
                  | exact absurd rfl hjr
        all_goals first
          | rfl
          | (split <;> rfl)
          | (have hne : r ≠ rtOf e.fetchedWord := fun heq => h (congrArg some heq.symm)
             exact Function.update_of_ne hne _ _)
          | (have hne : r ≠ rtOf e.fetchedWord := fun heq => h (congrArg some heq.symm)
             split
             · rfl
             · exact Function.update_of_ne hne _ _)
          | (have hne : r ≠ 31#5 := fun heq => h (congrArg some heq.symm)
             exact Function.update_of_ne hne _ _)

/-!
## The result depends on the operands only
-/

def withRegisters (e : Emulator) (registers : RegId -> Word) : Emulator :=
  { e with registers := registers }

/-- The two emulators agree in the registers listed, `$0` apart. -/
def AgreeOn (rs : List RegId) (e e' : Emulator) : Prop :=
  forall r, r ∈ rs -> r ≠ 0#5 -> e'.registers r = e.registers r

theorem fetch_reg_of_agreeOn {rs : List RegId} {e : Emulator} {registers : RegId -> Word}
    (h : AgreeOn rs e (e.withRegisters registers)) {field : Word} (hfield : regOf field ∈ rs) :
    (e.withRegisters registers).fetch.2.reg field = e.fetch.2.reg field := by
  unfold reg
  change Function.update registers 0#5 0#32 _ = Function.update e.registers 0#5 0#32 _
  by_cases hzero : regOf field = 0#5
  · rw [hzero, Function.update_self, Function.update_self]
  · rw [Function.update_of_ne hzero, Function.update_of_ne hzero]
    exact h _ hfield hzero

theorem getMemValue_congr {m : MemoryStore} {address size : Word}
    (hsize : MemoryStore.validSize size = true) (value value' : Word) :
    m.getMemValue address value size = m.getMemValue address value' size := by
  unfold MemoryStore.getMemValue
  rw [if_pos hsize, if_pos hsize]

/-- Same record, which includes the effective address, and the same value in the
destination unless an exception was raised. -/
structure SameResult (destination : Option RegId) (x x' : InstructionInfo × Emulator) :
    Prop where
  info : x'.1 = x.1
  value : x.1.completes = true -> forall r, destination = some r ->
    x'.2.registers r = x.2.registers r

theorem sameResult_none {info : InstructionInfo} (e e' : Emulator) :
    SameResult none (info, e) (info, e') where
  info := rfl
  value := by
    intro _ r hr
    cases hr

theorem sameResult_setReg (info : InstructionInfo) (e e' : Emulator) (field value : Word) :
    SameResult (some (regOf field)) (info, e.setReg field value)
      (info, e'.setReg field value) where
  info := rfl
  value := by
    intro _ r hr
    cases hr
    rw [setReg_registers, setReg_registers, Function.update_self, Function.update_self]

theorem sameResult_overflow (info : InstructionInfo) (e e' : Emulator)
    (destination : Option RegId) :
    SameResult destination ({ info with isOverflow := true }, e.raiseException)
      ({ info with isOverflow := true }, e'.raiseException) where
  info := rfl
  value := by
    intro hcompletes
    simp [InstructionInfo.completes] at hcompletes

theorem sameResult_load {info : InstructionInfo} {e e' : Emulator} {size : Word}
    (hmemory : e'.memory = e.memory) (ha : e'.reg info.rs = e.reg info.rs)
    (hsize : MemoryStore.validSize size = true) :
    SameResult (some (regOf info.rt)) (load info e size) (load info e' size) := by
  unfold load
  dsimp only
  rw [ha, hmemory, getMemValue_congr hsize (e'.reg info.rt) (e.reg info.rt)]
  exact sameResult_setReg _ e e' _ _

theorem executeOpZero_operands {info : InstructionInfo} {e e' : Emulator} {f : FunId}
    (hf : FunId.ofCode? info.funct = some f)
    (ha : f ≠ .jr -> f ≠ .sll -> f ≠ .srl -> e'.reg info.rs = e.reg info.rs)
    (hb : f ≠ .jr -> e'.reg info.rt = e.reg info.rt) :
    SameResult (if f = .jr then none else some (regOf info.rd)) (executeOpZero info e)
      (executeOpZero info e') := by
  unfold executeOpZero
  dsimp only
  rw [hf]
  by_cases hjr : f = .jr
  · subst hjr
    exact sameResult_none _ _
  · rw [if_neg hjr, hb hjr]
    cases f <;> dsimp only <;> first
      | exact sameResult_setReg info e e' _ _
      | exact absurd rfl hjr
      | (rw [ha (by decide) (by decide) (by decide)]
         exact sameResult_setReg info e e' _ _)
      | (rw [ha (by decide) (by decide) (by decide)]
         split
         · exact sameResult_overflow info e e' _
         · exact sameResult_setReg info e e' _ _)

/-- Two executions of an instruction that agree in its operands compute the same
effective address and the same result. -/
theorem executeInstruction_operands {e : Emulator} {registers : RegId -> Word}
    (h : AgreeOn (operands e.fetchedWord) e (e.withRegisters registers)) :
    SameResult (destination? e.fetchedWord) e.executeInstruction
      (e.withRegisters registers).executeInstruction := by
  have hword : (e.withRegisters registers).fetchedWord = e.fetchedWord := rfl
  by_cases hhalt : e.fetchedWord = haltWord
  · have hnone : destination? haltWord = none := by decide
    rw [executeInstruction_of_halt hhalt, executeInstruction_of_halt (hword.trans hhalt),
      hhalt, hnone]
    exact sameResult_none _ _
  · rw [executeInstruction_of_not_halt hhalt,
      executeInstruction_of_not_halt (hword.trans_ne hhalt)]
    have hdecoded : (e.withRegisters registers).decoded = e.decoded := rfl
    have hmemory : (e.withRegisters registers).fetch.2.memory = e.fetch.2.memory := rfl
    have hPC : (e.withRegisters registers).fetch.2.PC = e.fetch.2.PC := rfl
    have hreg : forall field, regOf field ∈ operands e.fetchedWord ->
        (e.withRegisters registers).fetch.2.reg field = e.fetch.2.reg field :=
      fun field hfield => fetch_reg_of_agreeOn h hfield
    rw [hdecoded]
    generalize (e.withRegisters registers).fetch.2 = f' at hmemory hPC hreg
    unfold execute
    dsimp only
    rw [decoded_op]
    unfold destination?
    unfold operands at hreg
    cases hop : opOf e.fetchedWord with
    | none =>
        exact sameResult_none _ _
    | some op =>
        rw [hop] at hreg
        cases op <;> dsimp only [branchIf, store] at hreg ⊢
        case zero =>
            cases hf : functOf e.fetchedWord with
            | none =>
                unfold executeOpZero
                dsimp only
                rw [decoded_fun, hf]
                exact sameResult_none _ _
            | some f =>
                rw [hf] at hreg
                have hresult := @executeOpZero_operands _ e.fetch.2 f' f
                  ((decoded_fun e).trans hf)
                  (by
                    intro hjr hsll hsrl
                    apply hreg
                    cases f <;> first
                      | exact List.mem_cons_self
                      | exact absurd rfl hjr
                      | exact absurd rfl hsll
                      | exact absurd rfl hsrl)
                  (by
                    intro hjr
                    apply hreg
                    cases f <;> first
                      | exact List.mem_singleton_self _
                      | exact List.mem_cons_of_mem _ (List.mem_singleton_self _)
                      | exact absurd rfl hjr)
                cases f <;> exact hresult
        case jal =>
            rw [hPC]
            refine ⟨rfl, ?_⟩
            intro _ r hr
            cases hr
            have hlink : regOf 31#32 = 31#5 := rfl
            rw [takeBranch_registers, takeBranch_registers, setReg_registers,
              setReg_registers, hlink, Function.update_self, Function.update_self]
        all_goals first
          | exact sameResult_none _ _
          | exact sameResult_setReg _ _ _ _ _
          | (have ha := hreg e.decoded.rs (List.mem_singleton_self _)
             rw [ha]
             exact sameResult_setReg _ _ _ _ _)
          | (have ha := hreg e.decoded.rs (List.mem_singleton_self _)
             rw [ha]
             split
             · exact sameResult_overflow _ _ _ _
             · exact sameResult_setReg _ _ _ _ _)
          | (have ha := hreg e.decoded.rs (List.mem_singleton_self _)
             exact sameResult_load hmemory ha rfl)
          | (have ha := hreg e.decoded.rs (List.mem_singleton_self _)
             rw [ha]
             exact sameResult_none _ _)

/-!
## The outcome of a branch
-/

def branchTaken (e : Emulator) : Bool := e.executeInstruction.2.encounteredBranch

def outcome (word a b : Word) : Bool :=
  match opOf word with
  | some .beq => a == b
  | some .bne => a != b
  | some .blez => a == 0#32 || a &&& 0x80000000#32 != 0#32
  | some .bgtz => a &&& 0x80000000#32 == 0#32 && a != 0#32
  | some .j | some .jal => true
  | some .zero => decide (functOf word = some .jr)
  | _ => false

theorem executeOpZero_encounteredBranch (info : InstructionInfo) (e : Emulator)
    (h : e.encounteredBranch = false) :
    (executeOpZero info e).2.encounteredBranch =
      decide (FunId.ofCode? info.funct = some .jr) := by
  unfold executeOpZero
  dsimp only
  cases FunId.ofCode? info.funct with
  | none =>
      exact h
  | some f =>
      cases f <;> dsimp only <;> first
        | exact h
        | rfl
        | (split <;> exact h)

theorem branchTaken_eq {e : Emulator} (hhalt : e.fetchedWord ≠ haltWord) :
    branchTaken e = outcome e.fetchedWord (e.fetch.2.reg e.decoded.rs)
      (e.fetch.2.reg e.decoded.rt) := by
  have hclear : e.fetch.2.encounteredBranch = false := rfl
  unfold branchTaken outcome
  rw [executeInstruction_of_not_halt hhalt]
  unfold execute
  dsimp only
  rw [decoded_op]
  cases hop : opOf e.fetchedWord with
  | none =>
      rfl
  | some op =>
      cases op <;> dsimp only [load, store, branchIf] <;> first
        | rfl
        | exact executeOpZero_encounteredBranch e.decoded e.fetch.2 hclear
        | (split <;> rfl)
        | (split <;> simp_all [takeBranch])

/-- Some contents of `r` change whether the instruction leaves a branch pending. -/
def OutcomeDependsOn (word : Word) (r : RegId) : Prop :=
  exists e value, e.fetchedWord = word ∧
    branchTaken (e.withRegisters (Function.update e.registers r value)) ≠ branchTaken e

def branchSources (word : Word) : List RegId :=
  match opOf word with
  | some .beq | some .bne =>
      if rsOf word = rtOf word then [] else [rsOf word, rtOf word]
  | some .blez | some .bgtz => [rsOf word]
  | _ => []

theorem fetch_reg_update (e : Emulator) (r : RegId) (value field : Word) :
    (e.withRegisters (Function.update e.registers r value)).fetch.2.reg field =
      if regOf field = r ∧ r ≠ 0#5 then value else e.fetch.2.reg field := by
  unfold reg
  change Function.update (Function.update e.registers r value) 0#5 0#32 (regOf field) =
    if regOf field = r ∧ r ≠ 0#5 then value
    else Function.update e.registers 0#5 0#32 (regOf field)
  by_cases hzero : regOf field = 0#5
  · rw [hzero, Function.update_self, Function.update_self, if_neg]
    intro h
    rcases h with ⟨heq, hne⟩
    exact hne heq.symm
  · rw [Function.update_of_ne hzero, Function.update_of_ne hzero]
    by_cases hr : regOf field = r
    · subst hr
      rw [Function.update_self, if_pos ⟨rfl, hzero⟩]
    · rw [Function.update_of_ne hr, if_neg fun h => hr h.1]

theorem mem_branchSources_of_outcomeDependsOn {word : Word} {r : RegId}
    (h : OutcomeDependsOn word r) : r ≠ 0#5 ∧ r ∈ branchSources word := by
  rcases h with ⟨e, value, rfl, hne⟩
  by_cases hhalt : e.fetchedWord = haltWord
  · apply absurd _ hne
    have hhalt' : (e.withRegisters (Function.update e.registers r value)).fetchedWord =
        haltWord := hhalt
    unfold branchTaken
    rw [executeInstruction_of_halt hhalt, executeInstruction_of_halt hhalt']
    rfl
  · rw [branchTaken_eq hhalt, branchTaken_eq (show
      (e.withRegisters (Function.update e.registers r value)).fetchedWord ≠ haltWord
      from hhalt)] at hne
    change outcome e.fetchedWord
      ((e.withRegisters (Function.update e.registers r value)).fetch.2.reg e.decoded.rs)
      ((e.withRegisters (Function.update e.registers r value)).fetch.2.reg e.decoded.rt) ≠ _
      at hne
    rw [fetch_reg_update, fetch_reg_update] at hne
    have hrs : regOf e.decoded.rs = rsOf e.fetchedWord := rfl
    have hrt : regOf e.decoded.rt = rtOf e.fetchedWord := rfl
    rw [hrs, hrt] at hne
    refine ⟨?_, ?_⟩
    · intro heq
      subst heq
      exact hne (by simp)
    · by_contra hmem
      apply hne
      unfold outcome
      unfold branchSources at hmem
      have hsame : rsOf e.fetchedWord = rtOf e.fetchedWord ->
          e.fetch.2.reg e.decoded.rs = e.fetch.2.reg e.decoded.rt :=
        fun heq => congrArg e.fetch.2.registers heq
      have heither : (r ∉ if rsOf e.fetchedWord = rtOf e.fetchedWord then []
            else [rsOf e.fetchedWord, rtOf e.fetchedWord]) ->
          rsOf e.fetchedWord = rtOf e.fetchedWord ∨
            (rsOf e.fetchedWord ≠ r ∧ rtOf e.fetchedWord ≠ r) := by
        intro hnot
        by_cases heq : rsOf e.fetchedWord = rtOf e.fetchedWord
        · exact Or.inl heq
        · rw [if_neg heq, List.mem_cons, List.mem_singleton, not_or] at hnot
          exact Or.inr ⟨fun h => hnot.1 h.symm, fun h => hnot.2 h.symm⟩
      cases hop : opOf e.fetchedWord with
      | none =>
          rfl
      | some op =>
          rw [hop] at hmem
          cases op <;> dsimp only at hmem ⊢
          case beq =>
              rcases heither hmem with heq | ⟨hrs, hrt⟩
              · rw [heq, hsame heq]
                simp
              · rw [if_neg fun h => hrs h.1, if_neg fun h => hrt h.1]
          case bne =>
              rcases heither hmem with heq | ⟨hrs, hrt⟩
              · rw [heq, hsame heq]
                simp
              · rw [if_neg fun h => hrs h.1, if_neg fun h => hrt h.1]
          case blez =>
              rw [if_neg fun h => hmem (List.mem_singleton.mpr h.1.symm)]
          case bgtz =>
              rw [if_neg fun h => hmem (List.mem_singleton.mpr h.1.symm)]

theorem join_bytes (w : Word) :
    (((w >>> 24).setWidth 8 : Byte).setWidth 32 <<< 24 |||
      ((w >>> 16).setWidth 8 : Byte).setWidth 32 <<< 16 |||
      ((w >>> 8).setWidth 8 : Byte).setWidth 32 <<< 8 |||
      (w.setWidth 8 : Byte).setWidth 32) = w := by
  apply BitVec.eq_of_getLsbD_eq
  intro i hi
  simp only [BitVec.getLsbD_or, BitVec.getLsbD_shiftLeft, BitVec.getLsbD_setWidth,
    BitVec.getLsbD_ushiftRight]
  interval_cases i <;> simp

theorem fetchedWord_init_ofWords (w : Word) :
    (init (MemoryStore.ofImage (MemImage.ofWords [w]))).fetchedWord = w := by
  have hbytes := join_bytes w
  simp [fetchedWord, init, MemoryStore.getMemValue, MemoryStore.validSize,
    MemoryStore.getLoop, wordSize, MemoryStore.at?, MemoryStore.ofImage, MemImage.ofWords,
    memorySize, MemoryStore.byteShift, byteSize, halfSize]
  exact hbytes

theorem outcomeDependsOn_of_mem_branchSources {word : Word} {r : RegId} (hr : r ≠ 0#5)
    (hmem : r ∈ branchSources word) : OutcomeDependsOn word r := by
  refine ⟨init (MemoryStore.ofImage (MemImage.ofWords [word])), 1#32,
    fetchedWord_init_ofWords word, ?_⟩
  have hword := fetchedWord_init_ofWords word
  generalize hinit : init (MemoryStore.ofImage (MemImage.ofWords [word])) = e at hword ⊢
  have hzero : forall field, e.fetch.2.reg field = 0#32 := by
    intro field
    rw [← hinit]
    unfold reg
    change Function.update (fun _ => 0#32) 0#5 0#32 (regOf field) = 0#32
    by_cases hfield : regOf field = 0#5
    · rw [hfield, Function.update_self]
    · rw [Function.update_of_ne hfield]
  have hhalt : e.fetchedWord ≠ haltWord := by
    intro heq
    rw [← hword, heq] at hmem
    exact absurd hmem (by decide +revert)
  rw [branchTaken_eq hhalt, branchTaken_eq (show
    (e.withRegisters (Function.update e.registers r 1#32)).fetchedWord ≠ haltWord from hhalt)]
  change outcome e.fetchedWord
    ((e.withRegisters (Function.update e.registers r 1#32)).fetch.2.reg e.decoded.rs)
    ((e.withRegisters (Function.update e.registers r 1#32)).fetch.2.reg e.decoded.rt) ≠ _
  rw [fetch_reg_update, fetch_reg_update, hzero, hzero]
  have hrs : regOf e.decoded.rs = rsOf e.fetchedWord := rfl
  have hrt : regOf e.decoded.rt = rtOf e.fetchedWord := rfl
  rw [hrs, hrt, hword]
  unfold outcome
  unfold branchSources at hmem
  have heither : (r ∈ if rsOf word = rtOf word then [] else [rsOf word, rtOf word]) ->
      (rsOf word = r ∧ rtOf word ≠ r) ∨ (rtOf word = r ∧ rsOf word ≠ r) := by
    intro hin
    by_cases heq : rsOf word = rtOf word
    · rw [if_pos heq] at hin
      cases hin
    · rw [if_neg heq, List.mem_cons, List.mem_singleton] at hin
      rcases hin with rfl | rfl
      · exact Or.inl ⟨rfl, fun h => heq h.symm⟩
      · exact Or.inr ⟨rfl, heq⟩
  cases hop : opOf word with
  | none =>
      rw [hop] at hmem
      cases hmem
  | some op =>
      rw [hop] at hmem
      cases op <;> dsimp only at hmem ⊢ <;> first
        | exact absurd hmem List.not_mem_nil
        | skip
      case beq =>
          rcases heither hmem with ⟨heq, hne⟩ | ⟨heq, hne⟩
          · rw [if_pos ⟨heq, hr⟩, if_neg fun h => hne h.1]
            decide
          · rw [if_neg fun h => hne h.1, if_pos ⟨heq, hr⟩]
            decide
      case bne =>
          rcases heither hmem with ⟨heq, hne⟩ | ⟨heq, hne⟩
          · rw [if_pos ⟨heq, hr⟩, if_neg fun h => hne h.1]
            decide
          · rw [if_neg fun h => hne h.1, if_pos ⟨heq, hr⟩]
            decide
      case blez =>
          rw [if_pos ⟨(List.mem_singleton.mp hmem).symm, hr⟩]
          decide
      case bgtz =>
          rw [if_pos ⟨(List.mem_singleton.mp hmem).symm, hr⟩]
          decide

/-- The outcome of an instruction depends on its branch sources and on nothing else. -/
theorem outcomeDependsOn_iff {word : Word} {r : RegId} :
    OutcomeDependsOn word r <-> r ≠ 0#5 ∧ r ∈ branchSources word :=
  ⟨mem_branchSources_of_outcomeDependsOn,
    fun h => outcomeDependsOn_of_mem_branchSources h.1 h.2⟩

end Emulator

end PipeSim
