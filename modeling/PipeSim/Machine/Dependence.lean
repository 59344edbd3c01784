import PipeSim.Machine.Traps

/-!
# What an instruction depends on

A branch or an operation is decided by the contents of the two registers its fields
name.  Some fields do not matter, and for some words not even the contents do: an
operand is masked away, shifted against itself or compared with itself.  The table
`sources` leaves these out, and the main theorem says that it is exact.
-/

namespace PipeSim

/-- The words that `executeInstruction` does not report as illegal. -/
def validWord (word : Word) : Bool :=
  word == haltWord ||
    match opOf word with
    | some .zero => (functOf word).isSome
    | some _ => true
    | none => false

namespace Emulator

theorem executeOpZero_isValid (info : InstructionInfo) (e : Emulator)
    (hinfo : info.isValid = true) :
    (executeOpZero info e).1.isValid = (FunId.ofCode? info.funct).isSome := by
  unfold executeOpZero
  dsimp only
  cases FunId.ofCode? info.funct with
  | none =>
      rfl
  | some f =>
      cases f <;> dsimp only <;> first
        | exact hinfo
        | (split <;> exact hinfo)

theorem executeInstruction_isValid (e : Emulator) :
    e.executeInstruction.1.isValid = validWord e.fetchedWord := by
  unfold validWord
  by_cases hhalt : e.fetchedWord = haltWord
  · rw [executeInstruction_of_halt hhalt, hhalt]
    rfl
  · rw [executeInstruction_of_not_halt hhalt, beq_eq_false_iff_ne.mpr hhalt, Bool.false_or]
    unfold execute
    dsimp only
    rw [decoded_op]
    cases hop : opOf e.fetchedWord with
    | none =>
        rfl
    | some op =>
        cases op <;> dsimp only [load, store, branchIf] <;> first
          | rfl
          | exact executeOpZero_isValid e.decoded e.fetch.2 rfl
          | (split <;> rfl)

/-!
## Results
-/

/-- What executing an instruction produces: its record with the addresses and exceptions,
the memory, where control goes, and the value written unless it trapped. -/
structure Result where
  info : InstructionInfo
  memory : MemoryStore
  PC : Word
  encounteredBranch : Bool
  savedBranch : Word
  din : Word
  written : Option Word

def result (e : Emulator) : Result where
  info := e.executeInstruction.1
  memory := e.executeInstruction.2.memory
  PC := e.executeInstruction.2.PC
  encounteredBranch := e.executeInstruction.2.encounteredBranch
  savedBranch := e.executeInstruction.2.savedBranch
  din := e.executeInstruction.2.din
  written :=
    if e.executeInstruction.1.completes then
      (destination? e.fetchedWord).map e.executeInstruction.2.registers
    else none

/-- Two states that differ only in the contents of `r` can give the instruction different
results. -/
def Reads (word : Word) (r : RegId) : Prop :=
  exists (e : Emulator) (value : Word), e.fetchedWord = word ∧
    (e.withRegisters (Function.update e.registers r value)).result ≠ e.result

/-- The value an operation computes from the contents of its two fields, none if it
traps. -/
def aluValue (word a b : Word) : Option Word :=
  let imm := immOf word
  match opOf word with
  | some .zero =>
      match functOf word with
      | some .add => if addOverflows a b then none else some (a + b)
      | some .addu => some (a + b)
      | some .and => some (a &&& b)
      | some .nor => some (~~~(a ||| b))
      | some .or => some (a ||| b)
      | some .slt => some (if a.toInt < b.toInt then 1#32 else 0#32)
      | some .sltu => some (if a < b then 1#32 else 0#32)
      | some .sll => some (b <<< extractBits word 10 6)
      | some .srl => some (b >>> extractBits word 10 6)
      | some .sub => some (a - b)
      | some .subu => if subOverflows a b then none else some (a - b)
      | some .jr | none => none
  | some .addi => if addOverflows a (signExt imm) then none else some (a + signExt imm)
  | some .addiu => some (a + signExt imm)
  | some .andi => some (a &&& imm.setWidth 32)
  | some .ori => some (a ||| imm.setWidth 32)
  | some .slti => some (if a.toInt < (signExt imm).toInt then 1#32 else 0#32)
  | some .sltiu => some (if a < signExt imm then 1#32 else 0#32)
  | _ => none

end Emulator

/-- An operation in the sense of the detectors: an arithmetic or logical instruction with
three registers or with an immediate. -/
def IsOperation (word : Word) : Prop :=
  match opOf word with
  | some .zero => exists f, functOf word = some f ∧ f ≠ .jr
  | some .addi | some .addiu | some .andi | some .ori | some .slti | some .sltiu => True
  | _ => False

def IsConditional (word : Word) : Prop :=
  match opOf word with
  | some .beq | some .bne | some .blez | some .bgtz => True
  | _ => False

namespace Emulator

/-!
## Results of operations and branches
-/

def operationResult (e : Emulator) : Option Word -> Result
  | some value =>
      { info := e.decoded
        memory := e.memory
        PC := e.nextPC
        encounteredBranch := false
        savedBranch := e.savedBranch
        din := e.din + 1#32
        written := some value }
  | none =>
      { info := { e.decoded with isOverflow := true }
        memory := e.memory
        PC := exceptionPC
        encounteredBranch := false
        savedBranch := e.savedBranch
        din := e.din + 1#32
        written := none }

def branchResult (e : Emulator) (taken : Bool) : Result where
  info := e.decoded
  memory := e.memory
  PC := e.nextPC
  encounteredBranch := taken
  savedBranch := if taken then e.nextPC + e.decoded.branchAddr else e.savedBranch
  din := e.din + 1#32
  written := none

theorem operationResult_inj {e : Emulator} {v v' : Option Word}
    (h : operationResult e v = operationResult e v') : v = v' := by
  have hwritten := congrArg Result.written h
  cases v <;> cases v' <;> exact hwritten

theorem branchResult_inj {e : Emulator} {t t' : Bool} (h : branchResult e t = branchResult e t') :
    t = t' := congrArg Result.encounteredBranch h

section Results

variable {e : Emulator}

theorem result_of_setReg {field value : Word}
    (h : e.executeInstruction = (e.decoded, e.fetch.2.setReg field value))
    (hdestination : destination? e.fetchedWord = some (regOf field)) :
    e.result = operationResult e (some value) := by
  have hcompletes : e.decoded.completes = true := rfl
  unfold result
  rw [h, hdestination]
  dsimp only
  rw [if_pos hcompletes, Option.map_some, setReg_registers, Function.update_self]
  rfl

theorem result_of_trap
    (h : e.executeInstruction =
      ({ e.decoded with isOverflow := true }, e.fetch.2.raiseException)) :
    e.result = operationResult e none := by
  unfold result
  rw [h]
  rfl

theorem result_of_checked {overflows : Bool} {field value : Word}
    (h : e.executeInstruction =
      if overflows then ({ e.decoded with isOverflow := true }, e.fetch.2.raiseException)
      else (e.decoded, e.fetch.2.setReg field value))
    (hdestination : destination? e.fetchedWord = some (regOf field)) :
    e.result = operationResult e (if overflows then none else some value) := by
  cases overflows with
  | true =>
      exact result_of_trap h
  | false =>
      exact result_of_setReg h hdestination

theorem result_of_branch {taken : Bool}
    (h : e.executeInstruction = branchIf e.decoded e.fetch.2 taken)
    (hdestination : destination? e.fetchedWord = none) :
    e.result = branchResult e taken := by
  unfold result
  rw [h, hdestination]
  cases taken with
  | true =>
      rfl
  | false =>
      rfl

theorem result_of_operation (h : IsOperation e.fetchedWord) :
    e.result = operationResult e (aluValue e.fetchedWord (e.operand (rsOf e.fetchedWord))
      (e.operand (rtOf e.fetchedWord))) := by
  have hrs : e.fetch.2.reg e.decoded.rs = e.operand (rsOf e.fetchedWord) := fetch_reg e _
  have hrt : e.fetch.2.reg e.decoded.rt = e.operand (rtOf e.fetchedWord) := fetch_reg e _
  unfold IsOperation at h
  cases hop : opOf e.fetchedWord with
  | none =>
      rw [hop] at h
      exact h.elim
  | some op =>
      have hexecute := executeInstruction_of_op hop
      unfold execute at hexecute
      dsimp only at hexecute
      rw [decoded_op, hop, hrs, hrt] at hexecute
      rw [hop] at h
      unfold aluValue
      rw [hop]
      cases op <;> dsimp only at h hexecute ⊢
      case zero =>
          rcases h with ⟨f, hf, hjr⟩
          have hdestination : destination? e.fetchedWord = some (regOf e.decoded.rd) := by
            unfold destination?
            rw [hop, hf]
            cases f <;> first
              | rfl
              | exact absurd rfl hjr
          unfold executeOpZero at hexecute
          dsimp only at hexecute
          rw [decoded_fun, hf, hrs, hrt] at hexecute
          rw [hf]
          cases f <;> dsimp only at hexecute ⊢
          case jr => exact absurd rfl hjr
          all_goals first
            | exact result_of_setReg hexecute hdestination
            | exact result_of_checked hexecute hdestination
      all_goals
        have hdestination : destination? e.fetchedWord = some (regOf e.decoded.rt) := by
          unfold destination?
          rw [hop]
          rfl
        first
        | exact result_of_setReg hexecute hdestination
        | exact result_of_checked hexecute hdestination

theorem result_of_conditional (h : IsConditional e.fetchedWord) :
    e.result = branchResult e (outcome e.fetchedWord (e.operand (rsOf e.fetchedWord))
      (e.operand (rtOf e.fetchedWord))) := by
  have hrs : e.fetch.2.reg e.decoded.rs = e.operand (rsOf e.fetchedWord) := fetch_reg e _
  have hrt : e.fetch.2.reg e.decoded.rt = e.operand (rtOf e.fetchedWord) := fetch_reg e _
  unfold IsConditional at h
  cases hop : opOf e.fetchedWord with
  | none =>
      rw [hop] at h
      exact h.elim
  | some op =>
      have hexecute := executeInstruction_of_op hop
      unfold execute at hexecute
      dsimp only at hexecute
      rw [decoded_op, hop, hrs, hrt] at hexecute
      rw [hop] at h
      unfold outcome
      rw [hop]
      cases op <;> dsimp only at h hexecute ⊢
      all_goals
        have hdestination : destination? e.fetchedWord = none := by
          unfold destination?
          rw [hop]
        exact result_of_branch hexecute hdestination

/-- What the two fields have to contain for the result of a branch or an operation. -/
def decision (word a b : Word) : Option Word × Bool := (aluValue word a b, outcome word a b)

theorem outcome_of_operation {word : Word} (h : IsOperation word) (a b : Word) :
    outcome word a b = false := by
  unfold IsOperation at h
  unfold outcome
  cases hop : opOf word with
  | none =>
      rfl
  | some op =>
      rw [hop] at h
      cases op <;> dsimp only at h ⊢
      case zero =>
          rcases h with ⟨f, hf, hjr⟩
          rw [hf]
          exact decide_eq_false fun heq => hjr (Option.some.inj heq)

theorem aluValue_of_conditional {word : Word} (h : IsConditional word) (a b : Word) :
    aluValue word a b = none := by
  unfold IsConditional at h
  unfold aluValue
  cases hop : opOf word with
  | none =>
      rfl
  | some op =>
      rw [hop] at h
      cases op <;> dsimp only at h ⊢

theorem result_withRegisters_iff {registers : RegId -> Word}
    (h : IsOperation e.fetchedWord ∨ IsConditional e.fetchedWord) :
    (e.withRegisters registers).result = e.result <->
      decision e.fetchedWord ((e.withRegisters registers).operand (rsOf e.fetchedWord))
          ((e.withRegisters registers).operand (rtOf e.fetchedWord)) =
        decision e.fetchedWord (e.operand (rsOf e.fetchedWord))
          (e.operand (rtOf e.fetchedWord)) := by
  have hword : (e.withRegisters registers).fetchedWord = e.fetchedWord := rfl
  unfold decision
  rw [Prod.mk.injEq]
  rcases h with h | h
  · have h' : IsOperation (e.withRegisters registers).fetchedWord := h
    rw [result_of_operation h, result_of_operation h', outcome_of_operation h,
      outcome_of_operation h]
    exact ⟨fun heq => ⟨operationResult_inj heq, rfl⟩,
      fun heq => congrArg (operationResult e) heq.1⟩
  · have h' : IsConditional (e.withRegisters registers).fetchedWord := h
    rw [result_of_conditional h, result_of_conditional h', aluValue_of_conditional h,
      aluValue_of_conditional h]
    exact ⟨fun heq => ⟨rfl, branchResult_inj heq⟩,
      fun heq => congrArg (branchResult e) heq.2⟩

end Results

/-!
## Functions of two register contents
-/

section Separates

variable {β : Type} {g : Word -> Word -> β} {rs rt r : RegId}

/-- New contents of `r` can change the value of `g` on the contents of `rs` and `rt`; the
contents of `$0` are fixed and a register has the same contents in both places. -/
def Separates (g : Word -> Word -> β) (rs rt r : RegId) : Prop :=
  r ≠ 0#5 ∧ exists a b v, (rs = 0#5 -> a = 0#32) ∧ (rt = 0#5 -> b = 0#32) ∧ (rs = rt -> a = b) ∧
    g (if rs = r then v else a) (if rt = r then v else b) ≠ g a b

theorem Separates.mem (h : Separates g rs rt r) : r = rs ∨ r = rt := by
  rcases h with ⟨_, a, b, v, _, _, _, hne⟩
  by_contra hnot
  rw [not_or] at hnot
  rw [if_neg (Ne.symm hnot.1), if_neg (Ne.symm hnot.2)] at hne
  exact hne rfl

theorem Separates.swap (h : Separates g rs rt r) : Separates (fun b a => g a b) rt rs r := by
  rcases h with ⟨hr, a, b, v, ha, hb, hsame, hne⟩
  exact ⟨hr, b, a, v, hb, ha, fun heq => (hsame heq.symm).symm, hne⟩

theorem separates_left {x y b : Word} (hr : rs ≠ 0#5) (hdistinct : rs ≠ rt)
    (hb : rt = 0#5 -> b = 0#32) (h : g x b ≠ g y b) : Separates g rs rt rs := by
  refine ⟨hr, y, b, x, fun hzero => absurd hzero hr, hb, fun heq => absurd heq hdistinct, ?_⟩
  rw [if_pos rfl, if_neg (Ne.symm hdistinct)]
  exact h

theorem separates_right {x y a : Word} (hr : rt ≠ 0#5) (hdistinct : rs ≠ rt)
    (ha : rs = 0#5 -> a = 0#32) (h : g a x ≠ g a y) : Separates g rs rt rt := by
  have hswapped : Separates (fun b a => g a b) rt rs rt :=
    separates_left hr (Ne.symm hdistinct) ha h
  exact hswapped.swap

theorem separates_same {x y : Word} (hr : rs ≠ 0#5) (h : g x x ≠ g y y) :
    Separates g rs rs rs := by
  refine ⟨hr, y, y, x, fun hzero => absurd hzero hr, fun hzero => absurd hzero hr,
    fun _ => rfl, ?_⟩
  rw [if_pos rfl]
  exact h

theorem not_separates_same (h : forall x y, g x x = g y y) : ¬ Separates g rs rs r := by
  intro h
  rcases h with ⟨_, a, b, v, _, _, hsame, hne⟩
  rw [hsame rfl] at hne
  exact hne (h _ _)

theorem separates_iff_first {f : Word -> β} (hf : exists x y, f x ≠ f y) :
    Separates (fun a _ => f a) rs rt r <-> r ≠ 0#5 ∧ r ∈ [rs] := by
  rcases hf with ⟨x, y, hf⟩
  rw [List.mem_singleton]
  constructor
  · intro h
    rcases h with ⟨hr, a, b, v, _, _, _, hne⟩
    refine ⟨hr, ?_⟩
    by_contra hnot
    rw [if_neg (Ne.symm hnot)] at hne
    exact hne rfl
  · intro h
    rcases h with ⟨hr, rfl⟩
    by_cases hsame : r = rt
    · subst hsame
      exact separates_same hr hf
    · exact separates_left (b := 0#32) hr hsame (fun _ => rfl) hf

theorem separates_iff_second {f : Word -> β} (hf : exists x y, f x ≠ f y) :
    Separates (fun _ b => f b) rs rt r <-> r ≠ 0#5 ∧ r ∈ [rt] := by
  constructor
  · intro h
    exact (separates_iff_first hf).mp h.swap
  · intro h
    exact ((separates_iff_first hf).mpr h).swap

theorem separates_iff_none (c : β) :
    Separates (fun _ _ => c) rs rt r <-> r ≠ 0#5 ∧ r ∈ ([] : List RegId) := by
  constructor
  · intro h
    rcases h with ⟨_, _, _, _, _, _, _, hne⟩
    exact absurd rfl hne
  · intro h
    rcases h with ⟨_, hmem⟩
    cases hmem

theorem separates_iff_of_ne (hdistinct : rs ≠ rt) (hleft : exists x y, g x 0#32 ≠ g y 0#32)
    (hright : exists x y, g 0#32 x ≠ g 0#32 y) :
    Separates g rs rt r <-> r ≠ 0#5 ∧ r ∈ [rs, rt] := by
  rcases hleft with ⟨x, y, hleft⟩
  rcases hright with ⟨x', y', hright⟩
  rw [List.mem_cons, List.mem_singleton]
  constructor
  · intro h
    exact ⟨h.1, h.mem⟩
  · intro h
    rcases h with ⟨hr, rfl | rfl⟩
    · exact separates_left hr hdistinct (fun _ => rfl) hleft
    · exact separates_right hr hdistinct (fun _ => rfl) hright

theorem separates_iff_both (hleft : exists x y, g x 0#32 ≠ g y 0#32)
    (hright : exists x y, g 0#32 x ≠ g 0#32 y) (hboth : exists x y, g x x ≠ g y y) :
    Separates g rs rt r <-> r ≠ 0#5 ∧ r ∈ [rs, rt] := by
  by_cases hsame : rs = rt
  · subst hsame
    rw [List.mem_cons, List.mem_singleton, or_self]
    constructor
    · intro h
      exact ⟨h.1, h.mem.elim id id⟩
    · intro h
      rcases h with ⟨hr, rfl⟩
      rcases hboth with ⟨x, y, hboth⟩
      exact separates_same hr hboth
  · exact separates_iff_of_ne hsame hleft hright

theorem separates_iff_unequal (hleft : exists x y, g x 0#32 ≠ g y 0#32)
    (hright : exists x y, g 0#32 x ≠ g 0#32 y) (hequal : forall x y, g x x = g y y) :
    Separates g rs rt r <-> r ≠ 0#5 ∧ r ∈ if rs = rt then [] else [rs, rt] := by
  by_cases hsame : rs = rt
  · subst hsame
    rw [if_pos rfl]
    exact iff_of_false (not_separates_same hequal) (fun h => absurd h.2 List.not_mem_nil)
  · rw [if_neg hsame]
    exact separates_iff_of_ne hsame hleft hright

end Separates

/-- The registers whose contents can make a difference to a branch or an operation,
`$0` apart. -/
def sources (word : Word) : List RegId :=
  let rs := rsOf word
  let rt := rtOf word
  match opOf word with
  | some .beq | some .bne => if rs = rt then [] else [rs, rt]
  | some .blez | some .bgtz | some .addi | some .addiu | some .ori | some .slti => [rs]
  | some .andi | some .sltiu => if immOf word = 0#16 then [] else [rs]
  | some .zero =>
      match functOf word with
      | some .add | some .addu | some .or | some .nor => [rs, rt]
      | some .slt | some .sub | some .subu => if rs = rt then [] else [rs, rt]
      | some .and =>
          if rs = rt then [rs] else if rs = 0#5 ∨ rt = 0#5 then [] else [rs, rt]
      | some .sltu => if rs = rt ∨ rt = 0#5 then [] else [rs, rt]
      | some .sll | some .srl => [rt]
      | some .jr | none => []
  | _ => []

section Sources

variable {word : Word} {r : RegId}

theorem operand_update (e : Emulator) (value : Word) (q : RegId) :
    (e.withRegisters (Function.update e.registers r value)).operand q =
      if q = r ∧ r ≠ 0#5 then value else e.operand q := by
  unfold operand
  by_cases hq : q = 0#5
  · rw [if_pos hq, if_pos hq, if_neg]
    intro h
    rcases h with ⟨heq, hr⟩
    exact hr (heq.symm.trans hq)
  · rw [if_neg hq, if_neg hq]
    change Function.update e.registers r value q = _
    by_cases heq : q = r
    · subst heq
      rw [Function.update_self, if_pos ⟨rfl, hq⟩]
    · rw [Function.update_of_ne heq, if_neg fun h => heq h.1]

theorem exists_operands (word : Word) {a b : Word} (ha : rsOf word = 0#5 -> a = 0#32)
    (hb : rtOf word = 0#5 -> b = 0#32) (hsame : rsOf word = rtOf word -> a = b) :
    exists e : Emulator, e.fetchedWord = word ∧ e.operand (rsOf word) = a ∧
      e.operand (rtOf word) = b := by
  refine ⟨(init (MemoryStore.ofImage (MemImage.ofWords [word]))).withRegisters
    (fun q => if q = rsOf word then a else b), fetchedWord_init_ofWords word, ?_, ?_⟩
  · unfold operand
    by_cases hzero : rsOf word = 0#5
    · rw [if_pos hzero, ha hzero]
    · rw [if_neg hzero]
      exact if_pos rfl
  · unfold operand
    by_cases hzero : rtOf word = 0#5
    · rw [if_pos hzero, hb hzero]
    · rw [if_neg hzero]
      change (if rtOf word = rsOf word then a else b) = b
      by_cases heq : rtOf word = rsOf word
      · rw [if_pos heq, hsame heq.symm]
      · rw [if_neg heq]

theorem reads_iff_separates (h : IsOperation word ∨ IsConditional word) :
    Reads word r <-> Separates (decision word) (rsOf word) (rtOf word) r := by
  constructor
  · intro h
    rcases h with ⟨e, value, rfl, hne⟩
    rw [ne_eq, result_withRegisters_iff h, operand_update, operand_update] at hne
    have hr : r ≠ 0#5 := by
      intro hzero
      rw [if_neg fun h => h.2 hzero, if_neg fun h => h.2 hzero] at hne
      exact hne rfl
    simp only [hr, ne_eq, not_false_eq_true, and_true] at hne
    refine ⟨hr, _, _, value, ?_, ?_, ?_, hne⟩
    · intro hzero
      exact if_pos hzero
    · intro hzero
      exact if_pos hzero
    · intro hsame
      rw [hsame]
  · intro h
    rcases h with ⟨hr, a, b, value, ha, hb, hsame, hne⟩
    rcases exists_operands word ha hb hsame with ⟨e, hword, hrs, hrt⟩
    refine ⟨e, value, hword, ?_⟩
    rw [← hword] at h hrs hrt hne
    rw [ne_eq, result_withRegisters_iff h, operand_update, operand_update, hrs, hrt]
    simp only [hr, ne_eq, not_false_eq_true, and_true]
    exact hne

/-- The second register of `and` and `sltu` must not be `$0` for the first to matter, and
for `and` the other way round. -/
theorem separates_and_iff {rs rt : RegId} {g : Word -> Word -> Option Word × Bool}
    (hg : g = fun a b => (some (a &&& b), false)) :
    Separates g rs rt r <-> r ≠ 0#5 ∧
      r ∈ if rs = rt then [rs] else if rs = 0#5 ∨ rt = 0#5 then [] else [rs, rt] := by
  subst hg
  by_cases hsame : rs = rt
  · subst hsame
    rw [if_pos rfl, List.mem_singleton]
    constructor
    · intro h
      exact ⟨h.1, h.mem.elim id id⟩
    · intro h
      rcases h with ⟨hr, rfl⟩
      exact separates_same (x := 0#32) (y := 1#32) hr (by decide)
  · rw [if_neg hsame]
    by_cases hzero : rs = 0#5 ∨ rt = 0#5
    · rw [if_pos hzero]
      refine iff_of_false ?_ (fun h => absurd h.2 List.not_mem_nil)
      intro h
      rcases h with ⟨hr, a, b, v, ha, hb, _, hne⟩
      apply hne
      rcases hzero with hzero | hzero
      · rw [ha hzero, if_neg fun h => hr (h.symm.trans hzero)]
        simp
      · rw [hb hzero, if_neg (fun h => hr (h.symm.trans hzero) : ¬ rt = r)]
        simp
    · rw [if_neg hzero, List.mem_cons, List.mem_singleton]
      rw [not_or] at hzero
      constructor
      · intro h
        exact ⟨h.1, h.mem⟩
      · intro h
        rcases h with ⟨_, rfl | rfl⟩
        · exact separates_left (x := 0#32) (y := 1#32) (b := 1#32) hzero.1 hsame
            (fun h => absurd h hzero.2) (by decide)
        · exact separates_right (x := 0#32) (y := 1#32) (a := 1#32) hzero.2 hsame
            (fun h => absurd h hzero.1) (by decide)

theorem separates_sltu_iff {rs rt : RegId} {g : Word -> Word -> Option Word × Bool}
    (hg : g = fun a b => (some (if a < b then 1#32 else 0#32), false)) :
    Separates g rs rt r <-> r ≠ 0#5 ∧ r ∈ if rs = rt ∨ rt = 0#5 then [] else [rs, rt] := by
  subst hg
  by_cases hsame : rs = rt
  · subst hsame
    rw [if_pos (Or.inl rfl)]
    refine iff_of_false (not_separates_same ?_) (fun h => absurd h.2 List.not_mem_nil)
    intro x y
    simp
  · by_cases hzero : rt = 0#5
    · rw [if_pos (Or.inr hzero)]
      refine iff_of_false ?_ (fun h => absurd h.2 List.not_mem_nil)
      intro h
      rcases h with ⟨hr, a, b, v, _, hb, _, hne⟩
      apply hne
      rw [hb hzero, if_neg (fun h => hr (h.symm.trans hzero) : ¬ rt = r)]
      simp
    · rw [if_neg (not_or.mpr ⟨hsame, hzero⟩), List.mem_cons, List.mem_singleton]
      constructor
      · intro h
        exact ⟨h.1, h.mem⟩
      · intro h
        rcases h with ⟨hr, rfl | rfl⟩
        · exact separates_left (x := 0#32) (y := 1#32) (b := 1#32) hr hsame
            (fun h => absurd h hzero) (by decide)
        · exact separates_right (x := 0#32) (y := 1#32) (a := 0#32) hr hsame
            (fun _ => rfl) (by decide)

/-!
## Immediate operands and shift amounts
-/

theorem add_ne (imm : Word) : (0#32 : Word) + imm ≠ 1#32 + imm := by
  intro h
  have hzero := congrArg (· - imm) h
  simp only [BitVec.add_sub_cancel] at hzero
  exact absurd hzero (by decide)

theorem not_addOverflows_immediate (imm : BitVec 16) :
    addOverflows 0#32 (signExt imm) = false ∧ addOverflows 1#32 (signExt imm) = false := by
  have hlow := imm.le_toInt
  have hhigh := imm.toInt_lt
  have hfits : forall a : Word, 0 ≤ a.toInt -> a.toInt ≤ 1 ->
      FitsInt32 (a.toInt + (signExt imm).toInt) := by
    intro a ha ha'
    unfold FitsInt32
    rw [toInt_signExt]
    norm_num at hlow hhigh ⊢
    lia
  constructor
  · rw [← Bool.not_eq_true, addOverflows_iff, not_not]
    exact hfits 0#32 (by decide) (by decide)
  · rw [← Bool.not_eq_true, addOverflows_iff, not_not]
    exact hfits 1#32 (by decide) (by decide)

theorem and_ne {imm : BitVec 16} (h : imm ≠ 0#16) :
    (0#32 : Word) &&& imm.setWidth 32 ≠ 0xffffffff#32 &&& imm.setWidth 32 := by
  have hones : 0xffffffff#32 = BitVec.allOnes 32 := by decide
  rw [BitVec.zero_and, hones, BitVec.allOnes_and]
  intro hzero
  apply h
  have htoNat := congrArg BitVec.toNat hzero
  rw [BitVec.toNat_setWidth] at htoNat
  apply BitVec.eq_of_toNat_eq
  have hlt := imm.isLt
  change 0 = imm.toNat % 2 ^ 32 at htoNat
  change imm.toNat = 0
  lia

theorem or_ne (imm : BitVec 16) :
    (0#32 : Word) ||| imm.setWidth 32 ≠ 0x10000#32 ||| imm.setWidth 32 := by
  intro h
  have hbit := congrArg (fun w : Word => w.getLsbD 16) h
  simp at hbit

theorem slti_ne (imm : BitVec 16) :
    (if (0x80000000#32 : Word).toInt < (signExt imm).toInt then 1#32 else 0#32 : Word) ≠
      if (0x7fffffff#32 : Word).toInt < (signExt imm).toInt then 1#32 else 0#32 := by
  have hlow := imm.le_toInt
  have hhigh := imm.toInt_lt
  have hmin : (0x80000000#32 : Word).toInt = -2 ^ 31 := by decide
  have hmax : (0x7fffffff#32 : Word).toInt = 2 ^ 31 - 1 := by decide
  rw [toInt_signExt, hmin, hmax, if_pos (by norm_num at *; lia),
    if_neg (by norm_num at *; lia)]
  decide

theorem sltiu_ne {imm : BitVec 16} (h : imm ≠ 0#16) :
    (if (0#32 : Word) < signExt imm then 1#32 else 0#32 : Word) ≠
      if (0xffffffff#32 : Word) < signExt imm then 1#32 else 0#32 := by
  have hne : (signExt imm).toNat ≠ 0 := by
    intro hzero
    apply h
    apply BitVec.eq_of_toInt_eq
    rw [← toInt_signExt, toNat_eq_zero_iff.mp hzero]
    decide
  have hlt := (signExt imm).isLt
  have hpos : (0#32 : Word) < signExt imm := by
    rw [BitVec.lt_def]
    change 0 < _
    lia
  have hmax : ¬ (0xffffffff#32 : Word) < signExt imm := by
    rw [BitVec.lt_def]
    change ¬ 4294967295 < _
    lia
  rw [if_pos hpos, if_neg hmax]
  decide

theorem shiftLeft_ne {amount : Word} (h : amount.toNat < 32) :
    (0#32 : Word) <<< amount ≠ 1#32 <<< amount := by
  intro heq
  have htoNat := congrArg BitVec.toNat heq
  have hpow : 2 ^ amount.toNat < 2 ^ 32 := Nat.pow_lt_pow_right (by decide) h
  have hpos : 0 < 2 ^ amount.toNat := Nat.two_pow_pos _
  rw [BitVec.shiftLeft_eq', BitVec.shiftLeft_eq', BitVec.toNat_shiftLeft, BitVec.toNat_shiftLeft,
    Nat.shiftLeft_eq, Nat.shiftLeft_eq] at htoNat
  change 0 * _ % 2 ^ 32 = 1 * _ % 2 ^ 32 at htoNat
  rw [Nat.zero_mul, Nat.one_mul, Nat.mod_eq_of_lt hpow] at htoNat
  lia

theorem ushiftRight_ne {amount : Word} (h : amount.toNat < 32) :
    (0#32 : Word) >>> amount ≠ 0x80000000#32 >>> amount := by
  intro heq
  have htoNat := congrArg BitVec.toNat heq
  have hle : 2 ^ amount.toNat ≤ 2 ^ 31 := Nat.pow_le_pow_right (by decide) (by lia)
  have hpos : 0 < 2 ^ 31 / 2 ^ amount.toNat := Nat.div_pos hle (Nat.two_pow_pos _)
  rw [BitVec.ushiftRight_eq', BitVec.ushiftRight_eq', BitVec.toNat_ushiftRight,
    BitVec.toNat_ushiftRight, Nat.shiftRight_eq_div_pow, Nat.shiftRight_eq_div_pow] at htoNat
  change 0 / _ = 2 ^ 31 / _ at htoNat
  rw [Nat.zero_div] at htoNat
  lia

theorem shamt_lt (word : Word) : (extractBits word 10 6).toNat < 32 := by
  rw [toNat_extractBits _ (by decide)]
  exact Nat.mod_lt _ (by decide)

/-!
## The table is exact
-/

theorem decision_of_operation (h : IsOperation word) :
    decision word = fun a b => (aluValue word a b, false) := by
  funext a b
  exact Prod.ext rfl (outcome_of_operation h a b)

theorem separates_iff_of_zero {f : FunId} (hop : opOf word = some .zero)
    (hf : functOf word = some f) (hjr : f ≠ .jr) :
    Separates (decision word) (rsOf word) (rtOf word) r <-> r ≠ 0#5 ∧ r ∈ sources word := by
  have hoperation : IsOperation word := by
    unfold IsOperation
    rw [hop]
    exact ⟨f, hf, hjr⟩
  rw [decision_of_operation hoperation]
  unfold aluValue sources
  dsimp only
  rw [hop, hf]
  cases f <;> dsimp only
  case add =>
      refine separates_iff_both ⟨0#32, 1#32, ?_⟩ ⟨0#32, 1#32, ?_⟩ ⟨0#32, 1#32, ?_⟩
      all_goals decide
  case addu =>
      refine separates_iff_both ⟨0#32, 1#32, ?_⟩ ⟨0#32, 1#32, ?_⟩ ⟨0#32, 1#32, ?_⟩
      all_goals decide
  case or =>
      refine separates_iff_both ⟨0#32, 1#32, ?_⟩ ⟨0#32, 1#32, ?_⟩ ⟨0#32, 1#32, ?_⟩
      all_goals decide
  case nor =>
      refine separates_iff_both ⟨0#32, 1#32, ?_⟩ ⟨0#32, 1#32, ?_⟩ ⟨0#32, 1#32, ?_⟩
      all_goals decide
  case slt =>
      refine separates_iff_unequal ⟨0#32, 0xffffffff#32, ?_⟩ ⟨0#32, 1#32, ?_⟩ ?_
      · decide
      · decide
      · simp
  case sub =>
      refine separates_iff_unequal ⟨0#32, 1#32, ?_⟩ ⟨0#32, 1#32, ?_⟩ ?_
      · decide
      · decide
      · simp
  case subu =>
      refine separates_iff_unequal ⟨0#32, 1#32, ?_⟩ ⟨0#32, 1#32, ?_⟩ ?_
      · decide
      · decide
      · intro x y
        have hsame : forall z : Word, subOverflows z z = false := by
          intro z
          rw [← Bool.not_eq_true, subOverflows_iff, not_not, Int.sub_self]
          exact ⟨by norm_num, by norm_num⟩
        simp [hsame]
  case and => exact separates_and_iff rfl
  case sltu => exact separates_sltu_iff rfl
  case sll =>
      refine separates_iff_second ⟨0#32, 1#32, ?_⟩
      intro h
      exact shiftLeft_ne (shamt_lt word) (Option.some.inj (Prod.mk.inj h).1)
  case srl =>
      refine separates_iff_second ⟨0#32, 0x80000000#32, ?_⟩
      intro h
      exact ushiftRight_ne (shamt_lt word) (Option.some.inj (Prod.mk.inj h).1)
  case jr =>
      exact absurd rfl hjr

theorem separates_iff_of_immediate {op : OpId} (hop : opOf word = some op)
    (himm : IsOperation word) (hzero : op ≠ .zero) :
    Separates (decision word) (rsOf word) (rtOf word) r <-> r ≠ 0#5 ∧ r ∈ sources word := by
  have hdecision := decision_of_operation himm
  have hpair : forall {v v' : Word}, v ≠ v' -> (some v, false) ≠ (some v', false) :=
    fun hne h => hne (Option.some.inj (Prod.mk.inj h).1)
  unfold IsOperation at himm
  rw [hdecision]
  unfold aluValue sources
  dsimp only
  rw [hop] at himm ⊢
  cases op <;> dsimp only at himm ⊢
  case zero =>
      exact absurd rfl hzero
  case addi =>
      refine separates_iff_first ⟨0#32, 1#32, ?_⟩
      rcases not_addOverflows_immediate (immOf word) with ⟨hfirst, hsecond⟩
      rw [hfirst, hsecond]
      exact hpair (add_ne _)
  case addiu =>
      exact separates_iff_first ⟨0#32, 1#32, hpair (add_ne _)⟩
  case ori =>
      exact separates_iff_first ⟨0#32, 0x10000#32, hpair (or_ne _)⟩
  case slti =>
      exact separates_iff_first ⟨0x80000000#32, 0x7fffffff#32, hpair (slti_ne _)⟩
  case andi =>
      by_cases himm0 : immOf word = 0#16
      · rw [if_pos himm0, himm0]
        simp only [BitVec.setWidth_zero, BitVec.and_zero]
        exact separates_iff_none _
      · rw [if_neg himm0]
        exact separates_iff_first ⟨0#32, 0xffffffff#32, hpair (and_ne himm0)⟩
  case sltiu =>
      by_cases himm0 : immOf word = 0#16
      · have hext : signExt 0#16 = 0#32 := by decide
        rw [if_pos himm0, himm0, hext]
        simp only [BitVec.not_lt_zero, if_false]
        exact separates_iff_none _
      · rw [if_neg himm0]
        exact separates_iff_first ⟨0#32, 0xffffffff#32, hpair (sltiu_ne himm0)⟩

theorem separates_iff_of_conditional (h : IsConditional word) :
    Separates (decision word) (rsOf word) (rtOf word) r <-> r ≠ 0#5 ∧ r ∈ sources word := by
  have hg : decision word = fun a b => (none, outcome word a b) := by
    funext a b
    exact Prod.ext (aluValue_of_conditional h a b) rfl
  unfold IsConditional at h
  rw [hg]
  unfold outcome sources
  dsimp only
  cases hop : opOf word with
  | none =>
      rw [hop] at h
      exact h.elim
  | some op =>
      rw [hop] at h
      cases op <;> dsimp only at h ⊢
      case beq =>
          refine separates_iff_unequal ⟨0#32, 1#32, ?_⟩ ⟨0#32, 1#32, ?_⟩ ?_
          · decide
          · decide
          · simp
      case bne =>
          refine separates_iff_unequal ⟨0#32, 1#32, ?_⟩ ⟨0#32, 1#32, ?_⟩ ?_
          · decide
          · decide
          · simp
      case blez =>
          refine separates_iff_first ⟨0#32, 1#32, ?_⟩
          decide
      case bgtz =>
          refine separates_iff_first ⟨0#32, 1#32, ?_⟩
          decide

/-- The table is exact for branches and operations. -/
theorem reads_iff (h : IsOperation word ∨ IsConditional word) :
    Reads word r <-> r ≠ 0#5 ∧ r ∈ sources word := by
  rw [reads_iff_separates h]
  rcases h with h | h
  · cases hop : opOf word with
    | none =>
        unfold IsOperation at h
        rw [hop] at h
        exact h.elim
    | some op =>
        by_cases hzero : op = .zero
        · subst hzero
          unfold IsOperation at h
          rw [hop] at h
          rcases h with ⟨f, hf, hjr⟩
          exact separates_iff_of_zero hop hf hjr
        · exact separates_iff_of_immediate hop h hzero
  · exact separates_iff_of_conditional h

end Sources

end Emulator

end PipeSim
