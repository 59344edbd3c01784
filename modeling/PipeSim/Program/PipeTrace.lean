import PipeSim.Cycle.Accounting
import PipeSim.Cycle.Occupancy
import PipeSim.Library.Lines
import PipeSim.Machine.Disassembly

/-!
# The pipeline trace

`dumpPipeState` writes a line for each cycle: its number and, between bars, the disassembled
words of the five stages.  No word is shown with a bar or a line break, so a reader can take
the trace apart again.
-/

namespace PipeSim

open Library

namespace Cycle

open Disassembler

def rightAligned (width : Nat) (text : List Char) : List Char := text.leftpad width ' '

def dumpPipeState (state : PipeState) : List Char :=
  "Cycle: ".toList ++ rightAligned 8 (Nat.toDigits 10 state.cycle.toNat) ++ "\t|".toList ++
    "|".toList ++ (printInstr state.ifInstr.instr).toList ++
    "|".toList ++ (printInstr state.idInstr.instr).toList ++
    "|".toList ++ (printInstr state.exInstr.instr).toList ++
    "|".toList ++ (printInstr state.memInstr.instr).toList ++
    "|".toList ++ (printInstr state.wbInstr.instr).toList ++
    "|".toList ++ ['\n']

def pipeTrace (lines : List PipeState) : List Char := lines.flatMap dumpPipeState

/-!
## Reading a trace back
-/

/-- A line of a trace: the cycle and what is shown for the stages, IF first. -/
structure TraceLine where
  cycle : Nat
  stages : List (List Char)
deriving DecidableEq, Repr

def parseCycle (field : List Char) : Option Nat :=
  if "Cycle: ".toList.isPrefixOf field && field.getLast? == some '\t' then
    let digits := (field.dropLast.drop 7).dropWhile (· == ' ')
    if digits.all (Numeral.isDigit 10) && !digits.isEmpty then some (Numeral.value 10 digits)
    else none
  else none

/-- A line, a bar behind each of its fields. -/
def parseTraceLine (line : List Char) : Option TraceLine :=
  match (line.splitOn '|').dropLast with
  | field :: [] :: stages =>
      if stages.length = 5 then (parseCycle field).map fun cycle => ⟨cycle, stages⟩ else none
  | _ => none

def parseTrace (text : List Char) : Option (List TraceLine) := Lines.read parseTraceLine text

def traceLine (state : PipeState) : TraceLine where
  cycle := state.cycle.toNat
  stages := (List.range 5).map fun i => (printInstr (state.slot i).instr).toList

/-!
## Characters of a field
-/

def InField (c : Char) : Prop := c ≠ '|' ∧ c ≠ '\n'

instance (c : Char) : Decidable (InField c) := by
  unfold InField
  infer_instance

def Shown (text : String) : Prop := forall c, c ∈ text.toList -> InField c

instance (t : String) : Decidable (Shown t) :=
  decidable_of_iff ((t.toList.all fun c => decide (InField c)) = true) <| by
    simp only [List.all_eq_true, decide_eq_true_eq]
    exact Iff.rfl

section Shown

variable {s t : String}

@[simp] theorem shown_append : Shown (s ++ t) <-> Shown s ∧ Shown t := by
  unfold Shown
  simp only [String.toList_append, List.mem_append]
  constructor
  · intro h
    exact ⟨fun c hc => h c (Or.inl hc), fun c hc => h c (Or.inr hc)⟩
  · intro h c hc
    exact hc.elim (h.1 c) (h.2 c)

theorem inField_of_isDigit {b : Nat} {c : Char} (h : Numeral.isDigit b c = true) :
    InField c := by
  have hne : forall {other}, Numeral.isDigit b other = false -> c ≠ other := by
    intro other hother heq
    subst heq
    exact Bool.false_ne_true (hother.symm.trans h)
  exact ⟨hne rfl, hne rfl⟩

@[simp] theorem shown_hexText (n : Nat) : Shown (hexText n) := by
  intro c hc
  unfold hexText at hc
  rw [String.toList_ofList] at hc
  exact inField_of_isDigit (Numeral.isDigit_of_mem_toDigits (by decide) (by decide) hc)

@[simp] theorem shown_decimalText (z : Int) : Shown (decimalText z) := by
  intro c hc
  unfold decimalText at hc
  rw [String.toList_ofList] at hc
  rcases Numeral.mem_signed hc with hdigit | rfl
  · exact inField_of_isDigit hdigit
  · decide

@[simp] theorem shown_regNameAt (field : Word) : Shown (regNameAt field) := by
  unfold regNameAt
  generalize regOf field = r
  revert r
  decide

@[simp] theorem shown_getFunString (funct : Word) : Shown (getFunString funct) := by
  unfold getFunString
  split <;> decide

@[simp] theorem shown_getImmString (opcode : Word) : Shown (getImmString opcode) := by
  unfold getImmString
  split <;> decide

@[simp] theorem shown_leftAligned (width : Nat) : Shown (leftAligned width t) <-> Shown t := by
  have hpadding : Shown (String.ofList (List.replicate (width - t.length) ' ')) := by
    intro c hc
    rw [String.toList_ofList] at hc
    rw [List.eq_of_mem_replicate hc]
    decide
  unfold leftAligned
  simp [hpadding]

/-!
The constant pieces of the texts are checked by evaluation.
-/

theorem shown_handleOpZeroInst (instr : Word) : Shown (handleOpZeroInst instr) := by
  unfold handleOpZeroInst
  dsimp only
  rw [shown_leftAligned]
  split
  · simp +decide
  · split
    · split
      · decide
      · simp +decide
    · simp +decide

theorem shown_handleImmInst (instr : Word) : Shown (handleImmInst instr) := by
  unfold handleImmInst
  dsimp only
  rw [shown_leftAligned]
  split <;> simp +decide

theorem shown_handleJInst (instr : Word) : Shown (handleJInst instr) := by
  unfold handleJInst
  dsimp only
  rw [shown_leftAligned]
  split <;> simp +decide

theorem shown_printInstr (word : Word) : Shown (printInstr word) := by
  unfold printInstr
  split
  · decide
  · split
    · decide
    · split
      · exact shown_handleOpZeroInst word
      all_goals first
        | exact shown_handleImmInst word
        | exact shown_handleJInst word
        | decide

end Shown

/-!
## Reading back what was written
-/

theorem parseCycle_field (n : Nat) :
    parseCycle ("Cycle: ".toList ++ rightAligned 8 (Nat.toDigits 10 n) ++ ['\t']) = some n := by
  have hdigits : forall c, c ∈ Nat.toDigits 10 n -> Numeral.isDigit 10 c = true :=
    fun c hc => Numeral.isDigit_of_mem_toDigits (by decide) (by decide) hc
  have hne : Nat.toDigits 10 n ≠ [] := Nat.toDigits_ne_nil
  have hskip : (rightAligned 8 (Nat.toDigits 10 n)).dropWhile (· == ' ') = Nat.toDigits 10 n := by
    unfold rightAligned List.leftpad
    apply Numeral.dropWhile_token
    · intro c hc
      rw [List.eq_of_mem_replicate hc]
      rfl
    · intro c hc
      have hdigit := hdigits c (List.mem_of_mem_head? hc)
      rw [beq_eq_false_iff_ne]
      intro hblank
      subst hblank
      exact absurd hdigit (by decide)
  have hfront : ("Cycle: ".toList.isPrefixOf ("Cycle: ".toList ++
      rightAligned 8 (Nat.toDigits 10 n) ++ ['\t'])) = true := by
    rw [List.append_assoc, List.isPrefixOf_iff_prefix]
    exact List.prefix_append _ _
  have hdrop : ("Cycle: ".toList ++ rightAligned 8 (Nat.toDigits 10 n)).drop 7 =
      rightAligned 8 (Nat.toDigits 10 n) := List.drop_left' rfl
  have hall : (Nat.toDigits 10 n).all (Numeral.isDigit 10) = true :=
    List.all_eq_true.mpr hdigits
  have hisEmpty : (Nat.toDigits 10 n).isEmpty = false :=
    Bool.eq_false_iff.mpr fun h => hne (List.isEmpty_iff.mp h)
  unfold parseCycle
  rw [hfront, List.getLast?_concat, List.dropLast_concat, hdrop, hskip]
  dsimp only
  rw [hall, hisEmpty, Numeral.value_toDigits (by decide) (by decide)]
  rfl

def fields (state : PipeState) : List (List Char) :=
  ("Cycle: ".toList ++ rightAligned 8 (Nat.toDigits 10 state.cycle.toNat) ++ ['\t']) :: [] ::
    (traceLine state).stages

theorem dumpPipeState_eq (state : PipeState) :
    dumpPipeState state = ((fields state).flatMap fun field => field ++ ['|']) ++ ['\n'] := by
  have hbar : "\t|".toList = ['\t', '|'] := rfl
  have hbar' : "|".toList = ['|'] := rfl
  unfold dumpPipeState fields traceLine
  rw [hbar, hbar']
  simp [List.range_succ, PipeState.slot]

theorem inField_of_mem_fields {state : PipeState} {field : List Char}
    (hfield : field ∈ fields state) {c : Char} (hc : c ∈ field) : InField c := by
  unfold fields at hfield
  rcases List.mem_cons.mp hfield with rfl | hfield
  · rw [List.mem_append, List.mem_append, List.mem_singleton] at hc
    rcases hc with (hlabel | hcycle) | rfl
    · have hshown : Shown "Cycle: " := by decide
      exact hshown c hlabel
    · unfold rightAligned List.leftpad at hcycle
      rcases List.mem_append.mp hcycle with hblank | hdigit
      · rw [List.eq_of_mem_replicate hblank]
        decide
      · exact inField_of_isDigit (Numeral.isDigit_of_mem_toDigits (by decide) (by decide) hdigit)
    · decide
  · rcases List.mem_cons.mp hfield with rfl | hstage
    · cases hc
    · rcases List.mem_map.mp hstage with ⟨i, _, rfl⟩
      exact shown_printInstr _ c hc

theorem newline_not_mem_fields (state : PipeState) :
    '\n' ∉ (fields state).flatMap fun field => field ++ ['|'] := by
  intro h
  rcases List.mem_flatMap.mp h with ⟨field, hfield, hmem⟩
  rcases List.mem_append.mp hmem with hmem | hmem
  · exact (inField_of_mem_fields hfield hmem).2 rfl
  · exact absurd hmem (by decide)

theorem parseTraceLine_fields (state : PipeState) :
    parseTraceLine ((fields state).flatMap fun field => field ++ ['|']) =
      some (traceLine state) := by
  unfold parseTraceLine
  rw [Numeral.splitOn_terminated fun field hfield hbar =>
    (inField_of_mem_fields hfield hbar).1 rfl, List.dropLast_concat]
  have hlength : (traceLine state).stages.length = 5 := rfl
  unfold fields
  dsimp only
  rw [hlength, if_pos rfl, parseCycle_field]
  rfl

end Cycle

/-- A pipeline trace is read back as the cycle numbers and the disassembled stages of the
pipeline states that were dumped. -/
theorem parseTrace_pipeTrace (lines : List Cycle.PipeState) :
    Cycle.parseTrace (Cycle.pipeTrace lines) = some (lines.map Cycle.traceLine) := by
  have htext : Cycle.pipeTrace lines =
      Lines.unlines (lines.map fun state =>
        (Cycle.fields state).flatMap fun field => field ++ ['|']) := by
    unfold Cycle.pipeTrace Lines.unlines
    rw [List.flatMap_map]
    exact List.flatMap_congr fun state _ => Cycle.dumpPipeState_eq state
  rw [htext]
  exact Lines.read_unlines (fun state _ => Cycle.newline_not_mem_fields state)
    fun state _ => Cycle.parseTraceLine_fields state

/-!
## What a trace tells about a run
-/

namespace Cycle

open Disassembler

theorem validWord_of_mem_executed {n : Nat} {e : Emulator} {info : InstructionInfo}
    (h : info ∈ executed n e) (hcompletes : info.completes = true) :
    validWord info.instruction = true := by
  unfold executed at h
  rcases List.mem_map.mp h with ⟨k, _, rfl⟩
  rw [Emulator.executeInstruction_instruction, ← Emulator.executeInstruction_isValid]
  unfold InstructionInfo.completes at hcompletes
  exact ((Bool.and_eq_true _ _).mp hcompletes).1

section Runs

variable {ic dc ic' dc' : CacheConfig} {mem mem' : MemoryStore} {fuel fuel' : Nat} {s s' : Sim}

/-- Only words of instructions that completed are dumped, and bubbles. -/
theorem validWord_of_mem_lines
    (h : runTillHalt fuel (initSimulator ic dc mem) = some (.halt, s)) {line : PipeState}
    (hline : line ∈ s.log.lines) {i : Nat} (hi : i ≤ 4) :
    validWord (line.slot i).instr = true := by
  rcases haltsAfter_iff_runTillHalt.mpr ⟨fuel, h⟩ with ⟨n, hn⟩
  have hexecuted := (haltsAfter_executed hn).2
  rcases (tracked_of_runTillHalt h).1.accounted line hline i hi with
    hbubble | ⟨k, info, _, hinfo, hcompletes, hinstr⟩
  · rw [hbubble]
    decide
  · rw [hinstr]
    have hmem := List.mem_of_getElem? hinfo
    rw [hexecuted] at hmem
    exact validWord_of_mem_executed hmem hcompletes

theorem printInstr_of_traceLine {p q : PipeState} (h : traceLine p = traceLine q) {i : Nat}
    (hi : i ≤ 4) : printInstr (p.slot i).instr = printInstr (q.slot i).instr := by
  injection h with _ hstages
  rw [List.map_inj_left] at hstages
  exact String.toList_inj.mp (hstages i (List.mem_range.mpr (Nat.lt_succ_of_le hi)))

end Runs

end Cycle

/-- Two runs of any programs that write the same pipeline trace take the same cycles, and in
each of them every stage holds words with the same effect on every state of the emulator. -/
theorem pipe_trace_identifies_stages {ic dc ic' dc' : CacheConfig} {mem mem' : MemoryStore}
    {fuel fuel' : Nat} {s s' : Cycle.Sim}
    (h : Cycle.runTillHalt fuel (Cycle.initSimulator ic dc mem) = some (.halt, s))
    (h' : Cycle.runTillHalt fuel' (Cycle.initSimulator ic' dc' mem') = some (.halt, s'))
    (htrace : Cycle.pipeTrace s.log.lines = Cycle.pipeTrace s'.log.lines) :
    s.log.lines.length = s'.log.lines.length ∧
      forall (k : Nat) (line line' : Cycle.PipeState),
        s.log.lines[k]? = some line -> s'.log.lines[k]? = some line' -> line.cycle = line'.cycle ∧
          forall i, i ≤ 4 -> forall e : Emulator,
            e.executeWord (line.slot i).instr = e.executeWord (line'.slot i).instr := by
  have hread := congrArg Cycle.parseTrace htrace
  rw [parseTrace_pipeTrace, parseTrace_pipeTrace] at hread
  have hlines : s.log.lines.map Cycle.traceLine = s'.log.lines.map Cycle.traceLine :=
    Option.some.inj hread
  have hlength := congrArg List.length hlines
  rw [List.length_map, List.length_map] at hlength
  refine ⟨hlength, ?_⟩
  intro k line line' hline hline'
  have hshown := congrArg (fun l => l[k]?) hlines
  rw [List.getElem?_map, List.getElem?_map, hline, hline'] at hshown
  have hsame : Cycle.traceLine line = Cycle.traceLine line' := Option.some.inj hshown
  constructor
  · injection hsame with hcycle _
    exact BitVec.eq_of_toNat_eq hcycle
  · intro i hi e
    exact Disassembler.executeWord_of_printInstr
      (Cycle.validWord_of_mem_lines h (List.mem_of_getElem? hline) hi)
      (Cycle.validWord_of_mem_lines h' (List.mem_of_getElem? hline') hi)
      (Cycle.printInstr_of_traceLine hsame hi) e

/-- Two words for `sll $2, $3, 4`, one of them with a number in a field that the shift has no
use for. -/
theorem pipe_trace_identifies_spare_field :
    exists fuel fuel' s s',
      Cycle.runTillHalt fuel (Cycle.initSimulator (ValidConfig.oneBlock 0#32).toCacheConfig
          (ValidConfig.oneBlock 0#32).toCacheConfig
          (MemoryStore.ofImage (MemImage.ofWords [0x00231100#32, haltWord]))) =
          some (.halt, s) ∧
        Cycle.runTillHalt fuel' (Cycle.initSimulator (ValidConfig.oneBlock 0#32).toCacheConfig
          (ValidConfig.oneBlock 0#32).toCacheConfig
          (MemoryStore.ofImage (MemImage.ofWords [0x00031100#32, haltWord]))) =
          some (.halt, s') ∧
        s.log.lines.length = s'.log.lines.length := by
  have hrun : Cycle.HaltsAfter 2
      (Cycle.initSimulator (ValidConfig.oneBlock 0#32).toCacheConfig
        (ValidConfig.oneBlock 0#32).toCacheConfig
        (MemoryStore.ofImage (MemImage.ofWords [0x00231100#32, haltWord]))) _ :=
    Machine.finishesIn_after (by decide) (by decide)
  have hrun' : Cycle.HaltsAfter 2
      (Cycle.initSimulator (ValidConfig.oneBlock 0#32).toCacheConfig
        (ValidConfig.oneBlock 0#32).toCacheConfig
        (MemoryStore.ofImage (MemImage.ofWords [0x00031100#32, haltWord]))) _ :=
    Machine.finishesIn_after (by decide) (by decide)
  rcases Cycle.haltsAfter_iff_runTillHalt.mp ⟨_, hrun⟩ with ⟨fuel, hfuel⟩
  rcases Cycle.haltsAfter_iff_runTillHalt.mp ⟨_, hrun'⟩ with ⟨fuel', hfuel'⟩
  exact ⟨fuel, fuel', _, _, hfuel, hfuel',
    (pipe_trace_identifies_stages hfuel hfuel' (by decide +kernel)).1⟩

end PipeSim
