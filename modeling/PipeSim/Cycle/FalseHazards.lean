import PipeSim.Machine.Dependence
import PipeSim.Cycle.Segments
import PipeSim.Cycle.Forwarding

/-!
# Hazards that are none

The detectors compare register fields of two words.  A field that the instruction
does not use, or that holds `$0`, makes them report a dependence that the emulator does
not have.  Here their reports are compared with the dependences of the emulator, for a
pair of words and then for the stalls of a whole run.
-/

namespace PipeSim

open Library

namespace Cycle

/-- `dep` writes a register other than `$0` that makes a difference to `use`. -/
def Depends (use dep : Word) : Prop :=
  exists r, r ≠ 0#5 ∧ destination? dep = some r ∧ Emulator.Reads use r

def Reported (use dep : Word) : Prop :=
  opBranch use dep ≠ 0#32 ∨ loadBranch use dep ≠ 0#32 ∨ loadOp use dep ≠ 0#32

instance (use dep : Word) : Decidable (Reported use dep) := by
  unfold Reported
  infer_instance

def Comparable (use dep : Word) : Prop :=
  (isBranch use = true ∧ (isOp dep = true ∨ isLoad dep = true)) ∨
    (isOp use = true ∧ isLoad dep = true)

instance (use dep : Word) : Decidable (Comparable use dep) := by
  unfold Comparable
  infer_instance

def comparedFields (use : Word) : List RegId :=
  if isImm use then [rsOf use] else [rsOf use, rtOf use]

def Names (use dep : Word) : Prop :=
  exists r, r ∈ comparedFields use ∧ destination? dep = some r

instance (use dep : Word) : Decidable (Names use dep) :=
  decidable_of_iff
    ((comparedFields use).any (fun r => decide (destination? dep = some r)) = true)
    (by simp only [List.any_eq_true, decide_eq_true_eq]; rfl)

/-- Where a compared field of `use` names the destination of `dep`, the register is not
`$0` and `use` really depends on that field. -/
def RealNames (use dep : Word) : Prop :=
  forall r, r ∈ comparedFields use -> destination? dep = some r ->
    r ≠ 0#5 ∧ r ∈ Emulator.sources use

instance (use dep : Word) : Decidable (RealNames use dep) :=
  haveI : forall (regs : List RegId) r, Decidable (r ∈ regs) := fun _ _ =>
    decidable_of_iff _ List.elem_iff
  inferInstanceAs (Decidable (forall r, r ∈ comparedFields use ->
    destination? dep = some r -> r ≠ 0#5 ∧ r ∈ Emulator.sources use))

def RealFields (use dep : Word) : Prop := Comparable use dep -> RealNames use dep

instance (use dep : Word) : Decidable (RealFields use dep) :=
  inferInstanceAs (Decidable (Comparable use dep -> RealNames use dep))

/-!
## The classes of the detectors
-/

theorem isBranch_iff {word : Word} : isBranch word = true <-> IsConditional word := by
  rw [isBranch_eq]
  unfold IsConditional
  cases opOf word with
  | none =>
      exact iff_of_false Bool.false_ne_true id
  | some op =>
      cases op <;> simp [OpId.isBranch]

theorem isOperation_of_isOp {word : Word} (hvalid : validWord word = true)
    (h : isOp word = true) : IsOperation word := by
  unfold isOp at h
  rw [isImm_eq, isRop_eq] at h
  unfold IsOperation
  unfold validWord at hvalid
  cases hop : opOf word with
  | none =>
      rw [hop] at h
      simp at h
  | some op =>
      rw [hop] at h
      cases op <;> simp [OpId.isImm] at h ⊢
      case zero =>
          have hhalt : word ≠ haltWord := by
            intro hhalt
            rw [hhalt] at hop
            exact absurd hop (by decide)
          rw [hop, beq_eq_false_iff_ne.mpr hhalt, Bool.false_or] at hvalid
          rcases Option.isSome_iff_exists.mp hvalid with ⟨f, hf⟩
          exact ⟨f, hf, fun hjr => h.2 (by rw [hf, hjr])⟩

theorem not_isImm_of_isBranch {word : Word} (h : isBranch word = true) :
    isImm word = false := by
  rw [isBranch_eq] at h
  rw [isImm_eq]
  cases hop : opOf word with
  | none =>
      rfl
  | some op =>
      rw [hop] at h
      cases op <;> simp [OpId.isBranch, OpId.isImm] at h ⊢

theorem destination?_of_isOp {dep : Word} (hvalid : validWord dep = true)
    (h : isOp dep = true) : destination? dep = some (regOf (opTarget dep)) := by
  have hoperation := isOperation_of_isOp hvalid h
  unfold IsOperation at hoperation
  unfold destination? opTarget
  rw [isImm_eq]
  cases hop : opOf dep with
  | none =>
      rw [hop] at hoperation
      exact hoperation.elim
  | some op =>
      rw [hop] at hoperation
      cases op <;> dsimp only at hoperation ⊢
      case zero =>
          rcases hoperation with ⟨f, hf, hjr⟩
          rw [hf]
          cases f <;> first
            | rfl
            | exact absurd rfl hjr
      all_goals rfl

theorem opTarget_lt (dep : Word) : (opTarget dep).toNat < 2 ^ 5 := by
  unfold opTarget
  split
  · exact field_lt dep 16
  · exact field_lt dep 11

theorem rs_eq_opTarget {use dep : Word} :
    rs use = opTarget dep <-> rsOf use = regOf (opTarget dep) :=
  (regOf_inj (field_lt use 21) (opTarget_lt dep)).symm

theorem rt_eq_opTarget {use dep : Word} :
    rt use = opTarget dep <-> rtOf use = regOf (opTarget dep) :=
  (regOf_inj (field_lt use 16) (opTarget_lt dep)).symm

/-!
## What a report means
-/

section Reports

variable {use dep : Word} {r : RegId}

theorem mem_comparedFields_of_isBranch (h : isBranch use = true) :
    r ∈ comparedFields use <-> rsOf use = r ∨ rtOf use = r := by
  unfold comparedFields
  rw [not_isImm_of_isBranch h, if_neg Bool.false_ne_true, List.mem_cons, List.mem_singleton]
  exact or_congr eq_comm eq_comm

theorem names_iff (hr : destination? dep = some r) :
    Names use dep <-> r ∈ comparedFields use := by
  unfold Names
  rw [hr]
  constructor
  · intro h
    rcases h with ⟨q, hmem, hq⟩
    cases hq
    exact hmem
  · intro hmem
    exact ⟨r, hmem, rfl⟩

theorem report_ne_zero_iff {condition : Bool} {report : Word} (hreport : report ≠ 0#32) :
    (if condition then report else 0#32) ≠ 0#32 <-> condition = true := by
  cases condition with
  | false =>
      exact iff_of_false (fun h => h rfl) Bool.false_ne_true
  | true =>
      exact iff_of_true hreport rfl

theorem opBranch_ne_zero_iff (hdest : isOp dep = true -> destination? dep =
    some (regOf (opTarget dep))) :
    opBranch use dep ≠ 0#32 <->
      isBranch use = true ∧ isOp dep = true ∧ Names use dep := by
  unfold opBranch
  rw [report_ne_zero_iff (by decide), Bool.and_eq_true, Bool.and_eq_true, and_assoc]
  refine and_congr_right fun hbranch => and_congr_right fun hop => ?_
  rw [names_iff (hdest hop), mem_comparedFields_of_isBranch hbranch,
    Bool.or_eq_true, beq_iff_eq, beq_iff_eq, rs_eq_opTarget, rt_eq_opTarget]

theorem loadBranch_ne_zero_iff :
    loadBranch use dep ≠ 0#32 <->
      isBranch use = true ∧ isLoad dep = true ∧ Names use dep := by
  unfold loadBranch
  rw [report_ne_zero_iff (by decide), Bool.and_eq_true, Bool.and_eq_true, and_assoc]
  refine and_congr_right fun hbranch => and_congr_right fun hload => ?_
  rw [names_iff (destination?_of_isLoad hload),
    mem_comparedFields_of_isBranch hbranch, Bool.or_eq_true, beq_iff_eq, beq_iff_eq,
    rs_eq_rt, rt_eq_rt]

theorem loadOp_fields_iff :
    ((isImm use && rs use == rt dep) ||
        (!isImm use && (rs use == rt dep || rt use == rt dep))) = true <->
      rtOf dep ∈ comparedFields use := by
  unfold comparedFields
  cases isImm use with
  | true =>
      simp only [Bool.true_and, Bool.not_true, Bool.false_and, Bool.or_false, beq_iff_eq,
        rs_eq_rt, if_true, List.mem_singleton]
      exact eq_comm
  | false =>
      simp only [Bool.false_and, Bool.not_false, Bool.true_and, Bool.false_or, Bool.or_eq_true,
        beq_iff_eq, rs_eq_rt, rt_eq_rt, Bool.false_eq_true, if_false, List.mem_cons,
        List.not_mem_nil, or_false]
      exact or_congr eq_comm eq_comm

theorem loadOp_ne_zero_iff :
    loadOp use dep ≠ 0#32 <->
      isOp use = true ∧ isLoad dep = true ∧ Names use dep := by
  unfold loadOp
  rw [report_ne_zero_iff (by decide), Bool.and_eq_true, Bool.and_eq_true, and_assoc]
  refine and_congr_right fun hop => and_congr_right fun hload => ?_
  rw [names_iff (destination?_of_isLoad hload)]
  exact loadOp_fields_iff

/-- The detectors report a pair of their classes when a compared field of `use` names the
destination of `dep`. -/
theorem reported_iff (hdep : validWord dep = true) :
    Reported use dep <-> Comparable use dep ∧ Names use dep := by
  unfold Reported Comparable
  rw [opBranch_ne_zero_iff (destination?_of_isOp hdep), loadBranch_ne_zero_iff,
    loadOp_ne_zero_iff]
  constructor
  · intro h
    rcases h with ⟨hbranch, hop, hnames⟩ | ⟨hbranch, hload, hnames⟩ | ⟨hop, hload, hnames⟩
    · exact ⟨Or.inl ⟨hbranch, Or.inl hop⟩, hnames⟩
    · exact ⟨Or.inl ⟨hbranch, Or.inr hload⟩, hnames⟩
    · exact ⟨Or.inr ⟨hop, hload⟩, hnames⟩
  · intro h
    rcases h with ⟨⟨hbranch, hop | hload⟩ | ⟨hop, hload⟩, hnames⟩
    · exact Or.inl ⟨hbranch, hop, hnames⟩
    · exact Or.inr (Or.inl ⟨hbranch, hload, hnames⟩)
    · exact Or.inr (Or.inr ⟨hop, hload, hnames⟩)

theorem reads_iff_of_comparable (huse : validWord use = true) (h : Comparable use dep) :
    Emulator.Reads use r <-> r ≠ 0#5 ∧ r ∈ Emulator.sources use := by
  refine Emulator.reads_iff ?_
  rcases h with ⟨hbranch, _⟩ | ⟨hop, _⟩
  · exact Or.inr (isBranch_iff.mp hbranch)
  · exact Or.inl (isOperation_of_isOp huse hop)

theorem depends_of_names_iff (huse : validWord use = true) (h : Comparable use dep) :
    (Names use dep -> Depends use dep) <-> RealNames use dep := by
  constructor
  · intro hdepends r hmem hr
    rcases hdepends ⟨r, hmem, hr⟩ with ⟨q, _, hq, hreads⟩
    rw [hr] at hq
    cases hq
    exact (reads_iff_of_comparable huse h).mp hreads
  · intro hreal hnames
    rcases hnames with ⟨r, hmem, hr⟩
    exact ⟨r, (hreal r hmem hr).1, hr, (reads_iff_of_comparable huse h).mpr (hreal r hmem hr)⟩

/-- A report is a dependence exactly when the field that caused it is a real one. -/
theorem depends_of_reported_iff (huse : validWord use = true) (hdep : validWord dep = true) :
    (Reported use dep -> Depends use dep) <-> RealFields use dep := by
  rw [reported_iff hdep, and_imp]
  exact forall_congr' fun hcomparable => depends_of_names_iff huse hcomparable

end Reports

/-!
## What one fetch compares
-/

def HeldClass (use dep : Word) : Prop :=
  (isBranch use = true ∧ isOp dep = true) ∨ (isOp use = true ∧ isLoad dep = true)

/-- The comparisons of a fetch that brings `fin`, `din` and `xin` to IF, ID and EX find real
dependences only.  The load in EX does not count if the branch waits for the one in ID. -/
structure FetchReal (fin din xin : Word) : Prop where
  held : HeldClass din xin -> RealNames din xin
  near : isBranch fin = true -> isLoad din = true -> RealNames fin din
  far : isBranch fin = true -> isLoad xin = true -> ¬ (isLoad din = true ∧ Names fin din) ->
    RealNames fin xin

instance (fin din xin : Word) : Decidable (FetchReal fin din xin) :=
  decidable_of_iff
    ((((isBranch din = true ∧ isOp xin = true) ∨ (isOp din = true ∧ isLoad xin = true)) ->
        RealNames din xin) ∧
      (isBranch fin = true -> isLoad din = true -> RealNames fin din) ∧
      (isBranch fin = true -> isLoad xin = true ->
        ¬ (isLoad din = true ∧ Names fin din) -> RealNames fin xin))
    ⟨fun h => ⟨h.1, h.2.1, h.2.2⟩, fun h => ⟨h.held, h.near, h.far⟩⟩

/-- The load that a branch in IF waits for. -/
def waitedLoad (fin din xin : Word) : Word := if loadBranch fin din = 2#32 then din else xin

section Comparisons

variable {use dep fin din xin : Word}

theorem HeldClass.comparable (h : HeldClass use dep) : Comparable use dep :=
  h.imp (fun hbranch => ⟨hbranch.1, Or.inl hbranch.2⟩) id

theorem exDelay_pos_iff (hdep : validWord dep = true) :
    0 < (exDelay use dep).toNat <-> HeldClass use dep ∧ Names use dep := by
  have hsum : 0 < (exDelay use dep).toNat <-> opBranch use dep ≠ 0#32 ∨ loadOp use dep ≠ 0#32 := by
    unfold exDelay opBranch loadOp
    split <;> split <;> decide
  rw [hsum, opBranch_ne_zero_iff (destination?_of_isOp hdep), loadOp_ne_zero_iff]
  unfold HeldClass
  rw [or_and_right, and_assoc, and_assoc]

theorem branchStall_pos_iff :
    0 < (branchStall fin din xin 0#32).toNat <->
      loadBranch fin din ≠ 0#32 ∨ loadBranch fin xin ≠ 0#32 := by
  unfold branchStall
  rcases loadBranch_cases fin din with hnear | hnear <;>
    rcases loadBranch_cases fin xin with hfar | hfar <;> rw [hnear, hfar] <;> decide

theorem depends_of_exDelay_iff (hdin : validWord din = true) (hxin : validWord xin = true) :
    (0 < (exDelay din xin).toNat -> Depends din xin) <->
      (HeldClass din xin -> RealNames din xin) := by
  rw [exDelay_pos_iff hxin, and_imp]
  exact forall_congr' fun hclass => depends_of_names_iff hdin hclass.comparable

theorem depends_of_loadBranch_iff (huse : validWord use = true) :
    (loadBranch use dep ≠ 0#32 -> Depends use dep) <->
      (isBranch use = true -> isLoad dep = true -> RealNames use dep) := by
  rw [loadBranch_ne_zero_iff, and_imp, and_imp]
  exact forall_congr' fun hbranch => forall_congr' fun hload =>
    depends_of_names_iff huse (Or.inl ⟨hbranch, Or.inr hload⟩)

theorem depends_of_branchStall_iff (hfin : validWord fin = true) :
    (0 < (branchStall fin din xin 0#32).toNat -> Depends fin (waitedLoad fin din xin)) <->
      (isBranch fin = true -> isLoad din = true -> RealNames fin din) ∧
        (isBranch fin = true -> isLoad xin = true -> ¬ (isLoad din = true ∧ Names fin din) ->
          RealNames fin xin) := by
  rw [branchStall_pos_iff]
  unfold waitedLoad
  rcases loadBranch_cases fin din with hnear | hnear
  · have hnot : ¬ (isBranch fin = true ∧ isLoad din = true ∧ Names fin din) :=
      fun h => loadBranch_ne_zero_iff.mpr h hnear
    rw [hnear, if_neg (by decide), or_iff_right (not_not_intro rfl),
      depends_of_loadBranch_iff hfin]
    constructor
    · intro hfar
      exact ⟨fun hbranch hload r hmem hr => absurd ⟨hbranch, hload, r, hmem, hr⟩ hnot,
        fun hbranch hload _ => hfar hbranch hload⟩
    · intro h hbranch hload
      exact h.2 hbranch hload fun hnames => hnot ⟨hbranch, hnames⟩
  · have hne : loadBranch fin din ≠ 0#32 := by
      rw [hnear]
      decide
    have hnames := (loadBranch_ne_zero_iff.mp hne).2
    rw [if_pos hnear, ← depends_of_loadBranch_iff hfin]
    constructor
    · intro h
      exact ⟨fun _ => h (Or.inl hne), fun _ _ hnot => absurd hnames hnot⟩
    · intro h _
      exact h.1 hne

theorem fetchReal_iff (hfin : validWord fin = true) (hdin : validWord din = true)
    (hxin : validWord xin = true) :
    FetchReal fin din xin <->
      (0 < (exDelay din xin).toNat -> Depends din xin) ∧
        (0 < (branchStall fin din xin 0#32).toNat -> Depends fin (waitedLoad fin din xin)) := by
  rw [depends_of_exDelay_iff hdin hxin, depends_of_branchStall_iff hfin]
  constructor
  · intro h
    exact ⟨h.held, h.near, h.far⟩
  · intro h
    exact ⟨h.1, h.2.1, h.2.2⟩

end Comparisons

/-!
## Stalls of a run
-/

/-- The words that the coming fetch brings to IF, ID and EX. -/
def finOf (s : Sim) : Word := (nextInfo s).instruction

def dinOf (s : Sim) : Word := s.pipeState.ifInstr.instr

def xinOf (s : Sim) : Word := s.pipeState.idInstr.instr

/-- The coming step is a fetch that compares. -/
structure Compares (s : Sim) : Prop where
  fetches : Fetches s
  completes : (nextInfo s).completes = true
  goesOn : (nextInfo s).isHalt = false

/-- The last fetch in front of cycle `k` is that of cycle `i`, and the cycles since are stall
cycles. -/
structure LastFetch (start : Sim) (i k : Nat) : Prop where
  lt : i < k
  compares : Compares (machine.after i start)
  stalled : forall j, i < j -> j < k -> Stalled (machine.after j start)

/-- The stalls due in front of cycle `k` have been asked for by the last fetch, and between
instructions that depend on each other: the one in ID and the one in EX, or the branch and the
load it waits for. -/
structure RealStalls (start : Sim) (k : Nat) (s : Sim) : Prop where
  xStall : 0 < s.xStall.toNat -> exists i, LastFetch start i k ∧
    Depends (dinOf (machine.after i start)) (xinOf (machine.after i start))
  dStall : 0 < s.dStall.toNat -> exists i, LastFetch start i k ∧
    Depends (finOf (machine.after i start))
      (waitedLoad (finOf (machine.after i start)) (dinOf (machine.after i start))
        (xinOf (machine.after i start)))

structure StallOrigins (start : Sim) (k : Nat) (s : Sim) : Prop where
  validIf : validWord s.pipeState.ifInstr.instr = true
  validId : validWord s.pipeState.idInstr.instr = true
  idle : 0#32 < s.except -> s.xStall = 0#32 ∧ s.dStall = 0#32
  xStall : 0 < s.xStall.toNat -> exists i, LastFetch start i k ∧
    0 < (exDelay (dinOf (machine.after i start)) (xinOf (machine.after i start))).toNat
  dStall : 0 < s.dStall.toNat -> exists i, LastFetch start i k ∧
    0 < (branchStall (finOf (machine.after i start)) (dinOf (machine.after i start))
      (xinOf (machine.after i start)) 0#32).toNat

section Steps

variable {start s t : Sim} {i k : Nat}

theorem validWord_bubble : validWord Slot.bubble.instr = true := by
  decide

theorem validWord_finOf (h : Compares s) : validWord (finOf s) = true := by
  have hword : finOf s = s.emulator.fetchedWord :=
    Emulator.executeInstruction_instruction s.emulator
  have hcompletes := h.completes
  rw [hword, ← Emulator.executeInstruction_isValid]
  unfold InstructionInfo.completes at hcompletes
  rw [Bool.and_eq_true] at hcompletes
  exact hcompletes.1

theorem LastFetch.eq_of_compares (h : LastFetch start i (k + 1))
    (hcompares : Compares (machine.after k start)) : i = k := by
  rcases Nat.lt_or_eq_of_le (Nat.le_of_lt_succ h.lt) with hlt | heq
  · exact absurd (h.stalled k hlt (Nat.lt_succ_self k)) hcompares.fetches.notStalled
  · exact heq

theorem LastFetch.of_compares (hcompares : Compares (machine.after k start)) :
    LastFetch start k (k + 1) :=
  ⟨Nat.lt_succ_self k, hcompares, fun j hj hjk => absurd hjk (by lia)⟩

theorem LastFetch.succ (h : LastFetch start i k) (hstalled : Stalled (machine.after k start)) :
    LastFetch start i (k + 1) := by
  refine ⟨Nat.lt_succ_of_lt h.lt, h.compares, ?_⟩
  intro j hij hjk
  rcases Nat.lt_or_eq_of_le (Nat.le_of_lt_succ hjk) with hlt | heq
  · exact h.stalled j hij hlt
  · rw [heq]
    exact hstalled

theorem StallOrigins.of_idle (hxStall : t.xStall = 0#32) (hdStall : t.dStall = 0#32)
    (hif : validWord t.pipeState.ifInstr.instr = true)
    (hid : validWord t.pipeState.idInstr.instr = true) : StallOrigins start k t where
  validIf := hif
  validId := hid
  idle := fun _ => ⟨hxStall, hdStall⟩
  xStall := by
    rw [hxStall]
    exact fun h => absurd h (by decide)
  dStall := by
    rw [hdStall]
    exact fun h => absurd h (by decide)

theorem stallOrigins_initSimulator (ic dc : CacheConfig) (mem : MemoryStore) :
    StallOrigins start 0 (initSimulator ic dc mem) :=
  StallOrigins.of_idle rfl rfl validWord_bubble validWord_bubble

theorem StallOrigins.stallStep (h : StallOrigins start k s) (hexcept : s.except = 0#32)
    (hstalled : Stalled s) (hafter : s = machine.after k start) :
    StallOrigins start (k + 1) (stallStep s) := by
  have hlast : Stalled (machine.after k start) := by
    rw [← hafter]
    exact hstalled
  have hif : (Cycle.stallStep s).pipeState.ifInstr = s.pipeState.ifInstr :=
    (stallStep_front hstalled).1
  refine ⟨?_, ?_, ?_, ?_, ?_⟩
  · rw [hif]
    exact h.validIf
  · rcases (stallStep_front hstalled).2 with ⟨_, hid⟩ | ⟨_, _, hid⟩
    · rw [hid]
      exact h.validId
    · rw [hid]
      exact validWord_bubble
  · rw [stallStep_except, hexcept]
    exact fun hpos => absurd hpos (by decide)
  · rw [stallStep_xStall, toNat_countDown]
    intro hpos
    rcases h.xStall (by lia) with ⟨i, hi, hdelay⟩
    exact ⟨i, hi.succ hlast, hdelay⟩
  · rw [stallStep_dStall, toNat_countDown]
    intro hpos
    rcases h.dStall (by lia) with ⟨i, hi, hdelay⟩
    exact ⟨i, hi.succ hlast, hdelay⟩

theorem StallOrigins.fetchStep (h : StallOrigins start k s) (hcompares : Compares s)
    (hafter : s = machine.after k start) : StallOrigins start (k + 1) (fetchStep s) := by
  rcases fetchStep_fields s with ⟨_, _, hexcept, hif, hid, _⟩
  rcases fetchStep_hazards hcompares.fetches with ⟨hdStall, hxStall⟩
  have hlast : LastFetch start k (k + 1) := by
    apply LastFetch.of_compares
    rw [← hafter]
    exact hcompares
  refine ⟨?_, ?_, ?_, ?_, ?_⟩
  · rw [hif]
    exact validWord_finOf hcompares
  · rw [hid]
    exact h.validIf
  · rw [hexcept, hcompares.fetches.except]
    exact fun hpos => absurd hpos (by decide)
  · intro hpos
    refine ⟨k, hlast, ?_⟩
    rw [← hafter]
    rw [hxStall] at hpos
    exact hpos
  · intro hpos
    refine ⟨k, hlast, ?_⟩
    rw [← hafter]
    rw [hdStall] at hpos
    exact hpos

theorem StallOrigins.step {s' : Sim} (h : StallOrigins start k s) (hstep : Step s false s')
    (hafter : s = machine.after k start) : StallOrigins start (k + 1) s' := by
  cases hstep with
  | except hexcept =>
      rcases h.idle hexcept with ⟨hxStall, hdStall⟩
      exact StallOrigins.of_idle hxStall hdStall validWord_bubble h.validIf
  | stall hexcept hstalled =>
      exact h.stallStep hexcept hstalled hafter
  | trap hfetch _ =>
      rcases counters_of_not_stalled hfetch.notStalled with ⟨_, _, hdStall, hxStall⟩
      exact StallOrigins.of_idle hxStall hdStall validWord_bubble h.validIf
  | fetch hfetch hcompletes hhalt =>
      exact h.fetchStep ⟨hfetch, hcompletes, hhalt⟩ hafter

theorem stallOrigins_of_reaches {ic dc : CacheConfig} {mem : MemoryStore}
    (h : machine.Reaches k (initSimulator ic dc mem) s) :
    StallOrigins (initSimulator ic dc mem) k s := by
  induction k generalizing s with
  | zero =>
      cases h
      exact stallOrigins_initSimulator ic dc mem
  | succ k ih =>
      cases h with
      | tail hprev hlast =>
          exact (ih hprev).step (step_of_machine hlast) hprev.eq_after

theorem fetchReal_iff_of_origins (h : StallOrigins start k s) (hcompares : Compares s) :
    FetchReal (finOf s) (dinOf s) (xinOf s) <->
      (0 < (fetchStep s).xStall.toNat -> Depends (dinOf s) (xinOf s)) ∧
        (0 < (fetchStep s).dStall.toNat ->
          Depends (finOf s) (waitedLoad (finOf s) (dinOf s) (xinOf s))) := by
  rcases fetchStep_hazards hcompares.fetches with ⟨hdStall, hxStall⟩
  rw [hdStall, hxStall]
  exact fetchReal_iff (validWord_finOf hcompares) h.validIf h.validId

end Steps

/-- The stalls of a run are all real exactly when the comparisons of all its fetches are. -/
theorem realStalls_iff (ic dc : CacheConfig) (mem : MemoryStore) :
    (forall k s, machine.Reaches k (initSimulator ic dc mem) s ->
        RealStalls (initSimulator ic dc mem) k s) <->
      forall i s, machine.Reaches i (initSimulator ic dc mem) s -> Compares s ->
        FetchReal (finOf s) (dinOf s) (xinOf s) := by
  constructor
  · intro h i s hreach hcompares
    have hafter := hreach.eq_after
    have hnext := hreach.tail
      (Step.fetch hcompares.fetches hcompares.completes hcompares.goesOn).machine_eq
    have hreal := h (i + 1) _ hnext
    rw [fetchReal_iff_of_origins (stallOrigins_of_reaches hreach) hcompares]
    rw [hafter] at hcompares
    constructor
    · intro hpos
      rcases hreal.xStall hpos with ⟨j, hlast, hdepends⟩
      rw [hlast.eq_of_compares hcompares, ← hafter] at hdepends
      exact hdepends
    · intro hpos
      rcases hreal.dStall hpos with ⟨j, hlast, hdepends⟩
      rw [hlast.eq_of_compares hcompares, ← hafter] at hdepends
      exact hdepends
  · intro h k s hreach
    have horigins := stallOrigins_of_reaches hreach
    have hfetch := fun j (hlast : LastFetch (initSimulator ic dc mem) j k) =>
      have hbefore := hreach.take (Nat.le_of_lt hlast.lt)
      have hvalid := stallOrigins_of_reaches hbefore
      (fetchReal_iff (validWord_finOf hlast.compares) hvalid.validIf hvalid.validId).mp
        (h j _ hbefore hlast.compares)
    constructor
    · intro hpos
      rcases horigins.xStall hpos with ⟨j, hlast, hdelay⟩
      exact ⟨j, hlast, (hfetch j hlast).1 hdelay⟩
    · intro hpos
      rcases horigins.dStall hpos with ⟨j, hlast, hdelay⟩
      exact ⟨j, hlast, (hfetch j hlast).2 hdelay⟩

end Cycle

/-- A shift that does nothing, written to `$0`, makes a branch wait that compares with
`$0`. -/
theorem zero_register_reported :
    ¬ forall use dep, validWord use = true -> validWord dep = true ->
      Cycle.Reported use dep -> Cycle.Depends use dep := by
  intro h
  have hdest : destination? 0x00000040#32 = some 0#5 := by decide
  rcases h 0x10400001#32 0x00000040#32 (by decide) (by decide) (by decide) with ⟨r, hr, hdep, _⟩
  rw [hdest] at hdep
  cases hdep
  exact hr rfl

/-- A report about two valid words is a dependence exactly when the compared field that
names the destination is not `$0` and one the instruction depends on; the stalls of a run are
all between dependent instructions exactly when this holds of what its fetches compare. -/
theorem reports_are_dependences_iff (use dep : Word) (huse : validWord use = true)
    (hdep : validWord dep = true) (image : MemImage) (ic dc : ValidConfig) :
    ((Cycle.Reported use dep -> Cycle.Depends use dep) <-> Cycle.RealFields use dep) ∧
      ((forall k s,
          Cycle.machine.Reaches k
              (Cycle.initSimulator ic.toCacheConfig dc.toCacheConfig
                (MemoryStore.ofImage image)) s ->
            Cycle.RealStalls (Cycle.initSimulator ic.toCacheConfig dc.toCacheConfig
              (MemoryStore.ofImage image)) k s) <->
        forall k s,
          Cycle.machine.Reaches k
              (Cycle.initSimulator ic.toCacheConfig dc.toCacheConfig
                (MemoryStore.ofImage image)) s ->
            Cycle.Compares s ->
              Cycle.FetchReal (Cycle.finOf s) (Cycle.dinOf s) (Cycle.xinOf s)) :=
  ⟨Cycle.depends_of_reported_iff huse hdep, Cycle.realStalls_iff _ _ _⟩

/-- `addu $2, $1, $1` behind `lw $1, 0($0)`, a word that does nothing and the halt word. -/
def loadUseStallProgram : List Word := [0x8c010000#32, 0x00211021#32, 0x0#32, haltWord]

/-- `addu` waits for the load. -/
theorem reports_are_dependences_load_use :
    (Cycle.Reported 0x00211021#32 0x8c010000#32 -> Cycle.Depends 0x00211021#32 0x8c010000#32) ∧
      forall k s,
        Cycle.machine.Reaches k
            (Cycle.initSimulator (ValidConfig.oneBlock 0#32).toCacheConfig
              (ValidConfig.oneBlock 0#32).toCacheConfig
              (MemoryStore.ofImage (MemImage.ofWords loadUseStallProgram))) s ->
          Cycle.RealStalls (Cycle.initSimulator (ValidConfig.oneBlock 0#32).toCacheConfig
              (ValidConfig.oneBlock 0#32).toCacheConfig
              (MemoryStore.ofImage (MemImage.ofWords loadUseStallProgram))) k s := by
  have hrun : Cycle.HaltsAfter 5
      (Cycle.initSimulator (ValidConfig.oneBlock 0#32).toCacheConfig
        (ValidConfig.oneBlock 0#32).toCacheConfig
        (MemoryStore.ofImage (MemImage.ofWords loadUseStallProgram))) _ :=
    Machine.finishesIn_after (by decide +kernel) (by decide +kernel)
  have hall := hrun.forall_reaches
    (P := fun s => Cycle.FetchReal (Cycle.finOf s) (Cycle.dinOf s) (Cycle.xinOf s))
    (by decide +kernel)
  have hiff := reports_are_dependences_iff 0x00211021#32 0x8c010000#32 (by decide) (by decide)
    (MemImage.ofWords loadUseStallProgram) (ValidConfig.oneBlock 0#32)
    (ValidConfig.oneBlock 0#32)
  exact ⟨hiff.1.mpr (by decide), hiff.2.mpr fun k s hreach _ => hall k s hreach⟩

end PipeSim
