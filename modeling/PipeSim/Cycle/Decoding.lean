import PipeSim.Cycle.State
import PipeSim.Machine.Fields

/-!
# Two decoders

The cycle simulator classifies instruction words with predicates of its own.
Here they are related to the case labels that the switch of the emulator selects.
-/

namespace PipeSim

namespace OpId

def isLoad : OpId -> Bool
  | lbu | lhu | lw => true
  | _ => false

def isStore : OpId -> Bool
  | sb | sh | sw => true
  | _ => false

def isBranch : OpId -> Bool
  | beq | bne | blez | bgtz => true
  | _ => false

/-- The operations with an immediate operand, `lui` apart. -/
def isImm : OpId -> Bool
  | addi | addiu | andi | ori | slti | sltiu => true
  | _ => false

end OpId

namespace Cycle

theorem opOf_eq_some {target : Word} {op : OpId} :
    opOf target = some op <-> opcode target = op.code := by
  unfold opOf
  rw [OpId.ofCode?_eq_some]
  exact eq_comm

theorem opcode_beq_code (target : Word) (op : OpId) :
    (opcode target == op.code) = decide (opOf target = some op) := by
  rw [Bool.eq_iff_iff, beq_iff_eq, decide_eq_true_iff, opOf_eq_some]

theorem opOf_zero : opOf 0#32 = some .zero := by
  decide

theorem ne_zero_of_opOf {target : Word} {op : OpId} (h : opOf target = some op)
    (hop : op ≠ .zero) : target ≠ 0#32 := by
  intro heq
  subst heq
  rw [opOf_zero] at h
  cases h
  exact hop rfl

theorem isLoad_eq (target : Word) : isLoad target = (opOf target).any OpId.isLoad := by
  unfold isLoad
  simp only [opcode_beq_code]
  cases hop : opOf target with
  | none =>
      simp
  | some op =>
      by_cases hzero : op = .zero
      · subst hzero
        simp [OpId.isLoad]
      · have hne := ne_zero_of_opOf hop hzero
        cases op <;> simp [OpId.isLoad, hne]

theorem isStore_eq (target : Word) : isStore target = (opOf target).any OpId.isStore := by
  unfold isStore
  simp only [opcode_beq_code]
  cases hop : opOf target with
  | none =>
      simp
  | some op =>
      by_cases hzero : op = .zero
      · subst hzero
        simp [OpId.isStore]
      · have hne := ne_zero_of_opOf hop hzero
        cases op <;> simp [OpId.isStore, hne]

theorem isBranch_eq (target : Word) : isBranch target = (opOf target).any OpId.isBranch := by
  unfold isBranch
  simp only [opcode_beq_code]
  cases hop : opOf target with
  | none =>
      simp
  | some op =>
      by_cases hzero : op = .zero
      · subst hzero
        simp [OpId.isBranch]
      · have hne := ne_zero_of_opOf hop hzero
        cases op <;> simp [OpId.isBranch, hne]

theorem isImm_eq (target : Word) : isImm target = (opOf target).any OpId.isImm := by
  unfold isImm
  simp only [opcode_beq_code]
  cases hop : opOf target with
  | none =>
      simp
  | some op =>
      cases op <;> simp [OpId.isImm]

theorem isRop_eq (target : Word) :
    isRop target =
      (target != 0#32 && decide (opOf target = some .zero) &&
        decide (functOf target ≠ some .jr)) := by
  have hjr : (funct target != FunId.jr.code) =
      decide (functOf target ≠ some .jr) := by
    unfold functOf
    rw [Bool.eq_iff_iff, bne_iff_ne, decide_eq_true_iff, ne_eq, ne_eq,
      FunId.ofCode?_eq_some]
    exact not_congr eq_comm
  unfold isRop
  rw [hjr, opcode_beq_code, Bool.and_assoc]

/-!
## Register fields
-/

theorem regOf_inj {a b : Word} (ha : a.toNat < 2 ^ 5) (hb : b.toNat < 2 ^ 5) :
    regOf a = regOf b <-> a = b := by
  constructor
  · intro h
    have htoNat := congrArg BitVec.toNat h
    unfold regOf at htoNat
    rw [BitVec.toNat_setWidth, BitVec.toNat_setWidth, Nat.mod_eq_of_lt ha,
      Nat.mod_eq_of_lt hb] at htoNat
    exact BitVec.eq_of_toNat_eq htoNat
  · intro heq
    subst heq
    rfl

theorem field_lt (word : Word) (stop : Nat) :
    (extractBits word (stop + 4) stop).toNat < 2 ^ 5 := by
  have hlength : stop + 4 - stop + 1 = 5 := by
    lia
  rw [toNat_extractBits word (by lia), hlength]
  exact Nat.mod_lt _ (by decide)

theorem rs_eq_rt {use dep : Word} : rs use = rt dep <-> rsOf use = rtOf dep :=
  (regOf_inj (field_lt use 21) (field_lt dep 16)).symm

theorem rt_eq_rt {use dep : Word} : rt use = rt dep <-> rtOf use = rtOf dep :=
  (regOf_inj (field_lt use 16) (field_lt dep 16)).symm

theorem rs_eq_rd {use dep : Word} : rs use = rd dep <-> rsOf use = rdOf dep :=
  (regOf_inj (field_lt use 21) (field_lt dep 11)).symm

theorem rt_eq_rd {use dep : Word} : rt use = rd dep <-> rtOf use = rdOf dep :=
  (regOf_inj (field_lt use 16) (field_lt dep 11)).symm

end Cycle
end PipeSim
