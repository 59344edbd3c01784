import PipeSim.Functional.Simulator
import Mathlib.Data.ENat.Basic
import Mathlib.Algebra.BigOperators.Group.List.Basic

/-!
# How a functional run is cut into calls

A call of `runInstructions` may execute as many instructions as it is told, or any number when
it is told zero.  Calls one after the other execute a prefix of the run whose length is the sum
of what they may execute, and the one that comes to the halt word reports it.
-/

namespace PipeSim

open Library

namespace Functional

/-!
## The loop of one call
-/

section Loop

variable {instructions numInstructions : Word} {e e' u : Emulator}

theorem runInstructionsLoop_next (h : instructions = 0#32 ∨ numInstructions < instructions)
    (hstep : machine e = (false, e')) (fuel : Nat) :
    runInstructionsLoop instructions (fuel + 1) numInstructions e =
      runInstructionsLoop instructions fuel (numInstructions + 1#32) e' := by
  have hhalt : e.executeInstruction.1.isHalt = false := congrArg Prod.fst hstep
  have hnext : e.executeInstruction.2 = e' := congrArg Prod.snd hstep
  rw [runInstructionsLoop, if_pos h]
  dsimp only
  rw [if_neg (by rw [hhalt]; exact Bool.false_ne_true), hnext]

theorem runInstructionsLoop_halt (h : instructions = 0#32 ∨ numInstructions < instructions)
    (hstep : machine e = (true, e')) (fuel : Nat) :
    runInstructionsLoop instructions (fuel + 1) numInstructions e = some (.halt, e') := by
  have hhalt : e.executeInstruction.1.isHalt = true := congrArg Prod.fst hstep
  have hnext : e.executeInstruction.2 = e' := congrArg Prod.snd hstep
  rw [runInstructionsLoop, if_pos h]
  dsimp only
  rw [if_pos hhalt, hnext]

theorem runInstructionsLoop_done
    (h : ¬ (instructions = 0#32 ∨ numInstructions < instructions)) (fuel : Nat) :
    runInstructionsLoop instructions (fuel + 1) numInstructions e = some (.success, e) := by
  rw [runInstructionsLoop, if_neg h]

def Allows (instructions numInstructions : Word) (k : Nat) : Prop :=
  instructions = 0#32 ∨ numInstructions.toNat + k ≤ instructions.toNat

theorem Allows.lt {k : Nat} (h : Allows instructions numInstructions (k + 1)) :
    instructions = 0#32 ∨ numInstructions < instructions :=
  h.imp id fun hle => by rw [BitVec.lt_def]; lia

theorem toNat_next (h : numInstructions < instructions) :
    (numInstructions + 1#32).toNat = numInstructions.toNat + 1 := by
  have hinstructions := instructions.isLt
  rw [BitVec.lt_def] at h
  rw [BitVec.toNat_add]
  change (_ + 1) % _ = _
  exact Nat.mod_eq_of_lt (by lia)

theorem allows_next_iff {k : Nat} (h : instructions = 0#32 ∨ numInstructions < instructions) :
    Allows instructions (numInstructions + 1#32) k <->
      Allows instructions numInstructions (k + 1) := by
  unfold Allows
  apply or_congr_right'
  intro hne
  rw [toNat_next (h.resolve_left hne), Nat.add_right_comm, Nat.add_assoc]

theorem runInstructionsLoop_of_reaches {k : Nat} (h : machine.Reaches k e e')
    (hallows : Allows instructions numInstructions k) (fuel : Nat) :
    runInstructionsLoop instructions (k + fuel) numInstructions e =
      runInstructionsLoop instructions fuel (numInstructions + BitVec.ofNat 32 k) e' := by
  induction k generalizing numInstructions e with
  | zero =>
      cases h
      rw [Nat.zero_add, BitVec.add_zero]
  | succ k ih =>
      rcases h.exists_head with ⟨u, hstep, hrest⟩
      rw [Nat.add_right_comm, runInstructionsLoop_next hallows.lt hstep,
        ih hrest ((allows_next_iff hallows.lt).mpr hallows), BitVec.add_assoc, Nat.add_comm k 1,
        BitVec.ofNat_add]

theorem left_next {k : Nat} (hmore : instructions = 0#32 ∨ numInstructions < instructions)
    (h : instructions = 0#32 ∨ numInstructions.toNat + k = instructions.toNat) :
    instructions = 0#32 ∨ (numInstructions + 1#32).toNat + (k - 1) = instructions.toNat := by
  rcases h with hzero | heq
  · exact Or.inl hzero
  · rcases hmore with hzero | hlt
    · exact Or.inl hzero
    · apply Or.inr
      rw [toNat_next hlt]
      rw [BitVec.lt_def] at hlt
      lia

/-- What a call returns: all instructions have been executed, or the last one was the halt
word. -/
theorem runInstructionsLoop_cases {fuel : Nat} {r : Status × Emulator} {k : Nat}
    (h : runInstructionsLoop instructions fuel numInstructions e = some r)
    (hleft : instructions = 0#32 ∨ numInstructions.toNat + k = instructions.toNat) :
    (r.1 = .success ∧ instructions ≠ 0#32 ∧ machine.Reaches k e r.2) ∨
      (r.1 = .halt ∧ exists n, Allows instructions numInstructions n ∧
        HaltsAfter n e r.2) := by
  induction fuel generalizing numInstructions e k with
  | zero =>
      cases h
  | succ fuel ih =>
      by_cases hmore : instructions = 0#32 ∨ numInstructions < instructions
      · have hone : Allows instructions numInstructions 1 :=
          hmore.imp id fun hlt => by rw [BitVec.lt_def] at hlt; lia
        cases hstep : machine e with
        | mk finished u =>
            cases finished with
            | true =>
                rw [runInstructionsLoop_halt hmore hstep] at h
                cases h
                exact Or.inr ⟨rfl, 1, hone, 0, e, rfl, Machine.Reaches.refl e, hstep⟩
            | false =>
                rw [runInstructionsLoop_next hmore hstep] at h
                rcases ih h (left_next hmore hleft) with
                  ⟨hsuccess, hne, hreach⟩ | ⟨hhalt, n, hallows, hfinish⟩
                · have hlt := hmore.resolve_left hne
                  have heq := hleft.resolve_left hne
                  rw [BitVec.lt_def] at hlt
                  have hk : k = k - 1 + 1 := by
                    lia
                  rw [hk]
                  exact Or.inl ⟨hsuccess, hne, hreach.head hstep⟩
                · exact Or.inr ⟨hhalt, n + 1, (allows_next_iff hmore).mp hallows,
                    Machine.FinishesIn.head hstep hfinish⟩
      · rw [runInstructionsLoop_done hmore] at h
        cases h
        rw [not_or] at hmore
        have hle := hmore.2
        have heq := hleft.resolve_left hmore.1
        rw [BitVec.lt_def] at hle
        have hk : k = 0 := by
          lia
        subst hk
        exact Or.inl ⟨rfl, hmore.1, Machine.Reaches.refl e⟩

end Loop

/-!
## One call
-/

noncomputable def allowance (instructions : Word) : ℕ∞ :=
  if instructions = 0#32 then ⊤ else instructions.toNat

theorem allows_zero_iff {instructions : Word} {n : Nat} :
    Allows instructions 0#32 n <-> (n : ℕ∞) ≤ allowance instructions := by
  unfold Allows allowance
  split
  · rename_i hzero
    exact iff_of_true (Or.inl hzero) le_top
  · rename_i hne
    rw [Nat.cast_le, or_iff_right hne]
    change 0 + n ≤ _ <-> _
    rw [Nat.zero_add]

def Returns (instructions : Word) (e : Emulator) (r : Status × Emulator) : Prop :=
  exists fuel, runInstructions fuel instructions e = some r

/-- A number of instructions that have been executed, or a run to the halt word that is not
longer than allowed. -/
def Outcome (allowed : ℕ∞) (e : Emulator) (r : Status × Emulator) : Prop :=
  (r.1 = .success ∧ exists n : Nat, allowed = n ∧ machine.Reaches n e r.2) ∨
    (r.1 = .halt ∧ exists n : Nat, (n : ℕ∞) ≤ allowed ∧ HaltsAfter n e r.2)

theorem returns_iff {instructions : Word} {e : Emulator} {r : Status × Emulator} :
    Returns instructions e r <-> Outcome (allowance instructions) e r := by
  constructor
  · intro h
    rcases h with ⟨fuel, hrun⟩
    rcases runInstructionsLoop_cases hrun (k := instructions.toNat) (Or.inr (Nat.zero_add _))
      with ⟨hsuccess, hne, hreach⟩ | ⟨hhalt, n, hallows, hfinish⟩
    · exact Or.inl ⟨hsuccess, instructions.toNat, if_neg hne, hreach⟩
    · exact Or.inr ⟨hhalt, n, allows_zero_iff.mp hallows, hfinish⟩
  · intro h
    rcases r with ⟨status, e'⟩
    rcases h with ⟨rfl, n, hn, hreach⟩ | ⟨rfl, n, hn, k, u, rfl, hreach, hlast⟩
    · unfold allowance at hn
      split at hn
      · exact absurd hn.symm (ENat.natCast_ne_top n)
      · rename_i hne
        rw [Nat.cast_inj] at hn
        subst hn
        have hallows : Allows instructions 0#32 instructions.toNat :=
          Or.inr (Nat.le_of_eq (Nat.zero_add _))
        have hdone : ¬ (instructions = 0#32 ∨ instructions < instructions) :=
          not_or.mpr ⟨hne, BitVec.lt_irrefl instructions⟩
        refine ⟨instructions.toNat + 1, ?_⟩
        unfold runInstructions
        rw [runInstructionsLoop_of_reaches hreach hallows, BitVec.zero_add, BitVec.ofNat_toNat,
          BitVec.setWidth_eq, runInstructionsLoop_done hdone]
    · have hallows := allows_zero_iff.mpr hn
      have hbefore : Allows instructions 0#32 k :=
        hallows.imp id fun hle => by lia
      have hlt : instructions = 0#32 ∨ 0#32 + BitVec.ofNat 32 k < instructions := by
        rcases hallows with hzero | hle
        · exact Or.inl hzero
        · have hinstructions := instructions.isLt
          change 0 + (k + 1) ≤ _ at hle
          apply Or.inr
          rw [BitVec.zero_add, BitVec.lt_def, BitVec.toNat_ofNat, Nat.mod_eq_of_lt (by lia)]
          lia
      refine ⟨k + 1, ?_⟩
      unfold runInstructions
      rw [runInstructionsLoop_of_reaches hreach hbefore, runInstructionsLoop_halt hlt hlast]

/-!
## Calls one after the other
-/

/-- Calls with the given numbers one after the other, up to the first that does not return
`SUCCESS`. -/
inductive Calls : List Word -> Emulator -> Status × Emulator -> Prop where
  | done (e : Emulator) : Calls [] e (.success, e)
  | stop {instructions : Word} {later : List Word} {e : Emulator} {r : Status × Emulator}
      (h : Returns instructions e r) (hstatus : r.1 ≠ .success) :
      Calls (instructions :: later) e r
  | more {instructions : Word} {later : List Word} {e e' : Emulator} {r : Status × Emulator}
      (h : Returns instructions e (.success, e')) (hlater : Calls later e' r) :
      Calls (instructions :: later) e r

section Sequences

variable {allowed allowed' : ℕ∞} {e e' : Emulator} {r : Status × Emulator}

theorem Outcome.of_success (h : Outcome allowed e (.success, e')) :
    exists n : Nat, allowed = n ∧ machine.Reaches n e e' := by
  rcases h with ⟨_, hreach⟩ | ⟨hhalt, _⟩
  · exact hreach
  · cases hhalt

theorem outcome_add_iff :
    Outcome (allowed + allowed') e r <->
      (Outcome allowed e r ∧ r.1 ≠ .success) ∨
        exists e', Outcome allowed e (.success, e') ∧ Outcome allowed' e' r := by
  constructor
  · intro h
    rcases h with ⟨hsuccess, n, hn, hreach⟩ | ⟨hhalt, n, hn, hfinish⟩
    · rcases ENat.ne_top_iff_exists.mp (fun htop : allowed = ⊤ => by
        rw [htop, top_add] at hn
        exact ENat.top_ne_natCast n hn) with ⟨a, rfl⟩
      rcases ENat.ne_top_iff_exists.mp (fun htop : allowed' = ⊤ => by
        rw [htop, add_top] at hn
        exact ENat.top_ne_natCast n hn) with ⟨b, rfl⟩
      rw [← Nat.cast_add, Nat.cast_inj] at hn
      subst hn
      have hfirst := hreach.take (Nat.le_add_right a b)
      exact Or.inr ⟨_, Or.inl ⟨rfl, a, rfl, hfirst⟩,
        Or.inl ⟨hsuccess, b, rfl, hreach.drop hfirst⟩⟩
    · by_cases hle : (n : ℕ∞) ≤ allowed
      · refine Or.inl ⟨Or.inr ⟨hhalt, n, hle, hfinish⟩, ?_⟩
        rw [hhalt]
        exact Status.noConfusion
      · rw [not_le] at hle
        rcases ENat.ne_top_iff_exists.mp hle.ne_top with ⟨a, rfl⟩
        rw [Nat.cast_lt] at hle
        rcases hfinish with ⟨k, u, rfl, hreach, hlast⟩
        have hfirst := hreach.take (Nat.lt_succ_iff.mp hle)
        rcases Machine.FinishesIn.drop ⟨k, u, rfl, hreach, hlast⟩ hfirst with ⟨b, hb, hrest⟩
        refine Or.inr ⟨_, Or.inl ⟨rfl, a, rfl, hfirst⟩, Or.inr ⟨hhalt, b, ?_, hrest⟩⟩
        rw [hb, Nat.cast_add] at hn
        exact (ENat.add_le_add_iff_left (ENat.natCast_ne_top a)).mp hn
  · intro h
    rcases h with ⟨hfirst, hstatus⟩ | ⟨u, hfirst, hrest⟩
    · rcases hfirst with ⟨hsuccess, _⟩ | ⟨hhalt, n, hn, hfinish⟩
      · exact absurd hsuccess hstatus
      · exact Or.inr ⟨hhalt, n, hn.trans le_self_add, hfinish⟩
    · rcases hfirst.of_success with ⟨a, rfl, hreach⟩
      rcases hrest with ⟨hsuccess, b, rfl, hreach'⟩ | ⟨hhalt, b, hb, hfinish⟩
      · exact Or.inl ⟨hsuccess, a + b, (Nat.cast_add a b).symm, hreach.trans hreach'⟩
      · refine Or.inr ⟨hhalt, a + b, ?_, Machine.FinishesIn.of_reaches hreach hfinish⟩
        rw [Nat.cast_add]
        gcongr

end Sequences

end Functional

/-- Calls of `runInstructions` with any numbers, zero among them, one after the other leave what
a single run leaves whose length is the sum of what they may execute. -/
theorem calls_compose (numbers : List Word) (e : Emulator) (r : Status × Emulator) :
    Functional.Calls numbers e r <->
      Functional.Outcome (numbers.map Functional.allowance).sum e r := by
  induction numbers generalizing e with
  | nil =>
      rw [List.map_nil, List.sum_nil]
      constructor
      · intro h
        cases h
        exact Or.inl ⟨rfl, 0, rfl, Machine.Reaches.refl e⟩
      · intro h
        rcases r with ⟨status, e'⟩
        rcases h with ⟨rfl, n, hn, hreach⟩ | ⟨_, n, hn, k, _, rfl, _, _⟩
        · have hzero : n = 0 := Nat.cast_eq_zero.mp hn.symm
          subst hzero
          cases hreach
          exact Functional.Calls.done _
        · rw [nonpos_iff_eq_zero, Nat.cast_eq_zero] at hn
          cases hn
  | cons instructions later ih =>
      rw [List.map_cons, List.sum_cons, Functional.outcome_add_iff]
      constructor
      · intro h
        cases h with
        | stop hreturns hstatus =>
            exact Or.inl ⟨Functional.returns_iff.mp hreturns, hstatus⟩
        | more hreturns hlater =>
            exact Or.inr ⟨_, Functional.returns_iff.mp hreturns, (ih _).mp hlater⟩
      · intro h
        rcases h with ⟨hfirst, hstatus⟩ | ⟨u, hfirst, hlater⟩
        · exact Functional.Calls.stop (Functional.returns_iff.mpr hfirst) hstatus
        · exact Functional.Calls.more (Functional.returns_iff.mpr hfirst) ((ih u).mpr hlater)

end PipeSim
