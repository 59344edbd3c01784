import Mathlib.Tactic.NormNum

/-!
# Signed integer expressions with undefined behaviour

A signed sum, difference or left shift of C++14 has a value only under a condition on its
operands.  An expression is a computation that ends in its value or in the first operation
without one; the logical operators evaluate their second operand only when the first one
does not decide the result.
-/

namespace PipeSim
namespace Library

/-- The reasons for which a signed operation has no value. -/
inductive Undefined where
  | overflow
  | negativeShift
  | wideShift
  | shiftOverflow
deriving DecidableEq, Repr

abbrev Evaluated (α : Type) : Type := Except Undefined α

namespace Evaluated

variable {α β : Type}

def Defined (x : Evaluated α) : Prop := exists a, x = .ok a

@[simp] theorem defined_ok (a : α) : Defined (.ok a : Evaluated α) := ⟨a, rfl⟩

@[simp] theorem not_defined_error (u : Undefined) : ¬ Defined (.error u : Evaluated α) := by
  intro h
  rcases h with ⟨a, ha⟩
  cases ha

@[simp] theorem ok_bind (a : α) (f : α -> Evaluated β) :
    ((.ok a : Evaluated α) >>= f) = f a := rfl

@[simp] theorem error_bind (u : Undefined) (f : α -> Evaluated β) :
    ((.error u : Evaluated α) >>= f) = .error u := rfl

/-- `p && x`, where `p` is a test without arithmetic. -/
def guarded (p : Bool) (x : Evaluated Bool) : Evaluated Bool := if p then x else .ok false

def orElse (x y : Evaluated Bool) : Evaluated Bool := do
  if ← x then return true else y

theorem guarded_ok (p q : Bool) : guarded p (.ok q) = .ok (p && q) := by
  cases p with
  | true => rfl
  | false => rfl

theorem orElse_ok (p q : Bool) : orElse (.ok p) (.ok q) = .ok (p || q) := by
  cases p with
  | true => rfl
  | false => rfl

end Evaluated

namespace SignedInt

open Evaluated

variable {w : Nat} {a b : BitVec w}

def InRange (w : Nat) (z : Int) : Prop := -2 ^ (w - 1) ≤ z ∧ z < 2 ^ (w - 1)

def add (a b : BitVec w) : Evaluated (BitVec w) :=
  if a.saddOverflow b then .error .overflow else .ok (a + b)

def sub (a b : BitVec w) : Evaluated (BitVec w) :=
  if a.ssubOverflow b then .error .overflow else .ok (a - b)

/-- `a << k` on a signed type: the operand is not negative, the count is less than the width,
and the product is representable in the unsigned type of that width. -/
def shiftLeft (a : BitVec w) (k : Nat) : Evaluated (BitVec w) :=
  if a.toInt < 0 then .error .negativeShift
  else if w ≤ k then .error .wideShift
  else if 2 ^ w ≤ a.toNat * 2 ^ k then .error .shiftOverflow
  else .ok (a <<< k)

theorem saddOverflow_iff : a.saddOverflow b = true <-> ¬ InRange w (a.toInt + b.toInt) := by
  unfold BitVec.saddOverflow InRange
  rw [Bool.or_eq_true, decide_eq_true_iff, decide_eq_true_iff]
  lia

theorem ssubOverflow_iff : a.ssubOverflow b = true <-> ¬ InRange w (a.toInt - b.toInt) := by
  unfold BitVec.ssubOverflow InRange
  rw [Bool.or_eq_true, decide_eq_true_iff, decide_eq_true_iff]
  lia

theorem add_of_inRange (h : InRange w (a.toInt + b.toInt)) : add a b = .ok (a + b) :=
  if_neg fun hover => saddOverflow_iff.mp hover h

theorem add_of_not_inRange (h : ¬ InRange w (a.toInt + b.toInt)) :
    add a b = .error .overflow :=
  if_pos (saddOverflow_iff.mpr h)

theorem sub_of_inRange (h : InRange w (a.toInt - b.toInt)) : sub a b = .ok (a - b) :=
  if_neg fun hover => ssubOverflow_iff.mp hover h

theorem sub_of_not_inRange (h : ¬ InRange w (a.toInt - b.toInt)) :
    sub a b = .error .overflow :=
  if_pos (ssubOverflow_iff.mpr h)

theorem toInt_add_of_inRange (h : InRange w (a.toInt + b.toInt)) :
    (a + b).toInt = a.toInt + b.toInt :=
  BitVec.toInt_add_of_not_saddOverflow fun hover => saddOverflow_iff.mp hover h

theorem toInt_sub_of_inRange (h : InRange w (a.toInt - b.toInt)) :
    (a - b).toInt = a.toInt - b.toInt :=
  BitVec.toInt_sub_of_not_ssubOverflow fun hover => ssubOverflow_iff.mp hover h

theorem sign_ne_of_sub_not_inRange (h : ¬ InRange w (a.toInt - b.toInt)) :
    (0 ≤ a.toInt ∧ b.toInt < 0) ∨ (a.toInt < 0 ∧ 0 ≤ b.toInt) := by
  have ha := a.le_toInt
  have ha' := a.toInt_lt
  have hb := b.le_toInt
  have hb' := b.toInt_lt
  unfold InRange at h
  lia

section Small

/-!
Numbers below half the range are their own signed values, and so long as the exact result
stays there, nothing is undefined.
-/

theorem toInt_of_lt (h : a.toNat < 2 ^ (w - 1)) : a.toInt = a.toNat := by
  refine BitVec.toInt_eq_toNat_of_lt ?_
  cases w with
  | zero =>
      have hzero := a.isLt
      lia
  | succ n =>
      have hpow : 2 ^ (n + 1) = 2 * 2 ^ n := Nat.pow_succ'
      rw [Nat.add_sub_cancel] at h
      lia

theorem add_of_lt (h : a.toNat + b.toNat < 2 ^ (w - 1)) : add a b = .ok (a + b) := by
  refine add_of_inRange ?_
  rw [toInt_of_lt (Nat.lt_of_le_of_lt (Nat.le_add_right _ _) h),
    toInt_of_lt (Nat.lt_of_le_of_lt (Nat.le_add_left _ _) h)]
  unfold InRange
  lia

theorem sub_of_le (hle : b.toNat ≤ a.toNat) (h : a.toNat < 2 ^ (w - 1)) :
    sub a b = .ok (a - b) := by
  refine sub_of_inRange ?_
  rw [toInt_of_lt h, toInt_of_lt (Nat.lt_of_le_of_lt hle h)]
  unfold InRange
  lia

theorem shiftLeft_of_lt {k : Nat} (hk : k < w) (h : a.toNat * 2 ^ k < 2 ^ (w - 1)) :
    shiftLeft a k = .ok (a <<< k) := by
  have hle : a.toNat ≤ a.toNat * 2 ^ k := Nat.le_mul_of_pos_right _ (Nat.two_pow_pos k)
  have hnonneg : ¬ a.toInt < 0 := by
    rw [toInt_of_lt (Nat.lt_of_le_of_lt hle h)]
    lia
  have hhalf : 2 ^ (w - 1) ≤ 2 ^ w := Nat.pow_le_pow_right (by decide) (Nat.sub_le w 1)
  unfold shiftLeft
  rw [if_neg hnonneg, if_neg (Nat.not_le_of_lt hk),
    if_neg (Nat.not_le_of_lt (Nat.lt_of_lt_of_le h hhalf))]

end Small

theorem shiftLeft_of_neg {k : Nat} (h : a.toInt < 0) : shiftLeft a k = .error .negativeShift :=
  if_pos h

end SignedInt

end Library
end PipeSim
