import Mathlib.Algebra.Order.Ring.Nat
import Mathlib.Tactic.Common
import Mathlib.Tactic.Ring

/-!
# Numbers in big-endian notation

A number is written with its most significant digit first.  Digits are given by a
function of their position, so that they can be read off a memory without copying.
-/

namespace PipeSim
namespace Library
namespace BigEndian

variable {b : Nat}

def value (b : Nat) (digit : Nat -> Nat) : Nat -> Nat
  | 0 => 0
  | n + 1 => value b digit n * b + digit n

/-- Digit `i` of a number written with `n` digits. -/
def digit (b n v i : Nat) : Nat := v / b ^ (n - 1 - i) % b

theorem value_congr {f g : Nat -> Nat} {n : Nat} (h : forall i, i < n -> f i = g i) :
    value b f n = value b g n := by
  induction n with
  | zero =>
      rfl
  | succ n ih =>
      have hprev := ih (fun i hi => h i (Nat.lt_succ_of_lt hi))
      rw [value, value, hprev, h n (Nat.lt_succ_self n)]

theorem value_lt {f : Nat -> Nat} {n : Nat} (h : forall i, i < n -> f i < b) :
    value b f n < b ^ n := by
  induction n with
  | zero =>
      exact Nat.one_pos
  | succ n ih =>
      have hprev := ih (fun i hi => h i (Nat.lt_succ_of_lt hi))
      have hlast := h n (Nat.lt_succ_self n)
      calc value b f n * b + f n < value b f n * b + b := Nat.add_lt_add_left hlast _
        _ = (value b f n + 1) * b := by ring
        _ ≤ b ^ n * b := Nat.mul_le_mul_right b hprev
        _ = b ^ (n + 1) := by ring

theorem digit_succ {n i : Nat} (v : Nat) (hi : i < n) :
    digit b (n + 1) v i = digit b n (v / b) i := by
  have hexponent : n + 1 - 1 - i = n - 1 - i + 1 := by
    lia
  unfold digit
  rw [hexponent, Nat.pow_succ', Nat.div_div_eq_div_mul]

theorem digit_mod (b n v : Nat) {i : Nat} (hi : i < n) :
    digit b n (v % b ^ n) i = digit b n v i := by
  have hsplit : b ^ n = b ^ (n - 1 - i) * b ^ (i + 1) := by
    rw [← Nat.pow_add]
    congr 1
    lia
  unfold digit
  rw [hsplit, Nat.mod_mul_right_div_self, Nat.pow_succ', Nat.mod_mul_right_mod]

theorem value_digit (n v : Nat) : value b (digit b n v) n = v % b ^ n := by
  induction n generalizing v with
  | zero =>
      rw [Nat.pow_zero, Nat.mod_one]
      rfl
  | succ n ih =>
      have hlast : digit b (n + 1) v n = v % b := by
        unfold digit
        rw [Nat.add_sub_cancel, Nat.sub_self, Nat.pow_zero, Nat.div_one]
      rw [value, value_congr (fun i hi => digit_succ v hi), ih, hlast, Nat.pow_succ',
        Nat.mod_mul, Nat.mul_comm, Nat.add_comm]

theorem digit_value (hb : 0 < b) {f : Nat -> Nat} {n i : Nat}
    (h : forall i, i < n -> f i < b) (hi : i < n) : digit b n (value b f n) i = f i := by
  induction n with
  | zero =>
      cases hi
  | succ n ih =>
      have hlast := h n (Nat.lt_succ_self n)
      rw [value]
      rcases Nat.lt_succ_iff_lt_or_eq.mp hi with hlt | heq
      · have hdiv : (value b f n * b + f n) / b = value b f n := by
          rw [Nat.mul_comm, Nat.mul_add_div hb, Nat.div_eq_of_lt hlast, Nat.add_zero]
        rw [digit_succ _ hlt, hdiv]
        exact ih (fun i hi => h i (Nat.lt_succ_of_lt hi)) hlt
      · subst heq
        unfold digit
        rw [Nat.add_sub_cancel, Nat.sub_self, Nat.pow_zero, Nat.div_one, Nat.mul_comm,
          Nat.mul_add_mod, Nat.mod_eq_of_lt hlast]

end BigEndian
end Library
end PipeSim
