import Mathlib.Logic.Function.Basic
import Mathlib.Tactic.Common

/-!
# Counting loops

`forLoop n body s` runs `body 0`, ..., `body (n - 1)` on a state, as a `for` loop
with an increasing index does.  An invariant of such a loop is indexed by the
number of finished iterations.
-/

namespace PipeSim
namespace Library

variable {σ : Type}

def forLoop (n : Nat) (body : Nat -> σ -> σ) (s : σ) : σ :=
  match n with
  | 0 => s
  | n + 1 => body n (forLoop n body s)

theorem forLoop_induction {n : Nat} {body : Nat -> σ -> σ} {s : σ}
    (P : Nat -> σ -> Prop) (hzero : P 0 s)
    (hstep : forall i t, i < n -> P i t -> P (i + 1) (body i t)) :
    P n (forLoop n body s) := by
  induction n with
  | zero =>
      exact hzero
  | succ n ih =>
      have hprev := ih (fun i t hi => hstep i t (by lia))
      exact hstep n _ (by lia) hprev

end Library
end PipeSim
