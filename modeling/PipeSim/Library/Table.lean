import PipeSim.Library.Loop
import Mathlib.Data.List.Basic
import Mathlib.Data.List.Nodup

/-!
# Tables with checked accesses

A table is a vector of rows.  Reads and writes outside of it fail, and loops whose
body may fail stop at the first failure.  A table that shows a function of row and
column on a rectangle is read and written there without a failure; a checked loop
follows a plain one as long as each of its iterations does.
-/

namespace PipeSim
namespace Library

abbrev Table (α : Type) := List (List α)

namespace Table

variable {α : Type}

def filled (n m : Nat) (a : α) : Table α := List.replicate n (List.replicate m a)

def at? (t : Table α) (i j : Nat) : Option α := (t[i]?).bind fun row => row[j]?

def set? (t : Table α) (i j : Nat) (a : α) : Option (Table α) :=
  (t[i]?).bind fun row => if j < row.length then some (t.set i (row.set j a)) else none

/-- The table has `n` rows of `m` columns and entry `f i j` at each of them. -/
def Shows (t : Table α) (n m : Nat) (f : Nat -> Nat -> α) : Prop :=
  t.length = n ∧ forall i, i < n -> exists row, t[i]? = some row ∧ row.length = m ∧
    forall j, j < m -> row[j]? = some (f i j)

theorem shows_filled (n m : Nat) (a : α) : (filled n m a).Shows n m fun _ _ => a := by
  constructor
  · exact List.length_replicate
  · intro i hi
    refine ⟨List.replicate m a, ?_, List.length_replicate, ?_⟩
    · simp [filled, hi]
    · intro j hj
      simp [hj]

variable {t : Table α} {n m i j : Nat} {f : Nat -> Nat -> α}

theorem Shows.at? (h : t.Shows n m f) (hi : i < n) (hj : j < m) :
    t.at? i j = some (f i j) := by
  rcases h.2 i hi with ⟨row, hrow, _, hcells⟩
  rw [Table.at?, hrow]
  exact hcells j hj

theorem Shows.set? (h : t.Shows n m f) (hi : i < n) (hj : j < m) (a : α) :
    exists t', t.set? i j a = some t' ∧
      t'.Shows n m (Function.update f i (Function.update (f i) j a)) := by
  rcases h.2 i hi with ⟨row, hrow, hlength, hcells⟩
  refine ⟨t.set i (row.set j a), ?_, ?_, ?_⟩
  · rw [Table.set?, hrow, Option.bind_some, if_pos (by lia)]
  · rw [List.length_set]
    exact h.1
  · intro k hk
    by_cases hik : k = i
    · subst hik
      refine ⟨row.set j a, ?_, ?_, ?_⟩
      · rw [List.getElem?_set_self (lt_of_lt_of_eq hi h.1.symm)]
      · rw [List.length_set]
        exact hlength
      · intro l hl
        rw [Function.update_self]
        by_cases hlj : l = j
        · subst hlj
          rw [List.getElem?_set_self (by lia), Function.update_self]
        · rw [List.getElem?_set_ne (Ne.symm hlj), Function.update_of_ne hlj]
          exact hcells l hl
    · rw [List.getElem?_set_ne (Ne.symm hik), Function.update_of_ne hik]
      exact h.2 k hk

theorem at?_of_length_le (h : t.length ≤ i) : t.at? i j = none := by
  rw [Table.at?, List.getElem?_eq_none h]
  rfl

end Table

/-!
## Loops that may fail
-/

variable {ε σ τ : Type}

def forLoopE (n : Nat) (body : Nat -> τ -> Except ε τ) (t : τ) : Except ε τ :=
  match n with
  | 0 => .ok t
  | n + 1 => forLoopE n body t >>= body n

/-- A checked loop whose iterations all follow those of a plain loop does not
fail, and follows it as a whole. -/
theorem forLoopE_follows {n : Nat} {f : Nat -> τ -> Except ε τ}
    {g : Nat -> σ -> σ} (R : τ -> σ -> Prop) {t : τ} {s : σ} (hinit : R t s)
    (hstep : forall i u v, i < n -> R u v -> exists u', f i u = .ok u' ∧ R u' (g i v)) :
    exists t', forLoopE n f t = .ok t' ∧ R t' (forLoop n g s) := by
  induction n with
  | zero =>
      exact ⟨t, rfl, hinit⟩
  | succ n ih =>
      rcases ih (fun i u v hi => hstep i u v (by lia)) with ⟨u, hu, hrel⟩
      rcases hstep n u _ (by lia) hrel with ⟨u', hu', hrel'⟩
      refine ⟨u', ?_, hrel'⟩
      rw [forLoopE, hu]
      exact hu'

theorem forLoopE_of_first {n : Nat} {body : Nat -> τ -> Except ε τ} {t : τ} {e : ε}
    (hn : 0 < n) (hfirst : body 0 t = .error e) : forLoopE n body t = .error e := by
  induction n with
  | zero =>
      exact absurd hn (Nat.lt_irrefl 0)
  | succ n ih =>
      rw [forLoopE]
      cases n with
      | zero =>
          exact hfirst
      | succ n =>
          rw [ih (Nat.succ_pos n)]
          rfl

end Library
end PipeSim
