import Mathlib.Algebra.Order.Ring.Nat
import Mathlib.Data.List.DropRight
import Mathlib.Tactic.Common

/-!
# Written numbers

The digits of a number as characters, up to base sixteen.  Both cases of the letters are
read, the lower case is written, and what is written is read back.
-/

namespace PipeSim
namespace Library
namespace Numeral

def digitValue? (c : Char) : Option Nat :=
  if '0' ≤ c ∧ c ≤ '9' then some (c.toNat - 0x30)
  else if 'a' ≤ c ∧ c ≤ 'f' then some (c.toNat - 0x57)
  else if 'A' ≤ c ∧ c ≤ 'F' then some (c.toNat - 0x37)
  else none

def isDigit (b : Nat) (c : Char) : Bool := (digitValue? c).any (· < b)

/-- The number that a list of digits denotes, most significant digit first. -/
def value (b : Nat) (digits : List Char) : Nat :=
  digits.foldl (fun v c => v * b + (digitValue? c).getD 0) 0

theorem value_concat (b : Nat) (digits : List Char) (c : Char) :
    value b (digits ++ [c]) = value b digits * b + (digitValue? c).getD 0 := by
  unfold value
  rw [List.foldl_append]
  rfl

theorem digitValue?_digitChar {d : Nat} (hd : d < 16) :
    digitValue? (Nat.digitChar d) = some d := by
  revert d
  decide

theorem isDigit_digitChar {b d : Nat} (hb : b ≤ 16) (hd : d < b) :
    isDigit b (Nat.digitChar d) = true := by
  unfold isDigit
  rw [digitValue?_digitChar (Nat.lt_of_lt_of_le hd hb)]
  exact decide_eq_true hd

theorem value_toDigits {b : Nat} (hb : 1 < b) (hb' : b ≤ 16) (n : Nat) :
    value b (Nat.toDigits b n) = n := by
  induction n using Nat.strong_induction_on with
  | h n ih =>
      by_cases hlt : n < b
      · rw [Nat.toDigits_of_lt_base hlt]
        unfold value
        rw [List.foldl_cons, List.foldl_nil, Nat.zero_mul, Nat.zero_add,
          digitValue?_digitChar (Nat.lt_of_lt_of_le hlt hb')]
        rfl
      · have hdigit := Nat.mod_lt n (Nat.lt_trans Nat.one_pos hb)
        have hquot : n / b < n := Nat.div_lt_self (by lia) hb
        rw [Nat.toDigits_of_base_le hb (Nat.le_of_not_lt hlt), value_concat, ih _ hquot,
          digitValue?_digitChar (Nat.lt_of_lt_of_le hdigit hb')]
        exact Nat.div_add_mod' n b

theorem isDigit_of_mem_toDigits {b : Nat} (hb : 1 < b) (hb' : b ≤ 16) {n : Nat} {c : Char}
    (hc : c ∈ Nat.toDigits b n) : isDigit b c = true := by
  induction n using Nat.strong_induction_on with
  | h n ih =>
      by_cases hlt : n < b
      · rw [Nat.toDigits_of_lt_base hlt, List.mem_singleton] at hc
        rw [hc]
        exact isDigit_digitChar hb' hlt
      · have hquot : n / b < n := Nat.div_lt_self (by lia) hb
        rw [Nat.toDigits_of_base_le hb (Nat.le_of_not_lt hlt), List.mem_append,
          List.mem_singleton] at hc
        rcases hc with hc | rfl
        · exact ih _ hquot hc
        · exact isDigit_digitChar hb' (Nat.mod_lt n (Nat.lt_trans Nat.one_pos hb))

theorem toDigits_injective {b : Nat} (hb : 1 < b) (hb' : b ≤ 16) :
    Function.Injective (Nat.toDigits b) := by
  intro m n h
  rw [← value_toDigits hb hb' m, h, value_toDigits hb hb' n]

def signed (z : Int) : List Char :=
  if z < 0 then '-' :: Nat.toDigits 10 z.natAbs else Nat.toDigits 10 z.natAbs

theorem mem_signed {z : Int} {c : Char} (hc : c ∈ signed z) : isDigit 10 c = true ∨ c = '-' := by
  have hdigit : c ∈ Nat.toDigits 10 z.natAbs -> isDigit 10 c = true :=
    fun h => isDigit_of_mem_toDigits (by decide) (by decide) h
  unfold signed at hc
  split at hc
  · exact (List.mem_cons.mp hc).elim Or.inr fun h => Or.inl (hdigit h)
  · exact Or.inl (hdigit hc)

theorem minus_not_mem_toDigits (n : Nat) : '-' ∉ Nat.toDigits 10 n := by
  intro h
  exact absurd (isDigit_of_mem_toDigits (by decide) (by decide) h) (by decide)

theorem signed_injective : Function.Injective signed := by
  intro y z h
  have habs := toDigits_injective (b := 10) (by decide) (by decide)
  unfold signed at h
  split at h
  · split at h
    · have hnat := habs (List.cons.inj h).2
      lia
    · exact absurd (h ▸ List.mem_cons_self) (minus_not_mem_toDigits z.natAbs)
  · split at h
    · exact absurd (h ▸ List.mem_cons_self) (minus_not_mem_toDigits y.natAbs)
    · have hnat := habs h
      lia

/-!
## Numbers of a fixed width
-/

/-- A number written with zeros in front of it, up to the given width. -/
def padded (b width n : Nat) : List Char := (Nat.toDigits b n).leftpad width '0'

theorem value_replicate_zero_append (b count : Nat) (digits : List Char) :
    value b (List.replicate count '0' ++ digits) = value b digits := by
  unfold value
  rw [List.foldl_append]
  congr 1
  induction count with
  | zero =>
      rfl
  | succ count ih =>
      rw [List.replicate_succ', List.foldl_append, ih]
      exact Nat.zero_mul b

theorem value_padded {b : Nat} (hb : 1 < b) (hb' : b ≤ 16) (width n : Nat) :
    value b (padded b width n) = n := by
  unfold padded List.leftpad
  rw [value_replicate_zero_append]
  exact value_toDigits hb hb' n

theorem isDigit_of_mem_padded {b : Nat} (hb : 1 < b) (hb' : b ≤ 16) {width n : Nat} {c : Char}
    (hc : c ∈ padded b width n) : isDigit b c = true := by
  unfold padded List.leftpad at hc
  rcases List.mem_append.mp hc with hzero | hdigit
  · rw [List.eq_of_mem_replicate hzero]
    exact isDigit_digitChar hb' (Nat.lt_trans Nat.one_pos hb)
  · exact isDigit_of_mem_toDigits hb hb' hdigit

theorem length_padded {b width n : Nat} (hb : 1 < b) (hwidth : 0 < width)
    (hn : n < b ^ width) : (padded b width n).length = width := by
  have hlength := (Nat.length_toDigits_le_iff hb hwidth).mpr hn
  unfold padded List.leftpad
  rw [List.length_append, List.length_replicate]
  exact Nat.sub_add_cancel hlength

/-!
## Reading up to the end of a token
-/

section Tokens

variable {p : Char -> Bool} {token rest : List Char}

theorem takeWhile_token (htoken : forall c, c ∈ token -> p c = true)
    (hrest : forall c, c ∈ rest.head? -> p c = false) : (token ++ rest).takeWhile p = token := by
  rw [List.takeWhile_append_of_pos htoken]
  cases rest with
  | nil =>
      exact List.append_nil token
  | cons c rest =>
      rw [List.takeWhile_cons_of_neg (by simp [hrest c rfl])]
      exact List.append_nil token

theorem dropWhile_token (htoken : forall c, c ∈ token -> p c = true)
    (hrest : forall c, c ∈ rest.head? -> p c = false) : (token ++ rest).dropWhile p = rest := by
  rw [List.dropWhile_append_of_pos htoken]
  cases rest with
  | nil =>
      rfl
  | cons c rest =>
      exact List.dropWhile_cons_of_neg (by simp [hrest c rfl])

theorem splitOn_terminated {c : Char} {lines : List (List Char)}
    (h : forall line, line ∈ lines -> c ∉ line) :
    (lines.flatMap fun line => line ++ [c]).splitOn c = lines ++ [[]] := by
  induction lines with
  | nil =>
      rfl
  | cons line lines ih =>
      have hline := h line List.mem_cons_self
      rw [List.flatMap_cons, List.append_assoc, List.singleton_append,
        List.splitOn_append_cons_self_of_not_mem hline,
        ih fun l hl => h l (List.mem_cons_of_mem line hl)]
      rfl

end Tokens

end Numeral
end Library
end PipeSim
