import PipeSim.Library.Numeral
import Mathlib.Data.BitVec

/-!
# Input streams

Formatted extraction of hexadecimal words from a text.  A stream is at its end from the
extraction on that looks for a character behind the last one, and has failed from the
first extraction on that finds no word; the target of an extraction that meets the end
of the text before a word stays as it was.
-/

namespace PipeSim
namespace Library

structure InStream where
  rest : List Char
  eof : Bool
  fail : Bool
deriving DecidableEq, Repr

def isSpace (c : Char) : Bool := c.toNat == 0x20 || (0x09 ≤ c.toNat && c.toNat ≤ 0x0d)

namespace InStream

def ofFile : Option (List Char) -> InStream
  | some text => { rest := text, eof := false, fail := false }
  | none => { rest := [], eof := false, fail := true }

def splitSign : List Char -> Bool × List Char
  | '-' :: text => (true, text)
  | '+' :: text => (false, text)
  | text => (false, text)

def dropBase : List Char -> List Char
  | '0' :: 'x' :: text => text
  | '0' :: 'X' :: text => text
  | text => text

/-- `stream >> hex >> target` for a 32-bit unsigned target: the stream and the target
afterwards. -/
def extractHex (s : InStream) (target : BitVec 32) : InStream × BitVec 32 :=
  if s.eof || s.fail then ({ s with fail := true }, target)
  else if s.rest.dropWhile isSpace = [] then ({ rest := [], eof := true, fail := true }, target)
  else
    let (negative, unsigned) := splitSign (s.rest.dropWhile isSpace)
    let digits := (dropBase unsigned).takeWhile (Numeral.isDigit 16)
    let rest := (dropBase unsigned).dropWhile (Numeral.isDigit 16)
    let v := Numeral.value 16 digits
    if digits = [] then ({ rest := rest, eof := rest.isEmpty, fail := true }, 0#32)
    else if 2 ^ 32 ≤ v then ({ rest := rest, eof := rest.isEmpty, fail := true }, 0xffffffff#32)
    else
      ({ rest := rest, eof := rest.isEmpty, fail := false },
        if negative then -BitVec.ofNat 32 v else BitVec.ofNat 32 v)

end InStream

structure HexToken where
  base : List Char
  digits : List Char
  base_valid : base ∈ ["".toList, "0x".toList, "0X".toList]
  digits_ne_nil : digits ≠ []
  digits_valid : forall c, c ∈ digits -> Numeral.isDigit 16 c = true
  value_lt : Numeral.value 16 digits < 2 ^ 32

namespace HexToken

def text (t : HexToken) : List Char := t.base ++ t.digits

def word (t : HexToken) : BitVec 32 := BitVec.ofNat 32 (Numeral.value 16 t.digits)

end HexToken

/-!
## Extraction of a token
-/

section Extraction

variable {t : HexToken} {gap rest : List Char}

theorem not_isDigit_of_isSpace {c : Char} (h : isSpace c = true) :
    Numeral.isDigit 16 c = false := by
  unfold isSpace at h
  rw [Bool.or_eq_true, Bool.and_eq_true, beq_iff_eq, decide_eq_true_eq, decide_eq_true_eq] at h
  have hc : c = Char.ofNat c.toNat := (Char.ofNat_toNat c).symm
  have hle : c.toNat ≤ 0x20 := by
    lia
  generalize c.toNat = n at h hc hle
  subst hc
  revert h
  revert n
  decide

theorem splitSign_of_isDigit {c : Char} (h : Numeral.isDigit 16 c = true)
    (text : List Char) : InStream.splitSign (c :: text) = (false, c :: text) := by
  unfold InStream.splitSign
  split
  · rename_i heq
    cases heq
    exact absurd h (by decide)
  · rename_i heq
    cases heq
    exact absurd h (by decide)
  · rfl

theorem dropBase_of_not_base {text : List Char}
    (h : forall c, c ∈ text.tail.head? -> c ≠ 'x' ∧ c ≠ 'X') :
    InStream.dropBase text = text := by
  unfold InStream.dropBase
  split
  · exact absurd rfl (h _ rfl).1
  · exact absurd rfl (h _ rfl).2
  · rfl

namespace HexToken

theorem exists_text_eq (t : HexToken) :
    exists c text, t.text = c :: text ∧ Numeral.isDigit 16 c = true := by
  have hbase := t.base_valid
  rw [List.mem_cons, List.mem_cons, List.mem_singleton] at hbase
  rcases hbase with hbase | hbase | hbase
  · rcases List.exists_cons_of_ne_nil t.digits_ne_nil with ⟨c, digits, hdigits⟩
    refine ⟨c, digits, ?_, ?_⟩
    · unfold text
      rw [hbase, hdigits]
      rfl
    · apply t.digits_valid
      rw [hdigits]
      exact List.mem_cons_self
  · refine ⟨'0', 'x' :: t.digits, ?_, by decide⟩
    unfold text
    rw [hbase]
    rfl
  · refine ⟨'0', 'X' :: t.digits, ?_, by decide⟩
    unfold text
    rw [hbase]
    rfl

theorem dropBase_text (t : HexToken) (hrest : forall c, c ∈ rest.head? -> isSpace c = true) :
    InStream.dropBase (t.text ++ rest) = t.digits ++ rest := by
  have hbase := t.base_valid
  rw [List.mem_cons, List.mem_cons, List.mem_singleton] at hbase
  unfold text
  rcases hbase with hbase | hbase | hbase
  · rw [hbase]
    apply dropBase_of_not_base
    rcases List.exists_cons_of_ne_nil t.digits_ne_nil with ⟨d, digits, hdigits⟩
    intro c hc
    change c ∈ (t.digits ++ rest).tail.head? at hc
    rw [hdigits, List.cons_append, List.tail_cons, List.head?_append] at hc
    cases digits with
    | nil =>
        have hspace := hrest c hc
        constructor
        · intro heq
          subst heq
          exact absurd hspace (by decide)
        · intro heq
          subst heq
          exact absurd hspace (by decide)
    | cons d' digits =>
        have hdigit := t.digits_valid d' (by rw [hdigits]; simp)
        cases hc
        constructor
        · intro heq
          subst heq
          exact absurd hdigit (by decide)
        · intro heq
          subst heq
          exact absurd hdigit (by decide)
  · rw [hbase]
    rfl
  · rw [hbase]
    rfl

theorem extractHex (t : HexToken) (hgap : forall c, c ∈ gap -> isSpace c = true)
    (hrest : forall c, c ∈ rest.head? -> isSpace c = true) (target : BitVec 32) :
    InStream.extractHex { rest := gap ++ (t.text ++ rest), eof := false, fail := false } target =
      ({ rest := rest, eof := rest.isEmpty, fail := false }, t.word) := by
  rcases t.exists_text_eq with ⟨c, text, htext, hdigit⟩
  have hskip : (gap ++ (t.text ++ rest)).dropWhile isSpace = t.text ++ rest := by
    apply Numeral.dropWhile_token hgap
    intro d hd
    rw [htext] at hd
    cases hd
    cases hspace : isSpace c with
    | false =>
        rfl
    | true =>
        rw [not_isDigit_of_isSpace hspace] at hdigit
        exact absurd hdigit Bool.false_ne_true
  have hsign : InStream.splitSign (t.text ++ rest) = (false, t.text ++ rest) := by
    rw [htext]
    exact splitSign_of_isDigit hdigit _
  have hne : t.text ++ rest ≠ [] := by
    rw [htext]
    exact List.cons_ne_nil _ _
  have hstop : forall d, d ∈ rest.head? -> Numeral.isDigit 16 d = false :=
    fun d hd => not_isDigit_of_isSpace (hrest d hd)
  unfold InStream.extractHex
  dsimp only
  rw [hskip, if_neg (by decide), if_neg hne, hsign]
  dsimp only
  rw [t.dropBase_text hrest, Numeral.takeWhile_token t.digits_valid hstop,
    Numeral.dropWhile_token t.digits_valid hstop, if_neg t.digits_ne_nil,
    if_neg (Nat.not_le_of_lt t.value_lt), if_neg Bool.false_ne_true]
  rfl

end HexToken

theorem InStream.extractHex_end {s : InStream} (h : forall c, c ∈ s.rest -> isSpace c = true)
    (target : BitVec 32) :
    (s.extractHex target).1.fail = true ∧ (s.extractHex target).2 = target := by
  have hskip : s.rest.dropWhile isSpace = [] := List.dropWhile_eq_nil_iff.mpr h
  unfold InStream.extractHex
  rw [hskip, if_pos rfl]
  split
  · exact ⟨rfl, rfl⟩
  · exact ⟨rfl, rfl⟩

theorem InStream.extractHex_of_fail {s : InStream} (h : s.fail = true) (target : BitVec 32) :
    s.extractHex target = (s, target) := by
  cases s with
  | mk rest eof fail =>
      cases h
      unfold InStream.extractHex
      rw [if_pos (Bool.or_true eof)]

namespace InStream

theorem length_splitSign_le (text : List Char) : (splitSign text).2.length ≤ text.length := by
  unfold splitSign
  split
  · exact Nat.le_succ _
  · exact Nat.le_succ _
  · exact Nat.le_refl _

theorem length_dropBase_le (text : List Char) : (dropBase text).length ≤ text.length := by
  unfold dropBase
  split
  · exact Nat.le_add_right _ 2
  · exact Nat.le_add_right _ 2
  · exact Nat.le_refl _

theorem length_extractHex_lt {s : InStream} {target : BitVec 32}
    (h : (s.extractHex target).1.fail = false) :
    (s.extractHex target).1.rest.length < s.rest.length := by
  have hskip := (List.dropWhile_suffix isSpace (l := s.rest)).length_le
  have hsign := length_splitSign_le (s.rest.dropWhile isSpace)
  have hbase := length_dropBase_le (splitSign (s.rest.dropWhile isSpace)).2
  have hsplit := congrArg List.length (List.takeWhile_append_dropWhile
    (p := Numeral.isDigit 16) (l := dropBase (splitSign (s.rest.dropWhile isSpace)).2))
  rw [List.length_append] at hsplit
  unfold extractHex at h ⊢
  split at h
  · cases h
  · split at h
    · cases h
    · dsimp only at h ⊢
      split at h
      · cases h
      · split at h
        · cases h
        · rename_i hopen hblank hdigits hlarge
          have hpos := List.length_pos_iff.mpr hdigits
          rw [if_neg hopen, if_neg hblank, if_neg hdigits, if_neg hlarge]
          dsimp only
          lia

end InStream

end Extraction

end Library
end PipeSim
