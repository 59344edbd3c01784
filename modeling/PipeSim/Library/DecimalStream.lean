import PipeSim.Library.InStream

/-!
# Decimal numbers and lines of an input stream

Formatted extraction in the default base, and the extraction of the rest of a line.  An
extraction succeeds exactly when the text begins, behind white space, with a number that fits
into a word.
-/

namespace PipeSim
namespace Library

namespace InStream

/-- `stream >> target` for a 32-bit unsigned target: the stream and the target afterwards. -/
def extractDec (s : InStream) (target : BitVec 32) : InStream × BitVec 32 :=
  if s.eof || s.fail then ({ s with fail := true }, target)
  else if s.rest.dropWhile isSpace = [] then ({ rest := [], eof := true, fail := true }, target)
  else
    let (negative, unsigned) := splitSign (s.rest.dropWhile isSpace)
    let digits := unsigned.takeWhile (Numeral.isDigit 10)
    let rest := unsigned.dropWhile (Numeral.isDigit 10)
    let v := Numeral.value 10 digits
    if digits = [] then ({ rest := rest, eof := rest.isEmpty, fail := true }, 0#32)
    else if 2 ^ 32 ≤ v then ({ rest := rest, eof := rest.isEmpty, fail := true }, 0xffffffff#32)
    else
      ({ rest := rest, eof := rest.isEmpty, fail := false },
        if negative then -BitVec.ofNat 32 v else BitVec.ofNat 32 v)

/-- `getline`: the stream afterwards and the line, without its line break. -/
def getline (s : InStream) : InStream × List Char :=
  if s.eof || s.fail then ({ s with fail := true }, [])
  else
    let line := s.rest.takeWhile (· != '\n')
    match s.rest.dropWhile (· != '\n') with
    | [] => ({ rest := [], eof := true, fail := line.isEmpty }, line)
    | _ :: rest => ({ rest := rest, eof := false, fail := false }, line)

end InStream

structure DecToken where
  space : List Char
  sign : List Char
  digits : List Char
  space_valid : forall c, c ∈ space -> isSpace c = true
  sign_valid : sign = [] ∨ sign = ['+'] ∨ sign = ['-']
  digits_ne_nil : digits ≠ []
  digits_valid : forall c, c ∈ digits -> Numeral.isDigit 10 c = true
  value_lt : Numeral.value 10 digits < 2 ^ 32

namespace DecToken

def text (t : DecToken) : List Char := t.space ++ (t.sign ++ t.digits)

/-- The word of a token; a negative number wraps around. -/
def word (t : DecToken) : BitVec 32 :=
  if t.sign = ['-'] then -BitVec.ofNat 32 (Numeral.value 10 t.digits)
  else BitVec.ofNat 32 (Numeral.value 10 t.digits)

end DecToken

/-!
## Extraction of a number
-/

section Extraction

variable {t : DecToken} {rest text : List Char}

theorem isSpace_eq_false_of_isDigit {c : Char} (h : Numeral.isDigit 10 c = true) :
    isSpace c = false := by
  have hsixteen : Numeral.isDigit 16 c = true := by
    unfold Numeral.isDigit at h ⊢
    rcases (Option.any_eq_true _ _).mp h with ⟨d, hd, hlt⟩
    refine (Option.any_eq_true _ _).mpr ⟨d, hd, ?_⟩
    rw [decide_eq_true_eq] at hlt ⊢
    lia
  cases hspace : isSpace c with
  | false =>
      rfl
  | true =>
      rw [not_isDigit_of_isSpace hspace] at hsixteen
      cases hsixteen

theorem head?_dropWhile_eq_false {p : Char -> Bool} {c : Char}
    (h : c ∈ (text.dropWhile p).head?) : p c = false := by
  have hstop := List.head?_dropWhile_not p text
  rw [Option.mem_def.mp h] at hstop
  exact hstop

theorem splitSign_cases (text : List Char) :
    exists sign, (sign = [] ∨ sign = ['+'] ∨ sign = ['-']) ∧
      text = sign ++ (InStream.splitSign text).2 ∧
      (InStream.splitSign text).1 = decide (sign = ['-']) := by
  unfold InStream.splitSign
  split
  · exact ⟨['-'], Or.inr (Or.inr rfl), rfl, rfl⟩
  · exact ⟨['+'], Or.inr (Or.inl rfl), rfl, rfl⟩
  · exact ⟨[], Or.inl rfl, rfl, rfl⟩

namespace DecToken

theorem exists_digits_eq (t : DecToken) :
    exists c digits, t.digits = c :: digits ∧ Numeral.isDigit 10 c = true := by
  rcases List.exists_cons_of_ne_nil t.digits_ne_nil with ⟨c, digits, hdigits⟩
  exact ⟨c, digits, hdigits, t.digits_valid c (by rw [hdigits]; exact List.mem_cons_self)⟩

theorem splitSign_text (t : DecToken) (rest : List Char) :
    InStream.splitSign (t.sign ++ t.digits ++ rest) =
      (decide (t.sign = ['-']), t.digits ++ rest) := by
  rcases t.exists_digits_eq with ⟨c, digits, hdigits, hc⟩
  rcases t.sign_valid with hsign | hsign | hsign
  · rw [hsign, hdigits]
    unfold InStream.splitSign
    split
    · rename_i heq
      cases heq
      exact absurd hc (by decide)
    · rename_i heq
      cases heq
      exact absurd hc (by decide)
    · rfl
  · rw [hsign]
    rfl
  · rw [hsign]
    rfl

theorem dropWhile_text (t : DecToken) (rest : List Char) :
    (t.text ++ rest).dropWhile isSpace = t.sign ++ t.digits ++ rest := by
  unfold text
  rw [List.append_assoc]
  apply Numeral.dropWhile_token t.space_valid
  intro c hc
  rcases t.exists_digits_eq with ⟨d, digits, hdigits, hd⟩
  rcases t.sign_valid with hsign | hsign | hsign
  · rw [hsign, hdigits] at hc
    cases hc
    exact isSpace_eq_false_of_isDigit hd
  · rw [hsign] at hc
    cases hc
    rfl
  · rw [hsign] at hc
    cases hc
    rfl

theorem extractDec (t : DecToken) (hrest : forall c, c ∈ rest.head? -> Numeral.isDigit 10 c = false)
    (target : BitVec 32) :
    InStream.extractDec { rest := t.text ++ rest, eof := false, fail := false } target =
      ({ rest := rest, eof := rest.isEmpty, fail := false }, t.word) := by
  have hne : t.sign ++ t.digits ++ rest ≠ [] := by
    intro h
    rw [List.append_eq_nil_iff, List.append_eq_nil_iff] at h
    exact t.digits_ne_nil h.1.2
  unfold InStream.extractDec
  dsimp only
  rw [t.dropWhile_text, if_neg (by decide), if_neg hne, t.splitSign_text]
  dsimp only
  rw [Numeral.takeWhile_token t.digits_valid hrest, Numeral.dropWhile_token t.digits_valid hrest,
    if_neg t.digits_ne_nil, if_neg (Nat.not_le_of_lt t.value_lt)]
  unfold word
  by_cases hsign : t.sign = ['-']
  · rw [if_pos hsign, if_pos (decide_eq_true hsign)]
  · rw [if_neg hsign, if_neg (by rw [decide_eq_true_eq]; exact hsign)]

end DecToken

theorem InStream.exists_token_of_extractDec {target : BitVec 32}
    (h : (InStream.extractDec { rest := text, eof := false, fail := false } target).1.fail =
      false) :
    exists (t : DecToken) (rest : List Char), text = t.text ++ rest ∧
      forall c, c ∈ rest.head? -> Numeral.isDigit 10 c = false := by
  rcases splitSign_cases (text.dropWhile isSpace) with ⟨sign, hvalid, hsign, _⟩
  unfold extractDec at h
  dsimp only at h
  rw [if_neg (by decide)] at h
  split at h
  · cases h
  · split at h
    · cases h
    · rename_i hdigits
      split at h
      · cases h
      · rename_i hlt
        refine ⟨⟨text.takeWhile isSpace, sign, _, fun c hc => List.mem_takeWhile_imp hc, hvalid,
          hdigits, fun c hc => List.mem_takeWhile_imp hc, Nat.lt_of_not_le hlt⟩,
          (splitSign (text.dropWhile isSpace)).2.dropWhile (Numeral.isDigit 10), ?_, ?_⟩
        · unfold DecToken.text
          rw [List.append_assoc, List.append_assoc, List.takeWhile_append_dropWhile, ← hsign,
            List.takeWhile_append_dropWhile]
        · exact fun c hc => head?_dropWhile_eq_false hc

theorem InStream.extractDec_of_eof {s : InStream} (h : s.eof = true) (target : BitVec 32) :
    (s.extractDec target).1.fail = true := by
  unfold extractDec
  rw [h, Bool.true_or, if_pos rfl]

end Extraction

/-!
## The rest of a line
-/

section Lines

variable {line rest : List Char}

theorem bne_of_not_mem (hline : '\n' ∉ line) : forall c, c ∈ line -> (c != '\n') = true := by
  intro c hc
  rw [bne_iff_ne]
  intro heq
  subst heq
  exact hline hc

theorem InStream.getline_of_mem (hline : '\n' ∉ line) :
    (InStream.getline
        { rest := line ++ '\n' :: rest, eof := (line ++ '\n' :: rest).isEmpty, fail := false }).1 =
      { rest := rest, eof := false, fail := false } := by
  have hall := bne_of_not_mem hline
  have hstop : forall c, c ∈ ('\n' :: rest).head? -> (c != '\n') = false := by
    intro c hc
    cases hc
    rfl
  have hisEmpty : (line ++ '\n' :: rest).isEmpty = false :=
    Bool.eq_false_iff.mpr fun h => List.cons_ne_nil _ _
      (List.append_eq_nil_iff.mp (List.isEmpty_iff.mp h)).2
  unfold getline
  dsimp only
  rw [hisEmpty, if_neg (by decide), Numeral.dropWhile_token hall hstop]

theorem InStream.getline_of_not_mem (hline : '\n' ∉ line) :
    (InStream.getline { rest := line, eof := line.isEmpty, fail := false }).1.eof = true := by
  have hall := bne_of_not_mem hline
  cases line with
  | nil =>
      rfl
  | cons c line =>
      unfold getline
      dsimp only
      rw [List.isEmpty_cons, if_neg (by decide), List.dropWhile_eq_nil_iff.mpr hall]

end Lines

end Library
end PipeSim
