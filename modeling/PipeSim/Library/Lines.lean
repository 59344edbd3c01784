import PipeSim.Library.Numeral

/-!
# Texts made of lines

A text is written line by line, a line break behind each, and read back with a parser for
one line.  What is read is what was written, as soon as this holds for a line.
-/

namespace PipeSim
namespace Library
namespace Lines

variable {α β γ : Type}

def unlines (lines : List (List Char)) : List Char := lines.flatMap fun line => line ++ ['\n']

/-- The lines of a text; what is behind the last line break is not one. -/
def lines (text : List Char) : List (List Char) := (text.splitOn '\n').dropLast

def read (parse : List Char -> Option β) (text : List Char) : Option (List β) :=
  (lines text).mapM parse

theorem lines_unlines {ls : List (List Char)} (h : forall line, line ∈ ls -> '\n' ∉ line) :
    lines (unlines ls) = ls := by
  unfold lines unlines
  rw [Numeral.splitOn_terminated h, List.dropLast_concat]

theorem mapM_map_of_forall {f : α -> γ} {parse : γ -> Option β} {g : α -> β} {l : List α}
    (h : forall a, a ∈ l -> parse (f a) = some (g a)) :
    (l.map f).mapM parse = some (l.map g) := by
  induction l with
  | nil =>
      rfl
  | cons a l ih =>
      rw [List.map_cons, List.mapM_cons, h a List.mem_cons_self,
        ih fun b hb => h b (List.mem_cons_of_mem a hb)]
      rfl

theorem read_unlines {write : α -> List Char} {parse : List Char -> Option β} {g : α -> β}
    {l : List α} (hline : forall a, a ∈ l -> '\n' ∉ write a)
    (hparse : forall a, a ∈ l -> parse (write a) = some (g a)) :
    read parse (unlines (l.map write)) = some (l.map g) := by
  unfold read
  rw [lines_unlines]
  · exact mapM_map_of_forall hparse
  · intro line hmem
    rcases List.mem_map.mp hmem with ⟨a, ha, rfl⟩
    exact hline a ha

end Lines
end Library
end PipeSim
