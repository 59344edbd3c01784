import PipeSim.Library.Lines
import PipeSim.Machine.Bytes

/-!
# The memory dump

`printMemArray` writes rows of entries, each row behind the address it starts at.  Two
nested loops move through the memory together, and the inner one leaves the function in
the middle of a row when the range is exhausted there.  The text is read back here with a
parser of its own.
-/

namespace PipeSim

open Library

def byteWidth : Nat := 2

def wordWidth : Nat := 8

namespace MemoryStore

/-- The loop over the bytes of an entry from byte `j` on, with `count` bytes left; the flag
tells whether it ran to its end. -/
def printEntry (m : MemoryStore) (relStart : Word) : Nat -> Nat -> Bool × List Char
  | 0, _ => (true, [])
  | count + 1, j =>
      match m.at? (relStart + BitVec.ofNat 32 j) with
      | none => (false, [])
      | some b =>
          let (ok, text) := m.printEntry relStart count (j + 1)
          (ok, Numeral.padded 16 byteWidth b.toNat ++ text)

inductive RowEnd where
  | full (relStart : Word)
  | returned
  | raised
deriving Repr

def printRow (m : MemoryStore) (relEnd entrySize : Word) : Nat -> Word -> RowEnd × List Char
  | 0, relStart => (.full relStart, ['\n'])
  | count + 1, relStart =>
      if relStart < relEnd then
        match m.printEntry relStart entrySize.toNat 0 with
        | (false, text) => (.raised, '0' :: 'x' :: text)
        | (true, text) =>
            let (ending, rest) := m.printRow relEnd entrySize count (relStart + entrySize)
            (ending, '0' :: 'x' :: text ++ ' ' :: rest)
      else (.returned, ['\n'])

def rowLabel (curAddr : Word) : List Char :=
  '0' :: 'x' :: Numeral.padded 16 wordWidth curAddr.toNat ++ [':', ' ']

def printRows (m : MemoryStore) (relEnd entrySize entriesPerRow : Word) :
    Nat -> Word -> Word -> Option (Int × List Char)
  | 0, _, _ => none
  | fuel + 1, relStart, curAddr =>
      if relStart < relEnd then
        match m.printRow relEnd entrySize entriesPerRow.toNat relStart with
        | (.raised, text) => some (-EINVAL, rowLabel curAddr ++ text)
        | (.returned, text) => some (0, rowLabel curAddr ++ text)
        | (.full relStart', text) =>
            match m.printRows relEnd entrySize entriesPerRow fuel relStart'
              (curAddr + entrySize * entriesPerRow) with
            | none => none
            | some (code, rest) => some (code, rowLabel curAddr ++ text ++ rest)
      else some (0, [])

/-- `MemoryStore::printMemArray`: the return code and the text. -/
def printMemArray (fuel : Nat) (m : MemoryStore)
    (startAddr endAddr entrySize entriesPerRow : Word) : Option (Int × List Char) :=
  if validSize entrySize then
    let relStart := startAddr - m.startAddr
    let relEnd := endAddr - m.startAddr
    m.printRows relEnd entrySize entriesPerRow fuel relStart startAddr
  else some (-EINVAL, [])

end MemoryStore

/-!
## Reading a dump back
-/

structure DumpRow where
  label : Nat
  entries : List (List Nat)
deriving DecidableEq, Repr

def DumpRow.bytes (row : DumpRow) : List Nat := row.entries.flatten

def parseHex (text : List Char) : Option Nat :=
  if text.all (Numeral.isDigit 16) then some (Numeral.value 16 text) else none

def parseBytes : List Char -> Option (List Nat)
  | [] => some []
  | [_] => none
  | high :: low :: text =>
      match parseHex [high, low], parseBytes text with
      | some b, some bytes => some (b :: bytes)
      | _, _ => none

def parseEntry (size : Nat) : List Char -> Option (List Nat)
  | '0' :: 'x' :: text =>
      match parseBytes text with
      | some bytes => if bytes.length = size then some bytes else none
      | none => none
  | _ => none

def parseLabel : List Char -> Option Nat
  | '0' :: 'x' :: text =>
      if text.length = wordWidth + 1 ∧ text.getLast? = some ':' then parseHex text.dropLast
      else none
  | _ => none

/-- A line: words with a blank behind each, a label and then entries. -/
def parseRow (size : Nat) (line : List Char) : Option DumpRow :=
  match (line.splitOn ' ').dropLast with
  | [] => none
  | label :: entries =>
      match parseLabel label, entries.mapM (parseEntry size) with
      | some label, some entries => some ⟨label, entries⟩
      | _, _ => none

def parseDump (size : Nat) (text : List Char) : Option (List DumpRow) :=
  (text.splitOn '\n').dropLast.mapM (parseRow size)

/-!
## The text of a row
-/

def labelWord (label : Nat) : List Char :=
  '0' :: 'x' :: Numeral.padded 16 wordWidth label ++ [':']

def entryWord (entry : List Nat) : List Char :=
  '0' :: 'x' :: entry.flatMap (Numeral.padded 16 byteWidth)

namespace DumpRow

def words (row : DumpRow) : List (List Char) :=
  labelWord row.label :: row.entries.map entryWord

def line (row : DumpRow) : List Char := row.words.flatMap fun word => word ++ [' ']

structure WellFormed (size : Nat) (row : DumpRow) : Prop where
  label_lt : row.label < 2 ^ 32
  length_eq : forall entry, entry ∈ row.entries -> entry.length = size
  byte_lt : forall entry, entry ∈ row.entries -> forall b, b ∈ entry -> b < 256

end DumpRow

def dumpText (rows : List DumpRow) : List Char :=
  rows.flatMap fun row => row.line ++ ['\n']

section Parsing

variable {size : Nat} {row : DumpRow} {rows : List DumpRow} {entry : List Nat}

theorem parseHex_padded (width n : Nat) :
    parseHex (Numeral.padded 16 width n) = some n := by
  unfold parseHex
  rw [if_pos, Numeral.value_padded (by decide) (by decide)]
  rw [List.all_eq_true]
  exact fun c hc => Numeral.isDigit_of_mem_padded (by decide) (by decide) hc

theorem parseBytes_flatMap (h : forall b, b ∈ entry -> b < 256) :
    parseBytes (entry.flatMap (Numeral.padded 16 byteWidth)) = some entry := by
  induction entry with
  | nil =>
      rfl
  | cons b entry ih =>
      have hlength : (Numeral.padded 16 byteWidth b).length = 2 :=
        Numeral.length_padded (by decide) (by decide) (h b List.mem_cons_self)
      have hhex := parseHex_padded byteWidth b
      rcases List.length_eq_two.mp hlength with ⟨high, low, hdigits⟩
      rw [hdigits] at hhex
      rw [List.flatMap_cons, hdigits, List.cons_append, List.cons_append, List.nil_append,
        parseBytes, hhex, ih fun c hc => h c (List.mem_cons_of_mem b hc)]

theorem parseEntry_entryWord (hlength : entry.length = size)
    (hbytes : forall b, b ∈ entry -> b < 256) :
    parseEntry size (entryWord entry) = some entry := by
  unfold entryWord
  rw [parseEntry, parseBytes_flatMap hbytes]
  exact if_pos hlength

theorem parseLabel_labelWord {label : Nat} (h : label < 2 ^ 32) :
    parseLabel (labelWord label) = some label := by
  have hlength : (Numeral.padded 16 wordWidth label).length = wordWidth :=
    Numeral.length_padded (by decide) (by decide) h
  unfold labelWord
  rw [List.cons_append, List.cons_append, parseLabel, if_pos, List.dropLast_concat]
  · exact parseHex_padded wordWidth label
  · rw [List.length_append, hlength, List.getLast?_concat]
    exact ⟨rfl, rfl⟩

theorem mem_words {word : List Char} (hword : word ∈ row.words) {c : Char} (hc : c ∈ word) :
    Numeral.isDigit 16 c = true ∨ c = 'x' ∨ c = ':' := by
  have hpadded : forall {width n : Nat}, c ∈ Numeral.padded 16 width n ->
      Numeral.isDigit 16 c = true :=
    fun h => Numeral.isDigit_of_mem_padded (by decide) (by decide) h
  unfold DumpRow.words at hword
  rcases List.mem_cons.mp hword with rfl | hentry
  · unfold labelWord at hc
    simp only [List.cons_append, List.mem_cons, List.mem_append, List.not_mem_nil,
      or_false] at hc
    rcases hc with rfl | rfl | hdigit | rfl
    · exact Or.inl (by decide)
    · exact Or.inr (Or.inl rfl)
    · exact Or.inl (hpadded hdigit)
    · exact Or.inr (Or.inr rfl)
  · rcases List.mem_map.mp hentry with ⟨entry, _, rfl⟩
    unfold entryWord at hc
    rw [List.mem_cons, List.mem_cons, List.mem_flatMap] at hc
    rcases hc with rfl | rfl | ⟨b, _, hdigit⟩
    · exact Or.inl (by decide)
    · exact Or.inr (Or.inl rfl)
    · exact Or.inl (hpadded hdigit)

theorem blank_not_mem_word {word : List Char} (hword : word ∈ row.words) : ' ' ∉ word := by
  intro hblank
  exact absurd (mem_words hword hblank) (by decide)

theorem newline_not_mem_line : '\n' ∉ row.line := by
  intro hnewline
  unfold DumpRow.line at hnewline
  rcases List.mem_flatMap.mp hnewline with ⟨word, hword, hmem⟩
  rcases List.mem_append.mp hmem with hmem | hmem
  · exact absurd (mem_words hword hmem) (by decide)
  · exact absurd hmem (by decide)

theorem parseRow_line (h : row.WellFormed size) : parseRow size row.line = some row := by
  have hsplit : (row.line.splitOn ' ').dropLast = labelWord row.label ::
      row.entries.map entryWord := by
    unfold DumpRow.line
    rw [Numeral.splitOn_terminated fun word hword => blank_not_mem_word hword,
      List.dropLast_concat]
    rfl
  have hentries : (row.entries.map entryWord).mapM (parseEntry size) =
      some (row.entries.map id) :=
    Lines.mapM_map_of_forall fun entry hentry =>
      parseEntry_entryWord (h.length_eq entry hentry) (h.byte_lt entry hentry)
  unfold parseRow
  rw [hsplit]
  dsimp only
  rw [parseLabel_labelWord h.label_lt, hentries, List.map_id]

/-- A dump is read back as the rows that were written. -/
theorem parseDump_dumpText (h : forall row, row ∈ rows -> row.WellFormed size) :
    parseDump size (dumpText rows) = some rows := by
  have hlines : dumpText rows = Lines.unlines (rows.map DumpRow.line) := by
    unfold dumpText Lines.unlines
    rw [List.flatMap_map]
  have hread := Lines.read_unlines (g := id) (l := rows)
    (fun _ _ => newline_not_mem_line) fun row hrow => parseRow_line (h row hrow)
  rw [List.map_id] at hread
  rw [hlines]
  exact hread

end Parsing

/-!
## The loops of the dump
-/

namespace MemoryStore

def bytesFrom (m : MemoryStore) (rel count : Nat) : List Nat :=
  (List.range count).map fun i => m.byteAt (rel + i)

def entriesFrom (m : MemoryStore) (size : Nat) : Nat -> Nat -> List (List Nat)
  | 0, _ => []
  | count + 1, rel => m.bytesFrom rel size :: m.entriesFrom size count (rel + size)

section Bytes

variable {m : MemoryStore} {rel : Nat}

theorem bytesFrom_succ (m : MemoryStore) (rel count : Nat) :
    m.bytesFrom rel (count + 1) = m.byteAt rel :: m.bytesFrom (rel + 1) count := by
  unfold bytesFrom
  rw [List.range_succ_eq_map, List.map_cons, List.map_map]
  congr 1
  apply List.map_congr_left
  intro i _
  dsimp only [Function.comp]
  congr 1
  lia

theorem bytesFrom_add (m : MemoryStore) (rel a b : Nat) :
    m.bytesFrom rel (a + b) = m.bytesFrom rel a ++ m.bytesFrom (rel + a) b := by
  unfold bytesFrom
  rw [List.range_add, List.map_append, List.map_map]
  congr 1
  apply List.map_congr_left
  intro i _
  dsimp only [Function.comp]
  rw [Nat.add_assoc]

theorem length_bytesFrom (m : MemoryStore) (rel count : Nat) :
    (m.bytesFrom rel count).length = count := by
  unfold bytesFrom
  rw [List.length_map, List.length_range]

theorem lt_of_mem_bytesFrom {count b : Nat} (hb : b ∈ m.bytesFrom rel count) : b < 256 := by
  rcases List.mem_map.mp hb with ⟨i, _, rfl⟩
  exact m.byteAt_lt _

theorem flatten_entriesFrom (m : MemoryStore) (size count rel : Nat) :
    (m.entriesFrom size count rel).flatten = m.bytesFrom rel (count * size) := by
  induction count generalizing rel with
  | zero =>
      rw [Nat.zero_mul]
      rfl
  | succ count ih =>
      rw [entriesFrom, List.flatten_cons, ih, Nat.succ_mul, Nat.add_comm (count * size),
        bytesFrom_add]

theorem mem_entriesFrom {size count : Nat} {entry : List Nat}
    (h : entry ∈ m.entriesFrom size count rel) : exists rel', entry = m.bytesFrom rel' size := by
  induction count generalizing rel with
  | zero =>
      cases h
  | succ count ih =>
      rcases List.mem_cons.mp h with rfl | h
      · exact ⟨rel, rfl⟩
      · exact ih h

theorem entriesFrom_ne_nil (m : MemoryStore) (size : Nat) {count : Nat} (hcount : 0 < count)
    (rel : Nat) : m.entriesFrom size count rel ≠ [] := by
  cases count with
  | zero =>
      cases hcount
  | succ count =>
      exact List.cons_ne_nil _ _

theorem wellFormed_entriesFrom (m : MemoryStore) (address : Word) (size count rel : Nat) :
    DumpRow.WellFormed size ⟨address.toNat, m.entriesFrom size count rel⟩ where
  label_lt := address.isLt
  length_eq := by
    intro entry hentry
    rcases mem_entriesFrom hentry with ⟨rel', rfl⟩
    exact m.length_bytesFrom rel' size
  byte_lt := by
    intro entry hentry b hb
    rcases mem_entriesFrom hentry with ⟨rel', rfl⟩
    exact lt_of_mem_bytesFrom hb

end Bytes

/-- A cursor with `left` entries in front of it, which lie inside the memory, reach to the
end of the range and are no more than that takes. -/
structure Remaining (m : MemoryStore) (relEnd entrySize relStart : Word) (left : Nat) :
    Prop where
  inside : relStart.toNat + left * entrySize.toNat ≤ m.numEntries
  reach : relEnd.toNat ≤ relStart.toNat + left * entrySize.toNat
  tight : relStart.toNat + left * entrySize.toNat < relEnd.toNat + entrySize.toNat

section Loops

variable {m : MemoryStore} {relEnd entrySize relStart : Word} {left : Nat}

theorem Remaining.lt_iff (h : m.Remaining relEnd entrySize relStart left) :
    relStart < relEnd <-> 0 < left := by
  have hreach := h.reach
  have htight := h.tight
  rw [BitVec.lt_def]
  cases left with
  | zero =>
      lia
  | succ left =>
      rw [Nat.succ_mul] at htight
      lia

theorem Remaining.toNat_advance (hm : m.numEntries < 2 ^ 32)
    (h : m.Remaining relEnd entrySize relStart left) {count : Nat} (hcount : count ≤ left) :
    (relStart + BitVec.ofNat 32 (count * entrySize.toNat)).toNat =
      relStart.toNat + count * entrySize.toNat := by
  have hinside := h.inside
  have hle := Nat.mul_le_mul_right entrySize.toNat hcount
  rw [BitVec.toNat_add, BitVec.toNat_ofNat, Nat.add_mod_mod]
  exact Nat.mod_eq_of_lt (by lia)

theorem Remaining.advance (hm : m.numEntries < 2 ^ 32)
    (h : m.Remaining relEnd entrySize relStart left) {count : Nat} (hcount : count ≤ left) :
    m.Remaining relEnd entrySize (relStart + BitVec.ofNat 32 (count * entrySize.toNat))
      (left - count) := by
  have hcursor := h.toNat_advance hm hcount
  have hsum : relStart.toNat + count * entrySize.toNat + (left - count) * entrySize.toNat =
      relStart.toNat + left * entrySize.toNat := by
    rw [Nat.add_assoc, ← Nat.add_mul, Nat.add_sub_cancel' hcount]
  constructor
  · rw [hcursor, hsum]
    exact h.inside
  · rw [hcursor, hsum]
    exact h.reach
  · rw [hcursor, hsum]
    exact h.tight

theorem printEntry_eq (hm : m.numEntries < 2 ^ 32) {count j : Nat}
    (hinside : relStart.toNat + j + count ≤ m.numEntries) :
    m.printEntry relStart count j =
      (true, (m.bytesFrom (relStart.toNat + j) count).flatMap
        (Numeral.padded 16 byteWidth)) := by
  induction count generalizing j with
  | zero =>
      rfl
  | succ count ih =>
      have hbyte := m.byteAt_lt (relStart.toNat + j)
      rw [printEntry, at?_relative hm (by lia), if_pos (by lia)]
      dsimp only
      rw [ih (by lia), bytesFrom_succ, List.flatMap_cons, BitVec.toNat_ofNat,
        Nat.mod_eq_of_lt hbyte, Nat.add_assoc]

theorem printRow_eq (hm : m.numEntries < 2 ^ 32)
    (h : m.Remaining relEnd entrySize relStart left) (count : Nat) :
    m.printRow relEnd entrySize count relStart =
      (if count ≤ left then .full (relStart + BitVec.ofNat 32 (count * entrySize.toNat))
        else .returned,
        ((m.entriesFrom entrySize.toNat (min count left) relStart.toNat).map entryWord).flatMap
          (fun word => word ++ [' ']) ++ ['\n']) := by
  induction count generalizing relStart left with
  | zero =>
      rw [if_pos (Nat.zero_le left), Nat.zero_min, Nat.zero_mul, BitVec.add_zero]
      rfl
  | succ count ih =>
      cases left with
      | zero =>
          rw [printRow, if_neg fun hlt => absurd (h.lt_iff.mp hlt) (Nat.lt_irrefl 0),
            if_neg (Nat.not_succ_le_zero count), Nat.min_zero]
          rfl
      | succ left =>
          have hinside := h.inside
          rw [Nat.succ_mul] at hinside
          have hnext := h.advance hm (Nat.le_add_left 1 left)
          have hcursor := h.toNat_advance hm (Nat.le_add_left 1 left)
          rw [Nat.one_mul, BitVec.ofNat_toNat, BitVec.setWidth_eq] at hnext hcursor
          have hshift : relStart + entrySize + BitVec.ofNat 32 (count * entrySize.toNat) =
              relStart + BitVec.ofNat 32 ((count + 1) * entrySize.toNat) := by
            rw [Nat.succ_mul, Nat.add_comm (count * _), BitVec.ofNat_add, BitVec.ofNat_toNat,
              BitVec.setWidth_eq, BitVec.add_assoc]
          rw [printRow, if_pos (h.lt_iff.mpr (Nat.succ_pos left)),
            printEntry_eq hm (by lia)]
          dsimp only
          rw [ih hnext, hcursor, hshift, Nat.succ_min_succ, entriesFrom, List.map_cons,
            List.flatMap_cons]
          simp only [Nat.add_le_add_iff_right, entryWord, Nat.add_zero, List.cons_append,
            List.append_assoc, List.nil_append]
          rfl

/-- Every row is labelled with the address of its first entry. -/
def Labelled : Word -> List DumpRow -> Prop
  | _, [] => True
  | address, row :: rows =>
      row.entries ≠ [] ∧ row.label = address.toNat ∧
        Labelled (address + BitVec.ofNat 32 row.bytes.length) rows

theorem Labelled.label {address : Word} {row : DumpRow} {before after : List DumpRow}
    (h : Labelled address (before ++ row :: after)) :
    row.entries ≠ [] ∧ row.label =
      (address + BitVec.ofNat 32 (before.flatMap DumpRow.bytes).length).toNat := by
  induction before generalizing address with
  | nil =>
      rw [List.flatMap_nil, List.length_nil, BitVec.add_zero]
      exact ⟨h.1, h.2.1⟩
  | cons first before ih =>
      have hrest := ih h.2.2
      rw [List.flatMap_cons, List.length_append, BitVec.ofNat_add, ← BitVec.add_assoc]
      exact hrest

def rowFrom (m : MemoryStore) (address : Word) (size count rel : Nat) : DumpRow where
  label := address.toNat
  entries := m.entriesFrom size count rel

theorem bytes_rowFrom (m : MemoryStore) (address : Word) (size count rel : Nat) :
    (m.rowFrom address size count rel).bytes = m.bytesFrom rel (count * size) :=
  m.flatten_entriesFrom size count rel

theorem dumpText_cons (row : DumpRow) (rows : List DumpRow) :
    dumpText (row :: rows) = dumpText [row] ++ dumpText rows := by
  unfold dumpText
  rw [List.flatMap_cons, List.flatMap_cons, List.flatMap_nil, List.append_nil]

theorem dumpText_rowFrom (m : MemoryStore) (address : Word) (size count rel : Nat) :
    dumpText [m.rowFrom address size count rel] =
      rowLabel address ++
        (((m.entriesFrom size count rel).map entryWord).flatMap (fun word => word ++ [' ']) ++
          ['\n']) := by
  unfold dumpText rowLabel DumpRow.line DumpRow.words labelWord rowFrom
  rw [List.flatMap_cons, List.flatMap_nil, List.append_nil, List.flatMap_cons]
  simp only [List.cons_append, List.append_assoc, List.nil_append]

theorem printRows_eq (hm : m.numEntries < 2 ^ 32) {entriesPerRow : Word}
    (hrow : 0 < entriesPerRow.toNat) (h : m.Remaining relEnd entrySize relStart left)
    {fuel : Nat} (hfuel : left < fuel) (curAddr : Word) :
    exists rows,
      m.printRows relEnd entrySize entriesPerRow fuel relStart curAddr =
          some (0, dumpText rows) ∧
        (forall row, row ∈ rows -> row.WellFormed entrySize.toNat) ∧
        rows.flatMap DumpRow.bytes = m.bytesFrom relStart.toNat (left * entrySize.toNat) ∧
        Labelled curAddr rows := by
  induction fuel generalizing relStart left curAddr with
  | zero =>
      cases hfuel
  | succ fuel ih =>
      by_cases hleft : 0 < left
      · rw [printRows, if_pos (h.lt_iff.mpr hleft), printRow_eq hm h]
        by_cases hfull : entriesPerRow.toNat ≤ left
        · have hstep : curAddr + entrySize * entriesPerRow =
              curAddr + BitVec.ofNat 32 (entriesPerRow.toNat * entrySize.toNat) := by
            rw [BitVec.ofNat_mul, BitVec.ofNat_toNat, BitVec.ofNat_toNat, BitVec.setWidth_eq,
              BitVec.setWidth_eq, BitVec.mul_comm]
          rcases ih (h.advance hm hfull) (by lia) (curAddr + entrySize * entriesPerRow) with
            ⟨rows, hrun, hwell, hbytes, hlabels⟩
          have hsplit : left * entrySize.toNat = entriesPerRow.toNat * entrySize.toNat +
              (left - entriesPerRow.toNat) * entrySize.toNat := by
            rw [← Nat.add_mul, Nat.add_sub_cancel' hfull]
          refine ⟨m.rowFrom curAddr entrySize.toNat entriesPerRow.toNat relStart.toNat :: rows,
            ?_, ?_, ?_, ?_⟩
          · rw [if_pos hfull, Nat.min_eq_left hfull]
            dsimp only
            rw [hrun, dumpText_cons, dumpText_rowFrom]
          · intro row hmem
            rcases List.mem_cons.mp hmem with rfl | hmem
            · exact m.wellFormed_entriesFrom curAddr _ _ _
            · exact hwell row hmem
          · rw [List.flatMap_cons, hbytes, bytes_rowFrom, h.toNat_advance hm hfull, hsplit,
              bytesFrom_add]
          · refine ⟨m.entriesFrom_ne_nil _ hrow _, rfl, ?_⟩
            rw [bytes_rowFrom, length_bytesFrom, ← hstep]
            exact hlabels
        · refine ⟨[m.rowFrom curAddr entrySize.toNat left relStart.toNat], ?_, ?_, ?_, ?_⟩
          · rw [if_neg hfull, Nat.min_eq_right (Nat.le_of_not_le hfull), dumpText_rowFrom]
          · intro row hmem
            rw [List.mem_singleton.mp hmem]
            exact m.wellFormed_entriesFrom curAddr _ _ _
          · rw [List.flatMap_cons, List.flatMap_nil, List.append_nil, bytes_rowFrom]
          · exact ⟨m.entriesFrom_ne_nil _ hleft _, rfl, trivial⟩
      · have hzero : left = 0 := Nat.eq_zero_of_not_pos hleft
        subst hzero
        refine ⟨[], ?_, fun row hrow => absurd hrow List.not_mem_nil, ?_, trivial⟩
        · rw [printRows, if_neg fun hlt => hleft (h.lt_iff.mp hlt)]
          rfl
        · rw [Nat.zero_mul]
          rfl

def entryCount (startAddr endAddr entrySize : Word) : Nat :=
  (endAddr.toNat - startAddr.toNat + entrySize.toNat - 1) / entrySize.toNat

theorem entryCount_bounds {startAddr endAddr : Word} (hsize : 0 < entrySize.toNat) :
    endAddr.toNat - startAddr.toNat ≤
        entryCount startAddr endAddr entrySize * entrySize.toNat ∧
      entryCount startAddr endAddr entrySize * entrySize.toNat <
        endAddr.toNat - startAddr.toNat + entrySize.toNat := by
  have hdivision := Nat.div_add_mod' (endAddr.toNat - startAddr.toNat + entrySize.toNat - 1)
    entrySize.toNat
  have hremainder := Nat.mod_lt (endAddr.toNat - startAddr.toNat + entrySize.toNat - 1) hsize
  unfold entryCount
  lia

theorem remaining_entryCount {startAddr endAddr : Word} (hm : m.numEntries < 2 ^ 32)
    (hsize : 0 < entrySize.toNat) (hle : startAddr ≤ endAddr)
    (hinside : m.offset startAddr + entryCount startAddr endAddr entrySize * entrySize.toNat ≤
      m.numEntries) :
    m.Remaining (endAddr - m.startAddr) entrySize (startAddr - m.startAddr)
      (entryCount startAddr endAddr entrySize) := by
  rcases @entryCount_bounds entrySize startAddr endAddr hsize with ⟨hreach, htight⟩
  have hdistance : (endAddr - startAddr).toNat = endAddr.toNat - startAddr.toNat :=
    BitVec.toNat_sub_of_le hle
  have hend : (endAddr - m.startAddr).toNat =
      m.offset startAddr + (endAddr.toNat - startAddr.toNat) := by
    have hsum : endAddr - m.startAddr = startAddr - m.startAddr + (endAddr - startAddr) := by
      grind
    unfold offset at hinside ⊢
    rw [hsum, BitVec.toNat_add, hdistance]
    exact Nat.mod_eq_of_lt (by lia)
  constructor
  · exact hinside
  · rw [hend]
    exact Nat.add_le_add_left hreach _
  · rw [hend, Nat.add_assoc]
    exact Nat.add_lt_add_left htight _

end Loops

end MemoryStore

/-- A dump of a range inside the memory ends without an error; read back, it shows the bytes
of the range in order, each once, and every row is labelled with the address of its first
entry. -/
theorem memory_dump_faithful (m : MemoryStore) (hm : m.numEntries < 2 ^ 32)
    (startAddr endAddr entrySize entriesPerRow : Word)
    (hsize : MemoryStore.validSize entrySize = true) (hrow : 1 ≤ entriesPerRow.toNat)
    (hle : startAddr ≤ endAddr)
    (hinside : m.offset startAddr +
      MemoryStore.entryCount startAddr endAddr entrySize * entrySize.toNat ≤ m.numEntries) :
    exists fuel text rows,
      MemoryStore.printMemArray fuel m startAddr endAddr entrySize entriesPerRow =
          some (0, text) ∧
        parseDump entrySize.toNat text = some rows ∧
        rows.flatMap DumpRow.bytes = m.bytesFrom (m.offset startAddr)
          (MemoryStore.entryCount startAddr endAddr entrySize * entrySize.toNat) ∧
        forall before row after, rows = before ++ row :: after ->
          row.entries ≠ [] ∧ row.label =
            (startAddr + BitVec.ofNat 32 (before.flatMap DumpRow.bytes).length).toNat := by
  have hremaining := MemoryStore.remaining_entryCount hm
    (MemoryStore.validSize_bounds hsize).1 hle hinside
  rcases MemoryStore.printRows_eq hm hrow hremaining (Nat.lt_succ_self _) startAddr with
    ⟨rows, hrun, hwell, hbytes, hlabels⟩
  refine ⟨MemoryStore.entryCount startAddr endAddr entrySize + 1, dumpText rows, rows, ?_,
    parseDump_dumpText hwell, hbytes, ?_⟩
  · unfold MemoryStore.printMemArray
    rw [if_pos hsize]
    exact hrun
  · intro before row after heq
    subst heq
    exact MemoryStore.Labelled.label hlabels

/-- The range that is dumped by default, of a cleared memory. -/
theorem memory_dump_faithful_default :
    exists fuel text rows,
      MemoryStore.printMemArray fuel (MemoryStore.cleared 0#32 memorySize) 0#32 0x1f4#32
          wordSize 5#32 = some (0, text) ∧
        parseDump 4 text = some rows ∧
        rows.flatMap DumpRow.bytes =
          (MemoryStore.cleared 0#32 memorySize).bytesFrom 0 500 ∧
        forall before row after, rows = before ++ row :: after ->
          row.entries ≠ [] ∧ row.label =
            (0#32 + BitVec.ofNat 32 (before.flatMap DumpRow.bytes).length).toNat :=
  memory_dump_faithful (MemoryStore.cleared 0#32 memorySize) (by decide) 0#32 0x1f4#32
    wordSize 5#32 (by decide) (by decide) (by decide) (by decide)

end PipeSim
