import PipeSim.Functional.Untouched
import PipeSim.Machine.Disassembly

/-!
# Programs that leave their text alone

The words of a program are taken from a fixed text instead of the memory, and a run over the
text stops in front of the halt word, outside of the text and in front of a store into it.  As
far as such a run goes, the emulator does the same with the text in its memory.
-/

namespace PipeSim

open Library

structure Text where
  base : Word
  code : List Word
  fits : 4 * code.length ≤ 2 ^ 32

namespace Emulator

def storeOfWord (e : Emulator) (word : Word) : Option MemoryStore.Write :=
  (opOf word).bind fun op =>
    op.storeSize?.map fun size =>
      ⟨e.operand (rsOf word) + signExt (immOf word),
        storedValue op (e.operand (rtOf word)), size⟩

theorem storeOf_eq_storeOfWord (e : Emulator) : e.storeOf = e.storeOfWord e.fetchedWord := rfl

end Emulator

namespace Text

variable (text : Text)

def address (k : Nat) : Word := text.base + BitVec.ofNat 32 (4 * k)

def wordAt (pc : Word) : Option Word :=
  if (pc - text.base).toNat % 4 = 0 then text.code[(pc - text.base).toNat / 4]? else none

def Avoids (w : MemoryStore.Write) : Prop :=
  4 * text.code.length ≤ (w.address - text.base).toNat ∧
    (w.address - text.base).toNat + w.size.toNat ≤ 2 ^ 32

instance (w : MemoryStore.Write) : Decidable (text.Avoids w) := by
  unfold Avoids
  infer_instance

def allows (e : Emulator) (word : Word) : Bool :=
  word != haltWord &&
    match e.storeOfWord word with
    | some w => decide (text.Avoids w)
    | none => true

def next (e : Emulator) : Option Emulator :=
  match text.wordAt e.PC with
  | some word => if text.allows e word then some (e.executeWord word) else none
  | none => none

def run : Nat -> Emulator -> Option Emulator
  | 0, e => some e
  | n + 1, e => (text.next e).bind (run n)

structure Loaded (e : Emulator) : Prop where
  numEntries : e.memory.numEntries < 2 ^ 32
  words : forall k, k < text.code.length ->
    text.code[k]? = some (e.memory.getMemValue (text.address k) 0#32 wordSize).2

section Steps

variable {text} {e e' : Emulator} {word pc : Word} {k : Nat}

theorem lt_length_of_wordAt (h : text.wordAt pc = some word) :
    exists k, k < text.code.length ∧ pc = text.address k ∧ text.code[k]? = some word := by
  unfold wordAt at h
  split at h
  · rename_i haligned
    have hk := (List.getElem?_eq_some_iff.mp h).1
    refine ⟨_, hk, ?_, h⟩
    have hdistance : 4 * ((pc - text.base).toNat / 4) = (pc - text.base).toNat := by
      lia
    unfold address
    rw [hdistance, BitVec.ofNat_toNat, BitVec.setWidth_eq, BitVec.add_comm, BitVec.sub_add_cancel]
  · cases h

theorem Loaded.fetchedWord (h : text.Loaded e) (hword : text.wordAt e.PC = some word) :
    e.fetchedWord = word := by
  rcases lt_length_of_wordAt hword with ⟨k, hk, hpc, hcode⟩
  have hloaded := h.words k hk
  rw [hcode, ← hpc] at hloaded
  exact (Option.some.inj hloaded).symm

theorem storedByte_of_avoids {m : MemoryStore} {w : MemoryStore.Write} (h : text.Avoids w)
    (hk : k < text.code.length) {i : Nat} (hi : i < wordSize.toNat) :
    m.storedByte w (text.address k + BitVec.ofNat 32 i) = none := by
  have hfour : wordSize.toNat = 4 := rfl
  have hfits := text.fits
  have hfitting : m.fittingAt w.address w.size ≤ w.size.toNat := MemoryStore.fitting_le m _ _
  have hbyte : text.address k + BitVec.ofNat 32 i - w.address =
      BitVec.ofNat 32 (4 * k + i) - (w.address - text.base) := by
    unfold address
    rw [BitVec.ofNat_add]
    bv_omega
  have hdistance : (text.address k + BitVec.ofNat 32 i - w.address).toNat =
      4 * k + i + 2 ^ 32 - (w.address - text.base).toNat := by
    rcases h with ⟨hbelow, habove⟩
    have hlt : 4 * k + i < (w.address - text.base).toNat := by
      lia
    have hbound := (w.address - text.base).isLt
    rw [hbyte, BitVec.toNat_sub, BitVec.toNat_ofNat, Nat.mod_eq_of_lt (hlt.trans hbound),
      Nat.mod_eq_of_lt (by lia)]
    lia
  unfold MemoryStore.storedByte
  rw [if_neg]
  rcases h with ⟨hbelow, habove⟩
  lia

theorem getMemValue_of_avoids {m : MemoryStore} (hm : m.numEntries < 2 ^ 32)
    {w : MemoryStore.Write} (hsize : MemoryStore.validSize w.size = true) (h : text.Avoids w)
    (hk : k < text.code.length) :
    ((m.setMemValue w.address w.value w.size).2.getMemValue (text.address k) 0#32 wordSize).2 =
      (m.getMemValue (text.address k) 0#32 wordSize).2 :=
  (MemoryStore.agreesOn_setMemValue hm w hsize).getMemValue hm rfl
    (fun _ hi => storedByte_of_avoids h hk hi) 0#32

/-- The next instruction is a word of the text and stores outside of it. -/
def Inside (text : Text) (e : Emulator) : Prop :=
  (text.wordAt e.PC).isSome = true ∧ forall w, e.storeOf = some w -> text.Avoids w

theorem allows_iff (text : Text) (hfetched : e.fetchedWord = word) :
    text.allows e word = true <->
      word ≠ haltWord ∧ forall w, e.storeOf = some w -> text.Avoids w := by
  unfold allows
  rw [Bool.and_eq_true, bne_iff_ne, Emulator.storeOf_eq_storeOfWord, hfetched]
  apply and_congr_right'
  cases e.storeOfWord word with
  | none =>
      exact iff_of_true rfl fun w hw => nomatch hw
  | some w =>
      constructor
      · intro h w' hw'
        cases hw'
        exact of_decide_eq_true h
      · intro h
        exact decide_eq_true (h w rfl)

theorem Loaded.machine_eq (h : text.Loaded e) (hword : text.wordAt e.PC = some word) :
    Functional.machine e = (word == haltWord, e.executeWord word) := by
  rw [← h.fetchedWord hword]
  exact Prod.ext (Emulator.executeInstruction_isHalt e) e.executeInstruction_eq_executeWord

theorem Loaded.next_iff (h : text.Loaded e) :
    text.next e = some e' <-> Functional.machine e = (false, e') ∧ text.Inside e := by
  unfold next Inside
  cases hword : text.wordAt e.PC with
  | none =>
      exact iff_of_false (fun hnext => nomatch hnext) fun hinside => nomatch hinside.2.1
  | some word =>
      have hallows := text.allows_iff (h.fetchedWord hword)
      rw [h.machine_eq hword]
      dsimp only
      split
      · rename_i hok
        rcases hallows.mp hok with ⟨hhalt, hstore⟩
        rw [beq_eq_false_iff_ne.mpr hhalt, Prod.mk.injEq, Option.some.injEq]
        exact ⟨fun heq => ⟨⟨rfl, heq⟩, rfl, hstore⟩, fun hinside => hinside.1.2⟩
      · rename_i hnot
        refine iff_of_false (fun hnext => nomatch hnext) ?_
        intro hinside
        rcases hinside with ⟨hunfinished, _, hstore⟩
        have hhalt := beq_eq_false_iff_ne.mp (congrArg Prod.fst hunfinished)
        exact hnot (hallows.mpr ⟨hhalt, hstore⟩)

theorem Loaded.executed (h : text.Loaded e) (hinside : text.Inside e) :
    text.Loaded e.executeInstruction.2 := by
  have hmemory := e.executeInstruction_memory
  cases hstore : e.storeOf with
  | none =>
      rw [hstore] at hmemory
      change _ = e.memory at hmemory
      constructor
      · rw [hmemory]
        exact h.numEntries
      · rw [hmemory]
        exact h.words
  | some w =>
      rw [hstore] at hmemory
      change _ = (e.memory.setMemValue w.address w.value w.size).2 at hmemory
      have hsize := Emulator.validSize_of_storeOf hstore
      constructor
      · rw [hmemory, MemoryStore.setMemValue_numEntries h.numEntries]
        exact h.numEntries
      · intro k hk
        rw [hmemory, getMemValue_of_avoids h.numEntries hsize (hinside.2 w hstore) hk]
        exact h.words k hk

theorem Loaded.step (h : text.Loaded e) (hnext : text.next e = some e') :
    Functional.machine e = (false, e') ∧ text.Loaded e' := by
  rcases h.next_iff.mp hnext with ⟨hstep, hinside⟩
  have hloaded := h.executed hinside
  rw [show e.executeInstruction.2 = e' from congrArg Prod.snd hstep] at hloaded
  exact ⟨hstep, hloaded⟩

theorem Loaded.run {n : Nat} (h : text.Loaded e) (hrun : text.run n e = some e') :
    Functional.machine.Reaches n e e' ∧ text.Loaded e' := by
  induction n generalizing e with
  | zero =>
      cases hrun
      exact ⟨Machine.Reaches.refl _, h⟩
  | succ n ih =>
      rcases Option.bind_eq_some_iff.mp hrun with ⟨u, hnext, hrest⟩
      rcases h.step hnext with ⟨hstep, hloaded⟩
      rcases ih hloaded hrest with ⟨hreach, hend⟩
      exact ⟨hreach.head hstep, hend⟩

theorem Loaded.run_of_inside {n : Nat} (h : text.Loaded e)
    (hreach : Functional.machine.Reaches n e e')
    (hinside : forall k u, k < n -> Functional.machine.Reaches k e u -> text.Inside u) :
    text.run n e = some e' := by
  induction n generalizing e with
  | zero =>
      cases hreach
      rfl
  | succ n ih =>
      rcases hreach.exists_head with ⟨u, hstep, hrest⟩
      have hnext := h.next_iff.mpr ⟨hstep, hinside 0 e n.succ_pos (Machine.Reaches.refl e)⟩
      refine Option.bind_eq_some_iff.mpr ⟨u, hnext, ?_⟩
      exact ih (h.step hnext).2 hrest fun k v hk hv =>
        hinside (k + 1) v (Nat.succ_lt_succ hk) (hv.head hstep)

theorem Loaded.inside_of_run {n : Nat} (h : text.Loaded e) (hrun : text.run n e = some e')
    {k : Nat} {u : Emulator} (hk : k < n) (hu : Functional.machine.Reaches k e u) :
    text.Inside u := by
  induction n generalizing e k with
  | zero =>
      cases hk
  | succ n ih =>
      rcases Option.bind_eq_some_iff.mp hrun with ⟨v, hnext, hrest⟩
      cases k with
      | zero =>
          cases hu
          exact (h.next_iff.mp hnext).2
      | succ k =>
          rcases h.step hnext with ⟨hstep, hloaded⟩
          exact ih hloaded hrest (Nat.lt_of_succ_lt_succ hk) (hu.of_head hstep)

end Steps

end Text

/-- With the text of a program in its memory the emulator does what a run over the text does
exactly as long as every instruction is a word of the text and none stores into it, and the
text is then still there. -/
theorem text_executes (text : Text) (n : Nat) {e : Emulator} (e' : Emulator)
    (h : text.Loaded e) :
    text.run n e = some e' <->
      Functional.machine.Reaches n e e' ∧ text.Loaded e' ∧
        forall k u, k < n -> Functional.machine.Reaches k e u -> text.Inside u := by
  constructor
  · intro hrun
    rcases h.run hrun with ⟨hreach, hloaded⟩
    exact ⟨hreach, hloaded, fun k u hk hu => h.inside_of_run hrun hk hu⟩
  · intro hright
    rcases hright with ⟨hreach, _, hinside⟩
    exact h.run_of_inside hreach hinside

/-- `sw $0, 8($0)` in front of a halt word and the datum it clears. -/
def Text.clearBehind : Text where
  base := 0#32
  code := [0xac000008#32, haltWord]
  fits := by decide

theorem text_executes_clear_behind :
    exists e', Functional.machine.Reaches 1
        (Emulator.init (MemoryStore.ofImage (MemImage.ofWords (Text.clearBehind.code ++ [7#32]))))
        e' ∧
      Text.clearBehind.Loaded e' := by
  have hloaded : Text.clearBehind.Loaded
      (Emulator.init (MemoryStore.ofImage
        (MemImage.ofWords (Text.clearBehind.code ++ [7#32])))) := ⟨by decide, by decide⟩
  rcases (text_executes Text.clearBehind 1 _ hloaded).mp rfl with ⟨hreach, hend, _⟩
  exact ⟨_, hreach, hend⟩

end PipeSim
