import PipeSim.Program.Outputs
import PipeSim.Functional.ProgramText
import PipeSim.Machine.IsaRefinement
import PipeSim.Library.TotalCorrectness

/-!
# Programs with a proof

A program is proved over its text alone, by assertions at some of its instructions and a measure
that gets smaller from one to the next.  On files that put the text into the memory both
executables then end at the halt word, with the postcondition and with the same machine.
-/

namespace PipeSim

open Library

/-- Assertions that prove a postcondition: from a state with `A` a run over the text comes to the
halt word, with `Q` behind it, or to a smaller state with `A`. -/
def Text.Proves {ι : Type} (text : Text) (r : ι -> ι -> Prop) (μ : Emulator -> ι)
    (A Q : Emulator -> Prop) : Prop :=
  forall e, text.Loaded e -> A e ->
    (text.wordAt e.PC = some haltWord ∧ Q (e.executeWord haltWord)) ∨
      exists n e', text.run n e = some e' ∧ A e' ∧ r (μ e') (μ e)

section Contracts

variable {ι : Type} {r : ι -> ι -> Prop} {text : Text} {μ : Emulator -> ι}
  {A Q : Emulator -> Prop}

theorem Text.Proves.finishes (hr : WellFounded r) (h : text.Proves r μ A Q) :
    Functional.machine.Finishes (fun e => text.Loaded e ∧ A e) Q := by
  apply Machine.Finishes.of_assertions hr μ
  intro e he
  rcases he with ⟨hloaded, hassertion⟩
  rcases h e hloaded hassertion with ⟨hword, hpost⟩ | ⟨n, e', hrun, hassertion', hsmaller⟩
  · exact Or.inl ⟨_, hloaded.machine_eq hword, hpost⟩
  · rcases hloaded.run hrun with ⟨hreach, hloaded'⟩
    exact Or.inr ⟨n, e', hreach, ⟨hloaded', hassertion'⟩, hsmaller⟩

end Contracts

open Executables

/-- A program that is proved over its text: on files that load the text `sim_funct` and
`sim_cycle`, with any two caches, both exit with `HALT` and dump one and the same machine, which
has the postcondition. -/
theorem proved_programs_halt {ι : Type} {r : ι -> ι -> Prop} (hr : WellFounded r) (text : Text)
    (μ : Emulator -> ι) (A Q : Emulator -> Prop) (hproof : text.Proves r μ A Q)
    (writable : Path -> Bool) (name inputFile cacheFile : Path) (rest : List Path)
    (files : Files) {mem : MemoryStore} (ic dc : ValidConfig)
    (hconfig : Configures files cacheFile ic dc)
    (hmem : initialMemory files inputFile = some mem)
    (hloaded : text.Loaded (Emulator.init mem)) (hstart : A (Emulator.init mem)) :
    exists e memText, Q e ∧ memoryText files e.memory = some memText ∧
      (exists fuel, functMain writable fuel (name :: inputFile :: rest) files =
        some (.exited .halt, dumped writable inputFile "_funct" e memText
          (SimulationStats.ofCounts e.din 0#32) files)) ∧
      exists fuel s, s.emulator = e ∧
        cycleMain writable fuel [name, inputFile, cacheFile] files =
          some (.exited .halt, cycleFiles writable inputFile s memText files) := by
  rcases hproof.finishes hr _ ⟨hloaded, hstart⟩ with ⟨n, e, hhalts, hpost⟩
  rcases exists_memoryText files (numEntries_of_haltsAfter (numEntries_initialMemory hmem) hhalts)
    with ⟨memText, hmemory⟩
  rcases Cycle.exists_haltsAfter_of_functional ic.toCacheConfig dc.toCacheConfig mem hhalts with
    ⟨m, s, hcycle, rfl⟩
  rcases (functMain_returns_iff hmem).mpr ⟨n, s.emulator, memText, hhalts, hmemory, rfl⟩ with
    ⟨fuel, hfunct⟩
  rcases (cycleMain_returns_iff hconfig hmem).mpr ⟨m, s, memText, hcycle, hmemory, rfl⟩ with
    ⟨fuel', hmain⟩
  exact ⟨s.emulator, memText, hpost, hmemory, ⟨fuel, hfunct⟩, fuel', s, rfl, hmain⟩

/-!
## A loop
-/

section Words

variable (e : Emulator) {word : Word}

theorem Text.next_of_wordAt {text : Text} {e : Emulator} (hword : text.wordAt e.PC = some word)
    (hallows : text.allows e word = true) : text.next e = some (e.executeWord word) := by
  unfold next
  rw [hword]
  exact if_pos hallows

theorem Emulator.executeWord_addiu (hop : opOf word = some .addiu) (h : word ≠ haltWord) :
    e.executeWord word = e.fetch.2.setReg (extractBits word 20 16)
      (e.fetch.2.reg (extractBits word 25 21) + signExt (immOf word)) := by
  unfold executeWord execute
  rw [if_neg h, decodedWord_op, hop]
  rfl

theorem Emulator.executeWord_bne (hop : opOf word = some .bne) (h : word ≠ haltWord) :
    e.executeWord word =
      if e.fetch.2.reg (extractBits word 25 21) != e.fetch.2.reg (extractBits word 20 16) then
        e.fetch.2.takeBranch (e.fetch.2.PC + signExt (immOf word) <<< 2)
      else e.fetch.2 := by
  unfold executeWord execute
  rw [if_neg h, decodedWord_op, hop]
  rfl

end Words

/-- `addiu $1, $1, -1`, then `bne $1, $0, -2` with `addiu $2, $2, 1` in its delay slot, in front
of the halt word. -/
def Text.countdown : Text where
  base := 0#32
  code := [0x2421ffff#32, 0x1420fffe#32, 0x24420001#32, haltWord]
  fits := by decide

section Countdown

variable {e : Emulator}

theorem countdown_decrement (h : e.PC = 0#32) :
    Text.countdown.next e = some (e.fetch.2.setReg 1#32 (e.registers 1#5 - 1#32)) := by
  have hword : Text.countdown.wordAt e.PC = some 0x2421ffff#32 := by
    rw [h]
    rfl
  have hnext := Text.next_of_wordAt hword rfl
  rw [e.executeWord_addiu rfl (by decide)] at hnext
  rw [BitVec.sub_eq_add_neg]
  exact hnext

theorem countdown_branch (h : e.PC = 4#32) (hslot : e.encounteredBranch = false) :
    Text.countdown.next e =
      some (if e.registers 1#5 != 0#32 then e.fetch.2.takeBranch 0#32 else e.fetch.2) := by
  have hword : Text.countdown.wordAt e.PC = some 0x1420fffe#32 := by
    rw [h]
    rfl
  have hnext := Text.next_of_wordAt hword rfl
  have hPC : e.fetch.2.PC = 8#32 := by
    rw [Emulator.fetch_PC hslot, h]
    rfl
  rw [e.executeWord_bne rfl (by decide), hPC] at hnext
  exact hnext

theorem countdown_increment (h : e.PC = 8#32) :
    Text.countdown.next e = some (e.fetch.2.setReg 2#32 (e.registers 2#5 + 1#32)) := by
  have hword : Text.countdown.wordAt e.PC = some 0x24420001#32 := by
    rw [h]
    rfl
  have hnext := Text.next_of_wordAt hword rfl
  rw [e.executeWord_addiu rfl (by decide)] at hnext
  exact hnext

theorem countdown_lap (hPC : e.PC = 0#32) (hslot : e.encounteredBranch = false) :
    exists e', Text.countdown.run 3 e = some e' ∧ e'.encounteredBranch = false ∧
      e'.registers 1#5 = e.registers 1#5 - 1#32 ∧ e'.registers 2#5 = e.registers 2#5 + 1#32 ∧
      e'.PC = if e'.registers 1#5 = 0#32 then 12#32 else 0#32 := by
  have hfirst := countdown_decrement hPC
  generalize hu : e.fetch.2.setReg 1#32 (e.registers 1#5 - 1#32) = u at hfirst
  have huPC : u.PC = 4#32 := by
    rw [← hu]
    change e.fetch.2.PC = _
    rw [Emulator.fetch_PC hslot, hPC]
    rfl
  have huslot : u.encounteredBranch = false := by
    rw [← hu]
    rfl
  have hsecond := countdown_branch huPC huslot
  generalize hv : (if u.registers 1#5 != 0#32 then u.fetch.2.takeBranch 0#32 else u.fetch.2) = v
    at hsecond
  -- the slot is left for the target or for the halt word behind it
  have hvPC : v.PC = 8#32 ∧ v.nextPC = (if u.registers 1#5 = 0#32 then 12#32 else 0#32) ∧
      v.registers 1#5 = u.registers 1#5 ∧ v.registers 2#5 = u.registers 2#5 := by
    have hnext : u.fetch.2.PC = 8#32 := by
      rw [Emulator.fetch_PC huslot, huPC]
      rfl
    rw [← hv]
    by_cases hzero : u.registers 1#5 = 0#32
    · rw [if_pos hzero, if_neg (by simp [hzero])]
      refine ⟨hnext, ?_, rfl, rfl⟩
      change u.fetch.2.fetch.2.PC = _
      rw [Emulator.fetch_PC rfl, hnext]
      rfl
    · rw [if_neg hzero, if_pos (bne_iff_ne.mpr hzero)]
      exact ⟨hnext, rfl, rfl, rfl⟩
  rcases hvPC with ⟨hvPC, hvnext, hvone, hvtwo⟩
  have hthird := countdown_increment hvPC
  have hrun : Text.countdown.run 3 e = some (v.fetch.2.setReg 2#32 (v.registers 2#5 + 1#32)) := by
    unfold Text.run
    rw [hfirst, Option.bind_some]
    unfold Text.run
    rw [hsecond, Option.bind_some]
    unfold Text.run
    rw [hthird]
    rfl
  have hone : u.registers 1#5 = e.registers 1#5 - 1#32 := by
    rw [← hu]
    rfl
  have htwo : u.registers 2#5 = e.registers 2#5 := by
    rw [← hu]
    rfl
  refine ⟨_, hrun, rfl, hvone.trans hone, ?_, ?_⟩
  · rw [← htwo, ← hvtwo]
    rfl
  · change v.nextPC = if v.registers 1#5 = 0#32 then _ else _
    rw [hvnext, hvone]

theorem countdown_proves :
    Text.countdown.Proves (fun m n : Nat => m < n)
      (fun e => if e.PC = 12#32 then 0 else (e.registers 1#5 - 1#32).toNat + 1)
      (fun e => e.encounteredBranch = false ∧ e.registers 1#5 + e.registers 2#5 = 0#32 ∧
        (e.PC = 0#32 ∨ e.PC = 12#32 ∧ e.registers 1#5 = 0#32))
      (fun e => e.registers 1#5 = 0#32 ∧ e.registers 2#5 = 0#32) := by
  intro e _ he
  rcases he with ⟨hslot, hsum, hPC | ⟨hPC, hzero⟩⟩
  · rcases countdown_lap hPC hslot with ⟨e', hrun, hslot', hone, htwo, hPC'⟩
    refine Or.inr ⟨3, e', hrun, ⟨hslot', ?_, ?_⟩, ?_⟩
    · rw [hone, htwo, ← hsum]
      bv_omega
    · rw [hPC']
      by_cases hzero : e'.registers 1#5 = 0#32
      · rw [if_pos hzero]
        exact Or.inr ⟨rfl, hzero⟩
      · rw [if_neg hzero]
        exact Or.inl rfl
    · dsimp only
      rw [hPC', hPC]
      by_cases hzero : e'.registers 1#5 = 0#32
      · rw [if_pos hzero, if_pos rfl, if_neg (by decide)]
        exact Nat.succ_pos _
      · rw [if_neg hzero, if_neg (by decide), if_neg (by decide), hone]
        rw [hone] at hzero
        bv_omega
  · refine Or.inl ⟨?_, hzero, ?_⟩
    · rw [hPC]
      rfl
    · rw [hzero, BitVec.zero_add] at hsum
      exact hsum

end Countdown

def Executables.countdownFiles : Files := fun path =>
  if path = "countdown.bin".toList then
    some ([0x24, 0x21, 0xff, 0xff, 0x14, 0x20, 0xff, 0xfe, 0x24, 0x42, 0x00, 0x01, 0xfe, 0xed,
      0xfe, 0xed].map Char.ofNat)
  else if path = "config".toList then some "8\n8\n1\n0\n8\n8\n1\n0\n".toList
  else none

theorem proved_programs_halt_countdown :
    exists fuel s memText, s.emulator.registers 1#5 = 0#32 ∧ s.emulator.registers 2#5 = 0#32 ∧
      cycleMain (fun _ => true) fuel
        ["sim_cycle".toList, "countdown.bin".toList, "config".toList] countdownFiles =
          some (.exited .halt, cycleFiles (fun _ => true) "countdown.bin".toList s memText
            countdownFiles) := by
  have hmem : exists mem, initialMemory countdownFiles "countdown.bin".toList = some mem ∧
      forall k, k < Text.countdown.code.length -> Text.countdown.code[k]? =
        some (mem.getMemValue (Text.countdown.address k) 0#32 wordSize).2 :=
    ⟨_, rfl, by decide +kernel⟩
  have hconfig : Configures countdownFiles "config".toList (ValidConfig.oneBlock 0#32)
      (ValidConfig.oneBlock 0#32) := ⟨_, rfl, rfl⟩
  rcases hmem with ⟨mem, hmem, hwords⟩
  have hentries : mem.numEntries < 2 ^ 32 := by
    rw [numEntries_initialMemory hmem]
    decide
  rcases proved_programs_halt Nat.lt_wfRel.wf Text.countdown _ _ _ countdown_proves (fun _ => true)
    "sim_cycle".toList "countdown.bin".toList "config".toList [] countdownFiles _ _ hconfig
    hmem ⟨hentries, hwords⟩ ⟨rfl, rfl, Or.inl rfl⟩ with
    ⟨_, memText, ⟨hone, htwo⟩, _, _, fuel, s, rfl, hcycle⟩
  exact ⟨fuel, s, memText, hone, htwo, hcycle⟩

end PipeSim
