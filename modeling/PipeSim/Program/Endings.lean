import PipeSim.Program.Outputs

/-!
# How the executables end

An execution that comes to its end has been told too little and exits with `ERROR`, cannot
build its memory and is aborted, or has run to the halt word and exits with `HALT`.  Only the
last one leaves files behind.
-/

namespace PipeSim

open Library

namespace Executables

def Describes (initMem : Option (List Char)) (writes : List MemoryStore.Write) : Prop :=
  (initMem = none ∧ writes = []) ∨
    exists pairs text, initMem = some text ∧ ImageText pairs text ∧
      writes = attemptedWrites pairs

/-- The memory cannot be built: the image has an entry that runs over the memory, or the length
of the program does not fit into an `int` without a sign. -/
def CannotLoad (files : Files) (writes : List MemoryStore.Write) (inputFile : Path) : Prop :=
  (exists w, w ∈ writes ∧
      ¬ (MemoryStore.cleared 0#32 memorySize).Inside w.address w.size) ∨
    exists text, files inputFile = some text ∧ 2 ^ 31 ≤ text.length % 2 ^ 32

section Loading

variable {files : Files} {writes : List MemoryStore.Write} {inputFile : Path}

theorem loadFromFile_eq_none_iff {m : MemoryStore} {file : Option (List Byte)} :
    m.loadFromFile file = none <->
      exists buf, file = some buf ∧ 2 ^ 31 ≤ buf.length % 2 ^ 32 := by
  unfold MemoryStore.loadFromFile
  cases file with
  | none =>
      refine iff_of_false (Option.some_ne_none _) ?_
      intro h
      rcases h with ⟨buf, heq, _⟩
      cases heq
  | some buf =>
      have hsign : (BitVec.ofNat 32 buf.length).toInt < 0 <->
          2 ^ 31 ≤ buf.length % 2 ^ 32 := by
        rw [BitVec.toInt_neg_iff, BitVec.toNat_ofNat]
        lia
      dsimp only
      split
      · rename_i hneg
        exact iff_of_true rfl ⟨buf, rfl, hsign.mp hneg⟩
      · rename_i hnonneg
        refine iff_of_false (Option.some_ne_none _) ?_
        intro h
        rcases h with ⟨_, heq, hlong⟩
        cases heq
        exact hnonneg (hsign.mpr hlong)

theorem prepareMemory_of_describes {initMem : Option (List Char)}
    (h : Describes initMem writes) :
    prepareMemory (imageFuel initMem) initMem (MemoryStore.cleared 0#32 memorySize) =
      some ((MemoryStore.cleared 0#32 memorySize).setUntilError writes) := by
  rcases h with ⟨rfl, rfl⟩ | ⟨pairs, text, rfl, htext, rfl⟩
  · rfl
  · rcases exists_prepareMemory (some text) (MemoryStore.cleared 0#32 memorySize) with
      ⟨result, hresult⟩
    have himage : prepareMemoryLoop _ (InStream.ofFile (some text))
        (MemoryStore.cleared 0#32 memorySize) = some (MemoryStore.setUntilError _ _) :=
      prepareMemoryLoop_image htext fun heof => absurd heof Bool.false_ne_true
    rw [hresult, prepareMemoryLoop_unique hresult himage]

theorem validSize_of_describes {initMem : Option (List Char)} (h : Describes initMem writes) :
    forall w, w ∈ writes -> MemoryStore.validSize w.size = true := by
  rcases h with ⟨_, rfl⟩ | ⟨pairs, text, _, _, rfl⟩
  · exact fun w hw => absurd hw List.not_mem_nil
  · exact fun w => validSize_of_mem_attemptedWrites

theorem initialMemory_eq_none_iff
    (h : Describes (files "init_mem_image".toList) writes) (inputFile : Path) :
    initialMemory files inputFile = none <-> CannotLoad files writes inputFile := by
  have hlong : (exists buf, (files inputFile).map bytesOf = some buf ∧
      2 ^ 31 ≤ buf.length % 2 ^ 32) <->
        exists text, files inputFile = some text ∧ 2 ^ 31 ≤ text.length % 2 ^ 32 := by
    cases files inputFile with
    | none =>
        simp
    | some text =>
        simp [bytesOf]
  have hentries : (MemoryStore.cleared 0#32 memorySize).numEntries < 2 ^ 32 := by
    decide
  rcases MemoryStore.setUntilError_stops hentries (validSize_of_describes h) with
    ⟨done, hstops, _⟩
  unfold initialMemory CannotLoad
  dsimp only
  rw [prepareMemory_of_describes h, Option.bind_some]
  rcases hstops with ⟨hcode, _, hall⟩ | ⟨hcode, before, w, after, rfl, _, _, hout⟩
  · rw [hcode, if_neg (not_not.mpr rfl), Option.map_eq_none_iff, loadFromFile_eq_none_iff, hlong]
    constructor
    · exact Or.inr
    · intro hor
      rcases hor with ⟨w, hw, hout⟩ | hlong
      · exact absurd (hall w hw) hout
      · exact hlong
  · rw [hcode, if_pos (by decide)]
    exact iff_of_true rfl (Or.inl ⟨w, List.mem_append_right _ List.mem_cons_self, hout⟩)

end Loading

/-- The configuration file is there and eight properties can be taken off it in turn. -/
def HasProperties (files : Files) (cacheFile : Path) : Prop :=
  exists text vs rest, files cacheFile = some text ∧ vs.length = 8 ∧
    Config.Properties vs (some text) rest

section Arguments

variable {files : Files} {name inputFile cacheFile : Path} {argv : List Path}

theorem parseArgs_of_length (h : argv.length ≠ 3) (files : Files) :
    parseArgs argv files = some (.error (usage argv), files) := by
  unfold parseArgs
  split
  · exact absurd rfl h
  · rfl

theorem exists_configs_iff (text : List Char) :
    (exists configs, Config.parseConfigs (InStream.ofFile (some text)) = .ok configs) <->
      exists vs rest, vs.length = 8 ∧ Config.Properties vs (some text) rest := by
  constructor
  · intro h
    rcases h with ⟨⟨ic, dc⟩, hconfigs⟩
    rcases (Config.parseConfigs_eq_ok_iff text).mp hconfigs with ⟨rest, hvs⟩
    exact ⟨_, rest, rfl, hvs⟩
  · intro h
    rcases h with ⟨vs, rest, hlength, hvs⟩
    rw [Config.parseConfigs_eq, Config.parseProperties_of_properties Config.propertyNames
      (Config.at_ofFile text) hvs hlength]
    exact Config.exists_configsOf hlength

theorem parseArgs_cases (name inputFile cacheFile : Path) (files : Files) :
    (HasProperties files cacheFile ∧ exists configs,
        parseArgs [name, inputFile, cacheFile] files =
          some (.ok (inputFile, configs), files)) ∨
      (¬ HasProperties files cacheFile ∧ exists message,
        parseArgs [name, inputFile, cacheFile] files = some (.error message, files)) := by
  cases hfile : files cacheFile with
  | none =>
      apply Or.inr
      constructor
      · intro h
        rcases h with ⟨text, _, _, htext, _, _⟩
        rw [hfile] at htext
        cases htext
      · refine ⟨"Failed to open cache config file: " ++ String.ofList cacheFile, ?_⟩
        unfold parseArgs
        dsimp only
        rw [Program.bind_apply, Program.readAt_apply, hfile]
        rfl
  | some text =>
      have hiff := exists_configs_iff text
      rw [parseArgs_apply hfile]
      cases hparse : Config.parseConfigs (InStream.ofFile (some text)) with
      | error message =>
          apply Or.inr
          refine ⟨?_, message, rfl⟩
          intro h
          rcases h with ⟨text', vs, rest, htext, hlength, hvs⟩
          rw [hfile] at htext
          cases htext
          rcases hiff.mpr ⟨vs, rest, hlength, hvs⟩ with ⟨configs, hconfigs⟩
          rw [hparse] at hconfigs
          cases hconfigs
      | ok configs =>
          rcases hiff.mp ⟨configs, hparse⟩ with ⟨vs, rest, hlength, hvs⟩
          exact Or.inl ⟨⟨text, vs, rest, hfile, hlength, hvs⟩, configs, rfl⟩

end Arguments

section Endings

variable {writable : Path -> Bool} {files files' : Files} {exit : Exit} {fuel : Nat}
  {name inputFile cacheFile : Path} {rest : List Path} {mem : MemoryStore}

theorem functMain_exit (hmem : initialMemory files inputFile = some mem)
    (h : functMain writable fuel (name :: inputFile :: rest) files = some (exit, files')) :
    exit = .exited .halt := by
  rcases (functMain_returns_iff hmem).mp ⟨fuel, h⟩ with ⟨_, _, _, _, _, hr⟩
  exact congrArg Prod.fst hr

theorem cycleMain_of_parseArgs_error {argv : List Path} {message : String}
    (hparse : parseArgs argv files = some (.error message, files)) (writable : Path -> Bool)
    (fuel : Nat) : cycleMain writable fuel argv files = some (.exited .error, files) := by
  unfold cycleMain
  rw [Program.bind_apply, hparse]
  rfl

theorem cycleMain_exit {argv : List Path} {configs : CacheConfig × CacheConfig}
    (hparse : parseArgs argv files = some (.ok (inputFile, configs), files))
    (h : cycleMain writable fuel argv files = some (exit, files')) :
    (initialMemory files inputFile = none ∧ exit = .aborted ∧ files' = files) ∨
      (initialMemory files inputFile ≠ none ∧ exit = .exited .halt) := by
  unfold cycleMain at h
  rw [Program.bind_apply, hparse] at h
  dsimp only [Option.bind_some] at h
  rw [Program.bind_apply, newMemoryStore_apply] at h
  dsimp only [Option.bind_some] at h
  cases hmem : initialMemory files inputFile with
  | none =>
      rw [hmem] at h
      cases h
      exact Or.inl ⟨rfl, rfl, rfl⟩
  | some mem =>
      refine Or.inr ⟨Option.some_ne_none mem, ?_⟩
      rw [hmem] at h
      dsimp only at h
      rcases Option.bind_eq_some_iff.mp h with ⟨⟨s, files₁⟩, _, h⟩
      rcases Option.bind_eq_some_iff.mp h with ⟨⟨run, files₂⟩, hrun, h⟩
      rcases Option.bind_eq_some_iff.mp h with ⟨⟨_, files₃⟩, _, h⟩
      rcases Option.bind_eq_some_iff.mp h with ⟨⟨_, files₄⟩, _, h⟩
      cases h
      rw [Program.ofOption_apply, Cycle.runTillHalt_eq_runFuel] at hrun
      rcases Option.map_eq_some_iff.mp hrun with ⟨_, hhalt, heq⟩
      rcases Option.map_eq_some_iff.mp hhalt with ⟨_, _, rfl⟩
      cases heq
      rfl

end Endings

end Executables

open Executables

/-- An execution that returns exits with `ERROR` on bad arguments, is aborted when the memory
cannot be built, and otherwise exits with `HALT`; it never exits with `SUCCESS`, and leaves files
behind in the third case only.  One that runs for ever, or whose caches are not defined, returns
nothing. -/
theorem executables_endings (writable : Path -> Bool) (files : Files)
    (writes : List MemoryStore.Write)
    (hinit : Describes (files "init_mem_image".toList) writes) :
    (forall fuel argv exit files',
      functMain writable fuel argv files = some (exit, files') ->
        (exit = .exited .error <-> argv.length < 2) ∧
        (exit = .aborted <-> exists name inputFile rest, argv = name :: inputFile :: rest ∧
          CannotLoad files writes inputFile) ∧
        exit ≠ .exited .success ∧ (exit ≠ .exited .halt -> files' = files)) ∧
    forall fuel argv exit files',
      cycleMain writable fuel argv files = some (exit, files') ->
        (exit = .exited .error <-> ¬ exists name inputFile cacheFile,
          argv = [name, inputFile, cacheFile] ∧ HasProperties files cacheFile) ∧
        (exit = .aborted <-> exists name inputFile cacheFile,
          argv = [name, inputFile, cacheFile] ∧ HasProperties files cacheFile ∧
            CannotLoad files writes inputFile) ∧
        exit ≠ .exited .success ∧ (exit ≠ .exited .halt -> files' = files) := by
  have hload := initialMemory_eq_none_iff hinit
  constructor
  · intro fuel argv exit files' h
    rcases argv with _ | ⟨name, _ | ⟨inputFile, rest⟩⟩
    · cases h
      simp
    · cases h
      simp
    · cases hmem : initialMemory files inputFile with
      | none =>
          rw [functMain_of_none writable name rest fuel hmem] at h
          cases h
          simpa using (hload inputFile).mp hmem
      | some mem =>
          have hexit := functMain_exit hmem h
          have hcan : ¬ CannotLoad files writes inputFile := by
            rw [← hload, hmem]
            exact Option.some_ne_none mem
          subst hexit
          simpa using hcan
  · intro fuel argv exit files' h
    by_cases hlength : argv.length = 3
    · rcases List.length_eq_three.mp hlength with ⟨name, inputFile, cacheFile, rfl⟩
      rcases parseArgs_cases name inputFile cacheFile files with
        ⟨hproperties, configs, hparse⟩ | ⟨hproperties, message, hparse⟩
      · rcases cycleMain_exit hparse h with ⟨hmem, rfl, rfl⟩ | ⟨hmem, rfl⟩
        · have hcannot := (hload inputFile).mp hmem
          simp [hproperties, hcannot]
        · have hcan : ¬ CannotLoad files writes inputFile := fun hc =>
            hmem ((hload inputFile).mpr hc)
          simp [hproperties, hcan]
      · rw [cycleMain_of_parseArgs_error hparse] at h
        cases h
        simp [hproperties]
    · rw [cycleMain_of_parseArgs_error (parseArgs_of_length hlength files)] at h
      cases h
      have hne : forall name inputFile cacheFile, argv ≠ [name, inputFile, cacheFile] := by
        intro name inputFile cacheFile heq
        rw [heq] at hlength
        exact hlength rfl
      simp [hne]

/-- An initial image with a pair outside the memory, and nothing else. -/
def Executables.badImage : Files := fun path =>
  if path = "init_mem_image".toList then
    some (HexToken.digits.text ++ ([' '] ++ HexToken.eight.text))
  else none

theorem executables_endings_bad_image :
    exists name inputFile rest, ["sim_funct".toList, "fib.bin".toList] = name :: inputFile :: rest ∧
      CannotLoad badImage (attemptedWrites [(HexToken.digits, HexToken.eight)]) inputFile := by
  have hinit : Describes (badImage "init_mem_image".toList)
      (attemptedWrites [(HexToken.digits, HexToken.eight)]) :=
    Or.inr ⟨_, _, rfl, imageText_single HexToken.digits HexToken.eight, rfl⟩
  have hrun : functMain (fun _ => true) 0 ["sim_funct".toList, "fib.bin".toList] badImage =
      some (.aborted, badImage) := functMain_of_none _ _ _ 0 rfl
  exact ((executables_endings (fun _ => true) badImage _ hinit).1 _ _ _ _ hrun).2.1.mp rfl

end PipeSim
