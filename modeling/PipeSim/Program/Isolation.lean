import PipeSim.Program.Outputs

/-!
# Executions side by side

An execution looks at the initial image, the program, the range to print and, for `sim_cycle`,
the configuration, and changes no file but its own dumps.  Running it again therefore changes
nothing, and the two executables do not get into each other's way.
-/

namespace PipeSim

open Library

namespace Executables

/-- The files from which the memory is built and printed. -/
def machineInputs (inputFile : Path) : Set Path :=
  {path | path = "init_mem_image".toList ∨ path = "print_mem_range".toList ∨ path = inputFile}

def dumpPaths (inputFile : Path) (simulator : String) (dumps : List String) : Set Path :=
  {path | exists dump, dump ∈ dumps ∧ path = output inputFile simulator dump}

section Footprints

variable {writable : Path -> Bool} {inputFile name cacheFile : Path} {rest : List Path}
  {simulator : String} {R W : Set Path}

/-!
## Footprints
-/

theorem footprint_writeFile {path : Path} (h : path ∈ W) (text : List Char) :
    Footprint (writeFile writable path text) R W := by
  unfold writeFile
  split
  · exact (Footprint.writeAt h (some text)).bind fun _ => Footprint.pure _
  · exact Footprint.pure _

theorem footprint_newMemoryStore (hR : machineInputs inputFile ⊆ R) :
    Footprint (newMemoryStore inputFile) R W := by
  unfold newMemoryStore
  apply (Footprint.readAt (hR (Or.inl rfl))).bind
  intro initMem
  apply (Footprint.ofOption _).bind
  intro prepared
  dsimp only
  split
  · exact Footprint.pure _
  · exact (Footprint.readAt (hR (Or.inr (Or.inr rfl)))).bind fun _ => Footprint.pure _

theorem footprint_dumps (hR : machineInputs inputFile ⊆ R)
    (hW : forall dump, dump ∈ functDumps -> output inputFile simulator dump ∈ W) (e : Emulator)
    (stats : SimulationStats) :
    Footprint (do
      dumpRegMem writable e (getBaseFilename inputFile ++ simulator.toList)
      let _ <- dumpSimStats writable stats (getBaseFilename inputFile ++ simulator.toList)
      return .success : FileProgram Status) R W := by
  have hregisters := hW "_reg_state.out" (by decide)
  have hmemory := hW "_mem_state.out" (by decide)
  have hstats := hW "_sim_stats.out" (by decide)
  have hrange : Footprint (dumpMemoryState writable e.memory
      (getBaseFilename inputFile ++ simulator.toList)) R W := by
    unfold dumpMemoryState
    apply (Footprint.readAt (hR (Or.inr (Or.inl rfl)))).bind
    intro memRange
    apply (Footprint.ofOption _).bind
    intro text
    exact (footprint_writeFile hmemory text).bind fun _ => Footprint.pure _
  have hdump : Footprint (dumpRegMem writable e
      (getBaseFilename inputFile ++ simulator.toList)) R W := by
    unfold dumpRegMem dumpRegisterState
    exact (footprint_writeFile hregisters _).bind fun _ => hrange
  apply hdump.bind
  intro _
  unfold dumpSimStats
  exact (footprint_writeFile hstats _).bind fun _ => Footprint.pure _

theorem footprint_dumpPipeStates
    (hW : output inputFile simulator "_pipe_state.out" ∈ W) (lines : List Cycle.PipeState) :
    Footprint (dumpPipeStates writable false (getBaseFilename inputFile ++ simulator.toList)
      lines) R W := by
  cases lines with
  | nil =>
      exact Footprint.pure ()
  | cons state lines =>
      -- Appending reads the trace back, but only what the first line has put there.
      have hone : dumpPipeStates writable false (getBaseFilename inputFile ++ simulator.toList)
          (state :: lines) =
            (do
              let _ <- writeFile writable (output inputFile simulator "_pipe_state.out")
                (Cycle.pipeTrace (state :: lines))
              return () : FileProgram Unit) := by
        funext files
        rcases writeFile_apply writable (output inputFile simulator "_pipe_state.out")
          (Cycle.pipeTrace (state :: lines)) files with ⟨status, hwrite⟩
        rw [dumpPipeStates_apply (List.cons_ne_nil _ _), Program.bind_apply, hwrite]
        rfl
      rw [hone]
      exact (footprint_writeFile hW _).bind fun _ => Footprint.pure _

theorem output_mem_dumpPaths {dumps : List String} {dump : String} (h : dump ∈ dumps) :
    output inputFile simulator dump ∈ dumpPaths inputFile simulator dumps :=
  ⟨dump, h, rfl⟩

theorem footprint_functMain (writable : Path -> Bool) (fuel : Nat) (name inputFile : Path)
    (rest : List Path) :
    Footprint (functMain writable fuel (name :: inputFile :: rest)) (machineInputs inputFile)
      (dumpPaths inputFile "_funct" functDumps) := by
  unfold functMain
  apply (footprint_newMemoryStore (Set.Subset.refl _)).bind
  intro mem
  cases mem with
  | none =>
      exact Footprint.pure _
  | some mem =>
      apply (Footprint.ofOption _).bind
      intro run
      unfold finalizeEmulator
      exact (footprint_dumps (Set.Subset.refl _) (fun _ => output_mem_dumpPaths) _ _).bind
        fun _ => Footprint.pure _

theorem footprint_parseArgs (name inputFile : Path) :
    Footprint (parseArgs [name, inputFile, cacheFile]) (machineInputs inputFile ∪ {cacheFile})
      W := by
  have hread : Footprint (Program.readAt cacheFile : FileProgram _)
      (machineInputs inputFile ∪ {cacheFile}) W := Footprint.readAt (Or.inr rfl)
  unfold parseArgs
  dsimp only
  apply hread.bind
  intro file
  cases file with
  | none =>
      exact Footprint.pure _
  | some text =>
      exact Footprint.pure _

theorem inputFile_of_parseArgs {files files' : Files} {input : Path}
    {configs : CacheConfig × CacheConfig}
    (h : parseArgs [name, inputFile, cacheFile] files = some (.ok (input, configs), files')) :
    input = inputFile := by
  cases hfile : files cacheFile with
  | none =>
      unfold parseArgs at h
      dsimp only at h
      rw [Program.bind_apply, Program.readAt_apply, hfile] at h
      cases h
  | some text =>
      rw [parseArgs_apply hfile] at h
      cases hparse : Config.parseConfigs (InStream.ofFile (some text)) with
      | error message =>
          rw [hparse] at h
          cases h
      | ok read =>
          rw [hparse] at h
          cases h
          rfl

theorem footprint_cycleMain (writable : Path -> Bool) (fuel : Nat)
    (name inputFile cacheFile : Path) :
    Footprint (cycleMain writable fuel [name, inputFile, cacheFile])
      (machineInputs inputFile ∪ {cacheFile}) (dumpPaths inputFile "_cycle" cycleDumps) := by
  have hmachine : machineInputs inputFile ⊆ machineInputs inputFile ∪ {cacheFile} :=
    Set.subset_union_left
  unfold cycleMain
  apply (footprint_parseArgs name inputFile).bind_of_returns
  intro simArgs files files' hparse
  cases simArgs with
  | error message =>
      exact Footprint.pure _
  | ok args =>
      rcases args with ⟨input, ic, dc⟩
      have hinput := inputFile_of_parseArgs hparse
      subst hinput
      apply (footprint_newMemoryStore hmachine).bind
      intro mem
      cases mem with
      | none =>
          exact Footprint.pure _
      | some mem =>
          apply (Footprint.ofOption _).bind
          intro s
          apply (Footprint.ofOption _).bind
          intro run
          apply (footprint_dumpPipeStates (output_mem_dumpPaths (by decide)) _).bind
          intro _
          unfold finalizeSimulator
          exact (footprint_dumps hmachine (fun _ hdump => output_mem_dumpPaths
            (List.mem_cons_of_mem _ hdump)) _ _).bind fun _ => Footprint.pure _

/-!
## Paths that are read are not written
-/

theorem dumps_not_inputs : forall dump, dump ∈ cycleDumps ->
    ¬ dump.toList <:+ "init_mem_image".toList ∧ ¬ dump.toList <:+ "print_mem_range".toList := by
  decide

theorem not_mem_machineInputs {dumps : List String} (hdumps : dumps ⊆ cycleDumps)
    (hsimulator : simulator.toList.head? = some '_') {path : Path}
    (h : path ∈ dumpPaths inputFile simulator dumps) : path ∉ machineInputs inputFile := by
  rcases h with ⟨dump, hdump, rfl⟩
  have hends := dumps_not_inputs dump (hdumps hdump)
  intro hmem
  rcases hmem with himage | hrange | hinput
  · exact output_ne_of_not_suffix hends.1 himage
  · exact output_ne_of_not_suffix hends.2 hrange
  · exact output_ne_inputFile hsimulator hinput

theorem not_mem_cycleInputs {dumps : List String} (hdumps : dumps ⊆ cycleDumps)
    (hcache : cacheFile ∉ dumpPaths inputFile simulator dumps)
    (hsimulator : simulator.toList.head? = some '_') {path : Path}
    (h : path ∈ dumpPaths inputFile simulator dumps) :
    path ∉ machineInputs inputFile ∪ {cacheFile} := by
  intro hmem
  rcases hmem with hinput | heq
  · exact not_mem_machineInputs hdumps hsimulator h hinput
  · rcases h with ⟨dump, hdump, rfl⟩
    exact hcache ⟨dump, hdump, (Set.mem_singleton_iff.mp heq).symm⟩

theorem not_mem_dumpPaths {path : Path} {dumps : List String}
    (h : forall dump, dump ∈ dumps -> path ≠ output inputFile simulator dump) :
    path ∉ dumpPaths inputFile simulator dumps := by
  intro hmem
  rcases hmem with ⟨dump, hdump, heq⟩
  exact h dump hdump heq

theorem disjoint_dumpPaths {dumps dumps' : List String} {path : Path}
    (h : path ∈ dumpPaths inputFile "_funct" dumps) :
    path ∉ dumpPaths inputFile "_cycle" dumps' := by
  rcases h with ⟨dump, _, rfl⟩
  intro hmem
  rcases hmem with ⟨dump', _, heq⟩
  exact output_ne_simulator heq

end Footprints

end Executables

open Executables

/-- An execution that ends changes no file but its dumps, and the same execution again ends in the
same way and changes nothing at all, if the configuration is none of these dumps. -/
theorem executables_rerun (writable : Path -> Bool) (fuel : Nat)
    (name inputFile cacheFile : Path) (rest : List Path)
    (hcache : cacheFile ∉ dumpPaths inputFile "_cycle" cycleDumps) :
    (forall files exit files',
      functMain writable fuel (name :: inputFile :: rest) files = some (exit, files') ->
        (forall path, path ∉ dumpPaths inputFile "_funct" functDumps ->
          files' path = files path) ∧
        functMain writable fuel (name :: inputFile :: rest) files' = some (exit, files')) ∧
    forall files exit files',
      cycleMain writable fuel [name, inputFile, cacheFile] files = some (exit, files') ->
        (forall path, path ∉ dumpPaths inputFile "_cycle" cycleDumps ->
          files' path = files path) ∧
        cycleMain writable fuel [name, inputFile, cacheFile] files' = some (exit, files') := by
  have hfunct := footprint_functMain writable fuel name inputFile rest
  have hcycle := footprint_cycleMain writable fuel name inputFile cacheFile
  constructor
  · intro files exit files' hrun
    exact ⟨fun _ => hfunct.frame hrun, hfunct.rerun
      (fun _ => not_mem_machineInputs (List.subset_cons_self _ _) rfl) hrun⟩
  · intro files exit files' hrun
    exact ⟨fun _ => hcycle.frame hrun, hcycle.rerun
      (fun _ => not_mem_cycleInputs (List.Subset.refl _) hcache rfl) hrun⟩

theorem executables_rerun_trap :
    exists fuel files,
      cycleMain (fun _ => true) fuel ["sim_cycle".toList, "trap.bin".toList, "config".toList]
          trapFiles = some (.exited .halt, files) ∧
        files "config".toList = trapFiles "config".toList ∧
        cycleMain (fun _ => true) fuel ["sim_cycle".toList, "trap.bin".toList, "config".toList]
          files = some (.exited .halt, files) := by
  have hcache : "config".toList ∉ dumpPaths "trap.bin".toList "_cycle" cycleDumps :=
    not_mem_dumpPaths (by decide)
  rcases cycleMain_trapFiles with ⟨fuel, files, hrun⟩
  rcases (executables_rerun (fun _ => true) fuel "sim_cycle".toList "trap.bin".toList
    "config".toList [] hcache).2 trapFiles _ files hrun with ⟨hframe, hagain⟩
  exact ⟨fuel, files, hrun, hframe _ hcache, hagain⟩

/-- The two executables can be run on a program in either order, if the configuration is no dump
of `sim_funct`: they end in the same ways and leave the same files. -/
theorem executables_commute (writable : Path -> Bool) (fuel fuel' : Nat)
    (name name' inputFile cacheFile : Path) (rest : List Path)
    (hcache : cacheFile ∉ dumpPaths inputFile "_funct" functDumps)
    (files files' : Files) (exit exit' : Exit) :
    (exists between,
      functMain writable fuel (name :: inputFile :: rest) files = some (exit, between) ∧
        cycleMain writable fuel' [name', inputFile, cacheFile] between =
          some (exit', files')) <->
      exists between,
        cycleMain writable fuel' [name', inputFile, cacheFile] files = some (exit', between) ∧
          functMain writable fuel (name :: inputFile :: rest) between = some (exit, files') := by
  have hfunct := footprint_functMain writable fuel name inputFile rest
  have hcycle := footprint_cycleMain writable fuel' name' inputFile cacheFile
  have hfirst : forall path, path ∈ dumpPaths inputFile "_funct" functDumps ->
      path ∉ machineInputs inputFile ∪ {cacheFile} :=
    fun _ => not_mem_cycleInputs (List.subset_cons_self _ _) hcache rfl
  have hsecond : forall path, path ∈ dumpPaths inputFile "_cycle" cycleDumps ->
      path ∉ machineInputs inputFile :=
    fun _ => not_mem_machineInputs (List.Subset.refl _) rfl
  constructor
  · intro h
    rcases h with ⟨between, hrun, hrun'⟩
    exact hfunct.commute hcycle hfirst hsecond (fun _ => disjoint_dumpPaths) hrun hrun'
  · intro h
    rcases h with ⟨between, hrun, hrun'⟩
    exact hcycle.commute hfunct hsecond hfirst
      (fun _ hmem hmem' => disjoint_dumpPaths hmem' hmem) hrun hrun'

theorem executables_commute_trap :
    exists fuel fuel' between files,
      cycleMain (fun _ => true) fuel' ["sim_cycle".toList, "trap.bin".toList, "config".toList]
          trapFiles = some (.exited .halt, between) ∧
        functMain (fun _ => true) fuel ["sim_funct".toList, "trap.bin".toList] between =
          some (.exited .halt, files) := by
  have hcache : "config".toList ∉ dumpPaths "trap.bin".toList "_funct" functDumps :=
    not_mem_dumpPaths (by decide)
  rcases functMain_trapFiles with ⟨fuel, between, hfunct⟩
  rcases cycleMain_trapFiles with ⟨fuel', alone, hcycle⟩
  -- the cycle simulator on what the functional one leaves
  have hsame := (footprint_functMain (fun _ => true) fuel "sim_funct".toList "trap.bin".toList
    []).agreeOn hfunct fun _ => not_mem_cycleInputs (List.subset_cons_self _ _) hcache rfl
  rcases (footprint_cycleMain (fun _ => true) fuel' "sim_cycle".toList "trap.bin".toList
    "config".toList).returns hsame hcycle with ⟨files, hlater⟩
  rcases (executables_commute (fun _ => true) fuel fuel' "sim_funct".toList "sim_cycle".toList
    "trap.bin".toList "config".toList [] hcache trapFiles files _ _).mp
    ⟨between, hfunct, hlater⟩ with ⟨between', hfirst, hsecond⟩
  exact ⟨fuel, fuel', between', files, hfirst, hsecond⟩

end PipeSim
