import PipeSim.Cache.Model
import PipeSim.Library.DecimalStream

/-!
# The cache configuration file

`parseArgs` takes eight numbers from the configuration file, one from each line that holds
any text, and discards what is behind a number in its line.  The first number that is not
there, or does not fit into a word, is reported by its position and its name.
-/

namespace PipeSim

open Library

namespace Config

/-- What the calls of `parseNextLine` share: the stream and the number of calls. -/
structure Reader where
  file : InStream
  line : Nat

def parseError (line : Nat) (name : String) : String :=
  "Failed to parse property at line " ++ toString line ++ " for property " ++ name

/-- The local function `parseNextLine` of `parseArgs`. -/
def parseNextLine (name : String) (r : Reader) : Except String (Word × Reader) :=
  let line := r.line + 1
  let (file, value) := r.file.extractDec 0#32
  if file.fail then .error (parseError line name)
  else .ok (value, { file := file.getline.1, line := line })

/-- The part of `parseArgs` that reads the configuration file. -/
def parseConfigs (file : InStream) : Except String (CacheConfig × CacheConfig) := do
  let (iSize, r) <- parseNextLine "ICache cache size" { file := file, line := 0 }
  let (iBlock, r) <- parseNextLine "ICache block size" r
  let (iWays, r) <- parseNextLine "ICache ways" r
  let (iLatency, r) <- parseNextLine "ICache miss latency" r
  let (dSize, r) <- parseNextLine "DCache cache size" r
  let (dBlock, r) <- parseNextLine "DCache block size" r
  let (dWays, r) <- parseNextLine "DCache ways" r
  let (dLatency, _) <- parseNextLine "DCache miss latency" r
  return ({ cacheSize := iSize, blockSize := iBlock, ways := iWays, missLatency := iLatency },
    { cacheSize := dSize, blockSize := dBlock, ways := dWays, missLatency := dLatency })

/-!
## What a configuration file looks like
-/

structure Property where
  token : DecToken
  comment : List Char
  comment_head : forall c, c ∈ comment.head? -> Numeral.isDigit 10 c = false
  newline_not_mem : '\n' ∉ comment

namespace Property

def text (p : Property) : List Char := p.token.text ++ p.comment

def value (p : Property) : Word := p.token.word

end Property

/-- A property with the given value can be taken off; `none` stands for the end of the file,
which is also reached behind a last line without a line break. -/
def Takes (value : Word) (start rest : Option (List Char)) : Prop :=
  exists p : Property, p.value = value ∧
    ((exists text, start = some (p.text ++ '\n' :: text) ∧ rest = some text) ∨
      (start = some p.text ∧ rest = none))

inductive Properties : List Word -> Option (List Char) -> Option (List Char) -> Prop where
  | nil (start : Option (List Char)) : Properties [] start start
  | cons {value : Word} {values : List Word} {start mid rest : Option (List Char)}
      (h : Takes value start mid) (hs : Properties values mid rest) :
      Properties (value :: values) start rest

def Stuck (start : Option (List Char)) : Prop := forall value rest, ¬ Takes value start rest

def propertyNames : List String :=
  ["ICache cache size", "ICache block size", "ICache ways", "ICache miss latency",
    "DCache cache size", "DCache block size", "DCache ways", "DCache miss latency"]

def values (config : CacheConfig) : List Word :=
  [config.cacheSize, config.blockSize, config.ways, config.missLatency]

/-!
## One property
-/

def Reader.At (r : Reader) : Option (List Char) -> Prop
  | some text => r.file = { rest := text, eof := false, fail := false }
  | none => r.file.eof = true

section One

variable {r : Reader} {value : Word} {start rest : Option (List Char)}

theorem parseNextLine_of_takes (name : String) (hr : r.At start) (h : Takes value start rest) :
    exists r', parseNextLine name r = .ok (value, r') ∧ r'.At rest ∧ r'.line = r.line + 1 := by
  rcases h with ⟨p, rfl, ⟨text, rfl, rfl⟩ | ⟨rfl, rfl⟩⟩
  · have hfile : r.file = { rest := p.token.text ++ (p.comment ++ '\n' :: text),
                            eof := false, fail := false } := by
      rw [← List.append_assoc]
      exact hr
    have hhead : forall c, c ∈ (p.comment ++ '\n' :: text).head? ->
        Numeral.isDigit 10 c = false := by
      intro c hc
      rw [List.head?_append] at hc
      cases hcomment : p.comment with
      | nil =>
          rw [hcomment] at hc
          cases hc
          rfl
      | cons d comment =>
          rw [hcomment] at hc
          apply p.comment_head c
          rw [hcomment]
          exact hc
    unfold parseNextLine
    rw [hfile, p.token.extractDec hhead]
    exact ⟨_, rfl, InStream.getline_of_mem p.newline_not_mem, rfl⟩
  · have hfile : r.file = { rest := p.token.text ++ p.comment, eof := false, fail := false } := hr
    unfold parseNextLine
    rw [hfile, p.token.extractDec p.comment_head]
    exact ⟨_, rfl, InStream.getline_of_not_mem p.newline_not_mem, rfl⟩

theorem exists_takes_of_extractDec (hr : r.At start)
    (h : (r.file.extractDec 0#32).1.fail = false) : exists value rest, Takes value start rest := by
  cases start with
  | none =>
      rw [InStream.extractDec_of_eof hr] at h
      cases h
  | some text =>
      rw [show r.file = _ from hr] at h
      rcases InStream.exists_token_of_extractDec h with ⟨t, tail, rfl, htail⟩
      by_cases hnewline : '\n' ∈ tail
      · rcases List.eq_append_cons_of_mem hnewline with ⟨comment, text, rfl, hcomment⟩
        have hhead : forall c, c ∈ comment.head? -> Numeral.isDigit 10 c = false := by
          intro c hc
          apply htail
          rw [List.head?_append, Option.mem_def.mp hc]
          rfl
        refine ⟨t.word, some text, ⟨t, comment, hhead, hcomment⟩, rfl, Or.inl ⟨text, ?_, rfl⟩⟩
        exact congrArg some (List.append_assoc _ _ _).symm
      · exact ⟨t.word, none, ⟨t, tail, htail, hnewline⟩, rfl, Or.inr ⟨rfl, rfl⟩⟩

theorem parseNextLine_cases (name : String) (hr : r.At start) :
    (exists value rest r', Takes value start rest ∧ parseNextLine name r = .ok (value, r') ∧
        r'.At rest ∧ r'.line = r.line + 1) ∨
      (Stuck start ∧ parseNextLine name r = .error (parseError (r.line + 1) name)) := by
  by_cases htakes : exists value rest, Takes value start rest
  · rcases htakes with ⟨value, rest, htakes⟩
    rcases parseNextLine_of_takes name hr htakes with ⟨r', hparse, hrest, hline⟩
    exact Or.inl ⟨value, rest, r', htakes, hparse, hrest, hline⟩
  · refine Or.inr ⟨fun value rest h => htakes ⟨value, rest, h⟩, ?_⟩
    have hfail : (r.file.extractDec 0#32).1.fail = true :=
      Bool.eq_true_of_not_eq_false fun h => htakes (exists_takes_of_extractDec hr h)
    unfold parseNextLine
    dsimp only
    rw [if_pos hfail]

theorem Reader.At.unique (h : r.At start) (h' : r.At rest) : start = rest := by
  cases start with
  | none =>
      cases rest with
      | none =>
          rfl
      | some text =>
          have heof : r.file.eof = true := h
          rw [show r.file = _ from h'] at heof
          cases heof
  | some text =>
      have hfile : r.file = _ := h
      cases rest with
      | none =>
          have heof : r.file.eof = true := h'
          rw [hfile] at heof
          cases heof
      | some text' =>
          have hfile' : r.file = _ := h'
          rw [hfile] at hfile'
          injection hfile' with htext _ _
          rw [htext]

theorem Takes.unique {value' : Word} {rest' : Option (List Char)} (h : Takes value start rest)
    (h' : Takes value' start rest') : rest = rest' := by
  have hstart : exists text, start = some text := by
    rcases h with ⟨_, _, ⟨text, hstart, _⟩ | ⟨hstart, _⟩⟩
    · exact ⟨_, hstart⟩
    · exact ⟨_, hstart⟩
  rcases hstart with ⟨text, rfl⟩
  have hr : Reader.At { file := { rest := text, eof := false, fail := false }, line := 0 }
      (some text) := rfl
  rcases parseNextLine_of_takes "" hr h with ⟨r, hparse, hrest, _⟩
  rcases parseNextLine_of_takes "" hr h' with ⟨r', hparse', hrest', _⟩
  rw [hparse] at hparse'
  injection hparse' with hpair
  injection hpair with _ hreader
  subst hreader
  exact hrest.unique hrest'

end One

/-!
## All properties
-/

def parseProperties : List String -> Reader -> Except String (List Word)
  | [], _ => .ok []
  | name :: names, r => do
      let (value, r) <- parseNextLine name r
      let values <- parseProperties names r
      return value :: values

section All

variable {r : Reader} {vs : List Word} {start rest : Option (List Char)}

theorem parseProperties_of_properties (names : List String) (hr : r.At start)
    (h : Properties vs start rest) (hlength : vs.length = names.length) :
    parseProperties names r = .ok vs := by
  induction h generalizing names r with
  | nil start =>
      cases names with
      | nil =>
          rfl
      | cons name names =>
          cases hlength
  | cons htakes _ ih =>
      cases names with
      | nil =>
          cases hlength
      | cons name names =>
          rcases parseNextLine_of_takes name hr htakes with ⟨r', hparse, hr', _⟩
          rw [parseProperties, hparse]
          show (do
            let values <- parseProperties names r'
            return _ :: values) = _
          rw [ih names hr' (Nat.succ.inj hlength)]
          rfl

theorem parseProperties_cases (names : List String) (hr : r.At start) :
    (exists vs rest, vs.length = names.length ∧ Properties vs start rest ∧
        parseProperties names r = .ok vs) ∨
      exists k name vs rest, names[k]? = some name ∧ vs.length = k ∧ Properties vs start rest ∧
        Stuck rest ∧ parseProperties names r = .error (parseError (r.line + (k + 1)) name) := by
  induction names generalizing r start with
  | nil =>
      exact Or.inl ⟨[], start, rfl, Properties.nil start, rfl⟩
  | cons name names ih =>
      rcases parseNextLine_cases name hr with
        ⟨value, mid, r', htakes, hparse, hr', hline⟩ | ⟨hstuck, hparse⟩
      · rcases ih hr' with
          ⟨vs, rest, hlength, hvs, hrest⟩ | ⟨k, name', vs, rest, hname, hlength, hvs, hstuck, hrest⟩
        · refine Or.inl ⟨value :: vs, rest, congrArg Nat.succ hlength,
            Properties.cons htakes hvs, ?_⟩
          rw [parseProperties, hparse]
          show (do
            let values <- parseProperties names r'
            return value :: values) = _
          rw [hrest]
          rfl
        · refine Or.inr ⟨k + 1, name', value :: vs, rest, hname, congrArg Nat.succ hlength,
            Properties.cons htakes hvs, hstuck, ?_⟩
          rw [parseProperties, hparse]
          show (do
            let values <- parseProperties names r'
            return value :: values) = _
          rw [hrest, hline, Nat.add_assoc, Nat.add_comm 1]
          rfl
      · refine Or.inr ⟨0, name, [], start, rfl, rfl, Properties.nil start, hstuck, ?_⟩
        rw [parseProperties, hparse]
        rfl

theorem Properties.length_le (h : Properties vs start rest) (hstuck : Stuck rest)
    {vs' : List Word} {rest' : Option (List Char)} (h' : Properties vs' start rest') :
    vs'.length ≤ vs.length := by
  induction h generalizing vs' with
  | nil start =>
      cases h' with
      | nil _ =>
          exact Nat.le_refl _
      | cons htakes _ =>
          exact absurd htakes (hstuck _ _)
  | cons htakes _ ih =>
      cases h' with
      | nil _ =>
          exact Nat.zero_le _
      | cons htakes' hs' =>
          rw [← htakes.unique htakes'] at hs'
          exact Nat.succ_le_succ (ih hstuck hs')

/-- The numbers that are taken off. -/
theorem parseProperties_eq_ok_iff (names : List String) (hr : r.At start) :
    parseProperties names r = .ok vs <->
      vs.length = names.length ∧ exists rest, Properties vs start rest := by
  constructor
  · intro h
    rcases parseProperties_cases names hr with
      ⟨vs', rest, hlength, hvs, hparse⟩ | ⟨_, _, _, _, _, _, _, _, hparse⟩
    · rw [hparse] at h
      injection h with hsame
      rw [← hsame]
      exact ⟨hlength, rest, hvs⟩
    · rw [hparse] at h
      cases h
  · intro h
    rcases h with ⟨hlength, rest, hvs⟩
    exact parseProperties_of_properties names hr hvs hlength

theorem parseProperties_eq_error_iff (names : List String) (hr : r.At start)
    {message : String} :
    parseProperties names r = .error message <->
      exists k name vs rest, names[k]? = some name ∧ vs.length = k ∧ Properties vs start rest ∧
        Stuck rest ∧ message = parseError (r.line + (k + 1)) name := by
  rcases parseProperties_cases names hr with
    ⟨vs, rest, hlength, hvs, hparse⟩ | ⟨k, name, vs, rest, hname, hlength, hvs, hstuck, hparse⟩
  · rw [hparse]
    constructor
    · intro h
      cases h
    · intro h
      rcases h with ⟨k, name, vs', rest', hname, hlength', hvs', hstuck, _⟩
      have hk := (List.getElem?_eq_some_iff.mp hname).1
      have hle := hvs'.length_le hstuck hvs
      lia
  · rw [hparse]
    constructor
    · intro h
      injection h with hmessage
      exact ⟨k, name, vs, rest, hname, hlength, hvs, hstuck, hmessage.symm⟩
    · intro h
      rcases h with ⟨k', name', vs', rest', hname', hlength', hvs', hstuck', rfl⟩
      have hle := hvs.length_le hstuck hvs'
      have hge := hvs'.length_le hstuck' hvs
      have hk : k' = k := by
        lia
      subst hk
      rw [hname] at hname'
      injection hname' with hnames
      rw [hnames]

def configsOf : List Word -> Except String (CacheConfig × CacheConfig)
  | [iSize, iBlock, iWays, iLatency, dSize, dBlock, dWays, dLatency] =>
      .ok ({ cacheSize := iSize, blockSize := iBlock, ways := iWays, missLatency := iLatency },
        { cacheSize := dSize, blockSize := dBlock, ways := dWays, missLatency := dLatency })
  | _ => .error ""

theorem parseConfigs_eq (file : InStream) :
    parseConfigs file =
      parseProperties propertyNames { file := file, line := 0 } >>= configsOf := by
  unfold parseConfigs propertyNames
  simp only [parseProperties, bind_assoc, pure_bind]
  rfl

theorem configsOf_eq_ok {ic dc : CacheConfig} :
    configsOf vs = .ok (ic, dc) <-> vs = values ic ++ values dc := by
  constructor
  · intro h
    unfold configsOf at h
    split at h
    · cases h
      rfl
    · cases h
  · intro h
    subst h
    rfl

theorem exists_configsOf (hlength : vs.length = propertyNames.length) :
    exists configs, configsOf vs = .ok configs := by
  unfold configsOf
  split
  · exact ⟨_, rfl⟩
  · rename_i hne
    match vs, hlength with
    | [a, b, c, d, e, f, g, h], _ =>
        exact absurd rfl (hne a b c d e f g h)

theorem bind_configsOf_eq_ok {result : Except String (List Word)} {ic dc : CacheConfig} :
    result >>= configsOf = .ok (ic, dc) <-> result = .ok (values ic ++ values dc) := by
  cases result with
  | error message =>
      exact iff_of_false (fun h => by cases h) (fun h => by cases h)
  | ok vs =>
      change configsOf vs = _ <-> _
      rw [configsOf_eq_ok, Except.ok.injEq]

theorem bind_configsOf_eq_error {result : Except String (List Word)} {message : String}
    (hlength : forall vs, result = .ok vs -> vs.length = propertyNames.length) :
    result >>= configsOf = .error message <-> result = .error message := by
  cases result with
  | error _ =>
      change Except.error _ = _ <-> _
      rw [Except.error.injEq, Except.error.injEq]
  | ok vs =>
      rcases exists_configsOf (hlength vs rfl) with ⟨configs, hconfigs⟩
      change configsOf vs = _ <-> _
      rw [hconfigs]
      exact iff_of_false (fun h => by cases h) (fun h => by cases h)

theorem at_ofFile (text : List Char) :
    Reader.At { file := InStream.ofFile (some text), line := 0 } (some text) := rfl

theorem parseConfigs_eq_ok_iff (text : List Char) {ic dc : CacheConfig} :
    parseConfigs (InStream.ofFile (some text)) = .ok (ic, dc) <->
      exists rest, Properties (values ic ++ values dc) (some text) rest := by
  rw [parseConfigs_eq, bind_configsOf_eq_ok,
    parseProperties_eq_ok_iff propertyNames (at_ofFile text)]
  exact and_iff_right rfl

theorem parseConfigs_eq_error_iff (text : List Char) {message : String} :
    parseConfigs (InStream.ofFile (some text)) = .error message <->
      exists (k : Nat) (name : String) (vs : List Word) (rest : Option (List Char)),
        propertyNames[k]? = some name ∧ vs.length = k ∧ Properties vs (some text) rest ∧
          Stuck rest ∧ message = parseError (k + 1) name := by
  rw [parseConfigs_eq, bind_configsOf_eq_error fun vs hvs =>
      ((parseProperties_eq_ok_iff propertyNames (at_ofFile text)).mp hvs).1,
    parseProperties_eq_error_iff propertyNames (at_ofFile text)]
  simp only [Nat.zero_add]

end All

end Config

/-- A configuration file is accepted with the numbers of eight properties that can be taken off
it in turn; otherwise the first one that cannot be is reported by its position and name. -/
theorem parseConfigs_exact (text : List Char) :
    (forall ic dc, Config.parseConfigs (InStream.ofFile (some text)) = .ok (ic, dc) <->
        exists rest, Config.Properties (Config.values ic ++ Config.values dc) (some text) rest) ∧
      forall message, Config.parseConfigs (InStream.ofFile (some text)) = .error message <->
        exists (k : Nat) (name : String) (vs : List Word) (rest : Option (List Char)),
          Config.propertyNames[k]? = some name ∧ vs.length = k ∧
            Config.Properties vs (some text) rest ∧ Config.Stuck rest ∧
            message = Config.parseError (k + 1) name :=
  ⟨fun _ _ => Config.parseConfigs_eq_ok_iff text, fun _ => Config.parseConfigs_eq_error_iff text⟩

end PipeSim
